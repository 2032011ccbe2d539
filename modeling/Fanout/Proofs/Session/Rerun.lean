import Fanout.Proofs.Emission.Plan
import Fanout.Proofs.Session.ExactlyOnce

/-!
# Running a session again

A session that went well is run again, on the disk that the first run left: it goes well again,
reports the same but for the time taken, and leaves the disk as it is.  The compiler goes by a plan,
and its own entry point by a script, so that neither looks at the disk.

* `emission_again`: the emission of the second run writes the files of the first one in the same
  places, logs the same paths, records the same units and ends the same way.
* `get?_again`: the units that were recorded change nothing in the sink of the caller, and a new
  sink comes to hold the same ones.

The main result is `run_again`.
-/

set_option autoImplicit false

namespace Fanout.Session

variable {ρ τ : Type} {c : Compiler ρ (OnDisk τ)} {sequence : EmitSequence ρ (OnDisk τ)}
  {address : Nat} {script : EmitCall ρ → Options → EmitScript}
  {plan : Handle → Options → Option CustomPasses → Plan ρ}

/-- **An emission is done again** in a world with the disk that it left: through a fan-out with any
address, and over whatever sink the run there records in. -/
theorem emission_again (he : c.slot.Scripted script) (hp : GoesBy plan sequence) {s : Session}
    {registry : Registry} {w w' v : World (OnDisk τ)} (hw : w.state.disk.IsTree)
    {result : Except BuildError EmitResult} {c' : Compiler ρ (OnDisk τ)}
    (h : s.emission registry c sequence address w = (result, c', w'))
    (hv : v.state.disk = w'.state.disk) (address' : Nat) :
    c'.handle = c.handle ∧ ∃ ops paths units result' c'' v', w.state.disk.Fits ops ∧
      Leaves (.watching (s.sinkFor w.sinks).1) (s.opened w) ops paths units w' ∧
      s.emission registry c sequence address' v = (result', c'', v') ∧ c''.handle = c.handle ∧
      blurred result' = blurred result ∧
      Leaves (.watching (s.sinkFor v.sinks).1) (s.opened v) (Disk.files ops) paths units v' := by
  have hemission (address : Nat) (w : World (OnDisk τ)) :=
    hp (s.wrapped registry c address w) registry.primary.options s.custom (s.opened w)
  obtain ⟨_, slot, rest, hresult, hsequence⟩ := hemission address w
  cases hsequence.symm.trans h
  obtain ⟨result', slot', rest', hresult', hsequence'⟩ := hemission address' v
  obtain ⟨ops, paths, units, hfits, ⟨hdisk, hwritten, hset⟩, hagain⟩ :=
    Plan.again he address address' registry (s.sinkFor w.sinks).1 (s.sinkFor v.sinks).1
      (plan c.handle registry.primary.options s.custom) (s.opened w) hw
  have hleft : (s.opened v).state.disk = w.state.disk.putAll ops := hv.trans hdisk
  obtain ⟨hsame, hdisk', hwritten', hset'⟩ := hagain (s.opened v) (hleft ▸ hfits.isTree hw)
    (hv ▸ .refl _)
  exact ⟨rfl, ops, paths, units, result', _, _, hfits, ⟨hdisk, hwritten, hset⟩, hsequence', rfl,
    hresult'.trans (hsame.trans hresult.symm), ⟨hdisk', hwritten', hset'⟩⟩

/-- Two runs one after the other leave the same set in their sinks, if they record the same. -/
theorem get?_again (s : Session) {before after before' after' : Sinks} {units : List Path}
    (h : after.get? (s.sinkFor before).1 =
      ((s.sinkFor before).2.get? (s.sinkFor before).1).map (·.insertAll units))
    (h' : after'.get? (s.sinkFor before').1 =
      ((s.sinkFor before').2.get? (s.sinkFor before').1).map (·.insertAll units))
    (hs : ∀ k, s.sink = some k → before'.get? k = after.get? k) :
    after'.get? (s.sinkFor before').1 = after.get? (s.sinkFor before).1 := by
  unfold sinkFor at h h' ⊢
  cases hk : s.sink with
  | none =>
    simp only [hk, Sinks.get?_fresh] at h h' ⊢
    rw [h, h']
  | some k =>
    simp only [hk] at h h' ⊢
    rw [h', hs k hk, h, Option.map_map]
    congr 1
    funext set
    exact set.insertAll_insertAll units

/-- **A session that went well is run again to the same effect.**  Let the entry point of a compiler
go by a script and the compiler by a plan, and let a run on any tree go well.  Then so does another
run of the session on that compiler, in a world with the same disk and with the same set in the sink
of the caller, if there is one.  Only the time in its report may differ, and the disk stays as it
is. -/
theorem run_again (s : Session) (he : c.slot.Scripted script) (hp : GoesBy plan sequence)
    {w w' : World (OnDisk τ)} (hw : w.state.disk.IsTree) {elapsed : Elapsed} {report : Report}
    {c' : Compiler ρ (OnDisk τ)}
    (h : s.run c sequence address elapsed w = (.ok report, c', w')) (address' : Nat)
    (elapsed' : Elapsed) {v : World (OnDisk τ)} (hdisk : v.state.disk = w'.state.disk)
    (hsink : ∀ k, s.sink = some k → v.sinks.get? k = w'.sinks.get? k) :
    ∃ v', s.run c' sequence address' elapsed' v =
        (.ok { report with elapsed := elapsed' }, c', v') ∧
      v'.state.disk = v.state.disk := by
  cases hr : s.resolve with
  | error e =>
    rw [run_of_resolve_error hr] at h
    cases h
  | ok registry =>
    obtain ⟨result, c₁, hfirst, rfl⟩ := run_eq_ok hr h
    obtain ⟨hhandle, ops, paths, units, result', c₂, v', hfits, hleaves, hsecond, hhandle', hresult,
      hredo⟩ := emission_again he hp hw hfirst hdisk address'
    -- a compiler that keeps its handle is given back, and is what the second run starts from
    rw [run_of_emission hr hfirst hhandle] at h
    cases h
    rw [run_of_emission hr hsecond hhandle', blurred_eq_ok hresult]
    refine ⟨v', ?_, ?_⟩
    · have hwritten : v'.state.written = w'.state.written :=
        hredo.written.trans hleaves.written.symm
      have hset := get?_again s hleaves.set? hredo.set? hsink
      simp only [Except.map, report, Sinks.get_eq, hset, hwritten]
    · have hleft : v.state.disk = w.state.disk.putAll ops := hdisk.trans hleaves.disk
      calc v'.state.disk = v.state.disk.putAll (Disk.files ops) := hredo.disk
        _ = (w.state.disk.putAll ops).putAll (Disk.files ops) := by rw [hleft]
        _ = w.state.disk.putAll ops := hfits.putAll_files
        _ = v.state.disk := hleft.symm

/-- One file for each unit, where the options place it. -/
def oneFileScript (call : EmitCall Unit) (o : Options) : EmitScript :=
  .ofFiles (.ok {}) (call.target.toList.map fun unit => (o.outputPath unit "js", ""))

theorem oneFileEach_scripted (address : Nat) :
    (EntryPoint.emitter address oneFileEach).Scripted oneFileScript := by
  intro call o s
  unfold oneFileEach oneFileScript
  cases call.target with
  | none => exact ⟨_, s.rest, rfl, rfl⟩
  | some unit =>
    simp only [Option.toList_some, List.map_cons, List.map_nil, EmitScript.ofFiles, EmitScript.play,
      DiskHost.withOptions]
    rcases DiskHost.write (o.outputPath unit "js") "" s with ⟨_ | _, s'⟩
    · exact ⟨_, s'.rest, (blurred_blurred _).symm, rfl⟩
    · exact ⟨_, s'.rest, rfl, rfl⟩

/-- Two spellings of one unit, so that each file is written twice; the caller's sink has one of them
already. -/
theorem run_again_pair :
    let s : Session :=
      { options := { declaration := true, incremental := true }, variants := Registry.cjsAndEsm,
        sink := some ⟨0⟩ }
    let c : Compiler Unit (OnDisk Unit) := ⟨⟨1⟩, .emitter 0 oneFileEach⟩
    let held : Sinks.Holds := (Sinks.Holds.initial.step (.record 0 ⟨"c.ts"⟩)).2
    let w : World (OnDisk Unit) := ⟨held.sinks, ⟨.bare [], [], ()⟩⟩
    let sequence := unitByUnit () [⟨"lib//a.ts"⟩, ⟨"lib/a.ts"⟩]
    ∃ report c' w' w'',
      c.slot.Scripted oneFileScript ∧
      GoesBy (fun _ => Plan.unitByUnit () [⟨"lib//a.ts"⟩, ⟨"lib/a.ts"⟩]) sequence ∧
      w.state.disk.IsTree ∧
      s.run c sequence 1 .zero w = (.ok report, c', w') ∧
      report.writtenFiles =
        [⟨"cjs/lib//a.js"⟩, ⟨"esm/lib//a.js"⟩, ⟨"cjs/lib/a.js"⟩, ⟨"esm/lib/a.js"⟩] ∧
      report.changedFiles = [⟨"c.ts"⟩, ⟨"lib//a.ts"⟩] ∧
      s.run c' sequence 2 (.ofParts 1 0) w' =
        (.ok { report with elapsed := .ofParts 1 0 }, c', w'') ∧
      w''.state.disk = w'.state.disk := by
  intro s c held w sequence
  have he : c.slot.Scripted oneFileScript := oneFileEach_scripted 0
  have hp : GoesBy (fun _ => Plan.unitByUnit () [⟨"lib//a.ts"⟩, ⟨"lib/a.ts"⟩]) sequence :=
    unitByUnit_goesBy () _
  have hw : w.state.disk.IsTree := Disk.isTree_bare []
  have hfiles : (s.run c sequence 1 .zero w).1.toOption.map
      (fun report => (report.writtenFiles, report.changedFiles)) =
      some ([⟨"cjs/lib//a.js"⟩, ⟨"esm/lib//a.js"⟩, ⟨"cjs/lib/a.js"⟩, ⟨"esm/lib/a.js"⟩],
        [⟨"c.ts"⟩, ⟨"lib//a.ts"⟩]) := by decide +kernel
  rcases h : s.run c sequence 1 .zero w with ⟨_ | report, c', w'⟩
  · rw [h] at hfiles
    cases hfiles
  rw [h] at hfiles
  obtain ⟨hwritten, hchanged⟩ := Prod.mk.inj (Option.some.inj hfiles)
  obtain ⟨w'', hagain, hdisk⟩ :=
    run_again s he hp hw h 2 (.ofParts 1 0) (v := w') rfl fun _ _ => rfl
  exact ⟨report, c', w', w'', he, hp, hw, rfl, hwritten, hchanged, hagain, hdisk⟩

end Fanout.Session
