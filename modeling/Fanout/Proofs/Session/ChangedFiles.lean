import Fanout.Proofs.Changed.Recording
import Fanout.Proofs.Session.Restoration

/-!
# The changed units that a session reports

A session records in the sink of the caller or, where there is none, in a new one.  The main result,
`run_records_exactly`, tells what the sink holds after a run, however the run ended: what was there
before (`Session.OnRecord`), the targets of the calls that the compiler made for source units, and
nothing else.
-/

set_option autoImplicit false

namespace Fanout.Session

variable {ρ τ : Type}

/-- The set that a run of a session starts from. -/
def OnRecord (s : Session) (sinks : Sinks) (before : UnitSet) : Prop :=
  match s.sink with
  | none => before = .empty
  | some sink => sinks.get? sink = some before

theorem OnRecord.get?_sinkFor {s : Session} {sinks : Sinks} {before : UnitSet}
    (h : s.OnRecord sinks before) :
    (s.sinkFor sinks).2.get? (s.sinkFor sinks).1 = some before := by
  unfold OnRecord at h
  unfold sinkFor
  cases hs : s.sink with
  | none =>
    simp only [hs] at h
    rw [h]
    exact sinks.get?_fresh
  | some sink =>
    simp only [hs] at h
    exact h

/-- A run leaves the world as its emission did, also where it fails. -/
theorem world_run {s : Session} {registry : Registry} (hr : s.resolve = .ok registry)
    {c : Compiler ρ (OnDisk τ)} {sequence : EmitSequence ρ (OnDisk τ)} {address : Nat}
    {elapsed : Elapsed} {w : World (OnDisk τ)} :
    (s.run c sequence address elapsed w).2.2 = (s.emission registry c sequence address w).2.2 := by
  rw [run_of_resolve hr rfl]
  split <;> rfl

/-- **The record of changed units is exact.**  Let the compiler act on the sink through its slot
only, by calls of any kind.  After the run, whether it went well or not, the sink holds what it held
before and the targets of those calls that were for source units, also of those that failed, and
everyone who has a hold on the sink sees this set.  A run that goes well reports it in order,
without two spellings of one unit. -/
theorem run_records_exactly (s : Session) {registry : Registry} (hr : s.resolve = .ok registry)
    (c : Compiler ρ (OnDisk τ)) (sequence : EmitSequence ρ (OnDisk τ)) (address : Nat)
    (elapsed : Elapsed) (w : World (OnDisk τ)) {before : UnitSet}
    (hb : s.OnRecord w.sinks before) (ho : before.Ordered)
    {moves : World (OnDisk τ) → World (OnDisk τ) → Prop}
    (hm : ∀ {u v}, moves u v →
      v.sinks.get? (s.sinkFor w.sinks).1 = u.sinks.get? (s.sinkFor w.sinks).1)
    {calls : List (Invocation ρ (OnDisk τ))}
    (hc : (s.wrapped registry c address w).slot.Runs moves (s.opened w) calls
      (s.emission registry c sequence address w).2.2) :
    ∃ after,
      (s.run c sequence address elapsed w).2.2.sinks.get? (s.sinkFor w.sinks).1 = some after ∧
      (∀ unit, after.contains unit = true ↔ before.contains unit = true ∨
        ∃ i ∈ calls, i.call.flags.declarationsOnly = false ∧ i.call.flags.buildInfoOnly = false ∧
          ∃ target, i.call.target = some target ∧ target.same unit = true) ∧
      (s.run c sequence address elapsed w).2.2.sinks.Shows (s.sinkFor w.sinks).1 after ∧
      ∀ report, (s.run c sequence address elapsed w).1 = .ok report →
        report.changedFiles = after.units ∧
        report.changedFiles.Pairwise fun p q => compare p q = .lt ∧ p.same q = false := by
  have hget : (s.run c sequence address elapsed w).2.2.sinks.get? (s.sinkFor w.sinks).1 =
      some (before.insertAll (calls.filterMap (·.call.recorded?))) := by
    rw [world_run hr, hc.get?_sink hm]
    exact congrArg (Option.map _) hb.get?_sinkFor
  refine ⟨_, hget, fun unit => ?_, Sinks.shows_of_get? hget, fun report hreport => ?_⟩
  · rw [UnitSet.contains_insertAll_iff]
    simp only [List.mem_filterMap, EmitCall.recorded?_eq_some_iff]
    constructor
    · rintro (h | ⟨target, ⟨i, hi, hd, hbi, ht⟩, hsame⟩)
      · exact Or.inl h
      · exact Or.inr ⟨i, hi, hd, hbi, target, ht, hsame⟩
    · rintro (h | ⟨i, hi, hd, hbi, target, ht, hsame⟩)
      · exact Or.inl h
      · exact Or.inr ⟨target, ⟨i, hi, hd, hbi, ht⟩, hsame⟩
  · obtain ⟨result, c', -, hrep⟩ := run_eq_ok hr (Prod.ext hreport rfl)
    have hunits : report.changedFiles =
        (before.insertAll (calls.filterMap (·.call.recorded?))).units := by
      rw [hrep, ← Sinks.get_of_get? hget]
      rfl
    refine ⟨hunits, ?_⟩
    rw [hunits]
    refine (ho.insertAll _).imp fun {p q} hlt => ⟨hlt, ?_⟩
    rw [Bool.eq_false_iff, Ne, ← Path.compare_eq_iff, hlt]
    nofun

/-- An emitter that cannot write ECMAScript modules. -/
def noModules : Emitter Unit (OnDisk Unit) := fun _ host s =>
  if host.options.kind = .esNext then (.error (.emit "no modules"), s) else (.ok {}, s)

def callFor (unit : String) (flags : EmitFlags) (o : Options) : EmitCall Unit :=
  ⟨(), some ⟨unit⟩, .derive o none flags.declarationsOnly, flags⟩

/-- A sequence that asks for one unit in two spellings and for the declarations of another, and does
not care what comes of it. -/
def insistent : EmitSequence Unit (OnDisk Unit) := fun c host _ w =>
  let w := (c.slot.emit (callFor "src/a.ts" {} host.options) host w).2
  let w := (c.slot.emit (callFor "src//a.ts" {} host.options) host w).2
  let w := (c.slot.emit (callFor "c.ts" .onlyDeclarations host.options) host w).2
  (.ok {}, c, w)

theorem insistent_runs (c : Compiler Unit (OnDisk Unit)) (host : Host (OnDisk Unit))
    (custom : Option CustomPasses) (w : World (OnDisk Unit)) :
    ∃ calls, c.slot.Runs Never w calls (insistent c host custom w).2.2 ∧
      calls.map (·.call.recorded?) = [some ⟨"src/a.ts"⟩, some ⟨"src//a.ts"⟩, none] :=
  ⟨[⟨callFor "src/a.ts" {} host.options, host, _, _, _⟩,
      ⟨callFor "src//a.ts" {} host.options, host, _, _, _⟩,
      ⟨callFor "c.ts" .onlyDeclarations host.options, host, _, _, _⟩],
    .cons_emit rfl (.cons_emit rfl (.of_emit rfl)), rfl⟩

/-- The unit whose second variant failed twice is on record, once and as it was spelled first; the
caller had recorded another one before. -/
theorem run_records_exactly_insistent :
    let s : Session :=
      { options := { declaration := true }, variants := Registry.cjsAndEsm, sink := some ⟨0⟩ }
    let c : Compiler Unit (OnDisk Unit) := ⟨⟨1⟩, .emitter 0 noModules⟩
    let held : Sinks.Holds := (Sinks.Holds.initial.step (.record 0 ⟨"b.ts"⟩)).2
    let w : World (OnDisk Unit) := ⟨held.sinks, ⟨.bare [], [], ()⟩⟩
    ∃ calls report after,
      s.resolve = .ok .pair ∧ s.OnRecord w.sinks (held.set 0) ∧ (held.set 0).Ordered ∧
      (s.wrapped .pair c 1 w).slot.Runs Never (s.opened w) calls
        (s.emission .pair c insistent 1 w).2.2 ∧
      calls.map (·.call.recorded?) = [some ⟨"src/a.ts"⟩, some ⟨"src//a.ts"⟩, none] ∧
      (s.run c insistent 1 .zero w).1 = .ok report ∧
      (s.run c insistent 1 .zero w).2.2.sinks.get? ⟨0⟩ = some after ∧
      report.changedFiles = after.units ∧ after.units = [⟨"b.ts"⟩, ⟨"src/a.ts"⟩] := by
  intro s c held w
  have hr : s.resolve = .ok .pair := rfl
  have hb : s.OnRecord w.sinks (held.set 0) := rfl
  have ho : (held.set 0).Ordered := by
    refine Sinks.Ordered.get (Sinks.Ordered.step ?_ _) _
    exact List.forall_mem_singleton.mpr UnitSet.ordered_empty
  obtain ⟨calls, hcalls, hrec⟩ := insistent_runs (s.wrapped .pair c 1 w)
    (DiskHost.withOptions Registry.pair.primary.options) s.custom (s.opened w)
  obtain ⟨after, hget, -, -, hok⟩ :=
    run_records_exactly s hr c insistent 1 .zero w hb ho False.elim hcalls
  have hfiles : (s.run c insistent 1 .zero w).1.toOption.map (·.changedFiles) =
      some [⟨"b.ts"⟩, ⟨"src/a.ts"⟩] := by decide +kernel
  cases hrun : (s.run c insistent 1 .zero w).1 with
  | error e =>
    rw [hrun] at hfiles
    cases hfiles
  | ok report =>
    rw [hrun] at hfiles
    have hunits := (hok report hrun).1
    exact ⟨calls, report, after, hr, hb, ho, hcalls, hrec, rfl, hget, hunits,
      hunits.symm.trans (Option.some.inj hfiles)⟩

end Fanout.Session
