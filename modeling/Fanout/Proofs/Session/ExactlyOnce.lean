import Fanout.Options.OutputPath
import Fanout.Proofs.Disk.WriteLog
import Fanout.Proofs.Emission.Contract
import Fanout.Proofs.Emission.FanOut
import Fanout.Proofs.Session.Restoration

/-!
# A session emits everything once

A compiler that keeps its contract makes one call for each unit, and one for the incremental state.
In a session these go to a fan-out, so what reaches the compiler's own entry point is one call for
each unit and variant, and still one for the incremental state (`Registry.OnceEach`).

* `Prescribes.serves` and `Unfolds.write_eq` say what all calls made for one have in common.
* `unfold_units` and `unfold_info` unfold the two parts of the contract.
* `Resolved.onceEach` puts them together.

The main result, `run_emits_once`, states this of the run of a session, along with what the report
says about the files written.
-/

set_option autoImplicit false

namespace Fanout

variable {ρ σ τ : Type}

namespace Registry

/-- The calls for a unit: one with default flags for each variant in order, under its options. -/
def Serves (r : Registry) (unit : Path) (calls : List (Invocation ρ σ)) : Prop :=
  calls.map (fun i => (i.call.target, i.call.flags, i.host.options)) =
    r.variants.map fun v => (some unit, {}, v.options)

/-- What the entry point that a fan-out wraps gets to see, once the calls that a compiler owes are
unfolded: the calls for each of its units, and those for the incremental state. -/
structure OnceEach (r : Registry) (base : Options) (units : List Path)
    (perUnit : List (List (Invocation ρ σ))) (info : List (Invocation ρ σ)) : Prop where
  /-- The units are served one after the other. -/
  units_served : List.Forall₂ r.Serves units perUnit
  /-- The incremental state has one call, under the options of the primary. -/
  info_eq : info.map (fun i => (i.call.flags.buildInfoOnly, i.host.options)) =
    if base.incremental then [(true, r.primary.options)] else []
  /-- Of the calls for a unit, the primary's asks for declarations if the base does, and none
  other. -/
  declarations_eq : ∀ calls ∈ perUnit,
    (calls.map (·.host.options)).filter (·.emitsDeclarations) =
      if base.emitsDeclarations then [r.primary.options] else []

variable {base : Options} {requested : List Variant} {mode : OutputMode} {r : Registry}

/-! ## The calls made for one -/

theorem Prescribes.serves {call : EmitCall ρ} {host : Host σ} {calls : List (Invocation ρ σ)}
    {result : EmitResult} (h : r.Prescribes call host calls (.ok result)) {unit : Path}
    (ht : call.target = some unit) (hf : call.flags = {}) : r.Serves unit calls := by
  have hmap := congrArg
    (List.map fun q : EmitCall ρ × Host σ => (q.1.target, q.1.flags, q.2.options))
    h.requests_of_ok
  rw [List.map_map, List.map_map] at hmap
  unfold Serves
  rw [← ht, ← hf]
  exact hmap

theorem Unfolds.write_eq {i : Invocation ρ σ} {calls : List (Invocation ρ σ)}
    (h : r.Unfolds i calls) : ∀ j ∈ calls, j.host.write = i.host.write := by
  cases h with
  | passed => exact List.forall_mem_singleton.mpr rfl
  | fanned _ prescribed => exact prescribed.write_eq

/-- Whatever writes through a host still does after its calls are unfolded. -/
theorem write_eq_of_unfolds {write : Path → String → σ → Except BuildError Unit × σ}
    {calls : List (Invocation ρ σ)} {groups : List (List (Invocation ρ σ))}
    (h : List.Forall₂ (Unfolds r) calls groups) (hw : ∀ i ∈ calls, i.host.write = write) :
    ∀ j ∈ groups.flatten, j.host.write = write := by
  induction h with
  | nil => exact List.forall_mem_nil _
  | @cons i group calls groups hi _ ih =>
    rw [List.forall_mem_cons] at hw
    rw [List.flatten_cons, List.forall_mem_append]
    exact ⟨fun j hj => (hi.write_eq j hj).trans hw.1, ih hw.2⟩

/-! ## The calls that a compiler owes -/

/-- A call for a unit becomes one for every variant. -/
theorem unfold_units {units : List Path} {calls : List (Invocation ρ σ)}
    {groups : List (List (Invocation ρ σ))} (h : List.Forall₂ (Unfolds r) calls groups)
    (hreq : calls.map (fun i => (i.call.target, i.call.flags)) =
      units.map fun unit => (some unit, {}))
    (hok : ∀ i ∈ calls, ∃ result, i.result = .ok result) :
    List.Forall₂ r.Serves units groups := by
  induction h generalizing units with
  | nil =>
    cases units with
    | nil => exact .nil
    | cons unit units => cases hreq
  | @cons i group calls groups hi _ ih =>
    cases units with
    | nil => cases hreq
    | cons unit units =>
      rw [List.map_cons, List.map_cons, List.cons.injEq, Prod.mk.injEq] at hreq
      rw [List.forall_mem_cons] at hok
      obtain ⟨⟨htarget, hflags⟩, hreq⟩ := hreq
      obtain ⟨⟨result, hresult⟩, hok⟩ := hok
      refine .cons ?_ (ih hreq hok)
      cases hi with
      | passed through =>
        rw [hflags] at through
        cases through
      | fanned _ prescribed => exact (hresult ▸ prescribed).serves htarget hflags

/-- The calls that serve a unit see the options of the variants. -/
theorem options_of_serves {units : List Path} {groups : List (List (Invocation ρ σ))}
    (h : List.Forall₂ r.Serves units groups) :
    ∀ calls ∈ groups, calls.map (·.host.options) = r.variants.map (·.options) := by
  induction h with
  | nil => exact List.forall_mem_nil _
  | @cons unit calls units groups hs _ ih =>
    refine List.forall_mem_cons.mpr ⟨?_, ih⟩
    have hmap := congrArg (List.map fun q : Option Path × EmitFlags × Options => q.2.2) hs
    rw [List.map_map, List.map_map] at hmap
    exact hmap

theorem unfold_info {calls : List (Invocation ρ σ)} {groups : List (List (Invocation ρ σ))}
    (h : List.Forall₂ (Unfolds r) calls groups)
    (hf : ∀ i ∈ calls, i.call.flags.buildInfoOnly = true) : groups.flatten = calls := by
  induction h with
  | nil => rfl
  | @cons i group calls groups hi _ ih =>
    rw [List.forall_mem_cons] at hf
    rw [List.flatten_cons, ih hf.2]
    cases hi with
    | passed => rfl
    | fanned source =>
      rw [EmitFlags.isPassThrough, hf.1, Bool.or_true] at source
      cases source

/-- **What a compiler owes to a fan-out is paid to the entry point below, once for each variant.**
The fan-out is given a host under the options of the primary. -/
theorem Resolved.onceEach (hr : Resolved base requested mode r) {units : List Path}
    {host : Host σ} (hh : host.options = r.primary.options)
    {perUnit info : List (Invocation ρ σ)} {groups infoGroups : List (List (Invocation ρ σ))}
    (hc : ByContract units host perUnit info) (hu : List.Forall₂ (Unfolds r) perUnit groups)
    (hi : List.Forall₂ (Unfolds r) info infoGroups) :
    r.OnceEach base units groups infoGroups.flatten := by
  have hwell := List.forall_mem_append.mp hc.well
  have hunits := unfold_units hu hc.requests hwell.1
  have hinc : host.options.incremental = base.incremental := by
    rw [hh, hr.primary_options]
  refine ⟨hunits, ?_, ?_⟩
  · rw [unfold_info hi hc.info_flags]
    have hlen := hc.info_length
    rw [hinc] at hlen
    cases hb : base.incremental with
    | true =>
      rw [hb, if_pos rfl, List.length_eq_one_iff] at hlen
      obtain ⟨i, rfl⟩ := hlen
      have hflag := hc.info_flags i List.mem_cons_self
      have hhost := hc.host_eq i (List.mem_append_right _ List.mem_cons_self)
      rw [List.map_singleton, hflag, hhost, hh]
      rfl
    | false =>
      rw [hb, if_neg Bool.false_ne_true, List.length_eq_zero_iff] at hlen
      rw [hlen]
      rfl
  · intro calls hcalls
    rw [options_of_serves hunits calls hcalls, hr.filter_emitsDeclarations]

/-- The primary's incremental state is in the file declared, or in the primary's directory. -/
theorem Resolved.buildInfoPath?_eq (hr : Resolved base requested mode r)
    (hi : base.incremental = true) :
    r.primary.options.buildInfoPath? =
      some (base.buildInfoFile.getD
        ((r.primary.variant.effectiveDir mode).join buildInfoName)) := by
  rw [hr.primary_options, Options.buildInfoPath?, if_pos hi]
  cases base.buildInfoFile <;> rfl

end Registry

/-! ## Sessions -/

namespace Session

theorem resolved_of_resolve {s : Session} {registry : Registry} (h : s.resolve = .ok registry) :
    Registry.Resolved s.options s.variants s.mode registry :=
  Registry.resolve_resolved (resolve_eq_ok_iff.mp h)

/-- **A session emits everything once.**  Let a compiler keep its contract, and let it and its entry
point write files through the host only.  If the run goes well, the entry point was called for each
unit and variant in order, and for the incremental state where that is kept, under the primary's
options.  Nothing else happened but the compiler's own moves and records in the sink.  The report
lists the files that these calls wrote, one call after the other. -/
theorem run_emits_once (s : Session) {registry : Registry} (hr : s.resolve = .ok registry)
    (c : Compiler ρ (OnDisk τ)) (ho : c.slot.WritesThroughHost) {units : List Path}
    {moves : World (OnDisk τ) → World (OnDisk τ) → Prop} {sequence : EmitSequence ρ (OnDisk τ)}
    (hc : KeepsContract moves units sequence)
    (hm : ∀ {u v}, moves u v → v.state.written = u.state.written) {address : Nat}
    {elapsed : Elapsed} {w w' : World (OnDisk τ)} {report : Report} {c' : Compiler ρ (OnDisk τ)}
    (h : s.run c sequence address elapsed w = (.ok report, c', w')) :
    registry.variants.map (·.variant) = s.variants ∧
      (s.options.incremental = true → registry.primary.options.buildInfoPath? =
        some (s.options.buildInfoFile.getD
          ((registry.primary.variant.effectiveDir s.mode).join buildInfoName))) ∧
      ∃ perUnit info written,
        c.slot.Runs
          (fun u v => moves u v ∨ Registry.Recording (some (s.sinkFor w.sinks).1) u v)
          (s.opened w) (perUnit.flatten ++ info) w' ∧
        registry.OnceEach s.options units perUnit info ∧
        (∀ i ∈ perUnit.flatten ++ info, i.host.write = DiskHost.write) ∧
        List.Forall₂ Invocation.Wrote (perUnit.flatten ++ info) written ∧
        report.writtenFiles = written.flatten := by
  have hres := resolved_of_resolve hr
  refine ⟨hres.variant_eq, hres.buildInfoPath?_eq, ?_⟩
  obtain ⟨result, c'', hemission, rfl⟩ := run_eq_ok hr h
  obtain ⟨perUnit, info, hcalls, hby⟩ := hc _ _ _ _ _ _ _ hemission
  -- the calls of the compiler go to the fan-out, and from there to its own entry point
  obtain ⟨groups, hgroups, hruns⟩ := hres.runs_unfold hcalls
  have hhost : ∀ i ∈ groups.flatten, i.host.write = DiskHost.write :=
    Registry.write_eq_of_unfolds hgroups fun i hi => by rw [hby.host_eq i hi]; rfl
  have honce : registry.OnceEach s.options units (groups.take perUnit.length)
      (groups.drop perUnit.length).flatten :=
    hres.onceEach rfl hby (List.forall₂_take_append _ _ _ hgroups.flip).flip
      (List.forall₂_drop_append _ _ _ hgroups.flip).flip
  have hmoves : ∀ {u v}, moves u v ∨ Registry.Recording (some (s.sinkFor w.sinks).1) u v →
      v.state.written = u.state.written := by
    rintro u v (huv | ⟨target, rfl⟩)
    · exact hm huv
    · exact congrArg OnDisk.written (World.state_record ..)
  obtain ⟨written, hwrote, hlog⟩ := hruns.written_eq ho hmoves hhost
  have hflat : (groups.take perUnit.length).flatten ++ (groups.drop perUnit.length).flatten =
      groups.flatten := by
    rw [← List.flatten_append, List.take_append_drop]
  refine ⟨_, _, written, hflat ▸ hruns, honce, hflat ▸ hhost, hflat ▸ hwrote, ?_⟩
  exact hlog.trans (List.nil_append _)

/-- An emitter that writes one file for each unit, where the options place it. -/
def oneFileEach : Emitter Unit (OnDisk Unit) := fun call host s =>
  match call.target with
  | none => (.ok {}, s)
  | some unit =>
    match host.write (host.options.outputPath unit "js") "" s with
    | (.error e, s) => (.error e, s)
    | (.ok (), s) => (.ok {}, s)

theorem oneFileEach_writesThroughHost (address : Nat) :
    (EntryPoint.emitter address oneFileEach).WritesThroughHost := by
  intro call host s
  unfold oneFileEach
  split
  · exact ⟨[], .done _⟩
  rename_i unit _
  split
  · rename_i e s' hw
    exact ⟨[], .refused hw (.done _)⟩
  · rename_i s' hw
    exact ⟨[_], .wrote hw (.done _)⟩

/-- Two units and two variants make four files, in this order. -/
theorem run_emits_once_pair :
    let s : Session :=
      { options := { declaration := true, incremental := true }, variants := Registry.cjsAndEsm }
    let c : Compiler Unit (OnDisk Unit) := ⟨⟨1⟩, .emitter 0 oneFileEach⟩
    let w : World (OnDisk Unit) := ⟨{}, ⟨.bare [], [], ()⟩⟩
    let units : List Path := [⟨"a.ts"⟩, ⟨"b.ts"⟩]
    ∃ registry report c' w', s.resolve = .ok registry ∧ c.slot.WritesThroughHost ∧
      KeepsContract (σ := OnDisk Unit) Never units (unitByUnit () units) ∧
      s.run c (unitByUnit () units) 1 .zero w = (.ok report, c', w') ∧
      report.writtenFiles = [⟨"cjs/a.js"⟩, ⟨"esm/a.js"⟩, ⟨"cjs/b.js"⟩, ⟨"esm/b.js"⟩] ∧
      ∃ (perUnit : List (List (Invocation Unit (OnDisk Unit))))
        (info : List (Invocation Unit (OnDisk Unit))) (written : List (List Path)),
        registry.OnceEach s.options units perUnit info ∧
          List.Forall₂ Invocation.Wrote (perUnit.flatten ++ info) written ∧
          report.writtenFiles = written.flatten := by
  intro s c w units
  have ho : c.slot.WritesThroughHost := oneFileEach_writesThroughHost 0
  have hc : KeepsContract (σ := OnDisk Unit) Never units (unitByUnit () units) :=
    unitByUnit_keepsContract () units
  have hfiles : (s.run c (unitByUnit () units) 1 .zero w).1.toOption.map (·.writtenFiles) =
      some [⟨"cjs/a.js"⟩, ⟨"esm/a.js"⟩, ⟨"cjs/b.js"⟩, ⟨"esm/b.js"⟩] := by decide +kernel
  rcases h : s.run c (unitByUnit () units) 1 .zero w with ⟨_ | report, c', w'⟩
  · rw [h] at hfiles
    cases hfiles
  rw [h] at hfiles
  obtain ⟨registry, hr⟩ : ∃ registry, s.resolve = .ok registry := ⟨_, rfl⟩
  obtain ⟨_, _, perUnit, info, written, _, honce, _, hwrote, hwritten⟩ :=
    run_emits_once s hr c ho hc False.elim h
  exact ⟨registry, report, c', w', hr, ho, hc, rfl, Option.some.inj hfiles, perUnit, info, written,
    honce, hwrote, hwritten⟩

end Session

end Fanout
