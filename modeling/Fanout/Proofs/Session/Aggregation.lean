import Fanout.Proofs.Session.ExactlyOnce

/-!
# What a session reports of its calls

A compiler absorbs the results of its calls into one.  In a session each call for a unit goes to a
fan-out, which hands on the result of the primary variant and lets it count as skipped if that of
any variant is.  `EmitResult.CountedFrom` says what a result has from the calls that are behind it,
and it fits both: `CountedFrom.absorb` puts two results together, and `Prescribes.countedFrom` is
about the result of a fan-out.  By `unfold_countedFrom` they combine over all units.

The main result, `run_aggregates`, states this of the run of a session.
-/

set_option autoImplicit false

namespace Fanout

variable {ρ σ τ : Type}

/-- A call that left out some output. -/
def Invocation.Skipped (i : Invocation ρ σ) : Prop :=
  ∃ r, i.result = .ok r ∧ r.emitSkipped = true

theorem any_emitSkipped_iff {calls : List (Invocation ρ σ)} {results : List EmitResult}
    (h : calls.map Invocation.result = results.map .ok) :
    results.any (·.emitSkipped) = true ↔ ∃ i ∈ calls, i.Skipped := by
  rw [List.any_eq_true]
  constructor
  · rintro ⟨r, hr, hskip⟩
    obtain ⟨i, hi, hres⟩ := (mem_results_iff h).mp hr
    exact ⟨i, hi, r, hres, hskip⟩
  · rintro ⟨i, hi, r, hres, hskip⟩
    exact ⟨r, (mem_results_iff h).mpr ⟨i, hi, hres⟩, hskip⟩

/-! ## What a result has from calls -/

/-- A result has the diagnostics and the files of some calls, in their order, and is skipped if any
of a list of calls is. -/
structure EmitResult.CountedFrom (result : EmitResult) (calls counted : List (Invocation ρ σ)) :
    Prop where
  sums : ∃ results, counted.map Invocation.result = List.map .ok results ∧
    result.diagnostics = results.flatMap (·.diagnostics) ∧
    result.emittedFiles = results.flatMap (·.emittedFiles)
  emitSkipped_iff : result.emitSkipped = true ↔ ∃ i ∈ calls, i.Skipped

namespace EmitResult.CountedFrom

variable {a b : EmitResult} {calls calls' counted counted' : List (Invocation ρ σ)}

theorem absorb (ha : a.CountedFrom calls counted) (hb : b.CountedFrom calls' counted') :
    (a.absorb b).CountedFrom (calls ++ calls') (counted ++ counted') where
  sums := by
    obtain ⟨results, hres, hdiag, hfiles⟩ := ha.sums
    obtain ⟨results', hres', hdiag', hfiles'⟩ := hb.sums
    refine ⟨results ++ results', ?_, ?_, ?_⟩
    · rw [List.map_append, List.map_append, hres, hres']
    · rw [List.flatMap_append, ← hdiag, ← hdiag', EmitResult.absorb]
    · rw [List.flatMap_append, ← hfiles, ← hfiles', EmitResult.absorb]
  emitSkipped_iff := by
    simp only [List.mem_append, or_and_right, exists_or]
    rw [← ha.emitSkipped_iff, ← hb.emitSkipped_iff, EmitResult.absorb, Bool.or_eq_true]

/-- The total of some results has everything from the calls that gave them. -/
theorem total {results : List EmitResult} (h : calls.map Invocation.result = results.map .ok) :
    (EmitResult.total results).CountedFrom calls calls where
  sums := ⟨results, h, diagnostics_total results, emittedFiles_total results⟩
  emitSkipped_iff := by rw [emitSkipped_total, any_emitSkipped_iff h]

/-- A result has an error if one of the calls that count gave one. -/
theorem hasErrors_iff (h : a.CountedFrom calls counted) :
    a.hasErrors = true ↔ ∃ i ∈ counted, ∃ r, i.result = .ok r ∧
      ∃ d ∈ r.diagnostics, d.severity = .error := by
  obtain ⟨results, hres, hdiag, -⟩ := h.sums
  rw [hasErrors, hdiag, List.any_eq_true]
  constructor
  · rintro ⟨d, hd, he⟩
    obtain ⟨r, hr, hdr⟩ := List.mem_flatMap.mp hd
    obtain ⟨i, hi, hir⟩ := (mem_results_iff hres).mp hr
    exact ⟨i, hi, r, hir, d, hdr, beq_iff_eq.mp he⟩
  · rintro ⟨i, hi, r, hir, d, hdr, he⟩
    have hr : r ∈ results := (mem_results_iff hres).mpr ⟨i, hi, hir⟩
    exact ⟨d, List.mem_flatMap.mpr ⟨r, hr, hdr⟩, beq_iff_eq.mpr he⟩

end EmitResult.CountedFrom

namespace Registry

variable {base : Options} {requested : List Variant} {mode : OutputMode} {r : Registry}

/-- Of the calls made for the variants in order, the primary's. -/
def PrimaryCall (r : Registry) (calls : List (Invocation ρ σ)) (i : Invocation ρ σ) : Prop :=
  ∃ place : Nat, r.variants[place]? = some r.primary ∧ calls[place]? = some i

/-- What a call that goes well hands on is counted from the primary's, and a skip from any. -/
theorem Prescribes.countedFrom (hr : Resolved base requested mode r) {call : EmitCall ρ}
    {host : Host σ} {calls : List (Invocation ρ σ)} {merged : EmitResult}
    (h : r.Prescribes call host calls (.ok merged)) :
    ∃ own, r.PrimaryCall calls own ∧ merged.CountedFrom calls [own] := by
  cases h with
  | @completed _ results place v result requests outcomes variant primary own =>
    have hv : v = r.primary := (hr.isPrimary_iff v (List.mem_of_getElem? variant)).mp primary
    have hplace : (calls.map Invocation.result)[place]? = some (.ok result) := by
      rw [outcomes, List.getElem?_map, own, Option.map_some]
    rw [List.getElem?_map, Option.map_eq_some_iff] at hplace
    obtain ⟨i, hi, hires⟩ := hplace
    refine ⟨i, ⟨place, hv ▸ variant, hi⟩, ⟨[result], ?_, ?_, ?_⟩, any_emitSkipped_iff outcomes⟩
    · rw [List.map_singleton, hires, List.map_singleton]
    · rw [List.flatMap_singleton]
    · rw [List.flatMap_singleton]

/-- Of the calls for units those of the primary count. -/
theorem unfold_countedFrom (hr : Resolved base requested mode r) {calls : List (Invocation ρ σ)}
    {groups : List (List (Invocation ρ σ))} (h : List.Forall₂ (Unfolds r) calls groups)
    (hs : ∀ i ∈ calls, i.call.flags.isPassThrough = false) {results : List EmitResult}
    (hres : calls.map Invocation.result = results.map .ok) :
    ∃ own, List.Forall₂ r.PrimaryCall groups own ∧
      (EmitResult.total results).CountedFrom groups.flatten own := by
  induction h generalizing results with
  | nil =>
    obtain rfl : results = [] := List.map_eq_nil_iff.mp hres.symm
    exact ⟨[], .nil, .total rfl⟩
  | @cons i made calls groups hi _ ih =>
    cases results with
    | nil => cases hres
    | cons merged results =>
      rw [List.map_cons, List.map_cons, List.cons.injEq] at hres
      rw [List.forall_mem_cons] at hs
      obtain ⟨own, hown, hrest⟩ := ih hs.2 hres.2
      cases hi with
      | passed through =>
        rw [hs.1] at through
        cases through
      | fanned _ prescribed =>
        obtain ⟨first, hfirst, hmerged⟩ := (hres.1 ▸ prescribed).countedFrom hr
        refine ⟨first :: own, .cons hfirst hown, ?_⟩
        rw [EmitResult.total_cons, List.flatten_cons]
        exact hmerged.absorb hrest

end Registry

namespace Session

/-- **A session reports what all calls came to.**  Let a compiler keep its contract and absorb the
results of its calls.  If the run goes well, the entry point was called for each unit and variant,
and for the incremental state where that is kept.  The diagnostics and the files reported are those
of the primary's calls, unit by unit, then those of the call for the incremental state.  The result
is skipped if that of any call is, so the report is complete if no call skipped anything. -/
theorem run_aggregates (s : Session) {registry : Registry} (hr : s.resolve = .ok registry)
    (c : Compiler ρ (OnDisk τ)) {units : List Path}
    {moves : World (OnDisk τ) → World (OnDisk τ) → Prop} {sequence : EmitSequence ρ (OnDisk τ)}
    (hc : AddsUp moves units sequence) {address : Nat} {elapsed : Elapsed}
    {w w' : World (OnDisk τ)} {report : Report} {c' : Compiler ρ (OnDisk τ)}
    (h : s.run c sequence address elapsed w = (.ok report, c', w')) :
    ∃ perUnit info own,
      c.slot.Runs
        (fun u v => moves u v ∨ Registry.Recording (some (s.sinkFor w.sinks).1) u v)
        (s.opened w) (perUnit.flatten ++ info) w' ∧
      registry.OnceEach s.options units perUnit info ∧
      List.Forall₂ registry.PrimaryCall perUnit own ∧
      report.result.CountedFrom (perUnit.flatten ++ info) (own ++ info) ∧
      (report.isComplete = true ↔ ∀ i ∈ perUnit.flatten ++ info, ¬i.Skipped) ∧
      (report.result.hasErrors = true ↔ ∃ i ∈ own ++ info, ∃ r, i.result = .ok r ∧
        ∃ d ∈ r.diagnostics, d.severity = .error) := by
  have hres := resolved_of_resolve hr
  obtain ⟨result, c'', hemission, rfl⟩ := run_eq_ok hr h
  obtain ⟨calls, infoCalls, results, hcalls, hby, hgave, rfl⟩ := hc _ _ _ _ _ _ _ hemission
  -- the calls of the compiler go to the fan-out, and from there to its own entry point
  obtain ⟨perUnit, infoGroups, hunits, hinfo, hruns⟩ := hres.runs_unfold_append hcalls
  have honce : registry.OnceEach s.options units perUnit infoGroups.flatten :=
    hres.onceEach rfl hby hunits hinfo
  rw [Registry.unfold_info hinfo hby.info_flags] at hruns honce
  rw [List.map_append] at hgave
  obtain ⟨unitResults, infoResults, rfl, hgaveUnits, hgaveInfo⟩ :=
    List.map_eq_append_iff.mp hgave.symm
  obtain ⟨own, hown, hcounted⟩ := Registry.unfold_countedFrom hres hunits
    hby.isPassThrough_eq_false hgaveUnits.symm
  have hall : (EmitResult.total (unitResults ++ infoResults)).CountedFrom
      (perUnit.flatten ++ infoCalls) (own ++ infoCalls) := by
    rw [EmitResult.total_append]
    exact hcounted.absorb (.total hgaveInfo.symm)
  refine ⟨perUnit, infoCalls, own, hruns, honce, hown, hall, ?_, hall.hasErrors_iff⟩
  have hskip := not_congr hall.emitSkipped_iff
  rw [Bool.not_eq_true] at hskip
  simpa [Report.isComplete, report] using hskip

/-- An emitter that warns, except that for an ECMAScript module it gives an error and no output. -/
def onlyCommonJs : Emitter Unit (OnDisk Unit) := fun call host s =>
  let subject := call.target.getD buildInfoName
  let result : EmitResult :=
    if host.options.kind = .esNext then
      { diagnostics := [(Diagnostic.error 2 "no modules").withFile subject], emitSkipped := true }
    else
      { diagnostics := [(Diagnostic.warning 1 "old").withFile subject], emittedFiles := [subject] }
  (.ok result, s)

/-- The errors of the second variant are not reported, but that there is no output of it is. -/
theorem run_aggregates_pair :
    let s : Session :=
      { options := { declaration := true, incremental := true }, variants := Registry.cjsAndEsm }
    let c : Compiler Unit (OnDisk Unit) := ⟨⟨1⟩, .emitter 0 onlyCommonJs⟩
    let w : World (OnDisk Unit) := ⟨{}, ⟨.bare [], [], ()⟩⟩
    let units : List Path := [⟨"a.ts"⟩, ⟨"b.ts"⟩]
    let expected : EmitResult :=
      { diagnostics :=
          [⟨some ⟨"a.ts"⟩, 1, .warning, "old"⟩, ⟨some ⟨"b.ts"⟩, 1, .warning, "old"⟩,
            ⟨some buildInfoName, 1, .warning, "old"⟩]
        emitSkipped := true
        emittedFiles := [⟨"a.ts"⟩, ⟨"b.ts"⟩, buildInfoName] }
    ∃ registry report c' w', s.resolve = .ok registry ∧
      AddsUp (σ := OnDisk Unit) Never units (unitByUnit () units) ∧
      s.run c (unitByUnit () units) 1 .zero w = (.ok report, c', w') ∧
      report.result = expected ∧ report.isComplete = false ∧ report.result.hasErrors = false ∧
      ∃ (perUnit : List (List (Invocation Unit (OnDisk Unit))))
        (info own : List (Invocation Unit (OnDisk Unit))),
        registry.OnceEach s.options units perUnit info ∧
          List.Forall₂ registry.PrimaryCall perUnit own ∧
          report.result.CountedFrom (perUnit.flatten ++ info) (own ++ info) ∧
          ∃ i ∈ perUnit.flatten ++ info, i.Skipped := by
  intro s c w units expected
  have hc : AddsUp (σ := OnDisk Unit) Never units (unitByUnit () units) :=
    unitByUnit_addsUp () units
  have hresult : (s.run c (unitByUnit () units) 1 .zero w).1.toOption.map (·.result) =
      some expected := by decide +kernel
  rcases h : s.run c (unitByUnit () units) 1 .zero w with ⟨_ | report, c', w'⟩
  · rw [h] at hresult
    cases hresult
  rw [h] at hresult
  have hexpected : report.result = expected := Option.some.inj hresult
  obtain ⟨registry, hr⟩ : ∃ registry, s.resolve = .ok registry := ⟨_, rfl⟩
  obtain ⟨perUnit, info, own, _, honce, hown, hcounted, _, _⟩ := run_aggregates s hr c hc h
  refine ⟨registry, report, c', w', hr, hc, rfl, hexpected, ?_, ?_, perUnit, info, own, honce, hown,
    hcounted, hcounted.emitSkipped_iff.mp ?_⟩
  · rw [Report.isComplete, hexpected]
    rfl
  · rw [hexpected]
    rfl
  · rw [hexpected]

end Session

end Fanout
