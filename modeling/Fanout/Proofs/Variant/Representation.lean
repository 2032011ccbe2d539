import Fanout.Proofs.Variant.Acceptance

/-!
# What a registry answers

The registry made from an accepted list of variants gives back the list as it was asked for, tells
its members apart by their kinds, and finds each of them under its kind
(`Resolved.get?_eq_some_iff`).  `ResolvedVariant.DerivedFrom` says what the options of a member are,
each against the base options: the module kind and the directory are the member's own, declarations
are the primary's alone, and everything else is the base's.  `resolve_represents` puts this together
for every accepted list.
-/

set_option autoImplicit false

namespace Fanout

/-- What the options of a member are, next to the base options. -/
structure ResolvedVariant.DerivedFrom (base : Options) (mode : OutputMode)
    (v : ResolvedVariant) : Prop where
  kind_eq : v.options.kind = v.kind
  outputDir?_eq : v.outputDir? = some (v.variant.effectiveDir mode)
  dir_named : v.variant.effectiveDir mode ≠ .empty
  primary : v.isPrimary = true → v.options = base.withOutDir (v.variant.effectiveDir mode)
  secondary : v.isPrimary = false →
    v.options = ((base.withOutDir (v.variant.effectiveDir mode)).withKind v.kind).withDeclarations
      false
  declares_iff : v.options.emitsDeclarations = true ↔
    v.isPrimary = true ∧ base.emitsDeclarations = true
  /-- All that a variant never touches is the base's. -/
  kept : { v.options with
      outDir := base.outDir
      kind := base.kind
      declaration := base.declaration
      declarationMap := base.declarationMap } = base

namespace Registry

variable {base : Options} {requested : List Variant} {mode : OutputMode} {r : Registry}

/-- Looking a kind up finds the member of that kind. -/
theorem Resolved.get?_eq_some_iff (h : Resolved base requested mode r) {kind : ModuleKind}
    {v : ResolvedVariant} : r.get? kind = some v ↔ v ∈ r.variants ∧ v.kind = kind := by
  unfold get?
  constructor
  · intro hv
    exact ⟨List.mem_of_find?_eq_some hv, by simpa using List.find?_some hv⟩
  · rintro ⟨hv, hk⟩
    cases hf : r.variants.find? (·.kind == kind) with
    | none =>
      have := List.find?_eq_none.mp hf v hv
      simp [hk] at this
    | some w =>
      have hw : w.kind = kind := by simpa using List.find?_some hf
      rw [List.inj_on_of_nodup_map h.kinds_nodup (List.mem_of_find?_eq_some hf) hv
        (hw.trans hk.symm)]

theorem Acceptable.effectiveDir_ne_empty (h : Acceptable base requested) {v : Variant}
    (hv : v ∈ requested) (mode : OutputMode) : v.effectiveDir mode ≠ .empty := by
  obtain ⟨ho, hc⟩ := h.dirs v hv
  cases mode
  · exact ho
  · exact hc

theorem acceptable_of_resolve (h : resolve base requested mode = .ok r) :
    Acceptable base requested := by
  rw [← check_ok_iff_acceptable]
  unfold resolve at h
  cases hc : check base requested with
  | error fault => rw [hc] at h; cases h
  | ok primary => exact ⟨primary, rfl⟩

theorem derivedFrom_of_resolve (h : resolve base requested mode = .ok r) {v : ResolvedVariant}
    (hv : v ∈ r.variants) : v.DerivedFrom base mode := by
  have hr := resolve_resolved h
  have hrequested : v.variant ∈ requested := hr.variant_eq ▸ List.mem_map_of_mem hv
  have hnamed := (acceptable_of_resolve h).effectiveDir_ne_empty hrequested mode
  have hdeclares := hr.emitsDeclarations_eq hv
  have ho := hr.options_eq hv
  cases hp : v.isPrimary with
  | true =>
    -- the patch of the primary leaves the kind alone: that it is the primary's was checked
    have hdefault : v.kind = r.defaultKind :=
      (hr.kind_eq_iff hv).mpr ((hr.isPrimary_iff v hv).mp hp)
    have hkind : v.kind = base.kind := hdefault.trans hr.defaultKind_eq
    rw [hp, if_pos rfl] at ho
    exact {
      kind_eq := by rw [ho, hkind]
      outputDir?_eq := by rw [ResolvedVariant.outputDir?, ho]
      dir_named := hnamed
      primary := fun _ => ho
      secondary := by simp [hp]
      declares_iff := by simp [hdeclares]
      kept := by rw [ho] }
  | false =>
    rw [hp, if_neg Bool.false_ne_true] at ho
    exact {
      kind_eq := by rw [ho]
      outputDir?_eq := by rw [ResolvedVariant.outputDir?, ho]
      dir_named := hnamed
      primary := by simp [hp]
      secondary := fun _ => ho
      declares_iff := by simp [hdeclares]
      kept := by rw [ho] }

/-- **A resolved registry represents the list that it was made from.**  Its members are the variants
asked for, in their order, with kinds that all differ; the primary is the one member that is marked,
and of the kind that the base declares; a kind finds the only member that has it; and the options
of every member come from the base as `ResolvedVariant.DerivedFrom` says. -/
theorem resolve_represents (h : resolve base requested mode = .ok r) :
    r.variants.map (·.variant) = requested ∧ r.mode = mode ∧ r.kinds.Nodup ∧
      r.primary ∈ r.variants ∧ (∀ v ∈ r.variants, v.isPrimary = true ↔ v = r.primary) ∧
      r.defaultKind = base.kind ∧
      (∀ kind v, r.get? kind = some v ↔
        v ∈ r.variants ∧ v.kind = kind ∧ ∀ w ∈ r.variants, w.kind = kind → w = v) ∧
      ∀ v ∈ r.variants, v.DerivedFrom base mode := by
  have hr := resolve_resolved h
  refine ⟨hr.variant_eq, hr.mode_eq, hr.kinds_nodup, hr.primary_mem, hr.isPrimary_iff,
    hr.defaultKind_eq, ?_, fun v hv => derivedFrom_of_resolve h hv⟩
  intro kind v
  rw [hr.get?_eq_some_iff]
  constructor
  · rintro ⟨hv, hk⟩
    exact ⟨hv, hk, fun w hw hwk =>
      List.inj_on_of_nodup_map hr.kinds_nodup hw hv (hwk.trans hk.symm)⟩
  · rintro ⟨hv, hk, -⟩
    exact ⟨hv, hk⟩

/-- The registry of `cjsAndEsm`: ECMAScript modules are found under their kind, and their options
are the base's with a directory, a kind, and no declarations. -/
theorem resolve_represents_pair :
    resolve { declaration := true } cjsAndEsm .final = .ok pair ∧
      ∃ v, pair.get? .esNext = some v ∧ v.isPrimary = false ∧
        v.DerivedFrom { declaration := true } .final := by
  obtain ⟨-, -, -, -, -, -, hget, hmember⟩ := resolve_represents resolve_pair
  have hv : pair.get? .esNext =
      some ⟨⟨.esNext, ⟨"esm"⟩, ⟨"cache/esm"⟩, false⟩,
        { outDir := some ⟨"esm"⟩, kind := .esNext }⟩ := rfl
  exact ⟨resolve_pair, _, hv, rfl, hmember _ ((hget _ _).mp hv).1⟩

end Registry

end Fanout
