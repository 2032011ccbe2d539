import Fanout.Variant.Registry
import Mathlib.Data.List.Nodup

/-!
# What a resolved registry holds

`Registry.check` looks at a list of variants in five steps; `check_eq_ok_iff` states the lists that
pass all of them.  `Registry.Resolved` collects what that says about the registry made from such a
list, and `resolve_resolved` that every registry given by `Registry.resolve` is of that kind:

* its variants are those asked for, in their order, each under the options of its patch;
* no two of them have one module kind, so that the kind tells them apart (`Resolved.kind_eq_iff`);
* the primary is the one that is marked, its kind is that of the base options, and declarations
  are left to it (`Resolved.emitsDeclarations_eq`).
-/

set_option autoImplicit false

namespace Fanout

namespace Options

@[simp] theorem patched_forPrimary (o : Options) (dir : Path) :
    o.patched (.forPrimary dir) = { o with outDir := some dir } := rfl

@[simp] theorem patched_forSecondary (o : Options) (kind : ModuleKind) (dir : Path) :
    o.patched (.forSecondary kind dir) =
      { o with outDir := some dir, kind, declaration := false, declarationMap := false } := rfl

end Options

namespace Registry

/-! ## Lists that pass the check -/

theorem repeatedKind?_eq_none_iff {seen : List ModuleKind} {variants : List Variant} :
    repeatedKind? seen variants = none ↔
      (variants.map (·.kind)).Nodup ∧ ∀ v ∈ variants, v.kind ∉ seen := by
  induction variants generalizing seen with
  | nil => simp [repeatedKind?]
  | cons v rest ih =>
    unfold repeatedKind?
    by_cases hv : v.kind ∈ seen
    · simp [hv]
    · rw [if_neg (by simpa using hv), ih]
      simp only [List.map_cons, List.nodup_cons, List.mem_map, List.mem_cons, not_or,
        forall_eq_or_imp, not_exists, not_and]
      constructor
      · rintro ⟨hd, hr⟩
        exact ⟨⟨fun w hw => (hr w hw).1, hd⟩, hv, fun w hw => (hr w hw).2⟩
      · rintro ⟨⟨hne, hd⟩, _, hr⟩
        exact ⟨hd, fun w hw => ⟨hne w hw, hr w hw⟩⟩

/-- A list passes with its primary variant if none of the five faults is there. -/
theorem check_eq_ok_iff {base : Options} {variants : List Variant} {primary : Variant} :
    check base variants = .ok primary ↔
      variants ≠ [] ∧ (∀ v ∈ variants, v.fault? = none) ∧ (variants.map (·.kind)).Nodup ∧
        variants.filter (·.isPrimary) = [primary] ∧ primary.kind = base.kind := by
  have hk : repeatedKind? [] variants = none ↔ (variants.map (·.kind)).Nodup := by
    simp [repeatedKind?_eq_none_iff]
  unfold check
  split
  · rename_i he
    simp [List.isEmpty_iff.mp he]
  · rename_i he
    have hne : variants ≠ [] := by simpa using he
    split
    · rename_i fault hf
      obtain ⟨v, hv, hvf⟩ := List.exists_of_findSome?_eq_some hf
      simp only [reduceCtorEq, false_iff, not_and]
      intro _ hall
      rw [hall v hv] at hvf
      cases hvf
    · rename_i hf
      rw [List.findSome?_eq_none_iff] at hf
      split
      · rename_i kind hr
        simp only [reduceCtorEq, false_iff, not_and]
        intro _ _ hd
        rw [hk.mpr hd] at hr
        cases hr
      · rename_i hr
        have hd := hk.mp hr
        split
        · rename_i hp
          simp [hp]
        · rename_i p hp
          simp only [hp, List.cons.injEq, and_true]
          split
          · rename_i hb
            simp only [Except.ok.injEq]
            exact ⟨fun h => h ▸ ⟨hne, hf, hd, rfl, hb⟩, fun h => h.2.2.2.1⟩
          · rename_i hb
            simp only [reduceCtorEq, false_iff, not_and]
            rintro _ _ _ rfl
            exact hb
        · rename_i many hnil hone
          simp only [reduceCtorEq, false_iff, not_and]
          intro _ _ _ hp
          exact absurd hp (hone primary)

/-! ## Registries made from them -/

/-- What holds of the registry that is made from a list of variants. -/
structure Resolved (base : Options) (requested : List Variant) (mode : OutputMode)
    (r : Registry) : Prop where
  variants_eq : r.variants = requested.map (resolveVariant base mode)
  mode_eq : r.mode = mode
  kinds_nodup : (r.variants.map (·.kind)).Nodup
  primary_mem : r.primary ∈ r.variants
  isPrimary_iff : ∀ v ∈ r.variants, v.isPrimary = true ↔ v = r.primary
  defaultKind_eq : r.defaultKind = base.kind

theorem resolve_resolved {base : Options} {requested : List Variant} {mode : OutputMode}
    {r : Registry} (h : resolve base requested mode = .ok r) :
    Resolved base requested mode r := by
  unfold resolve at h
  cases hc : check base requested with
  | error fault => rw [hc] at h; cases h
  | ok primary =>
    rw [hc] at h
    cases h
    obtain ⟨_, _, hd, hp, hb⟩ := check_eq_ok_iff.mp hc
    have hmem : ∀ v, v ∈ requested ∧ v.isPrimary = true ↔ v = primary := by
      intro v
      rw [← List.mem_filter, hp, List.mem_singleton]
    have hkinds : (requested.map (resolveVariant base mode)).map (·.kind) =
        requested.map (·.kind) := by
      simp [resolveVariant, ResolvedVariant.kind]
    refine ⟨rfl, rfl, hkinds ▸ hd, ?_, ?_, hb⟩
    · exact List.mem_map_of_mem ((hmem primary).mpr rfl).1
    · intro v hv
      obtain ⟨u, hu, rfl⟩ := List.mem_map.mp hv
      constructor
      · intro hpu
        rw [(hmem u).mp ⟨hu, hpu⟩]
      · intro he
        have : u = primary := congrArg ResolvedVariant.variant he
        exact ((hmem u).mpr this).2

/-- CommonJS, the primary, and ECMAScript modules beside it. -/
def cjsAndEsm : List Variant :=
  [⟨.commonJs, ⟨"cjs"⟩, ⟨"cache/cjs"⟩, true⟩, ⟨.esNext, ⟨"esm"⟩, ⟨"cache/esm"⟩, false⟩]

/-- The registry made from `cjsAndEsm` under options that ask for declarations. -/
def pair : Registry where
  variants :=
    [⟨⟨.commonJs, ⟨"cjs"⟩, ⟨"cache/cjs"⟩, true⟩, { outDir := some ⟨"cjs"⟩, declaration := true }⟩,
      ⟨⟨.esNext, ⟨"esm"⟩, ⟨"cache/esm"⟩, false⟩, { outDir := some ⟨"esm"⟩, kind := .esNext }⟩]
  primary :=
    ⟨⟨.commonJs, ⟨"cjs"⟩, ⟨"cache/cjs"⟩, true⟩, { outDir := some ⟨"cjs"⟩, declaration := true }⟩
  mode := .final

theorem resolve_pair : resolve { declaration := true } cjsAndEsm .final = .ok pair := rfl

variable {base : Options} {requested : List Variant} {mode : OutputMode} {r : Registry}

theorem Resolved.primary_isPrimary (h : Resolved base requested mode r) :
    r.primary.isPrimary = true :=
  (h.isPrimary_iff _ h.primary_mem).mpr rfl

theorem Resolved.variants_ne_nil (h : Resolved base requested mode r) : r.variants ≠ [] :=
  List.ne_nil_of_mem h.primary_mem

theorem Resolved.variant_eq (h : Resolved base requested mode r) :
    r.variants.map (·.variant) = requested := by
  rw [h.variants_eq, List.map_map]
  exact List.map_id _

/-- The kind tells the primary from the others. -/
theorem Resolved.kind_eq_iff (h : Resolved base requested mode r) {v : ResolvedVariant}
    (hv : v ∈ r.variants) : v.kind = r.defaultKind ↔ v = r.primary :=
  ⟨fun hk => List.inj_on_of_nodup_map h.kinds_nodup hv h.primary_mem hk, fun he => he ▸ rfl⟩

/-- The options of a variant: the base with the variant's directory, and, unless it is primary,
with its kind and without declarations. -/
theorem Resolved.options_eq (h : Resolved base requested mode r) {v : ResolvedVariant}
    (hv : v ∈ r.variants) :
    v.options =
      if v.isPrimary then { base with outDir := some (v.variant.effectiveDir mode) }
      else { base with
        outDir := some (v.variant.effectiveDir mode), kind := v.kind,
        declaration := false, declarationMap := false } := by
  rw [h.variants_eq] at hv
  obtain ⟨u, _, rfl⟩ := List.mem_map.mp hv
  by_cases hp : u.isPrimary = true
  · simp [resolveVariant, Variant.patch, ResolvedVariant.isPrimary, hp]
  · simp [resolveVariant, Variant.patch, ResolvedVariant.isPrimary, ResolvedVariant.kind, hp]

theorem Resolved.emitsDeclarations_eq (h : Resolved base requested mode r) {v : ResolvedVariant}
    (hv : v ∈ r.variants) :
    v.options.emitsDeclarations = (v.isPrimary && base.emitsDeclarations) := by
  rw [h.options_eq hv]
  cases v.isPrimary <;> rfl

theorem Resolved.primary_options (h : Resolved base requested mode r) :
    r.primary.options =
      { base with outDir := some (r.primary.variant.effectiveDir mode) } := by
  rw [h.options_eq h.primary_mem, if_pos h.primary_isPrimary]

theorem Resolved.filter_isPrimary (h : Resolved base requested mode r) :
    r.variants.filter (·.isPrimary) = [r.primary] := by
  have hd : r.variants.Nodup := h.kinds_nodup.of_map
  calc r.variants.filter (·.isPrimary)
      = r.variants.filter (· = r.primary) :=
        List.filter_congr fun v hv => by simp [← h.isPrimary_iff v hv]
    _ = List.replicate (r.variants.count r.primary) r.primary := List.filter_eq _
    _ = [r.primary] := by rw [List.count_eq_one_of_mem hd h.primary_mem, List.replicate_one]

/-- Of the options of the variants, those of the primary ask for declarations if the base does. -/
theorem Resolved.filter_emitsDeclarations (h : Resolved base requested mode r) :
    (r.variants.map (·.options)).filter (·.emitsDeclarations) =
      if base.emitsDeclarations then [r.primary.options] else [] := by
  have hf : r.variants.filter (·.options.emitsDeclarations) =
      r.variants.filter fun v => v.isPrimary && base.emitsDeclarations :=
    List.filter_congr fun v hv => h.emitsDeclarations_eq hv
  rw [List.filter_map, Function.comp_def, hf]
  cases base.emitsDeclarations with
  | true => simp [h.filter_isPrimary]
  | false => simp

end Registry

end Fanout
