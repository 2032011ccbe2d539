import Fanout.Proofs.Path.Components
import Fanout.Proofs.Variant.Resolution
import Mathlib.Data.List.Induction

/-!
# Which lists of variants are accepted

`Registry.Acceptable` says of a list of variants, without any order of looking at it, what makes it
one that a registry can be made from.  `Registry.FirstFault` says which fault any other list is
refused for: of the conditions, taken in their order, the first that fails, at the earliest variant
where one variant is to blame.

* `check_eq_error_iff`: the check reports a fault if and only if it is the first.
* `check_ok_iff_acceptable`: the check passes exactly the acceptable lists.
* `resolve_verdict`: every list is either acceptable, and then resolved, or has a first fault, and
  is then refused with the wording of that fault.
-/

set_option autoImplicit false

namespace Fanout

namespace Variant

def HasDirs (v : Variant) : Prop := v.outDir ≠ .empty ∧ v.cacheDir ≠ .empty

theorem fault?_eq_none_iff {v : Variant} : v.fault? = none ↔ v.HasDirs := by
  simp only [fault?, HasDirs, ← Path.isEmpty_iff, ne_eq]
  split
  · simp [*]
  · split <;> simp [*]

/-- A variant by itself is at fault for a directory without a name, the final one coming first. -/
theorem fault?_eq_some_iff {v : Variant} {fault : RegistryFault} :
    v.fault? = some fault ↔
      v.outDir = .empty ∧ .emptyOutDir v.kind = fault ∨
        v.outDir ≠ .empty ∧ v.cacheDir = .empty ∧ .emptyCacheDir v.kind = fault := by
  simp only [fault?, ← Path.isEmpty_iff, ne_eq]
  split
  · simp [*]
  · split <;> simp [*]

end Variant

namespace Registry

/-- A list of variants that a registry can be made from. -/
structure Acceptable (base : Options) (variants : List Variant) : Prop where
  nonempty : variants ≠ []
  dirs : ∀ v ∈ variants, v.HasDirs
  kinds : (variants.map (·.kind)).Nodup
  onePrimary : variants.countP (·.isPrimary) = 1
  primaryKind : ∀ v ∈ variants, v.isPrimary = true → v.kind = base.kind

/-- The fault that a list of variants is refused for: everything that is looked at before it is in
order. -/
inductive FirstFault (base : Options) (variants : List Variant) : RegistryFault → Prop
  | noVariants (nothing : variants = []) : FirstFault base variants .noVariants
  | emptyOutDir {before after : List Variant} {v : Variant}
      (split : variants = before ++ v :: after) (earlier : ∀ u ∈ before, u.HasDirs)
      (outDir : v.outDir = .empty) : FirstFault base variants (.emptyOutDir v.kind)
  | emptyCacheDir {before after : List Variant} {v : Variant}
      (split : variants = before ++ v :: after) (earlier : ∀ u ∈ before, u.HasDirs)
      (outDir : v.outDir ≠ .empty) (cacheDir : v.cacheDir = .empty) :
      FirstFault base variants (.emptyCacheDir v.kind)
  | repeatedKind {before after : List Variant} {v : Variant} (dirs : ∀ u ∈ variants, u.HasDirs)
      (split : variants = before ++ v :: after) (earlier : (before.map (·.kind)).Nodup)
      (again : v.kind ∈ before.map (·.kind)) : FirstFault base variants (.repeatedKind v.kind)
  | noPrimary (something : variants ≠ []) (dirs : ∀ u ∈ variants, u.HasDirs)
      (kinds : (variants.map (·.kind)).Nodup) (count : variants.countP (·.isPrimary) = 0) :
      FirstFault base variants .noPrimary
  | manyPrimaries (dirs : ∀ u ∈ variants, u.HasDirs) (kinds : (variants.map (·.kind)).Nodup)
      (count : 2 ≤ variants.countP (·.isPrimary)) :
      FirstFault base variants (.manyPrimaries (variants.countP (·.isPrimary)))
  | otherKind {v : Variant} (dirs : ∀ u ∈ variants, u.HasDirs)
      (kinds : (variants.map (·.kind)).Nodup) (count : variants.countP (·.isPrimary) = 1)
      (found : v ∈ variants) (primary : v.isPrimary = true) (differs : v.kind ≠ base.kind) :
      FirstFault base variants (.otherKind v.kind base.kind)

variable {base : Options} {variants : List Variant} {mode : OutputMode} {fault : RegistryFault}

/-! ## The steps of the check -/

theorem findSome?_fault?_eq_none_iff :
    variants.findSome? Variant.fault? = none ↔ ∀ v ∈ variants, v.HasDirs := by
  simp only [List.findSome?_eq_none_iff, Variant.fault?_eq_none_iff]

/-- What comes before the first repetition is only remembered. -/
theorem repeatedKind?_append {seen : List ModuleKind} {before rest : List Variant}
    (hd : (before.map (·.kind)).Nodup) (hfresh : ∀ u ∈ before, u.kind ∉ seen) :
    repeatedKind? seen (before ++ rest) =
      repeatedKind? ((before.map (·.kind)).reverse ++ seen) rest := by
  induction before generalizing seen with
  | nil => rfl
  | cons u before ih =>
    obtain ⟨hu, hd⟩ := List.nodup_cons.mp hd
    have hseen : seen.contains u.kind = false := by
      simpa using hfresh u List.mem_cons_self
    rw [List.cons_append, repeatedKind?, hseen, if_neg Bool.false_ne_true, ih hd]
    · simp
    · intro w hw hmem
      rcases List.mem_cons.mp hmem with h | h
      · exact hu (List.mem_map.mpr ⟨w, hw, h⟩)
      · exact hfresh w (List.mem_cons_of_mem _ hw) h

/-- Kinds that are not all different repeat for a first time. -/
theorem nodup_or_first_repeat (variants : List Variant) :
    (variants.map (·.kind)).Nodup ∨
      ∃ before v after, variants = before ++ v :: after ∧ (before.map (·.kind)).Nodup ∧
        v.kind ∈ before.map (·.kind) := by
  induction variants using List.reverseRecOn with
  | nil => exact Or.inl List.nodup_nil
  | append_singleton variants v ih =>
    rcases ih with hd | ⟨before, u, after, rfl, hd, hagain⟩
    · by_cases hv : v.kind ∈ variants.map (·.kind)
      · exact Or.inr ⟨variants, v, [], rfl, hd, hv⟩
      · exact Or.inl (by simpa using hd.concat hv)
    · exact Or.inr ⟨before, u, after ++ [v], by simp, hd, hagain⟩

/-- The kind found to be repeated is that of the earliest variant whose kind occurred before. -/
theorem repeatedKind?_eq_some_iff {kind : ModuleKind} :
    repeatedKind? [] variants = some kind ↔
      ∃ before v after, variants = before ++ v :: after ∧ (before.map (·.kind)).Nodup ∧
        v.kind ∈ before.map (·.kind) ∧ v.kind = kind := by
  have hfirst : ∀ before v after, variants = before ++ v :: after →
      (before.map (·.kind)).Nodup → v.kind ∈ before.map (·.kind) →
        repeatedKind? [] variants = some v.kind := by
    rintro before v after rfl hd hagain
    rw [repeatedKind?_append hd (by simp), repeatedKind?, if_pos (by simpa using hagain)]
  constructor
  · intro h
    rcases nodup_or_first_repeat variants with hd | ⟨before, v, after, hsplit, hd, hagain⟩
    · rw [repeatedKind?_eq_none_iff.mpr ⟨hd, by simp⟩] at h
      cases h
    · rw [hfirst before v after hsplit hd hagain] at h
      exact ⟨before, v, after, hsplit, hd, hagain, Option.some.inj h⟩
  · rintro ⟨before, v, after, hsplit, hd, hagain, rfl⟩
    exact hfirst before v after hsplit hd hagain

/-! ## The verdict -/

theorem check_of_fault? (h : variants.findSome? Variant.fault? = some fault) :
    check base variants = .error fault := by
  cases variants with
  | nil => cases h
  | cons v rest =>
    rw [check, h]
    rfl

theorem check_of_repeatedKind? {kind : ModuleKind} (hd : ∀ v ∈ variants, v.HasDirs)
    (h : repeatedKind? [] variants = some kind) :
    check base variants = .error (.repeatedKind kind) := by
  cases variants with
  | nil => cases h
  | cons v rest =>
    rw [check, findSome?_fault?_eq_none_iff.mpr hd, h]
    rfl

/-- Where directories and kinds are in order, the primary variants decide. -/
theorem check_of_kinds_nodup (hne : variants ≠ []) (hd : ∀ v ∈ variants, v.HasDirs)
    (hk : (variants.map (·.kind)).Nodup) :
    check base variants =
      match variants.filter (·.isPrimary) with
      | [] => .error .noPrimary
      | [primary] =>
        if primary.kind = base.kind then .ok primary
        else .error (.otherKind primary.kind base.kind)
      | many => .error (.manyPrimaries many.length) := by
  have hempty : variants.isEmpty = false := by simpa using hne
  have hrepeat : repeatedKind? [] variants = none :=
    repeatedKind?_eq_none_iff.mpr ⟨hk, by simp⟩
  rw [check, hempty, findSome?_fault?_eq_none_iff.mpr hd, hrepeat]
  rfl

theorem check_of_noPrimary (hne : variants ≠ []) (hd : ∀ v ∈ variants, v.HasDirs)
    (hk : (variants.map (·.kind)).Nodup) (hcount : variants.countP (·.isPrimary) = 0) :
    check base variants = .error .noPrimary := by
  rw [List.countP_eq_length_filter, List.length_eq_zero_iff] at hcount
  rw [check_of_kinds_nodup hne hd hk, hcount]

theorem check_of_manyPrimaries (hd : ∀ v ∈ variants, v.HasDirs)
    (hk : (variants.map (·.kind)).Nodup) (hcount : 2 ≤ variants.countP (·.isPrimary)) :
    check base variants = .error (.manyPrimaries (variants.countP (·.isPrimary))) := by
  have hne : variants ≠ [] := by
    rintro rfl
    simp at hcount
  rw [check_of_kinds_nodup hne hd hk]
  rw [List.countP_eq_length_filter] at hcount ⊢
  generalize variants.filter (·.isPrimary) = primaries at hcount ⊢
  match primaries, hcount with
  | _ :: _ :: _, _ => rfl

theorem check_of_onePrimary (hd : ∀ v ∈ variants, v.HasDirs)
    (hk : (variants.map (·.kind)).Nodup) (hcount : variants.countP (·.isPrimary) = 1)
    {v : Variant} (hv : v ∈ variants) (hp : v.isPrimary = true) :
    check base variants =
      if v.kind = base.kind then .ok v else .error (.otherKind v.kind base.kind) := by
  rw [List.countP_eq_length_filter, List.length_eq_one_iff] at hcount
  obtain ⟨primary, hprimary⟩ := hcount
  have hmem : v ∈ variants.filter (·.isPrimary) := List.mem_filter.mpr ⟨hv, hp⟩
  rw [hprimary, List.mem_singleton] at hmem
  subst hmem
  rw [check_of_kinds_nodup (List.ne_nil_of_mem hv) hd hk, hprimary]

theorem FirstFault.check_eq (h : FirstFault base variants fault) :
    check base variants = .error fault := by
  cases h with
  | noVariants nothing => rw [nothing]; rfl
  | emptyOutDir split earlier outDir =>
    exact check_of_fault? (List.findSome?_eq_some_iff.mpr ⟨_, _, _, split,
      Variant.fault?_eq_some_iff.mpr (Or.inl ⟨outDir, rfl⟩),
      fun u hu => Variant.fault?_eq_none_iff.mpr (earlier u hu)⟩)
  | emptyCacheDir split earlier outDir cacheDir =>
    exact check_of_fault? (List.findSome?_eq_some_iff.mpr ⟨_, _, _, split,
      Variant.fault?_eq_some_iff.mpr (Or.inr ⟨outDir, cacheDir, rfl⟩),
      fun u hu => Variant.fault?_eq_none_iff.mpr (earlier u hu)⟩)
  | repeatedKind dirs split earlier again =>
    exact check_of_repeatedKind? dirs
      (repeatedKind?_eq_some_iff.mpr ⟨_, _, _, split, earlier, again, rfl⟩)
  | noPrimary something dirs kinds count => exact check_of_noPrimary something dirs kinds count
  | manyPrimaries dirs kinds count => exact check_of_manyPrimaries dirs kinds count
  | otherKind dirs kinds count found primary differs =>
    rw [check_of_onePrimary dirs kinds count found primary, if_neg differs]

theorem firstFault_of_check (h : check base variants = .error fault) :
    FirstFault base variants fault := by
  by_cases hne : variants = []
  · subst hne
    cases h
    exact .noVariants rfl
  cases hf : variants.findSome? Variant.fault? with
  | some found =>
    rw [check_of_fault? hf] at h
    cases h
    obtain ⟨before, v, after, split, hv, earlier⟩ := List.findSome?_eq_some_iff.mp hf
    have earlier : ∀ u ∈ before, u.HasDirs :=
      fun u hu => Variant.fault?_eq_none_iff.mp (earlier u hu)
    rcases Variant.fault?_eq_some_iff.mp hv with ⟨outDir, rfl⟩ | ⟨outDir, cacheDir, rfl⟩
    · exact .emptyOutDir split earlier outDir
    · exact .emptyCacheDir split earlier outDir cacheDir
  | none =>
    have dirs := findSome?_fault?_eq_none_iff.mp hf
    cases hr : repeatedKind? [] variants with
    | some kind =>
      rw [check_of_repeatedKind? dirs hr] at h
      cases h
      obtain ⟨before, v, after, split, earlier, again, rfl⟩ := repeatedKind?_eq_some_iff.mp hr
      exact .repeatedKind dirs split earlier again
    | none =>
      have kinds := (repeatedKind?_eq_none_iff.mp hr).1
      rcases Nat.lt_trichotomy (variants.countP (·.isPrimary)) 1 with count | count | count
      · have count : variants.countP (·.isPrimary) = 0 := by omega
        rw [check_of_noPrimary hne dirs kinds count] at h
        cases h
        exact .noPrimary hne dirs kinds count
      · obtain ⟨v, found, primary⟩ :=
          List.countP_pos_iff.mp (by omega : 0 < variants.countP (·.isPrimary))
        rw [check_of_onePrimary dirs kinds count found primary] at h
        split at h
        · cases h
        · rename_i differs
          cases h
          exact .otherKind dirs kinds count found primary differs
      · rw [check_of_manyPrimaries dirs kinds count] at h
        cases h
        exact .manyPrimaries dirs kinds count

theorem check_eq_error_iff :
    check base variants = .error fault ↔ FirstFault base variants fault :=
  ⟨firstFault_of_check, FirstFault.check_eq⟩

theorem check_ok_iff_acceptable :
    (∃ primary, check base variants = .ok primary) ↔ Acceptable base variants := by
  simp only [check_eq_ok_iff, Variant.fault?_eq_none_iff]
  constructor
  · rintro ⟨p, hne, hd, hk, hp, hb⟩
    refine ⟨hne, hd, hk, ?_, ?_⟩
    · rw [List.countP_eq_length_filter, hp]
      rfl
    · intro v hv hprimary
      have hmem : v ∈ variants.filter (·.isPrimary) := List.mem_filter.mpr ⟨hv, hprimary⟩
      rw [hp, List.mem_singleton] at hmem
      exact hmem ▸ hb
  · intro h
    obtain ⟨p, hp⟩ := List.length_eq_one_iff.mp (List.countP_eq_length_filter ▸ h.onePrimary)
    obtain ⟨hmem, hprimary⟩ := List.mem_filter.mp (hp ▸ List.mem_singleton_self p)
    exact ⟨p, h.nonempty, h.dirs, h.kinds, hp, h.primaryKind p hmem hprimary⟩

/-- **Every list of variants is accepted or refused for its first fault.**  It is resolved exactly
if it is acceptable, and refused for a fault exactly if that is its first one, so that every list
that is not acceptable has one; the refusal is a configuration error in the words of the fault. -/
theorem resolve_verdict (base : Options) (variants : List Variant) (mode : OutputMode) :
    ((∃ r, resolve base variants mode = .ok r) ↔ Acceptable base variants) ∧
      (∀ fault, resolve base variants mode = .error fault ↔ FirstFault base variants fault) ∧
      (Acceptable base variants ∨ ∃ fault, FirstFault base variants fault ∧
        (resolve base variants mode).mapError RegistryFault.toError =
          .error (.configuration fault.message)) := by
  unfold resolve
  rw [← check_ok_iff_acceptable]
  simp only [← check_eq_error_iff]
  cases check base variants with
  | ok primary => simp [Except.map]
  | error fault => simp [Except.map, Except.mapError, RegistryFault.toError]

end Registry

end Fanout
