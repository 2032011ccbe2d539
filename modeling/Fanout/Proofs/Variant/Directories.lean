import Fanout.Proofs.Path.Trees
import Fanout.Proofs.Variant.Separation

/-!
# The directories of variants

A registry writes every variant to the directory that the list asks for, and it holds no two of
these directories against each other: whether the variants have trees of their own is up to the
list.

* `outputDirs_eq`: the directories of the members are those asked for, in their order.
* `components_outputPath_of_places`: below its directory a variant writes an artifact where every
  other variant writes it below its own.
* `exists_resolve_movedTo`: a list that is accepted is accepted as well with all variants in one
  directory.

The main result, `directories_as_requested`, says which of the artifacts of two variants are then
kept apart; `resolve_shares_directory` is a list that keeps none of them apart.
-/

set_option autoImplicit false

namespace Fanout

namespace Options

/-- The artifacts of a unit go below the output directory: the unit is not absolute, or it lies in
the source tree. -/
def Places (o : Options) (unit : Path) : Prop :=
  unit.isAbsolute = false ∨ ∃ root, o.rootDir = some root ∧ root ≠ .empty ∧ unit.Within root

theorem Places.isAbsolute_artifactName {o : Options} {unit : Path} (h : o.Places unit)
    (extension : String) : (o.artifactName unit extension).isAbsolute = false := by
  rw [← Bool.not_eq_true, isAbsolute_artifactName_iff]
  rintro ⟨habs, helsewhere⟩
  rcases h with hrel | ⟨root, hroot, hnamed, hwithin⟩
  · rw [hrel] at habs
    cases habs
  · rcases helsewhere root hroot with hempty | hnot
    · exact hnamed hempty
    · exact hnot hwithin

end Options

namespace Variant

/-- A variant that goes to another directory in either mode. -/
def movedTo (dir : Path) (v : Variant) : Variant := { v with outDir := dir, cacheDir := dir }

theorem effectiveDir_movedTo (dir : Path) (v : Variant) (mode : OutputMode) :
    (v.movedTo dir).effectiveDir mode = dir := by
  cases mode <;> rfl

end Variant

namespace Registry

variable {base : Options} {requested : List Variant} {mode : OutputMode} {r : Registry}
  {v w : ResolvedVariant} {dir : Path}

/-! ## Where the members of a registry go -/

theorem outputDirs_eq (h : resolve base requested mode = .ok r) :
    r.variants.map (·.outputDir?) = requested.map fun v => some (v.effectiveDir mode) := by
  rw [← (resolve_resolved h).variant_eq, List.map_map]
  exact List.map_congr_left fun v hv => (derivedFrom_of_resolve h hv).outputDir?_eq

/-- An artifact is written below the directory of a variant, at a place that is the same for all
variants. -/
theorem components_outputPath_of_places (h : resolve base requested mode = .ok r)
    (hv : v ∈ r.variants) {unit : Path} (hunit : base.Places unit) (extension : String) :
    (v.options.outputPath unit extension).components =
      (v.variant.effectiveDir mode).components ++
        Path.steps (base.artifactName unit extension).pieces := by
  have hd := derivedFrom_of_resolve h hv
  have hname := artifactName_eq h hv unit extension
  have hrel : (v.options.artifactName unit extension).isAbsolute = false := by
    rw [hname, hunit.isAbsolute_artifactName]
  rw [Options.components_outputPath hd.outputDir?_eq hd.dir_named hrel, hname]

theorem outputPath_within (h : resolve base requested mode = .ok r) (hv : v ∈ r.variants)
    {unit : Path} (hunit : base.Places unit) (extension : String) :
    (v.options.outputPath unit extension).Within (v.variant.effectiveDir mode) :=
  ⟨_, (components_outputPath_of_places h hv hunit extension).symm⟩

/-- Two variants write an artifact to one path exactly if they have one directory. -/
theorem outputPath_same_iff_effectiveDir_same (h : resolve base requested mode = .ok r)
    (hv : v ∈ r.variants) (hw : w ∈ r.variants) {unit : Path} (hunit : base.Places unit)
    (extension : String) :
    (v.options.outputPath unit extension).same (w.options.outputPath unit extension) = true ↔
      (v.variant.effectiveDir mode).same (w.variant.effectiveDir mode) = true := by
  rw [Path.same, Path.same, beq_iff_eq, beq_iff_eq, components_outputPath_of_places h hv hunit,
    components_outputPath_of_places h hw hunit, List.append_left_inj]

/-! ## Lists with other directories -/

theorem Acceptable.movedTo (h : Acceptable base requested) (hdir : dir ≠ .empty) :
    Acceptable base (requested.map (·.movedTo dir)) where
  nonempty := by simpa using h.nonempty
  dirs v hv := by
    obtain ⟨u, -, rfl⟩ := List.mem_map.mp hv
    exact ⟨hdir, hdir⟩
  kinds := by
    rw [List.map_map]
    exact h.kinds
  onePrimary := by
    rw [List.countP_map]
    exact h.onePrimary
  primaryKind v hv hprimary := by
    obtain ⟨u, hu, rfl⟩ := List.mem_map.mp hv
    exact h.primaryKind u hu hprimary

/-- **No list is refused for its directories,** as long as they have names: the variants of an
accepted list may all go to one directory. -/
theorem exists_resolve_movedTo (h : resolve base requested mode = .ok r) (hdir : dir ≠ .empty) :
    ∃ r', resolve base (requested.map (·.movedTo dir)) mode = .ok r' ∧
      ∀ v ∈ r'.variants, v.outputDir? = some dir := by
  obtain ⟨primary, hcheck⟩ :=
    check_ok_iff_acceptable.mpr ((acceptable_of_resolve h).movedTo hdir)
  have hr' : ∃ r', resolve base (requested.map (·.movedTo dir)) mode = .ok r' := by
    rw [resolve, hcheck]
    exact ⟨_, rfl⟩
  obtain ⟨r', hr'⟩ := hr'
  refine ⟨r', hr', fun v hv => ?_⟩
  have hmoved : v.variant ∈ requested.map (·.movedTo dir) :=
    (resolve_resolved hr').variant_eq ▸ List.mem_map_of_mem hv
  obtain ⟨u, -, hu⟩ := List.mem_map.mp hmoved
  rw [(derivedFrom_of_resolve hr' hv).outputDir?_eq, ← hu, Variant.effectiveDir_movedTo]

/-- **Variants go where the list says, and only the list keeps them apart.**  The directories of the
members of a registry are those asked for.  As to the units whose artifacts go below the
directories, two variants write an artifact of a unit to one path exactly if their directories are
one path; and if neither directory lies in the other, no artifact that one of them writes for such a
unit is at the place of one that the other writes.  No list is refused for its directories, not even
with one for all variants. -/
theorem directories_as_requested (h : resolve base requested mode = .ok r) :
    (r.variants.map (·.outputDir?) = requested.map fun v => some (v.effectiveDir mode)) ∧
      (∀ v ∈ r.variants, ∀ w ∈ r.variants,
        (∀ unit extension, base.Places unit →
          ((v.options.outputPath unit extension).same (w.options.outputPath unit extension) = true ↔
            (v.variant.effectiveDir mode).same (w.variant.effectiveDir mode) = true)) ∧
        ((v.variant.effectiveDir mode).Apart (w.variant.effectiveDir mode) →
          ∀ unit unit' extension extension', base.Places unit → base.Places unit' →
            (v.options.outputPath unit extension).same
              (w.options.outputPath unit' extension') = false)) ∧
      ∀ dir ≠ .empty, ∃ r', resolve base (requested.map (·.movedTo dir)) mode = .ok r' ∧
        ∀ v ∈ r'.variants, v.outputDir? = some dir := by
  refine ⟨outputDirs_eq h, fun v hv w hw => ⟨?_, ?_⟩, fun _ hdir => exists_resolve_movedTo h hdir⟩
  · intro unit extension hunit
    exact outputPath_same_iff_effectiveDir_same h hv hw hunit extension
  · intro hapart unit unit' extension extension' hunit hunit'
    exact hapart.not_same_of_within (outputPath_within h hv hunit extension)
      (outputPath_within h hw hunit' extension')

/-- The variants of `cjsAndEsm` have trees of their own, so that a source in a directory of the name
of one of them does no harm; in one directory they are accepted as well. -/
theorem directories_as_requested_pair :
    resolve { declaration := true } cjsAndEsm .final = .ok pair ∧
      (∃ v ∈ pair.variants, ∃ w ∈ pair.variants,
        (v.options.outputPath ⟨"esm/x.ts"⟩ "js").same
          (w.options.outputPath ⟨"x.ts"⟩ "js") = false) ∧
      ∃ r', resolve { declaration := true } (cjsAndEsm.map (·.movedTo ⟨"dist"⟩)) .final = .ok r' ∧
        ∀ v ∈ r'.variants, v.outputDir? = some ⟨"dist"⟩ := by
  obtain ⟨-, hmembers, hmoved⟩ := directories_as_requested resolve_pair
  refine ⟨resolve_pair, ⟨_, List.mem_cons_self, _, List.mem_cons_of_mem _ List.mem_cons_self, ?_⟩,
    hmoved ⟨"dist"⟩ (by decide)⟩
  obtain ⟨-, hapart⟩ := hmembers _ List.mem_cons_self _ (List.mem_cons_of_mem _ List.mem_cons_self)
  have hdirs : (⟨"cjs"⟩ : Path).Apart ⟨"esm"⟩ := by
    unfold Path.Apart Path.Within
    decide
  exact hapart hdirs _ _ _ _ (Or.inl rfl) (Or.inl rfl)

/-- Two variants in one directory, spelled in two ways. -/
def inOneDirectory : List Variant :=
  [⟨.commonJs, ⟨"dist"⟩, ⟨"cache/cjs"⟩, true⟩, ⟨.esNext, ⟨"dist/"⟩, ⟨"cache/esm"⟩, false⟩]

/-- The registry accepts them, and the second one overwrites what the first one wrote. -/
theorem resolve_shares_directory :
    ∃ r, resolve {} inOneDirectory .final = .ok r ∧ ∃ v ∈ r.variants, ∃ w ∈ r.variants, v ≠ w ∧
      (v.variant.effectiveDir .final).same (w.variant.effectiveDir .final) = true ∧
      (v.options.outputPath ⟨"x.ts"⟩ "js").same (w.options.outputPath ⟨"x.ts"⟩ "js") = true :=
  ⟨_, rfl, _, List.mem_cons_self, _, List.mem_cons_of_mem _ List.mem_cons_self, by decide,
    by decide, by decide⟩

end Registry

end Fanout
