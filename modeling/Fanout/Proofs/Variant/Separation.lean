import Fanout.Proofs.Options.OutputPath
import Fanout.Proofs.Variant.Representation

/-!
# Variants beside each other

No variant of a registry lies in the directory of another (`Registry.Apart`).  Then the artifacts of
one unit are kept apart by the directories, as long as they go there: `outputPath_same_iff` says of
every unit whether two variants write it to one path, and that is so for an absolute unit that does
not lie below a root directory, since such a unit is its own place (`outputPath_collides`).
-/

set_option autoImplicit false

namespace Fanout.Registry

/-- No variant is written to a directory that encloses, or is, the directory of another. -/
def Apart (r : Registry) (mode : OutputMode) : Prop :=
  ∀ v ∈ r.variants, ∀ w ∈ r.variants, v ≠ w →
    ¬(v.variant.effectiveDir mode).components <+: (w.variant.effectiveDir mode).components

variable {base : Options} {requested : List Variant} {mode : OutputMode} {r : Registry}
  {v w : ResolvedVariant}

/-- The root of the source tree is the base's, so that every variant gives an artifact one name. -/
theorem artifactName_eq (h : resolve base requested mode = .ok r) (hv : v ∈ r.variants)
    (unit : Path) (extension : String) :
    v.options.artifactName unit extension = base.artifactName unit extension := by
  have hroot := congrArg Options.rootDir (derivedFrom_of_resolve h hv).kept
  have hrel : v.options.relativeUnit unit = base.relativeUnit unit :=
    congrArg (fun root? : Option Path => (root?.bind unit.relativeTo?).getD unit) hroot
  rw [Options.artifactName, hrel, Options.artifactName]

/-- **Variants that lie apart share the output path of a unit only where the unit is absolute and
does not lie below a root directory that is named,** and there they always share it. -/
theorem outputPath_same_iff (h : resolve base requested mode = .ok r) (hapart : r.Apart mode)
    (hv : v ∈ r.variants) (hw : w ∈ r.variants) (hne : v ≠ w) (unit : Path) (extension : String) :
    (v.options.outputPath unit extension).same (w.options.outputPath unit extension) = true ↔
      unit.isAbsolute = true ∧
        ∀ root, base.rootDir = some root →
          root = .empty ∨ ¬root.components <+: unit.components := by
  have hdv := derivedFrom_of_resolve h hv
  have hdw := derivedFrom_of_resolve h hw
  have hnv := artifactName_eq h hv unit extension
  have hnw := artifactName_eq h hw unit extension
  rw [← base.isAbsolute_artifactName_iff unit extension, Path.same, beq_iff_eq]
  cases habs : (base.artifactName unit extension).isAbsolute with
  | true =>
    have habsv : (v.options.artifactName unit extension).isAbsolute = true := by rw [hnv, habs]
    have habsw : (w.options.artifactName unit extension).isAbsolute = true := by rw [hnw, habs]
    rw [Options.outputPath_of_isAbsolute habsv, Options.outputPath_of_isAbsolute habsw, hnv, hnw]
    simp
  | false =>
    have habsv : (v.options.artifactName unit extension).isAbsolute = false := by rw [hnv, habs]
    have habsw : (w.options.artifactName unit extension).isAbsolute = false := by rw [hnw, habs]
    rw [Options.components_outputPath hdv.outputDir?_eq hdv.dir_named habsv,
      Options.components_outputPath hdw.outputDir?_eq hdw.dir_named habsw, hnv, hnw,
      List.append_left_inj]
    -- with the same steps after them, the directories would have to be one
    have hdirs : (v.variant.effectiveDir mode).components ≠
        (w.variant.effectiveDir mode).components :=
      fun heq => hapart v hv w hw hne (heq ▸ List.prefix_refl _)
    simp [hdirs]

/-- Base options of a project that keeps its sources in one directory. -/
def rooted : Options := { rootDir := some ⟨"/p/src"⟩, declaration := true }

/-- The registry made from `cjsAndEsm` for that project. -/
def rootedPair : Registry where
  variants := cjsAndEsm.map (resolveVariant rooted .final)
  primary := resolveVariant rooted .final ⟨.commonJs, ⟨"cjs"⟩, ⟨"cache/cjs"⟩, true⟩
  mode := .final

theorem resolve_rooted : resolve rooted cjsAndEsm .final = .ok rootedPair := rfl

theorem rootedPair_apart : rootedPair.Apart .final := by
  unfold Apart
  decide

/-- The two variants are kept apart for a unit below the root directory. -/
theorem outputPath_same_rooted :
    resolve rooted cjsAndEsm .final = .ok rootedPair ∧ rootedPair.Apart .final ∧
      ∃ v ∈ rootedPair.variants, ∃ w ∈ rootedPair.variants, v ≠ w ∧
        ¬(v.options.outputPath ⟨"/p/src/x.ts"⟩ "js").same
          (w.options.outputPath ⟨"/p/src/x.ts"⟩ "js") = true := by
  refine ⟨resolve_rooted, rootedPair_apart, _, List.mem_cons_self, _,
    List.mem_cons_of_mem _ List.mem_cons_self, by decide, ?_⟩
  rw [outputPath_same_iff resolve_rooted rootedPair_apart List.mem_cons_self
    (List.mem_cons_of_mem _ List.mem_cons_self) (by decide)]
  rintro ⟨-, hroot⟩
  exact absurd (hroot _ rfl) (by decide)

/-- An absolute unit beside the root directory has one output path for both: the second variant
overwrites what the first one wrote. -/
theorem outputPath_collides :
    resolve rooted cjsAndEsm .final = .ok rootedPair ∧ rootedPair.Apart .final ∧
      ∃ v ∈ rootedPair.variants, ∃ w ∈ rootedPair.variants, v ≠ w ∧
        (v.options.outputPath ⟨"/p/gen/x.ts"⟩ "js").same
          (w.options.outputPath ⟨"/p/gen/x.ts"⟩ "js") = true :=
  ⟨resolve_rooted, rootedPair_apart, _, List.mem_cons_self, _,
    List.mem_cons_of_mem _ List.mem_cons_self, by decide, by decide⟩

end Fanout.Registry
