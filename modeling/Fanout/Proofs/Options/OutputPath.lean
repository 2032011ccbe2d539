import Fanout.Options.OutputPath
import Fanout.Proofs.Path.Bytes

/-!
# Where the artifact of a unit lands

The artifact of a unit has a name, the unit as seen from the root of the source tree with another
extension (`Options.artifactName`).  Exchanging the extension never changes whether that name is
absolute, so the name is absolute exactly if the unit is and does not lie below a root that is named
(`isAbsolute_artifactName_iff`).

* `components_outputPath`: a name that is not absolute goes below the output directory.
* `outputPath_of_isAbsolute`: an absolute one is the output path, whatever the output directory.
* `placement_outputPath`: where all paths are text, their bytes lead to the bytes of the same path.
-/

set_option autoImplicit false

namespace Fanout

namespace Path

/-- What is removed with a source extension is nothing or begins with a dot. -/
theorem chars_withoutSourceExtension (p : Path) :
    ∃ cut, p.chars = p.withoutSourceExtension.chars ++ cut ∧
      ∀ c, cut.head? = some c → c = '.' := by
  unfold withoutSourceExtension
  cases h : sourceExtensions.findSome? fun ext => p.stripSuffix? ext.toList with
  | none => exact ⟨[], by simp, by simp⟩
  | some q =>
    obtain ⟨ext, hext, hq⟩ := List.exists_of_findSome?_eq_some h
    refine ⟨ext.toList, ?_, ?_⟩
    · unfold stripSuffix? at hq
      split at hq
      · rename_i hsuffix
        cases hq
        obtain ⟨stem, hstem⟩ := List.reverse_prefix.mp (List.isPrefixOf_iff_prefix.mp hsuffix)
        simp [← hstem]
      · cases hq
    · simp only [sourceExtensions, List.mem_cons, List.not_mem_nil, or_false] at hext
      rcases hext with rfl | rfl | rfl | rfl | rfl | rfl | rfl <;> simp

/-- Exchanging the extension of a path leaves it absolute or not absolute. -/
theorem isAbsolute_withExtension (p : Path) (extension : String) :
    (p.withoutSourceExtension.withExtension extension).isAbsolute = p.isAbsolute := by
  obtain ⟨cut, hcut, hdot⟩ := p.chars_withoutSourceExtension
  rw [isAbsolute, isAbsolute, withExtension, chars_ofChars, hcut]
  cases hp : p.withoutSourceExtension.chars with
  | cons c cs => rfl
  | nil =>
    cases hc : cut.head? with
    | none => simp [hc]
    | some c => simp [hc, hdot c hc]

end Path

namespace Options

/-- The name of an artifact, before it is placed in a directory. -/
def artifactName (o : Options) (unit : Path) (extension : String) : Path :=
  (o.relativeUnit unit).withoutSourceExtension.withExtension extension

theorem isAbsolute_relativeUnit_iff (o : Options) (unit : Path) :
    (o.relativeUnit unit).isAbsolute = true ↔
      unit.isAbsolute = true ∧
        ∀ root, o.rootDir = some root → root = .empty ∨ ¬root.components <+: unit.components := by
  unfold relativeUnit
  cases o.rootDir with
  | none => simp
  | some root =>
    rw [Option.bind_some]
    by_cases hpre : root.components <+: unit.components
    · have hrel := Path.relativeTo?_of_prefix hpre
      rw [hrel, Option.getD_some, Path.isAbsolute_of_relativeTo? hrel]
      simp [hpre]
    · rw [Path.relativeTo?_of_not_prefix hpre]
      simp [hpre]

/-- The name of an artifact is absolute if the unit is and does not lie below a root directory that
is named. -/
theorem isAbsolute_artifactName_iff (o : Options) (unit : Path) (extension : String) :
    (o.artifactName unit extension).isAbsolute = true ↔
      unit.isAbsolute = true ∧
        ∀ root, o.rootDir = some root → root = .empty ∨ ¬root.components <+: unit.components := by
  rw [artifactName, Path.isAbsolute_withExtension, isAbsolute_relativeUnit_iff]

variable {o : Options} {unit : Path} {extension : String}

theorem components_outputPath {dir : Path} (ho : o.outDir = some dir) (hd : dir ≠ .empty)
    (hn : (o.artifactName unit extension).isAbsolute = false) :
    (o.outputPath unit extension).components =
      dir.components ++ Path.steps (o.artifactName unit extension).pieces := by
  rw [outputPath, ho]
  exact Path.components_join hd hn

theorem outputPath_of_isAbsolute (hn : (o.artifactName unit extension).isAbsolute = true) :
    o.outputPath unit extension = o.artifactName unit extension := by
  rw [outputPath]
  cases o.outDir with
  | none => rfl
  | some dir => exact if_pos hn

end Options

/-! ## Paths in bytes -/

theorem BytePath.shown_withoutSourceExtension (p : BytePath) :
    p.withoutSourceExtension.shown = p.shown.withoutSourceExtension := by
  unfold BytePath.withoutSourceExtension Path.withoutSourceExtension
  cases sourceExtensions.findSome? fun ext => p.shown.stripSuffix? ext.toList with
  | none => rfl
  | some stem => exact shown_ofPath stem

namespace Placement

variable {l : Placement}

/-- The name of an artifact, which is text whatever the path of the unit is. -/
def artifactName (l : Placement) (unit : BytePath) (extension : String) : Path :=
  (l.relativeUnit unit).shown.withoutSourceExtension.withExtension extension

theorem outputPath_eq_join {dir : BytePath} (hl : l.outDir = some dir) (unit : BytePath)
    (extension : String) :
    l.outputPath unit extension = dir.join (.ofPath (l.artifactName unit extension)) := by
  rw [outputPath, hl, BytePath.withExtension, BytePath.shown_withoutSourceExtension]
  rfl

end Placement

/-- **Text goes where its bytes go.** -/
theorem Options.placement_outputPath (o : Options) (unit : Path) (extension : String) :
    o.placement.outputPath (.ofPath unit) extension =
      .ofPath (o.outputPath unit extension) := by
  have hunit : o.placement.relativeUnit (.ofPath unit) = .ofPath (o.relativeUnit unit) := by
    unfold Placement.relativeUnit relativeUnit placement
    cases o.rootDir with
    | none => rfl
    | some root =>
      simp only [Option.map_some, Option.bind_some, BytePath.relativeTo?_ofPath]
      cases unit.relativeTo? root <;> rfl
  have hname : (o.placement.relativeUnit (.ofPath unit)).withoutSourceExtension.withExtension
      extension = .ofPath (o.artifactName unit extension) := by
    rw [hunit, BytePath.withExtension, BytePath.shown_withoutSourceExtension,
      BytePath.shown_ofPath]
    rfl
  rw [Placement.outputPath, hname, outputPath, placement]
  cases o.outDir with
  | none => rfl
  | some dir => exact BytePath.join_ofPath dir _

end Fanout
