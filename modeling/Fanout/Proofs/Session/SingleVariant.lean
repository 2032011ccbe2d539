import Fanout.Proofs.Session.OfProject

/-!
# Projects that list no variants

A project without variants gets a single primary one, made from its compiler section.  Listing that
variant in the project file comes to the same (`Project.spelledOut`), although the directories are
then found on another way: the output directory of an entry is seen from the root of the project
where the one of the base options has been already, and the cache directory is filled in from the
entry.

* `variantOf_onlyEntry`: both ways end in one variant, with every path seen from the root once.
* `resolve_onlyVariant`: a session with that variant alone resolves if its output directory has a
  name.

The main result, `ofProject_spelledOut`, follows a project and the one that lists its variant to one
session and one registry.
-/

set_option autoImplicit false

namespace Fanout

namespace Project

/-- The entry that stands for the single variant of a project. -/
def onlyEntry (p : Project) (outDir : Path) : VariantEntry where
  kind := p.declaredKind
  outDir
  isPrimary := true

/-- The project that lists its single variant, with the cache switch that it has. -/
def spelledOut (p : Project) (outDir : Path) : Project :=
  { p with
    emit := some { cache := p.emit.bind (·.cache), variants := [p.onlyEntry outDir] } }

@[simp] theorem variants_spelledOut (p : Project) (outDir : Path) :
    (p.spelledOut outDir).variants = [p.onlyEntry outDir] := rfl

@[simp] theorem cacheEnabled_spelledOut (p : Project) (outDir : Path) :
    (p.spelledOut outDir).cacheEnabled = p.cacheEnabled := rfl

end Project

namespace LoadedProject

/-- The loaded project that lists its single variant. -/
def spelledOut (l : LoadedProject) (outDir : Path) : LoadedProject :=
  { l with project := l.project.spelledOut outDir }

variable (l : LoadedProject) (dir : Path)

theorem onlyVariant_eq : l.onlyVariant dir =
    { kind := l.project.declaredKind
      outDir := dir
      cacheDir := l.resolvePath (defaultCacheRoot.join ⟨l.project.declaredKind.name⟩)
      isPrimary := true } := by
  rw [onlyVariant, kind_baseOptions]

/-- The single variant, as it is listed and as it follows from the compiler section. -/
theorem variantOf_onlyEntry :
    (l.spelledOut dir).variantOf (l.project.onlyEntry dir) =
      l.onlyVariant (l.resolvePath dir) := by
  rw [onlyVariant_eq]
  rfl

/-- A variant alone is the primary, and its options are the base's in its own directory. -/
theorem resolve_onlyVariant (mode : OutputMode) (hdir : dir ≠ .empty) :
    ∃ r, Registry.resolve l.baseOptions [l.onlyVariant dir] mode = .ok r ∧
      r.variants = [r.primary] ∧ r.mode = mode ∧ r.primary.variant = l.onlyVariant dir ∧
      r.primary.options =
        { l.baseOptions with outDir := some ((l.onlyVariant dir).effectiveDir mode) } := by
  rw [Registry.resolve, check_onlyVariant hdir]
  exact ⟨_, rfl, rfl, rfl, rfl, rfl⟩

/-- A variant alone is refused for an output directory without a name. -/
theorem check_onlyVariant_empty :
    Registry.check l.baseOptions [l.onlyVariant .empty] =
      .error (.emptyOutDir l.baseOptions.kind) := rfl

/-- **Listing the single variant changes nothing.**  A project that lists no variants and declares
an output directory has the session of the project that lists one primary variant of the declared
kind in that directory: with the same base options and mode, and with the one variant, whose
directories are both seen from the root of the project, whatever the root and the directory are.
The session resolves exactly if the output directory so seen has a name, and then to that variant
alone. -/
theorem ofProject_spelledOut {l : LoadedProject} {dir : Path} (hnone : l.project.variants = [])
    (hdir : l.project.compiler.bind (·.outDir) = some dir) :
    let v : Variant :=
      { kind := l.project.declaredKind
        outDir := l.resolvePath dir
        cacheDir := l.resolvePath (defaultCacheRoot.join ⟨l.project.declaredKind.name⟩)
        isPrimary := true }
    let s : Session :=
      { options := l.baseOptions
        variants := [v]
        mode := .ofCacheFlag l.project.cacheEnabled }
    Session.ofProject l = .ok s ∧ Session.ofProject (l.spelledOut dir) = .ok s ∧
      (v.outDir ≠ .empty →
        ∃ r, s.resolve = .ok r ∧ r.variants = [r.primary] ∧ r.mode = s.mode ∧
          r.primary.variant = v ∧
          r.primary.options = { l.baseOptions with outDir := some (v.effectiveDir s.mode) }) ∧
      (v.outDir = .empty → s.resolve = .error (RegistryFault.emptyOutDir v.kind).toError) := by
  intro v s
  have honly : l.onlyVariant (l.resolvePath dir) = v := l.onlyVariant_eq _
  have himplicit : l.sessionVariants = .ok [v] :=
    sessionVariants_eq_ok_iff.mpr (Or.inr ⟨hnone, dir, hdir, by rw [honly]⟩)
  have hlisted : (l.spelledOut dir).sessionVariants = .ok [v] := by
    refine sessionVariants_eq_ok_iff.mpr (Or.inl ⟨List.cons_ne_nil _ _, ?_⟩)
    rw [← honly, ← variantOf_onlyEntry]
    rfl
  refine ⟨Session.ofProject_eq_ok_iff.mpr ⟨_, himplicit, rfl⟩,
    Session.ofProject_eq_ok_iff.mpr ⟨_, hlisted, rfl⟩, fun hnamed => ?_, fun hempty => ?_⟩
  · obtain ⟨r, hr, halone⟩ := l.resolve_onlyVariant _ s.mode hnamed
    rw [honly] at hr halone
    exact ⟨r, by rw [Session.resolve, hr], halone⟩
  · have hfault : Registry.check s.options s.variants = .error (.emptyOutDir v.kind) := by
      have hout : l.resolvePath dir = .empty := hempty
      rw [hout] at honly
      have hcheck := l.check_onlyVariant_empty
      rwa [honly, kind_baseOptions] at hcheck
    exact Session.resolve_eq_of_check_error hfault

/-- A project below another directory that is built into its cache. -/
def nearby : LoadedProject where
  project :=
    { compiler := some { kind := some .esNext, outDir := some ⟨"build"⟩ }
      emit := some { cache := some true } }
  root := some ⟨"../app/"⟩

/-- The cache directory is found below the root, once, whether or not the variant is listed. -/
theorem ofProject_spelledOut_nearby :
    nearby.project.variants = [] ∧
      nearby.project.compiler.bind (·.outDir) = some ⟨"build"⟩ ∧
      ∃ s r, Session.ofProject nearby = .ok s ∧
        Session.ofProject (nearby.spelledOut ⟨"build"⟩) = .ok s ∧ s.resolve = .ok r ∧
        r.primary.options.outDir = some ⟨"../app/.polyemit/cache/esnext"⟩ := by
  obtain ⟨hs, hs', hresolve, -⟩ := @ofProject_spelledOut nearby ⟨"build"⟩ rfl rfl
  obtain ⟨r, hr, -, -, -, hoptions⟩ := hresolve (by decide)
  refine ⟨rfl, rfl, _, r, hs, hs', hr, ?_⟩
  rw [hoptions]
  decide

end LoadedProject

end Fanout
