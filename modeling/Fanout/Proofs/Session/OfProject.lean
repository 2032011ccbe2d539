import Fanout.Proofs.Project.Soundness
import Fanout.Proofs.Variant.Acceptance
import Fanout.Session.Basic

/-!
# Sessions of loaded projects

Two checks stand between a project file and a registry: the validation of the project when it is
read, and the check of the variants when a session resolves them.  In between, paths are seen from
the root of the project, cache directories are filled in, and the environment comes on top.

* `sessionVariants_eq_ok_iff`: which variants a session of a project has, if it has any.
* `check_listed` and `check_onlyVariant`: of all that the second check asks for, the first one
  leaves open only which variants are primary.

The main result, `ofProject_resolves_iff`, says which loaded projects have a session, which of those
sessions resolve, and for which fault any other session is refused.
-/

set_option autoImplicit false

namespace Fanout

/-- The module kind that the compiler section declares. -/
def Project.declaredKind (p : Project) : ModuleKind := (p.compiler.bind (·.kind)).getD .commonJs

theorem ModuleKind.name_ne_empty (k : ModuleKind) : (⟨k.name⟩ : Path) ≠ .empty := by
  cases k <;> decide

/-- A cache directory has a name: its own, or at least that of the module kind. -/
theorem Project.cacheDirOf_ne_empty (p : Project) {v : VariantEntry} (hv : v.Named) :
    p.cacheDirOf v ≠ .empty := by
  unfold cacheDirOf
  split
  · rename_i dir hdir
    exact hv.cacheDir dir hdir
  · exact Path.join_ne_empty _ v.kind.name_ne_empty

namespace LoadedProject

variable {l : LoadedProject}

theorem resolvePath_ne_empty (l : LoadedProject) {p : Path} (hp : p ≠ .empty) :
    l.resolvePath p ≠ .empty := by
  unfold resolvePath
  split
  · split
    · exact hp
    · exact Path.join_ne_empty _ hp
  · exact hp

theorem kind_baseOptions (l : LoadedProject) : l.baseOptions.kind = l.project.declaredKind := by
  unfold baseOptions Project.declaredKind
  cases l.project.compiler <;> rfl

theorem outDir_baseOptions (l : LoadedProject) :
    l.baseOptions.outDir = (l.project.compiler.bind (·.outDir)).map l.resolvePath := by
  unfold baseOptions
  cases l.project.compiler with
  | none => rfl
  | some s => cases hout : s.outDir <;> simp [Options.ofSection, Options.merge, hout]

/-- The variants of a session: those listed, or where none is listed a single one in the output
directory, which then has to be declared. -/
theorem sessionVariants_eq_ok_iff {variants : List Variant} :
    l.sessionVariants = .ok variants ↔
      l.project.variants ≠ [] ∧ variants = l.project.variants.map l.variantOf ∨
        l.project.variants = [] ∧ ∃ dir, l.project.compiler.bind (·.outDir) = some dir ∧
          variants = [l.onlyVariant (l.resolvePath dir)] := by
  unfold sessionVariants
  rw [outDir_baseOptions]
  cases l.project.variants with
  | nil =>
    cases l.project.compiler.bind (·.outDir) with
    | none => simp
    | some dir => simp [eq_comm]
  | cons v rest => simp [eq_comm]

/-! ## What the check of the variants leaves open -/

theorem variantOf_hasDirs (hs : l.project.Sound) {v : VariantEntry} (hv : v ∈ l.project.variants) :
    (l.variantOf v).HasDirs :=
  ⟨l.resolvePath_ne_empty (hs.variants v hv).outDir,
    l.resolvePath_ne_empty (l.project.cacheDirOf_ne_empty (hs.variants v hv))⟩

/-- **The primary variants alone decide about listed variants** of a sound project. -/
theorem check_listed (hs : l.project.Sound) (hne : l.project.variants ≠ []) :
    Registry.check l.baseOptions (l.project.variants.map l.variantOf) =
      match l.project.variants.filter (·.isPrimary) with
      | [] => .error .noPrimary
      | [v] =>
        if v.kind = l.project.declaredKind then .ok (l.variantOf v)
        else .error (.otherKind v.kind l.project.declaredKind)
      | many => .error (.manyPrimaries many.length) := by
  have hlisted : l.project.variants.map l.variantOf ≠ [] := by simpa using hne
  have hdirs : ∀ v ∈ l.project.variants.map l.variantOf, v.HasDirs := by
    intro v hv
    obtain ⟨entry, hentry, rfl⟩ := List.mem_map.mp hv
    exact variantOf_hasDirs hs hentry
  have hkinds : ((l.project.variants.map l.variantOf).map (·.kind)).Nodup := by
    rw [List.map_map]
    exact hs.kinds
  have hfilter : (l.project.variants.map l.variantOf).filter (·.isPrimary) =
      (l.project.variants.filter (·.isPrimary)).map l.variantOf := List.filter_map
  rw [Registry.check_of_kinds_nodup hlisted hdirs hkinds, hfilter, kind_baseOptions]
  generalize l.project.variants.filter (·.isPrimary) = primaries
  match primaries with
  | [] => rfl
  | [v] => rfl
  | v :: w :: rest => simp

/-- A single variant that follows from the compiler section is accepted. -/
theorem check_onlyVariant {dir : Path} (hdir : dir ≠ .empty) :
    Registry.check l.baseOptions [l.onlyVariant dir] = .ok (l.onlyVariant dir) := by
  have hcache : (l.onlyVariant dir).cacheDir ≠ .empty :=
    l.resolvePath_ne_empty (Path.join_ne_empty _ l.baseOptions.kind.name_ne_empty)
  have hdirs : ∀ v ∈ [l.onlyVariant dir], v.HasDirs :=
    List.forall_mem_singleton.mpr ⟨hdir, hcache⟩
  have hkinds : ([l.onlyVariant dir].map (·.kind)).Nodup := List.nodup_singleton _
  rw [Registry.check_of_onePrimary hdirs hkinds rfl (List.mem_singleton_self _) rfl]
  exact if_pos rfl

end LoadedProject

/-! ## Sessions -/

namespace Session

theorem ofProject_eq_ok_iff {l : LoadedProject} {s : Session} :
    ofProject l = .ok s ↔ ∃ variants, l.sessionVariants = .ok variants ∧
      s = { options := l.baseOptions, variants, mode := .ofCacheFlag l.project.cacheEnabled } := by
  unfold ofProject
  cases l.sessionVariants with
  | error e => simp [Except.map]
  | ok variants => simp [Except.map, eq_comm]

theorem resolve_eq_of_check {s : Session} {primary : Variant}
    (h : Registry.check s.options s.variants = .ok primary) : ∃ r, s.resolve = .ok r := by
  rw [resolve, Registry.resolve, h]
  exact ⟨_, rfl⟩

theorem resolve_eq_of_check_error {s : Session} {fault : RegistryFault}
    (h : Registry.check s.options s.variants = .error fault) :
    s.resolve = .error fault.toError := by
  rw [resolve, Registry.resolve, h]
  rfl

theorem ofProject_ok_iff {l : LoadedProject} :
    (∃ s, ofProject l = .ok s) ↔
      l.project.variants ≠ [] ∨ ∃ dir, l.project.compiler.bind (·.outDir) = some dir := by
  constructor
  · rintro ⟨s, hs⟩
    obtain ⟨variants, hvariants, -⟩ := ofProject_eq_ok_iff.mp hs
    rcases LoadedProject.sessionVariants_eq_ok_iff.mp hvariants with ⟨hne, -⟩ | ⟨-, dir, hdir, -⟩
    · exact Or.inl hne
    · exact Or.inr ⟨dir, hdir⟩
  · intro hout
    obtain ⟨variants, hvariants⟩ : ∃ variants, l.sessionVariants = .ok variants := by
      by_cases hnone : l.project.variants = []
      · obtain ⟨dir, hdir⟩ := hout.resolve_left fun hne => hne hnone
        exact ⟨_, LoadedProject.sessionVariants_eq_ok_iff.mpr (Or.inr ⟨hnone, dir, hdir, rfl⟩)⟩
      · exact ⟨_, LoadedProject.sessionVariants_eq_ok_iff.mpr (Or.inl ⟨hnone, rfl⟩)⟩
    exact ⟨_, ofProject_eq_ok_iff.mpr ⟨variants, hvariants, rfl⟩⟩

/-- **Which loaded projects build.**  A project has a session exactly if it lists variants or
declares an output directory.  That session resolves exactly if no variant is listed, or one variant
alone is primary and is of the kind that the compiler section declares.  A session that does not
resolve is refused for that, so never for a list without variants, a path without a name or a
repeated kind. -/
theorem ofProject_resolves_iff {d : Disk} {env : Option Environment} {l : LoadedProject}
    (h : LoadedProject.Loads d env l) :
    ((∃ s, ofProject l = .ok s) ↔
        l.project.variants ≠ [] ∨ ∃ dir, l.project.compiler.bind (·.outDir) = some dir) ∧
      ∀ s, ofProject l = .ok s →
        ((∃ r, s.resolve = .ok r) ↔
          l.project.variants = [] ∨
            ∃ v, l.project.variants.filter (·.isPrimary) = [v] ∧
              v.kind = l.project.declaredKind) ∧
        ∀ e, s.resolve = .error e →
          l.project.variants.countP (·.isPrimary) = 0 ∧ e = RegistryFault.noPrimary.toError ∨
          2 ≤ l.project.variants.countP (·.isPrimary) ∧
            e = (RegistryFault.manyPrimaries
              (l.project.variants.countP (·.isPrimary))).toError ∨
          ∃ v, l.project.variants.filter (·.isPrimary) = [v] ∧
            v.kind ≠ l.project.declaredKind ∧
            e = (RegistryFault.otherKind v.kind l.project.declaredKind).toError := by
  have hsound := h.sound
  refine ⟨ofProject_ok_iff, fun s hs => ?_⟩
  obtain ⟨variants, hvariants, hs⟩ := ofProject_eq_ok_iff.mp hs
  have hoptions : s.options = l.baseOptions := by rw [hs]
  have hsession : s.variants = variants := by rw [hs]
  rcases LoadedProject.sessionVariants_eq_ok_iff.mp hvariants with
    ⟨hne, rfl⟩ | ⟨hnone, dir, hdir, rfl⟩
  · have hcheck := LoadedProject.check_listed hsound hne
    rw [← hoptions, ← hsession] at hcheck
    simp only [List.countP_eq_length_filter]
    generalize l.project.variants.filter (·.isPrimary) = primaries at hcheck ⊢
    match primaries, hcheck with
    | [], hcheck => simp [resolve_eq_of_check_error hcheck, hne]
    | [v], hcheck =>
      by_cases hk : v.kind = l.project.declaredKind
      · obtain ⟨r, hr⟩ := resolve_eq_of_check (hcheck.trans (if_pos hk))
        simp [hr, hk]
      · simp [resolve_eq_of_check_error (hcheck.trans (if_neg hk)), hne, hk]
    | v :: w :: rest, hcheck => simp [resolve_eq_of_check_error hcheck, hne]
  · have hcheck := LoadedProject.check_onlyVariant (l := l)
      (l.resolvePath_ne_empty (hsound.outDir dir hdir))
    rw [← hoptions, ← hsession] at hcheck
    obtain ⟨r, hr⟩ := resolve_eq_of_check hcheck
    simp [hr, hnone]

/-- A project file with two variants, of which the first is primary. -/
def twoFlavours : String :=
  "[compiler]\nout_dir = \"dist\"\n" ++
  "[[emit.variants]]\nmodule = \"commonjs\"\nout_dir = \"cjs\"\nprimary = true\n" ++
  "[[emit.variants]]\nmodule = \"esnext\"\nout_dir = \"esm\"\n"

/-- A disk with that file in the current directory. -/
def projectDisk : Disk := (Disk.bare []).put [projectFileName.chars] (.file twoFlavours.toUTF8)

/-- What is loaded from there when the environment turns the cache on. -/
def twoFlavoursCached : LoadedProject where
  project :=
    { compiler := some { outDir := some ⟨"dist"⟩ }
      emit := some { cache := some true, variants :=
        [⟨.commonJs, ⟨"cjs"⟩, none, true⟩, ⟨.esNext, ⟨"esm"⟩, none, false⟩] } }
  root := some .empty

theorem loads_twoFlavours :
    LoadedProject.Loads projectDisk (some { cache := some "yes".toUTF8 }) twoFlavoursCached := by
  refine Or.inr ⟨⟨"src"⟩, ?_⟩
  exact eq_ok_of_toOption (by decide +kernel)

/-- The file is found from a directory that does not exist, and the session of the project
resolves. -/
theorem ofProject_resolves_twoFlavours :
    LoadedProject.Loads projectDisk (some { cache := some "yes".toUTF8 }) twoFlavoursCached ∧
      ∃ s r, ofProject twoFlavoursCached = .ok s ∧ s.resolve = .ok r := by
  obtain ⟨hsession, hresolve⟩ := ofProject_resolves_iff loads_twoFlavours
  obtain ⟨s, hs⟩ := hsession.mpr (Or.inl (List.cons_ne_nil _ _))
  obtain ⟨r, hr⟩ := (hresolve s hs).1.mpr (Or.inr ⟨⟨.commonJs, ⟨"cjs"⟩, none, true⟩, rfl, rfl⟩)
  exact ⟨loads_twoFlavours, s, r, hs, hr⟩

end Session

end Fanout
