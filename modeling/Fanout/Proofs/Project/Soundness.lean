import Fanout.Project.Load
import Fanout.Proofs.Path.Components

/-!
# What a loaded project can be relied on for

`Project.Sound` says of a project that every path it gives has a name and that no two of its
variants have one module kind.

* `validate_eq_ok_iff`: the projects that pass validation are the sound ones of which an emit
  section lists variants.
* `Sound.override`: the environment comes on top of a project after its validation and may give it
  an emit section without variants, but the project stays sound.
* `LoadedProject.exists_declared_of_load`: what is loaded is the project that the start declares,
  which is the empty one where no file is found, with the environment on top.
* `LoadedProject.Loads.sound`: so every project that was loaded is sound.
-/

set_option autoImplicit false

namespace Fanout

theorem givenEmpty_eq_false_iff {p : Option Path} :
    givenEmpty p = false ↔ ∀ dir, p = some dir → dir ≠ .empty := by
  cases p with
  | none => simp [givenEmpty]
  | some dir => simp [givenEmpty, ← Path.isEmpty_iff]

/-- An entry that gives no path without a name. -/
structure VariantEntry.Named (v : VariantEntry) : Prop where
  outDir : v.outDir ≠ .empty
  cacheDir : ∀ dir, v.cacheDir = some dir → dir ≠ .empty

theorem VariantEntry.named_iff {v : VariantEntry} :
    v.Named ↔ v.outDir.isEmpty = false ∧ givenEmpty v.cacheDir = false := by
  rw [givenEmpty_eq_false_iff, ← Bool.not_eq_true, Path.isEmpty_iff]
  exact ⟨fun h => ⟨h.outDir, h.cacheDir⟩, fun h => ⟨h.1, h.2⟩⟩

/-- The search for a fault finds none if every entry is in order and no kind was seen before. -/
theorem VariantEntry.firstFault?_eq_none_iff {place : Nat} {seen : List ModuleKind}
    {entries : List VariantEntry} :
    firstFault? place seen entries = none ↔
      (∀ v ∈ entries, v.Named) ∧ (entries.map (·.kind)).Nodup ∧
        ∀ v ∈ entries, v.kind ∉ seen := by
  induction entries generalizing place seen with
  | nil => simp [firstFault?]
  | cons v rest ih =>
    rw [List.forall_mem_cons, List.forall_mem_cons, List.map_cons, List.nodup_cons, named_iff]
    unfold firstFault?
    cases hout : v.outDir.isEmpty with
    | true => simp
    | false =>
      cases hcache : givenEmpty v.cacheDir with
      | true => simp
      | false =>
        by_cases hseen : v.kind ∈ seen
        · simp [hseen]
        · have hcontains : seen.contains v.kind = false := by simpa using hseen
          simp only [Bool.false_eq_true, if_false, hcontains, ih, List.mem_cons, not_or,
            List.mem_map, not_exists, not_and]
          constructor
          · rintro ⟨hnamed, hkinds, hfresh⟩
            exact ⟨⟨⟨trivial, trivial⟩, hnamed⟩, ⟨fun w hw => (hfresh w hw).1, hkinds⟩, hseen,
              fun w hw => (hfresh w hw).2⟩
          · rintro ⟨⟨-, hnamed⟩, ⟨hne, hkinds⟩, -, hfresh⟩
            exact ⟨hnamed, hkinds, fun w hw => ⟨hne w hw, hfresh w hw⟩⟩

/-- An emit section is in order if it lists variants and has no fault in any field. -/
theorem EmitSection.firstFault?_eq_none_iff {e : EmitSection} :
    e.firstFault? = none ↔
      e.variants ≠ [] ∧ (∀ dir, e.cacheDir = some dir → dir ≠ .empty) ∧
        (∀ v ∈ e.variants, v.Named) ∧ (e.variants.map (·.kind)).Nodup := by
  rw [← givenEmpty_eq_false_iff, ← List.isEmpty_eq_false_iff, firstFault?]
  cases e.variants.isEmpty with
  | true => simp
  | false =>
    cases givenEmpty e.cacheDir with
    | true => simp
    | false => simp [VariantEntry.firstFault?_eq_none_iff]

namespace Project

/-- A project whose paths all have names and whose variants all have kinds of their own. -/
structure Sound (p : Project) : Prop where
  outDir : ∀ dir, p.compiler.bind (·.outDir) = some dir → dir ≠ .empty
  cacheRoot : ∀ dir, p.emit.bind (·.cacheDir) = some dir → dir ≠ .empty
  variants : ∀ v ∈ p.variants, v.Named
  kinds : (p.variants.map (·.kind)).Nodup

theorem firstFault?_eq_none_iff {p : Project} :
    p.firstFault? = none ↔ p.Sound ∧ ∀ e, p.emit = some e → e.variants ≠ [] := by
  unfold firstFault?
  cases hgiven : givenEmpty (p.compiler.bind (·.outDir)) with
  | true =>
    simp only [if_true, reduceCtorEq, false_iff, not_and]
    intro h
    rw [givenEmpty_eq_false_iff.mpr h.outDir] at hgiven
    cases hgiven
  | false =>
    have hout := givenEmpty_eq_false_iff.mp hgiven
    rw [if_neg Bool.false_ne_true]
    cases hemit : p.emit with
    | none =>
      simp only [Option.bind_none, true_iff]
      exact ⟨⟨hout, by simp [hemit], by simp [variants, hemit], by simp [variants, hemit]⟩, nofun⟩
    | some e =>
      have hvariants : p.variants = e.variants := by simp [variants, hemit]
      have hroot : p.emit.bind (·.cacheDir) = e.cacheDir := by rw [hemit, Option.bind_some]
      rw [Option.bind_some, EmitSection.firstFault?_eq_none_iff]
      constructor
      · rintro ⟨hne, hcache, hnamed, hkinds⟩
        refine ⟨⟨hout, hroot ▸ hcache, hvariants ▸ hnamed, hvariants ▸ hkinds⟩, ?_⟩
        rintro _ ⟨⟩
        exact hne
      · rintro ⟨h, hne⟩
        exact ⟨hne e rfl, hroot ▸ h.cacheRoot, hvariants ▸ h.variants, hvariants ▸ h.kinds⟩

theorem validate_eq_ok_iff {p : Project} :
    p.validate = .ok () ↔ p.Sound ∧ ∀ e, p.emit = some e → e.variants ≠ [] := by
  rw [← firstFault?_eq_none_iff, validate]
  cases p.firstFault? <;> simp

end Project

/-! ## The environment -/

namespace Environment

variable (env : Environment) (p : Project)

@[simp] theorem compiler_overrideCache : (env.overrideCache p).compiler = p.compiler := by
  unfold overrideCache
  split <;> rfl

@[simp] theorem emit_overrideOutDir : (env.overrideOutDir p).emit = p.emit := by
  unfold overrideOutDir
  split
  · rfl
  · split <;> rfl

/-- An emit section that the environment adds lists no variants. -/
@[simp] theorem variants_override : (env.override p).variants = p.variants := by
  rw [Project.variants, override, emit_overrideOutDir, overrideCache, Project.variants]
  split
  · rfl
  · cases p.emit <;> rfl

@[simp] theorem cacheDir_override :
    (env.override p).emit.bind (·.cacheDir) = p.emit.bind (·.cacheDir) := by
  rw [override, emit_overrideOutDir, overrideCache]
  split
  · rfl
  · cases p.emit <;> rfl

/-- An output directory stems from the project, or it is a text of the environment that is not
empty. -/
theorem outDir_override {dir : Path} (h : (env.override p).compiler.bind (·.outDir) = some dir) :
    p.compiler.bind (·.outDir) = some dir ∨ dir ≠ .empty := by
  rw [override, overrideOutDir] at h
  split at h
  · exact Or.inl (by simpa using h)
  · rename_i text _
    split at h
    · exact Or.inl (by simpa using h)
    · rename_i hne
      right
      obtain rfl : (⟨text⟩ : Path) = dir := by simpa using h
      rintro ⟨⟩
      exact hne rfl

end Environment

/-- **The environment keeps a project sound.** -/
theorem Project.Sound.override {p : Project} (h : p.Sound) (env : Environment) :
    (env.override p).Sound where
  outDir := fun _ hdir => (env.outDir_override p hdir).elim (h.outDir _) id
  cacheRoot := by simpa using h.cacheRoot
  variants := by simpa using h.variants
  kinds := by simpa using h.kinds

/-! ## Loading -/

/-- A result that is known without its error. -/
theorem eq_ok_of_toOption {ε α : Type} {x : Except ε α} {a : α} (h : x.toOption = some a) :
    x = .ok a := by
  cases x with
  | error e => cases h
  | ok b => exact congrArg Except.ok (Option.some.inj h)

/-- Where loading starts. -/
inductive Start where
  | file (p : Path)
  | directory (p : Path)

namespace LoadedProject

/-- Loads the project of a start; without an environment nothing is overridden. -/
def load (d : Disk) (env : Option Environment) : Start → Except ConfigError LoadedProject
  | .file p => ofFile d env p
  | .directory p => ofDirectory d env p

/-- Loading gives a project, from a file or from the directories around a start. -/
def Loads (d : Disk) (env : Option Environment) (l : LoadedProject) : Prop :=
  (∃ file, ofFile d env file = .ok l) ∨ ∃ start, ofDirectory d env start = .ok l

/-- The project that a file holds. -/
def inFile? (d : Disk) (file : Path) : Option Project :=
  (d.readText file).toOption.bind Project.parse?

/-- The project that a start declares. -/
def declared? (d : Disk) : Start → Option Project
  | .file p => inFile? d p
  | .directory start =>
    (findRoot? d start).elim (some {}) fun root => inFile? d (root.join projectFileName)

variable {d : Disk} {env : Option Environment} {l : LoadedProject}

theorem inFile?_of_readFile {file : Path} {p : Project} (h : Project.readFile d file = .ok p) :
    inFile? d file = some p ∧ p.validate = .ok () := by
  unfold Project.readFile at h
  split at h
  · cases h
  · cases h
  · rename_i text htext
    split at h
    · cases h
    · rename_i q hq
      cases hv : q.validate with
      | error e => rw [hv] at h; cases h
      | ok u =>
        rw [hv] at h
        cases h
        exact ⟨by rw [inFile?, htext]; exact hq, hv⟩

/-- What is loaded is the declared project, which is valid, with the environment on top. -/
theorem exists_declared_of_load {start : Start} (h : load d env start = .ok l) :
    ∃ p, declared? d start = some p ∧ p.validate = .ok () ∧ l.project = withEnvironment env p := by
  cases start with
  | file file =>
    rw [load, ofFile] at h
    cases hread : Project.readFile d file with
    | error e => rw [hread] at h; cases h
    | ok p =>
      rw [hread] at h
      cases h
      obtain ⟨hfile, hvalid⟩ := inFile?_of_readFile hread
      exact ⟨p, hfile, hvalid, rfl⟩
  | directory dir =>
    rw [load] at h
    unfold ofDirectory at h
    cases hroot : findRoot? d dir with
    | none =>
      rw [hroot] at h
      cases h
      exact ⟨{}, by rw [declared?, hroot, Option.elim_none], rfl, rfl⟩
    | some root =>
      rw [hroot] at h
      cases hread : Project.readFile d (root.join projectFileName) with
      | error e => simp [hread, Except.map] at h
      | ok p =>
        simp only [hread, Except.map, Except.ok.injEq] at h
        obtain ⟨hfile, hvalid⟩ := inFile?_of_readFile hread
        refine ⟨p, ?_, hvalid, by rw [← h]⟩
        rw [declared?, hroot, Option.elim_some]
        exact hfile

theorem Loads.sound (h : Loads d env l) : l.project.Sound := by
  obtain ⟨start, hload⟩ : ∃ start, load d env start = .ok l := by
    rcases h with ⟨file, h⟩ | ⟨dir, h⟩
    · exact ⟨.file file, h⟩
    · exact ⟨.directory dir, h⟩
  obtain ⟨p, -, hv, hp⟩ := exists_declared_of_load hload
  have hsound := (Project.validate_eq_ok_iff.mp hv).1
  rw [hp]
  cases env with
  | none => exact hsound
  | some env => exact hsound.override env

end LoadedProject

end Fanout
