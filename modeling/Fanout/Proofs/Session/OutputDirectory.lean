import Fanout.Proofs.Project.Overrides
import Fanout.Proofs.Session.OfProject

/-!
# The output directory of the compiler section

A project that lists variants is written to their directories.  The output directory of the compiler
section, which the environment may replace, is then of no account:

* `load_eq_map`: the environment changes a project after it was loaded, so it has no say in whether
  there is one.
* `SameButOutDir`: two projects that differ in that directory alone, as what one start gives under
  two environments does (`sameButOutDir_under`).
* `Registry.resolve_withOutDir`: every variant forgets the output directory of the base options.

The main result, `outDir_moves_no_variant`, follows two loaded projects to their registries.
-/

set_option autoImplicit false

namespace Fanout

/-! ## Registries -/

/-- A variant replaces the output directory, whatever it was. -/
theorem Variant.patched_withOutDir (v : Variant) (mode : OutputMode) (o : Options)
    (dir? : Option Path) :
    ({ o with outDir := dir? } : Options).patched (v.patch mode) = o.patched (v.patch mode) := by
  unfold patch
  split <;> rfl

/-- The check of the variants looks at nothing of the base options but their kind, and the options
of the variants keep all of it but the output directory. -/
theorem Registry.resolve_withOutDir (base : Options) (dir? : Option Path)
    (variants : List Variant) (mode : OutputMode) :
    resolve { base with outDir := dir? } variants mode = resolve base variants mode := by
  have hcheck : check { base with outDir := dir? } variants = check base variants := rfl
  have hvariant : resolveVariant { base with outDir := dir? } mode = resolveVariant base mode := by
    funext v
    rw [resolveVariant, resolveVariant, v.patched_withOutDir]
  rw [resolve, resolve, hcheck, hvariant]

namespace LoadedProject

variable {env env' : Option Environment} {l l' : LoadedProject}

/-! ## Loading under an environment -/

/-- A loaded project with the environment on top. -/
def under (env : Option Environment) (l : LoadedProject) : LoadedProject :=
  { l with project := withEnvironment env l.project }

/-- The environment comes on top of what is loaded without it. -/
theorem load_eq_map (d : Disk) (env : Option Environment) (start : Start) :
    load d env start = (load d none start).map (under env) := by
  cases start with
  | file file =>
    rw [load, load, ofFile, ofFile]
    cases Project.readFile d file <;> rfl
  | directory dir =>
    rw [load, load]
    unfold ofDirectory
    cases findRoot? d dir with
    | none => rfl
    | some root =>
      dsimp only
      cases Project.readFile d (root.join projectFileName) <;> rfl

/-- Two projects with one root that declare the same, but for the output directory of the compiler
section; a compiler section may be there for that alone. -/
structure SameButOutDir (l l' : LoadedProject) : Prop where
  root_eq : l'.root = l.root
  emit_eq : l'.project.emit = l.project.emit
  compiler_eq : ∃ dir?,
    l'.project.compiler.getD {} = { l.project.compiler.getD {} with outDir := dir? }

theorem exists_outDir_of_kept {s s' : CompilerSection}
    (h : { s' with outDir := none } = { s with outDir := none }) :
    ∃ dir?, s' = { s with outDir := dir? } := by
  refine ⟨s'.outDir, ?_⟩
  cases s
  cases s'
  simpa using h

/-- With one value of the cache switch, environments differ in the output directory alone. -/
theorem sameButOutDir_under (h : (env'.getD {}).cache = (env.getD {}).cache) (l : LoadedProject) :
    SameButOutDir (l.under env) (l.under env') where
  root_eq := rfl
  emit_eq := by
    have hswitch : (env'.getD {}).cacheSwitch = (env.getD {}).cacheSwitch := by
      rw [Environment.cacheSwitch, Environment.cacheSwitch, h]
    simp only [under, withEnvironment_eq, Environment.emit_override, Environment.overrideCache_eq,
      hswitch]
  compiler_eq := by
    refine exists_outDir_of_kept ?_
    simp only [under, withEnvironment_eq]
    rw [((env'.getD {}).sets_override l.project).compiler_kept,
      ((env.getD {}).sets_override l.project).compiler_kept]

/-! ## Sessions -/

theorem baseOptions_eq (l : LoadedProject) :
    l.baseOptions =
      let o := Options.ofSection (l.project.compiler.getD {})
      { o with
        outDir := o.outDir.map l.resolvePath
        rootDir := o.rootDir.map l.resolvePath
        buildInfoFile := o.buildInfoFile.map l.resolvePath } := by
  unfold baseOptions
  cases l.project.compiler <;> rfl

namespace SameButOutDir

theorem resolvePath_eq (h : SameButOutDir l l') : l'.resolvePath = l.resolvePath := by
  funext p
  rw [resolvePath, resolvePath, h.root_eq]

theorem baseOptions_eq (h : SameButOutDir l l') :
    ∃ dir?, l'.baseOptions = { l.baseOptions with outDir := dir? } := by
  obtain ⟨dir?, hcompiler⟩ := h.compiler_eq
  rw [LoadedProject.baseOptions_eq, LoadedProject.baseOptions_eq, hcompiler, h.resolvePath_eq]
  exact ⟨_, rfl⟩

theorem variants_eq (h : SameButOutDir l l') : l'.project.variants = l.project.variants := by
  rw [Project.variants, Project.variants, h.emit_eq]

theorem cacheEnabled_eq (h : SameButOutDir l l') :
    l'.project.cacheEnabled = l.project.cacheEnabled := by
  rw [Project.cacheEnabled, Project.cacheEnabled, h.emit_eq]

theorem variantOf_eq (h : SameButOutDir l l') : l'.variantOf = l.variantOf := by
  funext entry
  have hcache : l'.project.cacheDirOf entry = l.project.cacheDirOf entry := by
    rw [Project.cacheDirOf, Project.cacheDirOf, Project.cacheRoot, Project.cacheRoot, h.emit_eq]
  rw [variantOf, variantOf, h.resolvePath_eq, hcache]

end SameButOutDir

/-- Two projects both have a session, and the sessions build the same: in one mode, with one
registry, or with one error in the place of it. -/
structure BuildsAlike (l l' : LoadedProject) (s s' : Session) : Prop where
  session : Session.ofProject l = .ok s
  session' : Session.ofProject l' = .ok s'
  mode_eq : s'.mode = s.mode
  variants_eq : s'.variants = s.variants
  resolve_eq : s'.resolve = s.resolve

/-- Listed variants do not depend on the output directory of the compiler section. -/
theorem SameButOutDir.exists_buildsAlike (h : SameButOutDir l l')
    (hlisted : l.project.variants ≠ []) : ∃ s s', BuildsAlike l l' s s' := by
  have hsession : l.sessionVariants = .ok (l.project.variants.map l.variantOf) :=
    sessionVariants_eq_ok_iff.mpr (Or.inl ⟨hlisted, rfl⟩)
  have hsession' : l'.sessionVariants = .ok (l.project.variants.map l.variantOf) := by
    rw [← h.variants_eq] at hlisted
    rw [sessionVariants_eq_ok_iff.mpr (Or.inl ⟨hlisted, rfl⟩), h.variants_eq, h.variantOf_eq]
  refine ⟨_, _, Session.ofProject_eq_ok_iff.mpr ⟨_, hsession, rfl⟩,
    Session.ofProject_eq_ok_iff.mpr ⟨_, hsession', rfl⟩, ?_, rfl, ?_⟩
  · dsimp only
    rw [h.cacheEnabled_eq]
  · obtain ⟨dir?, hbase⟩ := h.baseOptions_eq
    simp only [Session.resolve, h.cacheEnabled_eq, hbase, Registry.resolve_withOutDir]

/-- **The output directory of the compiler section moves no listed variant.**  Take two environments
that give the cache switch one value, the output variable being whatever it likes: loading goes well
under both or under neither, and then with the same error; and what is loaded differs in that
directory alone.  Projects that differ so and list a variant both have a session, with one mode, the
same variants, and one registry or one error. -/
theorem outDir_moves_no_variant :
    (∀ (d : Disk) (start : Start) (env env' : Option Environment),
      (env'.getD {}).cache = (env.getD {}).cache →
        ((∃ l, load d env start = .ok l) ↔ ∃ l', load d env' start = .ok l') ∧
        (∀ e, load d env start = .error e ↔ load d env' start = .error e) ∧
        ∀ l l', load d env start = .ok l → load d env' start = .ok l' →
          SameButOutDir l l' ∧
            (l.project.variants ≠ [] → ∃ s s', BuildsAlike l l' s s')) ∧
      ∀ l l', SameButOutDir l l' → l.project.variants ≠ [] → ∃ s s', BuildsAlike l l' s s' := by
  refine ⟨fun d start env env' h => ?_, fun l l' h => h.exists_buildsAlike⟩
  rw [load_eq_map d env, load_eq_map d env']
  cases load d none start with
  | error e => simp [Except.map]
  | ok loaded =>
    refine ⟨⟨fun _ => ⟨_, rfl⟩, fun _ => ⟨_, rfl⟩⟩, fun e => ⟨nofun, nofun⟩, ?_⟩
    rintro _ _ ⟨⟩ ⟨⟩
    have hsame : SameButOutDir (loaded.under env) (loaded.under env') :=
      sameButOutDir_under h loaded
    exact ⟨hsame, hsame.exists_buildsAlike⟩

/-- What is loaded from `Session.projectDisk` without an environment. -/
def twoFlavoursDeclared : LoadedProject where
  project :=
    { compiler := some { outDir := some ⟨"dist"⟩ }
      emit := some { variants := Session.twoFlavoursCached.project.variants } }
  root := some .empty

theorem load_twoFlavours :
    load Session.projectDisk none (.directory ⟨"src"⟩) = .ok twoFlavoursDeclared :=
  eq_ok_of_toOption (by decide +kernel)

/-- The first environment has a value that is no text and is not heeded, the second one moves the
output.  The base options do differ, and what is built does not. -/
theorem outDir_moves_no_variant_twoFlavours :
    let env : Environment := { outDir := some ⟨#[0xff]⟩ }
    let env' : Environment := { outDir := some "out".toUTF8 }
    let l := twoFlavoursDeclared
    let l' : LoadedProject :=
      { l with project := { l.project with compiler := some { outDir := some ⟨"out"⟩ } } }
    env'.cache = env.cache ∧
      load Session.projectDisk (some env) (.directory ⟨"src"⟩) = .ok l ∧
      load Session.projectDisk (some env') (.directory ⟨"src"⟩) = .ok l' ∧
      l.project.variants ≠ [] ∧
      l.baseOptions.outDir = some ⟨"dist"⟩ ∧ l'.baseOptions.outDir = some ⟨"out"⟩ ∧
      ∃ s s', BuildsAlike l l' s s' := by
  intro env env' l l'
  have hl : load Session.projectDisk (some env) (.directory ⟨"src"⟩) = .ok l := by
    rw [load_eq_map, load_twoFlavours]
    exact congrArg Except.ok (by decide +kernel)
  have hl' : load Session.projectDisk (some env') (.directory ⟨"src"⟩) = .ok l' := by
    rw [load_eq_map, load_twoFlavours]
    exact congrArg Except.ok (by decide +kernel)
  have hlisted : l.project.variants ≠ [] := List.cons_ne_nil _ _
  have hmoved := outDir_moves_no_variant.1 Session.projectDisk (.directory ⟨"src"⟩) (some env)
    (some env') rfl
  exact ⟨rfl, hl, hl', hlisted, by decide, by decide, (hmoved.2.2 l l' hl hl').2 hlisted⟩

end LoadedProject

end Fanout
