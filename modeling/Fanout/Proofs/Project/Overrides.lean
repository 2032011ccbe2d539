import Fanout.Proofs.Project.Soundness

/-!
# What the environment makes of a project file

A project is validated when its file is read, and the environment comes on top of it afterwards.

* `Environment.Sets` says which parts of a project the environment replaces and which it leaves
  alone.  Only the cache switch and the output directory are ever replaced, though a section that
  has to hold one of them is added where the file has none.
* `Project.validate_override` says when a valid project stays valid under an environment.

The main result is `load_sets_and_validates`: this is what loading makes of the declared project,
and the result passes validation again, unless the cache switch has brought in an emit section.
-/

set_option autoImplicit false

namespace Fanout

namespace Environment

/-- The value of the cache switch, if it is set to a text. -/
def cacheSwitch (env : Environment) : Option Bool := (textOf env.cache).map isYes

/-- The output directory, if it is set to a text that is not empty. -/
def outputDir (env : Environment) : Option Path :=
  ((textOf env.outDir).filter (!·.isEmpty)).map Path.mk

/-- What becomes of a project under an environment. -/
structure Sets (env : Environment) (p q : Project) : Prop where
  cache_eq : q.emit.bind (·.cache) = env.cacheSwitch.or (p.emit.bind (·.cache))
  outDir_eq : q.compiler.bind (·.outDir) = env.outputDir.or (p.compiler.bind (·.outDir))
  /-- All else in the emit section is kept. -/
  emit_kept : { q.emit.getD {} with cache := none } = { p.emit.getD {} with cache := none }
  /-- All else in the compiler section is kept. -/
  compiler_kept :
    { q.compiler.getD {} with outDir := none } = { p.compiler.getD {} with outDir := none }
  emit_isSome : q.emit.isSome = (p.emit.isSome || env.cacheSwitch.isSome)
  compiler_isSome : q.compiler.isSome = (p.compiler.isSome || env.outputDir.isSome)

variable (env : Environment) (p : Project)

theorem overrideCache_eq :
    env.overrideCache p =
      match env.cacheSwitch with
      | none => p
      | some b => { p with emit := some { p.emit.getD {} with cache := some b } } := by
  unfold overrideCache cacheSwitch
  cases textOf env.cache <;> rfl

theorem overrideOutDir_eq :
    env.overrideOutDir p =
      match env.outputDir with
      | none => p
      | some dir =>
        { p with compiler := some { p.compiler.getD {} with outDir := some dir } } := by
  unfold overrideOutDir outputDir
  cases textOf env.outDir with
  | none => rfl
  | some text => cases h : text.isEmpty <;> simp [Option.filter, h]

theorem emit_override : (env.override p).emit = (env.overrideCache p).emit :=
  emit_overrideOutDir env _

/-- The two overrides leave each other's section alone. -/
theorem compiler_override :
    (env.override p).compiler = (env.overrideOutDir p).compiler := by
  rw [override, overrideOutDir_eq, overrideOutDir_eq]
  cases env.outputDir <;> simp

theorem sets_override : env.Sets p (env.override p) := by
  constructor
  · rw [emit_override, overrideCache_eq]
    cases env.cacheSwitch <;> rfl
  · rw [compiler_override, overrideOutDir_eq]
    cases env.outputDir <;> rfl
  · rw [emit_override, overrideCache_eq]
    cases env.cacheSwitch <;> rfl
  · rw [compiler_override, overrideOutDir_eq]
    cases env.outputDir <;> rfl
  · rw [emit_override, overrideCache_eq]
    cases env.cacheSwitch <;> simp
  · rw [compiler_override, overrideOutDir_eq]
    cases env.outputDir <;> simp

end Environment

/-! ## Validation -/

namespace Project

variable {p : Project}

/-- A sound project with an emit section that lists nothing is refused for that. -/
theorem Sound.validate_of_noVariants (h : p.Sound) {e : EmitSection} (he : p.emit = some e)
    (hnone : e.variants = []) : p.validate = .error ProjectFault.noVariants.toError := by
  have hout : givenEmpty (p.compiler.bind (·.outDir)) = false :=
    givenEmpty_eq_false_iff.mpr h.outDir
  have hfault : e.firstFault? = some .noVariants := by
    rw [EmitSection.firstFault?, hnone]
    rfl
  rw [validate, firstFault?, hout, he, Option.bind_some, hfault]
  rfl

/-- **When a valid project stays valid under an environment.** -/
theorem validate_override (h : p.validate = .ok ()) (env : Environment) :
    (env.override p).validate =
      if env.cacheSwitch.isSome ∧ p.emit = none then .error ProjectFault.noVariants.toError
      else .ok () := by
  obtain ⟨hsound, hlisted⟩ := validate_eq_ok_iff.mp h
  have hsound' := hsound.override env
  have hsets := env.sets_override p
  split
  · rename_i hadded
    obtain ⟨hswitch, hemit⟩ := hadded
    -- the section is there for the switch alone
    obtain ⟨e, he⟩ : ∃ e, (env.override p).emit = some e := by
      rw [← Option.isSome_iff_exists, hsets.emit_isSome, hswitch, Bool.or_true]
    refine hsound'.validate_of_noVariants he ?_
    have hkept := congrArg EmitSection.variants hsets.emit_kept
    simpa [he, hemit] using hkept
  · rename_i hadded
    refine validate_eq_ok_iff.mpr ⟨hsound', ?_⟩
    intro e he
    cases hemit : p.emit with
    | none =>
      have hsome := hsets.emit_isSome
      rw [he, hemit] at hsome
      exact absurd ⟨hsome.symm, hemit⟩ hadded
    | some e₀ =>
      have hkept := congrArg EmitSection.variants hsets.emit_kept
      have hsame : e.variants = e₀.variants := by simpa [he, hemit] using hkept
      rw [hsame]
      exact hlisted e₀ hemit

end Project

/-! ## Loading -/

namespace LoadedProject

variable {d : Disk} {env : Option Environment} {l : LoadedProject}

/-- Not heeding the environment is heeding one that sets nothing. -/
theorem withEnvironment_eq (env : Option Environment) (p : Project) :
    withEnvironment env p = (env.getD {}).override p := by
  cases env <;> rfl

/-- **What the environment does to a project, and whether the result is valid.**  A loaded project
is the one that the file declares, or the empty one where there is no file, but for the cache switch
and the output directory.  It passes validation, except that the cache switch may have added an emit
section: then it is refused for listing no variants. -/
theorem load_sets_and_validates {start : Start} (h : load d env start = .ok l) :
    ∃ p, declared? d start = some p ∧ (env.getD {}).Sets p l.project ∧
      (env = none → l.project = p) ∧
      l.project.validate =
        if (env.getD {}).cacheSwitch.isSome ∧ p.emit = none then
          .error (.invalid "[emit] must list at least one variant")
        else .ok () := by
  obtain ⟨p, hdeclared, hvalid, hproject⟩ := exists_declared_of_load h
  refine ⟨p, hdeclared, ?_, ?_, ?_⟩
  · rw [hproject, withEnvironment_eq]
    exact (env.getD {}).sets_override p
  · rintro rfl
    exact hproject
  · rw [hproject, withEnvironment_eq]
    exact Project.validate_override hvalid (env.getD {})

/-- A disk with a project file that has a compiler section only. -/
def compilerDisk : Disk :=
  (Disk.bare []).put [projectFileName.chars] (.file "[compiler]\nout_dir = \"dist\"\n".toUTF8)

/-- An environment that turns the cache on and moves the output. -/
def cacheAndMove : Environment := { cache := some "YES".toUTF8, outDir := some "out".toUTF8 }

/-- What is loaded from there under it. -/
def movedAndCached : LoadedProject where
  project :=
    { compiler := some { outDir := some ⟨"out"⟩ }, emit := some { cache := some true } }
  root := some .empty

theorem load_compilerDisk :
    load compilerDisk (some cacheAndMove) (.directory ⟨"src"⟩) = .ok movedAndCached :=
  eq_ok_of_toOption (by decide +kernel)

/-- The file is valid, but with the cache switch on top it is not. -/
theorem load_sets_and_validates_cached :
    load compilerDisk (some cacheAndMove) (.directory ⟨"src"⟩) = .ok movedAndCached ∧
      movedAndCached.project.validate =
        .error (.invalid "[emit] must list at least one variant") ∧
      ∃ p, declared? compilerDisk (.directory ⟨"src"⟩) = some p ∧
        cacheAndMove.Sets p movedAndCached.project ∧ p.emit = none := by
  obtain ⟨p, hdeclared, hsets, -, hvalidate⟩ := load_sets_and_validates load_compilerDisk
  have hfault : movedAndCached.project.validate =
      .error (.invalid "[emit] must list at least one variant") := rfl
  have hnone : p.emit = none := by
    by_contra hsome
    rw [hfault, if_neg (fun h => hsome h.2)] at hvalidate
    cases hvalidate
  exact ⟨load_compilerDisk, hfault, p, hdeclared, hsets, hnone⟩

end LoadedProject

end Fanout
