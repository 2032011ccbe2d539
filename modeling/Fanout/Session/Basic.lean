import Fanout.Disk.Host
import Fanout.Install.Multiplexer
import Fanout.Project.Load
import Fanout.Session.Report

/-!
# Emit sessions

A session runs a compiler's emit sequence once for all variants of a project.

* `Session.ofProject` makes a session from a loaded project, every relative path being seen from the
  project's root.  A project that lists no variants gets a single primary one, in the output
  directory of its compiler section.
* `Session.run` resolves the variants before anything else, then runs the sequence with a fan-out
  installed and a disk host under the options of the primary variant: declarations and the
  incremental state exist once and belong with the primary's files.  The compiler has its entry
  point back whether or not the sequence succeeds.
-/

set_option autoImplicit false

namespace Fanout

/-- One emit phase over all variants. -/
structure Session where
  /-- The base options. -/
  options : Options
  /-- The variants in emit order. -/
  variants : List Variant
  mode : OutputMode := .final
  custom : Option CustomPasses := none
  /-- A sink of the caller's for the changed units. -/
  sink : Option Sink := none
  deriving DecidableEq, Repr, Inhabited

/-- A project that declares no output. -/
def noOutputDeclared : BuildError :=
  .configuration "no [[emit.variants]] and no compiler.out_dir configured"

namespace LoadedProject

def baseOptions (l : LoadedProject) : Options :=
  let o := (l.project.compiler.map Options.ofSection).getD {}
  { o with
    outDir := o.outDir.map l.resolvePath
    rootDir := o.rootDir.map l.resolvePath
    buildInfoFile := o.buildInfoFile.map l.resolvePath }

/-- The variant that an entry of the project asks for. -/
def variantOf (l : LoadedProject) (entry : VariantEntry) : Variant where
  kind := entry.kind
  outDir := l.resolvePath entry.outDir
  cacheDir := l.resolvePath (l.project.cacheDirOf entry)
  isPrimary := entry.isPrimary

/-- The single variant of a project that lists none. -/
def onlyVariant (l : LoadedProject) (outDir : Path) : Variant where
  kind := l.baseOptions.kind
  outDir
  cacheDir := l.resolvePath (defaultCacheRoot.join ⟨l.baseOptions.kind.name⟩)
  isPrimary := true

def sessionVariants (l : LoadedProject) : Except BuildError (List Variant) :=
  if l.project.variants.isEmpty then
    match l.baseOptions.outDir with
    | none => .error noOutputDeclared
    | some dir => .ok [l.onlyVariant dir]
  else .ok (l.project.variants.map l.variantOf)

end LoadedProject

namespace Session

/-- The session that a project describes. -/
def ofProject (l : LoadedProject) : Except BuildError Session :=
  l.sessionVariants.map fun variants =>
    { options := l.baseOptions
      variants
      mode := .ofCacheFlag l.project.cacheEnabled }

def resolve (s : Session) : Except BuildError Registry :=
  match Registry.resolve s.options s.variants s.mode with
  | .ok registry => .ok registry
  | .error fault => .error fault.toError

theorem resolve_eq_ok_iff {s : Session} {registry : Registry} :
    s.resolve = .ok registry ↔
      Registry.resolve s.options s.variants s.mode = .ok registry := by
  unfold resolve
  cases Registry.resolve s.options s.variants s.mode <;> simp

/-- The sink that a run records in: the caller's, or a new one. -/
def sinkFor (s : Session) (sinks : Sinks) : Sink × Sinks :=
  match s.sink with
  | some sink => (sink, sinks)
  | none => sinks.fresh

/-- The report of a run that went well. -/
def report {τ : Type} (s : Session) (registry : Registry) (sink : Sink) (elapsed : Elapsed)
    (result : EmitResult) (w : World (OnDisk τ)) : Report where
  result
  changedFiles := (w.sinks.get sink).units
  writtenFiles := w.state.written
  variants := registry.variants.map Summary.ofVariant
  mode := s.mode
  elapsed

/-- Runs the emit sequence of a compiler; the fan-out gets the given address, and the report the
given time. -/
def run {ρ τ : Type} (s : Session) (c : Compiler ρ (OnDisk τ))
    (sequence : EmitSequence ρ (OnDisk τ)) (address : Nat) (elapsed : Elapsed)
    (w : World (OnDisk τ)) :
    Except BuildError Report × Compiler ρ (OnDisk τ) × World (OnDisk τ) :=
  match s.resolve with
  | .error e => (.error e, c, w)
  | .ok registry =>
    let (sink, sinks) := s.sinkFor w.sinks
    -- calls that go through unchanged are made under the options of the primary
    let host := DiskHost.withOptions registry.primary.options
    let start : World (OnDisk τ) := { sinks, state := { w.state with written := [] } }
    match Multiplexer.uninstalled.during c registry (some sink) address
        (fun c w => sequence c host s.custom w) start with
    | (.error e, _, c, w) => (.error e, c, w)
    | (.ok result, _, c, w) => (.ok (s.report registry sink elapsed result w), c, w)

end Session

end Fanout
