import Fanout.Project.Config

/-!
# Compiler options

`Options` is what an emitter sees of the compiler's configuration.  Options are built in layers:

* `Options.merge` puts a compiler section on top, every field that the section sets winning;
* `Options.patched` does the same with a `Patch`, the change that makes the options of a variant:
  `Patch.forPrimary` moves the output directory only, `Patch.forSecondary` also switches the module
  kind and turns declaration output off, since declarations come from the primary variant alone;
* `Options.withKind`, `withOutDir`, `withDeclarations` and `withIncremental` set single fields.

`Options.Step` is one layer and `Options.layered` puts a list of them on top of each other.
-/

set_option autoImplicit false

namespace Fanout

/-- The configuration that an emitter works with. -/
structure Options where
  outDir : Option Path := none
  kind : ModuleKind := .commonJs
  target : Option String := none
  rootDir : Option Path := none
  declaration : Bool := false
  declarationMap : Bool := false
  sourceMap : Bool := false
  incremental : Bool := false
  buildInfoFile : Option Path := none
  deriving DecidableEq, Repr, Inhabited

/-- A change of options: every field that is set replaces one, every other keeps it. -/
structure Options.Patch where
  outDir : Option Path := none
  kind : Option ModuleKind := none
  declaration : Option Bool := none
  declarationMap : Option Bool := none
  deriving DecidableEq, Repr, Inhabited

namespace Options

-- the kind of the primary is the base's, which `Registry.check` sees to
def Patch.forPrimary (outDir : Path) : Patch := { outDir := some outDir }

def Patch.forSecondary (kind : ModuleKind) (outDir : Path) : Patch where
  outDir := some outDir
  kind := some kind
  declaration := some false
  declarationMap := some false

/-- Puts a compiler section on top. -/
def merge (o : Options) (s : CompilerSection) : Options where
  outDir := s.outDir.or o.outDir
  kind := s.kind.getD o.kind
  target := s.target.or o.target
  rootDir := s.rootDir.or o.rootDir
  declaration := s.declaration.getD o.declaration
  declarationMap := s.declarationMap.getD o.declarationMap
  sourceMap := s.sourceMap.getD o.sourceMap
  incremental := s.incremental.getD o.incremental
  buildInfoFile := s.buildInfoFile.or o.buildInfoFile

/-- The options that a compiler section declares. -/
def ofSection (s : CompilerSection) : Options := ({} : Options).merge s

def patched (o : Options) (p : Patch) : Options :=
  { o with
    outDir := p.outDir.or o.outDir
    kind := p.kind.getD o.kind
    declaration := p.declaration.getD o.declaration
    declarationMap := p.declarationMap.getD o.declarationMap }

def withKind (o : Options) (kind : ModuleKind) : Options := { o with kind }

def withOutDir (o : Options) (dir : Path) : Options := { o with outDir := some dir }

/-- Turns declarations and their maps on or off together. -/
def withDeclarations (o : Options) (enabled : Bool) : Options :=
  { o with declaration := enabled, declarationMap := enabled }

def withIncremental (o : Options) (enabled : Bool) : Options := { o with incremental := enabled }

/-- Whether any declaration artifact is produced. -/
def emitsDeclarations (o : Options) : Bool := o.declaration || o.declarationMap

/-- Whether two optional paths are both absent or spell one path. -/
def samePath : Option Path → Option Path → Bool
  | none, none => true
  | some p, some q => p.same q
  | _, _ => false

/-- Whether two options agree, spellings of one path counting as one. -/
def same (a b : Options) : Bool :=
  samePath a.outDir b.outDir && a.kind == b.kind && a.target == b.target &&
    samePath a.rootDir b.rootDir && a.declaration == b.declaration &&
    a.declarationMap == b.declarationMap && a.sourceMap == b.sourceMap &&
    a.incremental == b.incremental && samePath a.buildInfoFile b.buildInfoFile

/-! ## Layers -/

/-- One layer of options. -/
inductive Step where
  | declared (s : CompilerSection)
  | patch (p : Patch)
  | kind (kind : ModuleKind)
  | outDir (dir : Path)
  | declarations (enabled : Bool)
  | incremental (enabled : Bool)
  deriving DecidableEq, Repr

/-- Puts one layer on top. -/
def Step.apply (o : Options) : Step → Options
  | .declared s => o.merge s
  | .patch p => o.patched p
  | .kind k => o.withKind k
  | .outDir dir => o.withOutDir dir
  | .declarations enabled => o.withDeclarations enabled
  | .incremental enabled => o.withIncremental enabled

/-- Puts layers on top, the first one lowest. -/
def layered (o : Options) (steps : List Step) : Options := steps.foldl Step.apply o

end Options

end Fanout
