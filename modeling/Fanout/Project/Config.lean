import Fanout.ModuleKind
import Fanout.Path.Basic

/-!
# Project configuration

What a project file declares: a compiler section, the base that every variant derives from, and an
emit section that lists the output variants in emit order.

* `Project.variants` and `Project.cacheEnabled` read the emit section, an absent one being empty.
* `Project.cacheDirOf` is the cache directory of a variant: its own, or the one named after its
  module kind below the cache root.
-/

set_option autoImplicit false

namespace Fanout

structure CompilerSection where
  kind : Option ModuleKind := none
  target : Option String := none
  outDir : Option Path := none
  rootDir : Option Path := none
  declaration : Option Bool := none
  declarationMap : Option Bool := none
  sourceMap : Option Bool := none
  incremental : Option Bool := none
  buildInfoFile : Option Path := none
  deriving DecidableEq, Repr, Inhabited

/-- One requested output variant. -/
structure VariantEntry where
  kind : ModuleKind
  outDir : Path
  cacheDir : Option Path := none
  isPrimary : Bool := false
  deriving DecidableEq, Repr, Inhabited

structure EmitSection where
  cache : Option Bool := none
  cacheDir : Option Path := none
  variants : List VariantEntry := []
  deriving DecidableEq, Repr, Inhabited

structure Project where
  compiler : Option CompilerSection := none
  emit : Option EmitSection := none
  deriving DecidableEq, Repr, Inhabited

/-- Where cache directories go unless the project says so. -/
def defaultCacheRoot : Path := ⟨".polyemit/cache"⟩

namespace Project

def cacheEnabled (p : Project) : Bool := (p.emit.bind (·.cache)).getD false

def variants (p : Project) : List VariantEntry := (p.emit.map (·.variants)).getD []

def cacheRoot (p : Project) : Path := (p.emit.bind (·.cacheDir)).getD defaultCacheRoot

def cacheDirOf (p : Project) (v : VariantEntry) : Path :=
  match v.cacheDir with
  | some dir => dir
  | none => p.cacheRoot.join ⟨v.kind.name⟩

end Project

end Fanout
