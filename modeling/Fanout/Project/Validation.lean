import Fanout.Fault.Basic
import Fanout.Project.Config

/-!
# What a project file may declare

`Project.validate` gives the first fault of a project, in this order: the output directory of the
compiler section, the presence of variants in an emit section, the cache root, and then the variants
one by one, each by its output directory, its cache directory and its module kind.  Whether exactly
one variant is primary is no question of the file alone and is settled by `Registry.resolve`.
-/

set_option autoImplicit false

namespace Fanout

/-- A fault of a project; a variant is named by its place in the list. -/
inductive ProjectFault where
  | emptyOutDir
  | noVariants
  | emptyCacheRoot
  | emptyVariantOutDir (place : Nat)
  | emptyVariantCacheDir (place : Nat)
  | repeatedKind (place : Nat) (kind : ModuleKind)
  deriving DecidableEq, Repr

namespace ProjectFault

/-- The name of a field of a variant. -/
def variantField (place : Nat) (field : String) : String :=
  "emit.variants[" ++ toString place ++ "]." ++ field

def toError : ProjectFault → ConfigError
  | emptyOutDir => .invalidValue "compiler.out_dir" "path cannot be empty"
  | noVariants => .invalid "[emit] must list at least one variant"
  | emptyCacheRoot => .invalidValue "emit.cache_dir" "path cannot be empty"
  | emptyVariantOutDir place =>
    .invalidValue (variantField place "out_dir") "path cannot be empty"
  | emptyVariantCacheDir place =>
    .invalidValue (variantField place "cache_dir") "path cannot be empty"
  | repeatedKind place kind =>
    .invalidValue (variantField place "module")
      ("module '" ++ kind.name ++ "' is listed more than once")

end ProjectFault

/-- Whether a path was given and is empty. -/
def givenEmpty (p : Option Path) : Bool := p.any Path.isEmpty

/-- The first fault of the variants from some place on, given the kinds listed before. -/
def VariantEntry.firstFault? (place : Nat) (seen : List ModuleKind) :
    List VariantEntry → Option ProjectFault
  | [] => none
  | v :: rest =>
    if v.outDir.isEmpty then some (.emptyVariantOutDir place)
    else if givenEmpty v.cacheDir then some (.emptyVariantCacheDir place)
    else if seen.contains v.kind then some (.repeatedKind place v.kind)
    else firstFault? (place + 1) (v.kind :: seen) rest

/-- The first fault of an emit section. -/
def EmitSection.firstFault? (e : EmitSection) : Option ProjectFault :=
  if e.variants.isEmpty then some .noVariants
  else if givenEmpty e.cacheDir then some .emptyCacheRoot
  else VariantEntry.firstFault? 0 [] e.variants

namespace Project

def firstFault? (p : Project) : Option ProjectFault :=
  if givenEmpty (p.compiler.bind (·.outDir)) then some .emptyOutDir
  else p.emit.bind EmitSection.firstFault?

def validate (p : Project) : Except ConfigError Unit :=
  match p.firstFault? with
  | some fault => .error fault.toError
  | none => .ok ()

end Project

end Fanout
