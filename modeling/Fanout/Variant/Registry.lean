import Fanout.Fault.Basic
import Fanout.Variant.Basic

/-!
# The registry of variants

`Registry.resolve` checks a list of variants against the base options and derives the options of
each.  A list is refused for its first fault in this order: it is empty; a variant, the earliest,
has an empty directory, the final one being looked at first; a module kind, the earliest, occurs
again; the number of primary variants is not one; the kind of the primary is not that of the base.
`RegistryFault` names the faults and `RegistryFault.message` words them.
-/

set_option autoImplicit false

namespace Fanout

/-- Why a list of variants is refused. -/
inductive RegistryFault where
  | noVariants
  | emptyOutDir (kind : ModuleKind)
  | emptyCacheDir (kind : ModuleKind)
  | repeatedKind (kind : ModuleKind)
  | noPrimary
  | manyPrimaries (count : Nat)
  | otherKind (primary declared : ModuleKind)
  deriving DecidableEq, Repr

def RegistryFault.message : RegistryFault → String
  | noVariants => "no output variants configured"
  | emptyOutDir kind => "variant '" ++ kind.name ++ "' has an empty output path"
  | emptyCacheDir kind => "variant '" ++ kind.name ++ "' has an empty cache path"
  | repeatedKind kind => "module '" ++ kind.name ++ "' is configured by more than one variant"
  | noPrimary => "no primary variant"
  | manyPrimaries count =>
    toString count ++ " variants are marked primary, expected exactly one"
  | otherKind primary declared =>
    "primary variant emits '" ++ primary.name ++ "' but the compiler options declare '" ++
      declared.name ++ "'"

/-- The fault of a variant by itself. -/
def Variant.fault? (v : Variant) : Option RegistryFault :=
  if v.outDir.isEmpty then some (.emptyOutDir v.kind)
  else if v.cacheDir.isEmpty then some (.emptyCacheDir v.kind)
  else none

/-- A variant with the options that it is emitted with. -/
structure ResolvedVariant where
  variant : Variant
  options : Options
  deriving DecidableEq, Repr, Inhabited

namespace ResolvedVariant

def kind (v : ResolvedVariant) : ModuleKind := v.variant.kind

def isPrimary (v : ResolvedVariant) : Bool := v.variant.isPrimary

/-- The directory that a variant is written to. -/
def outputDir? (v : ResolvedVariant) : Option Path := v.options.outDir

end ResolvedVariant

/-- The variants of a build, in emit order. -/
structure Registry where
  variants : List ResolvedVariant
  primary : ResolvedVariant
  mode : OutputMode
  deriving DecidableEq, Repr, Inhabited

namespace Registry

/-- The first kind that occurs again, given those that occurred. -/
def repeatedKind? (seen : List ModuleKind) : List Variant → Option ModuleKind
  | [] => none
  | v :: rest => if seen.contains v.kind then some v.kind else repeatedKind? (v.kind :: seen) rest

/-- The first fault of a list of variants, or its primary variant. -/
def check (base : Options) (variants : List Variant) : Except RegistryFault Variant :=
  if variants.isEmpty then .error .noVariants
  else
    -- every variant by itself, before any is held against another
    match variants.findSome? Variant.fault? with
    | some fault => .error fault
    | none =>
      match repeatedKind? [] variants with
      | some kind => .error (.repeatedKind kind)
      | none =>
        match variants.filter (·.isPrimary) with
        | [] => .error .noPrimary
        | [primary] =>
          if primary.kind = base.kind then .ok primary
          else .error (.otherKind primary.kind base.kind)
        | many => .error (.manyPrimaries many.length)

def resolveVariant (base : Options) (mode : OutputMode) (v : Variant) : ResolvedVariant where
  variant := v
  options := base.patched (v.patch mode)

/-- Checks the variants and derives their options. -/
def resolve (base : Options) (variants : List Variant) (mode : OutputMode) :
    Except RegistryFault Registry :=
  (check base variants).map fun primary =>
    -- the primary comes out of the same derivation as its place in the list
    { variants := variants.map (resolveVariant base mode)
      primary := resolveVariant base mode primary
      mode }

def defaultKind (r : Registry) : ModuleKind := r.primary.kind

/-- The variant of a module kind. -/
def get? (r : Registry) (kind : ModuleKind) : Option ResolvedVariant :=
  r.variants.find? (·.kind == kind)

/-- The module kinds, in emit order. -/
def kinds (r : Registry) : List ModuleKind := r.variants.map (·.kind)

def size (r : Registry) : Nat := r.variants.length

def isEmpty (r : Registry) : Bool := r.variants.isEmpty

end Registry

/-- The build error that reports a refused list of variants. -/
def RegistryFault.toError (fault : RegistryFault) : BuildError := .configuration fault.message

end Fanout
