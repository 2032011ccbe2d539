import Fanout.Options.Basic

/-!
# Output variants

A variant is one flavour of output: a module kind with a final directory and a cache directory.  The
`OutputMode` of a build picks one of the two, `Variant.effectiveDir`.
-/

set_option autoImplicit false

namespace Fanout

/-- Which directories a build writes to. -/
inductive OutputMode where
  | final
  | cache
  deriving DecidableEq, Repr, Inhabited

namespace OutputMode

def ofCacheFlag (cache : Bool) : OutputMode := if cache then .cache else .final

def name : OutputMode → String
  | final => "final"
  | cache => "cache"

def ofName? (text : String) : Option OutputMode := [final, cache].find? (·.name == text)

theorem ofName?_name (m : OutputMode) : ofName? m.name = some m := by
  cases m <;> decide

end OutputMode

/-- One flavour of output. -/
structure Variant where
  kind : ModuleKind
  outDir : Path
  cacheDir : Path
  /-- Whether the variant is the one that the project's own options describe. -/
  isPrimary : Bool
  deriving DecidableEq, Repr, Inhabited

namespace Variant

/-- The directory that a variant is written to. -/
def effectiveDir (v : Variant) : OutputMode → Path
  | .final => v.outDir
  | .cache => v.cacheDir

/-- The patch that turns the base options into the options of a variant. -/
def patch (v : Variant) (mode : OutputMode) : Options.Patch :=
  if v.isPrimary then .forPrimary (v.effectiveDir mode)
  else .forSecondary v.kind (v.effectiveDir mode)

end Variant

end Fanout
