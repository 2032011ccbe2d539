import Fanout.Emission.Wire
import Fanout.Json.Writer
import Fanout.Variant.Registry
import Fanout.Variant.Wire

/-!
# The report of a session

A `Report` is what a session hands out: the merged result, the changed units in order, the files
written in the order they were written, a `Summary` of each variant, the mode and the time taken.

* `Report.toText` is its JSON text, with the members in the order of the fields and one item a line.
-/

set_option autoImplicit false

namespace Fanout

open Json (orNull)

def nanosPerSecond : Nat := 1000000000

/-- A span of time. -/
structure Elapsed where
  seconds : UInt64
  nanoseconds : UInt32
  /-- A whole second is counted as one. -/
  nanoseconds_lt : nanoseconds.toNat < nanosPerSecond := by decide
  deriving DecidableEq, Repr

namespace Elapsed

def zero : Elapsed := ⟨0, 0, by decide⟩

instance : Inhabited Elapsed := ⟨zero⟩

/-- Seconds and nanoseconds, whole seconds among the latter being carried. -/
def ofParts (seconds nanoseconds : Nat) : Elapsed where
  seconds := UInt64.ofNat (seconds + nanoseconds / nanosPerSecond)
  nanoseconds := UInt32.ofNat (nanoseconds % nanosPerSecond)
  nanoseconds_lt := by
    simp only [nanosPerSecond, UInt32.toNat_ofNat']
    omega

def toJson (e : Elapsed) : Json :=
  .obj [("secs", .nat e.seconds.toNat), ("nanos", .nat e.nanoseconds.toNat)]

end Elapsed

/-- A variant as it is reported. -/
structure Summary where
  kind : ModuleKind
  outDir : Option Path
  declarations : Bool
  isPrimary : Bool
  deriving DecidableEq, Repr, Inhabited

namespace Summary

def ofVariant (v : ResolvedVariant) : Summary where
  kind := v.kind
  outDir := v.outputDir?
  declarations := v.options.emitsDeclarations
  isPrimary := v.isPrimary

def toJson (s : Summary) : Json :=
  .obj [("module", s.kind.toJson), ("out_dir", orNull Json.ofPath s.outDir),
    ("declarations", .bool s.declarations), ("primary", .bool s.isPrimary)]

end Summary

/-- What a session hands out. -/
structure Report where
  result : EmitResult
  /-- The units for which emission was tried, in order. -/
  changedFiles : List Path
  /-- The files written, for all variants. -/
  writtenFiles : List Path
  /-- The variants in emit order. -/
  variants : List Summary
  mode : OutputMode
  elapsed : Elapsed
  deriving DecidableEq, Repr, Inhabited

namespace Report

/-- Whether every variant was written as a whole. -/
def isComplete (r : Report) : Bool := !r.result.emitSkipped

def toJson (r : Report) : Json :=
  .obj [("result", r.result.toJson),
    ("changed_files", Json.ofList Json.ofPath r.changedFiles),
    ("written_files", Json.ofList Json.ofPath r.writtenFiles),
    ("variants", Json.ofList Summary.toJson r.variants),
    ("mode", r.mode.toJson),
    ("elapsed", r.elapsed.toJson)]

def toText (r : Report) : String := r.toJson.pretty

end Report

end Fanout
