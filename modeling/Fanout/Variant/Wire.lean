import Fanout.Project.Wire
import Fanout.Variant.Basic

/-!
# Variants in JSON

A variant is written with all its fields and an output mode as its name; a member that is no field
is skipped in reading.
-/

set_option autoImplicit false

namespace Fanout

open Json (RecordForm)

namespace OutputMode

def toJson (m : OutputMode) : Json := .str m.name

def ofJson? (j : Json) : Option OutputMode := j.case?.bind ofName?

end OutputMode

namespace Variant

def form : RecordForm where
  fields := ["module", "out_dir", "cache_dir", "primary"]
  defaults := 0
  strict := false

def toJson (v : Variant) : Json :=
  .obj [("module", v.kind.toJson), ("out_dir", Json.ofPath v.outDir),
    ("cache_dir", Json.ofPath v.cacheDir), ("primary", .bool v.isPrimary)]

def ofJson? (j : Json) : Option Variant := do
  let fields ← form.read? j
  return {
    kind := ← fields.required ModuleKind.ofJson? "module"
    outDir := ← fields.required Json.path? "out_dir"
    cacheDir := ← fields.required Json.path? "cache_dir"
    isPrimary := ← fields.required Json.bool? "primary" }

end Variant

end Fanout
