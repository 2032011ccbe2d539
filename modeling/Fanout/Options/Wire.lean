import Fanout.Options.Basic
import Fanout.Project.Wire

/-!
# Options in JSON

All nine fields are written, null for none; a member that is no field is skipped in reading.
-/

set_option autoImplicit false

namespace Fanout.Options

open Json (RecordForm orNull)

def form : RecordForm where
  fields := ["out_dir", "module", "target", "root_dir", "declaration", "declaration_map",
    "source_map", "incremental", "build_info_file"]
  defaults := 0
  strict := false

def toJson (o : Options) : Json :=
  .obj [("out_dir", orNull Json.ofPath o.outDir),
    ("module", o.kind.toJson),
    ("target", orNull .str o.target),
    ("root_dir", orNull Json.ofPath o.rootDir),
    ("declaration", .bool o.declaration),
    ("declaration_map", .bool o.declarationMap),
    ("source_map", .bool o.sourceMap),
    ("incremental", .bool o.incremental),
    ("build_info_file", orNull Json.ofPath o.buildInfoFile)]

def ofJson? (j : Json) : Option Options := do
  let fields ← form.read? j
  return {
    outDir := ← fields.optional Json.path? "out_dir"
    kind := ← fields.required ModuleKind.ofJson? "module"
    target := ← fields.optional Json.text? "target"
    rootDir := ← fields.optional Json.path? "root_dir"
    declaration := ← fields.required Json.bool? "declaration"
    declarationMap := ← fields.required Json.bool? "declaration_map"
    sourceMap := ← fields.required Json.bool? "source_map"
    incremental := ← fields.required Json.bool? "incremental"
    buildInfoFile := ← fields.optional Json.path? "build_info_file" }

end Fanout.Options
