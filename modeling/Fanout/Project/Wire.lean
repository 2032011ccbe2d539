import Fanout.Json.Record
import Fanout.Project.Config

/-!
# Projects in JSON

The JSON form of a project and its sections.  Members that are none are not written, nor is an empty
list of variants; a member that is no field is refused in reading.  `ModuleKind` is its canonical
name.
-/

set_option autoImplicit false

namespace Fanout

open Json (Fields RecordForm memberIfSome)

namespace ModuleKind

def toJson (k : ModuleKind) : Json := .str k.name

def ofJson? (j : Json) : Option ModuleKind := j.case?.bind ofName?

end ModuleKind

namespace CompilerSection

def form : RecordForm where
  fields := ["module", "target", "out_dir", "root_dir", "declaration", "declaration_map",
    "source_map", "incremental", "build_info_file"]
  defaults := 0
  strict := true

def toJson (s : CompilerSection) : Json :=
  .obj (memberIfSome "module" ModuleKind.toJson s.kind ++
    memberIfSome "target" .str s.target ++
    memberIfSome "out_dir" Json.ofPath s.outDir ++
    memberIfSome "root_dir" Json.ofPath s.rootDir ++
    memberIfSome "declaration" .bool s.declaration ++
    memberIfSome "declaration_map" .bool s.declarationMap ++
    memberIfSome "source_map" .bool s.sourceMap ++
    memberIfSome "incremental" .bool s.incremental ++
    memberIfSome "build_info_file" Json.ofPath s.buildInfoFile)

def ofJson? (j : Json) : Option CompilerSection := do
  let fields ← form.read? j
  return {
    kind := ← fields.optional ModuleKind.ofJson? "module"
    target := ← fields.optional Json.text? "target"
    outDir := ← fields.optional Json.path? "out_dir"
    rootDir := ← fields.optional Json.path? "root_dir"
    declaration := ← fields.optional Json.bool? "declaration"
    declarationMap := ← fields.optional Json.bool? "declaration_map"
    sourceMap := ← fields.optional Json.bool? "source_map"
    incremental := ← fields.optional Json.bool? "incremental"
    buildInfoFile := ← fields.optional Json.path? "build_info_file" }

end CompilerSection

namespace VariantEntry

def form : RecordForm where
  fields := ["module", "out_dir", "cache_dir", "primary"]
  defaults := 1
  strict := true

def toJson (v : VariantEntry) : Json :=
  .obj ([("module", v.kind.toJson), ("out_dir", Json.ofPath v.outDir)] ++
    memberIfSome "cache_dir" Json.ofPath v.cacheDir ++
    [("primary", .bool v.isPrimary)])

def ofJson? (j : Json) : Option VariantEntry := do
  let fields ← form.read? j
  return {
    kind := ← fields.required ModuleKind.ofJson? "module"
    outDir := ← fields.required Json.path? "out_dir"
    cacheDir := ← fields.optional Json.path? "cache_dir"
    isPrimary := ← fields.defaulted Json.bool? false "primary" }

end VariantEntry

namespace EmitSection

def form : RecordForm where
  fields := ["cache", "cache_dir", "variants"]
  defaults := 1
  strict := true

def toJson (e : EmitSection) : Json :=
  .obj (memberIfSome "cache" .bool e.cache ++
    memberIfSome "cache_dir" Json.ofPath e.cacheDir ++
    (if e.variants.isEmpty then []
      else [("variants", Json.ofList VariantEntry.toJson e.variants)]))

def ofJson? (j : Json) : Option EmitSection := do
  let fields ← form.read? j
  return {
    cache := ← fields.optional Json.bool? "cache"
    cacheDir := ← fields.optional Json.path? "cache_dir"
    variants := ← fields.defaulted (Json.list? VariantEntry.ofJson?) [] "variants" }

end EmitSection

namespace Project

def form : RecordForm where
  fields := ["compiler", "emit"]
  defaults := 0
  strict := true

def toJson (p : Project) : Json :=
  .obj (memberIfSome "compiler" CompilerSection.toJson p.compiler ++
    memberIfSome "emit" EmitSection.toJson p.emit)

def ofJson? (j : Json) : Option Project := do
  let fields ← form.read? j
  return {
    compiler := ← fields.optional CompilerSection.ofJson? "compiler"
    emit := ← fields.optional EmitSection.ofJson? "emit" }

end Project

end Fanout
