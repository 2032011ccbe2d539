import Fanout.Project.Config
import Fanout.Toml.Document
import Fanout.Toml.Record

/-!
# Projects in TOML

`Project.parse?` reads the text of a project file.  The sections are records with the field names of
`CompilerSection.tomlFields` and its kin, and a module kind is its canonical name.
-/

set_option autoImplicit false

namespace Fanout

open Toml (Value)

def ModuleKind.ofToml? (v : Value) : Option ModuleKind := v.case?.bind ofName?

def CompilerSection.tomlFields : List String :=
  ["module", "target", "out_dir", "root_dir", "declaration", "declaration_map", "source_map",
    "incremental", "build_info_file"]

def CompilerSection.ofToml? (v : Value) : Option CompilerSection := do
  let fields ← Toml.record? tomlFields 0 v
  return {
    kind := ← fields.optional ModuleKind.ofToml? "module"
    target := ← fields.optional Value.text? "target"
    outDir := ← fields.optional Value.path? "out_dir"
    rootDir := ← fields.optional Value.path? "root_dir"
    declaration := ← fields.optional Value.bool? "declaration"
    declarationMap := ← fields.optional Value.bool? "declaration_map"
    sourceMap := ← fields.optional Value.bool? "source_map"
    incremental := ← fields.optional Value.bool? "incremental"
    buildInfoFile := ← fields.optional Value.path? "build_info_file" }

def VariantEntry.tomlFields : List String := ["module", "out_dir", "cache_dir", "primary"]

def VariantEntry.ofToml? (v : Value) : Option VariantEntry := do
  let fields ← Toml.record? tomlFields 1 v
  return {
    kind := ← fields.required ModuleKind.ofToml? "module"
    outDir := ← fields.required Value.path? "out_dir"
    cacheDir := ← fields.optional Value.path? "cache_dir"
    isPrimary := ← fields.defaulted Value.bool? false "primary" }

def EmitSection.tomlFields : List String := ["cache", "cache_dir", "variants"]

def EmitSection.ofToml? (v : Value) : Option EmitSection := do
  let fields ← Toml.record? tomlFields 1 v
  return {
    cache := ← fields.optional Value.bool? "cache"
    cacheDir := ← fields.optional Value.path? "cache_dir"
    variants := ← fields.defaulted (Value.list? VariantEntry.ofToml?) [] "variants" }

namespace Project

def tomlFields : List String := ["compiler", "emit"]

def ofToml? (v : Value) : Option Project := do
  let fields ← Toml.record? tomlFields 0 v
  return {
    compiler := ← fields.optional CompilerSection.ofToml? "compiler"
    emit := ← fields.optional EmitSection.ofToml? "emit" }

def parse? (text : String) : Option Project :=
  (Toml.parse? text).bind fun entries => ofToml? (.table .header entries)

end Project

end Fanout
