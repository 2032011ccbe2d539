import Fanout.Emission.Result
import Fanout.Handle
import Fanout.Json.Record

/-!
# Emit results in JSON

Diagnostics and emit results are written with all their fields, null for no file; a member that is
no field is skipped in reading.  A compiler handle is its id.
-/

set_option autoImplicit false

namespace Fanout

open Json (RecordForm orNull)

namespace Handle

def toJson (h : Handle) : Json := .nat h.id.toNat

def ofJson? (j : Json) : Option Handle := (j.word? 64).map fun n => ⟨UInt64.ofNat n⟩

end Handle

namespace Severity

def toJson (s : Severity) : Json := .str s.name

def ofJson? (j : Json) : Option Severity := j.case?.bind ofName?

end Severity

namespace Diagnostic

def form : RecordForm where
  fields := ["file", "code", "category", "message"]
  defaults := 0
  strict := false

def toJson (d : Diagnostic) : Json :=
  .obj [("file", orNull Json.ofPath d.file), ("code", .nat d.code.toNat),
    ("category", d.severity.toJson), ("message", .str d.message)]

def ofJson? (j : Json) : Option Diagnostic := do
  let fields ← form.read? j
  return {
    file := ← fields.optional Json.path? "file"
    code := UInt32.ofNat (← fields.required (Json.word? 32) "code")
    severity := ← fields.required Severity.ofJson? "category"
    message := ← fields.required Json.text? "message" }

end Diagnostic

namespace EmitResult

def form : RecordForm where
  fields := ["diagnostics", "emit_skipped", "emitted_files"]
  defaults := 0
  strict := false

def toJson (r : EmitResult) : Json :=
  .obj [("diagnostics", Json.ofList Diagnostic.toJson r.diagnostics),
    ("emit_skipped", .bool r.emitSkipped),
    ("emitted_files", Json.ofList Json.ofPath r.emittedFiles)]

def ofJson? (j : Json) : Option EmitResult := do
  let fields ← form.read? j
  return {
    diagnostics := ← fields.required (Json.list? Diagnostic.ofJson?) "diagnostics"
    emitSkipped := ← fields.required Json.bool? "emit_skipped"
    emittedFiles := ← fields.required (Json.list? Json.path?) "emitted_files" }

end EmitResult

end Fanout
