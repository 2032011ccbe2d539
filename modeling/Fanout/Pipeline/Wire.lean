import Fanout.Json.Record
import Fanout.Pipeline.Basic

/-!
# Passes in JSON

A pass is its name, but for one of the user's, which is an object with the member `Custom`.
-/

set_option autoImplicit false

namespace Fanout

open Json (RecordForm)

namespace Transform

/-- The passes that carry nothing. -/
def plain : List Transform :=
  [stripTypes, commonJsModule, amdModule, umdModule, systemModule, esModule, nodeModule,
    declarations]

/-- The name of a kind of pass. -/
def caseName : Transform → String
  | stripTypes => "StripTypes"
  | commonJsModule => "CommonJsModule"
  | amdModule => "AmdModule"
  | umdModule => "UmdModule"
  | systemModule => "SystemModule"
  | esModule => "EsModule"
  | nodeModule => "NodeModule"
  | declarations => "Declarations"
  | custom _ => "Custom"

def toJson : Transform → Json
  | custom name => .obj [("Custom", .str name)]
  | t => .str t.caseName

def ofJson? : Json → Option Transform
  | .obj [("Custom", .str name)] => some (custom name)
  | j => j.case?.bind fun name => plain.find? (·.caseName == name)

end Transform

namespace CustomPasses

def form : RecordForm where
  fields := ["before", "after", "after_declarations"]
  defaults := 0
  strict := false

def toJson (c : CustomPasses) : Json :=
  .obj [("before", Json.ofList .str c.before), ("after", Json.ofList .str c.after),
    ("after_declarations", Json.ofList .str c.afterDeclarations)]

def ofJson? (j : Json) : Option CustomPasses := do
  let fields ← form.read? j
  return {
    before := ← fields.required (Json.list? Json.text?) "before"
    after := ← fields.required (Json.list? Json.text?) "after"
    afterDeclarations := ← fields.required (Json.list? Json.text?) "after_declarations" }

end CustomPasses

end Fanout
