import Fanout.Options.Basic

/-!
# Emit pipelines

A `Pipeline` is the passes that one emit call runs.  `Pipeline.derive` makes it from the options and
the user's own passes: those before, then type erasure and the module pass of the options' module
kind, then those after; and for declarations the declaration pass, then the user's.  A call for
declarations alone has no script passes.
-/

set_option autoImplicit false

namespace Fanout

inductive Transform where
  | stripTypes
  | commonJsModule
  | amdModule
  | umdModule
  | systemModule
  | esModule
  | nodeModule
  | declarations
  | custom (name : String)
  deriving DecidableEq, Repr

/-- The pass that writes references in a module kind. -/
def Transform.forKind : ModuleKind → Transform
  | .commonJs => .commonJsModule
  | .amd => .amdModule
  | .umd => .umdModule
  | .system => .systemModule
  | .node16 | .nodeNext => .nodeModule
  | .es2015 | .es2020 | .es2022 | .esNext | .preserve => .esModule

structure CustomPasses where
  before : List String
  after : List String
  afterDeclarations : List String
  deriving DecidableEq, Repr, Inhabited

structure Pipeline where
  kind : ModuleKind
  script : List Transform
  declaration : List Transform
  custom : Option CustomPasses
  deriving DecidableEq, Repr, Inhabited

namespace Pipeline

/-- The user's passes of some place in the pipeline. -/
def customAt (custom : Option CustomPasses) (place : CustomPasses → List String) :
    List Transform :=
  match custom with
  | some passes => (place passes).map .custom
  | none => []

/-- The script passes for a module kind. -/
def scriptFor (kind : ModuleKind) (custom : Option CustomPasses) : List Transform :=
  customAt custom (·.before) ++ [.stripTypes, .forKind kind] ++ customAt custom (·.after)

def derive (o : Options) (custom : Option CustomPasses) (declarationsOnly : Bool) : Pipeline where
  kind := o.kind
  script := if declarationsOnly then [] else scriptFor o.kind custom
  declaration := .declarations :: customAt custom (·.afterDeclarations)
  custom

end Pipeline

end Fanout
