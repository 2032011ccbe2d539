import Fanout.Path.Basic

/-!
# What an emit call reports

An `EmitResult` holds the diagnostics of a call, whether some output was skipped, and the files that
the call wrote.  `EmitResult.absorb` adds the result of another call to a total: lists are
appended, and a total is skipped if one of its calls was.
-/

set_option autoImplicit false

namespace Fanout

inductive Severity where
  | error
  | warning
  | suggestion
  | message
  deriving DecidableEq, Repr

namespace Severity

def all : List Severity := [error, warning, suggestion, message]

def name : Severity → String
  | error => "error"
  | warning => "warning"
  | suggestion => "suggestion"
  | message => "message"

def ofName? (text : String) : Option Severity := all.find? (·.name == text)

theorem ofName?_name (s : Severity) : ofName? s.name = some s := by
  cases s <;> decide

end Severity

/-- A remark of the compiler. -/
structure Diagnostic where
  file : Option Path
  code : UInt32
  severity : Severity
  message : String
  deriving DecidableEq, Repr

namespace Diagnostic

def error (code : UInt32) (message : String) : Diagnostic := ⟨none, code, .error, message⟩

def warning (code : UInt32) (message : String) : Diagnostic := ⟨none, code, .warning, message⟩

def withFile (d : Diagnostic) (file : Path) : Diagnostic := { d with file := some file }

end Diagnostic

/-- What an emit call reports. -/
structure EmitResult where
  diagnostics : List Diagnostic := []
  emitSkipped : Bool := false
  emittedFiles : List Path := []
  deriving DecidableEq, Repr, Inhabited

namespace EmitResult

def hasErrors (r : EmitResult) : Bool := r.diagnostics.any (·.severity == .error)

/-- Adds the result of another call. -/
def absorb (total r : EmitResult) : EmitResult where
  diagnostics := total.diagnostics ++ r.diagnostics
  emitSkipped := total.emitSkipped || r.emitSkipped
  emittedFiles := total.emittedFiles ++ r.emittedFiles

@[simp] theorem absorb_empty (r : EmitResult) : absorb r {} = r := by
  simp [absorb]

@[simp] theorem empty_absorb (r : EmitResult) : absorb {} r = r := by
  simp [absorb]

theorem absorb_assoc (a b c : EmitResult) : (a.absorb b).absorb c = a.absorb (b.absorb c) := by
  simp [absorb, Bool.or_assoc]

theorem hasErrors_absorb (a b : EmitResult) :
    (a.absorb b).hasErrors = (a.hasErrors || b.hasErrors) := by
  simp [absorb, hasErrors]

end EmitResult

/-- What one emit call is asked for. -/
structure EmitFlags where
  /-- Write declaration artifacts only. -/
  declarationsOnly : Bool := false
  /-- Write the file of the incremental state only. -/
  buildInfoOnly : Bool := false
  /-- Write declarations even where the options turn them off. -/
  forceDeclarations : Bool := false
  deriving DecidableEq, Repr, Inhabited

namespace EmitFlags

def onlyDeclarations : EmitFlags := { declarationsOnly := true }

def onlyBuildInfo : EmitFlags := { buildInfoOnly := true }

/-- Whether a call is for artifacts that exist once in a program, whatever its variants. -/
def isPassThrough (f : EmitFlags) : Bool := f.declarationsOnly || f.buildInfoOnly

end EmitFlags

end Fanout
