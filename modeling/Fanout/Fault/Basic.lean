import Fanout.Handle
import Fanout.ModuleKind
import Fanout.Path.Basic

/-!
# Errors

What can go wrong, one type for loading a configuration and one for building with it.

* `IoCause` is why an operation on files failed: a fault of the system, or a text given by whoever
  raised it.
* `ConfigError` and `BuildError` are the errors; `message?` is their wording.  A fault of the system
  and a fault in the syntax of a file have no wording of their own here, nor has an error that
  wraps one.
* `BuildError.variant?` is the module kind that was being emitted.
* `ModuleKind.ofText` reads a module kind in any case, or says which text is none.
-/

set_option autoImplicit false

namespace Fanout

/-- A refusal by the file system. -/
inductive SystemFault where
  | missing
  | notDirectory
  | isDirectory
  | alreadyExists
  | nameTooLong
  | pathTooLong
  | embeddedNul
  | notText
  deriving DecidableEq, Repr

inductive IoCause where
  | system (fault : SystemFault)
  | described (text : String)
  deriving DecidableEq, Repr

def IoCause.message? : IoCause → Option String
  | .system _ => none
  | .described text => some text

inductive ConfigError where
  | notFound (path : Path)
  | unreadable (cause : IoCause)
  | malformed (file : Path)
  | invalid (reason : String)
  | invalidValue (field reason : String)
  | unknownModuleKind (text : String)
  deriving DecidableEq, Repr

def ConfigError.message? : ConfigError → Option String
  | .notFound path => some ("Configuration file not found: " ++ path.spelling)
  | .unreadable cause => cause.message?.map ("Failed to read configuration file: " ++ ·)
  | .malformed _ => none
  | .invalid reason => some ("Invalid configuration: " ++ reason)
  | .invalidValue field reason => some ("Invalid value for '" ++ field ++ "': " ++ reason)
  | .unknownModuleKind text => some ("Unknown module kind '" ++ text ++ "'")

/-- Reads a module kind, whatever the case of the letters. -/
def ModuleKind.ofText (text : String) : Except ConfigError ModuleKind :=
  match parse? text with
  | some kind => .ok kind
  | none => .error (.unknownModuleKind text)

/-- An error in building. -/
inductive BuildError where
  | configuration (reason : String)
  | alreadyInstalled (handle : Handle)
  | notInstalled
  | otherCompiler (installed requested : Handle)
  | inVariant (kind : ModuleKind) (cause : BuildError)
  | emit (reason : String)
  | file (path : Path) (cause : IoCause)
  | system (cause : IoCause)
  | config (cause : ConfigError)
  | serialize (reason : String)
  deriving DecidableEq, Repr, Inhabited

namespace BuildError

def message? : BuildError → Option String
  | configuration reason => some ("Invalid variant configuration: " ++ reason)
  | alreadyInstalled handle =>
    some ("Emit multiplexer already installed on compiler " ++ handle.text)
  | notInstalled => some "No emit multiplexer is installed"
  | otherCompiler installed requested =>
    some ("Emit multiplexer is installed on compiler " ++ installed.text ++ ", not " ++
      requested.text)
  | inVariant kind cause =>
    cause.message?.map (("Emit failed for module '" ++ kind.name ++ "': ") ++ ·)
  | emit reason => some ("Emit failed: " ++ reason)
  | file path cause => cause.message?.map (("I/O error at " ++ path.spelling ++ ": ") ++ ·)
  | system cause => cause.message?.map ("I/O error: " ++ ·)
  | config cause => cause.message?.map ("Configuration error: " ++ ·)
  | serialize reason => some ("Failed to serialize emit report: " ++ reason)

/-- The module kind that was being emitted, if that is known. -/
def variant? : BuildError → Option ModuleKind
  | inVariant kind _ => some kind
  | _ => none

end BuildError

end Fanout
