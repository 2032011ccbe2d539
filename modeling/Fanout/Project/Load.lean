import Fanout.Disk.Basic
import Fanout.Project.OfToml
import Fanout.Project.Validation
import Fanout.Text.Lowering

/-!
# Loading a project

* `Project.readFile` reads and validates a project file.
* `Environment.override` puts the environment on top: the cache switch, which is on for three words
  in any case and off for any other text, and the output directory, unless it is empty.  A variable
  that is not text counts as unset.  The result is not validated again.
* `LoadedProject.ofFile` loads a file, whose directory is the project's root.
* `LoadedProject.ofDirectory` loads the file of the nearest directory that has one, among the start
  and the paths that enclose it; without one the project is the empty one and has no root.
-/

set_option autoImplicit false

namespace Fanout

def projectFileName : Path := ⟨"polyemit.toml"⟩

/-- Reads and validates a project file. -/
def Project.readFile (d : Disk) (p : Path) : Except ConfigError Project :=
  match d.readText p with
  | .error .missing => .error (.notFound p)
  | .error fault => .error (.unreadable (.system fault))
  | .ok text =>
    match parse? text with
    | none => .error (.malformed p)
    | some project => project.validate.map fun _ => project

/-! ## The environment -/

/-- The variables that override a project, as bytes. -/
structure Environment where
  /-- Turns the cache on or off. -/
  cache : Option ByteArray := none
  /-- Replaces the output directory of the compiler section. -/
  outDir : Option ByteArray := none

namespace Environment

def cacheVariable : String := "POLYEMIT_CACHE"

def outDirVariable : String := "POLYEMIT_OUT_DIR"

/-- Whether a text turns the cache on. -/
def isYes (text : String) : Bool := ["true", "1", "yes"].contains (Text.lowered text)

/-- The text of a variable, if it is set to a text. -/
def textOf (bytes : Option ByteArray) : Option String := bytes.bind String.fromUTF8?

def overrideCache (env : Environment) (p : Project) : Project :=
  match textOf env.cache with
  | none => p
  | some text => { p with emit := some { p.emit.getD {} with cache := some (isYes text) } }

def overrideOutDir (env : Environment) (p : Project) : Project :=
  match textOf env.outDir with
  | none => p
  | some text =>
    if text.isEmpty then p
    else { p with compiler := some { p.compiler.getD {} with outDir := some ⟨text⟩ } }

/-- Puts the environment on top. -/
def override (env : Environment) (p : Project) : Project := env.overrideOutDir (env.overrideCache p)

end Environment

/-! ## Loading -/

/-- A project and the directory that its relative paths start from. -/
structure LoadedProject where
  project : Project
  root : Option Path
  deriving DecidableEq, Repr, Inhabited

namespace LoadedProject

def hasFile (l : LoadedProject) : Bool := l.root.isSome

/-- A path as seen from the root of the project. -/
def resolvePath (l : LoadedProject) (p : Path) : Path :=
  match l.root with
  | some root => if p.isAbsolute then p else root.join p
  | none => p

/-- The project with the environment on top, if it is to be heeded. -/
def withEnvironment (env : Option Environment) (p : Project) : Project :=
  match env with
  | some env => env.override p
  | none => p

def ofFile (d : Disk) (env : Option Environment) (file : Path) :
    Except ConfigError LoadedProject :=
  (Project.readFile d file).map fun p => ⟨withEnvironment env p, file.parent?⟩

/-- The nearest directory with a project file, among a start and the paths that enclose it. -/
def findRoot? (d : Disk) (start : Path) : Option Path :=
  start.selfAndAbove.find? fun dir => d.resolves (dir.join projectFileName)

/-- Loads the project that a directory lies in. -/
def ofDirectory (d : Disk) (env : Option Environment) (start : Path) :
    Except ConfigError LoadedProject :=
  match findRoot? d start with
  | none => .ok ⟨withEnvironment env {}, none⟩
  | some root =>
    (Project.readFile d (root.join projectFileName)).map fun p =>
      ⟨withEnvironment env p, some root⟩

end LoadedProject

end Fanout
