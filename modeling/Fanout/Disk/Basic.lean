import Fanout.Fault.Basic

/-!
# A disk

`Disk` is a file tree without links, with a current directory.  A place in the tree is a `Location`,
the names on the way to it with the innermost first, so that the enclosing directory is the tail.

* `Disk.walk` follows pieces from a location: every piece, also a filler, needs a directory to stand
  in; `Disk.find` follows a whole path.
* `Disk.read`, `Disk.write` and `Disk.makeDir` are the operations, each refused with a
  `SystemFault`; `Disk.makeDirs` makes a directory and the directories that enclose it.

A name has at most 255 bytes and a path at most 4095; the empty path and a path with a NUL name
nothing.
-/

set_option autoImplicit false

namespace Fanout

/-- A place in a file tree: names, innermost first. -/
abbrev Location := List Name

/-- What is at a place. -/
inductive Node where
  | dir
  | file (data : ByteArray)

instance : DecidableEq Node
  | .dir, .dir => isTrue rfl
  | .dir, .file _ => isFalse nofun
  | .file _, .dir => isFalse nofun
  | .file a, .file b =>
    match ByteArray.instDecidableEq a b with
    | isTrue h => isTrue (congrArg Node.file h)
    | isFalse h => isFalse fun e => h (Node.file.inj e)

/-- A file tree and a current directory. -/
structure Disk where
  cwd : Location
  nodes : List (Location × Node)
  deriving DecidableEq

namespace Disk

/-! ## The tree -/

/-- The directories on the way to a location, and one there. -/
def dirsTo : Location → List (Location × Node)
  | [] => []
  | n :: loc => (n :: loc, .dir) :: dirsTo loc

def bare (cwd : Location) : Disk := ⟨cwd, dirsTo cwd⟩

/-- What is at a location; the root is always a directory. -/
def node? (d : Disk) (loc : Location) : Option Node :=
  if loc.isEmpty then some .dir else d.nodes.lookup loc

def hasDir (d : Disk) (loc : Location) : Bool := d.node? loc == some .dir

/-- Puts a node at a location, in the place of what is there. -/
def putNode (loc : Location) (n : Node) : List (Location × Node) → List (Location × Node)
  | [] => [(loc, n)]
  | (l, m) :: rest => if l = loc then (l, n) :: rest else (l, m) :: putNode loc n rest

def put (d : Disk) (loc : Location) (n : Node) : Disk := { d with nodes := putNode loc n d.nodes }

/-! ## Following paths -/

def nameSize (n : Name) : Nat := (String.ofList n).utf8ByteSize

def maxNameSize : Nat := 255

def maxPathSize : Nat := 4095

/-- Follows pieces from a location. -/
def walk (d : Disk) (loc : Location) : List Name → Except SystemFault Location
  | [] => .ok loc
  | n :: rest =>
    if !d.hasDir loc then .error .notDirectory
    else if Path.isFiller n then d.walk loc rest
    else if n = ['.', '.'] then d.walk loc.tail rest
    else if maxNameSize < nameSize n then .error .nameTooLong
    else if (d.node? (n :: loc)).isNone then .error .missing
    else d.walk (n :: loc) rest

/-- Follows pieces to a directory. -/
def walkToDir (d : Disk) (loc : Location) (pieces : List Name) : Except SystemFault Location :=
  match d.walk loc pieces with
  | .error fault => .error fault
  | .ok loc => if d.hasDir loc then .ok loc else .error .notDirectory

/-- Why a path names nothing, whatever is on the disk. -/
def pathFault? (p : Path) : Option SystemFault :=
  if p.chars.contains (Char.ofNat 0) then some .embeddedNul
  else if p.isEmpty then some .missing
  else if maxPathSize < p.spelling.utf8ByteSize then some .pathTooLong
  else none

def start (d : Disk) (p : Path) : Location := if p.isAbsolute then [] else d.cwd

def find (d : Disk) (p : Path) : Except SystemFault Location :=
  match pathFault? p with
  | some fault => .error fault
  | none => d.walk (d.start p) p.pieces

def resolves (d : Disk) (p : Path) : Bool := (d.find p).toBool

def isDir (d : Disk) (p : Path) : Bool :=
  match d.find p with
  | .ok loc => d.hasDir loc
  | .error _ => false

/-! ## Operations -/

def read (d : Disk) (p : Path) : Except SystemFault ByteArray :=
  match d.find p with
  | .error fault => .error fault
  | .ok loc =>
    match d.node? loc with
    | some (.file data) => .ok data
    | some .dir => .error .isDirectory
    | none => .error .missing

def readText (d : Disk) (p : Path) : Except SystemFault String :=
  match d.read p with
  | .error fault => .error fault
  | .ok data =>
    match String.fromUTF8? data with
    | some text => .ok text
    | none => .error .notText

/-- The location for a new entry: the directory that a path without its last piece names, and that
last piece, which has to be a name. -/
def slot (d : Disk) (p : Path) (reversed : List Name) : Except SystemFault Location :=
  match pathFault? p with
  | some fault => .error fault
  | none =>
    match reversed with
    | [] => .error .alreadyExists
    | last :: before =>
      match d.walkToDir (d.start p) before.reverse with
      | .error fault => .error fault
      | .ok dir =>
        if Path.isFiller last || last == ['.', '.'] then .error .alreadyExists
        else if maxNameSize < nameSize last then .error .nameTooLong
        else .ok (last :: dir)

/-- Writes a file, in the place of one that is there. -/
def write (d : Disk) (p : Path) (data : ByteArray) : Except SystemFault Disk :=
  match d.slot p p.pieces.reverse with
  -- a path without a name at its end names a directory
  | .error .alreadyExists => .error .isDirectory
  | .error fault => .error fault
  | .ok loc => if d.hasDir loc then .error .isDirectory else .ok (d.put loc (.file data))

/-- Makes a directory in one that is there; slashes at the end of the path count for nothing. -/
def makeDir (d : Disk) (p : Path) : Except SystemFault Disk :=
  match d.slot p (p.pieces.reverse.dropWhile List.isEmpty) with
  | .error fault => .error fault
  | .ok loc => if (d.node? loc).isSome then .error .alreadyExists else .ok (d.put loc .dir)

/-- Makes a directory where something else may have made it. -/
def ensureDir (d : Disk) (p : Path) : Disk × Except SystemFault Unit :=
  match d.makeDir p with
  | .ok d => (d, .ok ())
  | .error fault => if d.isDir p then (d, .ok ()) else (d, .error fault)

/-- Makes the first of some directories, each lying in the next, and those it lies in as far as they
are missing.  What was made stays where a later one fails. -/
def makeChain (d : Disk) : List Path → Disk × Except SystemFault Unit
  | [] => (d, .error .missing)
  | p :: enclosing =>
    if p.isEmpty then (d, .ok ())
    else
      match d.makeDir p with
      | .ok d => (d, .ok ())
      | .error .missing =>
        -- meanwhile something else may have made `p` as well
        match d.makeChain enclosing with
        | (d, .error fault) => (d, .error fault)
        | (d, .ok ()) => d.ensureDir p
      | .error fault => if d.isDir p then (d, .ok ()) else (d, .error fault)

def makeDirs (d : Disk) (p : Path) : Disk × Except SystemFault Unit := d.makeChain p.selfAndAbove

end Disk

end Fanout
