import Fanout.Disk.Basic
import Fanout.Emission.EntryPoint

/-!
# The host that writes to disk

`DiskHost.write` makes the directory that encloses a file, then writes the file, and keeps a log of
the files written.  An error names the directory if that could not be made, and else the file.
-/

set_option autoImplicit false

namespace Fanout

/-- A disk, the log of the files written to it, and what else emitters act on. -/
structure OnDisk (τ : Type) where
  disk : Disk
  /-- The files written, as they were spelled and in the order they were written. -/
  written : List Path
  rest : τ

namespace DiskHost

variable {τ : Type}

/-- Makes the directory that encloses a file; a file named without one needs none. -/
def makeParent (d : Disk) (p : Path) : Disk × Except BuildError Unit :=
  match p.parent? with
  | none => (d, .ok ())
  | some parent =>
    if parent.isEmpty then (d, .ok ())
    else
      match d.makeDirs parent with
      | (d, .ok ()) => (d, .ok ())
      | (d, .error fault) => (d, .error (.file parent (.system fault)))

/-- Writes a file and logs it. -/
def write (p : Path) (contents : String) (s : OnDisk τ) : Except BuildError Unit × OnDisk τ :=
  match makeParent s.disk p with
  | (disk, .error e) => (.error e, { s with disk })
  | (disk, .ok ()) =>
    match disk.write p contents.toUTF8 with
    | .error fault => (.error (.file p (.system fault)), { s with disk })
    | .ok disk => (.ok (), { s with disk, written := s.written ++ [p] })

def withOptions (o : Options) : Host (OnDisk τ) := ⟨o, write⟩

/-- Writes files one after the other, going on after an error. -/
def writeAll (s : OnDisk τ) : List (Path × String) → List (Except BuildError Unit) × OnDisk τ
  | [] => ([], s)
  | (p, contents) :: rest =>
    let (result, s) := write p contents s
    let (results, s) := writeAll s rest
    (result :: results, s)

end DiskHost

end Fanout
