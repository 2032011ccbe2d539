import Fanout.Path.Basic
import Fanout.Text.Utf8

/-!
# Paths in bytes

The system keeps a path as bytes and asks of them only which are slashes and dots, so a path need
not be text.  `BytePath.spelled` has one character for each byte, and a path in bytes has the
components of that path, is put below another one as that path is, and is made relative as it is.

Where a path in bytes is shown as text (`BytePath.shown`), what is no UTF-8 is lost; the other way
round every text has its bytes (`BytePath.ofPath`).
-/

set_option autoImplicit false

namespace Fanout

/-- A path as the system has it. -/
structure BytePath where
  bytes : List UInt8
  deriving DecidableEq, Inhabited, Repr

namespace BytePath

/-- One character for each byte. -/
def letters (bs : List UInt8) : List Char := bs.map Char.ofUInt8

/-- The bytes that characters stand for one by one; beyond the last byte there are none. -/
def ofLetters (cs : List Char) : List UInt8 := cs.map fun c => UInt8.ofNatClamp c.toNat

def spelled (p : BytePath) : Path := .ofChars (letters p.bytes)

def ofSpelled (p : Path) : BytePath := ⟨ofLetters p.chars⟩

/-- The bytes of a path that is text. -/
def ofPath (p : Path) : BytePath := ⟨Utf8.encode p.chars⟩

/-- A path as text. -/
def shown (p : BytePath) : Path := .ofChars (Utf8.decode p.bytes)

def components (p : BytePath) : List Path.Component := p.spelled.components

/-- Whether the components of two paths are the same. -/
def same (p q : BytePath) : Bool := p.spelled.same q.spelled

def join (p q : BytePath) : BytePath := ofSpelled (p.spelled.join q.spelled)

def relativeTo? (p base : BytePath) : Option BytePath :=
  (p.spelled.relativeTo? base.spelled).map ofSpelled

end BytePath

end Fanout
