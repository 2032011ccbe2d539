import Fanout.Path.Order

/-!
# Sets of source units

A `UnitSet` lists paths in their order, no two of them spellings of one path; of several spellings
the one recorded first is kept.
-/

set_option autoImplicit false

namespace Fanout

/-- Puts a path in its place among ordered ones, unless a spelling of it is there. -/
def Path.insertOrdered (p : Path) : List Path → List Path
  | [] => [p]
  | q :: rest =>
    match compare p q with
    | .lt => p :: q :: rest
    | .eq => q :: rest
    | .gt => q :: insertOrdered p rest

/-- A set of source units. -/
structure UnitSet where
  /-- The units in order. -/
  units : List Path := []
  deriving DecidableEq, Repr, Inhabited

namespace UnitSet

def empty : UnitSet := ⟨[]⟩

/-- Whether a unit is in the set, under any spelling. -/
def contains (s : UnitSet) (u : Path) : Bool := s.units.any (compare u · == .eq)

def insert (s : UnitSet) (u : Path) : UnitSet := ⟨u.insertOrdered s.units⟩

def size (s : UnitSet) : Nat := s.units.length

def isEmpty (s : UnitSet) : Bool := s.units.isEmpty

@[simp] theorem units_empty : empty.units = [] := rfl

@[simp] theorem units_insert (s : UnitSet) (u : Path) :
    (s.insert u).units = u.insertOrdered s.units := rfl

end UnitSet

end Fanout
