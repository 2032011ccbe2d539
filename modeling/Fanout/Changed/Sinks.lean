import Fanout.Changed.UnitSet

/-!
# Shared changed-files sinks

A build and those who watch it share sets of changed units.  `Sinks` holds the sets, and a `Sink` is
a hold on one of them: a copy of a sink is a hold on the same set.  Recording tells whether the unit
is new, and `Sinks.take` empties a set and gives what was in it.

`Sinks.Step` is one operation on a list of holds, and `Sinks.Holds.step` carries it out.
-/

set_option autoImplicit false

namespace Fanout

/-- A hold on a shared set. -/
structure Sink where
  index : Nat
  deriving DecidableEq, Repr, Inhabited

/-- The shared sets. -/
structure Sinks where
  sets : List UnitSet := []
  deriving DecidableEq, Repr, Inhabited

namespace Sinks

def get (s : Sinks) (k : Sink) : UnitSet := s.sets.getD k.index .empty

def put (s : Sinks) (k : Sink) (set : UnitSet) : Sinks := ⟨s.sets.set k.index set⟩

def fresh (s : Sinks) : Sink × Sinks := (⟨s.sets.length⟩, ⟨s.sets ++ [.empty]⟩)

def record (s : Sinks) (k : Sink) (u : Path) : Sinks := s.put k ((s.get k).insert u)

/-- Empties the set of a sink; the units that were in it come in order. -/
def take (s : Sinks) (k : Sink) : List Path × Sinks := ((s.get k).units, s.put k .empty)

/-! ## Histories -/

inductive Step where
  | record (place : Nat) (unit : Path)
  | contains (place : Nat) (unit : Path)
  | size (place : Nat)
  | isEmpty (place : Nat)
  | snapshot (place : Nat)
  | take (place : Nat)
  | copy (place : Nat)
  | new
  deriving DecidableEq, Repr

inductive Answer where
  | done
  | truth (b : Bool)
  | count (n : Nat)
  | units (us : List Path)
  deriving DecidableEq, Repr

/-- Some holds and the sets behind them. -/
structure Holds where
  holds : List Sink := []
  sinks : Sinks := {}
  deriving DecidableEq, Repr, Inhabited

namespace Holds

def sinkAt (h : Holds) (place : Nat) : Sink := h.holds.getD place ⟨0⟩

def set (h : Holds) (place : Nat) : UnitSet := h.sinks.get (h.sinkAt place)

def step (h : Holds) : Step → Answer × Holds
  | .record place unit =>
    (.truth (!(h.set place).contains unit),
      { h with sinks := h.sinks.record (h.sinkAt place) unit })
  | .contains place unit => (.truth ((h.set place).contains unit), h)
  | .size place => (.count (h.set place).size, h)
  | .isEmpty place => (.truth (h.set place).isEmpty, h)
  | .snapshot place => (.units (h.set place).units, h)
  | .take place =>
    let (units, sinks) := h.sinks.take (h.sinkAt place)
    (.units units, { h with sinks })
  | .copy place => (.done, { h with holds := h.holds ++ [h.sinkAt place] })
  | .new =>
    let (sink, sinks) := h.sinks.fresh
    (.done, { holds := h.holds ++ [sink], sinks })

/-- One hold on one empty set. -/
def initial : Holds := ({} : Holds).step .new |>.2

end Holds

end Sinks

end Fanout
