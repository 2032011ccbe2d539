import Fanout.Path.Basic

/-!
# The order of paths

Paths are ordered by their components, the first difference deciding and a leading part sorting
first.  Among components the root sorts before a leading dot, that before a step up, and that
before every name; names compare by the code points of their characters.  The order is the
lexicographic one on `Path.key`, and two paths with one key are spellings of one path.
-/

set_option autoImplicit false

namespace Fanout.Path

/-- The sort key of a component: a rank, and for a name its code points. -/
def Component.key : Component → List Nat
  | .root => [0]
  | .here => [1]
  | .up => [2]
  | .name text => 3 :: text.map Char.toNat

/-- The sort key of a path. -/
def key (p : Path) : List (List Nat) := p.components.map Component.key

instance : Ord Path := ⟨fun p q => compare p.key q.key⟩

end Fanout.Path
