/-!
# JSON values

`Json` is a JSON document.  An object keeps its members in order.  A whole number is `int`; a number
written with a fraction or an exponent keeps its text, as `real`, since nothing here computes with
it.
-/

set_option autoImplicit false

namespace Fanout

inductive Json where
  | null
  | bool (b : Bool)
  | int (n : Int)
  | real (text : String)
  | str (s : String)
  | arr (items : List Json)
  | obj (members : List (String × Json))
  deriving Inhabited, Repr

namespace Json

def nat (n : Nat) : Json := .int (Int.ofNat n)

/-- The value, or null for none. -/
def orNull {α : Type} (write : α → Json) : Option α → Json
  | none => .null
  | some a => write a

/-- A member that is written only if there is a value. -/
def memberIfSome {α : Type} (name : String) (write : α → Json) : Option α → List (String × Json)
  | none => []
  | some a => [(name, write a)]

end Json

end Fanout
