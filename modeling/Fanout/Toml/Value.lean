/-!
# TOML values

`Toml.Value` is what a TOML file says.  Beside what it holds, a table keeps how it came to be, its
`Origin`, since the rules on what may be added to a table depend on that.  Floats and dates keep
their text: nothing here computes with them.
-/

set_option autoImplicit false

namespace Fanout.Toml

/-- How a table came to be. -/
inductive Origin where
  /-- By a header of its own, or as the whole file. -/
  | header
  /-- As something that a header of a table further inside goes through. -/
  | implied
  /-- As something that a dotted key goes through. -/
  | dotted
  /-- Between braces; nothing may be added to it. -/
  | inline
  deriving DecidableEq, Repr

inductive Value where
  | text (s : String)
  | integer (n : Int)
  | float (text : String)
  | bool (b : Bool)
  | date (text : String)
  /-- A list between brackets. -/
  | array (items : List Value)
  /-- A list of tables, each begun by a header in double brackets. -/
  | tables (items : List (List (String × Value)))
  | table (origin : Origin) (entries : List (String × Value))
  deriving Inhabited, Repr

abbrev Entries := List (String × Value)

/-- The deepest nesting of lists and tables inside a value, and the longest dotted key. -/
def maxDepth : Nat := 79

end Fanout.Toml
