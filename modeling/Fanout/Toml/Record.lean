import Fanout.Path.Basic
import Fanout.Toml.Value

/-!
# Records in TOML

How a record with named fields is read from TOML.

* As a table, its keys come in any order, and a key that is no field is refused.
* As a list, it holds the fields in order; only fields at the end that have a default may be left
  out, and what follows the last field is skipped.

TOML has no null, so an optional field is left out of a table to be none.
-/

set_option autoImplicit false

namespace Fanout.Toml

/-! ## Plain values -/

namespace Value

def bool? : Value → Option Bool
  | .bool b => some b
  | _ => none

def text? : Value → Option String
  | .text s => some s
  | _ => none

def path? : Value → Option Path
  | .text s => some ⟨s⟩
  | _ => none

def entries? : Value → Option Entries
  | .table _ entries => some entries
  | _ => none

def items? : Value → Option (List Value)
  | .array items => some items
  | .tables items => some (items.map (.table .header))
  | _ => none

/-- Whether a value is a table or a list and holds nothing. -/
def isEmptyCollection (v : Value) : Bool :=
  v.entries?.any (·.isEmpty) || v.items?.any (·.isEmpty)

/-- The name of a case that carries nothing: a text, or a table whose one key has an empty table or
list. -/
def case? : Value → Option String
  | .text name => some name
  | .table _ [(name, v)] => if v.isEmptyCollection then some name else none
  | _ => none

def list? {α : Type} (read : Value → Option α) (v : Value) : Option (List α) :=
  v.items?.bind (·.mapM read)

end Value

/-! ## Records -/

/-- What was written for each field. -/
abbrev Fields := String → Option Value

/-- Reads a record whose last fields, so many, have a default. -/
def record? (fields : List String) (defaults : Nat) (v : Value) : Option Fields :=
  match v.entries?, v.items? with
  | some entries, _ =>
    if entries.all fun (k, _) => fields.contains k then some fun name => entries.lookup name
    else none
  | none, some items =>
    if fields.length - defaults ≤ items.length then
      some fun name => (fields.zip items).lookup name
    else none
  | none, none => none

variable {α : Type}

def Fields.required (fields : Fields) (read : Value → Option α) (name : String) : Option α :=
  (fields name).bind read

/-- A field that may be left out. -/
def Fields.optional (fields : Fields) (read : Value → Option α) (name : String) :
    Option (Option α) :=
  match fields name with
  | none => some none
  | some v => (read v).map some

/-- A field that has a value where it is left out. -/
def Fields.defaulted (fields : Fields) (read : Value → Option α) (default : α) (name : String) :
    Option α :=
  match fields name with
  | none => some default
  | some v => read v

end Fanout.Toml
