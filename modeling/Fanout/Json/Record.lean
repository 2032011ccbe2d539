import Fanout.Json.Value
import Fanout.Path.Basic

/-!
# Records in JSON

How a record with named fields is read from JSON.

* As an object, its members come in any order, and no field twice.  A member that is no field is
  refused by a strict `RecordForm` and else skipped, however often it comes.
* As a list, it holds the fields in the order of the form; only fields at the end that have a
  default may be left out, and nothing may follow.

`RecordForm.read?` gives what was written for each field.  A required field must be written, an
optional one may be left out or null, and one with a default may be left out but not null.
-/

set_option autoImplicit false

namespace Fanout.Json

/-! ## Plain values -/

def bool? : Json → Option Bool
  | .bool b => some b
  | _ => none

def text? : Json → Option String
  | .str s => some s
  | _ => none

def path? : Json → Option Path
  | .str s => some ⟨s⟩
  | _ => none

/-- A natural number of at most so many bits. -/
def word? (bits : Nat) : Json → Option Nat
  | .int (.ofNat n) => if n < Nat.pow 2 bits then some n else none
  | _ => none

def list? {α : Type} (read : Json → Option α) : Json → Option (List α)
  | .arr items => items.mapM read
  | _ => none

/-- The name of a case that carries nothing: a text, or an object whose one member is null. -/
def case? : Json → Option String
  | .str name => some name
  | .obj [(name, .null)] => some name
  | _ => none

def ofPath (p : Path) : Json := .str p.spelling

def ofList {α : Type} (write : α → Json) (xs : List α) : Json := .arr (xs.map write)

/-! ## Records -/

/-- The fields of a record, in order. -/
structure RecordForm where
  fields : List String
  /-- How many fields at the end have a default. -/
  defaults : Nat
  /-- Whether a member that is no field is refused. -/
  strict : Bool

/-- What was written for each field. -/
abbrev Fields := String → Option Json

def distinct : List String → Bool
  | [] => true
  | name :: names => !names.contains name && distinct names

/-- Reads a record written as an object or as a list. -/
def RecordForm.read? (form : RecordForm) : Json → Option Fields
  | .obj members =>
    let names := members.map (·.1)
    if distinct (names.filter form.fields.contains) &&
        (!form.strict || names.all form.fields.contains) then
      some fun name => members.lookup name
    else none
  | .arr items =>
    if form.fields.length - form.defaults ≤ items.length ∧ items.length ≤ form.fields.length then
      some fun name => (form.fields.zip items).lookup name
    else none
  | _ => none

variable {α : Type}

def Fields.required (fields : Fields) (read : Json → Option α) (name : String) : Option α :=
  (fields name).bind read

/-- A field that may be left out or null. -/
def Fields.optional (fields : Fields) (read : Json → Option α) (name : String) :
    Option (Option α) :=
  match fields name with
  | none => some none
  | some .null => some none
  | some j => (read j).map some

/-- A field that may be left out. -/
def Fields.defaulted (fields : Fields) (read : Json → Option α) (default : α) (name : String) :
    Option α :=
  match fields name with
  | none => some default
  | some j => read j

end Fanout.Json
