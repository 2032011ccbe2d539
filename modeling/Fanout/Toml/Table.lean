import Fanout.Toml.Value

/-!
# Filling tables

What may be added to a table, and what may not.

* `Toml.Value.inside` goes down a path of keys and changes the table it ends in.  Tables that are
  missing on the way are made; a list of tables stands for its last one.  By a dotted key a table
  with a header or braces cannot be entered, and nothing else that is no table by any way.
* `Toml.insertKey` adds a value under a dotted key: the key must be new in its table, and a table
  that the key goes through last must have come to be by dotted keys alone.
* `Toml.beginTable` and `Toml.beginItem` do what a header says.  A table has one header; dotted keys
  and braces count as one.

`Toml.fill` adds pairs to an empty table.
-/

set_option autoImplicit false

namespace Fanout.Toml

/-- What is done to a table, given how it came to be and its entries. -/
abbrev Change := Origin → Entries → Option Entries

def replaceKey (k : String) (v : Value) : Entries → Entries
  | [] => []
  | (key, old) :: rest =>
    if key = k then (key, v) :: rest else (key, old) :: replaceKey k v rest

/-- Changes the table at the end of a path of keys. -/
def inside (byDottedKey : Bool) (change : Change) : List String → Change
  | [] => change
  | k :: ks => fun _ entries =>
    match entries.lookup k with
    | none =>
      let origin := if byDottedKey then Origin.dotted else .implied
      (inside byDottedKey change ks origin []).map fun sub =>
        entries ++ [(k, .table origin sub)]
    | some (.table origin sub) =>
      if origin = .inline ∨ (byDottedKey ∧ origin = .header) then none
      else
        (inside byDottedKey change ks origin sub).map fun sub =>
          replaceKey k (.table origin sub) entries
    | some (.tables items) =>
      match items.reverse with
      | [] => none
      | last :: before =>
        (inside byDottedKey change ks .header last).map fun last =>
          replaceKey k (.tables (last :: before).reverse) entries
    | some _ => none

/-- Adds a value under a key of one part, reached by a key that has more parts or not. -/
def addValue (k : String) (v : Value) (reachedByDots : Bool) : Change := fun origin entries =>
  -- a table reached by dots must have come to be by dots, and any other must not
  if reachedByDots != (origin == .dotted) then none
  else if (entries.lookup k).isSome then none
  else some (entries ++ [(k, v)])

def insertKey (key : List String) (v : Value) : Change :=
  match key.reverse with
  | [] => fun _ _ => none
  | last :: before =>
    inside true (addValue last v (!before.isEmpty)) before.reverse

def addTable (k : String) : Change := fun _ entries =>
  match entries.lookup k with
  | none => some (entries ++ [(k, .table .header [])])
  | some (.table .implied sub) => some (replaceKey k (.table .header sub) entries)
  | some _ => none

/-- Adds an empty table to a list of tables. -/
def addItem (k : String) : Change := fun _ entries =>
  match entries.lookup k with
  | none => some (entries ++ [(k, .tables [[]])])
  | some (.tables items) => some (replaceKey k (.tables (items ++ [[]])) entries)
  | some _ => none

/-- Does something under the last part of a key, which is reached by the other parts. -/
def atLastPart (key : List String) (change : String → Change) : Change :=
  match key.reverse with
  | [] => fun _ _ => none
  | last :: before => inside false (change last) before.reverse

def beginTable (key : List String) : Change := atLastPart key addTable

def beginItem (key : List String) : Change := atLastPart key addItem

/-- Adds values under dotted keys to an empty table. -/
def fill (pairs : List (List String × Value)) : Option Entries :=
  pairs.foldlM (fun entries (key, v) => insertKey key v .header entries) []

end Fanout.Toml
