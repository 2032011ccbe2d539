import Fanout.Toml.Scalar
import Fanout.Toml.Table

/-!
# TOML documents

A file is read in two stages.  `Toml.expressions` cuts it into its lines: headers of tables, headers
of list items, and values under keys.  `Toml.assemble` then fills the tables in the order of the
lines, a value going to the table of the latest header.  `Toml.parse?` is the two together; a byte
order mark at the start of the file is skipped.
-/

set_option autoImplicit false

namespace Fanout.Toml

open Text (Reader)

/-! ## Keys -/

def isBare (c : Char) : Bool := c.isAlphanum || c == '_' || c == '-'

def simpleKey : Reader String := fun cs =>
  match cs.takeWhile isBare with
  | [] => (singleLineString cs).map fun (k, rest) => (String.ofList k, rest)
  | bare => some (String.ofList bare, cs.dropWhile isBare)

/-- The parts of a key, by the given number of steps at most. -/
def keyParts : Nat → Reader (List String)
  | 0, _ => none
  | steps + 1, cs =>
    match simpleKey (skipBlanks cs) with
    | none => none
    | some (k, rest) =>
      match skipBlanks rest with
      | '.' :: rest => (keyParts steps rest).map fun (ks, rest) => (k :: ks, rest)
      | rest => some ([k], rest)

def key : Reader (List String) := keyParts maxDepth

/-! ## Values -/

mutual
/-- Drops blanks, line ends and comments at the start. -/
def skipGap : List Char → List Char
  | ' ' :: rest => skipGap rest
  | '\t' :: rest => skipGap rest
  | '\n' :: rest => skipGap rest
  | '\r' :: '\n' :: rest => skipGap rest
  | '#' :: rest => skipCommentGap rest
  | cs => cs

/-- Drops the rest of a comment, and the gap after it. -/
def skipCommentGap : List Char → List Char
  | '\n' :: rest => skipGap rest
  | '\r' :: '\n' :: rest => skipGap rest
  | c :: rest => if isPlain c then skipCommentGap rest else c :: rest
  | [] => []
end

/-- The items of a list after its bracket and a gap, by the given number of steps at most. -/
def arrayItems (item : Reader Value) : Nat → Reader (List Value)
  | 0, _ => none
  | _ + 1, ']' :: rest => some ([], rest)
  | steps + 1, cs =>
    match item cs with
    | none => none
    | some (v, rest) =>
      match skipGap rest with
      | ',' :: rest =>
        (arrayItems item steps (skipGap rest)).map fun (vs, rest) => (v :: vs, rest)
      | ']' :: rest => some ([v], rest)
      | _ => none

/-- A key, its sign, and a value, with the blanks between and after them. -/
def pair (item : Reader Value) : Reader (List String × Value) := fun cs =>
  match key cs with
  | some (k, '=' :: rest) =>
    (item (skipBlanks rest)).map fun (v, rest) => ((k, v), skipBlanks rest)
  | _ => none

/-- The pairs of a table between braces, of which there is at least one, by the given number of
steps at most. -/
def inlinePairs (item : Reader Value) : Nat → Reader (List (List String × Value))
  | 0, _ => none
  | steps + 1, cs =>
    match pair item cs with
    | some (p, ',' :: rest) => (inlinePairs item steps rest).map fun (ps, rest) => (p :: ps, rest)
    | some (p, '\x7d' :: rest) => some ([p], rest)
    | _ => none

def inlineTable (item : Reader Value) : Reader Value := fun cs =>
  match skipBlanks cs with
  | '\x7d' :: rest => some (.table .inline [], rest)
  | cs =>
    match inlinePairs item (cs.length + 1) cs with
    | none => none
    | some (pairs, rest) => (fill pairs).map fun entries => (.table .inline entries, rest)

/-- A date, a float or a whole number, whichever the text is. -/
def numberOrDate : Reader Value := fun cs =>
  -- a date begins with a whole number, and so does a float
  match dateTime cs with
  | some (d, rest) => some (.date d, rest)
  | none =>
    match float cs with
    | some (f, rest) => some (.float f, rest)
    | none => (integer cs).map fun (n, rest) => (.integer n, rest)

/-- A value with lists and tables at most so deep in it. -/
def value : Nat → Reader Value
  | depth, cs =>
    match cs with
    | 't' :: 'r' :: 'u' :: 'e' :: rest => some (.bool true, rest)
    | 'f' :: 'a' :: 'l' :: 's' :: 'e' :: rest => some (.bool false, rest)
    | '[' :: rest =>
      match depth with
      | 0 => none
      | depth + 1 =>
        let rest := skipGap rest
        (arrayItems (value depth) (rest.length + 1) rest).map fun (vs, rest) => (.array vs, rest)
    | '\x7b' :: rest =>
      match depth with
      | 0 => none
      | depth + 1 => inlineTable (value depth) rest
    | c :: rest =>
      if c = '"' ∨ c = apostrophe then
        (string (c :: rest)).map fun (s, rest) => (.text (String.ofList s), rest)
      else numberOrDate (c :: rest)
    | [] => none

/-! ## Lines -/

/-- What a line of a file says. -/
inductive Expression where
  | table (key : List String)
  | item (key : List String)
  | pair (key : List String) (v : Value)
  deriving Inhabited, Repr

/-- The end of a line: blanks, a comment, and a line end or the end of the file. -/
def lineEnd : Reader Unit := fun cs =>
  let rest :=
    match skipBlanks cs with
    | '#' :: rest => rest.dropWhile isPlain
    | rest => rest
  match rest with
  | [] => some ((), [])
  | _ => newline rest

def itemHeader : Reader Expression := fun cs =>
  match key cs with
  | some (k, ']' :: ']' :: rest) => (lineEnd rest).map fun (_, rest) => (.item k, rest)
  | _ => none

def tableHeader : Reader Expression := fun cs =>
  match key cs with
  | some (k, ']' :: rest) => (lineEnd rest).map fun (_, rest) => (.table k, rest)
  | _ => none

def pairLine : Reader Expression := fun cs =>
  match pair (value maxDepth) cs with
  | none => none
  | some ((k, v), rest) => (lineEnd rest).map fun (_, rest) => (.pair k v, rest)

/-- A line, if it says something. -/
def line : Reader (Option Expression) := fun cs =>
  match skipBlanks cs with
  | '[' :: '[' :: rest => (itemHeader rest).map fun (e, rest) => (some e, rest)
  | '[' :: rest => (tableHeader rest).map fun (e, rest) => (some e, rest)
  | [] => some (none, [])
  | c :: rest =>
    if c == '#' || c == '\n' || c == '\r' then
      (lineEnd (c :: rest)).map fun (_, rest) => (none, rest)
    else (pairLine (c :: rest)).map fun (e, rest) => (some e, rest)

def expressions : Nat → List Char → Option (List Expression)
  | _, [] => some []
  | 0, _ => none
  | steps + 1, cs =>
    match line cs with
    | none => none
    | some (e, rest) => (expressions steps rest).map (e.toList ++ ·)

/-! ## Files -/

/-- A file being read: the key of the latest header, and what was filled in. -/
structure Filling where
  current : List String := []
  entries : Entries := []
  deriving Inhabited

/-- Fills in what one line says. -/
def Filling.step (f : Filling) : Expression → Option Filling
  | .table k => (beginTable k .header f.entries).map (⟨k, ·⟩)
  | .item k => (beginItem k .header f.entries).map (⟨k, ·⟩)
  | .pair k v =>
    (inside false (insertKey k v) f.current .header f.entries).map (⟨f.current, ·⟩)

/-- The table that the lines of a file describe. -/
def assemble (lines : List Expression) : Option Entries :=
  (lines.foldlM Filling.step {}).map (·.entries)

/-- The characters of a file without its byte order mark. -/
def withoutMark : List Char → List Char
  | c :: rest => if c.toNat = 0xFEFF then rest else c :: rest
  | [] => []

/-- The table that a file describes. -/
def parse? (text : String) : Option Entries :=
  let cs := withoutMark text.toList
  (expressions cs.length cs).bind assemble

end Fanout.Toml
