import Fanout.Text.Reader
import Fanout.Toml.Value

/-!
# Strings, numbers and dates in TOML

* `Toml.string` reads the four kinds of string.  Between single quotes a character stands for
  itself; between double quotes a backslash starts an escape.  The kinds with three quotes may run
  over several lines, a line end right after the opening is dropped, and a backslash at the end of a
  line joins it to the next text; up to two quotes more may stand before the closing three.
* `Toml.integer` reads whole numbers of 64 bits in base 10, 16, 8 and 2.
* `Toml.float` reads floats; one that exceeds the largest double is refused.
* `Toml.dateTime` reads dates and times, with or without the other and an offset.
-/

set_option autoImplicit false

namespace Fanout.Toml

open Text (Reader ofHex? ofDigits scalar? consed)

/-! ## Characters -/

def isBlank (c : Char) : Bool := c == ' ' || c == '\t'

def skipBlanks (cs : List Char) : List Char := cs.dropWhile isBlank

/-- The quote that strings without escapes stand in. -/
def apostrophe : Char := Char.ofNat 39

/-- The characters that may stand in comments and strings as they are. -/
def isPlain (c : Char) : Bool := c == '\t' || (' ' ≤ c && c != Char.ofNat 0x7F)

def newline : Reader Unit
  | '\n' :: rest => some ((), rest)
  | '\r' :: '\n' :: rest => some ((), rest)
  | _ => none

def skipBlankLines : List Char → List Char
  | ' ' :: rest => skipBlankLines rest
  | '\t' :: rest => skipBlankLines rest
  | '\n' :: rest => skipBlankLines rest
  | '\r' :: '\n' :: rest => skipBlankLines rest
  | cs => cs

/-! ## Strings -/

/-- What follows a backslash: an escape, and the character it stands for. -/
def escape : Reader Char
  | 'b' :: rest => some (Char.ofNat 8, rest)
  | 't' :: rest => some ('\t', rest)
  | 'n' :: rest => some ('\n', rest)
  | 'f' :: rest => some (Char.ofNat 12, rest)
  | 'r' :: rest => some ('\r', rest)
  | '"' :: rest => some ('"', rest)
  | '\\' :: rest => some ('\\', rest)
  | 'u' :: a :: b :: c :: d :: rest =>
    ((ofHex? [a, b, c, d]).bind scalar?).map fun c => (c, rest)
  | 'U' :: a :: b :: c :: d :: e :: f :: g :: h :: rest =>
    ((ofHex? [a, b, c, d, e, f, g, h]).bind scalar?).map fun c => (c, rest)
  | _ => none

/-- The text up to a closing double quote, by the given number of steps at most. -/
def basicBody : Nat → Reader (List Char)
  | 0, _ => none
  | _ + 1, [] => none
  | _ + 1, '"' :: rest => some ([], rest)
  | steps + 1, '\\' :: rest =>
    match escape rest with
    | none => none
    | some (c, rest) => consed c (basicBody steps rest)
  | steps + 1, c :: rest => if isPlain c then consed c (basicBody steps rest) else none

def literalBody : Reader (List Char)
  | [] => none
  | c :: rest =>
    if c = apostrophe then some ([], rest)
    else if isPlain c then consed c (literalBody rest)
    else none

/-- The number of quotes that text at some place starts with, at most five. -/
def quoteRun (q : Char) (cs : List Char) : Nat := ((cs.take 5).takeWhile (· == q)).length

/-- The text up to three closing double quotes, by the given number of steps at most. -/
def multilineBasicBody : Nat → Reader (List Char)
  | 0, _ => none
  | _ + 1, [] => none
  | steps + 1, c :: rest =>
    if c = '"' then
      let quotes := quoteRun '"' (c :: rest)
      -- the last three of a run close the string, those before them are text
      if quotes < 3 then consed c (multilineBasicBody steps rest)
      else some (List.replicate (quotes - 3) c, (c :: rest).drop quotes)
    else if c = '\\' then
      match newline (skipBlanks rest) with
      | some (_, rest) => multilineBasicBody steps (skipBlankLines rest)
      | none =>
        match escape rest with
        | none => none
        | some (c, rest) => consed c (multilineBasicBody steps rest)
    else if isPlain c then consed c (multilineBasicBody steps rest)
    else
      match newline (c :: rest) with
      | some (_, rest) => consed '\n' (multilineBasicBody steps rest)
      | none => none

def multilineLiteralBody : Nat → Reader (List Char)
  | 0, _ => none
  | _ + 1, [] => none
  | steps + 1, c :: rest =>
    if c = apostrophe then
      let quotes := quoteRun apostrophe (c :: rest)
      if quotes < 3 then consed c (multilineLiteralBody steps rest)
      else some (List.replicate (quotes - 3) c, (c :: rest).drop quotes)
    else if isPlain c then consed c (multilineLiteralBody steps rest)
    else
      match newline (c :: rest) with
      | some (_, rest) => consed '\n' (multilineLiteralBody steps rest)
      | none => none

def skipNewline (cs : List Char) : List Char :=
  match newline cs with
  | some (_, rest) => rest
  | none => cs

def singleLineString : Reader (List Char)
  | [] => none
  | c :: rest =>
    if c = '"' then basicBody (rest.length + 1) rest
    else if c = apostrophe then literalBody rest
    else none

def string : Reader (List Char) := fun cs =>
  let rest := skipNewline (cs.drop 3)
  if 3 ≤ quoteRun '"' cs then multilineBasicBody (rest.length + 1) rest
  else if 3 ≤ quoteRun apostrophe cs then multilineLiteralBody (rest.length + 1) rest
  else singleLineString cs

/-! ## Numbers -/

/-- Digits of some kind, of which any but the first may have an underscore before it. -/
def moreDigits (isDigit : Char → Bool) : List Char → List Char × List Char
  | '_' :: c :: rest =>
    if isDigit c then
      let (cs, rest) := moreDigits isDigit rest
      (c :: cs, rest)
    else ([], '_' :: c :: rest)
  | c :: rest =>
    if isDigit c then
      let (cs, rest) := moreDigits isDigit rest
      (c :: cs, rest)
    else ([], c :: rest)
  | [] => ([], [])

def digits (isDigit : Char → Bool) : Reader (List Char)
  | [] => none
  | c :: rest =>
    if isDigit c then
      let (cs, rest) := moreDigits isDigit rest
      some (c :: cs, rest)
    else none

/-- A sign, if there is one, and whether it is a minus. -/
def sign : List Char → Bool × List Char
  | '-' :: rest => (true, rest)
  | '+' :: rest => (false, rest)
  | cs => (false, cs)

/-- A natural number without a zero before other digits. -/
def natural : Reader (List Char)
  | '0' :: rest => some (['0'], rest)
  | cs => digits Char.isDigit cs

/-- Whether a digit exists in a base of at most sixteen. -/
def isDigitOf (base : Nat) (c : Char) : Bool := (Text.hexValue? c).any (· < base)

/-- The number that digits write in a base. -/
def ofDigitsIn (base : Nat) (cs : List Char) : Nat :=
  cs.foldl (fun n c => n * base + (Text.hexValue? c).getD 0) 0

/-- A whole number that fits 64 bits. -/
def word? (n : Int) : Option Int :=
  if -Int.pow 2 63 ≤ n ∧ n < Int.pow 2 63 then some n else none

/-- A whole number in a base, after what announces the base. -/
def integerIn (base : Nat) : Reader Int := fun cs =>
  match digits (isDigitOf base) cs with
  | none => none
  | some (ds, rest) => (word? (ofDigitsIn base ds)).map fun n => (n, rest)

def integer : Reader Int
  | '0' :: 'x' :: rest => integerIn 16 rest
  | '0' :: 'o' :: rest => integerIn 8 rest
  | '0' :: 'b' :: rest => integerIn 2 rest
  | cs =>
    let (negative, rest) := sign cs
    match natural rest with
    | none => none
    | some (ds, rest) =>
      let n : Int := ofDigits ds
      (word? (if negative then -n else n)).map fun n => (n, rest)

/-- An exponent, with the value of it. -/
def exponent : Reader Int
  | [] => none
  | e :: cs =>
    if e == 'e' || e == 'E' then
      let (negative, cs) := sign cs
      match digits Char.isDigit cs with
      | none => none
      | some (ds, rest) =>
        let n : Int := ofDigits ds
        some (if negative then -n else n, rest)
    else none

/-- The least number that rounds to something above every double. -/
def overflowBound : Nat := Nat.pow 2 1024 - Nat.pow 2 970

/-- Whether digits times a power of ten exceed every double when rounded. -/
def overflows (ds : List Char) (power : Int) : Bool :=
  let ds := ds.dropWhile (· == '0')
  let size : Int := ds.length + power
  -- the largest double has 309 digits before the point
  if ds.isEmpty || size ≤ 308 then false
  else if 310 ≤ size then true
  else if 0 ≤ power then overflowBound ≤ ofDigits ds * Nat.pow 10 power.toNat
  else overflowBound * Nat.pow 10 (-power).toNat ≤ ofDigits ds

/-- The digits of a fraction, after the point. -/
def fraction : Reader (List Char)
  | '.' :: rest => digits Char.isDigit rest
  | _ => none

/-- A float with a fraction, an exponent or both: its sign, digits and power of ten. -/
def finiteFloat : Reader (Bool × List Char × Int) := fun cs =>
  let (negative, rest) := sign cs
  match natural rest with
  | none => none
  | some (whole, rest) =>
    match fraction rest with
    | some (part, rest) =>
      let power : Int := -part.length
      match exponent rest with
      | some (e, rest) => some ((negative, whole ++ part, power + e), rest)
      | none => some ((negative, whole ++ part, power), rest)
    | none => (exponent rest).map fun (e, rest) => ((negative, whole, e), rest)

/-- The part of a text that a reader took. -/
def taken (cs rest : List Char) : String := String.ofList (cs.take (cs.length - rest.length))

/-- A float; infinity and what is not a number have names. -/
def float : Reader String := fun cs =>
  match finiteFloat cs with
  | some ((negative, ds, power), rest) =>
    -- one that lies below every double is taken
    if !negative && overflows ds power then none else some (taken cs rest, rest)
  | none =>
    match (sign cs).2 with
    | 'i' :: 'n' :: 'f' :: rest => some (taken cs rest, rest)
    | 'n' :: 'a' :: 'n' :: rest => some (taken cs rest, rest)
    | _ => none

/-! ## Dates and times -/

/-- A number of exactly so many digits within bounds. -/
def fixed (count low high : Nat) : Reader Nat := fun cs =>
  let ds := cs.take count
  let n := ofDigits ds
  if ds.length = count ∧ ds.all Char.isDigit ∧ low ≤ n ∧ n ≤ high then some (n, cs.drop count)
  else none

def exactly (c : Char) : Reader Unit
  | d :: rest => if c = d then some ((), rest) else none
  | [] => none

def daysIn (year month : Nat) : Nat :=
  if month = 2 then
    if year % 4 = 0 ∧ (year % 100 ≠ 0 ∨ year % 400 = 0) then 29 else 28
  else if month = 4 ∨ month = 6 ∨ month = 9 ∨ month = 11 then 30
  else 31

def fullDate : Reader Unit := fun cs => do
  let (year, cs) ← fixed 4 0 9999 cs
  let (_, cs) ← exactly '-' cs
  let (month, cs) ← fixed 2 1 12 cs
  let (_, cs) ← exactly '-' cs
  let (_, cs) ← fixed 2 1 (daysIn year month) cs
  return ((), cs)

/-- A fraction of a second, if there is one. -/
def secondFraction (cs : List Char) : List Char :=
  match cs with
  | '.' :: d :: rest => if d.isDigit then rest.dropWhile Char.isDigit else cs
  | _ => cs

def partialTime : Reader Unit := fun cs => do
  let (_, cs) ← fixed 2 0 23 cs
  let (_, cs) ← exactly ':' cs
  let (_, cs) ← fixed 2 0 59 cs
  let (_, cs) ← exactly ':' cs
  let (_, cs) ← fixed 2 0 60 cs
  return ((), secondFraction cs)

def numericOffset : Reader Unit := fun cs => do
  let (_, cs) ← fixed 2 0 23 cs
  let (_, cs) ← exactly ':' cs
  let (_, cs) ← fixed 2 0 59 cs
  return ((), cs)

/-- An offset from universal time, if there is one. -/
def timeOffset (cs : List Char) : List Char :=
  match cs with
  | [] => cs
  | c :: rest =>
    if c == 'Z' || c == 'z' then rest
    else if c == '+' || c == '-' then
      match numericOffset rest with
      | some (_, rest) => rest
      | none => cs
    else cs

/-- The time of day and the offset after a date, if they are there. -/
def timeAfterDate (cs : List Char) : List Char :=
  match cs with
  | [] => cs
  | c :: rest =>
    if c == 'T' || c == 't' || c == ' ' then
      match partialTime rest with
      | some (_, rest) => timeOffset rest
      | none => cs
    else cs

/-- A date with or without a time, or a time. -/
def dateTime : Reader String := fun cs =>
  match fullDate cs with
  | some (_, rest) =>
    let rest := timeAfterDate rest
    some (taken cs rest, rest)
  | none => (partialTime cs).map fun (_, rest) => (taken cs rest, rest)

end Fanout.Toml
