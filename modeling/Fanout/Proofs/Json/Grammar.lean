import Fanout.Json.Reader
import Fanout.Json.Writer

/-!
# The grammar of JSON

`Spells t j` says that the text `t` is a JSON text of the value `j`, as the grammar of JSON builds
it.  Neither the writer nor the reader has a part in it beyond the tables of escapes and digits.  An
element is a value with blanks around it; lists, members and whole documents are made of elements.

* `spells_write`: what the writer writes spells the value, in every layout that only adds blanks.
* `isDocument_pretty` and `isDocument_compact`: so both layouts give JSON documents.

A value is `Proper` if every number in it that is kept as text is one.  All values without such
numbers are.
-/

set_option autoImplicit false

namespace Fanout.Json

open Text (ofHex? ofDigits hexValue? scalar?)

/-! ## Tokens -/

/-- A text of blanks. -/
def Blanks (t : List Char) : Prop := ∀ c ∈ t, isBlank c = true

/-- A text that stands for one character of a string. -/
inductive SpellsChar : List Char → Char → Prop
  | plain {c : Char} (visible : 32 ≤ c.toNat) (notQuote : c ≠ '"') (notBackslash : c ≠ '\\') :
      SpellsChar [c] c
  | short {e c : Char} (known : shortEscape? e = some c) : SpellsChar ['\\', e] c
  | unit {a b c d ch : Char} {n : Nat} (hex : ofHex? [a, b, c, d] = some n)
      (scalar : scalar? n = some ch) : SpellsChar ['\\', 'u', a, b, c, d] ch
  /-- A character outside the basic plane is a pair of surrogates. -/
  | pair {a b c d e f g h : Char} {high low : Nat} (hex : ofHex? [a, b, c, d] = some high)
      (isHigh : 0xD800 ≤ high ∧ high < 0xDC00) (hex' : ofHex? [e, f, g, h] = some low)
      (isLow : 0xDC00 ≤ low ∧ low < 0xE000) :
      SpellsChar ['\\', 'u', a, b, c, d, '\\', 'u', e, f, g, h]
        (Char.ofNat (0x10000 + (high - 0xD800) * 0x400 + (low - 0xDC00)))

/-- A text that stands for a string, between its quotes. -/
inductive SpellsText : List Char → List Char → Prop
  | nil : SpellsText [] []
  | cons {t ts : List Char} {c : Char} {cs : List Char} :
      SpellsChar t c → SpellsText ts cs → SpellsText (t ++ ts) (c :: cs)

/-- A text that stands for a number. -/
inductive SpellsNumber : List Char → Json → Prop
  | natural {ds : List Char} (digits : isNatural ds = true) : SpellsNumber ds (.nat (ofDigits ds))
  | negative {ds : List Char} (digits : isNatural ds = true) (nonzero : ofDigits ds ≠ 0) :
      SpellsNumber ('-' :: ds) (.int (-(ofDigits ds : Int)))
  /-- A number with a fraction or an exponent, or a zero with a sign, is kept as it is spelled. -/
  | real {sign ds rest : List Char} (signed : sign = [] ∨ sign = ['-'])
      (digits : isNatural ds = true) (tail : isFractionOrExponent rest = true)
      (notWhole : rest ≠ [] ∨ sign = ['-'] ∧ ofDigits ds = 0) :
      SpellsNumber (sign ++ (ds ++ rest)) (.real (String.ofList (sign ++ (ds ++ rest))))

/-! ## Values -/

mutual
/-- A text that stands for a value. -/
inductive Spells : List Char → Json → Prop
  | null : Spells ['n', 'u', 'l', 'l'] .null
  | yes : Spells ['t', 'r', 'u', 'e'] (.bool true)
  | no : Spells ['f', 'a', 'l', 's', 'e'] (.bool false)
  | number {t : List Char} {j : Json} : SpellsNumber t j → Spells t j
  | text {t cs : List Char} :
      SpellsText t cs → Spells ('"' :: (t ++ ['"'])) (.str (String.ofList cs))
  | noItems {b : List Char} : Blanks b → Spells ('[' :: (b ++ [']'])) (.arr [])
  | items {t : List Char} {js : List Json} :
      SpellsItems t js → Spells ('[' :: (t ++ [']'])) (.arr js)
  | noMembers {b : List Char} : Blanks b → Spells ('{' :: (b ++ ['}'])) (.obj [])
  | members {t : List Char} {ms : List (String × Json)} :
      SpellsMembers t ms → Spells ('{' :: (t ++ ['}'])) (.obj ms)

/-- A text that stands for a value, with blanks around it. -/
inductive SpellsElement : List Char → Json → Prop
  | mk {b t b' : List Char} {j : Json} :
      Blanks b → Spells t j → Blanks b' → SpellsElement (b ++ (t ++ b')) j

/-- A text that stands for one or more items, with commas between them. -/
inductive SpellsItems : List Char → List Json → Prop
  | one {t : List Char} {j : Json} : SpellsElement t j → SpellsItems t [j]
  | more {t ts : List Char} {j : Json} {js : List Json} :
      SpellsElement t j → SpellsItems ts js → SpellsItems (t ++ ',' :: ts) (j :: js)

/-- A text that stands for a name, a colon and a value. -/
inductive SpellsMember : List Char → String × Json → Prop
  | mk {b n cs b' t : List Char} {j : Json} :
      Blanks b → SpellsText n cs → Blanks b' → SpellsElement t j →
        SpellsMember (b ++ '"' :: (n ++ '"' :: (b' ++ ':' :: t))) (String.ofList cs, j)

/-- A text that stands for one or more members, with commas between them. -/
inductive SpellsMembers : List Char → List (String × Json) → Prop
  | one {t : List Char} {m : String × Json} : SpellsMember t m → SpellsMembers t [m]
  | more {t ts : List Char} {m : String × Json} {ms : List (String × Json)} :
      SpellsMember t m → SpellsMembers ts ms → SpellsMembers (t ++ ',' :: ts) (m :: ms)
end

/-- A whole text that is one JSON value, with blanks around it. -/
def IsDocument (text : String) (j : Json) : Prop := SpellsElement text.toList j

/-! ## What is written: tokens -/

theorem hexValue?_hexDigit {d : Nat} (h : d < 16) : hexValue? (hexDigit d) = some d := by
  have hall : ∀ d < 16, hexValue? (hexDigit d) = some d := by decide
  exact hall d h

theorem isDigit_hexDigit {d : Nat} (h : d < 10) : (hexDigit d).isDigit = true := by
  have hall : ∀ d < 10, (hexDigit d).isDigit = true := by decide
  exact hall d h

theorem toNat_hexDigit {d : Nat} (h : d < 10) : (hexDigit d).toNat - 48 = d := by
  have hall : ∀ d < 10, (hexDigit d).toNat - 48 = d := by decide
  exact hall d h

theorem hexDigit_ne_zero {d : Nat} (h : d < 10) (h0 : d ≠ 0) : hexDigit d ≠ '0' := by
  have hall : ∀ d < 10, d ≠ 0 → hexDigit d ≠ '0' := by decide
  exact hall d h h0

theorem spellsChar_escaped (c : Char) : SpellsChar (escaped c) c := by
  unfold escaped
  split
  · rename_i h
    subst h
    exact .short rfl
  split
  · rename_i h
    subst h
    exact .short rfl
  -- the short escapes give the character with the code point
  have hshort : ∀ {e : Char} {n : Nat}, shortEscape? e = some (Char.ofNat n) → c.toNat = n →
      SpellsChar ['\\', e] c := by
    intro e n he hn
    rw [← hn, Char.ofNat_toNat] at he
    exact .short he
  split
  · exact hshort rfl ‹_›
  split
  · exact hshort rfl ‹_›
  split
  · exact hshort rfl ‹_›
  split
  · exact hshort rfl ‹_›
  split
  · exact hshort rfl ‹_›
  split
  · rename_i hlt
    have hhigh : hexValue? (hexDigit (c.toNat / 16)) = some (c.toNat / 16) :=
      hexValue?_hexDigit (by omega)
    have hlow : hexValue? (hexDigit (c.toNat % 16)) = some (c.toNat % 16) :=
      hexValue?_hexDigit (by omega)
    have hzero : hexValue? '0' = some 0 := rfl
    have hcode : c.toNat / 16 * 16 + c.toNat % 16 = c.toNat := by omega
    refine .unit (n := c.toNat) ?_ ?_
    · simp [ofHex?, hhigh, hlow, hzero, hcode]
    · have hvalid : c.toNat.isValidChar := c.valid
      rw [scalar?, if_pos hvalid, Char.ofNat_toNat]
  · rename_i hquote hbackslash _ _ _ _ _ hlt
    exact .plain (by omega) hquote hbackslash

theorem spellsText_flatMap (cs : List Char) : SpellsText (cs.flatMap escaped) cs := by
  induction cs with
  | nil => exact .nil
  | cons c cs ih => exact .cons (spellsChar_escaped c) ih

theorem spells_quoted (s : String) : Spells (quoted s) (.str s) := by
  have h := Spells.text (spellsText_flatMap s.toList)
  rwa [String.ofList_toList] at h

theorem decimal_all_digits (n : Nat) : ∀ c ∈ decimal n, c.isDigit = true := by
  induction n using Nat.strongRecOn with
  | ind n ih =>
    intro c hc
    rw [decimal] at hc
    split at hc
    · rename_i hlt
      rw [List.mem_singleton] at hc
      exact hc ▸ isDigit_hexDigit hlt
    · rcases List.mem_append.mp hc with hc | hc
      · exact ih (n / 10) (by omega) c hc
      · rw [List.mem_singleton] at hc
        exact hc ▸ isDigit_hexDigit (by omega)

theorem ofDigits_decimal (n : Nat) : ofDigits (decimal n) = n := by
  induction n using Nat.strongRecOn with
  | ind n ih =>
    rw [decimal]
    split
    · rename_i hlt
      simp [ofDigits, toNat_hexDigit hlt]
    · have hprefix := ih (n / 10) (by omega)
      unfold ofDigits at hprefix ⊢
      rw [List.foldl_append, hprefix, List.foldl_cons, List.foldl_nil, toNat_hexDigit (by omega)]
      omega

/-- A number other than zero does not start with a zero. -/
theorem decimal_eq_cons {n : Nat} (h : n ≠ 0) : ∃ c cs, decimal n = c :: cs ∧ c ≠ '0' := by
  induction n using Nat.strongRecOn with
  | ind n ih =>
    rw [decimal]
    split
    · rename_i hlt
      exact ⟨_, [], rfl, hexDigit_ne_zero hlt h⟩
    · obtain ⟨c, cs, hcs, hc⟩ := ih (n / 10) (by omega) (by omega)
      exact ⟨c, cs ++ [hexDigit (n % 10)], by rw [hcs, List.cons_append], hc⟩

theorem isNatural_decimal (n : Nat) : isNatural (decimal n) = true := by
  by_cases h : n = 0
  · subst h
    rw [decimal]
    rfl
  · obtain ⟨c, cs, hcs, hc⟩ := decimal_eq_cons h
    have hall := decimal_all_digits n
    rw [hcs] at hall ⊢
    have hdigits : isDigits (c :: cs) = true := by simpa [isDigits] using hall
    unfold isNatural
    split
    · rfl
    · rename_i heq
      cases heq
      simp [hc, hdigits]
    · rename_i heq
      cases heq

theorem spellsNumber_integer (n : Int) : SpellsNumber (integer n) (.int n) := by
  cases n with
  | ofNat n =>
    have h := SpellsNumber.natural (isNatural_decimal n)
    rwa [ofDigits_decimal] at h
  | negSucc n =>
    have h := SpellsNumber.negative (isNatural_decimal (n + 1)) (by rw [ofDigits_decimal]; omega)
    rwa [ofDigits_decimal] at h

/-! ## What is written: values -/

mutual
/-- Every number that is kept as text is one. -/
def Proper : Json → Prop
  | .real text => SpellsNumber text.toList (.real text)
  | .arr items => ProperItems items
  | .obj members => ProperMembers members
  | .null | .bool _ | .int _ | .str _ => True

def ProperItems : List Json → Prop
  | [] => True
  | j :: js => Proper j ∧ ProperItems js

def ProperMembers : List (String × Json) → Prop
  | [] => True
  | (_, j) :: ms => Proper j ∧ ProperMembers ms
end

/-- A layout that adds nothing but blanks. -/
structure Layout.Blank (l : Layout) : Prop where
  lineBreak (depth : Nat) : Blanks (l.lineBreak depth)
  colon : ∃ b, l.colon = ':' :: b ∧ Blanks b

theorem blanks_nil : Blanks [] := List.forall_mem_nil _

theorem Spells.element {b t : List Char} {j : Json} (hb : Blanks b) (h : Spells t j) :
    SpellsElement (b ++ t) j := by
  have h := SpellsElement.mk hb h blanks_nil
  rwa [List.append_nil] at h

/-- More blanks may follow an element. -/
theorem SpellsElement.append_blanks {t b : List Char} {j : Json} (h : SpellsElement t j)
    (hb : Blanks b) : SpellsElement (t ++ b) j := by
  cases h with
  | mk h ht h' =>
    rw [List.append_assoc, List.append_assoc]
    exact .mk h ht (List.forall_mem_append.mpr ⟨h', hb⟩)

/-- Blanks may follow a member. -/
theorem SpellsMember.append_blanks {t b : List Char} {m : String × Json} (h : SpellsMember t m)
    (hb : Blanks b) : SpellsMember (t ++ b) m := by
  cases h with
  | mk h hn h' ht =>
    have h := SpellsMember.mk h hn h' (ht.append_blanks hb)
    simpa using h

theorem Layout.indented_blank : Layout.indented.Blank where
  lineBreak depth := by
    intro c hc
    rcases List.mem_cons.mp hc with rfl | hc
    · rfl
    · exact List.eq_of_mem_replicate hc ▸ rfl
  colon := ⟨[' '], rfl, List.forall_mem_singleton.mpr rfl⟩

theorem Layout.dense_blank : Layout.dense.Blank where
  lineBreak _ := blanks_nil
  colon := ⟨[], rfl, blanks_nil⟩

section Write

variable {l : Layout} (hl : l.Blank)

include hl

theorem spellsMember_write (name : String) {b t : List Char} {j : Json} (hb : Blanks b)
    (ht : Spells t j) : SpellsMember (b ++ quoted name ++ l.colon ++ t) (name, j) := by
  obtain ⟨b', hcolon, hb'⟩ := hl.colon
  have h := SpellsMember.mk hb (spellsText_flatMap name.toList) blanks_nil (ht.element hb')
  rw [String.ofList_toList] at h
  simpa [quoted, hcolon] using h

mutual
/-- **What is written spells the value.** -/
theorem spells_write (depth : Nat) : ∀ j : Json, j.Proper → Spells (write l depth j) j
  | .null, _ => .null
  | .bool true, _ => .yes
  | .bool false, _ => .no
  | .int n, _ => .number (spellsNumber_integer n)
  | .real _, h => .number h
  | .str s, _ => spells_quoted s
  | .arr [], _ => .noItems blanks_nil
  | .arr (item :: items), h => by
    have hfirst := (spells_write (depth + 1) item h.1).element (hl.lineBreak (depth + 1))
    obtain ⟨t, ht, hspells⟩ := spells_writeItems depth items h.2 hfirst
    rw [write, List.cons_append, ht]
    exact .items hspells
  | .obj [], _ => .noMembers blanks_nil
  | .obj ((name, item) :: members), h => by
    have hfirst := spellsMember_write hl name (hl.lineBreak (depth + 1))
      (spells_write (depth + 1) item h.1)
    obtain ⟨t, ht, hspells⟩ := spells_writeMembers depth members h.2 hfirst
    rw [write, List.cons_append, ht]
    exact .members hspells

/-- An item and those after it, up to the closing bracket. -/
theorem spells_writeItems (depth : Nat) : ∀ (js : List Json), ProperItems js →
    ∀ {t : List Char} {j : Json}, SpellsElement t j →
      ∃ t', t ++ writeItems l depth js = t' ++ [']'] ∧ SpellsItems t' (j :: js)
  | [], _, t, _, ht => by
    refine ⟨t ++ l.lineBreak depth, ?_, .one (ht.append_blanks (hl.lineBreak depth))⟩
    rw [writeItems, List.append_assoc]
  | item :: js, h, t, _, ht => by
    have hnext := (spells_write (depth + 1) item h.1).element (hl.lineBreak (depth + 1))
    obtain ⟨t', ht', hspells⟩ := spells_writeItems depth js h.2 hnext
    refine ⟨t ++ ',' :: t', ?_, .more ht hspells⟩
    rw [writeItems, List.cons_append, ht', List.append_assoc, List.cons_append]

/-- A member and those after it, up to the closing brace. -/
theorem spells_writeMembers (depth : Nat) : ∀ (ms : List (String × Json)), ProperMembers ms →
    ∀ {t : List Char} {m : String × Json}, SpellsMember t m →
      ∃ t', t ++ writeMembers l depth ms = t' ++ ['}'] ∧ SpellsMembers t' (m :: ms)
  | [], _, t, _, ht => by
    refine ⟨t ++ l.lineBreak depth, ?_, .one (ht.append_blanks (hl.lineBreak depth))⟩
    rw [writeMembers, List.append_assoc]
  | (name, item) :: ms, h, t, _, ht => by
    have hnext := spellsMember_write hl name (hl.lineBreak (depth + 1))
      (spells_write (depth + 1) item h.1)
    obtain ⟨t', ht', hspells⟩ := spells_writeMembers depth ms h.2 hnext
    refine ⟨t ++ ',' :: t', ?_, .more ht hspells⟩
    rw [writeMembers, List.cons_append, ht', List.append_assoc, List.cons_append]
end

end Write

theorem isDocument_write {l : Layout} (hl : l.Blank) {j : Json} (h : j.Proper) :
    IsDocument (String.ofList (write l 0 j)) j := by
  unfold IsDocument
  rw [String.toList_ofList]
  exact (spells_write hl 0 j h).element blanks_nil

theorem isDocument_pretty {j : Json} (h : j.Proper) : IsDocument j.pretty j :=
  isDocument_write Layout.indented_blank h

theorem isDocument_compact {j : Json} (h : j.Proper) : IsDocument j.compact j :=
  isDocument_write Layout.dense_blank h

end Fanout.Json
