import Fanout.Proofs.Json.Grammar
import Mathlib.Data.List.TakeWhile

/-!
# Reading JSON documents

The reader reads every text that the grammar knows, as the value that the text spells.

* `stringBody_of_spells` and `number_of_spells` are about tokens.  A number has no end of its own,
  so what follows it must not go on with it (`Ends`).
* `reads`: with enough steps for the length of the text, the readers of elements, items and members
  take exactly the text that is spelled.  Each calls the others with one step less, so one induction
  on the steps carries all three.

The main result is `parse?_of_isDocument`.  Written values are documents, so reading gives them back
(`parse?_pretty`, `parse?_compact`).
-/

set_option autoImplicit false

namespace Fanout.Json

open Text (ofHex? ofDigits scalar? consed)

/-! ## Strings -/

theorem shortEscape?_u : shortEscape? 'u' = none := rfl

/-- The reader takes what stands for a character. -/
theorem stringBody_of_spellsChar {t : List Char} {c : Char} (h : SpellsChar t c)
    (rest : List Char) : stringBody (t ++ rest) = consed c (stringBody rest) := by
  cases h with
  | plain visible notQuote notBackslash =>
    have hvisible : ¬ c.toNat < 32 := by omega
    rw [List.singleton_append, stringBody, if_neg hvisible]
    · exact notQuote
    · intro _ _ _ _ _ h
      exact absurd h notBackslash
    · intro _ _ h
      exact absurd h notBackslash
  | short known =>
    rw [List.cons_append, List.singleton_append, stringBody, known]
    -- a `u` starts an escape of its own
    rintro _ _ _ _ _ rfl
    rw [shortEscape?_u] at known
    cases known
  | @unit a b c d ch n hex scalar =>
    have hvalid : n.isValidChar := by
      unfold scalar? at scalar
      split at scalar
      · assumption
      · cases scalar
    have hsurrogate : ¬ (0xD800 ≤ n ∧ n < 0xDC00) := by
      rcases hvalid with h | h <;> omega
    show stringBody ('\\' :: 'u' :: a :: b :: c :: d :: rest) = _
    simp [stringBody, hex, hsurrogate, scalar]
  | @pair a b c d e f g h high low hex isHigh hex' isLow =>
    show stringBody ('\\' :: 'u' :: a :: b :: c :: d :: '\\' :: 'u' :: e :: f :: g :: h :: rest) = _
    simp [stringBody, hex, isHigh, hex', isLow]

theorem stringBody_of_spells {t cs : List Char} (h : SpellsText t cs) (rest : List Char) :
    stringBody (t ++ '"' :: rest) = some (cs, rest) := by
  induction h with
  | nil => rfl
  | cons hc _ ih =>
    rw [List.append_assoc, stringBody_of_spellsChar hc, ih]
    rfl

/-! ## Numbers -/

/-- A text that does not go on with a number. -/
def Ends (rest : List Char) : Prop := ∀ c ∈ rest.head?, isNumberChar c = false

theorem all_of_isDigits {ds : List Char} (h : isDigits ds = true) :
    ∀ c ∈ ds, c.isDigit = true := by
  unfold isDigits at h
  rw [Bool.and_eq_true, List.all_eq_true] at h
  exact h.2

/-- A natural number is a digit and digits after it. -/
theorem exists_digit_of_isNatural {ds : List Char} (h : isNatural ds = true) :
    ∃ d rest, ds = d :: rest ∧ ∀ c ∈ ds, c.isDigit = true := by
  unfold isNatural at h
  split at h
  · exact ⟨'0', [], rfl, List.forall_mem_singleton.mpr rfl⟩
  · rename_i c cs _
    rw [Bool.and_eq_true] at h
    exact ⟨c, cs, rfl, all_of_isDigits h.2⟩
  · cases h

theorem isNumberChar_of_isDigit {c : Char} (h : c.isDigit = true) : isNumberChar c = true := by
  simp [isNumberChar, h]

theorem isNumberChar_of_isExponent {t : List Char} (h : isExponent t = true) :
    ∀ c ∈ t, isNumberChar c = true := by
  have hdigits : ∀ {cs : List Char}, isDigits cs = true → ∀ c ∈ cs, isNumberChar c = true :=
    fun h c hc => isNumberChar_of_isDigit (all_of_isDigits h c hc)
  have hmark : ∀ {e : Char}, (e == 'e' || e == 'E') = true → isNumberChar e = true := by
    intro e he
    simp [isNumberChar, Bool.or_assoc, he]
  unfold isExponent at h
  split at h
  · exact List.forall_mem_nil _
  · rw [Bool.and_eq_true] at h
    exact List.forall_mem_cons.mpr ⟨hmark h.1, List.forall_mem_cons.mpr ⟨rfl, hdigits h.2⟩⟩
  · rw [Bool.and_eq_true] at h
    exact List.forall_mem_cons.mpr ⟨hmark h.1, List.forall_mem_cons.mpr ⟨rfl, hdigits h.2⟩⟩
  · rw [Bool.and_eq_true] at h
    exact List.forall_mem_cons.mpr ⟨hmark h.1, hdigits h.2⟩

/-- What follows the whole part of a number does not start with a digit. -/
theorem takeWhile_isDigit_of_isFractionOrExponent {t : List Char}
    (h : isFractionOrExponent t = true) : t.takeWhile Char.isDigit = [] := by
  have hmark : ∀ {e : Char}, (e == 'e' || e == 'E') = true → e.isDigit = false := by
    intro e he
    rcases (by simpa using he : e = 'e' ∨ e = 'E') with rfl | rfl <;> rfl
  unfold isFractionOrExponent at h
  split at h
  · rfl
  · unfold isExponent at h
    split at h
    · rfl
    all_goals
      rw [Bool.and_eq_true] at h
      rw [List.takeWhile_cons_of_neg (by simp [hmark h.1])]

theorem isNumberChar_of_isFractionOrExponent {t : List Char} (h : isFractionOrExponent t = true) :
    ∀ c ∈ t, isNumberChar c = true := by
  unfold isFractionOrExponent at h
  split at h
  · rename_i cs
    rw [Bool.and_eq_true] at h
    have hcs : ∀ c ∈ cs, isNumberChar c = true := by
      rw [← List.takeWhile_append_dropWhile (p := Char.isDigit) (l := cs)]
      intro c hc
      rcases List.mem_append.mp hc with hc | hc
      · exact isNumberChar_of_isDigit (all_of_isDigits h.1 c hc)
      · exact isNumberChar_of_isExponent h.2 c hc
    exact List.forall_mem_cons.mpr ⟨rfl, hcs⟩
  · exact isNumberChar_of_isExponent h

theorem unsigned?_append {ds : List Char} (hd : isNatural ds = true) {rest : List Char}
    (hr : isFractionOrExponent rest = true) :
    unsigned? (ds ++ rest) =
      if rest.isEmpty then some (.nat (ofDigits ds))
      else some (.real (String.ofList (ds ++ rest))) := by
  obtain ⟨_, _, _, hall⟩ := exists_digit_of_isNatural hd
  have hnone := takeWhile_isDigit_of_isFractionOrExponent hr
  have hwhole : (ds ++ rest).takeWhile Char.isDigit = ds := by
    rw [List.takeWhile_append_of_pos hall, hnone, List.append_nil]
  have htail : (ds ++ rest).dropWhile Char.isDigit = rest := by
    rw [List.dropWhile_append_of_pos hall]
    have h := List.takeWhile_append_dropWhile (p := Char.isDigit) (l := rest)
    rwa [hnone, List.nil_append] at h
  unfold unsigned?
  simp only [hwhole, htail, hd, hr, Bool.and_true, if_true]

theorem unsigned?_natural {ds : List Char} (hd : isNatural ds = true) :
    unsigned? ds = some (.nat (ofDigits ds)) := by
  have htail : isFractionOrExponent [] = true := rfl
  have h := unsigned?_append hd htail
  rwa [List.append_nil] at h

/-- A text without a sign is read as one. -/
theorem number?_of_isNatural {ds : List Char} (hd : isNatural ds = true) (rest : List Char) :
    number? (ds ++ rest) = unsigned? (ds ++ rest) := by
  obtain ⟨d, tail, rfl, hall⟩ := exists_digit_of_isNatural hd
  unfold number?
  split
  · rename_i heq
    have hsign : d = '-' := by simpa using (List.cons.inj heq).1
    have hdigit := hall d List.mem_cons_self
    rw [hsign] at hdigit
    cases hdigit
  · rfl

theorem number?_of_spells {t : List Char} {j : Json} (h : SpellsNumber t j) :
    number? t = some j := by
  cases h with
  | natural digits =>
    have h := number?_of_isNatural digits []
    rw [List.append_nil] at h
    rw [h, unsigned?_natural digits]
  | @negative ds digits nonzero =>
    have hne : Int.ofNat (ofDigits ds) ≠ 0 := by simpa using nonzero
    simp only [number?, unsigned?_natural digits, nat, if_neg hne]
    rfl
  | @real sign ds rest signed digits tail notWhole =>
    rcases signed with rfl | rfl
    · have hrest : rest.isEmpty = false := by simpa using notWhole
      rw [List.nil_append, number?_of_isNatural digits, unsigned?_append digits tail, hrest]
      rfl
    · rw [List.singleton_append, number?, unsigned?_append digits tail]
      cases rest with
      | nil =>
        have hzero : ofDigits ds = 0 := by simpa using notWhole
        simp [nat, hzero]
      | cons c cs => simp

theorem isNumberChar_of_spells {t : List Char} {j : Json} (h : SpellsNumber t j) :
    ∀ c ∈ t, isNumberChar c = true := by
  have hnatural : ∀ {ds : List Char}, isNatural ds = true → ∀ c ∈ ds, isNumberChar c = true := by
    intro ds hd
    obtain ⟨_, _, _, hall⟩ := exists_digit_of_isNatural hd
    exact fun c hc => isNumberChar_of_isDigit (hall c hc)
  cases h with
  | natural digits => exact hnatural digits
  | negative digits => exact List.forall_mem_cons.mpr ⟨rfl, hnatural digits⟩
  | @real sign ds rest signed digits tail =>
    have hsign : ∀ c ∈ sign, isNumberChar c = true := by
      rcases signed with rfl | rfl
      · exact List.forall_mem_nil _
      · exact List.forall_mem_singleton.mpr rfl
    rw [List.forall_mem_append, List.forall_mem_append]
    exact ⟨hsign, hnatural digits, isNumberChar_of_isFractionOrExponent tail⟩

theorem number_of_spells {t rest : List Char} {j : Json} (h : SpellsNumber t j)
    (hr : Ends rest) : number (t ++ rest) = some (j, rest) := by
  have hall := isNumberChar_of_spells h
  have hnone : rest.takeWhile isNumberChar = [] := by
    cases rest with
    | nil => rfl
    | cons c cs => rw [List.takeWhile_cons_of_neg (by simp [hr c rfl])]
  have hrest : rest.dropWhile isNumberChar = rest := by
    have h := List.takeWhile_append_dropWhile (p := isNumberChar) (l := rest)
    rwa [hnone, List.nil_append] at h
  rw [number, List.takeWhile_append_of_pos hall, List.dropWhile_append_of_pos hall, hnone, hrest,
    List.append_nil, number?_of_spells h, Option.map_some]

/-! ## Values -/

theorem skipBlanks_append {b : List Char} (hb : Blanks b) (t : List Char) :
    skipBlanks (b ++ t) = skipBlanks t :=
  List.dropWhile_append_of_pos hb

theorem skipBlanks_cons {c : Char} (hc : isBlank c = false) (t : List Char) :
    skipBlanks (c :: t) = c :: t :=
  List.dropWhile_cons_of_neg (by simp [hc])

theorem ends_nil : Ends [] := nofun

theorem ends_cons {c : Char} (hc : isNumberChar c = false) (t : List Char) : Ends (c :: t) := by
  rintro _ ⟨⟩
  exact hc

theorem isNumberChar_of_isBlank {c : Char} (h : isBlank c = true) : isNumberChar c = false := by
  simp only [isBlank, Bool.or_eq_true, beq_iff_eq] at h
  rcases h with ((rfl | rfl) | rfl) | rfl <;> rfl

/-- Blanks and a token that is no number end a number. -/
theorem ends_blanks {b t : List Char} (hb : Blanks b) (ht : Ends t) : Ends (b ++ t) := by
  cases b with
  | nil => exact ht
  | cons c b => exact ends_cons (isNumberChar_of_isBlank (hb c List.mem_cons_self)) _

/-- Given some steps, the reader of values takes an element, up to blanks at its end. -/
def ReadsElements (steps : Nat) : Prop :=
  ∀ {t : List Char} {j : Json}, SpellsElement t j → ∀ rest : List Char, Ends rest →
    2 * t.length + 1 ≤ steps → ∃ b, Blanks b ∧ value steps (t ++ rest) = some (j, b ++ rest)

def ReadsItems (steps : Nat) : Prop :=
  ∀ {t : List Char} {js : List Json}, SpellsItems t js → ∀ rest : List Char,
    2 * t.length + 2 ≤ steps → items steps (t ++ ']' :: rest) = some (js, rest)

def ReadsMembers (steps : Nat) : Prop :=
  ∀ {t : List Char} {ms : List (String × Json)}, SpellsMembers t ms → ∀ rest : List Char,
    2 * t.length + 2 ≤ steps → members steps (t ++ '}' :: rest) = some (ms, rest)

/-- A number starts with a sign or a digit. -/
theorem SpellsNumber.exists_head {t : List Char} {j : Json} (h : SpellsNumber t j) :
    ∃ c cs, t = c :: cs ∧ (c = '-' ∨ c.isDigit = true) := by
  have hnatural : ∀ {ds : List Char}, isNatural ds = true →
      ∃ c cs, ds = c :: cs ∧ (c = '-' ∨ c.isDigit = true) := by
    intro ds hd
    obtain ⟨d, cs, rfl, hall⟩ := exists_digit_of_isNatural hd
    exact ⟨d, cs, rfl, Or.inr (hall d List.mem_cons_self)⟩
  cases h with
  | natural digits => exact hnatural digits
  | negative digits => exact ⟨_, _, rfl, Or.inl rfl⟩
  | real signed digits tail =>
    rcases signed with rfl | rfl
    · obtain ⟨c, cs, hcs, hc⟩ := hnatural digits
      exact ⟨c, _, by rw [hcs]; rfl, hc⟩
    · exact ⟨_, _, rfl, Or.inl rfl⟩

/-- A text of a value starts with a character that is no blank and closes nothing. -/
theorem Spells.exists_head {t : List Char} {j : Json} (h : Spells t j) :
    ∃ c cs, t = c :: cs ∧ isBlank c = false ∧ c ≠ ']' := by
  cases h with
  | number h =>
    obtain ⟨c, cs, rfl, hc⟩ := h.exists_head
    refine ⟨c, cs, rfl, ?_, ?_⟩
    · by_contra hblank
      have hnumber := isNumberChar_of_isBlank (Bool.not_eq_false _ ▸ hblank)
      rcases hc with rfl | hc
      · cases hnumber
      · rw [isNumberChar_of_isDigit hc] at hnumber
        cases hnumber
    · rintro rfl
      rcases hc with hc | hc <;> cases hc
  | _ => exact ⟨_, _, rfl, rfl, by decide⟩

/-- Items do not start with a closing bracket. -/
theorem SpellsItems.exists_skipBlanks {t : List Char} {js : List Json} (h : SpellsItems t js)
    (rest : List Char) : ∃ c cs, skipBlanks (t ++ rest) = c :: cs ∧ c ≠ ']' := by
  have hstart : ∀ {t after : List Char} {j : Json}, SpellsElement t j →
      ∃ c cs, skipBlanks (t ++ after) = c :: cs ∧ c ≠ ']' := by
    intro t after j ht
    cases ht with
    | mk hb ht =>
      obtain ⟨c, cs, rfl, hblank, hc⟩ := ht.exists_head
      rw [List.append_assoc, skipBlanks_append hb, List.cons_append, List.cons_append,
        skipBlanks_cons hblank]
      exact ⟨c, _, rfl, hc⟩
  cases h with
  | one h => exact hstart h
  | more h =>
    rw [List.append_assoc]
    exact hstart h

/-- Members start with a name. -/
theorem SpellsMembers.exists_skipBlanks {t : List Char} {ms : List (String × Json)}
    (h : SpellsMembers t ms) (rest : List Char) : ∃ cs, skipBlanks (t ++ rest) = '"' :: cs := by
  have hstart : ∀ {t after : List Char} {m : String × Json}, SpellsMember t m →
      ∃ cs, skipBlanks (t ++ after) = '"' :: cs := by
    intro t after m ht
    cases ht with
    | mk hb =>
      rw [List.append_assoc, skipBlanks_append hb, List.cons_append, skipBlanks_cons rfl]
      exact ⟨_, rfl⟩
  cases h with
  | one h => exact hstart h
  | more h =>
    rw [List.append_assoc]
    exact hstart h

/-- One item is read, and then what the character after it asks for. -/
theorem items_step {steps : Nat} (hv : ReadsElements steps) {t : List Char} {j : Json}
    (h : SpellsElement t j) (hsteps : 2 * t.length + 1 ≤ steps) (rest : List Char) :
    items (steps + 1) (t ++ ',' :: rest) =
        (items steps rest).map (fun (js, rest) => (j :: js, rest)) ∧
      items (steps + 1) (t ++ ']' :: rest) = some ([j], rest) := by
  constructor
  · obtain ⟨b, hb, hvalue⟩ := hv h (',' :: rest) (ends_cons rfl rest) hsteps
    rw [items, hvalue]
    simp only [skipBlanks_append hb, skipBlanks_cons (c := ',') rfl]
  · obtain ⟨b, hb, hvalue⟩ := hv h (']' :: rest) (ends_cons rfl rest) hsteps
    rw [items, hvalue]
    simp only [skipBlanks_append hb, skipBlanks_cons (c := ']') rfl]

theorem readsItems_succ {steps : Nat} (hv : ReadsElements steps) (hi : ReadsItems steps) :
    ReadsItems (steps + 1) := by
  intro t js h rest hsteps
  cases h with
  | one h => exact (items_step hv h (by omega) rest).2
  | @more t ts j js h hts =>
    simp only [List.length_append, List.length_cons] at hsteps
    have hassoc : t ++ ',' :: ts ++ ']' :: rest = t ++ ',' :: (ts ++ ']' :: rest) := by simp
    rw [hassoc, (items_step hv h (by omega) _).1, hi hts rest (by omega), Option.map_some]

/-- One member is read, and then what the character after it asks for. -/
theorem members_step {steps : Nat} (hv : ReadsElements steps) {t : List Char} {m : String × Json}
    (h : SpellsMember t m) (hsteps : 2 * t.length ≤ steps) (rest : List Char) :
    members (steps + 1) (t ++ ',' :: rest) =
        (members steps rest).map (fun (ms, rest) => (m :: ms, rest)) ∧
      members (steps + 1) (t ++ '}' :: rest) = some ([m], rest) := by
  cases h with
  | @mk b n cs b' t j hb hn hb' ht =>
    simp only [List.length_append, List.length_cons] at hsteps
    have htext : ∀ after : List Char, b ++ '"' :: (n ++ '"' :: (b' ++ ':' :: t)) ++ after =
        b ++ '"' :: (n ++ '"' :: (b' ++ ':' :: (t ++ after))) := by simp
    have hname : ∀ after : List Char, stringBody (n ++ '"' :: after) = some (cs, after) :=
      fun after => stringBody_of_spells hn after
    constructor
    · obtain ⟨b'', hb'', hvalue⟩ := hv ht (',' :: rest) (ends_cons rfl rest) (by omega)
      rw [htext, members, skipBlanks_append hb, skipBlanks_cons rfl]
      simp only [hname, skipBlanks_append hb', skipBlanks_cons (c := ':') rfl, hvalue,
        skipBlanks_append hb'', skipBlanks_cons (c := ',') rfl]
    · obtain ⟨b'', hb'', hvalue⟩ := hv ht ('}' :: rest) (ends_cons rfl rest) (by omega)
      rw [htext, members, skipBlanks_append hb, skipBlanks_cons rfl]
      simp only [hname, skipBlanks_append hb', skipBlanks_cons (c := ':') rfl, hvalue,
        skipBlanks_append hb'', skipBlanks_cons (c := '}') rfl]

theorem readsMembers_succ {steps : Nat} (hv : ReadsElements steps) (hm : ReadsMembers steps) :
    ReadsMembers (steps + 1) := by
  intro t ms h rest hsteps
  cases h with
  | one h => exact (members_step hv h (by omega) rest).2
  | @more t ts m ms h hts =>
    simp only [List.length_append, List.length_cons] at hsteps
    have hassoc : t ++ ',' :: ts ++ '}' :: rest = t ++ ',' :: (ts ++ '}' :: rest) := by simp
    rw [hassoc, (members_step hv h (by omega) _).1, hm hts rest (by omega), Option.map_some]

/-- A value without blanks around it is read. -/
theorem value_of_spells {steps : Nat} (hi : ReadsItems steps) (hm : ReadsMembers steps)
    {t : List Char} {j : Json} (h : Spells t j) (rest : List Char) (hr : Ends rest)
    (hsteps : 2 * t.length ≤ steps) : value (steps + 1) (t ++ rest) = some (j, rest) := by
  rw [value]
  cases h with
  | null => simp [skipBlanks_cons (c := 'n') rfl]
  | yes => simp [skipBlanks_cons (c := 't') rfl]
  | no => simp [skipBlanks_cons (c := 'f') rfl]
  | number h =>
    obtain ⟨c, cs, rfl, hc⟩ := h.exists_head
    obtain ⟨_, _, heq, hblank, -⟩ := (Spells.number h).exists_head
    obtain ⟨rfl, rfl⟩ := List.cons.inj heq
    rw [List.cons_append, skipBlanks_cons hblank]
    split
    case h_7 => exact number_of_spells h hr
    all_goals
      rename_i hstart
      obtain ⟨rfl, -⟩ := List.cons.inj hstart
      rcases hc with hc | hc <;> cases hc
  | @text t cs h =>
    have hassoc : '"' :: (t ++ ['"']) ++ rest = '"' :: (t ++ '"' :: rest) := by simp
    rw [hassoc, skipBlanks_cons rfl]
    simp only [stringBody_of_spells h, Option.map_some]
  | @noItems b hb =>
    have hassoc : '[' :: (b ++ [']']) ++ rest = '[' :: (b ++ ']' :: rest) := by simp
    rw [hassoc, skipBlanks_cons rfl]
    simp only [skipBlanks_append hb, skipBlanks_cons (c := ']') rfl]
  | @items t js h =>
    have hassoc : '[' :: (t ++ [']']) ++ rest = '[' :: (t ++ ']' :: rest) := by simp
    rw [hassoc, skipBlanks_cons rfl]
    simp only
    split
    · rename_i hclosed
      obtain ⟨c, cs, hcs, hc⟩ := h.exists_skipBlanks (']' :: rest)
      rw [hcs] at hclosed
      exact absurd (List.cons.inj hclosed).1 hc
    · simp only [List.length_append, List.length_cons] at hsteps
      rw [hi h rest (by omega), Option.map_some]
  | @noMembers b hb =>
    have hassoc : '{' :: (b ++ ['}']) ++ rest = '{' :: (b ++ '}' :: rest) := by simp
    rw [hassoc, skipBlanks_cons rfl]
    simp only [skipBlanks_append hb, skipBlanks_cons (c := '}') rfl]
  | @members t ms h =>
    have hassoc : '{' :: (t ++ ['}']) ++ rest = '{' :: (t ++ '}' :: rest) := by simp
    rw [hassoc, skipBlanks_cons rfl]
    simp only
    split
    · rename_i hclosed
      obtain ⟨cs, hcs⟩ := h.exists_skipBlanks ('}' :: rest)
      rw [hcs] at hclosed
      cases hclosed
    · simp only [List.length_append, List.length_cons] at hsteps
      rw [hm h rest (by omega), Option.map_some]

/-- Blanks before a value make no difference. -/
theorem value_append {b : List Char} (hb : Blanks b) (steps : Nat) (t : List Char) :
    value (steps + 1) (b ++ t) = value (steps + 1) t := by
  rw [value, value, skipBlanks_append hb]

theorem readsElements_succ {steps : Nat} (hi : ReadsItems steps) (hm : ReadsMembers steps) :
    ReadsElements (steps + 1) := by
  intro t j h rest hr hsteps
  cases h with
  | @mk b t b' j hb ht hb' =>
    simp only [List.length_append] at hsteps
    refine ⟨b', hb', ?_⟩
    rw [List.append_assoc, List.append_assoc, value_append hb]
    exact value_of_spells hi hm ht (b' ++ rest) (ends_blanks hb' hr) (by omega)

theorem reads (steps : Nat) : ReadsElements steps ∧ ReadsItems steps ∧ ReadsMembers steps := by
  induction steps with
  | zero =>
    refine ⟨?_, ?_, ?_⟩
    · intro _ _ _ _ _ hsteps
      omega
    · intro _ _ _ _ hsteps
      omega
    · intro _ _ _ _ hsteps
      omega
  | succ steps ih =>
    obtain ⟨hv, hi, hm⟩ := ih
    exact ⟨readsElements_succ hi hm, readsItems_succ hv hi, readsMembers_succ hv hm⟩

/-- **The reader reads every JSON document**, as the value that it spells. -/
theorem parse?_of_isDocument {text : String} {j : Json} (h : IsDocument text j) :
    parse? text = some j := by
  obtain ⟨b, hb, hvalue⟩ := (reads (2 * text.toList.length + 2)).1 h [] ends_nil (by omega)
  rw [List.append_nil, List.append_nil] at hvalue
  have hblank : skipBlanks b = [] := by
    have h := skipBlanks_append hb []
    rwa [List.append_nil] at h
  simp [parse?, hvalue, hblank]

/-- A text is a document of one value at most. -/
theorem IsDocument.unique {text : String} {j j' : Json} (h : IsDocument text j)
    (h' : IsDocument text j') : j = j' := by
  have hj := parse?_of_isDocument h
  rw [parse?_of_isDocument h'] at hj
  exact (Option.some.inj hj).symm

theorem parse?_pretty {j : Json} (h : j.Proper) : parse? j.pretty = some j :=
  parse?_of_isDocument (isDocument_pretty h)

theorem parse?_compact {j : Json} (h : j.Proper) : parse? j.compact = some j :=
  parse?_of_isDocument (isDocument_compact h)

end Fanout.Json
