import Fanout.Text.Utf8
import Mathlib.Tactic.Ring

/-!
# Reading what is UTF-8 and what is not

A byte below 0x80 is a character of its own wherever it stands, and no such character comes from
other bytes.  So it is the same to cut bytes at a slash before they are read or after it, which is
all that paths ask for.

* `decode_encode`: text is read as it was written.
* `decode_append_ascii`: a byte of ASCII ends what is pending, and what follows it is read by
  itself.
* `exists_byte_of_mem_decode`, `ascii_or_foreign`: a character of ASCII was a byte, and bytes that
  are not all ASCII leave a character that is not.

Whatever is pending can only become a character, and one outside ASCII (`Pending.Sound`).  What the
reader does with one byte is said once, in `first_cases` and `Pending.Sound.continued`.
-/

set_option autoImplicit false

namespace Fanout.Utf8

variable {p : Pending} {b : Nat} {byte : UInt8} {bs : List UInt8} {c : Char}
  {pending? : Option Pending}

theorem toNat_ofNat {n : Nat} (h : n.isValidChar) : (Char.ofNat n).toNat = n := by
  rw [Char.ofNat, dif_pos h]
  rfl

theorem toNat_ofNat_of_lt {n : Nat} (h : n < 0x80) : (Char.ofNat n).toNat = n :=
  toNat_ofNat (Or.inl (Nat.lt_trans h (by decide)))

/-! ## One byte -/

/-- The numbers that a pending character can still have are those of characters outside ASCII. -/
structure Pending.Sound (p : Pending) : Prop where
  least_ge : 0x80 ≤ p.least
  foreign : ∀ n, (p.value * 0x40 + (p.least - 0x80)) * 0x40 ^ p.more ≤ n →
    n < (p.value * 0x40 + (p.greatest - 0x80) + 1) * 0x40 ^ p.more → n.isValidChar ∧ 0x80 ≤ n

/-- A first byte is a character of ASCII, begins no character, or leaves one pending. -/
theorem first_cases (b : Nat) :
    (b < 0x80 ∧ first b = ([Char.ofNat b], none)) ∨
      0x80 ≤ b ∧ (first b = ([replacement], none) ∨ ∃ p, p.Sound ∧ first b = ([], some p)) := by
  rcases Nat.lt_or_ge b 0x80 with hb | hb
  · exact Or.inl ⟨hb, if_pos hb⟩
  · refine Or.inr ⟨hb, ?_⟩
    unfold first
    rw [if_neg (Nat.not_lt.mpr hb)]
    -- one case for every range of bytes
    repeat' split
    case isFalse => exact Or.inl rfl
    all_goals
      refine Or.inr ⟨_, ⟨by simp only; omega, fun n hlow hhigh => ?_⟩, rfl⟩
      simp only [Nat.reducePow] at hlow hhigh
      unfold Nat.isValidChar
      omega

/-- A byte that fits completes a pending character, or leaves it pending. -/
theorem Pending.Sound.continued (h : p.Sound) (hb : p.least ≤ b ∧ b ≤ p.greatest) :
    (∃ c, 0x80 ≤ c.toNat ∧ p.continued b = ([c], none)) ∨
      ∃ q, q.Sound ∧ p.continued b = ([], some q) := by
  obtain ⟨hleast, hforeign⟩ := h
  have hlow : p.value * 0x40 + (p.least - 0x80) ≤ p.value * 0x40 + (b - 0x80) := by omega
  have hhigh : p.value * 0x40 + (b - 0x80) + 1 ≤ p.value * 0x40 + (p.greatest - 0x80) + 1 := by
    omega
  unfold Pending.continued
  generalize p.value * 0x40 + (b - 0x80) = value at hlow hhigh ⊢
  cases hmore : p.more with
  | zero =>
    rw [hmore, Nat.pow_zero, Nat.mul_one, Nat.mul_one] at hforeign
    obtain ⟨hvalid, hge⟩ := hforeign value hlow hhigh
    refine Or.inl ⟨_, ?_, rfl⟩
    rwa [toNat_ofNat hvalid]
  | succ more =>
    -- 64 numbers for every number before
    have hstart : (value * 0x40 + (0x80 - 0x80)) * 0x40 ^ more = value * 0x40 ^ p.more := by
      rw [hmore]; ring
    have hend : (value * 0x40 + (0xBF - 0x80) + 1) * 0x40 ^ more = (value + 1) * 0x40 ^ p.more := by
      have hwidth : value * 0x40 + (0xBF - 0x80) + 1 = (value + 1) * 0x40 := by omega
      rw [hwidth, hmore]; ring
    refine Or.inr ⟨_, ⟨Nat.le_refl _, fun n hn hn' => hforeign n ?_ ?_⟩, rfl⟩
    · simp only at hn
      rw [hstart] at hn
      exact Nat.le_trans (Nat.mul_le_mul_right _ hlow) hn
    · simp only at hn'
      rw [hend] at hn'
      exact Nat.lt_of_lt_of_le hn' (Nat.mul_le_mul_right _ hhigh)

theorem decodeFrom_cons (pending? : Option Pending) (byte : UInt8) (bs : List UInt8) :
    decodeFrom pending? (byte :: bs) =
      (next pending? byte.toNat).1 ++ decodeFrom (next pending? byte.toNat).2 bs := rfl

theorem next_of_fits (hb : p.least ≤ b ∧ b ≤ p.greatest) : next (some p) b = p.continued b :=
  if_pos hb

theorem next_of_not_fits (hb : ¬(p.least ≤ b ∧ b ≤ p.greatest)) :
    next (some p) b = (replacement :: (first b).1, (first b).2) := if_neg hb

theorem sound_none : ∀ p ∈ (none : Option Pending), p.Sound := nofun

theorem first_sound : ∀ p ∈ (first b).2, p.Sound := by
  rcases first_cases b with ⟨-, h⟩ | ⟨-, h | ⟨q, hq, h⟩⟩
  · rw [h]
    exact sound_none
  · rw [h]
    exact sound_none
  · rw [h]
    rintro _ ⟨⟩
    exact hq

theorem next_sound (h : ∀ p ∈ pending?, p.Sound) : ∀ q ∈ (next pending? b).2, q.Sound := by
  cases pending? with
  | none => exact first_sound
  | some p =>
    by_cases hb : p.least ≤ b ∧ b ≤ p.greatest
    · rw [next_of_fits hb]
      rcases (h p rfl).continued hb with ⟨c, -, heq⟩ | ⟨q, hq, heq⟩
      · rw [heq]
        exact sound_none
      · rw [heq]
        rintro _ ⟨⟩
        exact hq
    · rw [next_of_not_fits hb]
      exact first_sound

theorem toNat_of_mem_first (h : c ∈ (first b).1) (hc : c.toNat < 0x80) : b = c.toNat := by
  rcases first_cases b with ⟨hb, heq⟩ | ⟨-, heq | ⟨q, -, heq⟩⟩
  · rw [heq] at h
    rw [List.mem_singleton.mp h, toNat_ofNat_of_lt hb]
  · rw [heq] at h
    rw [List.mem_singleton.mp h] at hc
    exact absurd hc (by decide)
  · rw [heq] at h
    cases h

theorem toNat_of_mem_next (hs : ∀ p ∈ pending?, p.Sound) (h : c ∈ (next pending? b).1)
    (hc : c.toNat < 0x80) : b = c.toNat := by
  cases pending? with
  | none => exact toNat_of_mem_first h hc
  | some p =>
    by_cases hb : p.least ≤ b ∧ b ≤ p.greatest
    · rw [next_of_fits hb] at h
      rcases (hs p rfl).continued hb with ⟨d, hd, heq⟩ | ⟨q, -, heq⟩
      · rw [heq] at h
        rw [List.mem_singleton.mp h] at hc
        exact absurd hc (Nat.not_lt.mpr hd)
      · rw [heq] at h
        cases h
    · rw [next_of_not_fits hb] at h
      rcases List.mem_cons.mp h with rfl | h
      · exact absurd hc (by decide)
      · exact toNat_of_mem_first h hc

/-! ## Bytes of ASCII -/

theorem exists_byte_of_mem_decodeFrom (hs : ∀ p ∈ pending?, p.Sound)
    (h : c ∈ decodeFrom pending? bs) (hc : c.toNat < 0x80) : ∃ b ∈ bs, b.toNat = c.toNat := by
  induction bs generalizing pending? with
  | nil =>
    cases pending? with
    | none => cases h
    | some p =>
      rw [List.mem_singleton.mp h] at hc
      exact absurd hc (by decide)
  | cons byte bs ih =>
    rw [decodeFrom_cons] at h
    rcases List.mem_append.mp h with h | h
    · exact ⟨byte, List.mem_cons_self, toNat_of_mem_next hs h hc⟩
    · obtain ⟨b, hb, hbc⟩ := ih (next_sound hs) h
      exact ⟨b, List.mem_cons_of_mem _ hb, hbc⟩

/-- **A character of ASCII was a byte.** -/
theorem exists_byte_of_mem_decode (h : c ∈ decode bs) (hc : c.toNat < 0x80) :
    ∃ b ∈ bs, b.toNat = c.toNat :=
  exists_byte_of_mem_decodeFrom sound_none h hc

theorem first_of_lt (hb : b < 0x80) : first b = ([Char.ofNat b], none) := if_pos hb

theorem decodeFrom_cons_ascii (hs : ∀ p ∈ pending?, p.Sound) (hb : byte.toNat < 0x80)
    (bs : List UInt8) :
    decodeFrom pending? (byte :: bs) =
      decodeFrom pending? [] ++ Char.ofNat byte.toNat :: decode bs := by
  cases pending? with
  | none =>
    have hnext : next none byte.toNat = ([Char.ofNat byte.toNat], none) := first_of_lt hb
    rw [decodeFrom_cons, hnext]
    rfl
  | some p =>
    have hleast := (hs p rfl).least_ge
    have hnot : ¬(p.least ≤ byte.toNat ∧ byte.toNat ≤ p.greatest) := by omega
    rw [decodeFrom_cons, next_of_not_fits hnot, first_of_lt hb]
    rfl

theorem decodeFrom_append_ascii (before : List UInt8) (hs : ∀ p ∈ pending?, p.Sound)
    (hb : byte.toNat < 0x80) (bs : List UInt8) :
    decodeFrom pending? (before ++ byte :: bs) =
      decodeFrom pending? before ++ Char.ofNat byte.toNat :: decode bs := by
  induction before generalizing pending? with
  | nil => exact decodeFrom_cons_ascii hs hb bs
  | cons b before ih =>
    rw [List.cons_append, decodeFrom_cons, decodeFrom_cons, ih (next_sound hs), List.append_assoc]

/-- **A byte of ASCII stands for itself** and keeps what comes before it from what comes after. -/
theorem decode_append_ascii (before : List UInt8) (hb : byte.toNat < 0x80) (bs : List UInt8) :
    decode (before ++ byte :: bs) = decode before ++ Char.ofNat byte.toNat :: decode bs :=
  decodeFrom_append_ascii before sound_none hb bs

/-- A character that is cut short by a slash is lost, and the slash is not. -/
example : decode ([0xE2, 0x82] ++ 0x2F :: [0xF0, 0x9F, 0xE2, 0x82, 0xAC]) =
    [replacement, '/', replacement, '€'] := by decide

theorem decode_cons_ascii (hb : byte.toNat < 0x80) (bs : List UInt8) :
    decode (byte :: bs) = Char.ofNat byte.toNat :: decode bs :=
  decode_append_ascii [] hb bs

theorem decode_of_ascii (h : ∀ b ∈ bs, b.toNat < 0x80) :
    decode bs = bs.map fun b => Char.ofNat b.toNat := by
  induction bs with
  | nil => rfl
  | cons byte bs ih =>
    obtain ⟨hb, hbs⟩ := List.forall_mem_cons.mp h
    rw [decode_cons_ascii hb, ih hbs, List.map_cons]

theorem exists_foreign_of_pending (h : p.Sound) (bs : List UInt8) :
    ∃ c ∈ decodeFrom (some p) bs, 0x80 ≤ c.toNat := by
  induction bs generalizing p with
  | nil => exact ⟨replacement, List.mem_cons_self, by decide⟩
  | cons byte bs ih =>
    rw [decodeFrom_cons]
    by_cases hb : p.least ≤ byte.toNat ∧ byte.toNat ≤ p.greatest
    · rw [next_of_fits hb]
      rcases h.continued hb with ⟨c, hc, heq⟩ | ⟨q, hq, heq⟩
      · rw [heq]
        exact ⟨c, List.mem_append_left _ List.mem_cons_self, hc⟩
      · rw [heq]
        exact ih hq
    · rw [next_of_not_fits hb]
      exact ⟨replacement, List.mem_append_left _ List.mem_cons_self, by decide⟩

/-- **Bytes are all ASCII, or they are read as a text that is not.** -/
theorem ascii_or_foreign (bs : List UInt8) :
    (∀ b ∈ bs, b.toNat < 0x80) ∨ ∃ c ∈ decode bs, 0x80 ≤ c.toNat := by
  induction bs with
  | nil => exact Or.inl nofun
  | cons byte bs ih =>
    rcases first_cases byte.toNat with ⟨hb, -⟩ | ⟨-, heq | ⟨p, hp, heq⟩⟩
    · rcases ih with hbs | ⟨c, hc, hforeign⟩
      · exact Or.inl (List.forall_mem_cons.mpr ⟨hb, hbs⟩)
      · rw [decode_cons_ascii hb]
        exact Or.inr ⟨c, List.mem_cons_of_mem _ hc, hforeign⟩
    · rw [decode, decodeFrom_cons, next, heq]
      exact Or.inr ⟨replacement, List.mem_append_left _ List.mem_cons_self, by decide⟩
    · rw [decode, decodeFrom_cons, next, heq]
      exact Or.inr (exists_foreign_of_pending hp bs)

/-! ## Text -/

theorem toNat_byte {n : Nat} (h : n < 0x100) : (UInt8.ofNat n).toNat = n := by
  rw [UInt8.toNat_ofNat']
  exact Nat.mod_eq_of_lt h

theorem first_of_two {n : Nat} (h : 2 ≤ n ∧ n < 0x20) :
    first (n + 0xC0) = ([], some { value := n, more := 0 }) := by
  unfold first
  rw [if_neg (by omega), if_pos (by omega), Nat.add_sub_cancel]

/-- The first of three bytes and what the second one may be: not what makes a number below 0x800,
nor what makes a surrogate. -/
theorem first_of_three {n m : Nat} (hn : n < 0x10) (hm : m < 0x40) (hlong : 0x20 ≤ n * 0x40 + m)
    (hscalar : n * 0x40 + m < 0x360 ∨ 0x380 ≤ n * 0x40 + m) :
    ∃ least greatest, (least ≤ m + 0x80 ∧ m + 0x80 ≤ greatest) ∧
      first (n + 0xE0) = ([], some { value := n, more := 1, least, greatest }) := by
  by_cases h0 : n = 0
  · exact ⟨0xA0, 0xBF, by omega, by rw [h0]; rfl⟩
  by_cases hD : n = 0xD
  · exact ⟨0x80, 0x9F, by omega, by rw [hD]; rfl⟩
  refine ⟨0x80, 0xBF, by omega, ?_⟩
  unfold first
  rw [if_neg (by omega), if_neg (by omega), if_neg (by omega), if_neg (by omega),
    if_pos (by omega), Nat.add_sub_cancel]

/-- The first of four bytes and what the second one may be: not what makes a number below 0x10000,
nor one beyond the last character. -/
theorem first_of_four {n m : Nat} (hm : m < 0x40) (hlong : 0x10 ≤ n * 0x40 + m)
    (hlast : n * 0x40 + m < 0x110) :
    ∃ least greatest, (least ≤ m + 0x80 ∧ m + 0x80 ≤ greatest) ∧
      first (n + 0xF0) = ([], some { value := n, more := 2, least, greatest }) := by
  by_cases h0 : n = 0
  · exact ⟨0x90, 0xBF, by omega, by rw [h0]; rfl⟩
  by_cases h4 : n = 4
  · exact ⟨0x80, 0x8F, by omega, by rw [h4]; rfl⟩
  refine ⟨0x80, 0xBF, by omega, ?_⟩
  unfold first
  rw [if_neg (by omega), if_neg (by omega), if_neg (by omega), if_neg (by omega),
    if_neg (by omega), if_neg (by omega), if_neg (by omega), if_pos (by omega),
    Nat.add_sub_cancel]

theorem decode_of_first {n : Nat} (hn : n < 0x100) (h : first n = ([], some p))
    (bs : List UInt8) : decode (UInt8.ofNat n :: bs) = decodeFrom (some p) bs := by
  rw [decode, decodeFrom_cons, toNat_byte hn, next, h]
  rfl

section Tails

variable {n m more least greatest : Nat} (hm : m < 0x40)
  (hb : least ≤ m + 0x80 ∧ m + 0x80 ≤ greatest) (bs : List UInt8)

include hm hb

theorem decodeFrom_last :
    decodeFrom (some { value := n, more := 0, least, greatest }) (UInt8.ofNat (m + 0x80) :: bs) =
      Char.ofNat (n * 0x40 + m) :: decode bs := by
  rw [decodeFrom_cons, toNat_byte (by omega), next_of_fits hb, Pending.continued,
    Nat.add_sub_cancel]
  rfl

theorem decodeFrom_middle :
    decodeFrom (some { value := n, more := more + 1, least, greatest })
        (UInt8.ofNat (m + 0x80) :: bs) =
      decodeFrom (some { value := n * 0x40 + m, more }) bs := by
  rw [decodeFrom_cons, toNat_byte (by omega), next_of_fits hb, Pending.continued,
    Nat.add_sub_cancel]
  rfl

end Tails

theorem decode_encodeChar_append (c : Char) (bs : List UInt8) :
    decode (String.utf8EncodeChar c ++ bs) = c :: decode bs := by
  have hvalid : c.toNat.isValidChar := c.valid
  have hsix : ∀ n, n % 0x40 < 0x40 := fun n => Nat.mod_lt n (by decide)
  have htail : ∀ n, 0x80 ≤ n % 0x40 + 0x80 ∧ n % 0x40 + 0x80 ≤ 0xBF := fun n => by
    have := hsix n
    omega
  have hc : ∀ n, n = c.toNat → Char.ofNat n = c := fun n hn => hn ▸ Char.ofNat_toNat c
  unfold String.utf8EncodeChar
  have hval : c.val.toNat = c.toNat := rfl
  simp only [hval]
  unfold Nat.isValidChar at hvalid
  generalize c.toNat = v at hvalid hc ⊢
  split
  case isTrue hone =>
    have hbyte := toNat_byte (n := v) (by omega)
    rw [List.singleton_append, decode_cons_ascii (by omega), hbyte, hc v rfl]
  split
  case isTrue htwo =>
    have hfirst := first_of_two (n := v / 0x40 % 0x20) (by omega)
    rw [List.cons_append, List.singleton_append, decode_of_first (by omega) hfirst,
      decodeFrom_last (hsix v) (htail v), hc _ (by omega)]
  split
  case isTrue hthree =>
    obtain ⟨least, greatest, hfits, hfirst⟩ := first_of_three (n := v / 0x1000 % 0x10)
      (m := v / 0x40 % 0x40) (by omega) (hsix _) (by omega) (by omega)
    rw [List.cons_append, List.cons_append, List.singleton_append,
      decode_of_first (by omega) hfirst, decodeFrom_middle (hsix _) hfits,
      decodeFrom_last (hsix v) (htail v), hc _ (by omega)]
  case isFalse hfour =>
    obtain ⟨least, greatest, hfits, hfirst⟩ := first_of_four (n := v / 0x40000 % 8)
      (m := v / 0x1000 % 0x40) (hsix _) (by omega) (by omega)
    rw [List.cons_append, List.cons_append, List.cons_append, List.singleton_append,
      decode_of_first (by omega) hfirst, decodeFrom_middle (hsix _) hfits,
      decodeFrom_middle (hsix _) (htail _), decodeFrom_last (hsix v) (htail v), hc _ (by omega)]

/-- **Text is read as it was written.** -/
theorem decode_encode (cs : List Char) : decode (encode cs) = cs := by
  induction cs with
  | nil => rfl
  | cons c cs ih =>
    rw [encode, List.flatMap_cons, decode_encodeChar_append]
    exact congrArg _ ih

theorem encode_injective : Function.Injective encode := by
  intro cs ds h
  rw [← decode_encode cs, h, decode_encode]

theorem encode_append (cs ds : List Char) : encode (cs ++ ds) = encode cs ++ encode ds :=
  List.flatMap_append

end Fanout.Utf8
