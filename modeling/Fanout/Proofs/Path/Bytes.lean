import Fanout.Path.Bytes
import Fanout.Proofs.Path.Respelling
import Fanout.Proofs.Text.Utf8

/-!
# Paths in bytes and paths that are text

Two respellings lead from text to bytes and back: `inBytes` writes a text in UTF-8, with a character
for each byte, and `asShown` reads bytes as text.  Both leave slashes and dots alone, as neither is
part of the bytes of any other character.  Text is shown as it was (`asShown_inBytes`); bytes that
are no text are not.

* `components_ofPath`: so a path has the components of its text, written in bytes.
* `relativeTo?_ofPath`, `join_ofPath`: what is done to paths that are text is done to their bytes.
* `components_join`: what a path in bytes adds to the directory that it is put below.
-/

set_option autoImplicit false

namespace Fanout

open Fanout.Path (Component Respelling)

namespace BytePath

variable {cs : List Char} {bs : List UInt8}

/-! ## Bytes and the characters for them -/

theorem toNat_ofUInt8 (b : UInt8) : (Char.ofUInt8 b).toNat = b.toNat := rfl

theorem toNat_ofNatClamp (k : Nat) : (UInt8.ofNatClamp k).toNat = min k 255 := by
  unfold UInt8.ofNatClamp
  split
  · rename_i h
    have hk : k < 256 := h
    rw [UInt8.toNat_ofNatLT]
    omega
  · rename_i h
    have hk : ¬k < 256 := h
    rw [Nat.min_eq_right (by omega)]
    rfl

@[simp] theorem ofLetters_letters (bs : List UInt8) : ofLetters (letters bs) = bs := by
  rw [ofLetters, letters, List.map_map]
  refine (List.map_congr_left fun b _ => ?_).trans (List.map_id bs)
  refine UInt8.toNat_inj.mp ?_
  have hb := b.toNat_lt
  rw [Function.comp_apply, toNat_ofUInt8, toNat_ofNatClamp]
  simp only [id]
  omega

theorem letters_ofLetters (h : ∀ c ∈ cs, c.toNat < 256) : letters (ofLetters cs) = cs := by
  rw [ofLetters, letters, List.map_map]
  refine (List.map_congr_left fun c hc => ?_).trans (List.map_id cs)
  have hlt := h c hc
  refine Char.toNat_inj.mp ?_
  rw [Function.comp_apply, toNat_ofUInt8, toNat_ofNatClamp]
  simp only [id]
  omega

theorem letters_injective : Function.Injective letters := by
  intro bs bs' h
  rw [← ofLetters_letters bs, h, ofLetters_letters]

theorem lt_of_mem_letters {c : Char} (h : c ∈ letters bs) : c.toNat < 256 := by
  obtain ⟨b, -, rfl⟩ := List.mem_map.mp h
  exact b.toNat_lt

@[simp] theorem ofSpelled_spelled (p : BytePath) : ofSpelled p.spelled = p := by
  rw [ofSpelled, spelled, Path.chars_ofChars, ofLetters_letters]

theorem spelled_ofSpelled {p : Path} (h : ∀ c ∈ p.chars, c.toNat < 256) :
    (ofSpelled p).spelled = p := by
  rw [ofSpelled, spelled, letters_ofLetters h, Path.ofChars_chars]

/-! ## From text to bytes and back -/

theorem encode_replicate_dot (k : Nat) :
    Utf8.encode (List.replicate k '.') = List.replicate k 0x2E := by
  rw [Utf8.encode, List.flatMap_replicate]
  have hdot : String.utf8EncodeChar '.' = [0x2E] := by decide
  rw [hdot]
  induction k with
  | zero => rfl
  | succ k ih => rw [List.replicate_succ, List.replicate_succ, List.flatten_cons, ih]; rfl

theorem letters_replicate_dot (k : Nat) :
    letters (List.replicate k 0x2E) = List.replicate k '.' := List.map_replicate

theorem ofLetters_replicate_dot (k : Nat) :
    ofLetters (List.replicate k '.') = List.replicate k 0x2E := List.map_replicate

theorem decode_replicate_dot (k : Nat) :
    Utf8.decode (List.replicate k 0x2E) = List.replicate k '.' := by
  rw [Utf8.decode_of_ascii fun b hb => by rw [List.eq_of_mem_replicate hb]; decide]
  exact List.map_replicate

/-- Bytes of ASCII are the characters that they are spelled by. -/
theorem decode_ofLetters (h : ∀ b ∈ ofLetters cs, b.toNat < 0x80) :
    Utf8.decode (ofLetters cs) = cs := by
  rw [Utf8.decode_of_ascii h, ofLetters, List.map_map]
  refine (List.map_congr_left fun c hc => ?_).trans (List.map_id cs)
  have hb := h _ (List.mem_map_of_mem hc)
  rw [toNat_ofNatClamp] at hb
  rw [Function.comp_apply, toNat_ofNatClamp, Nat.min_eq_left (by omega), Char.ofNat_toNat, id]

/-- Text in UTF-8, with a character for each byte. -/
def inBytes : Respelling where
  respell cs := letters (Utf8.encode cs)
  append_slash cs ds := by
    rw [← List.singleton_append, Utf8.encode_append, Utf8.encode_append]
    exact List.map_append
  no_slash n hn hmem := by
    obtain ⟨b, hb, hslash⟩ := List.mem_map.mp hmem
    obtain rfl : b = 0x2F := by
      refine UInt8.toNat_inj.mp ?_
      rw [← toNat_ofUInt8, hslash]
      rfl
    -- reading the text back finds the slash
    obtain ⟨before, after, hcut⟩ := List.append_of_mem hb
    have hread : Utf8.decode (before ++ 0x2F :: after) =
        Utf8.decode before ++ '/' :: Utf8.decode after :=
      Utf8.decode_append_ascii before (by decide) after
    rw [← hcut, Utf8.decode_encode] at hread
    exact hn (hread ▸ List.mem_append_right _ List.mem_cons_self)
  dots k n := by
    have hdots : List.replicate k '.' = letters (Utf8.encode (List.replicate k '.')) := by
      rw [encode_replicate_dot, letters_replicate_dot]
    conv_lhs => rw [hdots, letters_injective.eq_iff, Utf8.encode_injective.eq_iff]

/-- Bytes, with a character for each of them, as text. -/
def asShown : Respelling where
  respell cs := Utf8.decode (ofLetters cs)
  append_slash cs ds := by
    have hslash : ofLetters (cs ++ '/' :: ds) = ofLetters cs ++ 0x2F :: ofLetters ds :=
      List.map_append
    rw [hslash]
    exact Utf8.decode_append_ascii _ (by decide) _
  no_slash n hn hmem := by
    obtain ⟨b, hb, hslash⟩ := Utf8.exists_byte_of_mem_decode hmem (by decide)
    obtain ⟨c, hc, rfl⟩ := List.mem_map.mp hb
    rw [toNat_ofNatClamp] at hslash
    have h47 : '/'.toNat = 47 := rfl
    obtain rfl : c = '/' := Char.toNat_inj.mp (by omega)
    exact hn hc
  dots k n := by
    constructor
    · intro h
      rcases Utf8.ascii_or_foreign (ofLetters n) with hascii | ⟨c, hc, hforeign⟩
      · rw [← h, decode_ofLetters hascii]
      · rw [h] at hc
        rw [List.eq_of_mem_replicate hc] at hforeign
        exact absurd hforeign (by decide)
    · rintro rfl
      rw [ofLetters_replicate_dot, decode_replicate_dot]

/-- **Text is shown as it was written.** -/
theorem asShown_inBytes (cs : List Char) : asShown.respell (inBytes.respell cs) = cs := by
  show Utf8.decode (ofLetters (letters (Utf8.encode cs))) = cs
  rw [ofLetters_letters, Utf8.decode_encode]

theorem inBytes_injective : Function.Injective inBytes.respell := by
  intro cs ds h
  rw [← asShown_inBytes cs, h, asShown_inBytes]

end BytePath

namespace Path.Component

/-- A component of a text as one of bytes. -/
def inBytes : Component → Component := Component.map BytePath.inBytes.respell

/-- A component of bytes as one of a text. -/
def shown : Component → Component := Component.map BytePath.asShown.respell

theorem inBytes_injective : Function.Injective inBytes :=
  Component.map_injective BytePath.inBytes_injective

theorem shown_ofPiece (n : Name) : (ofPiece n).shown = ofPiece (BytePath.asShown.respell n) :=
  (BytePath.asShown.ofPiece_respell n).symm

end Path.Component

namespace BytePath

variable {p q : BytePath}

/-! ## Paths -/

theorem spelled_ofPath (p : Path) : (ofPath p).spelled = inBytes.path p := rfl

theorem spelled_eq_empty_iff : p.spelled = .empty ↔ p.bytes = [] := by
  rw [← Path.isEmpty_iff, spelled, Path.isEmpty, Path.chars_ofChars, List.isEmpty_iff, letters,
    List.map_eq_nil_iff]

theorem components_eq_nil_iff : p.components = [] ↔ p.bytes = [] := by
  rw [components, Path.components_eq_nil_iff, spelled_eq_empty_iff]

theorem shown_ofSpelled (p : Path) : (ofSpelled p).shown = asShown.path p := rfl

@[simp] theorem shown_ofPath (p : Path) : (ofPath p).shown = p := by
  rw [shown, ofPath, Utf8.decode_encode, Path.ofChars_chars]

theorem ofSpelled_inBytes (p : Path) : ofSpelled (inBytes.path p) = ofPath p := by
  rw [← spelled_ofPath, ofSpelled_spelled]

theorem components_ofPath (p : Path) :
    (ofPath p).components = p.components.map Component.inBytes :=
  inBytes.components_path p

theorem relativeTo?_ofPath (p base : Path) :
    (ofPath p).relativeTo? (ofPath base) = (p.relativeTo? base).map ofPath := by
  rw [relativeTo?, spelled_ofPath, spelled_ofPath, inBytes.relativeTo?_path inBytes_injective,
    Option.map_map]
  exact congrArg (Option.map · _) (funext ofSpelled_inBytes)

theorem join_ofPath (p q : Path) : (ofPath p).join (ofPath q) = ofPath (p.join q) := by
  rw [join, spelled_ofPath, spelled_ofPath, inBytes.join_path, ofSpelled_inBytes]

theorem lt_of_mem_chars_spelled {c : Char} (h : c ∈ p.spelled.chars) : c.toNat < 256 := by
  rw [spelled, Path.chars_ofChars] at h
  exact lt_of_mem_letters h

theorem spelled_join (p q : BytePath) : (p.join q).spelled = p.spelled.join q.spelled := by
  refine spelled_ofSpelled fun c hc => ?_
  have hmem : c ∈ p.spelled.chars ∨ c = '/' ∨ c ∈ q.spelled.chars := by
    unfold Path.join at hc
    split at hc
    · exact Or.inr (Or.inr hc)
    · split at hc
      · rw [Path.chars_ofChars, List.mem_append] at hc
        exact hc.imp_right Or.inr
      · rw [Path.chars_ofChars, List.mem_append, List.mem_cons] at hc
        exact hc
  rcases hmem with hc | rfl | hc
  · exact lt_of_mem_chars_spelled hc
  · decide
  · exact lt_of_mem_chars_spelled hc

/-- **Below a directory** a path in bytes that says nothing of where it starts from adds its
components. -/
theorem components_join (p : BytePath) (hq : q.spelled.anchor = .implicit) :
    (p.join q).components = p.components ++ q.components := by
  rw [components, spelled_join, Path.components_join_of_implicit _ hq]
  rfl

end BytePath

end Fanout
