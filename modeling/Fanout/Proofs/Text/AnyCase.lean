import Fanout.Fault.Basic
import Fanout.Project.OfToml
import Fanout.Project.Wire

/-!
# Names in any case

A name is recognised in any case by lowering the text and comparing.  Lowering in full knows far
more letters than those of ASCII: a `Lowering` may make several characters of one, and may go by
what stands around it.  It is bound only in what it makes of the letters of ASCII and of the two
characters outside ASCII whose lower case has such a letter in it, the dotted capital I and the
Kelvin sign.

* `Lowering.lowered_eq_iff`: a word of ASCII characters without the letter `k` is the lower case of
  the ASCII texts that differ from it in case, and of no others, whatever else is lowered how.
* `Lowering.plain_lowered`: `Text.lowered`, which leaves the other letters as they are, is one such
  lowering, so that no comparison with such a word tells it from the full one.

The main result, `ModuleKind.ofText_verdict`, says which texts are read as which module kind.
-/

set_option autoImplicit false

namespace Fanout

namespace Text

/-- All characters are among the first 128. -/
def IsAscii (s : String) : Prop := ∀ c ∈ s.toList, c.toNat < 128

instance (s : String) : Decidable (IsAscii s) :=
  List.decidableBAll (fun c : Char => c.toNat < 128) s.toList

theorem toLower_of_foreign {c : Char} (hc : 128 ≤ c.toNat) : c.toLower = c := by
  unfold Char.toLower
  rw [dif_neg]
  rintro ⟨-, hle⟩
  have hle : c.toNat ≤ 90 := UInt32.le_iff_toNat_le.mp hle
  omega

/-- A way to bring text to lower case. -/
structure Lowering where
  /-- What becomes of a character, given what stands before it and after it. -/
  lower : List Char → Char → List Char → List Char
  ascii : ∀ before c after, c.toNat < 128 → lower before c after = [c.toLower]
  dottedI : ∀ before after,
    lower before (Char.ofNat 0x130) after = ['i', Char.ofNat 0x307]
  kelvin : ∀ before after, lower before (Char.ofNat 0x212A) after = ['k']
  /-- Every other character outside ASCII becomes one or more characters outside ASCII. -/
  foreign : ∀ before c after, 128 ≤ c.toNat → c ≠ Char.ofNat 0x130 → c ≠ Char.ofNat 0x212A →
    lower before c after ≠ [] ∧ ∀ d ∈ lower before c after, 128 ≤ d.toNat

namespace Lowering

variable (L : Lowering) {before cs : List Char} {s w : String}

/-- The lower case of characters that follow others. -/
def chars : List Char → List Char → List Char
  | _, [] => []
  | before, c :: after => L.lower before c after ++ chars (before ++ [c]) after

def lowered (s : String) : String := String.ofList (L.chars [] s.toList)

theorem chars_of_ascii (h : ∀ c ∈ cs, c.toNat < 128) : L.chars before cs = cs.map Char.toLower := by
  induction cs generalizing before with
  | nil => rfl
  | cons c after ih =>
    obtain ⟨hc, hafter⟩ := List.forall_mem_cons.mp h
    rw [chars, L.ascii before c after hc, ih hafter]
    rfl

/-- A character outside ASCII leaves one behind, or it leaves a `k`. -/
theorem exists_mem_lower (before : List Char) {c : Char} (hc : 128 ≤ c.toNat) (after : List Char) :
    ∃ d ∈ L.lower before c after, 128 ≤ d.toNat ∨ d = 'k' := by
  by_cases hi : c = Char.ofNat 0x130
  · rw [hi, L.dottedI]
    exact ⟨Char.ofNat 0x307, by simp, Or.inl (by decide)⟩
  · by_cases hk : c = Char.ofNat 0x212A
    · rw [hk, L.kelvin]
      exact ⟨'k', by simp, Or.inr rfl⟩
    · obtain ⟨hne, hforeign⟩ := L.foreign before c after hc hi hk
      obtain ⟨d, hd⟩ := List.exists_mem_of_ne_nil _ hne
      exact ⟨d, hd, Or.inl (hforeign d hd)⟩

theorem exists_mem_chars (before : List Char) {c : Char} (hmem : c ∈ cs) (hc : 128 ≤ c.toNat) :
    ∃ d ∈ L.chars before cs, 128 ≤ d.toNat ∨ d = 'k' := by
  induction cs generalizing before with
  | nil => cases hmem
  | cons first after ih =>
    rw [chars]
    rcases List.mem_cons.mp hmem with rfl | hafter
    · obtain ⟨d, hd, hout⟩ := L.exists_mem_lower before hc after
      exact ⟨d, List.mem_append_left _ hd, hout⟩
    · obtain ⟨d, hd, hout⟩ := ih (before ++ [first]) hafter
      exact ⟨d, List.mem_append_right _ hd, hout⟩

theorem lowered_of_isAscii (h : IsAscii s) : L.lowered s = s.toLower := by
  have hmap : s.toLower = s.map Char.toLower := rfl
  rw [lowered, L.chars_of_ascii h, hmap, ← String.toList_map, String.ofList_toList]

/-- **Only its own case variants lower to a word,** if the word has ASCII characters alone and
no `k` among them. -/
theorem lowered_eq_iff (hw : IsAscii w) (hk : 'k' ∉ w.toList) :
    L.lowered s = w ↔ IsAscii s ∧ s.toLower = w := by
  constructor
  · intro h
    have hs : IsAscii s := by
      intro c hmem
      refine Nat.lt_of_not_le fun hc => ?_
      obtain ⟨d, hd, hout⟩ := L.exists_mem_chars [] hmem hc
      have hdw : d ∈ w.toList := by
        rw [← h, lowered, String.toList_ofList]
        exact hd
      rcases hout with hout | rfl
      · exact absurd (hw d hdw) (Nat.not_lt.mpr hout)
      · exact hk hdw
    exact ⟨hs, (L.lowered_of_isAscii hs).symm.trans h⟩
  · rintro ⟨hs, rfl⟩
    exact L.lowered_of_isAscii hs

/-- Letters outside ASCII stay as they are, but for the two that become letters of ASCII. -/
def plain : Lowering where
  lower _ c _ := loweredChar c
  ascii _ c _ hc := by
    rw [loweredChar, if_neg (by omega), if_neg (by omega)]
  dottedI _ _ := rfl
  kelvin _ _ := rfl
  foreign _ c _ hc hi hk := by
    have hi' : c.toNat ≠ 0x130 := fun h => hi (by rw [← h, Char.ofNat_toNat])
    have hk' : c.toNat ≠ 0x212A := fun h => hk (by rw [← h, Char.ofNat_toNat])
    rw [loweredChar, if_neg hi', if_neg hk', toLower_of_foreign hc]
    simpa using hc

theorem plain_lowered (s : String) : plain.lowered s = Text.lowered s := by
  have hchars : ∀ before cs, plain.chars before cs = cs.flatMap loweredChar := by
    intro before cs
    induction cs generalizing before with
    | nil => rfl
    | cons c after ih => rw [chars, ih]; rfl
  rw [lowered, hchars, Text.lowered]

end Lowering

end Text

namespace ModuleKind

theorem name_isAscii (kind : ModuleKind) : Text.IsAscii kind.name := by
  cases kind <;> decide

theorem k_not_mem_name (kind : ModuleKind) : 'k' ∉ kind.name.toList := by
  cases kind <;> decide

theorem ofName?_eq_some_iff {text : String} {kind : ModuleKind} :
    ofName? text = some kind ↔ text = kind.name := by
  constructor
  · intro h
    have hname := List.find?_some h
    exact (beq_iff_eq.mp hname).symm
  · rintro rfl
    exact ofName?_name kind

/-- Whatever the lowering, a name is found for its case variants in ASCII and for no other text. -/
theorem ofName?_lowered_eq_some_iff (L : Text.Lowering) {text : String} {kind : ModuleKind} :
    ofName? (L.lowered text) = some kind ↔ Text.IsAscii text ∧ text.toLower = kind.name := by
  rw [ofName?_eq_some_iff, L.lowered_eq_iff kind.name_isAscii kind.k_not_mem_name]

theorem parse?_eq_some_iff {text : String} {kind : ModuleKind} :
    parse? text = some kind ↔ Text.IsAscii text ∧ text.toLower = kind.name := by
  rw [parse?, ← Text.Lowering.plain_lowered, ofName?_lowered_eq_some_iff]

theorem ofText_eq_ok_iff {text : String} {kind : ModuleKind} :
    ofText text = .ok kind ↔ Text.IsAscii text ∧ text.toLower = kind.name := by
  rw [← parse?_eq_some_iff, ofText]
  cases parse? text <;> simp

/-- A text that is refused is reported as it stands. -/
theorem ofText_eq_error_iff {text : String} {e : ConfigError} :
    ofText text = .error e ↔
      e = .unknownModuleKind text ∧
        ¬∃ kind : ModuleKind, Text.IsAscii text ∧ text.toLower = kind.name := by
  simp only [← ofText_eq_ok_iff]
  unfold ofText
  cases parse? text with
  | none => simp [eq_comm]
  | some kind => simp

theorem ofText_name (kind : ModuleKind) : ofText kind.name = .ok kind := by
  cases kind <;> rfl

/-- **A module kind is read from the case variants of its name in ASCII, and from no other text.**
No text has two kinds, and one that has none is reported as it stands.  Where files give a kind they
give it by the name itself, which is read as the same kind here; and any way of lowering text in
full finds the kinds that are found here. -/
theorem ofText_verdict (text : String) :
    (∀ kind, ofText text = .ok kind ↔ Text.IsAscii text ∧ text.toLower = kind.name) ∧
      (∀ e, ofText text = .error e ↔
        e = .unknownModuleKind text ∧
          ¬∃ kind : ModuleKind, Text.IsAscii text ∧ text.toLower = kind.name) ∧
      (∀ kind other : ModuleKind, kind.name = other.name ↔ kind = other) ∧
      (∀ kind, (ofJson? (.str text) = some kind ↔ text = kind.name) ∧
        (ofToml? (.text text) = some kind ↔ text = kind.name) ∧
        ofText kind.name = .ok kind) ∧
      ∀ L : Text.Lowering, ofName? (L.lowered text) = parse? text := by
  refine ⟨fun _ => ofText_eq_ok_iff, fun _ => ofText_eq_error_iff, fun _ _ => name_inj,
    fun kind => ?_, fun L => ?_⟩
  · have hname : ofName? text = some kind ↔ text = kind.name := ofName?_eq_some_iff
    exact ⟨hname, hname, ofText_name kind⟩
  · apply Option.ext
    intro kind
    rw [ofName?_lowered_eq_some_iff, parse?_eq_some_iff]

end ModuleKind

end Fanout
