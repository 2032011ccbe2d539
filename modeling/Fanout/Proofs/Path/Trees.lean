import Fanout.Proofs.Path.Relative

/-!
# Trees of directories

What lies at or below a path (`Path.Within`), and when two paths have nothing of that in common
(`Path.Apart`).  All of it goes by components, so that no spelling matters.

* `apart_iff`: neither of two paths lies within the other exactly if no path lies within both.
* `apart_of_children`: two different entries of one directory lie apart.
* `join_assoc`: it is the same to go on from a path twice, or once by what the two steps make.
-/

set_option autoImplicit false

namespace Fanout.Path

variable {p q r dir : Path}

/-! ## At or below a path -/

/-- A path lies at or below another one. -/
def Within (p dir : Path) : Prop := dir.components <+: p.components

/-- Neither of two paths lies within the other. -/
def Apart (p q : Path) : Prop := ¬p.Within q ∧ ¬q.Within p

/-- **Paths that lie apart have nothing in common below them.** -/
theorem apart_iff : p.Apart q ↔ ∀ r : Path, ¬(r.Within p ∧ r.Within q) := by
  constructor
  · rintro ⟨hpq, hqp⟩ r ⟨hp, hq⟩
    rcases List.prefix_or_prefix_of_prefix hp hq with h | h
    · exact hqp h
    · exact hpq h
  · intro h
    exact ⟨fun hpq => h p ⟨List.prefix_refl _, hpq⟩, fun hqp => h q ⟨hqp, List.prefix_refl _⟩⟩

theorem Apart.not_same (h : p.Apart q) : p.same q = false := by
  rw [same, beq_eq_false_iff_ne]
  intro heq
  exact h.1 ⟨[], by rw [List.append_nil, heq]⟩

/-- What lies within one of two paths that lie apart is nothing that lies within the other. -/
theorem Apart.not_same_of_within {a b : Path} (h : p.Apart q) (ha : a.Within p) (hb : b.Within q) :
    a.same b = false := by
  rw [same, beq_eq_false_iff_ne]
  intro heq
  exact apart_iff.mp h a ⟨ha, by rw [Within, heq]; exact hb⟩

theorem apart_of_children {c d : Component} (hp : p.components = dir.components ++ [c])
    (hq : q.components = dir.components ++ [d]) (hne : c ≠ d) : p.Apart q := by
  have hlength : p.components.length = q.components.length := by simp [hp, hq]
  have hdiffer : p.components ≠ q.components := by
    rw [hp, hq, ne_eq, List.append_right_inj, List.singleton_inj]
    exact hne
  exact ⟨fun h => hdiffer (h.eq_of_length hlength.symm).symm,
    fun h => hdiffer (h.eq_of_length hlength)⟩

/-! ## Going on from a path -/

/-- What a path is spelled by where another one is written after it. -/
def opening (cs : List Char) : List Char :=
  if cs.isEmpty || cs.getLast? == some '/' then cs else cs ++ ['/']

theorem opening_append (cs : List Char) {ds : List Char} (hds : ds ≠ []) :
    opening (cs ++ ds) = cs ++ opening ds := by
  have hlast : (cs ++ ds).getLast? = ds.getLast? := List.getLast?_append_of_ne_nil _ hds
  have hempty : (cs ++ ds).isEmpty = ds.isEmpty := by
    cases ds with
    | nil => exact absurd rfl hds
    | cons d ds => simp
  unfold opening
  rw [hlast, hempty]
  split
  · rfl
  · exact List.append_assoc ..

theorem opening_opening (cs : List Char) : opening (opening cs) = opening cs := by
  by_cases h : (cs.isEmpty || cs.getLast? == some '/') = true
  · have hcs : opening cs = cs := if_pos h
    rw [hcs, hcs]
  · have hcs : opening cs = cs ++ ['/'] := if_neg h
    rw [hcs, opening_append cs (List.cons_ne_nil _ _)]
    rfl

theorem join_of_isAbsolute (p : Path) (hq : q.isAbsolute = true) : p.join q = q := if_pos hq

theorem join_of_not_isAbsolute (p : Path) (hq : q.isAbsolute = false) :
    p.join q = ofChars (opening p.chars ++ q.chars) := by
  unfold join opening isEmpty
  rw [hq, if_neg Bool.false_ne_true]
  split
  · rfl
  · rw [List.append_assoc, List.singleton_append]

theorem isAbsolute_opening_append (cs : List Char) (hq : q.isAbsolute = false) :
    (ofChars (opening cs ++ q.chars)).isAbsolute = (ofChars cs).isAbsolute := by
  cases cs with
  | nil => simpa [opening, isAbsolute] using hq
  | cons c cs =>
    unfold opening
    split <;> simp [isAbsolute]

/-- **Joining is associative,** whichever of the paths are absolute or empty. -/
theorem join_assoc (p q r : Path) : p.join (q.join r) = (p.join q).join r := by
  cases hr : r.isAbsolute with
  | true => rw [join_of_isAbsolute q hr, join_of_isAbsolute p hr, join_of_isAbsolute _ hr]
  | false =>
    rw [join_of_not_isAbsolute q hr, join_of_not_isAbsolute (p.join q) hr]
    have habs := isAbsolute_opening_append q.chars hr
    rw [ofChars_chars] at habs
    cases hq : q.isAbsolute with
    | true => rw [join_of_isAbsolute p hq, join_of_isAbsolute p (habs.trans hq)]
    | false =>
      rw [join_of_not_isAbsolute p hq, join_of_not_isAbsolute p (habs.trans hq), chars_ofChars,
        chars_ofChars, ← List.append_assoc]
      -- an empty path in the middle leaves no trace
      by_cases hempty : q.chars = []
      · have hnone : opening [] = [] := rfl
        rw [hempty, hnone, List.append_nil, opening_opening]
      · rw [opening_append _ hempty]

end Fanout.Path
