import Fanout.Path.Order
import Mathlib.Data.List.Basic

/-!
# The order of paths is one

Paths compare as equal exactly if they are spellings of one path (`compare_eq_iff`), and the
comparison is transitive and antisymmetric, so that lists of paths can be kept in order.

`Path.Before` is that order, told by components instead of keys (`compare_eq_lt_iff`).
-/

set_option autoImplicit false

namespace Fanout.Path

theorem Component.key_injective : Function.Injective Component.key := by
  intro a b h
  cases a <;> cases b
  case name.name s t =>
    have hcodes : s.map Char.toNat = t.map Char.toNat := (List.cons.inj h).2
    rw [List.map_injective_iff.mpr (fun _ _ => Char.toNat_inj.mp) hcodes]
  all_goals simp_all [key]

theorem key_eq_iff {p q : Path} : p.key = q.key ↔ p.components = q.components :=
  (List.map_injective_iff.mpr Component.key_injective).eq_iff

instance : Std.TransOrd Path := inferInstanceAs (Std.TransCmp (compareOn key))

theorem compare_eq_iff {p q : Path} : compare p q = .eq ↔ p.same q = true := by
  have hkey : compare p q = compare p.key q.key := rfl
  rw [hkey, Std.compare_eq_iff_eq, key_eq_iff, same, beq_iff_eq]

/-! ## The order of components -/

/-- The root comes first, then a leading dot, then a step up, then the names. -/
def Component.rank : Component → Nat
  | .root => 0
  | .here => 1
  | .up => 2
  | .name _ => 3

/-- Of two names the code points decide, and else the rank. -/
def Component.Before : Component → Component → Prop
  | .name s, .name t => List.Lex (fun a b => a.toNat < b.toNat) s t
  | a, b => a.rank < b.rank

/-- The first difference decides, and a path sorts before those that go on from it. -/
def Before (p q : Path) : Prop := List.Lex Component.Before p.components q.components

/-- Lists compare by the keys of their items as they do lexicographically. -/
theorem compare_map_eq_lt_iff {α β : Type} [Ord β] [Std.LawfulEqOrd β] {f : α → β}
    (hf : Function.Injective f) (l m : List α) :
    compare (l.map f) (m.map f) = .lt ↔
      List.Lex (fun a b => compare (f a) (f b) = .lt) l m := by
  induction l generalizing m with
  | nil =>
    cases m with
    | nil => exact ⟨nofun, nofun⟩
    | cons b m => exact ⟨fun _ => .nil, fun _ => rfl⟩
  | cons a l ih =>
    cases m with
    | nil => exact ⟨nofun, nofun⟩
    | cons b m =>
      have hcons : compare ((a :: l).map f) ((b :: m).map f) =
          (compare (f a) (f b)).then (compare (l.map f) (m.map f)) := List.compareLex_cons_cons
      rw [hcons]
      constructor
      · intro h
        cases hab : compare (f a) (f b) with
        | lt => exact .rel hab
        | eq =>
          obtain rfl := hf (Std.compare_eq_iff_eq.mp hab)
          rw [hab] at h
          exact .cons ((ih m).mp h)
        | gt =>
          rw [hab] at h
          cases h
      · intro h
        cases h with
        | rel hab =>
          rw [hab]
          rfl
        | cons h =>
          rw [Std.compare_eq_iff_eq.mpr rfl]
          exact (ih m).mpr h

theorem Component.compare_key_eq_lt_iff {a b : Component} :
    compare a.key b.key = .lt ↔ a.Before b := by
  have hcons (m n : Nat) (s t : List Nat) :
      compare (m :: s) (n :: t) = (compare m n).then (compare s t) := List.compareLex_cons_cons
  cases a <;> cases b
  case name.name s t =>
    rw [key, key, hcons, Nat.compare_eq_eq.mpr rfl, Ordering.then,
      compare_map_eq_lt_iff fun _ _ => Char.toNat_inj.mp]
    simp only [Nat.compare_eq_lt, Before]
  all_goals simp [key, Before, rank, hcons, Ordering.then_eq_lt, Nat.compare_eq_lt]

/-- **Paths compare by their components.** -/
theorem compare_eq_lt_iff {p q : Path} : compare p q = .lt ↔ p.Before q := by
  show compare (p.components.map Component.key) (q.components.map Component.key) = .lt ↔ _
  rw [compare_map_eq_lt_iff Component.key_injective]
  simp only [Component.compare_key_eq_lt_iff]
  rfl

example : Before ⟨"a/b"⟩ ⟨"a-b"⟩ := by
  rw [← compare_eq_lt_iff]
  decide

instance : Std.Irrefl Before where
  irrefl p h := by
    rw [← compare_eq_lt_iff, compare_eq_iff.mpr (beq_self_eq_true _)] at h
    cases h

instance : Std.Antisymm Before where
  antisymm p q hpq hqp := by
    rw [← compare_eq_lt_iff] at hpq hqp
    rw [Std.OrientedCmp.gt_of_lt hpq] at hqp
    cases hqp

end Fanout.Path
