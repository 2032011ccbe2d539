import Fanout.Changed.UnitSet
import Fanout.Proofs.Path.Order

/-!
# Sets of units under insertion

* `contains_insert_iff`: inserting a unit adds the unit, in every spelling, and nothing else.
* `Ordered.insert`: a set in order stays in order, so that it never holds two spellings of a unit.
* `insert_insert`: a unit that was inserted is not inserted again.
* `Ordered.mem_insert_iff`: of two spellings of a unit the set keeps the one that was there.

`UnitSet.insertAll` inserts units one after the other; once more changes nothing
(`insertAll_insertAll`).
-/

set_option autoImplicit false

namespace Fanout

/-! ## Insertion into a list -/

namespace Path

variable {p q u : Path} {units : List Path}

/-- The spelling that a unit is looked up by does not count. -/
theorem any_insertOrdered (p u : Path) (units : List Path) :
    (p.insertOrdered units).any (compare u · == .eq) =
      (compare u p == .eq || units.any (compare u · == .eq)) := by
  induction units with
  | nil => simp [insertOrdered]
  | cons q rest ih =>
    unfold insertOrdered
    split
    · rw [List.any_cons]
    · rename_i heq
      have hsame : compare u p = compare u q := Std.TransCmp.congr_right heq
      rw [List.any_cons, hsame, ← Bool.or_assoc, Bool.or_self]
    · rw [List.any_cons, List.any_cons, ih, Bool.or_left_comm]

theorem mem_insertOrdered (h : q ∈ p.insertOrdered units) : q = p ∨ q ∈ units := by
  induction units with
  | nil => exact Or.inl (List.mem_singleton.mp h)
  | cons r rest ih =>
    unfold insertOrdered at h
    split at h
    · exact List.mem_cons.mp h
    · exact Or.inr h
    · rcases List.mem_cons.mp h with rfl | h
      · exact Or.inr List.mem_cons_self
      · exact (ih h).imp_right (List.mem_cons_of_mem _)

theorem pairwise_insertOrdered (p : Path) (h : units.Pairwise (compare · · = .lt)) :
    (p.insertOrdered units).Pairwise (compare · · = .lt) := by
  induction units with
  | nil => exact List.pairwise_singleton _ _
  | cons q rest ih =>
    obtain ⟨hq, hrest⟩ := List.pairwise_cons.mp h
    unfold insertOrdered
    split
    · rename_i hlt
      refine List.pairwise_cons.mpr ⟨List.forall_mem_cons.mpr ⟨hlt, fun r hr => ?_⟩, h⟩
      exact Std.TransCmp.lt_trans hlt (hq r hr)
    · exact h
    · rename_i hgt
      refine List.pairwise_cons.mpr ⟨fun r hr => ?_, ih hrest⟩
      rcases mem_insertOrdered hr with rfl | hr
      · exact Std.OrientedCmp.gt_iff_lt.mp hgt
      · exact hq r hr

/-- A unit is inserted where the ordered ones do not have it. -/
theorem mem_insertOrdered_iff (h : units.Pairwise (compare · · = .lt)) :
    q ∈ p.insertOrdered units ↔ q ∈ units ∨ q = p ∧ units.any (compare p · == .eq) = false := by
  induction units with
  | nil => simp [insertOrdered]
  | cons r rest ih =>
    obtain ⟨hr, hrest⟩ := List.pairwise_cons.mp h
    unfold insertOrdered
    split
    · rename_i hlt
      -- what comes after a later unit is later still
      have hnew : rest.any (compare p · == .eq) = false := by
        rw [List.any_eq_false]
        intro u hu
        simp [Std.TransCmp.lt_trans hlt (hr u hu)]
      simp [hlt, hnew, or_comm]
    · rename_i heq
      simp [heq]
    · rename_i hgt
      rw [List.mem_cons, ih hrest, List.mem_cons, List.any_cons, hgt, or_assoc]
      rfl

theorem insertOrdered_insertOrdered (p : Path) (units : List Path) :
    p.insertOrdered (p.insertOrdered units) = p.insertOrdered units := by
  induction units with
  | nil => simp [insertOrdered]
  | cons q rest ih =>
    rw [insertOrdered]
    split
    · simp [insertOrdered]
    · rename_i heq
      simp [insertOrdered, heq]
    · rename_i hgt
      simp [insertOrdered, hgt, ih]

/-- A path that is there is there still when another one has come. -/
theorem insertOrdered_of_insertOrdered (h : p.insertOrdered units = units) (q : Path) :
    p.insertOrdered (q.insertOrdered units) = q.insertOrdered units := by
  induction units with
  | nil => cases h
  | cons r rest ih =>
    rw [insertOrdered] at h
    split at h
    · have hlength := congrArg List.length h
      simp at hlength
    · rename_i heq
      have hq : compare p q = (compare q r).swap := by
        rw [Std.TransCmp.congr_left heq]
        exact Std.OrientedCmp.eq_swap
      rw [insertOrdered]
      split <;> rename_i hqr <;> simp [insertOrdered, hq, hqr, heq]
    · rename_i hgt
      rw [insertOrdered]
      split
      · rename_i hqr
        have hq : compare p q = .gt :=
          Std.OrientedCmp.gt_of_lt (Std.TransCmp.lt_trans hqr (Std.OrientedCmp.lt_of_gt hgt))
        simp [insertOrdered, hq, hgt, List.tail_eq_of_cons_eq h]
      · rw [insertOrdered, hgt]
        exact h
      · rw [insertOrdered, hgt]
        exact congrArg (r :: ·) (ih (List.tail_eq_of_cons_eq h))

end Path

/-! ## Sets -/

namespace UnitSet

/-- The units of a set come in order. -/
def Ordered (s : UnitSet) : Prop := s.units.Pairwise (compare · · = .lt)

/-- Inserts units one after the other. -/
def insertAll (s : UnitSet) (units : List Path) : UnitSet := units.foldl insert s

variable {s : UnitSet} {p u : Path} {units : List Path}

theorem ordered_empty : empty.Ordered := List.Pairwise.nil

theorem contains_insert_iff :
    (s.insert p).contains u = true ↔ s.contains u = true ∨ p.same u = true := by
  have hsame : compare u p = .eq ↔ p.same u = true := by
    rw [Std.OrientedCmp.eq_comm, Path.compare_eq_iff]
  rw [contains, units_insert, Path.any_insertOrdered, Bool.or_eq_true, beq_iff_eq, hsame, or_comm]
  rfl

theorem Ordered.insert (h : s.Ordered) (p : Path) : (s.insert p).Ordered :=
  Path.pairwise_insertOrdered p h

theorem Ordered.mem_insert_iff (h : s.Ordered) :
    u ∈ (s.insert p).units ↔ u ∈ s.units ∨ u = p ∧ s.contains p = false :=
  Path.mem_insertOrdered_iff h

@[simp] theorem insert_insert (s : UnitSet) (p : Path) : (s.insert p).insert p = s.insert p :=
  congrArg UnitSet.mk (Path.insertOrdered_insertOrdered p s.units)

theorem insertAll_append (s : UnitSet) (units more : List Path) :
    s.insertAll (units ++ more) = (s.insertAll units).insertAll more := List.foldl_append

theorem insertAll_concat (s : UnitSet) (units : List Path) (p : Path) :
    s.insertAll (units ++ [p]) = (s.insertAll units).insert p := s.insertAll_append units [p]

/-- A unit that is in a set already stays there when others come. -/
theorem insert_of_insert (h : s.insert p = s) (q : Path) :
    (s.insert q).insert p = s.insert q :=
  congrArg UnitSet.mk (Path.insertOrdered_of_insertOrdered (congrArg UnitSet.units h) q)

theorem insert_insertAll (h : s.insert p = s) (units : List Path) :
    (s.insertAll units).insert p = s.insertAll units := by
  induction units generalizing s with
  | nil => exact h
  | cons q rest ih => exact ih (insert_of_insert h q)

theorem insert_insertAll_of_mem (s : UnitSet) (h : p ∈ units) :
    (s.insertAll units).insert p = s.insertAll units := by
  induction units generalizing s with
  | nil => cases h
  | cons q rest ih =>
    rcases List.mem_cons.mp h with rfl | h
    · exact insert_insertAll (s.insert_insert p) rest
    · exact ih (s.insert q) h

theorem insertAll_eq_self (h : ∀ p ∈ units, s.insert p = s) : s.insertAll units = s := by
  induction units with
  | nil => rfl
  | cons p rest ih =>
    obtain ⟨hp, hrest⟩ := List.forall_mem_cons.mp h
    rw [insertAll, List.foldl_cons, hp]
    exact ih hrest

/-- Units that were inserted change nothing when they are inserted again. -/
theorem insertAll_insertAll (s : UnitSet) (units : List Path) :
    (s.insertAll units).insertAll units = s.insertAll units :=
  insertAll_eq_self fun _ hp => s.insert_insertAll_of_mem hp

theorem contains_insertAll_iff :
    (s.insertAll units).contains u = true ↔
      s.contains u = true ∨ ∃ p ∈ units, p.same u = true := by
  induction units generalizing s with
  | nil => simp [insertAll]
  | cons p rest ih =>
    rw [insertAll, List.foldl_cons, ← insertAll, ih, contains_insert_iff, List.exists_mem_cons_iff,
      or_assoc]

theorem Ordered.insertAll (h : s.Ordered) (units : List Path) : (s.insertAll units).Ordered := by
  induction units generalizing s with
  | nil => exact h
  | cons p rest ih => exact ih (h.insert p)

end UnitSet

end Fanout
