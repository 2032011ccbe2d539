import Fanout.Proofs.Path.Parents

/-!
# What is left of a path below another

A path that goes on from another one is left with pieces of its own when the other one is removed.
These pieces stand for the steps by which it goes on (`relativeTo?_of_components`), whatever the
spelling of the two; they begin and end with a name, so that the last of them is the last step
(`exists_concat_of_steps`).

* `steps_dropNamed`, `steps_trimStart`, `steps_trimEnd`: what removing and trimming does to the
  steps of pieces.
* `joinSlash_concat`, `lead_eq`: a text is what stands before its last piece, up to the slash, and
  that piece.
* `components_join_of_implicit`: a path that says nothing of where it starts from goes on from any
  other path.
-/

set_option autoImplicit false

namespace Fanout.Path

variable {ps : List Name} {n : Name} {p q : Path}

/-! ## The last piece of a text -/

/-- What is spelled before the last of some pieces. -/
def lead (before : List Name) : List Char := before.flatMap (· ++ ['/'])

theorem joinSlash_concat (before : List Name) (n : Name) :
    joinSlash (before ++ [n]) = lead before ++ n := by
  induction before with
  | nil => rfl
  | cons m before ih =>
    rw [List.cons_append, joinSlash_cons _ (by simp), ih]
    simp [lead]

theorem lead_eq (before : List Name) : lead before = [] ∨ ∃ cs, lead before = cs ++ ['/'] := by
  rcases List.eq_nil_or_concat before with rfl | ⟨init, n, rfl⟩
  · exact Or.inl rfl
  · exact Or.inr ⟨lead init ++ n, by simp [lead]⟩

/-! ## Steps of pieces that are left -/

theorem steps_cons_of_filler (h : isFiller n = true) (ps : List Name) :
    steps (n :: ps) = steps ps := by
  simp [steps, h]

theorem steps_cons_of_named (h : isFiller n = false) (ps : List Name) :
    steps (n :: ps) = .ofPiece n :: steps ps := by
  simp [steps, h]

theorem steps_dropNamed (k : Nat) (ps : List Name) :
    steps (dropNamed k ps) = (steps ps).drop k := by
  induction ps generalizing k with
  | nil => cases k <;> simp [dropNamed, steps]
  | cons n rest ih =>
    cases k with
    | zero => rfl
    | succ k =>
      rw [dropNamed]
      split
      · rename_i hn
        rw [ih, steps_cons_of_filler hn]
      · rename_i hn
        rw [ih, steps_cons_of_named (eq_false_of_ne_true hn), List.drop_succ_cons]

theorem steps_trimStart (ps : List Name) : steps (trimStart ps) = steps ps := by
  have hcut : steps (ps.takeWhile isFiller) = [] :=
    steps_of_fillers fun n hn => List.mem_takeWhile_imp hn
  have hsplit : ps = ps.takeWhile isFiller ++ trimStart ps :=
    List.takeWhile_append_dropWhile.symm
  conv_rhs => rw [hsplit, steps_append, hcut, List.nil_append]

theorem steps_trimEnd (ps : List Name) : steps (trimEnd ps) = steps ps := by
  have hcut : steps (ps.reverse.takeWhile isFiller).reverse = [] :=
    steps_of_fillers fun n hn => List.mem_takeWhile_imp (List.mem_reverse.mp hn)
  have hsplit : ps = trimEnd ps ++ (ps.reverse.takeWhile isFiller).reverse := by
    rw [trimEnd, ← List.reverse_append, List.takeWhile_append_dropWhile, List.reverse_reverse]
  conv_rhs => rw [hsplit, steps_append, hcut, List.append_nil]

theorem not_filler_of_getLast?_trimEnd (h : (trimEnd ps).getLast? = some n) :
    isFiller n = false := by
  have hhead := List.head?_dropWhile_not isFiller ps.reverse
  rw [trimEnd, List.getLast?_reverse] at h
  rwa [h] at hhead

/-! ## Relative paths -/

/-- Pieces that begin and end with a name. -/
structure IsTrimmed (ps : List Name) : Prop extends IsBody .implicit ps where
  last_named : ∀ n, ps.getLast? = some n → isFiller n = false

theorem isTrimmed_after (k : Nat) (p : Path) :
    IsTrimmed (trimEnd (trimStart (dropNamed k p.body))) where
  no_slash n hn := by
    have hcut : trimEnd (trimStart (dropNamed k p.body)) <+: trimStart (dropNamed k p.body) :=
      List.rdropWhile_prefix _ _
    have hmem : n ∈ dropNamed k p.body := (List.dropWhile_sublist _).subset (hcut.subset hn)
    exact slash_not_mem_of_mem_splitSlash (mem_pieces_of_mem_body (mem_of_mem_dropNamed hmem))
  named _ n hn := (not_filler_of_head?_trimStart (head?_of_head?_trimEnd hn)).1
  last_named _ := not_filler_of_getLast?_trimEnd

/-- **What is left of a path below another one** is spelled by pieces that stand for the steps
between the two. -/
theorem relativeTo?_of_components {base : Path} {r : List Component} (hbase : base ≠ .empty)
    (h : p.components = base.components ++ r) :
    ∃ ps, p.relativeTo? base = some (assemble .implicit ps) ∧ IsTrimmed ps ∧ steps ps = r := by
  have hsome : base.components ≠ [] := mt components_eq_nil_iff.mp hbase
  obtain ⟨k, hk⟩ : ∃ k, base.components.length = k + 1 :=
    Nat.exists_eq_succ_of_ne_zero (mt List.length_eq_zero_iff.mp hsome)
  have hbelow : base.components <+: p.components := ⟨r, h.symm⟩
  have hrel := relativeTo?_of_prefix hbelow
  refine ⟨_, ?_, isTrimmed_after (if p.anchor = .implicit then k + 1 else k) p, ?_⟩
  · rw [hrel, hk]
    rfl
  · -- the root and an opening dot are among the steps that go
    have hr : (p.anchor.components ++ steps p.body).drop (k + 1) = r := by
      rw [← components_eq, h, ← hk, List.drop_left]
    rw [steps_trimEnd, steps_trimStart, steps_dropNamed, ← hr]
    cases p.anchor <;> rfl

/-- The last piece of trimmed pieces is their last step. -/
theorem exists_concat_of_steps {dirs : List Component} {last : Component} (hps : IsTrimmed ps)
    (h : steps ps = dirs ++ [last]) :
    ∃ before n, ps = before ++ [n] ∧ steps before = dirs ∧ Component.ofPiece n = last := by
  rcases List.eq_nil_or_concat ps with rfl | ⟨before, n, rfl⟩
  · simp [steps] at h
  · rw [List.concat_eq_append] at h hps ⊢
    have hn : isFiller n = false := hps.last_named n (by simp)
    rw [steps_append, steps_cons_of_named hn] at h
    obtain ⟨hbefore, hlast⟩ := List.append_inj' h rfl
    exact ⟨before, n, rfl, hbefore, (List.cons.inj hlast).1⟩

/-! ## Paths that say nothing of where they start from -/

theorem empty_join (q : Path) : empty.join q = q := by
  unfold join
  split
  · rfl
  · have hempty : empty.isEmpty = true := isEmpty_iff.mpr rfl
    rw [hempty, Bool.true_or, if_pos rfl]
    exact ofChars_chars q

/-- **A path that says nothing of where it starts from goes on from any other,** the empty one
included. -/
theorem components_join_of_implicit (p : Path) (hq : q.anchor = .implicit) :
    (p.join q).components = p.components ++ q.components := by
  by_cases hp : p = .empty
  · rw [hp, empty_join]
    rfl
  · have hrel : q.isAbsolute = false := by
      rw [← Bool.not_eq_true, isAbsolute_iff, hq]
      nofun
    have hpieces : q.pieces = q.body := by rw [pieces_eq_anchor_body, hq]; rfl
    rw [components_join hp hrel, components_eq q, hq, hpieces]
    rfl

end Fanout.Path
