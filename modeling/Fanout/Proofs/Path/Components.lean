import Fanout.Path.Basic
import Mathlib.Data.List.DropRight

/-!
# Components of paths put together and taken apart

What joining and making relative do to the components of a path, and to whether it is absolute.

* `components_join`: below a directory that is named, a path that is not absolute adds its own steps
  to the components of the directory, whatever the spelling of the two.
* `isAbsolute_of_relativeTo?`: what is left of a path below another one is not absolute, unless that
  other one is the empty path, of which nothing is removed.
-/

set_option autoImplicit false

namespace Fanout.Path

@[simp] theorem chars_ofChars (cs : List Char) : (ofChars cs).chars = cs := by
  simp [chars, ofChars]

@[simp] theorem ofChars_chars (p : Path) : ofChars p.chars = p := by
  simp [chars, ofChars]

theorem isEmpty_iff {p : Path} : p.isEmpty = true ↔ p = .empty := by
  cases p
  simp [isEmpty, chars, empty, String.toList_eq_nil_iff]

/-! ## Pieces of a text -/

theorem splitSlash_append_slash (cs ds : List Char) :
    splitSlash (cs ++ '/' :: ds) = splitSlash cs ++ splitSlash ds := by
  induction cs with
  | nil => simp [splitSlash]
  | cons c cs ih =>
    rw [List.cons_append, splitSlash, splitSlash, ih]
    split
    · rfl
    · cases hs : splitSlash cs with
      | nil => exact absurd hs (splitSlash_ne_nil cs)
      | cons piece pieces => rfl

theorem slash_not_mem_of_mem_splitSlash {cs : List Char} {piece : Name}
    (h : piece ∈ splitSlash cs) : '/' ∉ piece := by
  induction cs generalizing piece with
  | nil =>
    rw [splitSlash, List.mem_singleton] at h
    simp [h]
  | cons c cs ih =>
    rw [splitSlash] at h
    split at h
    · rcases List.mem_cons.mp h with rfl | h
      · exact List.not_mem_nil
      · exact ih h
    · rename_i hc
      cases hs : splitSlash cs with
      | nil => exact absurd hs (splitSlash_ne_nil cs)
      | cons first pieces =>
        rw [hs] at h ih
        rcases List.mem_cons.mp h with rfl | h
        · intro hmem
          rcases List.mem_cons.mp hmem with rfl | hmem
          · exact hc rfl
          · exact ih List.mem_cons_self hmem
        · exact ih (List.mem_cons_of_mem _ h)

/-- A text that does not begin with a slash begins with its first piece. -/
theorem splitSlash_cons_of_ne {c : Char} (hc : c ≠ '/') (cs : List Char) :
    ∃ piece rest, splitSlash (c :: cs) = (c :: piece) :: rest := by
  rw [splitSlash, if_neg hc]
  cases splitSlash cs with
  | nil => exact ⟨[], [], rfl⟩
  | cons piece rest => exact ⟨piece, rest, rfl⟩

/-! ## Steps of a list of pieces -/

/-- The steps that pieces stand for, whatever they start from. -/
def steps (pieces : List Name) : List Component :=
  (pieces.filter (!isFiller ·)).map Component.ofPiece

theorem components_ofChars (cs : List Char) :
    (ofChars cs).components =
      (anchorPieces (splitSlash cs)).1.components ++ steps (anchorPieces (splitSlash cs)).2 := by
  simp only [components, anchor, body, pieces, chars_ofChars, steps]

@[simp] theorem steps_append (ps qs : List Name) : steps (ps ++ qs) = steps ps ++ steps qs := by
  simp [steps]

@[simp] theorem steps_nil_piece : steps [[]] = [] := rfl

/-- A first piece that is neither empty nor a single dot is where a path begins. -/
theorem anchorPieces_of_named {piece : Name} (he : piece ≠ []) (hd : piece ≠ ['.'])
    (rest : List Name) : anchorPieces (piece :: rest) = (.implicit, piece :: rest) := by
  unfold anchorPieces
  split
  · rename_i h
    exact absurd (List.cons.inj h).1 he
  · rename_i h
    exact absurd (List.cons.inj h).1 hd
  · rfl

/-- What a path starts from is settled before its last piece. -/
theorem anchorPieces_append {pieces : List Name} (hp : pieces ≠ []) :
    ∃ a body, ∀ more ≠ [], anchorPieces (pieces ++ more) = (a, body ++ more) := by
  obtain ⟨piece, rest, rfl⟩ := List.exists_cons_of_ne_nil hp
  by_cases he : piece = []
  · subst he
    refine ⟨.root, rest, fun more hm => ?_⟩
    obtain ⟨next, tail, ht⟩ :=
      List.exists_cons_of_ne_nil (List.append_ne_nil_of_right_ne_nil rest hm)
    rw [List.cons_append, ht]
    rfl
  · by_cases hd : piece = ['.']
    · subst hd
      exact ⟨.here, rest, fun _ _ => rfl⟩
    · exact ⟨.implicit, piece :: rest, fun _ _ => anchorPieces_of_named he hd _⟩

theorem anchorPieces_concat_nil {pieces : List Name} (hp : pieces ≠ []) (he : pieces ≠ [[]]) :
    anchorPieces (pieces ++ [[]]) = ((anchorPieces pieces).1, (anchorPieces pieces).2 ++ [[]]) := by
  obtain ⟨piece, rest, rfl⟩ := List.exists_cons_of_ne_nil hp
  by_cases hn : piece = []
  · subst hn
    obtain ⟨next, tail, rfl⟩ : ∃ next tail, rest = next :: tail :=
      List.exists_cons_of_ne_nil fun h => he (h ▸ rfl)
    rfl
  · by_cases hd : piece = ['.']
    · subst hd
      rfl
    · rw [List.cons_append, anchorPieces_of_named hn hd, anchorPieces_of_named hn hd]
      rfl

/-! ## Components of a path that goes on -/

theorem components_append_slash (cs ds : List Char) :
    (ofChars (cs ++ '/' :: ds)).components =
      (ofChars (cs ++ ['/'])).components ++ steps (splitSlash ds) := by
  obtain ⟨a, start, h⟩ := anchorPieces_append (splitSlash_ne_nil cs)
  have hslash : splitSlash (cs ++ ['/']) = splitSlash cs ++ [[]] := splitSlash_append_slash cs []
  rw [components_ofChars, components_ofChars, splitSlash_append_slash, hslash,
    h _ (splitSlash_ne_nil ds), h _ (List.cons_ne_nil _ _)]
  simp

/-- A slash at the end of what is named adds nothing. -/
theorem components_trailing_slash {cs : List Char} (hne : cs ≠ []) :
    (ofChars (cs ++ ['/'])).components = (ofChars cs).components := by
  have hslash : splitSlash (cs ++ ['/']) = splitSlash cs ++ [[]] := splitSlash_append_slash cs []
  have he : splitSlash cs ≠ [[]] := by
    intro h
    have := joinSlash_splitSlash cs
    rw [h] at this
    exact hne this.symm
  rw [components_ofChars, components_ofChars, hslash,
    anchorPieces_concat_nil (splitSlash_ne_nil cs) he]
  simp

/-- **The components of a joined path** are those of the directory, then the steps of the path below
it. -/
theorem components_join {p q : Path} (hp : p ≠ .empty) (hq : q.isAbsolute = false) :
    (p.join q).components = p.components ++ steps q.pieces := by
  have hempty : p.isEmpty = false := by simpa [← isEmpty_iff] using hp
  have hchars : p.chars ≠ [] := by simpa [isEmpty] using hempty
  unfold join
  rw [hq, hempty, if_neg Bool.false_ne_true, Bool.false_or]
  split
  · rename_i hlast
    obtain ⟨cs, hcs⟩ := List.getLast?_eq_some_iff.mp (beq_iff_eq.mp hlast)
    rw [hcs, List.append_assoc, List.singleton_append, components_append_slash, ← hcs,
      ofChars_chars]
    rfl
  · rw [components_append_slash, components_trailing_slash hchars, ofChars_chars]
    rfl

/-- What is written below a directory has a name if it had one before. -/
theorem join_ne_empty (p : Path) {q : Path} (hq : q ≠ .empty) : p.join q ≠ .empty := by
  have hchars : q.chars ≠ [] := by simpa [← isEmpty_iff, isEmpty] using hq
  rw [ne_eq, ← isEmpty_iff] at hq ⊢
  unfold join
  split
  · exact hq
  · split <;> simp [isEmpty, hchars]

/-! ## What a path starts from -/

/-- A path is empty, absolute, opened by a dot, or begins with a name. -/
theorem anchorPieces_pieces (p : Path) :
    p = .empty ∨ (p.isAbsolute = true ∧ ∃ rest, anchorPieces p.pieces = (.root, rest)) ∨
      p.isAbsolute = false ∧ ((∃ rest, anchorPieces p.pieces = (.here, rest)) ∨
        ∃ piece rest, isFiller piece = false ∧ '/' ∉ piece ∧
          anchorPieces p.pieces = (.implicit, piece :: rest)) := by
  rw [← isEmpty_iff, isEmpty, isAbsolute]
  cases hp : p.chars with
  | nil => exact Or.inl rfl
  | cons c cs =>
    right
    by_cases hc : c = '/'
    · left
      subst hc
      obtain ⟨piece, rest, hs⟩ := List.exists_cons_of_ne_nil (splitSlash_ne_nil cs)
      refine ⟨rfl, piece :: rest, ?_⟩
      rw [pieces, hp, splitSlash, if_pos rfl, hs]
      rfl
    · right
      obtain ⟨piece, rest, hs⟩ := splitSlash_cons_of_ne hc cs
      have hpieces : p.pieces = (c :: piece) :: rest := by rw [pieces, hp, hs]
      refine ⟨by simpa using hc, ?_⟩
      rw [hpieces]
      by_cases hd : c :: piece = ['.']
      · rw [hd]
        exact Or.inl ⟨rest, rfl⟩
      · refine Or.inr ⟨c :: piece, rest, ?_, ?_, anchorPieces_of_named (List.cons_ne_nil _ _) hd _⟩
        · simpa [isFiller] using hd
        · exact slash_not_mem_of_mem_splitSlash (hs ▸ List.mem_cons_self)

theorem components_eq_nil_iff {p : Path} : p.components = [] ↔ p = .empty := by
  constructor
  · intro h
    rw [components, anchor, body] at h
    rcases p.anchorPieces_pieces with he | ⟨-, _, ha⟩ | ⟨-, ⟨_, ha⟩ | ⟨piece, rest, hf, -, ha⟩⟩
    · exact he
    · simp [ha, Anchor.components] at h
    · simp [ha, Anchor.components] at h
    · simp [ha, hf, Anchor.components] at h
  · rintro rfl
    rfl

/-! ## What is left of a path -/

theorem mem_pieces_of_mem_body {p : Path} {piece : Name} (h : piece ∈ p.body) :
    piece ∈ p.pieces := by
  unfold body anchorPieces at h
  split at h
  · rename_i hp
    rw [hp]
    exact List.mem_cons_of_mem _ h
  · rename_i hp
    rw [hp]
    exact List.mem_cons_of_mem _ h
  · exact h

theorem mem_of_mem_dropNamed {k : Nat} {pieces : List Name} {piece : Name}
    (h : piece ∈ dropNamed k pieces) : piece ∈ pieces := by
  induction pieces generalizing k with
  | nil => cases k <;> simp [dropNamed] at h
  | cons n rest ih =>
    cases k with
    | zero => exact h
    | succ k =>
      rw [dropNamed] at h
      split at h <;> exact List.mem_cons_of_mem _ (ih h)

/-- Pieces of which the first is not empty spell a path that is not absolute. -/
theorem isAbsolute_joinSlash {pieces : List Name}
    (h : ∀ piece, pieces.head? = some piece → piece ≠ [] ∧ '/' ∉ piece) :
    (ofChars (joinSlash pieces)).isAbsolute = false := by
  cases pieces with
  | nil => rfl
  | cons piece rest =>
    obtain ⟨hne, hslash⟩ := h piece rfl
    obtain ⟨c, cs, rfl⟩ := List.exists_cons_of_ne_nil hne
    have hc : c ≠ '/' := fun hc => hslash (hc ▸ List.mem_cons_self)
    cases rest with
    | nil => simpa [isAbsolute, joinSlash] using hc
    | cons next rest => simpa [isAbsolute, joinSlash] using hc

/-- The first piece stays the first one when fillers at the end go. -/
theorem head?_of_head?_trimEnd {pieces : List Name} {piece : Name}
    (h : (trimEnd pieces).head? = some piece) : pieces.head? = some piece := by
  obtain ⟨rest, hrest⟩ := List.head?_eq_some_iff.mp h
  obtain ⟨cut, hcut⟩ : trimEnd pieces <+: pieces := List.rdropWhile_prefix _ _
  rw [← hcut, hrest]
  rfl

theorem not_filler_of_head?_trimStart {pieces : List Name} {piece : Name}
    (h : (trimStart pieces).head? = some piece) : isFiller piece = false ∧ piece ∈ pieces := by
  have hf := List.head?_dropWhile_not isFiller pieces
  rw [trimStart] at h
  rw [h] at hf
  exact ⟨hf, (List.dropWhile_sublist _).subset (List.mem_of_head? h)⟩

/-- Without a component removed, a path stays absolute or stays not absolute. -/
theorem isAbsolute_afterComponents_zero (p : Path) :
    (p.afterComponents 0).isAbsolute = p.isAbsolute := by
  rw [afterComponents, anchor, body]
  rcases p.anchorPieces_pieces with
    rfl | ⟨habs, rest, ha⟩ | ⟨hrel, ⟨rest, ha⟩ | ⟨piece, rest, hf, hs, ha⟩⟩
  · rfl
  · rw [ha, habs]
    simp [assemble, isAbsolute]
  · rw [ha, hrel]
    cases ht : trimEnd rest <;> simp [assemble, isAbsolute]
  · rw [ha, hrel]
    refine isAbsolute_joinSlash fun first hfirst => ?_
    obtain rfl : piece = first := Option.some.inj (head?_of_head?_trimEnd hfirst)
    refine ⟨?_, hs⟩
    rintro rfl
    cases hf

/-- With a component removed, nothing is left of the root. -/
theorem isAbsolute_afterComponents_succ (p : Path) (k : Nat) :
    (p.afterComponents (k + 1)).isAbsolute = false := by
  rw [afterComponents]
  refine isAbsolute_joinSlash fun first hfirst => ?_
  obtain ⟨hf, hmem⟩ := not_filler_of_head?_trimStart (head?_of_head?_trimEnd hfirst)
  refine ⟨?_, slash_not_mem_of_mem_splitSlash
    (mem_pieces_of_mem_body (mem_of_mem_dropNamed hmem))⟩
  rintro rfl
  cases hf

theorem relativeTo?_of_prefix {p base : Path} (h : base.components <+: p.components) :
    p.relativeTo? base = some (p.afterComponents base.components.length) :=
  if_pos (List.isPrefixOf_iff_prefix.mpr h)

theorem relativeTo?_of_not_prefix {p base : Path} (h : ¬base.components <+: p.components) :
    p.relativeTo? base = none :=
  if_neg fun hp => h (List.isPrefixOf_iff_prefix.mp hp)

/-- **What is left of a path below another is not absolute,** unless the other is the empty path. -/
theorem isAbsolute_of_relativeTo? {p base q : Path} (h : p.relativeTo? base = some q) :
    q.isAbsolute = true ↔ p.isAbsolute = true ∧ base = .empty := by
  rw [relativeTo?] at h
  split at h
  · cases h
    rw [← components_eq_nil_iff, ← List.length_eq_zero_iff]
    cases base.components.length with
    | zero => simp [isAbsolute_afterComponents_zero]
    | succ k => simp [isAbsolute_afterComponents_succ]
  · cases h

end Fanout.Path
