import Fanout.Proofs.Path.Components

/-!
# Paths above a path

A path is what its anchor and its body spell (`assemble_anchor_body`), and so are the paths above it
with as much of the body as ends in a name (`mem_chain`).  `IsBody` tells which pieces are the body
of a path with a given anchor: `pieces_assemble` and `body_assemble` read the two off again.

* `chain_eq_selfAndAbove`, `exists_chain_of_parent?` and `above_of_parent?`: the paths above a path
  are one path, the parent, and the paths above that.
* `components_of_parent?`: the parent has the components of the path but the last; and so
  `exists_parent?_of_components` finds the parent of what lies directly below a directory.
-/

set_option autoImplicit false

namespace Fanout.Path

variable {a : Anchor} {ps qs rest : List Name} {n : Name} {p q : Path}

/-! ## Spelling pieces -/

theorem splitSlash_of_not_mem {cs : List Char} (h : '/' ∉ cs) : splitSlash cs = [cs] := by
  induction cs with
  | nil => rfl
  | cons c cs ih =>
    obtain ⟨hc, hcs⟩ := not_or.mp (mt List.mem_cons.mpr h)
    rw [splitSlash, if_neg (Ne.symm hc), ih hcs]

theorem splitSlash_joinSlash (hne : ps ≠ []) (hps : ∀ n ∈ ps, '/' ∉ n) :
    splitSlash (joinSlash ps) = ps := by
  induction ps with
  | nil => exact absurd rfl hne
  | cons n rest ih =>
    obtain ⟨hn, hrest⟩ := List.forall_mem_cons.mp hps
    cases rest with
    | nil => exact splitSlash_of_not_mem hn
    | cons m rest =>
      rw [joinSlash, splitSlash_append_slash, splitSlash_of_not_mem hn,
        ih (List.cons_ne_nil _ _) hrest]
      rfl

theorem joinSlash_prefix (ps qs : List Name) : joinSlash ps <+: joinSlash (ps ++ qs) := by
  induction ps with
  | nil => exact List.nil_prefix
  | cons n rest ih =>
    by_cases hrest : rest = []
    · subst hrest
      cases qs with
      | nil => exact List.prefix_rfl
      | cons m qs => exact List.prefix_append _ _
    · rw [List.cons_append, joinSlash_cons _ hrest,
        joinSlash_cons _ (List.append_ne_nil_of_left_ne_nil hrest qs)]
      exact List.prefix_append_right_inj _ |>.mpr (List.cons_prefix_cons.mpr ⟨rfl, ih⟩)

/-! ## Anchor and body -/

/-- The piece that an anchor is spelled by. -/
def Anchor.pieces : Anchor → List Name
  | .root => [[]]
  | .here => [['.']]
  | .implicit => []

/-- These pieces can follow an anchor: where nothing is spelled before them, the first is a name. -/
structure IsBody (a : Anchor) (ps : List Name) : Prop where
  no_slash : ∀ n ∈ ps, '/' ∉ n
  named : a = .implicit → ∀ n, ps.head? = some n → isFiller n = false

theorem isFiller_of_mem_pieces (h : n ∈ a.pieces) : isFiller n = true := by
  cases a
  case implicit => cases h
  all_goals
    obtain rfl := List.mem_singleton.mp h
    rfl

theorem pieces_eq_anchor_body (p : Path) : p.pieces = p.anchor.pieces ++ p.body := by
  unfold anchor body anchorPieces
  split <;> simp_all [Anchor.pieces]

theorem isBody (hp : p ≠ .empty) : IsBody p.anchor p.body where
  no_slash n hn := slash_not_mem_of_mem_splitSlash (mem_pieces_of_mem_body hn)
  named hi n hn := by
    unfold anchor at hi
    unfold body at hn
    rcases p.anchorPieces_pieces with
      he | ⟨-, rest, ha⟩ | ⟨-, ⟨rest, ha⟩ | ⟨piece, rest, hf, -, ha⟩⟩
    · exact absurd he hp
    · rw [ha] at hi
      cases hi
    · rw [ha] at hi
      cases hi
    · rw [ha] at hn
      cases hn
      exact hf

theorem isAbsolute_iff : p.isAbsolute = true ↔ p.anchor = .root := by
  unfold anchor
  rcases p.anchorPieces_pieces with
    rfl | ⟨habs, rest, ha⟩ | ⟨hrel, ⟨rest, ha⟩ | ⟨piece, rest, -, -, ha⟩⟩
  · decide
  · simp [habs, ha]
  · simp [hrel, ha]
  · simp [hrel, ha]

theorem chars_assemble (hne : ps ≠ []) :
    (assemble a ps).chars = joinSlash (a.pieces ++ ps) := by
  obtain ⟨n, rest, rfl⟩ := List.exists_cons_of_ne_nil hne
  cases a <;> simp [assemble, Anchor.pieces, joinSlash]

/-- A longer body is spelled on from where the shorter one ends. -/
theorem chars_assemble_prefix (a : Anchor) (ps : List Name) (hqs : qs ≠ []) :
    (assemble a ps).chars <+: (assemble a (ps ++ qs)).chars := by
  rw [chars_assemble (List.append_ne_nil_of_right_ne_nil ps hqs), ← List.append_assoc]
  by_cases hps : ps = []
  · subst hps
    obtain ⟨m, qs, rfl⟩ := List.exists_cons_of_ne_nil hqs
    cases a <;> simp [assemble, Anchor.pieces, joinSlash]
  · rw [chars_assemble hps]
    exact joinSlash_prefix _ _

theorem assemble_anchor_body (hb : p.body ≠ []) : assemble p.anchor p.body = p := by
  rw [← ofChars_chars (assemble p.anchor p.body), chars_assemble hb, ← pieces_eq_anchor_body,
    pieces, joinSlash_splitSlash, ofChars_chars]

section Assemble

variable (h : IsBody a ps) (hne : ps ≠ [])

include h hne

theorem pieces_assemble : (assemble a ps).pieces = a.pieces ++ ps := by
  rw [pieces, chars_assemble hne, splitSlash_joinSlash (List.append_ne_nil_of_right_ne_nil _ hne)]
  rw [List.forall_mem_append]
  refine ⟨?_, h.no_slash⟩
  cases a <;> decide

theorem anchorPieces_assemble : anchorPieces (assemble a ps).pieces = (a, ps) := by
  rw [pieces_assemble h hne]
  obtain ⟨n, rest, rfl⟩ := List.exists_cons_of_ne_nil hne
  cases a
  case implicit =>
    have hn := h.named rfl n rfl
    refine anchorPieces_of_named ?_ ?_ rest
    · rintro rfl
      cases hn
    · rintro rfl
      cases hn
  all_goals rfl

theorem anchor_assemble : (assemble a ps).anchor = a :=
  congrArg Prod.fst (anchorPieces_assemble h hne)

theorem body_assemble : (assemble a ps).body = ps :=
  congrArg Prod.snd (anchorPieces_assemble h hne)

end Assemble

/-! ## The chain of paths above -/

theorem IsBody.of_initial (h : IsBody a qs) (hp : ps <+: qs) : IsBody a ps where
  no_slash n hn := h.no_slash n (hp.subset hn)
  named ha n hn := by
    obtain ⟨more, rfl⟩ := hp
    exact h.named ha n (by rw [List.head?_append, hn, Option.some_or])

theorem above_assemble (h : IsBody a (n :: rest).reverse) (hn : isFiller n = false) :
    (assemble a (n :: rest).reverse).above = chain a rest := by
  have hne : (n :: rest).reverse ≠ [] := by simp
  rw [above, body_assemble h hne, anchor_assemble h hne, List.reverse_reverse,
    List.dropWhile_cons_of_neg (by simp [hn])]

/-- A chain is a path and the paths above it. -/
theorem chain_eq_selfAndAbove (h : IsBody a rest.reverse) :
    ∃ q : Path, chain a rest = q.selfAndAbove := by
  induction rest with
  | nil =>
    refine ⟨assemble a [], ?_⟩
    cases a <;> decide
  | cons n rest ih =>
    rw [chain]
    split
    · exact ih (h.of_initial (by simp))
    · rename_i hn
      refine ⟨assemble a (n :: rest).reverse, ?_⟩
      rw [selfAndAbove, above_assemble h (eq_false_of_ne_true hn)]

/-- Below what is above it, a path that ends in a name has that name alone. -/
theorem above_of_named {before : List Name} (hp : p.pieces.reverse = n :: before)
    (hn : isFiller n = false) :
    ∃ rest, before = rest ++ p.anchor.pieces.reverse ∧ p.above = chain p.anchor rest ∧
      IsBody p.anchor (n :: rest).reverse ∧ assemble p.anchor (n :: rest).reverse = p := by
  have hne : p ≠ .empty := by
    rintro rfl
    cases hp
    cases hn
  rw [pieces_eq_anchor_body, List.reverse_append] at hp
  cases hb : p.body.reverse with
  | nil =>
    rw [hb, List.nil_append] at hp
    have hmem : n ∈ p.anchor.pieces := List.mem_reverse.mp (hp ▸ List.mem_cons_self)
    rw [isFiller_of_mem_pieces hmem] at hn
    cases hn
  | cons m rest =>
    rw [hb, List.cons_append] at hp
    obtain ⟨rfl, rfl⟩ := List.cons.inj hp
    have hbody : p.body = (m :: rest).reverse := by rw [← hb, List.reverse_reverse]
    refine ⟨rest, rfl, ?_, hbody ▸ isBody hne, ?_⟩
    · rw [above, hb, List.dropWhile_cons_of_neg (by simp [hn])]
    · rw [← hbody]
      exact assemble_anchor_body (by simp [hbody])

/-- What is above a path ends before the last of its pieces that is no filler, if it has one. -/
theorem above_cases (p : Path) :
    (∃ fillers n rest, p.body.reverse = fillers ++ n :: rest ∧
      (∀ m ∈ fillers, isFiller m = true) ∧ isFiller n = false ∧ IsBody p.anchor rest.reverse ∧
        p.above = chain p.anchor rest) ∨
      (∀ m ∈ p.body, isFiller m = true) ∧
        p.above = if p.anchor = .here then [empty] else [] := by
  rw [above]
  split
  · rename_i n rest hb
    have hn : isFiller n = false := by
      have hhead := List.head?_dropWhile_not isFiller p.body.reverse
      rw [hb] at hhead
      simpa using hhead
    have hne : p ≠ .empty := by
      rintro rfl
      cases hb
    have hsplit : p.body.reverse = p.body.reverse.takeWhile isFiller ++ n :: rest := by
      rw [← hb, List.takeWhile_append_dropWhile]
    have hprefix : rest.reverse <+: p.body := by
      rw [← List.reverse_suffix, List.reverse_reverse]
      exact (List.suffix_cons n rest).trans (hb ▸ List.dropWhile_suffix isFiller)
    exact Or.inl ⟨_, n, rest, hsplit, fun m hm => List.mem_takeWhile_imp hm, hn,
      (isBody hne).of_initial hprefix, rfl⟩
  · rename_i hb
    refine Or.inr ⟨fun m hm => ?_, rfl⟩
    exact List.dropWhile_eq_nil_iff.mp hb m (List.mem_reverse.mpr hm)

/-- The parent of a path is empty, or the first of a chain. -/
theorem exists_chain_of_parent? (h : p.parent? = some q) :
    q = .empty ∨ ∃ rest : List Name, IsBody p.anchor rest.reverse ∧
      chain p.anchor rest = q.selfAndAbove := by
  rw [parent?] at h
  rcases p.above_cases with ⟨_, _, rest, -, -, -, hbody, habove⟩ | ⟨-, habove⟩
  · obtain ⟨q', hq'⟩ := chain_eq_selfAndAbove hbody
    rw [habove, hq'] at h
    cases h
    exact Or.inr ⟨rest, hbody, hq'⟩
  · rw [habove] at h
    split_ifs at h
    · cases h
      exact Or.inl rfl
    · cases h

/-- What is above a path is its parent, and what is above that. -/
theorem above_of_parent? (h : p.parent? = some q) : p.above = q.selfAndAbove := by
  rw [parent?] at h
  rcases p.above_cases with ⟨_, _, rest, -, -, -, hbody, habove⟩ | ⟨-, habove⟩
  · obtain ⟨q', hq'⟩ := chain_eq_selfAndAbove hbody
    rw [habove, hq'] at h ⊢
    cases h
    rfl
  · rw [habove] at h ⊢
    split_ifs at h ⊢
    · cases h
      rfl
    · cases h

/-- The first path of a chain leaves out the fillers at the end of what the chain is made from. -/
theorem exists_of_head?_chain (h : (chain a rest).head? = some q) :
    ∃ fillers before : List Name, rest = fillers ++ before ∧
      (∀ n ∈ fillers, isFiller n = true) ∧ q = assemble a before.reverse := by
  induction rest with
  | nil =>
    refine ⟨[], [], rfl, List.forall_mem_nil _, ?_⟩
    cases a <;> exact (Option.some.inj h).symm
  | cons n rest ih =>
    rw [chain] at h
    split at h
    · rename_i hn
      obtain ⟨fillers, before, rfl, hfillers, hq⟩ := ih h
      exact ⟨n :: fillers, before, rfl, List.forall_mem_cons.mpr ⟨hn, hfillers⟩, hq⟩
    · exact ⟨[], n :: rest, rfl, List.forall_mem_nil _, (Option.some.inj h).symm⟩

theorem anchor_of_head?_chain (h : IsBody a rest.reverse) (hq : (chain a rest).head? = some q) :
    q.anchor = a := by
  obtain ⟨fillers, before, rfl, -, rfl⟩ := exists_of_head?_chain hq
  by_cases hne : before.reverse = []
  · rw [hne]
    cases a <;> decide
  · exact anchor_assemble (h.of_initial (by simp)) hne

/-- What is in a chain ends where the body it is made from does, or earlier. -/
theorem mem_chain (h : q ∈ chain a rest) :
    q = .empty ∨ ∃ ps, ps <+: rest.reverse ∧ q = assemble a ps := by
  induction rest with
  | nil =>
    rw [chain] at h
    split_ifs at h with ha
    · subst ha
      rcases List.mem_cons.mp h with rfl | h
      · exact Or.inr ⟨[], List.prefix_rfl, rfl⟩
      · exact Or.inl (List.mem_singleton.mp h)
    · exact Or.inr ⟨[], List.prefix_rfl, List.mem_singleton.mp h⟩
  | cons n rest ih =>
    have hmore : rest.reverse <+: (n :: rest).reverse := by simp
    have hlater (h : q ∈ chain a rest) :
        q = .empty ∨ ∃ ps, ps <+: (n :: rest).reverse ∧ q = assemble a ps :=
      (ih h).imp_right fun ⟨ps, hps, hq⟩ => ⟨ps, hps.trans hmore, hq⟩
    rw [chain] at h
    split at h
    · exact hlater h
    · rcases List.mem_cons.mp h with rfl | h
      · exact Or.inr ⟨_, List.prefix_rfl, rfl⟩
      · exact hlater h

/-! ## Components of the parent -/

theorem steps_of_fillers (h : ∀ n ∈ ps, isFiller n = true) : steps ps = [] := by
  have hnone : ps.filter (!isFiller ·) = [] := by
    rw [List.filter_eq_nil_iff]
    intro n hn
    simp [h n hn]
  rw [steps, hnone, List.map_nil]

theorem components_eq (p : Path) : p.components = p.anchor.components ++ steps p.body := rfl

theorem components_assemble (h : IsBody a ps) :
    (assemble a ps).components = a.components ++ steps ps := by
  by_cases hne : ps = []
  · subst hne
    cases a <;> rfl
  · rw [components_eq, anchor_assemble h hne, body_assemble h hne]

/-- The first path of a chain has the steps of the pieces that the chain is made from. -/
theorem components_of_head?_chain (h : IsBody a rest.reverse) (hq : (chain a rest).head? = some q) :
    q.components = a.components ++ steps rest.reverse := by
  obtain ⟨fillers, before, rfl, hfillers, rfl⟩ := exists_of_head?_chain hq
  have hend : steps fillers.reverse = [] :=
    steps_of_fillers fun n hn => hfillers n (List.mem_reverse.mp hn)
  rw [components_assemble (h.of_initial (by simp)), List.reverse_append, steps_append, hend,
    List.append_nil]

/-- **The parent of a path has its components but the last.** -/
theorem components_of_parent? (h : p.parent? = some q) :
    ∃ c, p.components = q.components ++ [c] := by
  rw [parent?] at h
  rcases p.above_cases with ⟨fillers, n, rest, hb, hfillers, hn, hbody, habove⟩ | ⟨hfillers, habove⟩
  · have hpieces : p.body = rest.reverse ++ [n] ++ fillers.reverse := by
      rw [← List.reverse_inj, hb]
      simp
    have hlast : steps [n] = [.ofPiece n] := by simp [steps, hn]
    have hend : steps fillers.reverse = [] :=
      steps_of_fillers fun m hm => hfillers m (List.mem_reverse.mp hm)
    refine ⟨.ofPiece n, ?_⟩
    rw [habove] at h
    rw [components_of_head?_chain hbody h, components_eq, hpieces, steps_append, steps_append, hend,
      hlast, List.append_nil, List.append_assoc]
  · rw [habove] at h
    split_ifs at h with ha
    · cases h
      refine ⟨.here, ?_⟩
      rw [components_eq, ha, steps_of_fillers hfillers]
      rfl
    · cases h

/-- The parent is spelled by the beginning of the path. -/
theorem chars_of_parent? (h : p.parent? = some q) : ∃ c more, p.chars = q.chars ++ c :: more := by
  have hne : p ≠ q := by
    rintro rfl
    obtain ⟨c, hc⟩ := components_of_parent? h
    simp at hc
  have hprefix : q.chars <+: p.chars := by
    rw [parent?] at h
    rcases p.above_cases with ⟨fillers, n, rest, hb, -, -, -, habove⟩ | ⟨-, habove⟩
    · rw [habove] at h
      obtain ⟨fillers', before, rfl, -, rfl⟩ := exists_of_head?_chain h
      have hend : fillers'.reverse ++ [n] ++ fillers.reverse ≠ [] := by simp
      have hbody : p.body = before.reverse ++ (fillers'.reverse ++ [n] ++ fillers.reverse) := by
        rw [← List.reverse_inj, hb]
        simp
      have hspelled := chars_assemble_prefix p.anchor before.reverse hend
      rwa [← hbody, assemble_anchor_body (by simp [hbody])] at hspelled
    · rw [habove] at h
      split_ifs at h
      · cases h
        exact List.nil_prefix
      · cases h
  obtain ⟨more, hmore⟩ := hprefix
  cases more with
  | nil =>
    rw [List.append_nil] at hmore
    exact absurd (by rw [← ofChars_chars p, ← hmore, ofChars_chars]) hne
  | cons c more => exact ⟨c, more, hmore.symm⟩

/-- Only the empty path and the root have no parent. -/
theorem components_of_no_parent (h : p.parent? = none) :
    p.components = [] ∨ p.components = [.root] := by
  rw [parent?] at h
  rcases p.above_cases with ⟨_, _, rest, -, -, -, hbody, habove⟩ | ⟨hfillers, habove⟩
  · obtain ⟨q', hq'⟩ := chain_eq_selfAndAbove hbody
    rw [habove, hq'] at h
    cases h
  · rw [components_eq, steps_of_fillers hfillers, List.append_nil]
    cases ha : p.anchor with
    | root => exact Or.inr rfl
    | implicit => exact Or.inl rfl
    | here =>
      rw [habove, if_pos ha] at h
      cases h

/-- A path with one name more than a directory has that directory for its parent, however the two
are spelled. -/
theorem exists_parent?_of_components {dir : Path} (h : p.components = dir.components ++ [.name n]) :
    ∃ q, p.parent? = some q ∧ q.same dir = true := by
  cases hparent : p.parent? with
  | none =>
    rcases components_of_no_parent hparent with hnone | hroot
    · simp [hnone] at h
    · have hlast := congrArg List.getLast? (hroot.symm.trans h)
      simp at hlast
  | some q =>
    obtain ⟨c, hc⟩ := components_of_parent? hparent
    have hsame : q.components = dir.components := (List.append_inj' (hc.symm.trans h) rfl).1
    exact ⟨q, rfl, beq_iff_eq.mpr hsame⟩

/-! ## A file in a directory -/

section File

variable {file : Path}

/-- A file is written after its directory, with a slash before it unless there is one or the
directory is not spelled at all. -/
theorem chars_join (p : Path) (hfile : '/' ∉ file.chars) :
    (p.join file).chars = p.chars ++ file.chars ∧ (p.chars = [] ∨ ∃ cs, p.chars = cs ++ ['/']) ∨
      (p.join file).chars = p.chars ++ '/' :: file.chars ∧ p.chars ≠ [] := by
  have hrel : file.isAbsolute = false := by
    cases hf : file.chars with
    | nil => simp [isAbsolute, hf]
    | cons c cs =>
      rw [hf, List.mem_cons, not_or] at hfile
      simp [isAbsolute, hf, Ne.symm hfile.1]
  unfold join
  rw [hrel, if_neg Bool.false_ne_true]
  split
  · rename_i hend
    rw [Bool.or_eq_true, beq_iff_eq, isEmpty, List.isEmpty_iff, List.getLast?_eq_some_iff] at hend
    exact Or.inl ⟨chars_ofChars _, hend⟩
  · rename_i hend
    rw [Bool.or_eq_true, not_or, isEmpty, List.isEmpty_iff] at hend
    exact Or.inr ⟨chars_ofChars _, hend.1⟩

/-- A file adds one piece, which may take the place of an empty one. -/
theorem pieces_join (p : Path) (hfile : '/' ∉ file.chars) :
    ∃ ps fillers, p.pieces = ps ++ fillers ∧ (∀ n ∈ fillers, isFiller n = true) ∧
      (p.join file).pieces = ps ++ [file.chars] ∧ (p.join file).isAbsolute = p.isAbsolute := by
  have hpiece : splitSlash file.chars = [file.chars] := splitSlash_of_not_mem hfile
  have hempty : ∀ n ∈ [([] : Name)], isFiller n = true := by simp [isFiller]
  rcases chars_join p hfile with ⟨hjoin, hp | ⟨cs, hp⟩⟩ | ⟨hjoin, hp⟩
  · refine ⟨[], [[]], ?_, hempty, ?_, ?_⟩
    · rw [pieces, hp]
      rfl
    · rw [pieces, hjoin, hp, List.nil_append, hpiece, List.nil_append]
    · rw [isAbsolute, isAbsolute, hjoin, hp, List.nil_append]
      cases hf : file.chars with
      | nil => rfl
      | cons c rest =>
        rw [hf, List.mem_cons, not_or] at hfile
        simp [Ne.symm hfile.1]
  · refine ⟨splitSlash cs, [[]], ?_, hempty, ?_, ?_⟩
    · rw [pieces, hp, splitSlash_append_slash]
      rfl
    · rw [pieces, hjoin, hp, List.append_assoc, List.singleton_append, splitSlash_append_slash,
        hpiece]
    · rw [isAbsolute, isAbsolute, hjoin, hp]
      cases cs <;> rfl
  · refine ⟨p.pieces, [], (List.append_nil _).symm, List.forall_mem_nil _, ?_, ?_⟩
    · rw [pieces, hjoin, splitSlash_append_slash, hpiece, pieces]
    · rw [isAbsolute, isAbsolute, hjoin, List.head?_append_of_ne_nil _ hp]

end File

end Fanout.Path
