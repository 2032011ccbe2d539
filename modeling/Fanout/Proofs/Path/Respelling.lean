import Fanout.Proofs.Path.Relative

/-!
# Paths spelled with other characters

A path is cut at its slashes, and of what stands between them only dots are looked at.  So a way to
spell texts with other characters that leaves slashes and dots alone, a `Respelling`, changes the
names of a path and nothing else.

* `splitSlash_respell` and `isFiller_respell`: the pieces are respelled one by one, and a piece
  names something if it did before.
* `components_path`: so are the components.
* `relativeTo?_path`, `join_path`: what names are told apart by stays if the respelling is
  injective, and then paths are made relative and joined before as after.
-/

set_option autoImplicit false

namespace Fanout.Path

/-- A component with another name, if it is a name. -/
def Component.map (f : Name → Name) : Component → Component
  | .root => .root
  | .here => .here
  | .up => .up
  | .name text => .name (f text)

theorem Component.map_injective {f : Name → Name} (hf : Function.Injective f) :
    Function.Injective (Component.map f) := by
  intro c d h
  cases c <;> cases d
  case name.name n m => exact congrArg Component.name (hf (Component.name.inj h))
  all_goals first | rfl | cases h

/-- A way to spell texts with other characters that leaves slashes and dots alone. -/
structure Respelling where
  respell : List Char → List Char
  append_slash : ∀ cs ds, respell (cs ++ '/' :: ds) = respell cs ++ '/' :: respell ds
  no_slash : ∀ n, '/' ∉ n → '/' ∉ respell n
  dots : ∀ k n, respell n = List.replicate k '.' ↔ n = List.replicate k '.'

namespace Respelling

variable (f : Respelling) {n : Name} {ps : List Name} {a : Anchor} {p q base : Path}

def path (p : Path) : Path := ofChars (f.respell p.chars)

/-! ## Pieces -/

@[simp] theorem respell_nil_iff : f.respell n = [] ↔ n = [] := f.dots 0 n

@[simp] theorem respell_nil : f.respell [] = [] := f.respell_nil_iff.mpr rfl

theorem respell_dot_iff : f.respell n = ['.'] ↔ n = ['.'] := f.dots 1 n

theorem respell_up_iff : f.respell n = ['.', '.'] ↔ n = ['.', '.'] := f.dots 2 n

theorem joinSlash_map (ps : List Name) :
    joinSlash (ps.map f.respell) = f.respell (joinSlash ps) := by
  induction ps with
  | nil => exact f.respell_nil.symm
  | cons n rest ih =>
    cases rest with
    | nil => rfl
    | cons m rest =>
      rw [joinSlash, f.append_slash, ← ih]
      rfl

/-- **The pieces are respelled one by one.** -/
theorem splitSlash_respell (cs : List Char) :
    splitSlash (f.respell cs) = (splitSlash cs).map f.respell := by
  conv_lhs => rw [← joinSlash_splitSlash cs, ← f.joinSlash_map]
  refine splitSlash_joinSlash ?_ ?_
  · exact mt List.map_eq_nil_iff.mp (splitSlash_ne_nil cs)
  · intro n hn
    obtain ⟨m, hm, rfl⟩ := List.mem_map.mp hn
    exact f.no_slash m (slash_not_mem_of_mem_splitSlash hm)

@[simp] theorem isFiller_respell (n : Name) : isFiller (f.respell n) = isFiller n := by
  rw [Bool.eq_iff_iff]
  simp [isFiller, respell_dot_iff]

theorem ofPiece_respell (n : Name) :
    Component.ofPiece (f.respell n) = (Component.ofPiece n).map f.respell := by
  unfold Component.ofPiece
  by_cases hn : n = ['.', '.']
  · rw [if_pos hn, if_pos (f.respell_up_iff.mpr hn)]
    rfl
  · rw [if_neg hn, if_neg (mt f.respell_up_iff.mp hn)]
    rfl

theorem steps_map (ps : List Name) :
    steps (ps.map f.respell) = (steps ps).map (Component.map f.respell) := by
  have hcomp : (!isFiller ·) ∘ f.respell = (!isFiller ·) := by
    funext n
    simp
  rw [steps, steps, List.filter_map, hcomp, List.map_map, List.map_map]
  exact List.map_congr_left fun n _ => f.ofPiece_respell n

theorem anchorPieces_map (ps : List Name) :
    anchorPieces (ps.map f.respell) = ((anchorPieces ps).1, (anchorPieces ps).2.map f.respell) := by
  cases ps with
  | nil => rfl
  | cons n rest =>
    by_cases hn : n = []
    · subst hn
      rw [List.map_cons, respell_nil]
      cases rest with
      | nil => simp [anchorPieces]
      | cons m rest => rfl
    · by_cases hd : n = ['.']
      · subst hd
        rw [List.map_cons, f.respell_dot_iff.mpr rfl]
        rfl
      · rw [List.map_cons, anchorPieces_of_named (mt f.respell_nil_iff.mp hn)
          (mt f.respell_dot_iff.mp hd), anchorPieces_of_named hn hd]
        rfl

theorem isBody_map (h : IsBody a ps) : IsBody a (ps.map f.respell) where
  no_slash n hn := by
    obtain ⟨m, hm, rfl⟩ := List.mem_map.mp hn
    exact f.no_slash m (h.no_slash m hm)
  named ha n hn := by
    rw [List.head?_map] at hn
    obtain ⟨m, hm, rfl⟩ := Option.map_eq_some_iff.mp hn
    rw [isFiller_respell]
    exact h.named ha m hm

/-! ## Paths -/

@[simp] theorem chars_path (p : Path) : (f.path p).chars = f.respell p.chars := chars_ofChars _

theorem pieces_path (p : Path) : (f.path p).pieces = p.pieces.map f.respell := by
  rw [pieces, chars_path, splitSlash_respell]
  rfl

theorem anchor_path (p : Path) : (f.path p).anchor = p.anchor := by
  rw [anchor, pieces_path, anchorPieces_map]
  rfl

theorem body_path (p : Path) : (f.path p).body = p.body.map f.respell := by
  rw [body, pieces_path, anchorPieces_map]
  rfl

theorem components_anchor_map (a : Anchor) :
    a.components.map (Component.map f.respell) = a.components := by
  cases a <;> rfl

/-- **The components of a respelled path** are those of the path, respelled. -/
theorem components_path (p : Path) :
    (f.path p).components = p.components.map (Component.map f.respell) := by
  rw [components_eq, components_eq, List.map_append, components_anchor_map, anchor_path, body_path,
    steps_map]

theorem path_assemble (a : Anchor) (ps : List Name) :
    f.path (assemble a ps) = assemble a (ps.map f.respell) := by
  have hroot : f.respell ('/' :: joinSlash ps) = '/' :: f.respell (joinSlash ps) := by
    have h := f.append_slash [] (joinSlash ps)
    rwa [respell_nil, List.nil_append, List.nil_append] at h
  have hdot : f.respell ['.'] = ['.'] := f.respell_dot_iff.mpr rfl
  cases a with
  | root => rw [path, assemble, chars_ofChars, hroot, assemble, joinSlash_map]
  | implicit => rw [path, assemble, chars_ofChars, assemble, joinSlash_map]
  | here =>
    cases ps with
    | nil => rw [path, assemble, chars_ofChars, hdot]; rfl
    | cons n rest =>
      have hhere := f.append_slash ['.'] (joinSlash (n :: rest))
      rw [hdot, ← joinSlash_map] at hhere
      rw [path, assemble, chars_ofChars]
      · exact congrArg ofChars hhere
      · simp

/-! ## Paths made relative and joined -/

theorem trimStart_map (ps : List Name) :
    trimStart (ps.map f.respell) = (trimStart ps).map f.respell := by
  have hcomp : isFiller ∘ f.respell = isFiller := funext f.isFiller_respell
  rw [trimStart, List.dropWhile_map, hcomp]
  rfl

theorem trimEnd_map (ps : List Name) :
    trimEnd (ps.map f.respell) = (trimEnd ps).map f.respell := by
  have hcut := f.trimStart_map ps.reverse
  rw [trimStart, trimStart] at hcut
  rw [trimEnd, trimEnd, ← List.map_reverse, hcut, List.map_reverse]

theorem dropNamed_map (k : Nat) (ps : List Name) :
    dropNamed k (ps.map f.respell) = (dropNamed k ps).map f.respell := by
  induction ps generalizing k with
  | nil => cases k <;> rfl
  | cons n rest ih =>
    cases k with
    | zero => rfl
    | succ k =>
      rw [List.map_cons, dropNamed, dropNamed, isFiller_respell]
      split
      · exact ih (k + 1)
      · exact ih k

theorem afterComponents_path (p : Path) (k : Nat) :
    (f.path p).afterComponents k = f.path (p.afterComponents k) := by
  cases k with
  | zero =>
    rw [afterComponents, afterComponents, path_assemble, anchor_path, body_path, trimEnd_map]
  | succ k =>
    have hspell : ∀ ps : List Name,
        ofChars (joinSlash (ps.map f.respell)) = f.path (ofChars (joinSlash ps)) := by
      intro ps
      rw [path, chars_ofChars, joinSlash_map]
    rw [afterComponents, afterComponents, anchor_path, body_path]
    simp only [dropNamed_map, trimStart_map, trimEnd_map, hspell]

theorem relativeTo?_path (hf : Function.Injective f.respell) (p base : Path) :
    (f.path p).relativeTo? (f.path base) = (p.relativeTo? base).map f.path := by
  have hprefix : (f.path base).components.isPrefixOf (f.path p).components =
      base.components.isPrefixOf p.components := by
    rw [Bool.eq_iff_iff, List.isPrefixOf_iff_prefix, List.isPrefixOf_iff_prefix, components_path,
      components_path, List.prefix_map_iff_of_injective (Component.map_injective hf)]
  rw [relativeTo?, relativeTo?, hprefix, afterComponents_path, components_path, List.length_map]
  split <;> rfl

theorem isAbsolute_path (p : Path) : (f.path p).isAbsolute = p.isAbsolute := by
  rw [Bool.eq_iff_iff, isAbsolute_iff, isAbsolute_iff, anchor_path]

theorem getLast?_respell (cs : List Char) :
    (f.respell cs).getLast? = some '/' ↔ cs.getLast? = some '/' := by
  constructor
  · intro h
    obtain ⟨before, n, hpieces⟩ : ∃ before n, splitSlash cs = before ++ [n] := by
      rcases List.eq_nil_or_concat (splitSlash cs) with hnil | ⟨before, n, hpieces⟩
      · exact absurd hnil (splitSlash_ne_nil cs)
      · exact ⟨before, n, by rw [hpieces, List.concat_eq_append]⟩
    have hcs : cs = lead before ++ n := by
      rw [← joinSlash_concat, ← hpieces, joinSlash_splitSlash]
    have hrespell : f.respell cs = lead (before.map f.respell) ++ f.respell n := by
      rw [← joinSlash_concat, hcs, ← joinSlash_concat, ← f.joinSlash_map, List.map_append]
      rfl
    by_cases hn : n = []
    · subst hn
      rw [List.append_nil] at hcs
      rcases lead_eq before with hnil | ⟨ds, hds⟩
      · rw [hcs, hnil, respell_nil] at h
        cases h
      · rw [hcs, hds, List.getLast?_concat]
    · -- what is written after the last slash is a name before and after
      rw [hrespell, List.getLast?_append_of_ne_nil _ (mt f.respell_nil_iff.mp hn)] at h
      have hmem : n ∈ splitSlash cs := by simp [hpieces]
      have hslash : '/' ∉ n := slash_not_mem_of_mem_splitSlash hmem
      exact absurd (List.mem_of_getLast? h) (f.no_slash n hslash)
  · intro h
    obtain ⟨ds, rfl⟩ := List.getLast?_eq_some_iff.mp h
    rw [f.append_slash, respell_nil, List.getLast?_concat]

theorem isEmpty_path (p : Path) : (f.path p).isEmpty = p.isEmpty := by
  rw [Bool.eq_iff_iff, isEmpty, isEmpty, chars_path, List.isEmpty_iff, List.isEmpty_iff,
    respell_nil_iff]

/-- Nothing is written between a text that is empty or ends in a slash and what follows. -/
theorem append_of_ends {cs : List Char} (h : cs = [] ∨ cs.getLast? = some '/') (ds : List Char) :
    f.respell (cs ++ ds) = f.respell cs ++ f.respell ds := by
  rcases h with rfl | h
  · rw [respell_nil, List.nil_append, List.nil_append]
  · obtain ⟨init, rfl⟩ := List.getLast?_eq_some_iff.mp h
    rw [List.append_assoc, List.singleton_append, f.append_slash, f.append_slash, respell_nil,
      List.append_assoc, List.singleton_append]

/-- **Respelled paths are joined as the paths are.** -/
theorem join_path (p q : Path) : (f.path p).join (f.path q) = f.path (p.join q) := by
  have hlast : ((f.path p).chars.getLast? == some '/') = (p.chars.getLast? == some '/') := by
    rw [Bool.eq_iff_iff, beq_iff_eq, beq_iff_eq, chars_path, getLast?_respell]
  unfold join
  rw [isAbsolute_path, isEmpty_path, hlast, chars_path, chars_path]
  split
  · rfl
  · split
    · rename_i hends
      rw [isEmpty, Bool.or_eq_true, List.isEmpty_iff, beq_iff_eq] at hends
      rw [path, chars_ofChars, f.append_of_ends hends]
    · rw [path, chars_ofChars, f.append_slash]

end Respelling

end Fanout.Path
