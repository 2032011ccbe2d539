import Fanout.Proofs.Disk.Tree
import Mathlib.Data.List.TakeWhile

/-!
# Files and directories that are made

* `write_eq_ok` and `makeDir_eq_ok` say what a file written and a directory made come to: one node
  put in a directory, which the path names from then on.
* `makeDirs_gains`: making a directory with those that enclose it puts directories where nothing
  was, each of them named by the path or one above it (`Gains`).  If it goes well, the path is a
  directory.
* `makeDirs_of_made`: a directory that is there is not made again.
-/

set_option autoImplicit false

namespace Fanout.Disk

variable {d d' d'' : Disk} {p : Path} {ps : List Path} {loc : Location} {data : ByteArray}

/-! ## One node -/

theorem write_eq_ok (h : d.write p data = .ok d') :
    ∃ n loc, d.slot p p.pieces.reverse = .ok (n :: loc) ∧ d.hasDir loc = true ∧
      d.hasDir (n :: loc) = false ∧ d' = d.put (n :: loc) (.file data) ∧
      d'.find p = .ok (n :: loc) := by
  unfold write at h
  split at h
  · cases h
  · cases h
  · rename_i loc hslot
    split_ifs at h with hdir
    cases h
    rw [Bool.not_eq_true] at hdir
    obtain ⟨-, n, -, dir, -, -, hin, -, -, rfl⟩ := slot_eq_ok_iff.mp hslot
    have hpieces : p.pieces = p.pieces.reverse.reverse ++ [] := by simp
    refine ⟨n, dir, hslot, hin, hdir, rfl, ?_⟩
    apply find_of_slot hslot hpieces (.put_file hdir data) (List.forall_mem_nil _) _ (.inl rfl)
    rw [node?_put, if_pos rfl, Option.isSome_some]

/-- The fillers at the end of a path that a directory is made by are empty pieces. -/
theorem pieces_eq (p : Path) :
    ∃ fillers : List Name, p.pieces = (p.pieces.reverse.dropWhile List.isEmpty).reverse ++ fillers ∧
      ∀ n ∈ fillers, Path.isFiller n = true := by
  refine ⟨(p.pieces.reverse.takeWhile List.isEmpty).reverse, ?_, ?_⟩
  · rw [← List.reverse_append, List.takeWhile_append_dropWhile, List.reverse_reverse]
  · intro n hn
    rw [List.mem_reverse] at hn
    rw [Path.isFiller, List.mem_takeWhile_imp hn, Bool.true_or]

theorem makeDir_eq_ok (h : d.makeDir p = .ok d') :
    ∃ n loc, d.hasDir loc = true ∧ d.node? (n :: loc) = none ∧ d' = d.put (n :: loc) .dir ∧
      d'.find p = .ok (n :: loc) := by
  unfold makeDir at h
  split at h
  · cases h
  · rename_i loc hslot
    split_ifs at h with hsome
    cases h
    rw [Bool.not_eq_true, Option.isSome_eq_false_iff, Option.isNone_iff_eq_none] at hsome
    obtain ⟨-, n, -, dir, -, -, hin, -, -, rfl⟩ := slot_eq_ok_iff.mp hslot
    obtain ⟨fillers, hpieces, hfill⟩ := pieces_eq p
    have hnode : (d.put (n :: dir) .dir).node? (n :: dir) = some .dir := by
      rw [node?_put, if_pos rfl]
    refine ⟨n, dir, hin, hsome, rfl, ?_⟩
    apply find_of_slot hslot hpieces (.put_dir hsome) hfill _ (.inr (hasDir_iff.mpr hnode))
    rw [hnode, Option.isSome_some]

theorem isDir_of_find (hf : d.find p = .ok loc) (hdir : d.hasDir loc = true) :
    d.isDir p = true := by
  rw [isDir, hf]
  exact hdir

/-! ## Directories that are made -/

/-- The second disk has more directories than the first, each named by one of some paths. -/
def Gains (ps : List Path) (d d' : Disk) : Prop :=
  ∃ ops, d.Fits ops ∧ d' = d.putAll ops ∧
    ∀ op ∈ ops, op.2 = .dir ∧ ∃ q ∈ ps, d'.find q = .ok op.1

namespace Gains

theorem refl (ps : List Path) (d : Disk) : Gains ps d d :=
  ⟨[], .nil d, rfl, List.forall_mem_nil _⟩

theorem grows (h : Gains ps d d') : Grows d d' := by
  obtain ⟨ops, hfits, rfl, -⟩ := h
  exact hfits.grows

theorem trans (h : Gains ps d d') (h' : Gains ps d' d'') : Gains ps d d'' := by
  have hgrows := h'.grows
  obtain ⟨ops, hfits, rfl, hops⟩ := h
  obtain ⟨more, hmore, rfl, hmore'⟩ := h'
  refine ⟨ops ++ more, hfits.append hmore, (d.putAll_append ops more).symm, ?_⟩
  rw [List.forall_mem_append]
  refine ⟨fun op hop => ?_, hmore'⟩
  obtain ⟨hdir, q, hq, hfind⟩ := hops op hop
  exact ⟨hdir, q, hq, hgrows.find hfind⟩

theorem mono {qs : List Path} (h : Gains ps d d') (hsub : ps ⊆ qs) : Gains qs d d' := by
  obtain ⟨ops, hfits, rfl, hops⟩ := h
  refine ⟨ops, hfits, rfl, fun op hop => ?_⟩
  obtain ⟨hdir, q, hq, hfind⟩ := hops op hop
  exact ⟨hdir, q, hsub hq, hfind⟩

end Gains

theorem makeDir_gains (h : d.makeDir p = .ok d') :
    Gains [p] d d' ∧ d'.isDir p = true := by
  obtain ⟨n, loc, hin, hnone, rfl, hfind⟩ := makeDir_eq_ok h
  refine ⟨⟨[(n :: loc, .dir)], .dir hin hnone (.nil _), rfl, ?_⟩, isDir_of_find hfind ?_⟩
  · rw [List.forall_mem_singleton]
    exact ⟨rfl, p, List.mem_singleton_self p, hfind⟩
  · rw [hasDir_iff, node?_put, if_pos rfl]

theorem ensureDir_gains (d : Disk) (p : Path) : Gains [p] d (d.ensureDir p).1 := by
  unfold ensureDir
  split
  · rename_i d' hmake
    exact (makeDir_gains hmake).1
  · split <;> exact .refl _ d

theorem isDir_of_ensureDir (h : d.ensureDir p = (d', .ok ())) : d'.isDir p = true := by
  unfold ensureDir at h
  split at h
  · rename_i d'' hmake
    cases h
    exact (makeDir_gains hmake).2
  · split at h
    · rename_i hdir
      cases h
      exact hdir
    · cases h

theorem ensureDir_eq_error {fault : SystemFault} (h : d.ensureDir p = (d', .error fault)) :
    d' = d ∧ d.makeDir p = .error fault ∧ d.isDir p = false := by
  unfold ensureDir at h
  split at h
  · cases h
  · rename_i hmake
    split_ifs at h with hdir
    · cases h
    · cases h
      exact ⟨rfl, hmake, eq_false_of_ne_true hdir⟩

/-- **Directories are made where nothing was,** as far as the chain gets. -/
theorem makeChain_gains (d : Disk) (ps : List Path) : Gains ps d (d.makeChain ps).1 := by
  induction ps generalizing d with
  | nil => exact .refl [] d
  | cons p enclosing ih =>
    have hp : [p] ⊆ p :: enclosing := by simp
    have hrec := (ih d).mono (List.subset_cons_self p enclosing)
    unfold makeChain
    split
    · exact .refl _ d
    · split
      · rename_i d' hmake
        exact (makeDir_gains hmake).1.mono hp
      · split
        · rename_i d' fault hchain
          rw [hchain] at hrec
          exact hrec
        · rename_i d' hchain
          rw [hchain] at hrec
          exact hrec.trans ((ensureDir_gains d' p).mono hp)
      · split <;> exact .refl _ d

theorem isDir_of_makeChain (h : d.makeChain (p :: ps) = (d', .ok ())) :
    p.isEmpty = true ∨ d'.isDir p = true := by
  unfold makeChain at h
  split at h
  · rename_i hempty
    exact Or.inl hempty
  · right
    split at h
    · rename_i hmake
      cases h
      exact (makeDir_gains hmake).2
    · split at h
      · cases h
      · exact isDir_of_ensureDir h
    · split at h
      · rename_i hdir
        cases h
        exact hdir
      · cases h

theorem makeDirs_gains (d : Disk) (p : Path) : Gains p.selfAndAbove d (d.makeDirs p).1 :=
  makeChain_gains d p.selfAndAbove

theorem isDir_of_makeDirs (h : d.makeDirs p = (d', .ok ())) :
    p.isEmpty = true ∨ d'.isDir p = true :=
  isDir_of_makeChain h

/-! ## Directories that are there -/

/-- What lies above is looked at only where something is missing. -/
theorem makeChain_of_error {fault : SystemFault} (hp : p.isEmpty = false)
    (hmake : d.makeDir p = .error fault) (hf : fault ≠ .missing) (enclosing : List Path) :
    d.makeChain (p :: enclosing) = if d.isDir p then (d, .ok ()) else (d, .error fault) := by
  unfold makeChain
  rw [hp, hmake]
  cases fault
  case missing => exact absurd rfl hf
  all_goals rfl

theorem find_of_makeDir_missing (h : d.makeDir p = .error .missing) :
    d.find p = .error .missing := by
  obtain ⟨fillers, hpieces, -⟩ := pieces_eq p
  unfold makeDir at h
  split at h
  · rename_i hslot
    cases h
    exact find_of_slot_missing hslot hpieces
  · split at h <;> cases h

/-- A directory that is there is not made, and is not said to be missing. -/
theorem makeDir_of_isDir (h : d.isDir p = true) :
    ∃ fault, fault ≠ .missing ∧ d.makeDir p = .error fault := by
  obtain ⟨fillers, hpieces, -⟩ := pieces_eq p
  unfold isDir at h
  cases hfind : d.find p with
  | error fault =>
    rw [hfind] at h
    cases h
  | ok l =>
    cases hmake : d.makeDir p with
    | error fault =>
      refine ⟨fault, ?_, rfl⟩
      rintro rfl
      rw [find_of_makeDir_missing hmake] at hfind
      cases hfind
    | ok d' =>
      unfold makeDir at hmake
      split at hmake
      · cases hmake
      · rename_i hslot
        rw [isSome_of_find hslot hpieces hfind] at hmake
        cases hmake

/-- A directory that is there is not made again. -/
theorem makeDirs_of_made (h : p.isEmpty = true ∨ d.isDir p = true) :
    d.makeDirs p = (d, .ok ()) := by
  unfold makeDirs Path.selfAndAbove
  cases hempty : p.isEmpty with
  | true =>
    unfold makeChain
    rw [if_pos hempty]
  | false =>
    rw [hempty] at h
    have hdir : d.isDir p = true := h.resolve_left nofun
    obtain ⟨fault, hfault, hmake⟩ := makeDir_of_isDir hdir
    rw [makeChain_of_error hempty hmake hfault, if_pos hdir]

end Fanout.Disk
