import Fanout.Proofs.Disk.WrittenFiles
import Fanout.Proofs.Path.Parents

/-!
# What is refused stays refused

`IsTree` is what makes a disk a tree: every node lies in a directory, and the current directory is
there.  On a tree that grows, a fault other than a missing entry is final, since directories and
files stay what they are (`Grows.walk_error`).

* `makeChain_refused`: a directory that could not be made cannot be made later, and nothing else is
  made on the way to it.
* `DiskHost.write_refused`: a write that was refused is refused later, and changes nothing then.
  The fault may be another one: a file `b/.` is refused as missing, and as a directory once `b` is
  one.
-/

set_option autoImplicit false

namespace Fanout

namespace Disk

variable {d d' v : Disk} {loc l dir : Location} {n : Name} {ps rest : List Name} {p : Path}
  {fault : SystemFault}

/-! ## Trees -/

/-- Every node lies in a directory, and the current directory is one. -/
structure IsTree (d : Disk) : Prop where
  cwd : d.hasDir d.cwd = true
  inDir : ∀ {n : Name} {loc : Location}, (d.node? (n :: loc)).isSome = true → d.hasDir loc = true

theorem node?_bare (cwd loc : Location) :
    (bare cwd).node? loc = if loc <:+ cwd then some .dir else none := by
  cases loc with
  | nil => simp [node?]
  | cons n loc =>
    show (dirsTo cwd).lookup (n :: loc) = _
    induction cwd with
    | nil => simp [dirsTo]
    | cons m cwd ih =>
      rw [dirsTo, List.lookup_cons, ih]
      by_cases h : n :: loc = m :: cwd
      · simp [h]
      · rw [beq_false_of_ne h]
        simp only [List.suffix_cons_iff, h, false_or]

theorem isTree_bare (cwd : Location) : (bare cwd).IsTree where
  cwd := by
    rw [hasDir_iff, node?_bare]
    exact if_pos (List.suffix_refl cwd)
  inDir {n loc} hs := by
    have hsuffix : n :: loc <:+ cwd := by simpa [node?_bare] using hs
    rw [hasDir_iff, node?_bare, if_pos ((List.suffix_cons n loc).trans hsuffix)]

theorem IsTree.put {node : Node} (ht : d.IsTree) (hloc : d.hasDir loc = true)
    (hg : d.Grows (d.put (n :: loc) node)) : (d.put (n :: loc) node).IsTree where
  cwd := hg.cwd_eq ▸ hg.hasDir ht.cwd
  inDir {m l} hs := by
    rw [node?_put] at hs
    split at hs
    · rename_i heq
      cases heq
      exact hg.hasDir hloc
    · exact hg.hasDir (ht.inDir hs)

theorem Fits.isTree {ops : List (Location × Node)} (h : d.Fits ops) (ht : d.IsTree) :
    (d.putAll ops).IsTree := by
  induction h with
  | nil => exact ht
  | dir hloc hnone _ ih => exact ih (ht.put hloc (.put_dir hnone))
  | file hloc hdir _ ih => exact ih (ht.put hloc (.put_file hdir _))

theorem Gains.isTree {qs : List Path} (h : Gains qs d d') (ht : d.IsTree) : d'.IsTree := by
  obtain ⟨ops, hfits, rfl, -⟩ := h
  exact hfits.isTree ht

namespace IsTree

theorem hasDir_tail (ht : d.IsTree) (hs : (d.node? loc).isSome = true) :
    d.hasDir loc.tail = true := by
  cases loc with
  | nil => rfl
  | cons n loc => exact ht.inDir hs

theorem step_isSome (ht : d.IsTree) (h : d.step loc n = .ok l) : (d.node? l).isSome = true := by
  have hsome {m : Location} (hm : d.hasDir m = true) : (d.node? m).isSome = true := by
    rw [hasDir_iff.mp hm, Option.isSome_some]
  obtain ⟨hdir, ⟨-, rfl⟩ | ⟨-, rfl⟩ | ⟨-, -, hs, rfl⟩⟩ := step_eq_ok_iff.mp h
  · exact hsome hdir
  · exact hsome (ht.hasDir_tail (hsome hdir))
  · exact hs

theorem walk_isSome (ht : d.IsTree) (hs : (d.node? loc).isSome = true)
    (h : d.walk loc ps = .ok l) : (d.node? l).isSome = true := by
  induction ps generalizing loc with
  | nil =>
    cases h
    exact hs
  | cons n rest ih =>
    rw [walk_cons] at h
    cases hstep : d.step loc n with
    | error fault =>
      rw [hstep] at h
      cases h
    | ok m =>
      rw [hstep] at h
      exact ih (ht.step_isSome hstep) h

end IsTree

/-! ## Faults that are final -/

theorem Grows.step_error (hg : d.Grows v) (hs : (d.node? loc).isSome = true)
    (h : d.step loc n = .error fault) (hf : fault ≠ .missing) : v.step loc n = .error fault := by
  unfold Disk.step at h ⊢
  cases hdir : d.hasDir loc with
  | false =>
    rw [hdir] at h
    rw [hg.hasDir_eq_false hs hdir]
    exact h
  | true =>
    rw [hdir] at h
    rw [hg.hasDir hdir]
    split_ifs at h ⊢ <;> simp_all

theorem Grows.walk_error (hg : d.Grows v) (ht : d.IsTree) (hs : (d.node? loc).isSome = true)
    (h : d.walk loc ps = .error fault) (hf : fault ≠ .missing) : v.walk loc ps = .error fault := by
  induction ps generalizing loc with
  | nil => cases h
  | cons n rest ih =>
    rw [walk_cons] at h ⊢
    cases hstep : d.step loc n with
    | error fault' =>
      rw [hstep] at h
      cases h
      rw [hg.step_error hs hstep hf]
      rfl
    | ok l =>
      rw [hstep] at h
      rw [hg.step hstep]
      exact ih (ht.step_isSome hstep) h

/-! ## Where a path leads -/

/-- Where paths with an anchor start. -/
def base (d : Disk) (a : Path.Anchor) : Location := if a = .root then [] else d.cwd

/-- The directory that an anchor and pieces lead to; the pieces are given innermost first. -/
def reach (d : Disk) (a : Path.Anchor) (rev : List Name) : Except SystemFault Location :=
  d.walkToDir (d.base a) rev.reverse

variable {a : Path.Anchor} {rev : List Name}

theorem reach_eq_ok_iff :
    d.reach a rev = .ok l ↔ d.walk (d.base a) rev.reverse = .ok l ∧ d.hasDir l = true :=
  walkToDir_eq_ok_iff

theorem reach_cons_eq_ok_iff :
    d.reach a (n :: rest) = .ok l ↔
      ∃ dir, d.reach a rest = .ok dir ∧ d.step dir n = .ok l ∧ d.hasDir l = true := by
  simp only [reach_eq_ok_iff]
  rw [List.reverse_cons, walk_append]
  constructor
  · rintro ⟨hwalk, hdir⟩
    cases hrest : d.walk (d.base a) rest.reverse with
    | error fault =>
      rw [hrest] at hwalk
      cases hwalk
    | ok dir =>
      rw [hrest] at hwalk
      have hstep : d.step dir n = .ok l := (d.walk_singleton dir n).symm.trans hwalk
      exact ⟨dir, ⟨rfl, (step_eq_ok_iff.mp hstep).1⟩, hstep, hdir⟩
  · rintro ⟨dir, ⟨hrest, -⟩, hstep, hdir⟩
    rw [hrest]
    exact ⟨(d.walk_singleton dir n).trans hstep, hdir⟩

theorem start_eq_base (d : Disk) (p : Path) : d.start p = d.base p.anchor := by
  unfold start base
  simp only [Path.isAbsolute_iff]

theorem Grows.reach (hg : d.Grows v) (h : d.reach a rev = .ok l) : v.reach a rev = .ok l := by
  rw [reach_eq_ok_iff] at h ⊢
  have hbase : v.base a = d.base a := by rw [base, base, hg.cwd_eq]
  rw [hbase]
  exact ⟨hg.walk h.1, hg.hasDir h.2⟩

namespace IsTree

theorem hasDir_base (ht : d.IsTree) (a : Path.Anchor) : d.hasDir (d.base a) = true := by
  unfold base
  split
  · rfl
  · exact ht.cwd

/-- The piece of the anchor stays where the path starts. -/
theorem walk_anchor (ht : d.IsTree) (a : Path.Anchor) (ps : List Name) :
    d.walk (d.base a) (a.pieces ++ ps) = d.walk (d.base a) ps := by
  rw [walk_append, walk_fillers (fun n => Path.isFiller_of_mem_pieces) (ht.hasDir_base a)]
  rfl

theorem walk_before (ht : d.IsTree) (p : Path) (rest : List Name) :
    d.walk (d.start p) (rest ++ p.anchor.pieces.reverse).reverse =
      d.walk (d.base p.anchor) rest.reverse := by
  rw [List.reverse_append, List.reverse_reverse, start_eq_base, ht.walk_anchor]

theorem isDir_of_fillers (ht : d.IsTree) (hp : pathFault? p = none)
    (h : ∀ n ∈ p.pieces, Path.isFiller n = true) : d.isDir p = true := by
  have hstart : d.hasDir (d.start p) = true := d.start_eq_base p ▸ ht.hasDir_base p.anchor
  have hfind : d.find p = .ok (d.start p) := by
    unfold find
    rw [hp]
    exact walk_fillers h hstart
  exact isDir_of_find hfind hstart

/-- Where a path that is neither a directory nor missing leads is settled. -/
theorem find_final (ht : d.IsTree) (hg : d.Grows v) (hdir : d.isDir p = false)
    (hfind : d.find p ≠ .error .missing) : v.isDir p = false ∧ v.find p ≠ .error .missing := by
  have hstart : (d.node? (d.start p)).isSome = true := by
    rw [start_eq_base, hasDir_iff.mp (ht.hasDir_base _), Option.isSome_some]
  cases hf : d.find p with
  | ok l =>
    have hl : (d.node? l).isSome = true := by
      unfold find at hf
      split at hf
      · cases hf
      · exact ht.walk_isSome hstart hf
    unfold isDir at hdir ⊢
    rw [hf] at hdir
    rw [hg.find hf]
    exact ⟨hg.hasDir_eq_false hl hdir, nofun⟩
  | error fault =>
    have hmissing : fault ≠ .missing := fun h => hfind (h ▸ hf)
    have hv : v.find p = .error fault := by
      unfold find at hf ⊢
      split at hf
      · exact hf
      · rw [hg.start_eq]
        exact hg.walk_error ht hstart hf hmissing
    unfold isDir
    rw [hv]
    exact ⟨rfl, fun h => hmissing (Except.error.inj h)⟩

end IsTree

/-! ## Paths that end in a name or a step up -/

/-- A path ends in a piece that is no filler, below the others. -/
structure EndsIn (p : Path) (n : Name) (rest : List Name) : Prop where
  not_filler : Path.isFiller n = false
  pieces_eq : p.pieces.reverse = n :: (rest ++ p.anchor.pieces.reverse)

theorem endsIn_assemble (h : Path.IsBody a (n :: rest).reverse) (hn : Path.isFiller n = false) :
    EndsIn (.assemble a (n :: rest).reverse) n rest where
  not_filler := hn
  pieces_eq := by
    have hne : (n :: rest).reverse ≠ [] := by simp
    rw [Path.anchor_assemble h hne, Path.pieces_assemble h hne]
    simp

namespace EndsIn

variable (hend : EndsIn p n rest)

include hend

theorem isEmpty_eq_false : p.isEmpty = false := by
  rw [Bool.eq_false_iff]
  intro hempty
  have hpieces := hend.pieces_eq
  rw [Path.isEmpty_iff.mp hempty] at hpieces
  have hn : [] = n := (List.cons.inj hpieces).1
  rw [← hn] at hend
  cases hend.not_filler

theorem pathFault?_ne_missing : pathFault? p ≠ some .missing := by
  intro hp
  have hempty := isEmpty_of_pathFault? hp
  rw [hend.isEmpty_eq_false] at hempty
  cases hempty

theorem pathFault?_of_find (h : d.find p = .error .missing) : pathFault? p = none := by
  cases hp : pathFault? p with
  | none => rfl
  | some fault =>
    simp only [find, hp] at h
    cases h
    exact absurd hp hend.pathFault?_ne_missing

/-- What a path says of the place of its last piece. -/
theorem slot_eq (ht : d.IsTree) :
    d.slot p p.pieces.reverse = .ok l ↔ pathFault? p = none ∧
      ∃ dir, d.reach p.anchor rest = .ok dir ∧ IsName n ∧ nameSize n ≤ maxNameSize ∧
        l = n :: dir := by
  have hwalk := ht.walk_before p rest
  simp only [slot_eq_ok_iff, hend.pieces_eq, List.cons.injEq, reach_eq_ok_iff]
  constructor
  · rintro ⟨hp, _, _, dir, ⟨rfl, rfl⟩, hdir, hin, hname⟩
    exact ⟨hp, dir, ⟨hwalk ▸ hdir, hin⟩, hname⟩
  · rintro ⟨hp, dir, ⟨hdir, hin⟩, hname⟩
    exact ⟨hp, n, _, dir, ⟨rfl, rfl⟩, hwalk.symm ▸ hdir, hin, hname⟩

theorem slot_eq_missing (ht : d.IsTree) :
    d.slot p p.pieces.reverse = .error .missing ↔
      pathFault? p = none ∧ d.walk (d.base p.anchor) rest.reverse = .error .missing := by
  rw [← ht.walk_before]
  constructor
  · intro h
    rcases Disk.slot_eq_missing h with hp | ⟨hp, last, before, heq, hwalk⟩
    · exact absurd hp hend.pathFault?_ne_missing
    · rw [hend.pieces_eq] at heq
      cases heq
      exact ⟨hp, hwalk⟩
  · rintro ⟨hp, hwalk⟩
    unfold slot walkToDir
    simp only [hp, hend.pieces_eq, hwalk]

theorem makeDir_eq (d : Disk) :
    d.makeDir p =
      match d.slot p p.pieces.reverse with
      | .error fault => .error fault
      | .ok loc =>
        if (d.node? loc).isSome then .error .alreadyExists else .ok (d.put loc .dir) := by
  have hn : n.isEmpty = false := (Bool.or_eq_false_iff.mp hend.not_filler).1
  have hdrop : p.pieces.reverse.dropWhile List.isEmpty = p.pieces.reverse := by
    rw [hend.pieces_eq, List.dropWhile_cons_of_neg (by simp [hn])]
  show (match d.slot p (p.pieces.reverse.dropWhile List.isEmpty) with
    | .error fault => .error fault
    | .ok loc =>
      if (d.node? loc).isSome then .error .alreadyExists else .ok (d.put loc .dir) :
    Except SystemFault Disk) = _
  rw [hdrop]

theorem find_eq (ht : d.IsTree) (hp : pathFault? p = none) :
    d.find p = d.walk (d.base p.anchor) (n :: rest).reverse := by
  have hpieces : p.pieces = p.anchor.pieces ++ (n :: rest).reverse := by
    rw [← List.reverse_inj, hend.pieces_eq]
    simp
  unfold find
  rw [hp, hpieces, start_eq_base]
  exact ht.walk_anchor _ _

theorem isDir_iff (ht : d.IsTree) :
    d.isDir p = true ↔ pathFault? p = none ∧ ∃ l, d.reach p.anchor (n :: rest) = .ok l := by
  simp only [reach_eq_ok_iff]
  unfold isDir
  cases hp : pathFault? p with
  | some fault => simp [find, hp]
  | none =>
    rw [hend.find_eq ht hp]
    cases d.walk (d.base p.anchor) (n :: rest).reverse <;> simp

/-- A path is no directory if what encloses it is none. -/
theorem isDir_eq_false (ht : d.IsTree) {q : Path}
    (hq : pathFault? p = none →
      (q.isEmpty = true ∨ d.isDir q = true ↔ ∃ l, d.reach p.anchor rest = .ok l))
    (hempty : q.isEmpty = false) (hdir : d.isDir q = false) : d.isDir p = false := by
  rw [Bool.eq_false_iff]
  intro hp
  obtain ⟨hfault, l, hl⟩ := (hend.isDir_iff ht).mp hp
  obtain ⟨dir, hreach, -⟩ := reach_cons_eq_ok_iff.mp hl
  have hmade := (hq hfault).mpr ⟨dir, hreach⟩
  rw [hempty, hdir] at hmade
  simp at hmade

/-- In a directory that is there, no entry is refused as missing. -/
theorem makeDir_ne_missing (ht : d.IsTree) (hreach : d.reach p.anchor rest = .ok dir) :
    d.makeDir p ≠ .error .missing := by
  intro hmake
  rw [hend.makeDir_eq] at hmake
  split at hmake
  · rename_i fault hslot
    cases hmake
    rw [hend.slot_eq_missing ht, (reach_eq_ok_iff.mp hreach).1] at hslot
    cases hslot.2
  · split at hmake <;> cases hmake

/-- What is missing can be made, or is in a directory that is missing. -/
theorem makeDir_of_find_missing (ht : d.IsTree) (hfind : d.find p = .error .missing) :
    d.makeDir p = .error .missing ∨ ∃ d', d.makeDir p = .ok d' := by
  have hp := hend.pathFault?_of_find hfind
  rw [hend.find_eq ht hp, List.reverse_cons, walk_append] at hfind
  rw [hend.makeDir_eq]
  cases hwalk : d.walk (d.base p.anchor) rest.reverse with
  | error fault =>
    rw [hwalk] at hfind
    cases hfind
    rw [(hend.slot_eq_missing ht).mpr ⟨hp, hwalk⟩]
    exact Or.inl rfl
  | ok dir =>
    rw [hwalk] at hfind
    have hstep : d.step dir n = .error .missing := (d.walk_singleton dir n).symm.trans hfind
    obtain ⟨hin, hname, hsize, hnone⟩ := step_eq_missing hstep
    have hreach : d.reach p.anchor rest = .ok dir := reach_eq_ok_iff.mpr ⟨hwalk, hin⟩
    rw [(hend.slot_eq ht).mpr ⟨hp, dir, hreach, hname, hsize, rfl⟩]
    refine Or.inr ⟨d.put (n :: dir) .dir, if_neg ?_⟩
    rw [hnone]
    nofun

end EndsIn

/-! ## Chains of directories -/

theorem pathFault?_of_prefix {q : Path} (h : q.chars <+: p.chars) (hp : pathFault? p = none) :
    q.isEmpty = true ∨ pathFault? q = none := by
  obtain ⟨more, hmore⟩ := h
  have hsize : q.spelling.utf8ByteSize ≤ p.spelling.utf8ByteSize := by
    have hp : p.spelling = String.ofList (q.chars ++ more) := by
      rw [hmore, Path.chars, String.ofList_toList]
    have hq : q.spelling = String.ofList q.chars := by rw [Path.chars, String.ofList_toList]
    rw [hp, hq, String.ofList_append, String.utf8ByteSize_append]
    exact Nat.le_add_right _ _
  unfold pathFault? at hp ⊢
  rw [← hmore] at hp
  split_ifs at hp with hnul hempty hlong
  rw [List.contains_append, Bool.or_eq_true, not_or] at hnul
  rw [if_neg hnul.1]
  split_ifs with hq
  · exact Or.inl hq
  · omega
  · exact Or.inr rfl

/-- The paths above one that may name something may do so too. -/
theorem pathFault?_above {q : Path} (hq : Path.chain a rest = q.selfAndAbove)
    (hp : pathFault? (.assemble a (n :: rest).reverse) = none) :
    q.isEmpty = true ∨ pathFault? q = none := by
  have hmem : q ∈ Path.chain a rest := hq ▸ List.mem_cons_self
  rcases Path.mem_chain hmem with rfl | ⟨ps, ⟨more, hmore⟩, rfl⟩
  · exact Or.inl rfl
  · apply pathFault?_of_prefix _ hp
    rw [List.reverse_cons, ← hmore, List.append_assoc]
    exact Path.chars_assemble_prefix a ps (by simp)

/-- The first path of a chain is the directory that the pieces lead to. -/
theorem IsTree.made_iff (ht : d.IsTree) (hb : Path.IsBody a rev.reverse) {q : Path}
    (hq : Path.chain a rev = q.selfAndAbove) (hfault : q.isEmpty = true ∨ pathFault? q = none) :
    q.isEmpty = true ∨ d.isDir q = true ↔ ∃ l, d.reach a rev = .ok l := by
  induction rev with
  | nil =>
    obtain rfl : q = .assemble a [] := by
      cases a <;> exact (List.cons.inj hq).1.symm
    have hfill : ∀ n ∈ (Path.assemble a []).pieces, Path.isFiller n = true := by
      cases a <;> decide
    exact iff_of_true (hfault.imp_right fun hp => ht.isDir_of_fillers hp hfill)
      ⟨d.base a, reach_eq_ok_iff.mpr ⟨rfl, ht.hasDir_base a⟩⟩
  | cons n rest ih =>
    have hbody : Path.IsBody a rest.reverse := hb.of_initial (by simp)
    rw [Path.chain] at hq
    split at hq
    · rename_i hfill
      rw [ih hbody hq]
      constructor
      · rintro ⟨l, hl⟩
        have hdir := (reach_eq_ok_iff.mp hl).2
        exact ⟨l, reach_cons_eq_ok_iff.mpr
          ⟨l, hl, step_eq_ok_iff.mpr ⟨hdir, .inl ⟨hfill, rfl⟩⟩, hdir⟩⟩
      · rintro ⟨l, hl⟩
        obtain ⟨dir, hdir, -⟩ := reach_cons_eq_ok_iff.mp hl
        exact ⟨dir, hdir⟩
    · rename_i hn
      obtain rfl : Path.assemble a (n :: rest).reverse = q := (List.cons.inj hq).1
      have hend := endsIn_assemble hb (eq_false_of_ne_true hn)
      have hanchor := Path.anchor_assemble hb (by simp)
      rw [hend.isEmpty_eq_false] at hfault ⊢
      rw [hend.isDir_iff ht, hanchor]
      simp_all

/-- A directory that something else than a missing one prevents is not made later. -/
theorem refused_of_makeDir (ht : d.IsTree) (hend : EndsIn p n rest)
    (hmake : d.makeDir p = .error fault) (hf : fault ≠ .missing) (hdir : d.isDir p = false)
    (hg : d.Grows v) (enclosing : List Path) :
    (∃ fault', v.makeChain (p :: enclosing) = (v, .error fault')) ∧ v.isDir p = false := by
  have hfind : d.find p ≠ .error .missing := by
    intro hfind
    rcases hend.makeDir_of_find_missing ht hfind with h | ⟨d', h⟩
    · rw [h] at hmake
      cases hmake
      exact hf rfl
    · rw [h] at hmake
      cases hmake
  obtain ⟨hvdir, hvfind⟩ := ht.find_final hg hdir hfind
  refine ⟨?_, hvdir⟩
  cases hvmake : v.makeDir p with
  | ok v' =>
    obtain ⟨hgains, hmade⟩ := makeDir_gains hvmake
    rw [(ht.find_final (hg.trans hgains.grows) hdir hfind).1] at hmade
    cases hmade
  | error fault' =>
    have hfault' : fault' ≠ .missing := by
      rintro rfl
      exact hvfind (find_of_makeDir_missing hvmake)
    rw [makeChain_of_error hend.isEmpty_eq_false hvmake hfault', hvdir]
    exact ⟨fault', rfl⟩

/-- A directory is not made below one that is not there and cannot be. -/
theorem refused_of_above (hend : EndsIn p n rest) {enclosing : List Path} (hg : d.Grows v)
    (hv : v.IsTree)
    (h : ∀ w, d.Grows w → w.IsTree →
      (∃ fault', w.makeChain enclosing = (w, .error fault')) ∧ w.isDir p = false) :
    (∃ fault', v.makeChain (p :: enclosing) = (v, .error fault')) ∧ v.isDir p = false := by
  obtain ⟨⟨fault', habove⟩, hdir⟩ := h v hg hv
  refine ⟨?_, hdir⟩
  cases hmake : v.makeDir p with
  | ok v' =>
    obtain ⟨hgains, hmade⟩ := makeDir_gains hmake
    rw [(h v' (hg.trans hgains.grows) (hgains.isTree hv)).2] at hmade
    cases hmade
  | error fault =>
    by_cases hf : fault = .missing
    · subst hf
      unfold makeChain
      rw [hend.isEmpty_eq_false, hmake, habove]
      exact ⟨fault', rfl⟩
    · rw [makeChain_of_error hend.isEmpty_eq_false hmake hf, hdir]
      exact ⟨fault, rfl⟩

/-- What is to be shown for a path is shown for those above it. -/
theorem refused_of_makeChain (ht : d.IsTree) (hend : EndsIn p n rest) {q : Path}
    (hq : ∀ w : Disk, w.IsTree → pathFault? p = none →
      (q.isEmpty = true ∨ w.isDir q = true ↔ ∃ l, w.reach p.anchor rest = .ok l))
    (habove : ∀ {d' fault}, d.makeDirs q = (d', .error fault) → ∀ w, d'.Grows w → w.IsTree →
      (∃ fault', w.makeDirs q = (w, .error fault')) ∧ q.isEmpty = false ∧ w.isDir q = false)
    (hmake : d.makeChain (p :: q.selfAndAbove) = (d', .error fault)) (hg : d'.Grows v)
    (hv : v.IsTree) :
    (∃ fault', v.makeChain (p :: q.selfAndAbove) = (v, .error fault')) ∧ v.isDir p = false := by
  cases hone : d.makeDir p with
  | ok d₁ =>
    unfold makeChain at hmake
    rw [hend.isEmpty_eq_false, hone] at hmake
    cases hmake
  | error first =>
    by_cases hfirst : first = .missing
    · subst hfirst
      unfold makeChain at hmake
      rw [hend.isEmpty_eq_false, hone] at hmake
      obtain ⟨d₁, result, hdirs⟩ : ∃ d₁ result, d.makeDirs q = (d₁, result) := ⟨_, _, rfl⟩
      have hgains := d.makeDirs_gains q
      rw [hdirs] at hgains
      have ht₁ := hgains.isTree ht
      rw [← makeDirs, hdirs] at hmake
      cases result with
      | error fault' =>
        cases hmake
        apply refused_of_above hend hg hv
        intro w hw hwt
        obtain ⟨hrefused, hempty, hdir⟩ := habove hdirs w hw hwt
        exact ⟨hrefused, hend.isDir_eq_false hwt (hq w hwt) hempty hdir⟩
      | ok _ =>
        -- what lies above is there now, so it is `p` itself that is refused
        have hfault : pathFault? p = none := hend.pathFault?_of_find (find_of_makeDir_missing hone)
        obtain ⟨dir, hreach⟩ := (hq d₁ ht₁ hfault).mp (isDir_of_makeDirs hdirs)
        obtain ⟨rfl, hsecond, hdir⟩ := ensureDir_eq_error hmake
        have hne : fault ≠ .missing := by
          rintro rfl
          exact hend.makeDir_ne_missing ht₁ hreach hsecond
        exact refused_of_makeDir ht₁ hend hsecond hne hdir hg _
    · rw [makeChain_of_error hend.isEmpty_eq_false hone hfirst] at hmake
      split_ifs at hmake with hdir
      · cases hmake
      · cases hmake
        exact refused_of_makeDir ht hend hone hfirst (eq_false_of_ne_true hdir) hg _

/-- **A chain that was refused is refused on any tree that grew since,** and makes nothing. -/
theorem makeChain_refused (ht : d.IsTree) (hb : Path.IsBody a rev.reverse) {q : Path}
    (hq : Path.chain a rev = q.selfAndAbove) (hmake : d.makeDirs q = (d', .error fault))
    (hg : d'.Grows v) (hv : v.IsTree) :
    (∃ fault', v.makeDirs q = (v, .error fault')) ∧ q.isEmpty = false ∧ v.isDir q = false := by
  induction rev generalizing d' v fault q with
  | nil =>
    have hfault : q.isEmpty = true ∨ pathFault? q = none := by
      obtain rfl : q = .assemble a [] := by
        cases a <;> exact (List.cons.inj hq).1.symm
      cases a <;> decide
    have hmade : d.makeDirs q = (d, .ok ()) :=
      makeDirs_of_made ((ht.made_iff hb hq hfault).mpr
        ⟨d.base a, reach_eq_ok_iff.mpr ⟨rfl, ht.hasDir_base a⟩⟩)
    rw [hmade] at hmake
    cases hmake
  | cons n rest ih =>
    have hbody : Path.IsBody a rest.reverse := hb.of_initial (by simp)
    rw [Path.chain] at hq
    split at hq
    · exact ih hbody hq hmake hg hv
    · rename_i hn
      obtain ⟨rfl, hrest⟩ := List.cons.inj hq
      have hend := endsIn_assemble hb (eq_false_of_ne_true hn)
      obtain ⟨q', hq'⟩ := Path.chain_eq_selfAndAbove hbody
      have habove : (Path.assemble a (n :: rest).reverse).above = q'.selfAndAbove := by
        rw [← hq', hrest]
      unfold makeDirs at hmake ⊢
      rw [Path.selfAndAbove, habove] at hmake ⊢
      obtain ⟨hrefused, hdir⟩ := refused_of_makeChain ht hend
        (fun w hw hp => by
          rw [Path.anchor_assemble hb (by simp)]
          exact hw.made_iff hbody hq' (pathFault?_above hq' hp))
        (fun hdirs w hw hwt => ih hbody hq' hdirs hw hwt) hmake hg hv
      exact ⟨hrefused, hend.isEmpty_eq_false, hdir⟩

/-! ## Parents and files -/

theorem makeDirs_parent_refused (ht : d.IsTree) {parent : Path} (hp : p.parent? = some parent)
    (hmake : d.makeDirs parent = (d', .error fault)) (hg : d'.Grows v) (hv : v.IsTree) :
    (∃ fault', v.makeDirs parent = (v, .error fault')) ∧ parent.isEmpty = false := by
  rcases Path.exists_chain_of_parent? hp with rfl | ⟨rest, hb, hq⟩
  · cases hmake
  · obtain ⟨hrefused, hempty, -⟩ := makeChain_refused ht hb hq hmake hg hv
    exact ⟨hrefused, hempty⟩

/-- Below a parent that is there, a file that cannot be written is not written later. -/
theorem write_refused (ht : d.IsTree) {data : ByteArray}
    (hparent : ∀ parent, p.parent? = some parent →
      parent.isEmpty = true ∨ d.isDir parent = true)
    (hwrite : d.write p data = .error fault) (hg : d.Grows v) (hv : v.IsTree) :
    ∃ fault', v.write p data = .error fault' := by
  cases hvwrite : v.write p data with
  | error fault' => exact ⟨fault', rfl⟩
  | ok v' =>
    exfalso
    obtain ⟨n, loc, hslot, -, hvdir, -, -⟩ := write_eq_ok hvwrite
    obtain ⟨hp, last, before, _, hpieces, -, -, hname, -, -⟩ := slot_eq_ok_iff.mp hslot
    obtain ⟨rest, rfl, habove, hb, hassemble⟩ := Path.above_of_named hpieces hname.1
    have hend : EndsIn p last rest := ⟨hname.1, hpieces⟩
    have hbody : Path.IsBody p.anchor rest.reverse := hb.of_initial (by simp)
    obtain ⟨q, hq⟩ := Path.chain_eq_selfAndAbove hbody
    have hparent' : p.parent? = some q := by
      rw [Path.parent?, habove, hq]
      rfl
    -- the parent is there, so the path has a place already on the smaller tree
    have hmade := hparent q hparent'
    rw [ht.made_iff hbody hq (pathFault?_above hq (hassemble.symm ▸ hp))] at hmade
    obtain ⟨dir, hreach⟩ := hmade
    obtain ⟨-, dir', hreach', -, hsize, heq⟩ := (hend.slot_eq hv).mp hslot
    rw [hg.reach hreach] at hreach'
    cases hreach'
    rw [heq] at hvdir
    have hdir : d.hasDir (last :: dir) = false := by
      rw [Bool.eq_false_iff]
      intro hdir
      rw [hg.hasDir hdir] at hvdir
      cases hvdir
    unfold write at hwrite
    rw [(hend.slot_eq ht).mpr ⟨hp, dir, hreach, hname, hsize, rfl⟩] at hwrite
    dsimp only at hwrite
    rw [hdir] at hwrite
    cases hwrite

end Disk

/-! ## Writes through the host -/

namespace DiskHost

open Disk

variable {τ : Type} {p : Path} {contents : String} {s s' t : OnDisk τ} {e : BuildError}

/-- **A write that was refused is refused on any tree that grew since,** and changes nothing. -/
theorem write_refused (ht : s.disk.IsTree) (h : write p contents s = (.error e, s'))
    (hg : s'.disk.Grows t.disk) (htt : t.disk.IsTree) :
    ∃ place fault fault', e = .file place (.system fault) ∧
      write p contents t = (.error (.file place (.system fault')), t) := by
  obtain ⟨hgains, ⟨parent, fault, hp, hmake, rfl⟩ | ⟨fault, hmade, hwrite, rfl⟩⟩ :=
    write_eq_error h
  · obtain ⟨⟨fault', hmake'⟩, hempty⟩ := makeDirs_parent_refused ht hp hmake hg htt
    refine ⟨parent, fault, fault', rfl, ?_⟩
    have hparent : makeParent t.disk p = (t.disk, .error (.file parent (.system fault'))) := by
      unfold makeParent
      simp [hp, hempty, hmake']
    rw [write, hparent]
  · have hparents : ∀ parent, p.parent? = some parent →
        parent.isEmpty = true ∨ s'.disk.isDir parent = true :=
      fun _ hp => isDir_of_makeParent hp hmade
    obtain ⟨fault', hwrite'⟩ :=
      Disk.write_refused (hgains.isTree ht) hparents hwrite hg htt
    refine ⟨p, fault, fault', rfl, ?_⟩
    have hparent : makeParent t.disk p = (t.disk, .ok ()) :=
      makeParent_of_made fun parent hp => (hparents parent hp).imp_right hg.isDir
    simp only [write, hparent, hwrite']

end DiskHost

end Fanout
