import Fanout.Disk.Basic
import Mathlib.Data.List.Basic

/-!
# File trees that grow

Operations on a disk put nodes in places: directories where nothing was, and files where no
directory is.  `Fits` says that a list of nodes can be put like that one after the other.  What is
on the disk then stays, a directory as a directory and a file as a file (`Grows`, `Fits.grows`), so
that a path that named a place goes on naming it (`Grows.find`).
-/

set_option autoImplicit false

namespace Fanout.Disk

variable {d d' d'' : Disk} {loc l : Location} {n : Name}

/-! ## Nodes -/

theorem lookup_putNode (loc l : Location) (node : Node) (nodes : List (Location × Node)) :
    (putNode loc node nodes).lookup l = if l = loc then some node else nodes.lookup l := by
  induction nodes with
  | nil =>
    rw [putNode, List.lookup_cons]
    by_cases h : l = loc
    · simp [h]
    · rw [beq_false_of_ne h, if_neg h]
  | cons entry rest ih =>
    obtain ⟨k, m⟩ := entry
    rw [putNode]
    split
    · rename_i hk
      subst hk
      rw [List.lookup_cons, List.lookup_cons]
      by_cases h : l = k
      · simp [h]
      · rw [beq_false_of_ne h, if_neg h]
    · rename_i hk
      rw [List.lookup_cons, List.lookup_cons, ih]
      by_cases h : l = k
      · subst h
        simp [if_neg hk]
      · rw [beq_false_of_ne h]

@[simp] theorem node?_root (d : Disk) : d.node? [] = some .dir := rfl

theorem node?_put (d : Disk) (n : Name) (loc l : Location) (node : Node) :
    (d.put (n :: loc) node).node? l = if l = n :: loc then some node else d.node? l := by
  cases l with
  | nil => rw [node?_root, node?_root, if_neg (List.cons_ne_nil _ _).symm]
  | cons m l => exact lookup_putNode (n :: loc) (m :: l) node d.nodes

theorem hasDir_iff : d.hasDir loc = true ↔ d.node? loc = some .dir := beq_iff_eq

/-! ## Growth -/

/-- What is on the first disk is on the second one: directories as directories, and files as files,
whatever is in them. -/
structure Grows (d d' : Disk) : Prop where
  cwd_eq : d'.cwd = d.cwd
  dir : ∀ {loc : Location}, d.node? loc = some .dir → d'.node? loc = some .dir
  file : ∀ {loc : Location} {data : ByteArray}, d.node? loc = some (.file data) →
    ∃ data', d'.node? loc = some (.file data')

namespace Grows

theorem refl (d : Disk) : Grows d d := ⟨rfl, id, fun h => ⟨_, h⟩⟩

theorem trans (h : Grows d d') (h' : Grows d' d'') : Grows d d'' where
  cwd_eq := h'.cwd_eq.trans h.cwd_eq
  dir hd := h'.dir (h.dir hd)
  file hf := by
    obtain ⟨_, hf'⟩ := h.file hf
    exact h'.file hf'

theorem hasDir (h : Grows d d') (hd : d.hasDir loc = true) : d'.hasDir loc = true :=
  hasDir_iff.mpr (h.dir (hasDir_iff.mp hd))

theorem isSome (h : Grows d d') (hs : (d.node? loc).isSome = true) :
    (d'.node? loc).isSome = true := by
  obtain ⟨node, hn⟩ := Option.isSome_iff_exists.mp hs
  cases node with
  | dir => rw [h.dir hn, Option.isSome_some]
  | file data =>
    obtain ⟨_, hf⟩ := h.file hn
    rw [hf, Option.isSome_some]

/-- A file does not become a directory. -/
theorem hasDir_eq_false (h : Grows d d') (hs : (d.node? loc).isSome = true)
    (hd : d.hasDir loc = false) : d'.hasDir loc = false := by
  obtain ⟨node, hn⟩ := Option.isSome_iff_exists.mp hs
  cases node with
  | dir => rw [hasDir_iff.mpr hn] at hd; cases hd
  | file data =>
    obtain ⟨_, hf⟩ := h.file hn
    rw [Disk.hasDir, hf]
    rfl

theorem put_dir (hnone : d.node? (n :: loc) = none) : Grows d (d.put (n :: loc) .dir) where
  cwd_eq := rfl
  dir hd := by
    rw [node?_put]
    split <;> [rfl; exact hd]
  file hf := by
    rw [node?_put]
    split
    · rename_i h
      rw [h, hnone] at hf
      cases hf
    · exact ⟨_, hf⟩

theorem put_file (hdir : d.hasDir (n :: loc) = false) (data : ByteArray) :
    Grows d (d.put (n :: loc) (.file data)) where
  cwd_eq := rfl
  dir hd := by
    rw [node?_put]
    split
    · rename_i h
      rw [h, ← hasDir_iff, hdir] at hd
      cases hd
    · exact hd
  file hf := by
    rw [node?_put]
    split
    · exact ⟨data, rfl⟩
    · exact ⟨_, hf⟩

end Grows

/-! ## Nodes put one after the other -/

/-- Puts nodes one after the other. -/
def putAll (d : Disk) (ops : List (Location × Node)) : Disk :=
  ops.foldl (fun d op => d.put op.1 op.2) d

/-- Nodes can be put one after the other: each in a directory, a directory where nothing is, and a
file where no directory is. -/
inductive Fits : Disk → List (Location × Node) → Prop
  | nil (d : Disk) : Fits d []
  | dir {d : Disk} {n : Name} {loc : Location} {ops : List (Location × Node)} :
      d.hasDir loc = true → d.node? (n :: loc) = none → Fits (d.put (n :: loc) .dir) ops →
        Fits d ((n :: loc, .dir) :: ops)
  | file {d : Disk} {n : Name} {loc : Location} {data : ByteArray}
      {ops : List (Location × Node)} :
      d.hasDir loc = true → d.hasDir (n :: loc) = false →
        Fits (d.put (n :: loc) (.file data)) ops → Fits d ((n :: loc, .file data) :: ops)

theorem putAll_append (d : Disk) (ops more : List (Location × Node)) :
    d.putAll (ops ++ more) = (d.putAll ops).putAll more := List.foldl_append

namespace Fits

variable {ops more : List (Location × Node)}

theorem append (h : Fits d ops) (h' : Fits (d.putAll ops) more) : Fits d (ops ++ more) := by
  induction h with
  | nil => exact h'
  | dir hloc hnone _ ih => exact .dir hloc hnone (ih h')
  | file hloc hdir _ ih => exact .file hloc hdir (ih h')

/-- **Nothing goes from a disk,** and no file takes the place of a directory. -/
theorem grows (h : Fits d ops) : Grows d (d.putAll ops) := by
  induction h with
  | nil d => exact .refl d
  | dir _ hnone _ ih => exact (Grows.put_dir hnone).trans ih
  | file _ hdir _ ih => exact (Grows.put_file hdir _).trans ih

end Fits

/-! ## Paths on a disk that grows -/

/-- Where a piece leads from a location. -/
def step (d : Disk) (loc : Location) (n : Name) : Except SystemFault Location :=
  if !d.hasDir loc then .error .notDirectory
  else if Path.isFiller n then .ok loc
  else if n = ['.', '.'] then .ok loc.tail
  else if maxNameSize < nameSize n then .error .nameTooLong
  else if (d.node? (n :: loc)).isNone then .error .missing
  else .ok (n :: loc)

/-- A piece that names an entry: neither a filler nor a step up. -/
def IsName (n : Name) : Prop := Path.isFiller n = false ∧ n ≠ ['.', '.']

theorem step_eq_ok_iff :
    d.step loc n = .ok l ↔ d.hasDir loc = true ∧
      (Path.isFiller n = true ∧ l = loc ∨ n = ['.', '.'] ∧ l = loc.tail ∨
        IsName n ∧ nameSize n ≤ maxNameSize ∧ (d.node? (n :: loc)).isSome = true ∧
          l = n :: loc) := by
  have hdots : Path.isFiller ['.', '.'] = false := rfl
  unfold step IsName
  split_ifs with hdir hfill hup hlong hnone
  all_goals grind [Option.isSome_iff_ne_none, Option.isNone_iff_eq_none]

theorem step_eq_missing (h : d.step loc n = .error .missing) :
    d.hasDir loc = true ∧ IsName n ∧ nameSize n ≤ maxNameSize ∧ d.node? (n :: loc) = none := by
  unfold step at h
  split_ifs at h with hdir hfill hup hlong hnone
  all_goals cases h
  rw [Bool.not_eq_true, Bool.not_eq_false'] at hdir
  rw [Bool.not_eq_true] at hfill
  exact ⟨hdir, ⟨hfill, hup⟩, Nat.not_lt.mp hlong, Option.isNone_iff_eq_none.mp hnone⟩

theorem walk_cons (d : Disk) (loc : Location) (n : Name) (rest : List Name) :
    d.walk loc (n :: rest) = (d.step loc n).bind fun l => d.walk l rest := by
  rw [walk, step]
  split_ifs <;> rfl

theorem walk_singleton (d : Disk) (loc : Location) (n : Name) : d.walk loc [n] = d.step loc n := by
  rw [walk_cons]
  cases d.step loc n <;> rfl

theorem walk_append (d : Disk) (loc : Location) (ps qs : List Name) :
    d.walk loc (ps ++ qs) = (d.walk loc ps).bind fun l => d.walk l qs := by
  induction ps generalizing loc with
  | nil => rfl
  | cons n rest ih =>
    rw [List.cons_append, walk_cons, walk_cons]
    cases d.step loc n with
    | error fault => rfl
    | ok l => exact ih l

namespace Grows

theorem start_eq (h : Grows d d') (p : Path) : d'.start p = d.start p := by
  rw [start, start, h.cwd_eq]

theorem step (h : Grows d d') (hs : d.step loc n = .ok l) : d'.step loc n = .ok l := by
  rw [step_eq_ok_iff] at hs ⊢
  obtain ⟨hdir, hfill | hup | ⟨hname, hsize, hnode, hl⟩⟩ := hs
  · exact ⟨h.hasDir hdir, .inl hfill⟩
  · exact ⟨h.hasDir hdir, .inr (.inl hup)⟩
  · exact ⟨h.hasDir hdir, .inr (.inr ⟨hname, hsize, h.isSome hnode, hl⟩)⟩

theorem walk (h : Grows d d') {ps : List Name} (hw : d.walk loc ps = .ok l) :
    d'.walk loc ps = .ok l := by
  induction ps generalizing loc with
  | nil => exact hw
  | cons n rest ih =>
    rw [walk_cons] at hw ⊢
    cases hs : d.step loc n with
    | error fault =>
      rw [hs] at hw
      cases hw
    | ok m =>
      rw [hs] at hw
      rw [h.step hs]
      exact ih hw

theorem find (h : Grows d d') {p : Path} (hf : d.find p = .ok loc) : d'.find p = .ok loc := by
  unfold Disk.find at hf ⊢
  split at hf
  · cases hf
  · rename_i hp
    rw [← h.start_eq] at hf
    exact h.walk hf

theorem isDir (h : Grows d d') {p : Path} (hd : d.isDir p = true) : d'.isDir p = true := by
  unfold Disk.isDir at hd ⊢
  split at hd
  · rename_i loc hf
    rw [h.find hf]
    exact h.hasDir hd
  · cases hd

end Grows

theorem walkToDir_eq_ok_iff {ps : List Name} :
    d.walkToDir loc ps = .ok l ↔ d.walk loc ps = .ok l ∧ d.hasDir l = true := by
  unfold walkToDir
  cases d.walk loc ps with
  | error fault => simp
  | ok m =>
    constructor
    · intro h
      dsimp only at h
      split_ifs at h with hdir
      cases h
      exact ⟨rfl, hdir⟩
    · rintro ⟨hm, hdir⟩
      cases hm
      exact if_pos hdir

/-- Fillers need a directory to stand in, and lead nowhere else. -/
theorem walk_fillers {ps : List Name} (hps : ∀ n ∈ ps, Path.isFiller n = true)
    (hdir : d.hasDir loc = true) : d.walk loc ps = .ok loc := by
  induction ps with
  | nil => rfl
  | cons n rest ih =>
    have hstep : d.step loc n = .ok loc :=
      step_eq_ok_iff.mpr ⟨hdir, .inl ⟨hps n List.mem_cons_self, rfl⟩⟩
    rw [walk_cons, hstep]
    exact ih fun m hm => hps m (List.mem_cons_of_mem _ hm)

/-- Only the empty path is missing whatever is on the disk. -/
theorem isEmpty_of_pathFault? {p : Path} (h : pathFault? p = some .missing) :
    p.isEmpty = true := by
  unfold pathFault? at h
  split_ifs at h with hnul hempty
  all_goals cases h
  exact hempty

/-! ## Entries -/

section Entries

variable {p : Path} {reversed : List Name}

/-- Where there is room for an entry, the entry has a name and lies in a directory. -/
theorem slot_eq_ok_iff :
    d.slot p reversed = .ok l ↔ pathFault? p = none ∧ ∃ last before dir,
      reversed = last :: before ∧ d.walk (d.start p) before.reverse = .ok dir ∧
        d.hasDir dir = true ∧ IsName last ∧ nameSize last ≤ maxNameSize ∧ l = last :: dir := by
  unfold slot IsName
  constructor
  · intro h
    split at h
    · cases h
    · rename_i hp
      split at h
      · cases h
      · rename_i last before
        split at h
        · cases h
        · rename_i dir hwalk
          obtain ⟨hwalk, hdir⟩ := walkToDir_eq_ok_iff.mp hwalk
          split_ifs at h with hlast hsize
          cases h
          rw [Bool.or_eq_true, beq_iff_eq, not_or, Bool.not_eq_true] at hlast
          exact ⟨hp, last, before, dir, rfl, hwalk, hdir, hlast, Nat.not_lt.mp hsize, rfl⟩
  · rintro ⟨hp, last, before, dir, rfl, hwalk, hdir, ⟨hfill, hup⟩, hsize, rfl⟩
    simp [hp, walkToDir_eq_ok_iff.mpr ⟨hwalk, hdir⟩, hfill, hup, hsize]

theorem Grows.slot (h : Grows d d') (hs : d.slot p reversed = .ok l) :
    d'.slot p reversed = .ok l := by
  rw [slot_eq_ok_iff] at hs ⊢
  obtain ⟨hp, last, before, dir, hrev, hwalk, hdir, hlast⟩ := hs
  refine ⟨hp, last, before, dir, hrev, ?_, h.hasDir hdir, hlast⟩
  rw [h.start_eq]
  exact h.walk hwalk

/-- An entry with nothing but fillers after it is what the path names. -/
theorem find_of_slot {fillers : List Name} (hs : d.slot p reversed = .ok loc)
    (hp : p.pieces = reversed.reverse ++ fillers) (hd : Grows d d')
    (hf : ∀ n ∈ fillers, Path.isFiller n = true) (hnode : (d'.node? loc).isSome = true)
    (hdir : fillers = [] ∨ d'.hasDir loc = true) : d'.find p = .ok loc := by
  obtain ⟨hfault, last, before, dir, rfl, hwalk, hindir, hlast, hsize, rfl⟩ :=
    slot_eq_ok_iff.mp (hd.slot hs)
  have hstep : d'.step dir last = .ok (last :: dir) :=
    step_eq_ok_iff.mpr ⟨hindir, .inr (.inr ⟨hlast, hsize, hnode, rfl⟩)⟩
  have hrest : d'.walk (last :: dir) fillers = .ok (last :: dir) := by
    rcases hdir with rfl | hdir
    · rfl
    · exact walk_fillers hf hdir
  simp only [find, hfault]
  rw [hp, List.reverse_cons, List.append_assoc, walk_append, hwalk, List.singleton_append]
  show d'.walk dir (last :: fillers) = _
  rw [walk_cons, hstep]
  exact hrest

/-- What a path names is not missing as an entry. -/
theorem isSome_of_find {fillers : List Name} (hs : d.slot p reversed = .ok loc)
    (hp : p.pieces = reversed.reverse ++ fillers) (hf : d.find p = .ok l) :
    (d.node? loc).isSome = true := by
  obtain ⟨hfault, last, before, dir, rfl, hwalk, -, hlast, -, rfl⟩ := slot_eq_ok_iff.mp hs
  simp only [find, hfault] at hf
  rw [hp, List.reverse_cons, List.append_assoc, walk_append, hwalk, List.singleton_append] at hf
  change d.walk dir (last :: fillers) = _ at hf
  rw [walk_cons] at hf
  cases hstep : d.step dir last with
  | error fault =>
    rw [hstep] at hf
    cases hf
  | ok m =>
    obtain ⟨-, ⟨hfill, -⟩ | ⟨hup, -⟩ | ⟨-, -, hnode, -⟩⟩ := step_eq_ok_iff.mp hstep
    · rw [hlast.1] at hfill
      cases hfill
    · exact absurd hup hlast.2
    · exact hnode

theorem slot_eq_missing (h : d.slot p reversed = .error .missing) :
    pathFault? p = some .missing ∨ pathFault? p = none ∧ ∃ last before,
      reversed = last :: before ∧ d.walk (d.start p) before.reverse = .error .missing := by
  unfold slot at h
  split at h
  · rename_i fault hp
    cases h
    exact Or.inl hp
  · rename_i hp
    split at h
    · cases h
    · rename_i last before
      refine Or.inr ⟨hp, last, before, rfl, ?_⟩
      unfold walkToDir at h
      cases hwalk : d.walk (d.start p) before.reverse with
      | error fault =>
        rw [hwalk] at h
        exact h
      | ok l =>
        rw [hwalk] at h
        dsimp only at h
        split_ifs at h <;> cases h

/-- Where the directory for an entry is missing, so is what the path names. -/
theorem find_of_slot_missing {fillers : List Name} (hs : d.slot p reversed = .error .missing)
    (hp : p.pieces = reversed.reverse ++ fillers) : d.find p = .error .missing := by
  rcases slot_eq_missing hs with hfault | ⟨hfault, last, before, rfl, hwalk⟩
  · simp only [find, hfault]
  · simp only [find, hfault]
    rw [hp, List.reverse_cons, List.append_assoc, walk_append, hwalk]
    rfl

end Entries

end Fanout.Disk
