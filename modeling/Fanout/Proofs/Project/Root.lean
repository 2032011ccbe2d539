import Fanout.Proofs.Disk.Enclosing
import Fanout.Proofs.Project.Search
import Fanout.Proofs.Project.Soundness

/-!
# Where the root of a project lies

A project is looked for from path to parent, as the start is spelled.  On a file tree that is the
way up as long as the spelling has no step up in it.

* `leads_of_climb`: where the start is a directory, so is everything on the way.
* `isFirst_of_climb`: the first path with a project file is found, whatever the start.
* `isNearest_of_climb`: from a start without steps up, this is the nearest of the directories that
  enclose the start, as far as the one in which the path starts: the root of the tree for an
  absolute path, and the current directory for any other.
* `ofDirectory_goes_by_spelling`, the main result, says both of the project that is loaded.

Other starts miss what encloses them (`ofDirectory_misses_enclosing`): the parent of `a/..` is `a`,
which lies below, and from a dot nothing above the current directory is looked at.
-/

set_option autoImplicit false

namespace Fanout

namespace Disk

variable {d : Disk} {loc top l m : Location} {p q : Path} {ps : List Path} {root? : Option Path}

/-! ## Paths that may name a file -/

theorem nameSize_append (cs ds : Name) : nameSize (cs ++ ds) = nameSize cs + nameSize ds := by
  rw [nameSize, String.ofList_append, String.utf8ByteSize_append]
  rfl

theorem nameSize_cons_pos (c : Char) (cs : Name) : 0 < nameSize (c :: cs) := by
  have hc := c.utf8Size_pos
  rw [nameSize, String.ofList_cons, String.utf8ByteSize_append, String.utf8ByteSize_singleton]
  omega

theorem pathFault?_eq_none_iff :
    pathFault? p = none ↔
      Char.ofNat 0 ∉ p.chars ∧ p.isEmpty = false ∧ nameSize p.chars ≤ maxPathSize := by
  have hsize : p.spelling.utf8ByteSize = nameSize p.chars := by
    rw [nameSize, Path.chars, String.ofList_toList]
  unfold pathFault?
  rw [hsize]
  split_ifs with hnul hempty hlong
  · simp_all
  · simp_all
  · simp only [false_iff]
    omega
  · simp_all

section File

theorem slash_not_mem_projectFileName : '/' ∉ projectFileName.chars := by decide

theorem nul_mem_join_iff :
    Char.ofNat 0 ∈ (p.join projectFileName).chars ↔ Char.ofNat 0 ∈ p.chars := by
  have hfile : Char.ofNat 0 ∉ projectFileName.chars := by decide
  have hslash : Char.ofNat 0 ≠ '/' := by decide
  rcases Path.chars_join p slash_not_mem_projectFileName with ⟨h, -⟩ | ⟨h, -⟩
  · simp [h, hfile]
  · simp [h, hfile, hslash]

theorem nameSize_join_bounds (p : Path) :
    nameSize p.chars + nameSize projectFileName.chars ≤
        nameSize (p.join projectFileName).chars ∧
      nameSize (p.join projectFileName).chars ≤
        nameSize p.chars + 1 + nameSize projectFileName.chars := by
  have hslash : nameSize ['/'] = 1 := by decide
  rcases Path.chars_join p slash_not_mem_projectFileName with ⟨h, -⟩ | ⟨h, -⟩
  · rw [h, nameSize_append]
    omega
  · rw [h, ← List.singleton_append, nameSize_append, nameSize_append, hslash]
    omega

theorem join_projectFileName_nonempty (p : Path) :
    (p.join projectFileName).isEmpty = false := by
  have hne : p.join projectFileName ≠ .empty := Path.join_ne_empty p (by decide)
  rwa [ne_eq, ← Path.isEmpty_iff, Bool.not_eq_true] at hne

/-- Only its length can keep the path of a project file from naming one. -/
theorem pathFault?_join (h : Char.ofNat 0 ∉ p.chars) :
    pathFault? (p.join projectFileName) = none ∨
      pathFault? (p.join projectFileName) = some .pathTooLong := by
  have hnul : ((p.join projectFileName).chars.contains (Char.ofNat 0)) = false := by
    rw [← Bool.not_eq_true, List.contains_iff_mem]
    exact mt nul_mem_join_iff.mp h
  unfold pathFault?
  rw [hnul, join_projectFileName_nonempty]
  simp only [Bool.false_eq_true, if_false]
  split
  · exact Or.inr rfl
  · exact Or.inl rfl

/-- A project file has a shorter path in the parent. -/
theorem pathFault?_join_of_parent? (h : p.parent? = some q)
    (hp : pathFault? (p.join projectFileName) = none) :
    pathFault? (q.join projectFileName) = none := by
  obtain ⟨c, more, hchars⟩ := Path.chars_of_parent? h
  obtain ⟨hnul, -, hsize⟩ := pathFault?_eq_none_iff.mp hp
  rw [nul_mem_join_iff, hchars, List.mem_append, not_or] at hnul
  refine pathFault?_eq_none_iff.mpr
    ⟨mt nul_mem_join_iff.mp hnul.1, join_projectFileName_nonempty q, ?_⟩
  have hshorter : nameSize p.chars = nameSize q.chars + nameSize (c :: more) := by
    rw [hchars, nameSize_append]
  have hpos := nameSize_cons_pos c more
  have hq := (nameSize_join_bounds q).2
  have hp := (nameSize_join_bounds p).1
  omega

end File

/-! ## Directories with a project file -/

/-- A directory has an entry with the name of project files. -/
def HasProjectFile (d : Disk) (loc : Location) : Prop :=
  (d.node? (projectFileName.chars :: loc)).isSome = true

/-- Where a path leads to a directory, the project file that is seen from the path is the one in
that directory. -/
theorem Leads.resolves_iff (h : d.Leads p m) :
    d.resolves (p.join projectFileName) = true ↔
      pathFault? (p.join projectFileName) = none ∧ d.HasProjectFile m := by
  have hstep : (d.step m projectFileName.chars).toBool = true ↔ d.HasProjectFile m := by
    have hfiller : Path.isFiller projectFileName.chars = false := by decide
    have hup : projectFileName.chars ≠ ['.', '.'] := by decide
    have hsize : ¬ maxNameSize < nameSize projectFileName.chars := by decide
    unfold step HasProjectFile
    rw [h.hasDir, hfiller, if_neg hup, if_neg hsize]
    cases d.node? (projectFileName.chars :: m) with
    | none => simp [Except.toBool]
    | some node => simp [Except.toBool]
  unfold resolves find
  cases hfault : pathFault? (p.join projectFileName) with
  | some fault => simp [Except.toBool]
  | none =>
    dsimp only
    rw [h.walk_join slash_not_mem_projectFileName, hstep]
    exact (and_iff_right rfl).symm

/-! ## The search -/

/-- Looking for a project file passes over a path: it leads to a directory without one, or the path
of the file is too long to be looked at. -/
def PassesOver (d : Disk) (p : Path) : Prop :=
  ∃ loc, d.Leads p loc ∧
    (d.HasProjectFile loc → pathFault? (p.join projectFileName) = some .pathTooLong)

/-- The first of some paths that leads to a directory with a project file; there may be none. -/
def IsFirst (d : Disk) (ps : List Path) : Option Path → Prop
  | some root => ∃ before after loc, ps = before ++ root :: after ∧
      (∀ p ∈ before, d.PassesOver p) ∧ d.Leads root loc ∧ d.HasProjectFile loc
  | none => ∀ p ∈ ps, d.PassesOver p

/-- The nearest directory with a project file, among those that enclose `loc` and `loc` itself, as
far up as `top`; there may be none. -/
def IsNearest (d : Disk) (top loc : Location) : Option Path → Prop
  | some root => ∃ m, d.Leads root m ∧ top <:+ m ∧ m <:+ loc ∧ d.HasProjectFile m ∧
      ∀ l, m <:+ l → l <:+ loc → d.HasProjectFile l → l = m
  | none => ∀ l, top <:+ l → l <:+ loc → ¬ d.HasProjectFile l

/-- What the search for a project file finds on the way up. -/
def found? (d : Disk) (ps : List Path) : Option Path :=
  ps.find? fun p => d.resolves (p.join projectFileName)

/-- A path whose directory has a project file is found, if the file has a path. -/
theorem found?_cons_of_file (hp : d.Leads p l) (hfile : d.HasProjectFile l)
    (hfits : pathFault? (p.join projectFileName) = none) : d.found? (p :: ps) = some p :=
  List.find?_cons_of_pos (hp.resolves_iff.mpr ⟨hfits, hfile⟩)

theorem found?_cons_of_no_file (hp : d.Leads p l) (hfile : ¬ d.HasProjectFile l) :
    d.found? (p :: ps) = d.found? ps :=
  List.find?_cons_of_neg fun h => hfile (hp.resolves_iff.mp h).2

section Climb

variable (ht : d.IsTree)

include ht

/-- **Where a path leads to a directory, so does everything above it.** -/
theorem leads_of_climb (h : p.Climb ps) (hp : d.Leads p l) (hnul : Char.ofNat 0 ∉ p.chars) :
    ∀ q ∈ ps, (∃ m, d.Leads q m) ∧ Char.ofNat 0 ∉ q.chars := by
  induction h generalizing l with
  | top _ => exact List.forall_mem_singleton.mpr ⟨⟨l, hp⟩, hnul⟩
  | up hparent _ ih =>
    obtain ⟨m, hm, -⟩ := ht.leads_parent hp hparent
    obtain ⟨c, more, hchars⟩ := Path.chars_of_parent? hparent
    rw [hchars, List.mem_append, not_or] at hnul
    exact List.forall_mem_cons.mpr ⟨⟨⟨l, hp⟩, by rw [hchars, List.mem_append, not_or]; exact hnul⟩,
      ih hm hnul.1⟩

/-- The search finds the first path with a project file. -/
theorem isFirst_of_climb (h : p.Climb ps) (hp : d.Leads p l) (hnul : Char.ofNat 0 ∉ p.chars) :
    d.IsFirst ps (d.found? ps) := by
  have hpass : ∀ q ∈ ps, d.resolves (q.join projectFileName) = false → d.PassesOver q := by
    intro q hq hres
    obtain ⟨⟨m, hm⟩, hq⟩ := leads_of_climb ht h hp hnul q hq
    refine ⟨m, hm, fun hfile => (pathFault?_join hq).resolve_left fun hnone => ?_⟩
    rw [hm.resolves_iff.mpr ⟨hnone, hfile⟩] at hres
    cases hres
  cases hfound : d.found? ps with
  | none =>
    intro q hq
    exact hpass q hq (by simpa using List.find?_eq_none.mp hfound q hq)
  | some root =>
    obtain ⟨hres, before, after, rfl, hbefore⟩ := List.find?_eq_some_iff_append.mp hfound
    obtain ⟨⟨m, hm⟩, -⟩ := leads_of_climb ht h hp hnul root (by simp)
    refine ⟨before, after, m, rfl, fun q hq => ?_, hm, (hm.resolves_iff.mp hres).2⟩
    exact hpass q (List.mem_append_left _ hq) (by simpa using hbefore q hq)

/-- Without steps up, a path leads to where it starts from, or further down. -/
theorem start_suffix_of_climb (h : p.Climb ps) (hp : d.Leads p l)
    (hup : Path.Component.up ∉ p.components) : d.start p <:+ l := by
  induction h generalizing l with
  | top hparent =>
    obtain rfl := ht.leads_of_no_parent hp hparent
    exact List.suffix_refl _
  | up hparent _ ih =>
    obtain ⟨m, hm, hlast⟩ := ht.leads_parent hp hparent
    obtain ⟨c, hc⟩ := Path.components_of_parent? hparent
    have hq := ih hm fun hmem => hup (by simp [hc, hmem])
    rw [d.start_of_parent? hparent] at hq
    rcases leads_eq_or_cons hlast hup with rfl | ⟨n, rfl⟩
    · exact hq
    · exact hq.trans (List.suffix_cons n m)

end Climb

theorem isNearest_self (hp : d.Leads p l) (htop : top <:+ l) (hfile : d.HasProjectFile l) :
    d.IsNearest top l (some p) :=
  ⟨l, hp, htop, List.suffix_refl l, hfile, fun _ hlk hkl _ => hkl.eq_of_length_le hlk.length_le⟩

/-- Below the nearest project, it stays the nearest from a directory without a project file. -/
theorem IsNearest.below (h : d.IsNearest top m root?) (hl : l = m ∨ ∃ n, l = n :: m)
    (hfile : ¬ d.HasProjectFile l) : d.IsNearest top l root? := by
  rcases hl with rfl | ⟨n, rfl⟩
  · exact h
  · cases root? with
    | none =>
      intro k htop hk hhas
      rcases List.suffix_cons_iff.mp hk with rfl | hk
      · exact hfile hhas
      · exact h k htop hk hhas
    | some root =>
      obtain ⟨r, hr, htop, hrm, hhas, hnearest⟩ := h
      refine ⟨r, hr, htop, hrm.trans (List.suffix_cons n m), hhas, fun k hrk hk hk' => ?_⟩
      rcases List.suffix_cons_iff.mp hk with rfl | hk
      · exact absurd hk' hfile
      · exact hnearest k hrk hk hk'

/-- **From a start without steps up, the search finds the nearest project.**  The induction is on
the way up: each parent leads to the enclosing directory, or to the same one. -/
theorem isNearest_of_climb (ht : d.IsTree) (h : p.Climb ps) (hp : d.Leads p l)
    (hup : Path.Component.up ∉ p.components)
    (hfits : pathFault? (p.join projectFileName) = none) :
    d.IsNearest (d.start p) l (d.found? ps) := by
  have htop : d.start p <:+ l := start_suffix_of_climb ht h hp hup
  induction h generalizing l with
  | top hparent =>
    by_cases hfile : d.HasProjectFile l
    · rw [found?_cons_of_file hp hfile hfits]
      exact isNearest_self hp htop hfile
    · rw [found?_cons_of_no_file hp hfile]
      obtain rfl := ht.leads_of_no_parent hp hparent
      intro k htop hk hhas
      rw [hk.eq_of_length_le htop.length_le] at hhas
      exact hfile hhas
  | up hparent hclimb ih =>
    by_cases hfile : d.HasProjectFile l
    · rw [found?_cons_of_file hp hfile hfits]
      exact isNearest_self hp htop hfile
    · rw [found?_cons_of_no_file hp hfile]
      obtain ⟨m, hm, hlast⟩ := ht.leads_parent hp hparent
      obtain ⟨c, hc⟩ := Path.components_of_parent? hparent
      have hup' : Path.Component.up ∉ _ := fun hmem => hup (hc ▸ List.mem_append_left [c] hmem)
      have htop' := start_suffix_of_climb ht hclimb hm hup'
      have habove := ih hm hup' (pathFault?_join_of_parent? hparent hfits) htop'
      rw [d.start_of_parent? hparent] at habove
      exact habove.below (leads_eq_or_cons hlast hup) hfile

end Disk

namespace LoadedProject

variable {d : Disk} {env : Option Environment} {start : Path} {loc : Location} {l : LoadedProject}

theorem root_of_ofDirectory (h : ofDirectory d env start = .ok l) : l.root = findRoot? d start := by
  unfold ofDirectory at h
  cases hroot : findRoot? d start with
  | none =>
    rw [hroot] at h
    cases h
    rfl
  | some root =>
    rw [hroot] at h
    cases hread : Project.readFile d (root.join projectFileName) with
    | error e => simp [hread, Except.map] at h
    | ok p =>
      simp only [hread, Except.map, Except.ok.injEq] at h
      rw [← h]

/-- **The root of a project is found as the start is spelled.**  Let a project be loaded for a
directory of a file tree.  Its root is the first on the way from path to parent that leads to a
directory with a project file; without a root there is none on this way.

If no step of the start is a step up, this is the nearest of the directories that enclose the start
and the start itself: of all of them for an absolute start, and of those up to the current directory
for any other.  (The path of a file in the start must not be longer than paths may be.) -/
theorem ofDirectory_goes_by_spelling (ht : d.IsTree) (hfind : d.find start = .ok loc)
    (hdir : d.hasDir loc = true) (h : ofDirectory d env start = .ok l) :
    (∃ climb, start.Climb climb ∧ d.IsFirst climb l.root) ∧
      (Path.Component.up ∉ start.components →
        Disk.pathFault? (start.join projectFileName) = none →
          d.IsNearest (if start.isAbsolute then [] else d.cwd) loc l.root) := by
  have hstart : d.Leads start loc := Disk.leads_of_find hfind hdir
  have hclimb : start.Climb start.selfAndAbove := Path.climb_selfAndAbove start
  have hnul : Char.ofNat 0 ∉ start.chars := by
    unfold Disk.find at hfind
    split at hfind
    · cases hfind
    · rename_i hfault
      exact (Disk.pathFault?_eq_none_iff.mp hfault).1
  rw [root_of_ofDirectory h]
  refine ⟨⟨_, hclimb, Disk.isFirst_of_climb ht hclimb hstart hnul⟩, fun hup hfits => ?_⟩
  exact Disk.isNearest_of_climb ht hclimb hstart hup hfits

/-! ## Two projects, one in the other -/

/-- A directory with a project, as seen from a directory in it, which has another project below. -/
def nestedProjects : Disk :=
  (((Disk.bare [['s', 'r', 'c'], ['p']]).put [projectFileName.chars, ['p']] (.file .empty)).put
    [['a'], ['s', 'r', 'c'], ['p']] .dir).put
      [projectFileName.chars, ['a'], ['s', 'r', 'c'], ['p']] (.file .empty)

theorem isTree_nestedProjects : nestedProjects.IsTree := by
  refine Disk.IsTree.put (.put (.put (Disk.isTree_bare _) ?_ ?_) ?_ ?_) ?_ ?_
  · decide
  · exact .put_file (by decide) .empty
  · decide
  · exact .put_dir (by decide)
  · decide
  · exact .put_file (by decide) .empty

/-- By an absolute path, the outer project is found. -/
theorem ofDirectory_goes_by_spelling_outer :
    ofDirectory nestedProjects none ⟨"/p/src"⟩ = .ok ⟨{}, some ⟨"/p"⟩⟩ ∧
      nestedProjects.IsNearest [] [['s', 'r', 'c'], ['p']] (some ⟨"/p"⟩) := by
  have hload : ofDirectory nestedProjects none ⟨"/p/src"⟩ = .ok ⟨{}, some ⟨"/p"⟩⟩ :=
    eq_ok_of_toOption (by decide +kernel)
  have hfind : nestedProjects.find ⟨"/p/src"⟩ = .ok [['s', 'r', 'c'], ['p']] := by rfl
  obtain ⟨-, hnearest⟩ :=
    ofDirectory_goes_by_spelling isTree_nestedProjects hfind (by decide) hload
  exact ⟨hload, hnearest (by decide) (by decide)⟩

/-- **Not every start gets the project that encloses it.**  By a dot, or by a way down and up again,
the same directory gets no project, or the one below. -/
theorem ofDirectory_misses_enclosing :
    nestedProjects.IsTree ∧
      (nestedProjects.find ⟨"."⟩ = .ok [['s', 'r', 'c'], ['p']] ∧
        ofDirectory nestedProjects none ⟨"."⟩ = .ok ⟨{}, none⟩ ∧
        ¬ nestedProjects.IsNearest [] [['s', 'r', 'c'], ['p']] none) ∧
      (nestedProjects.find ⟨"a/.."⟩ = .ok [['s', 'r', 'c'], ['p']] ∧
        ofDirectory nestedProjects none ⟨"a/.."⟩ = .ok ⟨{}, some ⟨"a"⟩⟩ ∧
        ¬ nestedProjects.IsNearest [] [['s', 'r', 'c'], ['p']] (some ⟨"a"⟩)) := by
  refine ⟨isTree_nestedProjects, ⟨rfl, eq_ok_of_toOption (by decide +kernel), fun h => ?_⟩,
    rfl, eq_ok_of_toOption (by decide +kernel), ?_⟩
  · exact h [['p']] List.nil_suffix (List.suffix_cons _ _) rfl
  · rintro ⟨m, hm, -, hbelow, -⟩
    have ha : nestedProjects.Leads ⟨"a"⟩ [['a'], ['s', 'r', 'c'], ['p']] := by rfl
    rw [hm.unique ha] at hbelow
    exact absurd hbelow.length_le (by decide)

end LoadedProject

end Fanout
