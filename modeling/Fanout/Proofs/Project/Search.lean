import Fanout.Project.Load
import Fanout.Proofs.Path.Parents

/-!
# The search for a project file

A project is looked for in a start, then in its parent, in the parent of that, and so on.
`Path.Climb` is that way up; it ends for every spelling of a start (`climb_iff`).

A project that was found so keeps the directory it was found in as its root, while one that is
loaded from a file gets the parent of the file.  The two are one path
(`exists_parent?_join_projectFileName`), also for the empty path, the root, and a directory that is
spelled with slashes or dots at its end.

The main result, `ofDirectory_agrees`, is that a search comes to what loading the nearest file comes
to, errors included.
-/

set_option autoImplicit false

namespace Fanout

namespace Path

/-! ## The way up -/

/-- A path, its parent, the parent of that, and so on up to a path that has none. -/
inductive Climb : Path → List Path → Prop
  | top {p : Path} : p.parent? = none → Climb p [p]
  | up {p q : Path} {ps : List Path} : p.parent? = some q → Climb q ps → Climb p (p :: ps)

/-- Every climb ends: there is one path less above the parent. -/
theorem climb_selfAndAbove (p : Path) : Climb p p.selfAndAbove := by
  rw [selfAndAbove]
  induction habove : p.above generalizing p with
  | nil =>
    refine .top ?_
    rw [parent?, habove]
    rfl
  | cons q rest ih =>
    have hq : p.parent? = some q := by
      rw [parent?, habove]
      rfl
    have hrest : q.above = rest := by
      rw [above_of_parent? hq] at habove
      exact (List.cons.inj habove).2
    exact .up hq (ih q hrest)

theorem Climb.eq_selfAndAbove {p : Path} {ps : List Path} (h : Climb p ps) :
    ps = p.selfAndAbove := by
  induction h with
  | @top p hp =>
    rw [parent?, List.head?_eq_none_iff] at hp
    rw [selfAndAbove, hp]
  | @up p q ps hp _ ih =>
    rw [ih, ← above_of_parent? hp]
    rfl

theorem climb_iff {p : Path} {ps : List Path} : Climb p ps ↔ ps = p.selfAndAbove :=
  ⟨Climb.eq_selfAndAbove, fun h => h ▸ climb_selfAndAbove p⟩

/-! ## The directory of a project file -/

theorem components_join_projectFileName (dir : Path) :
    (dir.join projectFileName).components = dir.components ++ [.name projectFileName.chars] := by
  by_cases hdir : dir = .empty
  · subst hdir
    decide
  · rw [components_join hdir (by decide)]
    rfl

/-- **A project file lies in the directory that it was put in,** however that is spelled. -/
theorem exists_parent?_join_projectFileName (dir : Path) :
    ∃ root, (dir.join projectFileName).parent? = some root ∧ root.same dir = true :=
  exists_parent?_of_components (components_join_projectFileName dir)

end Path

namespace LoadedProject

/-- Two ways of loading come to one project, with one path as its root, or to one error. -/
inductive Agree (dir : Path) :
    Except ConfigError LoadedProject → Except ConfigError LoadedProject → Prop
  | loaded {project : Project} {root : Path} : root.same dir = true →
      Agree dir (.ok ⟨project, some dir⟩) (.ok ⟨project, some root⟩)
  | refused (e : ConfigError) : Agree dir (.error e) (.error e)

/-- **A search comes to what loading the nearest file comes to.**  The way up from any start ends.
Where a directory on it has a project file, or anything of that name, the first such directory
decides: a project found in it is the one that the file gives, with the directory as its root, and
an error with that file is the error of the search.  Where there is none the project is the empty
one, under the environment, and has no root. -/
theorem ofDirectory_agrees (d : Disk) (env : Option Environment) (start : Path) :
    ∃ climb, (∀ ps, start.Climb ps ↔ ps = climb) ∧
      match climb.find? fun dir => d.resolves (dir.join projectFileName) with
      | some dir =>
        Agree dir (ofDirectory d env start) (ofFile d env (dir.join projectFileName))
      | none => ofDirectory d env start = .ok ⟨withEnvironment env {}, none⟩ := by
  refine ⟨start.selfAndAbove, fun ps => Path.climb_iff, ?_⟩
  show match findRoot? d start with
    | some dir => Agree dir (ofDirectory d env start) (ofFile d env (dir.join projectFileName))
    | none => ofDirectory d env start = .ok ⟨withEnvironment env {}, none⟩
  unfold ofDirectory
  cases findRoot? d start with
  | none => rfl
  | some dir =>
    obtain ⟨root, hroot, hsame⟩ := Path.exists_parent?_join_projectFileName dir
    dsimp only
    unfold ofFile
    cases Project.readFile d (dir.join projectFileName) with
    | error e => exact .refused e
    | ok p =>
      rw [hroot]
      exact .loaded hsame

end LoadedProject

end Fanout
