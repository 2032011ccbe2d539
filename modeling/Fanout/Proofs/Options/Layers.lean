import Fanout.Options.Basic
import Mathlib.Data.List.Induction

/-!
# Options in layers

A layer sets some of the nine fields of options and leaves the others as they are.  `Options.Field`
names the fields, so that what holds of each of them is said once; `Step.sets` says which fields a
layer sets and to what, in the form of a compiler section.

* `apply_eq_merge`: every kind of layer does what a compiler section with these fields does.
* `merge_merge`: two sections on top of each other are one, in which the upper one goes first.
* `get?_combined_eq_some_iff`: so in the section that combines a list of layers, a field has the
  value of the last layer that sets it.

The main result, `layered_last_wins`, reads this off for options under any layers.
-/

set_option autoImplicit false

namespace Fanout

namespace Options

/-- The fields of options. -/
inductive Field where
  | outDir
  | kind
  | target
  | rootDir
  | declaration
  | declarationMap
  | sourceMap
  | incremental
  | buildInfoFile
  deriving DecidableEq, Repr

/-- What a field says where it is set. -/
def Field.Value : Field → Type
  | .outDir | .rootDir | .buildInfoFile => Path
  | .kind => ModuleKind
  | .target => String
  | .declaration | .declarationMap | .sourceMap | .incremental => Bool

/-- The value of a field; some fields always have one. -/
def get? (o : Options) : (f : Field) → Option f.Value
  | .outDir => o.outDir
  | .kind => some o.kind
  | .target => o.target
  | .rootDir => o.rootDir
  | .declaration => some o.declaration
  | .declarationMap => some o.declarationMap
  | .sourceMap => some o.sourceMap
  | .incremental => some o.incremental
  | .buildInfoFile => o.buildInfoFile

theorem eq_of_get?_eq {o o' : Options} (h : ∀ f, o.get? f = o'.get? f) : o = o' := by
  cases o
  cases o'
  rw [mk.injEq]
  exact ⟨h .outDir, Option.some.inj (h .kind), h .target, h .rootDir,
    Option.some.inj (h .declaration), Option.some.inj (h .declarationMap),
    Option.some.inj (h .sourceMap), Option.some.inj (h .incremental), h .buildInfoFile⟩

end Options

namespace CompilerSection

open Options (Field)

/-- The value that a section gives a field, if it sets it. -/
def get? (s : CompilerSection) : (f : Field) → Option f.Value
  | .outDir => s.outDir
  | .kind => s.kind
  | .target => s.target
  | .rootDir => s.rootDir
  | .declaration => s.declaration
  | .declarationMap => s.declarationMap
  | .sourceMap => s.sourceMap
  | .incremental => s.incremental
  | .buildInfoFile => s.buildInfoFile

/-- Two sections in one, the fields of the first going before those of the second. -/
def onTopOf (s t : CompilerSection) : CompilerSection where
  kind := s.kind.or t.kind
  target := s.target.or t.target
  outDir := s.outDir.or t.outDir
  rootDir := s.rootDir.or t.rootDir
  declaration := s.declaration.or t.declaration
  declarationMap := s.declarationMap.or t.declarationMap
  sourceMap := s.sourceMap.or t.sourceMap
  incremental := s.incremental.or t.incremental
  buildInfoFile := s.buildInfoFile.or t.buildInfoFile

@[simp] theorem get?_onTopOf (s t : CompilerSection) (f : Field) :
    (s.onTopOf t).get? f = (s.get? f).or (t.get? f) := by
  cases f <;> rfl

@[simp] theorem get?_empty (f : Field) : ({} : CompilerSection).get? f = none := by
  cases f <;> rfl

end CompilerSection

namespace Options

variable {o : Options} {steps : List Step} {f : Field} {v : f.Value}

/-! ## One layer -/

/-- The fields that a layer sets. -/
def Step.sets : Step → CompilerSection
  | .declared s => s
  | .patch p =>
    { outDir := p.outDir
      kind := p.kind
      declaration := p.declaration
      declarationMap := p.declarationMap }
  | .kind k => { kind := some k }
  | .outDir dir => { outDir := some dir }
  | .declarations enabled => { declaration := some enabled, declarationMap := some enabled }
  | .incremental enabled => { incremental := some enabled }

theorem apply_eq_merge (o : Options) (t : Step) : t.apply o = o.merge t.sets := by
  cases t <;> rfl

@[simp] theorem get?_merge (o : Options) (s : CompilerSection) (f : Field) :
    (o.merge s).get? f = (s.get? f).or (o.get? f) := by
  have hgetD : ∀ {α : Type} (a? : Option α) (a : α), some (a?.getD a) = a?.or (some a) := by
    intro α a? a
    cases a? <;> rfl
  cases f
  case outDir | target | rootDir | buildInfoFile => rfl
  all_goals exact hgetD _ _

theorem merge_merge (o : Options) (s t : CompilerSection) :
    (o.merge s).merge t = o.merge (t.onTopOf s) := by
  apply eq_of_get?_eq
  intro f
  simp only [get?_merge, CompilerSection.get?_onTopOf, Option.or_assoc]

/-! ## Layers on top of each other -/

/-- The section that says what layers come to. -/
def combined (steps : List Step) : CompilerSection := steps.foldl (fun s t => t.sets.onTopOf s) {}

@[simp] theorem combined_concat (steps : List Step) (t : Step) :
    combined (steps ++ [t]) = t.sets.onTopOf (combined steps) := by
  simp [combined]

@[simp] theorem layered_concat (o : Options) (steps : List Step) (t : Step) :
    layered o (steps ++ [t]) = t.apply (layered o steps) := by
  simp [layered]

theorem layered_eq_merge (o : Options) (steps : List Step) :
    layered o steps = o.merge (combined steps) := by
  induction steps using List.reverseRecOn with
  | nil => rfl
  | append_singleton steps t ih =>
    rw [layered_concat, combined_concat, apply_eq_merge, ih, merge_merge]

/-- The last layer that sets a field gives it this value. -/
def LastSets (steps : List Step) (f : Field) (v : f.Value) : Prop :=
  ∃ before t after, steps = before ++ t :: after ∧ t.sets.get? f = some v ∧
    ∀ u ∈ after, u.sets.get? f = none

theorem lastSets_concat_iff {t : Step} :
    LastSets (steps ++ [t]) f v ↔
      t.sets.get? f = some v ∨ t.sets.get? f = none ∧ LastSets steps f v := by
  constructor
  · rintro ⟨before, u, after, hsplit, hu, hafter⟩
    rcases List.eq_nil_or_concat after with rfl | ⟨after, w, rfl⟩
    · obtain ⟨-, ht⟩ := List.append_inj' hsplit rfl
      obtain rfl : t = u := List.head_eq_of_cons_eq ht
      exact Or.inl hu
    · rw [List.concat_eq_append] at hsplit hafter
      rw [← List.cons_append, ← List.append_assoc] at hsplit
      obtain ⟨hsteps, ht⟩ := List.append_inj' hsplit rfl
      obtain rfl : t = w := List.head_eq_of_cons_eq ht
      exact Or.inr ⟨hafter t (by simp), before, u, after, hsteps, hu,
        fun x hx => hafter x (List.mem_append_left _ hx)⟩
  · rintro (ht | ⟨ht, before, u, after, rfl, hu, hafter⟩)
    · exact ⟨steps, t, [], rfl, ht, by simp⟩
    · refine ⟨before, u, after ++ [t], by simp, hu, fun x hx => ?_⟩
      rcases List.mem_append.mp hx with hx | hx
      · exact hafter x hx
      · rw [List.mem_singleton.mp hx, ht]

theorem get?_combined_eq_some_iff : (combined steps).get? f = some v ↔ LastSets steps f v := by
  induction steps using List.reverseRecOn with
  | nil => simp [combined, LastSets]
  | append_singleton steps t ih =>
    rw [combined_concat, CompilerSection.get?_onTopOf, Option.or_eq_some_iff, ih,
      lastSets_concat_iff]

theorem get?_combined_eq_none_iff :
    (combined steps).get? f = none ↔ ∀ t ∈ steps, t.sets.get? f = none := by
  induction steps using List.reverseRecOn with
  | nil => simp [combined]
  | append_singleton steps t ih =>
    rw [combined_concat, CompilerSection.get?_onTopOf, Option.or_eq_none_iff, ih]
    simp [or_imp, forall_and, and_comm]

/-- **In every field the last layer that sets it wins.**  After any layers a field has the value
that the last layer to set it gives, or the base's if no layer sets it; a field that has a value
keeps having one.  So the layers come to one compiler section, whatever the base, and to put the
last layer on once more changes nothing. -/
theorem layered_last_wins (o : Options) (steps : List Step) :
    (∀ f v, (layered o steps).get? f = some v ↔
        LastSets steps f v ∨ (∀ t ∈ steps, t.sets.get? f = none) ∧ o.get? f = some v) ∧
      (∀ f, (layered o steps).get? f = none ↔
        (∀ t ∈ steps, t.sets.get? f = none) ∧ o.get? f = none) ∧
      layered o steps = o.merge (combined steps) ∧
      (∀ f v, (combined steps).get? f = some v ↔ LastSets steps f v) ∧
      ∀ t, layered o (steps ++ [t, t]) = layered o (steps ++ [t]) := by
  refine ⟨fun f v => ?_, fun f => ?_, layered_eq_merge o steps,
    fun _ _ => get?_combined_eq_some_iff, fun t => ?_⟩
  · rw [layered_eq_merge, get?_merge, Option.or_eq_some_iff, get?_combined_eq_some_iff,
      get?_combined_eq_none_iff]
  · rw [layered_eq_merge, get?_merge, Option.or_eq_none_iff, get?_combined_eq_none_iff]
  · have htwice : steps ++ [t, t] = (steps ++ [t]) ++ [t] := by simp
    apply eq_of_get?_eq
    intro f
    rw [htwice, layered_concat _ (steps ++ [t]), layered_concat, apply_eq_merge, apply_eq_merge]
    simp only [get?_merge, ← Option.or_assoc, Option.or_self]

/-- A patch for a secondary variant turns both kinds of declarations off; the kind that comes after
it replaces its own. -/
example :
    combined [.declared { declaration := some true, target := some "es2019" },
        .patch (.forSecondary .esNext ⟨"esm"⟩), .kind .amd] =
      { kind := some .amd, target := some "es2019", outDir := some ⟨"esm"⟩,
        declaration := some false, declarationMap := some false } := by
  decide

end Options

end Fanout
