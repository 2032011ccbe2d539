import Fanout.Proofs.Project.Soundness
import Mathlib.Data.List.Induction
import Mathlib.Data.List.Nodup

/-!
# What a project file is refused for

`Project.FirstFault` says which error any project is refused with: of the rules, taken in their
order, the first that is broken, at the earliest entry where an entry is to blame.  The error names
the field, with the place of the entry, in the words of the configuration file.

* `VariantEntry.firstFault?_append`: entries that are in order are passed over, and only their kinds
  are remembered; this is what the search keeps to from one entry to the next.
* `VariantEntry.clear_or_firstFault`: entries are all in order, or one of them is the first that is
  not, since entries that follow do not change the first fault (`VariantEntry.FirstFault.append`).

The main result, `Project.validate_verdict`, joins this with the projects that pass.
-/

set_option autoImplicit false

namespace Fanout

namespace VariantEntry

/-- Entries that are in order: every path has a name, and no kind occurs twice. -/
structure Clear (entries : List VariantEntry) : Prop where
  named : ∀ v ∈ entries, v.Named
  kinds : (entries.map (·.kind)).Nodup

/-- The error for the first entry that is not in order; its place is the number of those before
it. -/
inductive FirstFault (entries : List VariantEntry) : ConfigError → Prop
  | outDir {before after : List VariantEntry} {v : VariantEntry}
      (split : entries = before ++ v :: after) (earlier : Clear before)
      (unnamed : v.outDir = .empty) :
      FirstFault entries
        (.invalidValue ("emit.variants[" ++ toString before.length ++ "].out_dir")
          "path cannot be empty")
  | cacheDir {before after : List VariantEntry} {v : VariantEntry}
      (split : entries = before ++ v :: after) (earlier : Clear before)
      (outDir : v.outDir ≠ .empty) (unnamed : v.cacheDir = some .empty) :
      FirstFault entries
        (.invalidValue ("emit.variants[" ++ toString before.length ++ "].cache_dir")
          "path cannot be empty")
  | repeatedKind {before after : List VariantEntry} {v : VariantEntry}
      (split : entries = before ++ v :: after) (earlier : Clear before) (named : v.Named)
      (again : v.kind ∈ before.map (·.kind)) :
      FirstFault entries
        (.invalidValue ("emit.variants[" ++ toString before.length ++ "].module")
          ("module '" ++ v.kind.name ++ "' is listed more than once"))

end VariantEntry

/-- The error that a project is refused with: everything that is looked at before it is in order. -/
inductive Project.FirstFault (p : Project) : ConfigError → Prop
  | outDir (unnamed : p.compiler.bind (·.outDir) = some .empty) :
      FirstFault p (.invalidValue "compiler.out_dir" "path cannot be empty")
  | noVariants {e : EmitSection} (outDir : p.compiler.bind (·.outDir) ≠ some .empty)
      (emit : p.emit = some e) (nothing : e.variants = []) :
      FirstFault p (.invalid "[emit] must list at least one variant")
  | cacheRoot {e : EmitSection} (outDir : p.compiler.bind (·.outDir) ≠ some .empty)
      (emit : p.emit = some e) (something : e.variants ≠ []) (unnamed : e.cacheDir = some .empty) :
      FirstFault p (.invalidValue "emit.cache_dir" "path cannot be empty")
  | entry {e : EmitSection} {fault : ConfigError}
      (outDir : p.compiler.bind (·.outDir) ≠ some .empty) (emit : p.emit = some e)
      (cacheRoot : e.cacheDir ≠ some .empty) (first : VariantEntry.FirstFault e.variants fault) :
      FirstFault p fault

theorem givenEmpty_iff {p : Option Path} : givenEmpty p = true ↔ p = some .empty := by
  cases p with
  | none => simp [givenEmpty]
  | some dir => simp [givenEmpty, Path.isEmpty_iff]

theorem ProjectFault.variantField_eq (place : Nat) (field : String) :
    variantField place field = "emit.variants[" ++ toString place ++ ("]." ++ field) :=
  String.append_assoc

namespace VariantEntry

variable {entries : List VariantEntry} {fault : ConfigError}

theorem named_iff_ne {v : VariantEntry} :
    v.Named ↔ v.outDir ≠ .empty ∧ v.cacheDir ≠ some .empty := by
  rw [named_iff, ← Bool.not_eq_true, ← Bool.not_eq_true, Path.isEmpty_iff, givenEmpty_iff]

/-! ## The search through the entries -/

/-- What is in order is passed over, and its kinds are remembered. -/
theorem firstFault?_append {place : Nat} {seen : List ModuleKind} {before rest : List VariantEntry}
    (h : Clear before) (hfresh : ∀ u ∈ before, u.kind ∉ seen) :
    firstFault? place seen (before ++ rest) =
      firstFault? (place + before.length) ((before.map (·.kind)).reverse ++ seen) rest := by
  induction before generalizing place seen with
  | nil => rfl
  | cons u before ih =>
    obtain ⟨hnamed, hrest⟩ := List.forall_mem_cons.mp h.named
    obtain ⟨hu, hkinds⟩ := List.nodup_cons.mp h.kinds
    obtain ⟨hout, hcache⟩ := named_iff.mp hnamed
    have hseen : seen.contains u.kind = false := by simpa using hfresh u List.mem_cons_self
    have hfresh' : ∀ w ∈ before, w.kind ∉ u.kind :: seen := by
      intro w hw hmem
      rcases List.mem_cons.mp hmem with hk | hk
      · exact hu (List.mem_map.mpr ⟨w, hw, hk⟩)
      · exact hfresh w (List.mem_cons_of_mem _ hw) hk
    rw [List.cons_append, firstFault?, hout, hcache, hseen]
    simp only [Bool.false_eq_true, if_false]
    rw [ih ⟨hrest, hkinds⟩ hfresh']
    simp [Nat.add_assoc, Nat.add_comm 1]

/-- The search arrives at the entry behind those that are in order. -/
theorem firstFault?_split {before after : List VariantEntry} {v : VariantEntry}
    (h : Clear before) :
    firstFault? 0 [] (before ++ v :: after) =
      firstFault? before.length (before.map (·.kind)).reverse (v :: after) := by
  rw [firstFault?_append h (by simp), Nat.zero_add, List.append_nil]

/-- The first fault stays the first whatever follows. -/
theorem FirstFault.append (h : FirstFault entries fault) (more : List VariantEntry) :
    FirstFault (entries ++ more) fault := by
  cases h with
  | outDir hsplit hclear hout =>
    exact .outDir (by rw [hsplit, List.append_assoc, List.cons_append]) hclear hout
  | cacheDir hsplit hclear hout hcache =>
    exact .cacheDir (by rw [hsplit, List.append_assoc, List.cons_append]) hclear hout hcache
  | repeatedKind hsplit hclear hnamed hkind =>
    exact .repeatedKind (by rw [hsplit, List.append_assoc, List.cons_append]) hclear hnamed hkind

/-- Entries are in order, or there is a first that is not. -/
theorem clear_or_firstFault (entries : List VariantEntry) :
    Clear entries ∨ ∃ fault, FirstFault entries fault := by
  induction entries using List.reverseRecOn with
  | nil => exact Or.inl ⟨by simp, List.nodup_nil⟩
  | append_singleton entries v ih =>
    rcases ih with hclear | ⟨fault, hfault⟩
    · by_cases hout : v.outDir = .empty
      · exact Or.inr ⟨_, .outDir rfl hclear hout⟩
      by_cases hcache : v.cacheDir = some .empty
      · exact Or.inr ⟨_, .cacheDir rfl hclear hout hcache⟩
      have hnamed : v.Named := named_iff_ne.mpr ⟨hout, hcache⟩
      by_cases hkind : v.kind ∈ entries.map (·.kind)
      · exact Or.inr ⟨_, .repeatedKind rfl hclear hnamed hkind⟩
      · left
        refine ⟨?_, ?_⟩
        · simpa [or_imp, forall_and] using ⟨hclear.named, hnamed⟩
        · simpa using hclear.kinds.concat hkind
    · exact Or.inr ⟨fault, hfault.append [v]⟩

/-- The search finds the first fault. -/
theorem FirstFault.exists_firstFault? (h : FirstFault entries fault) :
    ∃ found, firstFault? 0 [] entries = some found ∧ found.toError = fault := by
  cases h with
  | outDir hsplit hclear hout =>
    rw [hsplit, firstFault?_split hclear, firstFault?, if_pos (Path.isEmpty_iff.mpr hout)]
    exact ⟨_, rfl, by rw [ProjectFault.toError, ProjectFault.variantField_eq]; rfl⟩
  | @cacheDir before after v hsplit hclear hout hcache =>
    have hnamed : v.outDir.isEmpty = false := by simpa [← Path.isEmpty_iff] using hout
    rw [hsplit, firstFault?_split hclear, firstFault?, hnamed, if_neg Bool.false_ne_true,
      if_pos (givenEmpty_iff.mpr hcache)]
    exact ⟨_, rfl, by rw [ProjectFault.toError, ProjectFault.variantField_eq]; rfl⟩
  | @repeatedKind before after v hsplit hclear hnamed hkind =>
    obtain ⟨hout, hcache⟩ := named_iff.mp hnamed
    have hseen : (before.map (·.kind)).reverse.contains v.kind = true := by simpa using hkind
    rw [hsplit, firstFault?_split hclear, firstFault?, hout, hcache, hseen]
    exact ⟨_, rfl, by rw [ProjectFault.toError, ProjectFault.variantField_eq]; rfl⟩

theorem clear_iff : Clear entries ↔ firstFault? 0 [] entries = none := by
  rw [firstFault?_eq_none_iff]
  exact ⟨fun h => ⟨h.named, h.kinds, by simp⟩, fun h => ⟨h.1, h.2.1⟩⟩

/-- **The search through the entries gives the first fault,** if there is one. -/
theorem firstFault?_iff :
    (∃ found, firstFault? 0 [] entries = some found ∧ found.toError = fault) ↔
      FirstFault entries fault := by
  refine ⟨?_, FirstFault.exists_firstFault?⟩
  rintro ⟨found, hfound, rfl⟩
  rcases clear_or_firstFault entries with hclear | ⟨fault, hfirst⟩
  · rw [clear_iff.mp hclear] at hfound
    cases hfound
  · obtain ⟨found', hfound', rfl⟩ := hfirst.exists_firstFault?
    rw [hfound] at hfound'
    obtain rfl := Option.some.inj hfound'
    exact hfirst

end VariantEntry

/-! ## The sections -/

/-- How an emit section is refused: as a whole, for its cache root, or for an entry. -/
theorem EmitSection.firstFault?_iff {e : EmitSection} {fault : ConfigError} :
    (∃ found, e.firstFault? = some found ∧ found.toError = fault) ↔
      e.variants = [] ∧ .invalid "[emit] must list at least one variant" = fault ∨
        e.variants ≠ [] ∧ e.cacheDir = some .empty ∧
          .invalidValue "emit.cache_dir" "path cannot be empty" = fault ∨
        e.cacheDir ≠ some .empty ∧ VariantEntry.FirstFault e.variants fault := by
  unfold firstFault?
  by_cases hvariants : e.variants = []
  · have hnothing : ¬ VariantEntry.FirstFault [] fault := by
      rintro (⟨hsplit⟩ | ⟨hsplit⟩ | ⟨hsplit⟩) <;> simp at hsplit
    simp [hvariants, hnothing, ProjectFault.toError]
  · rw [if_neg (by simpa using hvariants)]
    by_cases hcache : e.cacheDir = some .empty
    · rw [if_pos (givenEmpty_iff.mpr hcache)]
      simp [hvariants, hcache, ProjectFault.toError]
    · rw [if_neg (mt givenEmpty_iff.mp hcache), VariantEntry.firstFault?_iff]
      simp [hvariants, hcache]

namespace Project

variable {p : Project} {fault : ConfigError}

theorem validate_eq_error_iff :
    p.validate = .error fault ↔ ∃ found, p.firstFault? = some found ∧ found.toError = fault := by
  unfold validate
  cases p.firstFault? <;> simp

/-- **The search through the sections gives the first fault,** if there is one. -/
theorem firstFault?_iff :
    (∃ found, p.firstFault? = some found ∧ found.toError = fault) ↔ p.FirstFault fault := by
  unfold firstFault?
  by_cases hout : p.compiler.bind (·.outDir) = some .empty
  · rw [if_pos (givenEmpty_iff.mpr hout)]
    constructor
    · rintro ⟨_, ⟨⟩, rfl⟩
      exact .outDir hout
    · intro h
      cases h with
      | outDir => exact ⟨_, rfl, rfl⟩
      | noVariants hnamed => exact absurd hout hnamed
      | cacheRoot hnamed => exact absurd hout hnamed
      | entry hnamed => exact absurd hout hnamed
  · rw [if_neg (mt givenEmpty_iff.mp hout)]
    constructor
    · rintro ⟨found, hfound, hfault⟩
      obtain ⟨e, hemit, he⟩ := Option.bind_eq_some_iff.mp hfound
      rcases EmitSection.firstFault?_iff.mp ⟨found, he, hfault⟩ with
        ⟨hnothing, rfl⟩ | ⟨hlisted, hcache, rfl⟩ | ⟨hcache, hentry⟩
      · exact .noVariants hout hemit hnothing
      · exact .cacheRoot hout hemit hlisted hcache
      · exact .entry hout hemit hcache hentry
    · intro h
      cases h with
      | outDir hunnamed => exact absurd hunnamed hout
      | noVariants _ hemit hnothing =>
        rw [hemit]
        exact EmitSection.firstFault?_iff.mpr (Or.inl ⟨hnothing, rfl⟩)
      | cacheRoot _ hemit hlisted hcache =>
        rw [hemit]
        exact EmitSection.firstFault?_iff.mpr (Or.inr (Or.inl ⟨hlisted, hcache, rfl⟩))
      | entry _ hemit hcache hentry =>
        rw [hemit]
        exact EmitSection.firstFault?_iff.mpr (Or.inr (Or.inr ⟨hcache, hentry⟩))

/-- **Every project is valid or refused for its first fault.**  It is valid exactly if every path it
gives has a name, no two of its variants have one kind, and an emit section lists variants; and it
is refused with an error exactly if that is the first.  An error about an entry names the place of
the earliest entry with a fault: all before it have names for their paths and kinds of their own. -/
theorem validate_verdict (p : Project) :
    (p.validate = .ok () ↔ p.Sound ∧ ∀ e, p.emit = some e → e.variants ≠ []) ∧
      (∀ fault, p.validate = .error fault ↔ p.FirstFault fault) ∧
      (p.validate = .ok () ∨ ∃ fault, p.FirstFault fault) := by
  refine ⟨validate_eq_ok_iff, fun fault => ?_, ?_⟩
  · rw [validate_eq_error_iff, firstFault?_iff]
  · cases hv : p.validate with
    | ok _ => exact Or.inl rfl
    | error fault => exact Or.inr ⟨fault, firstFault?_iff.mp (validate_eq_error_iff.mp hv)⟩

/-- Entries with several faults: the earliest is to blame, and of its faults the first. -/
example :
    validate { emit := some { variants :=
      [⟨.commonJs, ⟨"cjs"⟩, none, true⟩, ⟨.commonJs, ⟨"esm"⟩, some ⟨""⟩, false⟩,
        ⟨.esNext, ⟨""⟩, none, false⟩] } } =
      .error (.invalidValue "emit.variants[1].cache_dir" "path cannot be empty") := by
  decide

end Project

end Fanout
