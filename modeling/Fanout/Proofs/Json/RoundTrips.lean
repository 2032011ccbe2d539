import Fanout.Emission.Wire
import Fanout.Options.Wire
import Fanout.Pipeline.Wire
import Fanout.Project.Wire
import Fanout.Proofs.Json.Records
import Fanout.Variant.Wire

/-!
# Everything that is written is read back

Every type with a JSON form is written and read faithfully.

A record's proof goes through its fields in the order in which they are read, and says for each what
was written there.  The sections of a project leave members out; their `slots` are the members with
what is written for each, if anything.
-/

set_option autoImplicit false

namespace Fanout

open Json (Faithful RoundTrips LeavesOutNone Slots present bind_eq_some_of memberIfSome_eq
  present_append lookup_present leavesOutNone_present)

theorem ModuleKind.faithful : Faithful ModuleKind.toJson ModuleKind.ofJson? :=
  .names ModuleKind.ofName?_name

theorem OutputMode.faithful : Faithful OutputMode.toJson OutputMode.ofJson? :=
  .names OutputMode.ofName?_name

theorem Severity.faithful : Faithful Severity.toJson Severity.ofJson? :=
  .names Severity.ofName?_name

theorem Handle.faithful : Faithful Handle.toJson Handle.ofJson? where
  reads h := by
    have hword : (Json.nat h.id.toNat).word? 64 = some h.id.toNat := Json.word?_nat h.id.toNat_lt
    simp [ofJson?, toJson, hword]
  ne_null := nofun
  proper _ := trivial

/-! ## Emission -/

theorem Diagnostic.faithful : Faithful Diagnostic.toJson Diagnostic.ofJson? := by
  refine .record (by decide) (fun _ => .refl _) ?_ ?_
  · intro d
    exact ⟨Faithful.path.proper_orNull d.file, trivial, Severity.faithful.proper d.severity,
      trivial, trivial⟩
  · intro d
    refine bind_eq_some_of (Faithful.path.orNull rfl) ?_
    refine bind_eq_some_of (a := d.code.toNat) (Json.word?_nat d.code.toNat_lt) ?_
    refine bind_eq_some_of (Severity.faithful.required rfl) ?_
    refine bind_eq_some_of (Faithful.text.required rfl) ?_
    simp

theorem EmitResult.faithful : Faithful EmitResult.toJson EmitResult.ofJson? := by
  refine .record (by decide) (fun _ => .refl _) ?_ ?_
  · intro r
    exact ⟨Diagnostic.faithful.list.proper _, trivial, Faithful.path.list.proper _, trivial⟩
  · intro r
    refine bind_eq_some_of (Diagnostic.faithful.list.required rfl) ?_
    refine bind_eq_some_of (Faithful.bool.required rfl) ?_
    exact bind_eq_some_of (Faithful.path.list.required rfl) rfl

/-! ## Options and variants -/

theorem Options.faithful : Faithful Options.toJson Options.ofJson? := by
  refine .record (by decide) (fun _ => .refl _) ?_ ?_
  · intro o
    exact ⟨Faithful.path.proper_orNull _, ModuleKind.faithful.proper _,
      Faithful.text.proper_orNull _, Faithful.path.proper_orNull _, trivial, trivial, trivial,
      trivial, Faithful.path.proper_orNull _, trivial⟩
  · intro o
    refine bind_eq_some_of (Faithful.path.orNull rfl) ?_
    refine bind_eq_some_of (ModuleKind.faithful.required rfl) ?_
    refine bind_eq_some_of (Faithful.text.orNull rfl) ?_
    refine bind_eq_some_of (Faithful.path.orNull rfl) ?_
    refine bind_eq_some_of (Faithful.bool.required rfl) ?_
    refine bind_eq_some_of (Faithful.bool.required rfl) ?_
    refine bind_eq_some_of (Faithful.bool.required rfl) ?_
    refine bind_eq_some_of (Faithful.bool.required rfl) ?_
    exact bind_eq_some_of (Faithful.path.orNull rfl) rfl

theorem Variant.faithful : Faithful Variant.toJson Variant.ofJson? := by
  refine .record (by decide) (fun _ => .refl _) ?_ ?_
  · intro v
    exact ⟨ModuleKind.faithful.proper _, trivial, trivial, trivial, trivial⟩
  · intro v
    refine bind_eq_some_of (ModuleKind.faithful.required rfl) ?_
    refine bind_eq_some_of (Faithful.path.required rfl) ?_
    refine bind_eq_some_of (Faithful.path.required rfl) ?_
    exact bind_eq_some_of (Faithful.bool.required rfl) rfl

/-! ## Passes -/

theorem Transform.faithful : Faithful Transform.toJson Transform.ofJson? where
  reads t := by
    cases t with
    | custom name => rfl
    | _ => decide
  ne_null t := by cases t <;> exact nofun
  proper t := by cases t <;> trivial

theorem CustomPasses.faithful : Faithful CustomPasses.toJson CustomPasses.ofJson? := by
  refine .record (by decide) (fun _ => .refl _) ?_ ?_
  · intro c
    exact ⟨Faithful.text.list.proper _, Faithful.text.list.proper _,
      Faithful.text.list.proper _, trivial⟩
  · intro c
    refine bind_eq_some_of (Faithful.text.list.required rfl) ?_
    refine bind_eq_some_of (Faithful.text.list.required rfl) ?_
    exact bind_eq_some_of (Faithful.text.list.required rfl) rfl

/-! ## Projects -/

namespace CompilerSection

def slots (s : CompilerSection) : Slots :=
  [("module", s.kind.map ModuleKind.toJson), ("target", s.target.map .str),
    ("out_dir", s.outDir.map Json.ofPath), ("root_dir", s.rootDir.map Json.ofPath),
    ("declaration", s.declaration.map .bool), ("declaration_map", s.declarationMap.map .bool),
    ("source_map", s.sourceMap.map .bool), ("incremental", s.incremental.map .bool),
    ("build_info_file", s.buildInfoFile.map Json.ofPath)]

theorem toJson_eq (s : CompilerSection) : s.toJson = .obj (present s.slots) := by
  simp only [toJson, memberIfSome_eq, ← present_append, List.cons_append, List.nil_append, slots]

theorem faithful : Faithful toJson ofJson? := by
  rw [funext toJson_eq]
  refine .sparse (by decide) (fun _ => rfl) ?_ ?_
  · intro s
    exact ModuleKind.faithful.properMembers <| Faithful.text.properMembers <|
      Faithful.path.properMembers <| Faithful.path.properMembers <|
      Faithful.bool.properMembers <| Faithful.bool.properMembers <|
      Faithful.bool.properMembers <| Faithful.bool.properMembers <|
      Faithful.path.properMembers trivial
  · intro s
    refine bind_eq_some_of (ModuleKind.faithful.optional rfl) ?_
    refine bind_eq_some_of (Faithful.text.optional rfl) ?_
    refine bind_eq_some_of (Faithful.path.optional rfl) ?_
    refine bind_eq_some_of (Faithful.path.optional rfl) ?_
    refine bind_eq_some_of (Faithful.bool.optional rfl) ?_
    refine bind_eq_some_of (Faithful.bool.optional rfl) ?_
    refine bind_eq_some_of (Faithful.bool.optional rfl) ?_
    refine bind_eq_some_of (Faithful.bool.optional rfl) ?_
    exact bind_eq_some_of (Faithful.path.optional rfl) rfl

theorem leavesOutNone : LeavesOutNone toJson := by
  refine leavesOutNone_present toJson_eq ?_
  simp [slots, -Option.map_eq_some_iff, ModuleKind.faithful.map_ne_null,
    Faithful.text.map_ne_null, Faithful.path.map_ne_null, Faithful.bool.map_ne_null]

end CompilerSection

namespace VariantEntry

def slots (v : VariantEntry) : Slots :=
  [("module", some v.kind.toJson), ("out_dir", some (Json.ofPath v.outDir)),
    ("cache_dir", v.cacheDir.map Json.ofPath), ("primary", some (.bool v.isPrimary))]

theorem toJson_eq (v : VariantEntry) : v.toJson = .obj (present v.slots) := by
  cases h : v.cacheDir <;> simp [toJson, slots, present, h, Json.memberIfSome]

theorem faithful : Faithful toJson ofJson? := by
  rw [funext toJson_eq]
  refine .sparse (by decide) (fun _ => rfl) ?_ ?_
  · intro v
    have hflag : Json.ProperMembers (present [("primary", some (.bool v.isPrimary))]) :=
      ⟨trivial, trivial⟩
    exact ⟨ModuleKind.faithful.proper v.kind, trivial, Faithful.path.properMembers hflag⟩
  · intro v
    refine bind_eq_some_of (ModuleKind.faithful.required rfl) ?_
    refine bind_eq_some_of (Faithful.path.required rfl) ?_
    refine bind_eq_some_of (Faithful.path.optional rfl) ?_
    exact bind_eq_some_of (Faithful.bool.defaulted rfl) rfl

theorem leavesOutNone : LeavesOutNone toJson := by
  refine leavesOutNone_present toJson_eq ?_
  simp [slots, -Option.map_eq_some_iff, Faithful.path.map_ne_null, Json.ofPath,
    ModuleKind.faithful.ne_null]

end VariantEntry

namespace EmitSection

def slots (e : EmitSection) : Slots :=
  [("cache", e.cache.map .bool), ("cache_dir", e.cacheDir.map Json.ofPath),
    ("variants", if e.variants.isEmpty then none
      else some (Json.ofList VariantEntry.toJson e.variants))]

theorem toJson_eq (e : EmitSection) : e.toJson = .obj (present e.slots) := by
  have hvariants : (if e.variants.isEmpty then []
      else [("variants", Json.ofList VariantEntry.toJson e.variants)]) =
      present [("variants", if e.variants.isEmpty then none
        else some (Json.ofList VariantEntry.toJson e.variants))] := by
    split <;> rfl
  simp only [toJson, memberIfSome_eq, hvariants, ← present_append, List.cons_append,
    List.nil_append, slots]

theorem faithful : Faithful toJson ofJson? := by
  rw [funext toJson_eq]
  refine .sparse (by decide) (fun _ => rfl) ?_ ?_
  · intro e
    refine Faithful.bool.properMembers (Faithful.path.properMembers ?_)
    split
    · trivial
    · exact ⟨VariantEntry.faithful.list.proper e.variants, trivial⟩
  · intro e
    refine bind_eq_some_of (Faithful.bool.optional rfl) ?_
    refine bind_eq_some_of (Faithful.path.optional rfl) ?_
    exact bind_eq_some_of (VariantEntry.faithful.defaulted_list rfl) rfl

theorem leavesOutNone : LeavesOutNone toJson := by
  refine leavesOutNone_present toJson_eq ?_
  simp [slots, -Option.map_eq_some_iff, Faithful.bool.map_ne_null, Faithful.path.map_ne_null,
    Json.ofList]

/-- Variants are written unless there are none. -/
theorem lookup_variants (e : EmitSection) :
    (present e.slots).lookup "variants" = none ↔ e.variants = [] := by
  have hd : (e.slots.map (·.1)).Nodup := by
    show form.fields.Nodup
    decide
  have hlookup : (present e.slots).lookup "variants" =
      if e.variants.isEmpty then none else some (Json.ofList VariantEntry.toJson e.variants) :=
    lookup_present hd "variants"
  rw [hlookup]
  simp

end EmitSection

namespace Project

def slots (p : Project) : Slots :=
  [("compiler", p.compiler.map CompilerSection.toJson), ("emit", p.emit.map EmitSection.toJson)]

theorem toJson_eq (p : Project) : p.toJson = .obj (present p.slots) := by
  simp only [toJson, memberIfSome_eq, ← present_append, List.cons_append, List.nil_append, slots]

theorem faithful : Faithful toJson ofJson? := by
  rw [funext toJson_eq]
  refine .sparse (by decide) (fun _ => rfl) ?_ ?_
  · intro p
    exact CompilerSection.faithful.properMembers (EmitSection.faithful.properMembers trivial)
  · intro p
    refine bind_eq_some_of (CompilerSection.faithful.optional rfl) ?_
    exact bind_eq_some_of (EmitSection.faithful.optional rfl) rfl

theorem leavesOutNone : LeavesOutNone toJson := by
  refine leavesOutNone_present toJson_eq ?_
  simp [slots, -Option.map_eq_some_iff, CompilerSection.faithful.map_ne_null,
    EmitSection.faithful.map_ne_null]

/-- An emit section is written even if it says nothing. -/
theorem lookup_emit (p : Project) : (present p.slots).lookup "emit" = none ↔ p.emit = none := by
  have hd : (p.slots.map (·.1)).Nodup := by
    show form.fields.Nodup
    decide
  have hlookup : (present p.slots).lookup "emit" = p.emit.map EmitSection.toJson :=
    lookup_present hd "emit"
  rw [hlookup, Option.map_eq_none_iff]

end Project

/-! ## Every type -/

/-- **Everything that is written is read back**, from the JSON value and from its text, and so is
what is written for a value that any other JSON was read as.  The types of a project leave out what
is none, and an emit section its variants if there are none; an emit section that says nothing is
still not taken for none. -/
theorem wire_roundTrips :
    (RoundTrips Project.toJson Project.ofJson? ∧
      RoundTrips CompilerSection.toJson CompilerSection.ofJson? ∧
      RoundTrips EmitSection.toJson EmitSection.ofJson? ∧
      RoundTrips VariantEntry.toJson VariantEntry.ofJson? ∧
      RoundTrips ModuleKind.toJson ModuleKind.ofJson? ∧
      RoundTrips Options.toJson Options.ofJson? ∧
      RoundTrips Variant.toJson Variant.ofJson? ∧
      RoundTrips OutputMode.toJson OutputMode.ofJson? ∧
      RoundTrips Severity.toJson Severity.ofJson? ∧
      RoundTrips Diagnostic.toJson Diagnostic.ofJson? ∧
      RoundTrips EmitResult.toJson EmitResult.ofJson? ∧
      RoundTrips Transform.toJson Transform.ofJson? ∧
      RoundTrips CustomPasses.toJson CustomPasses.ofJson? ∧
      RoundTrips Handle.toJson Handle.ofJson?) ∧
    (LeavesOutNone Project.toJson ∧ LeavesOutNone CompilerSection.toJson ∧
      LeavesOutNone EmitSection.toJson ∧ LeavesOutNone VariantEntry.toJson) ∧
    (∀ e : EmitSection, ∃ members, e.toJson = .obj members ∧
      (members.lookup "variants" = none ↔ e.variants = [])) ∧
    (∀ p : Project, ∃ members, p.toJson = .obj members ∧
      (members.lookup "emit" = none ↔ p.emit = none)) ∧
    ∀ c : Option CompilerSection, Project.toJson ⟨c, some {}⟩ ≠ Project.toJson ⟨c, none⟩ := by
  refine ⟨?_, ?_, ?_, ?_, ?_⟩
  · exact ⟨Project.faithful.roundTrips, CompilerSection.faithful.roundTrips,
      EmitSection.faithful.roundTrips, VariantEntry.faithful.roundTrips,
      ModuleKind.faithful.roundTrips, Options.faithful.roundTrips, Variant.faithful.roundTrips,
      OutputMode.faithful.roundTrips, Severity.faithful.roundTrips,
      Diagnostic.faithful.roundTrips, EmitResult.faithful.roundTrips,
      Transform.faithful.roundTrips, CustomPasses.faithful.roundTrips,
      Handle.faithful.roundTrips⟩
  · exact ⟨Project.leavesOutNone, CompilerSection.leavesOutNone, EmitSection.leavesOutNone,
      VariantEntry.leavesOutNone⟩
  · intro e
    exact ⟨present e.slots, e.toJson_eq, e.lookup_variants⟩
  · intro p
    exact ⟨present p.slots, p.toJson_eq, p.lookup_emit⟩
  · intro c heq
    have hsame := Project.faithful.injective heq
    cases hsame

end Fanout
