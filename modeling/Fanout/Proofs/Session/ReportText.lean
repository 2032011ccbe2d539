import Fanout.Proofs.Json.RoundTrips
import Fanout.Session.Report

/-!
# The text of a report

A report is written as a JSON document, and the document says everything that the report does: there
is a reader, `Report.ofText?`, that finds it all.

* `Elapsed.faithful`, `Summary.faithful` and `Report.faithful`: the parts of a report are read back
  from their JSON values.
* `Report.toText_faithful`: so is a report from its text, which is a JSON text of one value only.
-/

set_option autoImplicit false

namespace Fanout

open Json (Faithful RecordForm bind_eq_some_of)

/-! ## Reading reports -/

namespace Elapsed

def form : RecordForm where
  fields := ["secs", "nanos"]
  defaults := 0
  strict := false

def ofJson? (j : Json) : Option Elapsed := do
  let fields ← form.read? j
  let seconds ← fields.required (Json.word? 64) "secs"
  let nanoseconds ← fields.required (Json.word? 32) "nanos"
  return ofParts seconds nanoseconds

end Elapsed

namespace Summary

def form : RecordForm where
  fields := ["module", "out_dir", "declarations", "primary"]
  defaults := 0
  strict := false

def ofJson? (j : Json) : Option Summary := do
  let fields ← form.read? j
  return {
    kind := ← fields.required ModuleKind.ofJson? "module"
    outDir := ← fields.optional Json.path? "out_dir"
    declarations := ← fields.required Json.bool? "declarations"
    isPrimary := ← fields.required Json.bool? "primary" }

end Summary

namespace Report

def form : RecordForm where
  fields := ["result", "changed_files", "written_files", "variants", "mode", "elapsed"]
  defaults := 0
  strict := false

def ofJson? (j : Json) : Option Report := do
  let fields ← form.read? j
  return {
    result := ← fields.required EmitResult.ofJson? "result"
    changedFiles := ← fields.required (Json.list? Json.path?) "changed_files"
    writtenFiles := ← fields.required (Json.list? Json.path?) "written_files"
    variants := ← fields.required (Json.list? Summary.ofJson?) "variants"
    mode := ← fields.required OutputMode.ofJson? "mode"
    elapsed := ← fields.required Elapsed.ofJson? "elapsed" }

/-- Reads the text of a report; a member that is no field is skipped. -/
def ofText? (text : String) : Option Report := (Json.parse? text).bind ofJson?

end Report

/-! ## What is written is read -/

/-- A time of whole seconds and less than a second more is carried over as it is. -/
theorem Elapsed.ofParts_toNat (e : Elapsed) :
    ofParts e.seconds.toNat e.nanoseconds.toNat = e := by
  obtain ⟨seconds, nanoseconds, hlt⟩ := e
  simp only [ofParts, Nat.div_eq_of_lt hlt, Nat.mod_eq_of_lt hlt, Nat.add_zero,
    UInt64.ofNat_toNat, UInt32.ofNat_toNat]

theorem Elapsed.faithful : Faithful Elapsed.toJson Elapsed.ofJson? := by
  refine .record (by decide) (fun _ => .refl _) (fun _ => ⟨trivial, trivial, trivial⟩) ?_
  intro e
  refine bind_eq_some_of (a := e.seconds.toNat) (Json.word?_nat e.seconds.toNat_lt) ?_
  refine bind_eq_some_of (a := e.nanoseconds.toNat) (Json.word?_nat e.nanoseconds.toNat_lt) ?_
  exact congrArg some e.ofParts_toNat

theorem Summary.faithful : Faithful Summary.toJson Summary.ofJson? := by
  refine .record (by decide) (fun _ => .refl _) ?_ ?_
  · intro s
    exact ⟨ModuleKind.faithful.proper s.kind, Faithful.path.proper_orNull s.outDir, trivial,
      trivial, trivial⟩
  · intro s
    refine bind_eq_some_of (ModuleKind.faithful.required rfl) ?_
    refine bind_eq_some_of (Faithful.path.orNull rfl) ?_
    refine bind_eq_some_of (Faithful.bool.required rfl) ?_
    exact bind_eq_some_of (Faithful.bool.required rfl) rfl

namespace Report

theorem faithful : Faithful toJson ofJson? := by
  refine .record (by decide) (fun _ => .refl _) ?_ ?_
  · intro r
    exact ⟨EmitResult.faithful.proper r.result, Faithful.path.list.proper r.changedFiles,
      Faithful.path.list.proper r.writtenFiles, Summary.faithful.list.proper r.variants,
      OutputMode.faithful.proper r.mode, Elapsed.faithful.proper r.elapsed, trivial⟩
  · intro r
    refine bind_eq_some_of (EmitResult.faithful.required rfl) ?_
    refine bind_eq_some_of (Faithful.path.list.required rfl) ?_
    refine bind_eq_some_of (Faithful.path.list.required rfl) ?_
    refine bind_eq_some_of (Summary.faithful.list.required rfl) ?_
    refine bind_eq_some_of (OutputMode.faithful.required rfl) ?_
    exact bind_eq_some_of (Elapsed.faithful.required rfl) rfl

theorem ofText?_toText (r : Report) : ofText? r.toText = some r :=
  faithful.roundTrips.pretty r

/-- **A report's text loses nothing.**  It is a JSON document of the report's JSON value and of no
other, reading it gives the report back, and no other report has the same text. -/
theorem toText_faithful (r : Report) :
    (∀ j : Json, Json.IsDocument r.toText j ↔ j = r.toJson) ∧
      Json.parse? r.toText = some r.toJson ∧
      ofText? r.toText = some r ∧
      ∀ r' : Report, r'.toText = r.toText ↔ r' = r := by
  have hproper : r.toJson.Proper := faithful.proper r
  refine ⟨?_, Json.parse?_pretty hproper, r.ofText?_toText, ?_⟩
  · intro j
    constructor
    · intro hj
      exact hj.unique (Json.isDocument_pretty hproper)
    · rintro rfl
      exact Json.isDocument_pretty hproper
  · intro r'
    constructor
    · intro htext
      have hread := r'.ofText?_toText
      rw [htext, r.ofText?_toText] at hread
      exact (Option.some.inj hread).symm
    · rintro rfl
      rfl

end Report

end Fanout
