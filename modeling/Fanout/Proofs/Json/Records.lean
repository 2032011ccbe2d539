import Fanout.Json.Record
import Fanout.Proofs.Json.Reading

/-!
# Values that JSON gives back

A writer and a reader are `Faithful` to each other if the reader gives back every value that is
written, the writer never writes null, and the numbers that it writes are numbers.  A value that is
never written as null can stand in a record's optional field, where null is none.

* Faithful pairs are built from each other: `Faithful.names` for types whose cases are names,
  `Faithful.list` for lists, and `Faithful.record` and `Faithful.sparse` for records that write all
  their members or only those that are there.
* Each kind of field has a lemma that says what is read for it: `Faithful.required`,
  `Faithful.optional`, `Faithful.orNull` and `Faithful.defaulted`.
* `RoundTrips` is what comes of it: the value is given back from the JSON value and from its text in
  either layout.
-/

set_option autoImplicit false

namespace Fanout.Json

/-- Every written value is read back. -/
structure Faithful {α : Type} (write : α → Json) (read? : Json → Option α) : Prop where
  reads (a : α) : read? (write a) = some a
  -- null is none where a field is optional
  ne_null (a : α) : write a ≠ .null
  proper (a : α) : (write a).Proper

/-- What is written is read back, as a value and as a text.  Whatever JSON a value was read from,
writing it and reading that gives the same value. -/
structure RoundTrips {α : Type} (write : α → Json) (read? : Json → Option α) : Prop where
  value (a : α) : read? (write a) = some a
  compact (a : α) : (parse? (write a).compact).bind read? = some a
  pretty (a : α) : (parse? (write a).pretty).bind read? = some a
  again (j : Json) : ((read? j).map write).bind read? = read? j

variable {α : Type} {write : α → Json} {read? : Json → Option α}

section Pairs

variable (h : Faithful write read?)

include h

theorem Faithful.roundTrips : RoundTrips write read? where
  value := h.reads
  compact a := by rw [parse?_compact (h.proper a), Option.bind_some, h.reads]
  pretty a := by rw [parse?_pretty (h.proper a), Option.bind_some, h.reads]
  again j := by
    cases read? j with
    | none => rfl
    | some a => exact h.reads a

theorem Faithful.proper_orNull (o : Option α) : (Json.orNull write o).Proper := by
  cases o with
  | none => trivial
  | some a => exact h.proper a

/-- No two values are written alike. -/
theorem Faithful.injective : Function.Injective write := by
  intro a b heq
  have ha := h.reads a
  rw [heq, h.reads b] at ha
  exact (Option.some.inj ha).symm

end Pairs

theorem properItems_iff {js : List Json} : ProperItems js ↔ ∀ j ∈ js, j.Proper := by
  induction js with
  | nil => simp [ProperItems]
  | cons j js ih => simp [ProperItems, ih]

/-! ## Plain values -/

theorem Faithful.bool : Faithful .bool bool? where
  reads _ := rfl
  ne_null := nofun
  proper _ := trivial

theorem Faithful.text : Faithful .str text? where
  reads _ := rfl
  ne_null := nofun
  proper _ := trivial

theorem Faithful.path : Faithful ofPath path? where
  reads _ := rfl
  ne_null := nofun
  proper _ := trivial

/-- A type whose cases are names. -/
theorem Faithful.names {name : α → String} {ofName? : String → Option α}
    (h : ∀ a, ofName? (name a) = some a) :
    Faithful (fun a => .str (name a)) (fun j => j.case?.bind ofName?) where
  reads a := h a
  ne_null := nofun
  proper _ := trivial

theorem word?_nat {bits n : Nat} (h : n < Nat.pow 2 bits) : (nat n).word? bits = some n :=
  if_pos h

theorem Faithful.list (h : Faithful write read?) : Faithful (ofList write) (list? read?) where
  reads xs := by
    show (xs.map write).mapM read? = some xs
    induction xs with
    | nil => rfl
    | cons x xs ih => simp [h.reads, ih]
  ne_null := nofun
  proper xs := by
    refine properItems_iff.mpr ?_
    rintro _ hj
    obtain ⟨x, -, rfl⟩ := List.mem_map.mp hj
    exact h.proper x

/-! ## Fields -/

section Fields

variable (h : Faithful write read?) {fields : Fields} {name : String}

include h

theorem Faithful.required {a : α} (hf : fields name = some (write a)) :
    fields.required read? name = some a := by
  rw [Fields.required, hf, Option.bind_some, h.reads]

/-- A value that is there is not taken for none. -/
theorem Faithful.optional {o : Option α} (hf : fields name = o.map write) :
    fields.optional read? name = some o := by
  unfold Fields.optional
  rw [hf]
  cases o with
  | none => rfl
  | some a =>
    simp only [Option.map_some]
    split
    · rename_i hnone
      cases hnone
    · rename_i hnull
      exact absurd (Option.some.inj hnull) (h.ne_null a)
    · rename_i hj
      rw [← Option.some.inj hj, h.reads, Option.map_some]

theorem Faithful.orNull {o : Option α} (hf : fields name = some (orNull write o)) :
    fields.optional read? name = some o := by
  cases o with
  | none =>
    unfold Fields.optional
    rw [hf]
    rfl
  | some a => exact h.optional hf

theorem Faithful.defaulted {a default : α} (hf : fields name = some (write a)) :
    fields.defaulted read? default name = some a := by
  unfold Fields.defaulted
  rw [hf]
  exact h.reads a

/-- A list that is left out if it is empty. -/
theorem Faithful.defaulted_list {xs : List α}
    (hf : fields name = if xs.isEmpty then none else some (ofList write xs)) :
    fields.defaulted (list? read?) [] name = some xs := by
  cases xs with
  | nil =>
    unfold Fields.defaulted
    rw [hf]
    rfl
  | cons x xs => exact h.list.defaulted hf

end Fields

/-- One field more is read. -/
theorem bind_eq_some_of {β : Type} {x : Option α} {f : α → Option β} {a : α} {b : β}
    (hx : x = some a) (hf : f a = some b) : (x >>= f) = some b := by
  rw [hx]
  exact hf

/-! ## Records -/

theorem distinct_of_nodup {names : List String} (h : names.Nodup) : distinct names = true := by
  induction names with
  | nil => rfl
  | cons name names ih =>
    rw [List.nodup_cons] at h
    simp [distinct, h.1, ih h.2]

/-- An object is read if its members are fields, none twice. -/
theorem RecordForm.read?_of_sublist {form : RecordForm} {ms : List (String × Json)}
    (hsub : (ms.map (·.1)).Sublist form.fields) (hd : form.fields.Nodup) :
    form.read? (.obj ms) = some fun name => ms.lookup name := by
  have hall : ∀ name ∈ ms.map (·.1), form.fields.contains name = true := fun name hname =>
    List.contains_iff_mem.mpr (hsub.subset hname)
  have hdistinct : distinct ((ms.map (·.1)).filter form.fields.contains) = true := by
    rw [List.filter_eq_self.mpr hall]
    exact distinct_of_nodup (hsub.nodup hd)
  rw [RecordForm.read?]
  simp only [hdistinct, List.all_eq_true.mpr hall, Bool.or_true, Bool.and_self, if_true]

/-- A record is read back if its fields are, from the members that it writes. -/
theorem Faithful.record {form : RecordForm} {members : α → List (String × Json)}
    {readFields : Fields → Option α} (hd : form.fields.Nodup)
    (hsub : ∀ a, ((members a).map (·.1)).Sublist form.fields)
    (hproper : ∀ a, ProperMembers (members a))
    (hread : ∀ a, readFields (fun name => (members a).lookup name) = some a) :
    Faithful (fun a => .obj (members a)) (fun j => form.read? j >>= readFields) where
  reads a := bind_eq_some_of (RecordForm.read?_of_sublist (hsub a) hd) (hread a)
  ne_null := nofun
  proper := hproper

/-! ## Records that leave members out -/

/-- The fields of a record, with what is written for each, if anything. -/
abbrev Slots := List (String × Option Json)

/-- The members that are there. -/
def present (slots : Slots) : List (String × Json) :=
  slots.filterMap fun (name, j) => j.map (name, ·)

theorem memberIfSome_eq (name : String) (write : α → Json) (o : Option α) :
    memberIfSome name write o = present [(name, o.map write)] := by
  cases o <;> rfl

theorem present_append (slots slots' : Slots) :
    present (slots ++ slots') = present slots ++ present slots' :=
  List.filterMap_append

theorem names_present (slots : Slots) :
    ((present slots).map (·.1)).Sublist (slots.map (·.1)) := by
  induction slots with
  | nil => exact .slnil
  | cons slot slots ih =>
    obtain ⟨name, _ | j⟩ := slot
    · exact ih.cons _
    · exact ih.cons_cons _

theorem lookup_present {slots : Slots} (hd : (slots.map (·.1)).Nodup)
    (name : String) : (present slots).lookup name = (slots.lookup name).join := by
  induction slots with
  | nil => rfl
  | cons slot slots ih =>
    obtain ⟨key, o⟩ := slot
    rw [List.map_cons, List.nodup_cons] at hd
    cases o with
    | some j =>
      show ((key, j) :: present slots).lookup name = _
      rw [List.lookup_cons, List.lookup_cons]
      split
      · rfl
      · exact ih hd.2
    | none =>
      show (present slots).lookup name = _
      rw [List.lookup_cons]
      split
      · -- the key stands in no later slot
        rename_i heq
        rw [Option.join_some, List.lookup_eq_none_iff]
        intro m hm
        have hkey : m.1 ∈ slots.map (·.1) :=
          (names_present slots).subset (List.mem_map_of_mem hm)
        rw [beq_iff_eq] at heq
        subst heq
        rw [bne_iff_ne]
        rintro rfl
        exact hd.1 hkey
      · exact ih hd.2

/-- An object is written with no member null: what is none is left out. -/
def LeavesOutNone (write : α → Json) : Prop :=
  ∀ a, ∃ members, write a = .obj members ∧ ∀ m ∈ members, m.2 ≠ .null

theorem leavesOutNone_present {slots : α → Slots}
    (hwrite : ∀ a, write a = .obj (present (slots a)))
    (hslots : ∀ a, ∀ slot ∈ slots a, slot.2 ≠ some .null) : LeavesOutNone write := by
  intro a
  refine ⟨present (slots a), hwrite a, ?_⟩
  intro m hm
  obtain ⟨⟨name, o⟩, hslot, hm⟩ := List.mem_filterMap.mp hm
  obtain ⟨j, rfl, rfl⟩ := Option.map_eq_some_iff.mp hm
  intro hnull
  exact hslots a _ hslot (congrArg some hnull)

theorem Faithful.map_ne_null (h : Faithful write read?) (o : Option α) :
    o.map write ≠ some .null := by
  cases o with
  | none => nofun
  | some a => exact fun hnull => h.ne_null a (Option.some.inj hnull)

theorem Faithful.properMembers (h : Faithful write read?) {name : String} {o : Option α}
    {slots : Slots} (hs : ProperMembers (present slots)) :
    ProperMembers (present ((name, o.map write) :: slots)) := by
  cases o with
  | none => exact hs
  | some a => exact ⟨h.proper a, hs⟩

/-- A record is read back if its fields are, from the slots that are filled. -/
theorem Faithful.sparse {form : RecordForm} {slots : α → Slots}
    {readFields : Fields → Option α} (hd : form.fields.Nodup)
    (hnames : ∀ a, (slots a).map (·.1) = form.fields)
    (hproper : ∀ a, ProperMembers (present (slots a)))
    (hread : ∀ a, readFields (fun name => ((slots a).lookup name).join) = some a) :
    Faithful (fun a => .obj (present (slots a))) (fun j => form.read? j >>= readFields) := by
  refine .record hd ?_ hproper ?_
  · intro a
    exact hnames a ▸ names_present (slots a)
  · intro a
    have hlookup : (fun name => (present (slots a)).lookup name) =
        fun name => ((slots a).lookup name).join := funext (lookup_present (hnames a ▸ hd))
    rw [hlookup]
    exact hread a

end Fanout.Json
