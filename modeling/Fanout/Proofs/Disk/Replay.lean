import Fanout.Proofs.Disk.Refusal

/-!
# Writing the same again

Nodes that were put on a disk leave it as it is if the files among them are put once more, in the
same order (`Fits.putAll_files`): the last of them in each place is what is there.

`DiskHost.write_again`: on any tree that grew since, a write puts its file once more, or is refused
once more.  In that case the error is the same up to the fault of the system (`blurred`), since what
was missing may be in the way later.
-/

set_option autoImplicit false

namespace Fanout

namespace Disk

variable {d d' v : Disk} {loc k : Location} {a b : Node} {ops more : List (Location × Node)}

/-! ## Nodes put again -/

theorem putNode_putNode (loc : Location) (a b : Node) (nodes : List (Location × Node)) :
    putNode loc b (putNode loc a nodes) = putNode loc b nodes := by
  induction nodes with
  | nil => simp [putNode]
  | cons entry rest ih =>
    rw [putNode]
    split
    · rename_i h
      simp [putNode, h]
    · rename_i h
      simp [putNode, h, ih]

/-- Where a place is in use already, it does not matter when it is put in order. -/
theorem putNode_comm {nodes : List (Location × Node)} (hne : loc ≠ k)
    (hk : (nodes.lookup k).isSome = true) (a b : Node) :
    putNode k b (putNode loc a nodes) = putNode loc a (putNode k b nodes) := by
  induction nodes with
  | nil => cases hk
  | cons entry rest ih =>
    obtain ⟨l, m⟩ := entry
    by_cases hloc : l = loc
    · subst hloc
      simp [putNode, hne]
    · by_cases hl : l = k
      · subst hl
        simp [putNode, hloc]
      · rw [List.lookup_cons, beq_false_of_ne (Ne.symm hl)] at hk
        simp [putNode, hloc, hl, ih hk]

theorem putNode_of_lookup {nodes : List (Location × Node)} (h : nodes.lookup loc = some a) :
    putNode loc a nodes = nodes := by
  induction nodes with
  | nil => cases h
  | cons entry rest ih =>
    obtain ⟨l, m⟩ := entry
    rw [List.lookup_cons] at h
    by_cases hl : l = loc
    · subst hl
      rw [beq_self_eq_true] at h
      cases h
      simp [putNode]
    · rw [beq_false_of_ne (Ne.symm hl)] at h
      simp [putNode, hl, ih h]

/-- A file is at a location. -/
def IsFile (d : Disk) (loc : Location) : Prop := ∃ data, d.node? loc = some (.file data)

/-- The files among some nodes. -/
def files (ops : List (Location × Node)) : List (Location × Node) := ops.filter (·.2 ≠ .dir)

theorem files_append (ops more : List (Location × Node)) :
    files (ops ++ more) = files ops ++ files more := List.filter_append ..

theorem Grows.isFile (hg : d.Grows v) (h : d.IsFile loc) : v.IsFile loc := by
  obtain ⟨_, h⟩ := h
  exact hg.file h

theorem IsFile.node?_eq_lookup (h : d.IsFile loc) : d.node? loc = d.nodes.lookup loc := by
  obtain ⟨data, h⟩ := h
  cases loc with
  | nil => cases h
  | cons n loc => rfl

theorem put_comm (hne : loc ≠ k) (hk : d.IsFile k) (a b : Node) :
    (d.put loc a).put k b = (d.put k b).put loc a := by
  have hlookup : (d.nodes.lookup k).isSome = true := by
    obtain ⟨data, hdata⟩ := id hk
    rw [← hk.node?_eq_lookup, hdata, Option.isSome_some]
  unfold put
  rw [putNode_comm hne hlookup]

theorem put_put (d : Disk) (loc : Location) (a b : Node) :
    (d.put loc a).put loc b = d.put loc b := by
  unfold put
  rw [putNode_putNode]

theorem put_self {data : ByteArray} (h : d.node? loc = some (.file data)) :
    d.put loc (.file data) = d := by
  have hfile : d.IsFile loc := ⟨data, h⟩
  unfold put
  rw [putNode_of_lookup (hfile.node?_eq_lookup.symm.trans h)]

theorem IsFile.hasDir_eq_false (h : d.IsFile loc) : d.hasDir loc = false := by
  obtain ⟨data, h⟩ := h
  rw [hasDir, h]
  rfl

theorem IsFile.grows_put (h : d.IsFile loc) (data : ByteArray) :
    d.Grows (d.put loc (.file data)) := by
  cases loc with
  | nil =>
    obtain ⟨_, h⟩ := h
    cases h
  | cons n loc => exact .put_file h.hasDir_eq_false data

/-- These are files for places where files are. -/
def Rewrites (d : Disk) (ops : List (Location × Node)) : Prop :=
  ∀ op ∈ ops, d.IsFile op.1 ∧ ∃ data, op.2 = .file data

theorem Grows.rewrites (hg : d.Grows v) (h : d.Rewrites ops) : v.Rewrites ops :=
  fun op hop => (h op hop).imp_left hg.isFile

namespace Rewrites

theorem grows (h : d.Rewrites ops) : d.Grows (d.putAll ops) := by
  induction ops generalizing d with
  | nil => exact .refl d
  | cons op rest ih =>
    obtain ⟨loc, node⟩ := op
    obtain ⟨⟨hfile, data, rfl⟩, hrest⟩ := List.forall_mem_cons.mp h
    have hput := hfile.grows_put data
    exact hput.trans (ih (hput.rewrites hrest))

theorem isTree (h : d.Rewrites ops) (ht : d.IsTree) : (d.putAll ops).IsTree := by
  induction ops generalizing d with
  | nil => exact ht
  | cons op rest ih =>
    obtain ⟨loc, node⟩ := op
    obtain ⟨⟨hfile, data, rfl⟩, hrest⟩ := List.forall_mem_cons.mp h
    have hput := hfile.grows_put data
    refine ih (hput.rewrites hrest) ?_
    obtain ⟨old, hold⟩ := hfile
    cases loc with
    | nil => cases hold
    | cons n loc => exact ht.put (ht.inDir (by rw [hold, Option.isSome_some])) hput

/-- What is put in a place counts for nothing if something is put there later. -/
theorem putAll_put (h : d.Rewrites ops) (hloc : ∃ op ∈ ops, op.1 = loc) (a : Node) :
    (d.put loc a).putAll ops = d.putAll ops := by
  induction ops generalizing d with
  | nil =>
    obtain ⟨_, hop, -⟩ := hloc
    cases hop
  | cons op rest ih =>
    obtain ⟨k, node⟩ := op
    obtain ⟨⟨hfile, data, rfl⟩, hrest⟩ := List.forall_mem_cons.mp h
    show ((d.put loc a).put k (.file data)).putAll rest = (d.put k (.file data)).putAll rest
    by_cases hk : loc = k
    · subst hk
      rw [put_put]
    · have hlater : ∃ op ∈ rest, op.1 = loc := by
        obtain ⟨op, hop, rfl⟩ := hloc
        rcases List.mem_cons.mp hop with rfl | hop
        · exact absurd rfl hk
        · exact ⟨op, hop, rfl⟩
      rw [put_comm hk hfile]
      exact ih ((hfile.grows_put data).rewrites hrest) hlater

end Rewrites

/-- A file that is not written has what it had. -/
theorem Fits.node?_of_not_mem (h : d.Fits ops) {data : ByteArray}
    (hfile : d.node? loc = some (.file data)) (hloc : ∀ op ∈ files ops, op.1 ≠ loc) :
    (d.putAll ops).node? loc = some (.file data) := by
  induction h with
  | nil => exact hfile
  | @dir d n l ops _ hnone _ ih =>
    refine ih ?_ hloc
    have hne : loc ≠ n :: l := by
      rintro rfl
      rw [hnone] at hfile
      cases hfile
    rw [node?_put, if_neg hne, hfile]
  | @file d n l _ ops _ _ _ ih =>
    obtain ⟨hne, hrest⟩ := List.forall_mem_cons.mp hloc
    refine ih ?_ hrest
    rw [node?_put, if_neg (Ne.symm hne), hfile]

theorem Fits.rewrites (h : d.Fits ops) : (d.putAll ops).Rewrites (files ops) := by
  induction h with
  | nil => exact List.forall_mem_nil _
  | dir _ _ _ ih => exact ih
  | @file d n loc data ops _ _ hfits ih =>
    refine List.forall_mem_cons.mpr ⟨⟨hfits.grows.isFile ⟨data, ?_⟩, data, rfl⟩, ih⟩
    rw [node?_put, if_pos rfl]

/-- **Files that were put in their places are put there again without a change.** -/
theorem Fits.putAll_files (h : d.Fits ops) : (d.putAll ops).putAll (files ops) = d.putAll ops := by
  induction h with
  | nil => rfl
  | dir _ _ _ ih => exact ih
  | @file d n loc data ops hloc hdir hfits ih =>
    show (((d.put (n :: loc) (.file data)).putAll ops).put (n :: loc) (.file data)).putAll
      (files ops) = (d.put (n :: loc) (.file data)).putAll ops
    by_cases hlater : ∃ op ∈ files ops, op.1 = n :: loc
    · rw [hfits.rewrites.putAll_put hlater, ih]
    · have hself : ((d.put (n :: loc) (.file data)).putAll ops).node? (n :: loc) =
          some (.file data) := by
        apply hfits.node?_of_not_mem
        · rw [node?_put, if_pos rfl]
        · intro op hop heq
          exact hlater ⟨op, hop, heq⟩
      rw [put_self hself, ih]

end Disk

/-! ## Errors up to the fault of the system -/

/-- An error without the fault of the system in it. -/
def BuildError.blurred : BuildError → BuildError
  | .inVariant kind cause => .inVariant kind cause.blurred
  | .file place (.system _) => .file place (.system .missing)
  | e => e

/-- A result without the fault of the system in its error. -/
def blurred {α : Type} : Except BuildError α → Except BuildError α
  | .error e => .error e.blurred
  | .ok a => .ok a

theorem BuildError.blurred_blurred (e : BuildError) : e.blurred.blurred = e.blurred := by
  induction e with
  | inVariant kind cause ih => rw [blurred, blurred, ih]
  | file place cause => cases cause <;> rfl
  | _ => rfl

theorem blurred_blurred {α : Type} (r : Except BuildError α) : blurred (blurred r) = blurred r := by
  cases r with
  | error e => exact congrArg Except.error e.blurred_blurred
  | ok a => rfl

theorem blurred_eq_ok {α : Type} {r : Except BuildError α} {a : α} (h : blurred r = .ok a) :
    r = .ok a := by
  cases r with
  | error e => cases h
  | ok b => exact h

/-! ## Writes -/

theorem Disk.Gains.files_eq_nil {ps : List Path} {d d' : Disk} (h : d.Gains ps d') :
    ∃ ops, d.Fits ops ∧ d' = d.putAll ops ∧ Disk.files ops = [] := by
  obtain ⟨ops, hfits, hput, hops⟩ := h
  refine ⟨ops, hfits, hput, List.filter_eq_nil_iff.mpr fun op hop => ?_⟩
  simp [(hops op hop).1]

namespace DiskHost

variable {τ : Type} {p : Path} {contents : String} {s s' t : OnDisk τ}

/-- A file that was written is written again in its place, and nothing else is done. -/
theorem write_ok_again (h : write p contents s = (.ok (), s')) :
    ∃ ops loc, s.disk.Fits (ops ++ [(loc, .file contents.toUTF8)]) ∧ Disk.files ops = [] ∧
      s'.disk = s.disk.putAll (ops ++ [(loc, .file contents.toUTF8)]) ∧
      ∀ t : OnDisk τ, s'.disk.Grows t.disk → write p contents t =
        (.ok (), { t with
          disk := t.disk.put loc (.file contents.toUTF8), written := t.written ++ [p] }) := by
  obtain ⟨d, hparent, hdisk⟩ := write_eq_ok h
  have hgains := makeParent_gains s.disk p
  rw [hparent] at hgains
  obtain ⟨ops, hfits, rfl, hfiles⟩ := hgains.files_eq_nil
  obtain ⟨n, loc, hslot, hin, hdir, hput, -⟩ := Disk.write_eq_ok hdisk
  have hputAll : s'.disk = s.disk.putAll (ops ++ [(n :: loc, .file contents.toUTF8)]) := by
    rw [hput, Disk.putAll_append]
    rfl
  refine ⟨ops, n :: loc, hfits.append (.file hin hdir (.nil _)), hfiles, hputAll, fun t hg => ?_⟩
  have hgrown : (s.disk.putAll ops).Grows t.disk := (hput ▸ Disk.Grows.put_file hdir _).trans hg
  have hparent' : makeParent t.disk p = (t.disk, .ok ()) :=
    makeParent_of_made fun parent hp => (isDir_of_makeParent hp hparent).imp_right hgrown.isDir
  have hfile : t.disk.IsFile (n :: loc) := by
    refine hg.isFile ⟨contents.toUTF8, ?_⟩
    rw [hput, Disk.node?_put, if_pos rfl]
  have hwrite : t.disk.write p contents.toUTF8 =
      .ok (t.disk.put (n :: loc) (.file contents.toUTF8)) := by
    unfold Disk.write
    rw [hgrown.slot hslot]
    exact if_neg (by simp [hfile.hasDir_eq_false])
  simp only [write, hparent', hwrite]

/-- **A write is done again:** it puts the file in its place, or is refused without a change. -/
theorem write_again (hs : s.disk.IsTree) (p : Path) (contents : String) :
    ∃ ops paths, s.disk.Fits ops ∧ (write p contents s).2.disk = s.disk.putAll ops ∧
      (write p contents s).2.written = s.written ++ paths ∧
      ∀ t : OnDisk τ, t.disk.IsTree → (write p contents s).2.disk.Grows t.disk →
        ∃ result, blurred result = blurred (write p contents s).1 ∧ write p contents t =
          (result, { t with
            disk := t.disk.putAll (Disk.files ops), written := t.written ++ paths }) := by
  obtain ⟨result, s', hwrite⟩ : ∃ result s', write p contents s = (result, s') := ⟨_, _, rfl⟩
  rw [hwrite]
  cases result with
  | error e =>
    obtain ⟨ops, hfits, hput, hfiles⟩ := (write_eq_error hwrite).1.files_eq_nil
    refine ⟨ops, [], hfits, hput, ?_, fun t ht hg => ?_⟩
    · rw [written_of_write_error hwrite, List.append_nil]
    · obtain ⟨place, fault, fault', rfl, hagain⟩ := write_refused hs hwrite hg ht
      refine ⟨.error (.file place (.system fault')), rfl, ?_⟩
      rw [hagain, hfiles, List.append_nil]
      rfl
  | ok _ =>
    obtain ⟨ops, loc, hfits, hfiles, hput, hagain⟩ := write_ok_again hwrite
    refine ⟨_, [p], hfits, hput, written_of_write_ok hwrite, fun t _ hg => ?_⟩
    refine ⟨_, rfl, ?_⟩
    rw [hagain t hg, Disk.files_append, hfiles]
    rfl

end DiskHost

end Fanout
