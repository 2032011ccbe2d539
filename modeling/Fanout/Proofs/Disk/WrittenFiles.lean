import Fanout.Proofs.Disk.Directories
import Fanout.Proofs.Disk.WriteLog

/-!
# What the disk host writes

Any number of writes through the disk host, also ones that fail, over any file tree.

* `data?_of_write_ok`: a write that goes well sets the contents of one file, which the path names
  from then on, and of no other.
* `DiskHost.write_eq_error`: a write that is refused leaves the log and the contents of all files
  alone.  It may leave directories that were missing above the file, and its error names the parent
  exactly if that could not be made.
* `HoldsLast`: a file has what was last written to it, or what it had before if nothing was.

The main result, `writeAll_faithful`, puts them together.
-/

set_option autoImplicit false

namespace Fanout

/-- The contents of a file. -/
def Disk.data? (d : Disk) (loc : Location) : Option ByteArray :=
  match d.node? loc with
  | some (.file data) => some data
  | _ => none

namespace Disk

variable {d d' : Disk} {l : Location} {ops : List (Location × Node)}

theorem data?_put_file (d : Disk) (n : Name) (loc l : Location) (data : ByteArray) :
    (d.put (n :: loc) (.file data)).data? l = if l = n :: loc then some data else d.data? l := by
  unfold data?
  rw [node?_put]
  split_ifs <;> rfl

theorem Fits.node?_of_dirs (h : Fits d ops) (hops : ∀ op ∈ ops, op.2 = .dir) :
    (d.putAll ops).node? l = d.node? l ∨
      d.node? l = none ∧ (d.putAll ops).node? l = some .dir ∧ ∃ op ∈ ops, op.1 = l := by
  induction h with
  | nil => exact Or.inl rfl
  | @dir d n loc ops hloc hnone hfits ih =>
    obtain ⟨-, hrest⟩ := List.forall_mem_cons.mp hops
    by_cases hl : l = n :: loc
    · subst hl
      refine Or.inr ⟨hnone, hfits.grows.dir ?_, _, List.mem_cons_self, rfl⟩
      rw [node?_put, if_pos rfl]
    · have hput : (d.put (n :: loc) .dir).node? l = d.node? l := by rw [node?_put, if_neg hl]
      rcases ih hrest with h | ⟨hl', hdir, op, hop, rfl⟩
      · exact Or.inl (h.trans hput)
      · exact Or.inr ⟨hput.symm.trans hl', hdir, op, List.mem_cons_of_mem _ hop, rfl⟩
  | file => cases (List.forall_mem_cons.mp hops).1

/-- Where one disk has more directories, nothing else differs. -/
theorem Gains.node?_eq {ps : List Path} (h : Gains ps d d') (l : Location) :
    d'.node? l = d.node? l ∨
      d.node? l = none ∧ d'.node? l = some .dir ∧ ∃ q ∈ ps, d'.find q = .ok l := by
  obtain ⟨ops, hfits, rfl, hops⟩ := h
  have hdirs : ∀ op ∈ ops, op.2 = .dir := fun op hop => (hops op hop).1
  rcases hfits.node?_of_dirs hdirs (l := l) with h | ⟨h, hdir, op, hop, rfl⟩
  · exact Or.inl h
  · exact Or.inr ⟨h, hdir, (hops op hop).2⟩

theorem Gains.data?_eq {ps : List Path} (h : Gains ps d d') (l : Location) :
    d'.data? l = d.data? l := by
  unfold data?
  rcases h.node?_eq l with h | ⟨hnone, hdir, -⟩
  · rw [h]
  · rw [hnone, hdir]

end Disk

namespace DiskHost

variable {τ : Type} {d d' : Disk} {p : Path} {contents : String} {s s' : OnDisk τ}
  {e : BuildError}

/-! ## One write -/

/-- The parent of a path and the paths above that. -/
def parents (p : Path) : List Path := (p.parent?.map Path.selfAndAbove).getD []

theorem makeParent_gains (d : Disk) (p : Path) : d.Gains (parents p) (makeParent d p).1 := by
  unfold makeParent parents
  split
  · exact .refl _ d
  · rename_i parent hparent
    split
    · exact .refl _ d
    · have hgains := d.makeDirs_gains parent
      rw [hparent]
      split <;> rename_i heq <;> rwa [heq] at hgains

theorem makeDirs_of_makeParent {parent : Path} (hp : p.parent? = some parent)
    (h : makeParent d p = (d', .ok ())) : d.makeDirs parent = (d', .ok ()) := by
  unfold makeParent at h
  rw [hp] at h
  dsimp only at h
  split at h
  · rename_i hempty
    cases h
    exact Disk.makeDirs_of_made (Or.inl hempty)
  · split at h
    · rename_i hmake
      cases h
      exact hmake
    · cases h

theorem isDir_of_makeParent {parent : Path} (hp : p.parent? = some parent)
    (h : makeParent d p = (d', .ok ())) : parent.isEmpty = true ∨ d'.isDir parent = true :=
  Disk.isDir_of_makeDirs (makeDirs_of_makeParent hp h)

theorem makeParent_of_made (h : ∀ parent, p.parent? = some parent →
    parent.isEmpty = true ∨ d.isDir parent = true) : makeParent d p = (d, .ok ()) := by
  unfold makeParent
  split
  · rfl
  · rename_i parent hp
    split
    · rfl
    · rw [Disk.makeDirs_of_made (h parent hp)]

/-- A write that goes well makes the parent and writes the file. -/
theorem write_eq_ok (h : write p contents s = (.ok (), s')) :
    ∃ d, makeParent s.disk p = (d, .ok ()) ∧ d.write p contents.toUTF8 = .ok s'.disk := by
  unfold write at h
  split at h
  · cases h
  · rename_i d hparent
    split at h
    · cases h
    · rename_i d' hwrite
      cases h
      exact ⟨d, hparent, hwrite⟩

/-- A file is written where its path then leads, and no other file is. -/
theorem data?_of_write_ok (h : write p contents s = (.ok (), s')) :
    s.disk.Grows s'.disk ∧ ∃ loc, s'.disk.find p = .ok loc ∧
      ∀ l, s'.disk.data? l = if l = loc then some contents.toUTF8 else s.disk.data? l := by
  obtain ⟨d, hparent, hwrite⟩ := write_eq_ok h
  have hgains := makeParent_gains s.disk p
  rw [hparent] at hgains
  obtain ⟨n, loc, -, -, hdir, hput, hfind⟩ := Disk.write_eq_ok hwrite
  refine ⟨hgains.grows.trans (hput ▸ .put_file hdir _), n :: loc, hfind, fun l => ?_⟩
  rw [hput, Disk.data?_put_file, hgains.data?_eq]

/-- A write that is refused leaves all files and the log alone. -/
theorem write_eq_error (h : write p contents s = (.error e, s')) :
    s.disk.Gains (parents p) s'.disk ∧
      ((∃ parent fault, p.parent? = some parent ∧ s.disk.makeDirs parent = (s'.disk, .error fault) ∧
          e = .file parent (.system fault)) ∨
        ∃ fault, makeParent s.disk p = (s'.disk, .ok ()) ∧
          s'.disk.write p contents.toUTF8 = .error fault ∧ e = .file p (.system fault)) := by
  have hgains := makeParent_gains s.disk p
  unfold write at h
  split at h
  · rename_i d e' hparent
    cases h
    rw [hparent] at hgains
    refine ⟨hgains, Or.inl ?_⟩
    unfold makeParent at hparent
    split at hparent
    · cases hparent
    · rename_i parent hp
      split at hparent
      · cases hparent
      · split at hparent
        · cases hparent
        · rename_i fault hmake
          cases hparent
          exact ⟨parent, fault, hp, hmake, rfl⟩
  · rename_i d hparent
    rw [hparent] at hgains
    split at h
    · rename_i fault hwrite
      cases h
      exact ⟨hgains, Or.inr ⟨fault, hparent, hwrite, rfl⟩⟩
    · cases h

theorem write_grows {result : Except BuildError Unit} (h : write p contents s = (result, s')) :
    s.disk.Grows s'.disk := by
  cases result with
  | error e => exact (write_eq_error h).1.grows
  | ok _ => exact (data?_of_write_ok h).1

/-! ## What is left of many writes -/

/-- Of these writes, this one is the last to what is at a location. -/
def LastTo (d : Disk) (loc : Location) (writes : List (Path × String)) (p : Path)
    (contents : String) : Prop :=
  ∃ before after, writes = before ++ (p, contents) :: after ∧ d.find p = .ok loc ∧
    ∀ w ∈ after, d.find w.1 ≠ .ok loc

/-- At a location is the file that was last written there, and the one that was there before if none
of the writes was to it. -/
def HoldsLast (before after : Disk) (writes : List (Path × String)) (loc : Location) : Prop :=
  (after.data? loc = before.data? loc ∧ ∀ w ∈ writes, after.find w.1 ≠ .ok loc) ∨
    ∃ p contents, LastTo after loc writes p contents ∧
      after.data? loc = some contents.toUTF8

namespace HoldsLast

variable {d'' : Disk} {writes : List (Path × String)} {l : Location}

theorem refl (d : Disk) (l : Location) : HoldsLast d d [] l := Or.inl ⟨rfl, List.forall_mem_nil _⟩

theorem of_data?_eq (h : HoldsLast d' d'' writes l) (hd : d'.data? l = d.data? l) :
    HoldsLast d d'' writes l := by
  unfold HoldsLast at h ⊢
  rwa [← hd]

/-- A write is the last one to its file if no later one is. -/
theorem cons {loc : Location} (h : HoldsLast d' d'' writes l) (hg : d'.Grows d'')
    (hfind : d'.find p = .ok loc)
    (hd : d'.data? l = if l = loc then some contents.toUTF8 else d.data? l) :
    HoldsLast d d'' ((p, contents) :: writes) l := by
  have hfind' := hg.find hfind
  rcases h with ⟨hdata, hnone⟩ | ⟨q, text, ⟨before, after, rfl, hq, hafter⟩, hdata⟩
  · by_cases hl : l = loc
    · subst hl
      rw [if_pos rfl] at hd
      exact Or.inr ⟨p, contents, ⟨[], writes, rfl, hfind', hnone⟩, hdata.trans hd⟩
    · rw [if_neg hl] at hd
      refine Or.inl ⟨hdata.trans hd, List.forall_mem_cons.mpr ⟨fun hp => hl ?_, hnone⟩⟩
      rw [hfind'] at hp
      exact (Except.ok.inj hp).symm
  · exact Or.inr ⟨q, text, ⟨(p, contents) :: before, after, rfl, hq, hafter⟩, hdata⟩

end HoldsLast

/-- The writes that went well. -/
def accepted (writes : List (Path × String)) (results : List (Except BuildError Unit)) :
    List (Path × String) :=
  ((writes.zip results).filter (·.2.isOk)).map (·.1)

/-- Writes one after the other: a result for each, a log of those that went well, and in every place
what was last written there. -/
theorem writeAll_spec {writes : List (Path × String)} {results : List (Except BuildError Unit)}
    (h : writeAll s writes = (results, s')) :
    results.length = writes.length ∧ s.disk.Grows s'.disk ∧
      s'.written = s.written ++ (accepted writes results).map (·.1) ∧
      ∀ loc, HoldsLast s.disk s'.disk (accepted writes results) loc := by
  induction writes generalizing s s' results with
  | nil =>
    cases h
    exact ⟨rfl, .refl _, (List.append_nil _).symm, HoldsLast.refl _⟩
  | cons w rest ih =>
    obtain ⟨p, contents⟩ := w
    obtain ⟨result, t, hwrite⟩ : ∃ result t, write p contents s = (result, t) := ⟨_, _, rfl⟩
    obtain ⟨more, u, hrest⟩ : ∃ more u, writeAll t rest = (more, u) := ⟨_, _, rfl⟩
    obtain ⟨hlength, hgrows, hlog, hholds⟩ := ih hrest
    simp only [writeAll, hwrite, hrest] at h
    cases h
    refine ⟨congrArg (· + 1) hlength, (write_grows hwrite).trans hgrows, ?_⟩
    cases result with
    | error e =>
      refine ⟨?_, fun loc => (hholds loc).of_data?_eq ((write_eq_error hwrite).1.data?_eq loc)⟩
      rw [hlog, written_of_write_error hwrite]
      rfl
    | ok _ =>
      obtain ⟨-, loc, hfind, hdata⟩ := data?_of_write_ok hwrite
      refine ⟨?_, fun l => (hholds l).cons hgrows hfind (hdata l)⟩
      rw [hlog, written_of_write_ok hwrite, List.append_assoc]
      rfl

/-- **The log of the disk host is faithful,** over every file tree and every sequence of writes.

The log grows by the paths of the writes that went well, in their order and as they were spelled.  A
place where a file is another one than before, or is new, is named by one of these paths, and the
file has what the last of the writes to it says.  A write that is refused adds no entry to the log
and changes no file; all that may be new is directories, each on the way to the parent of the path;
and the error names the parent if that could not be made, and else the path itself. -/
theorem writeAll_faithful (s : OnDisk τ) (writes : List (Path × String)) :
    (∃ results s', writeAll s writes = (results, s') ∧ results.length = writes.length ∧
        s'.written = s.written ++ (accepted writes results).map (·.1) ∧
        ∀ loc, HoldsLast s.disk s'.disk (accepted writes results) loc) ∧
      ∀ (t t' : OnDisk τ) p contents e, write p contents t = (.error e, t') →
        t'.written = t.written ∧
          (∀ loc, t'.disk.node? loc = t.disk.node? loc ∨
            t.disk.node? loc = none ∧ t'.disk.node? loc = some .dir ∧
              ∃ parent, p.parent? = some parent ∧
                ∃ q ∈ parent.selfAndAbove, t'.disk.find q = .ok loc) ∧
          ∃ fault,
            ((∀ parent, p.parent? = some parent → (t.disk.makeDirs parent).2 = .ok ()) ∧
              e = .file p (.system fault)) ∨
            ∃ parent, p.parent? = some parent ∧ (t.disk.makeDirs parent).2 = .error fault ∧
              e = .file parent (.system fault) := by
  obtain ⟨results, s', hall⟩ : ∃ results s', writeAll s writes = (results, s') := ⟨_, _, rfl⟩
  obtain ⟨hlength, -, hlog, hholds⟩ := writeAll_spec hall
  refine ⟨⟨results, s', hall, hlength, hlog, hholds⟩, ?_⟩
  intro t t' p contents e hwrite
  obtain ⟨hgains, hcause⟩ := write_eq_error hwrite
  refine ⟨written_of_write_error hwrite, fun loc => ?_, ?_⟩
  · rcases hgains.node?_eq loc with hsame | ⟨hnone, hdir, q, hq, hfind⟩
    · exact Or.inl hsame
    · unfold parents at hq
      cases hp : p.parent? with
      | none =>
        rw [hp] at hq
        cases hq
      | some parent =>
        rw [hp] at hq
        exact Or.inr ⟨hnone, hdir, parent, rfl, q, hq, hfind⟩
  · rcases hcause with ⟨parent, fault, hp, hmake, he⟩ | ⟨fault, hmade, -, he⟩
    · exact ⟨fault, Or.inr ⟨parent, hp, congrArg Prod.snd hmake, he⟩⟩
    · refine ⟨fault, Or.inl ⟨fun parent hp => ?_, he⟩⟩
      rw [makeDirs_of_makeParent hp hmade]

end DiskHost

end Fanout
