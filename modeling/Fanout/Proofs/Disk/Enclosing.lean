import Fanout.Proofs.Disk.Refusal

/-!
# The directories that the paths above a path lead to

The paths above a path are found by its spelling alone.  Where they lead is another matter:

* `Leads`: a path leads to a directory, as seen from the current one.
* `IsTree.leads_parent`: the parent of a path that leads to a directory leads to one too.  From
  there the last component of the path leads on, which is down to an entry of it, or up if that
  component is a step up.
* `IsTree.leads_of_no_parent`: a path without a parent leads to where paths start from.
* `leads_eq_or_cons`: without steps up, the parent leads to the enclosing directory, or to the same
  one where only a dot was left out.
-/

set_option autoImplicit false

namespace Fanout

namespace Disk

variable {d : Disk} {loc l m : Location} {ps rest fillers : List Name} {p q : Path}
  {a : Path.Anchor}

/-- A path leads to a directory; the empty path leads to the current one. -/
def Leads (d : Disk) (p : Path) (loc : Location) : Prop :=
  d.walkToDir (d.start p) p.pieces = .ok loc

theorem Leads.hasDir (h : d.Leads p loc) : d.hasDir loc = true := (walkToDir_eq_ok_iff.mp h).2

theorem Leads.unique (h : d.Leads p l) (h' : d.Leads p m) : l = m := by
  rw [Leads, h] at h'
  exact Except.ok.inj h'

theorem leads_of_find (hfind : d.find p = .ok loc) (hdir : d.hasDir loc = true) :
    d.Leads p loc := by
  unfold find at hfind
  split at hfind
  · cases hfind
  · exact walkToDir_eq_ok_iff.mpr ⟨hfind, hdir⟩

theorem walk_eq_of_fillers (hf : ∀ n ∈ fillers, Path.isFiller n = true)
    (h : d.walk m fillers = .ok l) : l = m := by
  cases fillers with
  | nil => exact (Except.ok.inj h).symm
  | cons n fillers =>
    have hdir : d.hasDir m = true := by
      rw [walk_cons] at h
      cases hstep : d.step m n with
      | error fault =>
        rw [hstep] at h
        cases h
      | ok k => exact (step_eq_ok_iff.mp hstep).1
    rw [walk_fillers hf hdir] at h
    exact (Except.ok.inj h).symm

/-- Fillers at the end of a path lead nowhere else. -/
theorem walk_of_walk_append (hf : ∀ n ∈ fillers, Path.isFiller n = true)
    (h : d.walk loc (ps ++ fillers) = .ok l) : d.walk loc ps = .ok l := by
  rw [walk_append] at h
  cases hps : d.walk loc ps with
  | error fault =>
    rw [hps] at h
    cases h
  | ok m =>
    rw [hps] at h
    rw [walk_eq_of_fillers hf h]

theorem reach_of_reach_append (hf : ∀ n ∈ fillers, Path.isFiller n = true)
    (h : d.reach a (fillers ++ rest) = .ok l) : d.reach a rest = .ok l := by
  rw [reach_eq_ok_iff] at h ⊢
  rw [List.reverse_append] at h
  exact ⟨walk_of_walk_append (fun n hn => hf n (List.mem_reverse.mp hn)) h.1, h.2⟩

/-- **A file of a directory is an entry of it,** however the directory is spelled. -/
theorem Leads.walk_join {file : Path} (h : d.Leads p m) (hfile : '/' ∉ file.chars) :
    d.walk (d.start (p.join file)) (p.join file).pieces = d.step m file.chars := by
  obtain ⟨ps, fillers, hp, hfillers, hjoin, habs⟩ := Path.pieces_join p hfile
  have hwalk := (walkToDir_eq_ok_iff.mp h).1
  rw [hp] at hwalk
  have hstart : d.start (p.join file) = d.start p := by rw [start, start, habs]
  rw [hstart, hjoin, walk_append, walk_of_walk_append hfillers hwalk]
  exact d.walk_singleton m file.chars

namespace IsTree

variable (ht : d.IsTree)

include ht

theorem leads_iff : d.Leads p l ↔ d.reach p.anchor p.body.reverse = .ok l := by
  rw [Leads, walkToDir_eq_ok_iff, reach_eq_ok_iff, List.reverse_reverse, start_eq_base,
    p.pieces_eq_anchor_body, ht.walk_anchor]

/-- The first path of a chain leads where the pieces do that the chain is made from. -/
theorem leads_of_head?_chain (hb : Path.IsBody a rest.reverse)
    (hq : (Path.chain a rest).head? = some q) (h : d.reach a rest = .ok l) : d.Leads q l := by
  obtain ⟨fillers, before, rfl, hfillers, rfl⟩ := Path.exists_of_head?_chain hq
  have hbefore := reach_of_reach_append hfillers h
  have hb' : Path.IsBody a before.reverse := hb.of_initial (by simp)
  rw [ht.leads_iff, Path.anchor_of_head?_chain hb hq]
  by_cases hne : before.reverse = []
  · obtain rfl := List.reverse_eq_nil_iff.mp hne
    rw [List.reverse_nil]
    -- the root is spelled with an empty piece after the slash
    have hbody : (Path.assemble a []).body.reverse = [] ∨
        (Path.assemble a []).body.reverse = [[]] := by
      cases a <;> decide
    rcases hbody with hbody | hbody
    · rwa [hbody]
    · rw [hbody]
      have hdir := (reach_eq_ok_iff.mp hbefore).2
      exact reach_cons_eq_ok_iff.mpr
        ⟨l, hbefore, step_eq_ok_iff.mpr ⟨hdir, .inl ⟨rfl, rfl⟩⟩, hdir⟩
  · rwa [Path.body_assemble hb' hne, List.reverse_reverse]

/-- **The parent leads to a directory too,** from which the last component leads on. -/
theorem leads_parent (hp : d.Leads p l) (h : p.parent? = some q) :
    ∃ m, d.Leads q m ∧
      (l = m ∨ ∃ n, .ofPiece n ∈ p.components ∧ Path.isFiller n = false ∧ d.step m n = .ok l) := by
  rw [Path.parent?] at h
  rw [ht.leads_iff] at hp
  rcases p.above_cases with ⟨fillers, n, rest, hb, hf, hn, hbody, habove⟩ | ⟨hf, habove⟩
  · rw [hb] at hp
    rw [habove] at h
    obtain ⟨m, hreach, hstep, -⟩ := reach_cons_eq_ok_iff.mp (reach_of_reach_append hf hp)
    have hmem : n ∈ p.body.filter (!Path.isFiller ·) := by
      rw [List.mem_filter, ← List.mem_reverse, hb]
      simp [hn]
    exact ⟨m, ht.leads_of_head?_chain hbody h hreach, Or.inr ⟨n, List.mem_append_right _
      (List.mem_map_of_mem hmem), hn, hstep⟩⟩
  · rw [habove] at h
    split_ifs at h with ha
    · cases h
      have hfill : ∀ n ∈ p.body.reverse, Path.isFiller n = true := fun n hn =>
        hf n (List.mem_reverse.mp hn)
      -- a path opened by a dot and one that is not start in the same directory
      have hreach : d.reach .implicit [] = .ok l := by
        rw [← List.append_nil p.body.reverse] at hp
        have hreach := reach_of_reach_append hfill hp
        rwa [ha] at hreach
      have hbody : Path.IsBody .implicit ([] : List Name).reverse :=
        ⟨List.forall_mem_nil _, fun _ n hn => by cases hn⟩
      exact ⟨l, ht.leads_of_head?_chain hbody rfl hreach, Or.inl rfl⟩
    · cases h

/-- Without a parent a path leads to where it starts from. -/
theorem leads_of_no_parent (hp : d.Leads p l) (h : p.parent? = none) : l = d.start p := by
  rw [Path.parent?] at h
  rw [ht.leads_iff] at hp
  rcases p.above_cases with ⟨_, _, rest, -, -, -, hbody, habove⟩ | ⟨hf, -⟩
  · obtain ⟨q, hq⟩ := Path.chain_eq_selfAndAbove hbody
    rw [habove, hq] at h
    cases h
  · have hfill : ∀ n ∈ p.body.reverse, Path.isFiller n = true := fun n hn =>
      hf n (List.mem_reverse.mp hn)
    rw [← List.append_nil p.body.reverse] at hp
    have hreach := reach_of_reach_append hfill hp
    rw [start_eq_base]
    exact (Except.ok.inj (reach_eq_ok_iff.mp hreach).1).symm

end IsTree

/-- The parent starts where the path does. -/
theorem start_of_parent? (d : Disk) (h : p.parent? = some q) : d.start q = d.start p := by
  have hroot : q.anchor = .root ↔ p.anchor = .root := by
    rw [Path.parent?] at h
    rcases p.above_cases with ⟨_, _, rest, -, -, -, hbody, habove⟩ | ⟨-, habove⟩
    · rw [habove] at h
      rw [Path.anchor_of_head?_chain hbody h]
    · rw [habove] at h
      split_ifs at h with ha
      · cases h
        rw [ha]
        decide
      · cases h
  rw [start_eq_base, start_eq_base, base, base, if_congr hroot rfl rfl]

/-- Without steps up, the parent leads to the directory that encloses, or to the same one. -/
theorem leads_eq_or_cons
    (h : l = m ∨ ∃ n, .ofPiece n ∈ p.components ∧ Path.isFiller n = false ∧ d.step m n = .ok l)
    (hup : Path.Component.up ∉ p.components) : l = m ∨ ∃ n, l = n :: m := by
  rcases h with rfl | ⟨n, hn, hfill, hstep⟩
  · exact Or.inl rfl
  · obtain ⟨-, ⟨hfill', -⟩ | ⟨rfl, -⟩ | ⟨-, -, -, rfl⟩⟩ := step_eq_ok_iff.mp hstep
    · rw [hfill] at hfill'
      cases hfill'
    · exact absurd hn hup
    · exact Or.inr ⟨n, rfl⟩

end Disk

end Fanout
