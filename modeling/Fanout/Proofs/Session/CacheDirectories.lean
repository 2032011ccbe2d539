import Fanout.Proofs.Path.Trees
import Fanout.Proofs.Session.OfProject
import Fanout.Proofs.Variant.Directories

/-!
# Cache directories that no entry names

An entry of a project without a cache directory of its own gets one below the cache root, named
after its module kind, and the project's root comes in front of both.  Seeing a path from the root
is joining (`resolvePath_eq_join`) and joining is associative, so these directories lie side by side
in the cache root as seen from the root of the project (`LoadedProject.cacheTop`), however the two
are spelled and whichever of them is absolute.

* `cacheDir_variantOf`: where the cache directory of such an entry is.
* `apart_cacheDir_variantOf`: entries of different kinds have cache directories that lie apart.

The main result, `ofProject_separates_caches`, follows two such entries of a valid project into its
session and into the registry of a build that goes to the cache.
-/

set_option autoImplicit false

namespace Fanout

namespace ModuleKind

theorem components_name (kind : ModuleKind) :
    (⟨kind.name⟩ : Path).components = [.name kind.name.toList] := by
  cases kind <;> decide

theorem anchor_name (kind : ModuleKind) : (⟨kind.name⟩ : Path).anchor = .implicit := by
  cases kind <;> decide

end ModuleKind

namespace LoadedProject

variable (l : LoadedProject) {v w : VariantEntry}

theorem resolvePath_eq_join (p : Path) : l.resolvePath p = (l.root.getD .empty).join p := by
  unfold resolvePath
  cases l.root with
  | none => exact (Path.empty_join p).symm
  | some root =>
    cases hp : p.isAbsolute with
    | true => exact (Path.join_of_isAbsolute root hp).symm
    | false => rfl

theorem resolvePath_join (p q : Path) : l.resolvePath (p.join q) = (l.resolvePath p).join q := by
  rw [resolvePath_eq_join, resolvePath_eq_join, Path.join_assoc]

/-- The directory that cache directories lie in unless their entries say otherwise. -/
def cacheTop : Path := l.resolvePath l.project.cacheRoot

theorem cacheDir_variantOf (hv : v.cacheDir = none) :
    (l.variantOf v).cacheDir = l.cacheTop.join ⟨v.kind.name⟩ := by
  have hdir : l.project.cacheDirOf v = l.project.cacheRoot.join ⟨v.kind.name⟩ := by
    rw [Project.cacheDirOf, hv]
  rw [variantOf, hdir, resolvePath_join, cacheTop]

/-- Whatever the cache root and the root of the project are, one name is added to them. -/
theorem components_cacheDir_variantOf (hv : v.cacheDir = none) :
    (l.variantOf v).cacheDir.components =
      l.cacheTop.components ++ [.name v.kind.name.toList] := by
  rw [cacheDir_variantOf l hv, Path.components_join_of_implicit _ v.kind.anchor_name,
    v.kind.components_name]

theorem apart_cacheDir_variantOf (hv : v.cacheDir = none) (hw : w.cacheDir = none)
    (hkind : v.kind ≠ w.kind) : (l.variantOf v).cacheDir.Apart (l.variantOf w).cacheDir := by
  refine Path.apart_of_children (components_cacheDir_variantOf l hv)
    (components_cacheDir_variantOf l hw) ?_
  intro hname
  exact hkind (ModuleKind.name_inj.mp (String.toList_inj.mp (Path.Component.name.inj hname)))

theorem sessionVariants_of_mem (hv : v ∈ l.project.variants) :
    l.sessionVariants = .ok (l.project.variants.map l.variantOf) :=
  sessionVariants_eq_ok_iff.mpr (Or.inl ⟨List.ne_nil_of_mem hv, rfl⟩)

end LoadedProject

theorem Project.Sound.kind_ne {p : Project} (h : p.Sound) {i j : Nat} {v w : VariantEntry}
    (hi : p.variants[i]? = some v) (hj : p.variants[j]? = some w) (hij : i ≠ j) :
    v.kind ≠ w.kind := by
  intro hkind
  have hplace : i < (p.variants.map (·.kind)).length := by
    rw [List.length_map]
    exact (List.getElem?_eq_some_iff.mp hi).1
  refine hij ((List.getElem?_inj hplace h.kinds).mp ?_)
  rw [List.getElem?_map, List.getElem?_map, hi, hj]
  exact congrArg some hkind

namespace Session

/-- In a build that goes to the cache the variants of a session are written to their cache
directories. -/
theorem exists_cached_of_resolve {s : Session} {r : Registry} (hr : s.resolve = .ok r)
    (hcache : s.mode = .cache) {i : Nat} {a : Variant} (ha : s.variants[i]? = some a) :
    ∃ x, r.variants[i]? = some x ∧ x.variant.effectiveDir s.mode = a.cacheDir := by
  have hres : Registry.resolve s.options s.variants s.mode = .ok r := resolve_eq_ok_iff.mp hr
  refine ⟨Registry.resolveVariant s.options s.mode a, ?_, ?_⟩
  · rw [(Registry.resolve_resolved hres).variants_eq, List.getElem?_map, ha]
    rfl
  · rw [hcache]
    rfl

/-- **Default cache directories lie side by side.**  A valid project has a session, in which two
entries that name no cache directory are two variants whose cache directories lie directly below the
cache root as seen from the root of the project.  They are different paths, neither lies in the
other, and nothing lies in both; so in a build that goes to the cache none of the two variants
writes an artifact where the other one writes one. -/
theorem ofProject_separates_caches {l : LoadedProject} {i j : Nat} {v w : VariantEntry}
    (hvalid : l.project.validate = .ok ()) (hi : l.project.variants[i]? = some v)
    (hj : l.project.variants[j]? = some w) (hij : i ≠ j) (hv : v.cacheDir = none)
    (hw : w.cacheDir = none) :
    ∃ s a b, ofProject l = .ok s ∧ s.variants[i]? = some a ∧ s.variants[j]? = some b ∧
      (∃ top, a.cacheDir.parent? = some top ∧ top.same l.cacheTop = true) ∧
      (∃ top, b.cacheDir.parent? = some top ∧ top.same l.cacheTop = true) ∧
      a.cacheDir.same b.cacheDir = false ∧ a.cacheDir.Apart b.cacheDir ∧
      (∀ p : Path, ¬(p.Within a.cacheDir ∧ p.Within b.cacheDir)) ∧
      ∀ r, s.resolve = .ok r → s.mode = .cache →
        ∃ x y, r.variants[i]? = some x ∧ r.variants[j]? = some y ∧
          x.outputDir? = some a.cacheDir ∧ y.outputDir? = some b.cacheDir ∧
          ∀ unit unit' extension extension', s.options.Places unit → s.options.Places unit' →
            (x.options.outputPath unit extension).same
              (y.options.outputPath unit' extension') = false := by
  have hsound : l.project.Sound := (Project.validate_eq_ok_iff.mp hvalid).1
  have hvariants := l.sessionVariants_of_mem (List.mem_of_getElem? hi)
  have hapart := l.apart_cacheDir_variantOf hv hw (hsound.kind_ne hi hj hij)
  have hat : ∀ {k : Nat} {u : VariantEntry}, l.project.variants[k]? = some u →
      (l.project.variants.map l.variantOf)[k]? = some (l.variantOf u) := by
    intro k u hk
    rw [List.getElem?_map, hk]
    rfl
  refine ⟨_, l.variantOf v, l.variantOf w, ofProject_eq_ok_iff.mpr ⟨_, hvariants, rfl⟩, hat hi,
    hat hj, Path.exists_parent?_of_components (l.components_cacheDir_variantOf hv),
    Path.exists_parent?_of_components (l.components_cacheDir_variantOf hw), hapart.not_same, hapart,
    Path.apart_iff.mp hapart, fun r hr hcache => ?_⟩
  have hres := resolve_eq_ok_iff.mp hr
  obtain ⟨x, hx, hxdir⟩ := exists_cached_of_resolve hr hcache (hat hi)
  obtain ⟨y, hy, hydir⟩ := exists_cached_of_resolve hr hcache (hat hj)
  have hxmem := List.mem_of_getElem? hx
  have hymem := List.mem_of_getElem? hy
  refine ⟨x, y, hx, hy, ?_, ?_, ?_⟩
  · rw [(Registry.derivedFrom_of_resolve hres hxmem).outputDir?_eq, hxdir]
  · rw [(Registry.derivedFrom_of_resolve hres hymem).outputDir?_eq, hydir]
  · intro unit unit' extension extension' hunit hunit'
    rw [← hxdir, ← hydir] at hapart
    exact hapart.not_same_of_within (Registry.outputPath_within hres hxmem hunit extension)
      (Registry.outputPath_within hres hymem hunit' extension')

/-- A project with a cache root that is spelled with more than names. -/
def spelledCache : LoadedProject where
  project :=
    { compiler := some { kind := some .commonJs }
      emit := some
        { cache := some true
          cacheDir := some ⟨"./tmp//"⟩
          variants := [⟨.commonJs, ⟨"cjs"⟩, none, true⟩, ⟨.esNext, ⟨"esm"⟩, none, false⟩] } }
  root := some ⟨"../app/"⟩

/-- The two variants are cached side by side below `../app/tmp`: neither of them writes where the
other one does, not even for a unit in a directory of the name of the other one. -/
theorem ofProject_separates_caches_spelled :
    spelledCache.project.validate = .ok () ∧ (0 : Nat) ≠ 1 ∧
      (∃ v w, spelledCache.project.variants[0]? = some v ∧ v.cacheDir = none ∧
        spelledCache.project.variants[1]? = some w ∧ w.cacheDir = none) ∧
      ∃ s r, ofProject spelledCache = .ok s ∧ s.resolve = .ok r ∧ s.mode = .cache ∧
        ∃ a b, s.variants[0]? = some a ∧ s.variants[1]? = some b ∧
          a.cacheDir.same ⟨"../app/tmp/commonjs"⟩ = true ∧
          b.cacheDir.same ⟨"../app/tmp/esnext"⟩ = true ∧ a.cacheDir.Apart b.cacheDir ∧
          ∃ x y, r.variants[0]? = some x ∧ r.variants[1]? = some y ∧
            (x.options.outputPath ⟨"esnext/x.ts"⟩ "js").same
              (y.options.outputPath ⟨"x.ts"⟩ "js") = false := by
  have hvalid : spelledCache.project.validate = .ok () := by decide
  obtain ⟨s, a, b, hs, ha, hb, -, -, -, hapart, -, hwritten⟩ :=
    ofProject_separates_caches (l := spelledCache) hvalid rfl rfl Nat.zero_ne_one rfl rfl
  obtain rfl := Except.ok.inj hs
  refine ⟨hvalid, Nat.zero_ne_one, ⟨_, _, rfl, rfl, rfl, rfl⟩, _, _, hs, rfl, rfl, a, b, ha, hb, ?_,
    ?_, hapart, ?_⟩
  · obtain rfl := Option.some.inj ha
    decide
  · obtain rfl := Option.some.inj hb
    decide
  · obtain ⟨x, y, hx, hy, -, -, hapart⟩ := hwritten _ rfl rfl
    exact ⟨x, y, hx, hy, hapart _ _ _ _ (Or.inl rfl) (Or.inl rfl)⟩

end Session

end Fanout
