import Fanout.Text.Lowering

/-!
# Module kinds

The conventions by which emitted code refers to other modules.

* `ModuleKind.all` lists them in their order; `ModuleKind.index` is the place in it.
* `ModuleKind.name` is the canonical lowercase name, and `ModuleKind.ofName?` reads exactly that.
* `ModuleKind.parse?` reads a name in any case.
-/

set_option autoImplicit false

namespace Fanout

/-- A convention for references between modules. -/
inductive ModuleKind where
  | commonJs
  | amd
  | umd
  | system
  | es2015
  | es2020
  | es2022
  | esNext
  | node16
  | nodeNext
  | preserve
  deriving DecidableEq, Repr

namespace ModuleKind

def all : List ModuleKind :=
  [commonJs, amd, umd, system, es2015, es2020, es2022, esNext, node16, nodeNext, preserve]

def name : ModuleKind → String
  | commonJs => "commonjs"
  | amd => "amd"
  | umd => "umd"
  | system => "system"
  | es2015 => "es2015"
  | es2020 => "es2020"
  | es2022 => "es2022"
  | esNext => "esnext"
  | node16 => "node16"
  | nodeNext => "nodenext"
  | preserve => "preserve"

/-- The kind assumed where none is declared. -/
instance : Inhabited ModuleKind := ⟨commonJs⟩

/-- The place of a kind in `all`. -/
def index (k : ModuleKind) : Nat := all.idxOf k

/-- The kinds are ordered as `all` lists them. -/
instance : Ord ModuleKind := ⟨fun a b => compare a.index b.index⟩

def ofName? (text : String) : Option ModuleKind := all.find? (·.name == text)

theorem mem_all (k : ModuleKind) : k ∈ all := by
  cases k <;> decide

theorem ofName?_name (k : ModuleKind) : ofName? k.name = some k := by
  cases k <;> decide

theorem name_inj {k other : ModuleKind} : k.name = other.name ↔ k = other := by
  constructor
  · intro h
    have hk := ofName?_name k
    rw [h, ofName?_name other] at hk
    exact (Option.some.inj hk).symm
  · rintro rfl
    rfl

/-- The kind whose name the text is, whatever the case of its letters. -/
def parse? (text : String) : Option ModuleKind := ofName? (Text.lowered text)

end ModuleKind

end Fanout
