/-!
# Paths

A path that is text is kept as it was spelled.  What it names is read off its pieces, the texts
between the slashes:

* `Path.components` is the view that decides equality (`Path.same`) and order: empty pieces and
  pieces that are a single dot are fillers and say nothing, except a dot that opens a relative path.
* `Path.join` puts one path below another, an absolute path replacing what stood before it.
* `Path.above` lists the enclosing paths, nearest first; `Path.parent?` is the first of them.
* `Path.relativeTo?` removes a leading path, component by component, and keeps the spelling of
  what remains.
-/

set_option autoImplicit false

namespace Fanout

/-- The text between two slashes of a path. -/
abbrev Name := List Char

/-- A path that is text, with the spelling it was given. -/
structure Path where
  spelling : String
  deriving DecidableEq, Inhabited, Repr

namespace Path

/-! ## Pieces -/

/-- Cuts a text at every slash; there is one piece more than there are slashes. -/
def splitSlash : List Char → List Name
  | [] => [[]]
  | c :: cs =>
    if c = '/' then [] :: splitSlash cs
    else
      match splitSlash cs with
      | [] => [[c]]
      | piece :: pieces => (c :: piece) :: pieces

/-- Writes pieces with a slash between neighbours. -/
def joinSlash : List Name → List Char
  | [] => []
  | [piece] => piece
  | piece :: next :: pieces => piece ++ '/' :: joinSlash (next :: pieces)

theorem splitSlash_ne_nil (cs : List Char) : splitSlash cs ≠ [] := by
  cases cs with
  | nil => simp [splitSlash]
  | cons c cs =>
    rw [splitSlash]
    split
    · simp
    · split <;> simp

theorem joinSlash_cons {pieces : List Name} (piece : Name) (h : pieces ≠ []) :
    joinSlash (piece :: pieces) = piece ++ '/' :: joinSlash pieces := by
  cases pieces with
  | nil => exact absurd rfl h
  | cons next pieces => rfl

/-- Cutting loses nothing. -/
theorem joinSlash_splitSlash (cs : List Char) : joinSlash (splitSlash cs) = cs := by
  induction cs with
  | nil => rfl
  | cons c cs ih =>
    rw [splitSlash]
    split
    · next h => rw [joinSlash_cons _ (splitSlash_ne_nil cs), ih, h]; rfl
    · cases hs : splitSlash cs with
      | nil => exact absurd hs (splitSlash_ne_nil cs)
      | cons piece pieces =>
        rw [hs] at ih
        cases pieces with
        | nil => simpa [joinSlash] using ih
        | cons next pieces => simpa [joinSlash] using ih

def chars (p : Path) : List Char := p.spelling.toList

def ofChars (cs : List Char) : Path := ⟨String.ofList cs⟩

/-- The empty path, which names nothing. -/
def empty : Path := ⟨""⟩

def isEmpty (p : Path) : Bool := p.chars.isEmpty

/-- The pieces of a path, fillers included. -/
def pieces (p : Path) : List Name := splitSlash p.chars

/-- A piece that names nothing: an empty one, or a single dot. -/
def isFiller (n : Name) : Bool := n.isEmpty || n == ['.']

/-! ## Components -/

/-- What a path starts from: the root, the directory it is used in by an explicit dot, or that
directory without saying so. -/
inductive Anchor where
  | root
  | here
  | implicit
  deriving DecidableEq, Repr

/-- Separates the start of a path from the pieces that follow it. -/
def anchorPieces : List Name → Anchor × List Name
  | [] :: piece :: pieces => (.root, piece :: pieces)
  | ['.'] :: pieces => (.here, pieces)
  | pieces => (.implicit, pieces)

def anchor (p : Path) : Anchor := (anchorPieces p.pieces).1

def body (p : Path) : List Name := (anchorPieces p.pieces).2

def isAbsolute (p : Path) : Bool := p.chars.head? == some '/'

/-- One step of a path. -/
inductive Component where
  | root
  | here
  | up
  | name (text : Name)
  deriving DecidableEq, Repr

/-- The step that a piece stands for. -/
def Component.ofPiece (n : Name) : Component := if n = ['.', '.'] then .up else .name n

/-- The step that an anchor stands for, if it stands for one. -/
def Anchor.components : Anchor → List Component
  | .root => [.root]
  | .here => [.here]
  | .implicit => []

/-- The steps of a path: its anchor, then every piece that is no filler. -/
def components (p : Path) : List Component :=
  p.anchor.components ++ (p.body.filter (!isFiller ·)).map Component.ofPiece

/-- Two spellings of one path: the components are the same. -/
def same (p q : Path) : Bool := p.components == q.components

/-! ## Putting paths together -/

/-- Spells an anchor and the pieces after it. -/
def assemble : Anchor → List Name → Path
  | .root, pieces => ofChars ('/' :: joinSlash pieces)
  | .here, [] => ofChars ['.']
  | .here, pieces => ofChars ('.' :: '/' :: joinSlash pieces)
  | .implicit, pieces => ofChars (joinSlash pieces)

/-- `q` as seen from `p`: an absolute `q` stands for itself, any other is written after `p`. -/
def join (p q : Path) : Path :=
  if q.isAbsolute then q
  -- the empty path needs no slash after it, and one that ends in a slash has it
  else if p.isEmpty || p.chars.getLast? == some '/' then ofChars (p.chars ++ q.chars)
  else ofChars (p.chars ++ '/' :: q.chars)

/-! ## Taking paths apart -/

def trimStart (pieces : List Name) : List Name := pieces.dropWhile isFiller

def trimEnd (pieces : List Name) : List Name := (pieces.reverse.dropWhile isFiller).reverse

/-- The paths that end at some piece of a body, nearest first, and at last the anchor alone; the
pieces are given innermost first. -/
def chain (a : Anchor) : List Name → List Path
  | [] => if a = .here then [assemble .here [], empty] else [assemble a []]
  | n :: rest => if isFiller n then chain a rest else assemble a (n :: rest).reverse :: chain a rest

/-- The paths that enclose `p`, nearest first. -/
def above (p : Path) : List Path :=
  match p.body.reverse.dropWhile isFiller with
  | _ :: rest => chain p.anchor rest
  | [] => if p.anchor = .here then [empty] else []

/-- The path without its last component; the root and the empty path have none. -/
def parent? (p : Path) : Option Path := p.above.head?

def selfAndAbove (p : Path) : List Path := p :: p.above

/-- Drops the first `k` pieces that name something, and the fillers among them. -/
def dropNamed : Nat → List Name → List Name
  | 0, pieces => pieces
  | _ + 1, [] => []
  | k + 1, n :: rest => if isFiller n then dropNamed (k + 1) rest else dropNamed k rest

/-- What is left of `p` after its first `k` components, without fillers at the ends; where no
component goes, the start stays as it is spelled. -/
def afterComponents (p : Path) : Nat → Path
  | 0 => assemble p.anchor (trimEnd p.body)
  | k + 1 =>
    -- the root and an opening dot are components, but no pieces of the body
    let named := if p.anchor = .implicit then k + 1 else k
    ofChars (joinSlash (trimEnd (trimStart (dropNamed named p.body))))

/-- `p` without the leading components of `base`; `none` if `p` does not lie at or below `base`. -/
def relativeTo? (p base : Path) : Option Path :=
  if base.components.isPrefixOf p.components then some (p.afterComponents base.components.length)
  else none

/-- `p` with a suffix of its text removed, if it ends in that text. -/
def stripSuffix? (p : Path) (suffix : List Char) : Option Path :=
  if suffix.reverse.isPrefixOf p.chars.reverse then
    some (ofChars (p.chars.take (p.chars.length - suffix.length)))
  else none

end Path

end Fanout
