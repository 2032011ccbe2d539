import Fanout.Options.Basic
import Fanout.Path.Bytes

/-!
# Where artifacts go

* `Options.outputPath` places the artifact of a source unit: the unit as seen from the root of
  the source tree, where it lies below it, without its source extension and with the extension of
  the artifact, below the output directory.
* `Placement.outputPath` is the same for paths in bytes.  The extension of a unit is exchanged in
  the text that its path is shown as, so the artifact goes where that text says, and bytes that are
  no text go no further.
* `Options.buildInfoPath?` is the file of the incremental state, if that is kept: the one declared,
  or `buildInfoName` in the output directory.
-/

set_option autoImplicit false

namespace Fanout

/-- The default name of the file that keeps incremental state. -/
def buildInfoName : Path := ⟨"polyemit.buildinfo"⟩

/-- The extensions of source files; the first one that fits is removed. -/
def sourceExtensions : List String := [".d.ts", ".tsx", ".ts", ".mts", ".cts", ".jsx", ".js"]

namespace Path

/-- A path without the source extension that its text ends in. -/
def withoutSourceExtension (p : Path) : Path :=
  (sourceExtensions.findSome? fun ext => p.stripSuffix? ext.toList).getD p

def withExtension (p : Path) (extension : String) : Path :=
  ofChars (p.chars ++ '.' :: extension.toList)

end Path

namespace Options

/-- A unit as seen from the root of the source tree, where it lies below that. -/
def relativeUnit (o : Options) (unit : Path) : Path :=
  -- a unit elsewhere stays as it is, an absolute one too
  (o.rootDir.bind unit.relativeTo?).getD unit

/-- The path of the artifact of a unit. -/
def outputPath (o : Options) (unit : Path) (extension : String) : Path :=
  let file := (o.relativeUnit unit).withoutSourceExtension.withExtension extension
  match o.outDir with
  | some dir => dir.join file
  | none => file

/-- The file of the incremental state. -/
def buildInfoPath? (o : Options) : Option Path :=
  if o.incremental then o.buildInfoFile.or (o.outDir.map (·.join buildInfoName)) else none

end Options

/-! ## Paths in bytes -/

namespace BytePath

/-- A path without the source extension that it is shown with; one without an extension is kept in
its bytes. -/
def withoutSourceExtension (p : BytePath) : BytePath :=
  match sourceExtensions.findSome? fun ext => p.shown.stripSuffix? ext.toList with
  | some stem => ofPath stem
  | none => p

def withExtension (p : BytePath) (extension : String) : BytePath :=
  ofPath (p.shown.withExtension extension)

end BytePath

/-- What the options say of where artifacts go, in bytes. -/
structure Placement where
  rootDir : Option BytePath
  outDir : Option BytePath
  deriving DecidableEq, Repr

namespace Placement

def relativeUnit (l : Placement) (unit : BytePath) : BytePath :=
  (l.rootDir.bind unit.relativeTo?).getD unit

def outputPath (l : Placement) (unit : BytePath) (extension : String) : BytePath :=
  let file := (l.relativeUnit unit).withoutSourceExtension.withExtension extension
  match l.outDir with
  | some dir => dir.join file
  | none => file

end Placement

def Options.placement (o : Options) : Placement where
  rootDir := o.rootDir.map .ofPath
  outDir := o.outDir.map .ofPath

end Fanout
