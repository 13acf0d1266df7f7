import RewardPlot.FileTree.Edit
import RewardPlot.Image
import RewardPlot.Manifest.Printer
import RewardPlot.Manifest.Reader
/-!
# Output files

Writing the image and the manifest of a chart.  The directories above an output are
made where they are missing, and stay when the output itself fails.  So does a file that
was made before its writing failed.
-/

namespace RewardPlot

inductive DrawFault where
  | unknownFormat
  | unwrittenFormat
  | file (cause : FileFault)
deriving DecidableEq

inductive OutputFault where
  | emptyPath
  | directory (path : Path)
  | noParent (path : Path) (cause : FileFault)
  | size (width height : UInt32)
  | drawing (cause : DrawFault)
  | file (cause : FileFault)
  /-- The file was made, but did not take a part of the text. -/
  | text (cause : String)
  /-- The file was made, but did not take the last of the text. -/
  | flush (cause : String)
deriving DecidableEq

inductive ManifestFault where
  | file (cause : FileFault)
  | content (problem : Json.Problem)
deriving DecidableEq

namespace DrawFault

def message : DrawFault → String
  | unknownFormat => "The extension names no image format"
  | unwrittenFormat => "No image is written in the format of the extension"
  | file cause => cause.message

end DrawFault

namespace OutputFault

def message : OutputFault → String
  | emptyPath => "Invalid output path: Path is empty"
  | directory p => s!"Invalid output path: Path is a directory: {p.display}"
  | noParent p cause =>
    s!"Invalid output path: Cannot create directory {p.display}: {cause.message}"
  | size width height => s!"Invalid chart size: {width}x{height}"
  | drawing cause => s!"Failed to render chart: {cause.message}"
  | file cause => s!"Failed to write file: {cause.message}"
  | text cause => s!"Failed to serialize JSON: {cause}"
  | flush cause => s!"Failed to write file: {cause}"

def sources : OutputFault → List String
  | file cause => [cause.message]
  | text cause | flush cause => [cause]
  | _ => []

end OutputFault

/-- How the writing of a text ends before its end, once the file was made. -/
structure Interruption where
  /-- How much of the text the file holds in the end. -/
  length : Nat
  /-- Whether the failure shows only when the last of the text is handed over. -/
  atFlush : Bool
  /-- What the system says about it. -/
  cause : String
deriving DecidableEq

def Interruption.fault (i : Interruption) : OutputFault :=
  if i.atFlush then .flush i.cause else .text i.cause

namespace Output

/-- The fault of a path at which no file can be written, if it is seen beforehand. -/
def pathFault? (t : FileTree) (p : Path) : Option OutputFault :=
  if p.isEmpty then some .emptyPath
  else if t.isDirectory p then some (.directory p)
  else none

/-- Makes the directory in which an output lies, if it is missing. -/
def makeParent (t : FileTree) (p : Path) : Except OutputFault Unit × FileTree :=
  match p.parent? with
  | none => (.ok (), t)
  | some above =>
    if above.isEmpty ∨ t.hasEntry above then (.ok (), t)
    else
      match t.makeDirectories above with
      | (.ok (), t) => (.ok (), t)
      | (.error cause, t) => (.error (.noParent above cause), t)

/-- Makes a path ready and then writes to it. -/
def atPath (t : FileTree) (p : Path) (save : FileTree → Except OutputFault Unit × FileTree) :
    Except OutputFault Unit × FileTree :=
  match pathFault? t p with
  | some fault => (.error fault, t)
  | none =>
    match makeParent t p with
    | (.error fault, t) => (.error fault, t)
    | (.ok (), t) => save t

/-- Makes a file that comes to hold some bytes, with a fault where it cannot be made.  How
the writing went after that is given. -/
def saveFile (t : FileTree) (p : Path) (content : List UInt8) (unmade : FileFault → OutputFault)
    (written : Except OutputFault Unit) : Except OutputFault Unit × FileTree :=
  match t.write p content with
  | .error cause => (.error (unmade cause), t)
  | .ok t => (written, t)

/-- Draws a chart and saves its image in the format of the extension.  The file is made
first: it is left empty where no image is written in the format. -/
def saveImage (c : Chart) (p : Path) (t : FileTree) : Except OutputFault Unit × FileTree :=
  let s := c.settings
  if !s.sizeFits then (.error (.size s.width s.height), t)
  else
    match ImageFormat.ofPath? p with
    | none => (.error (.drawing .unknownFormat), t)
    | some format =>
      match Image.bytes? ⟨format, s.width, s.height⟩ with
      | some image => saveFile t p image (.drawing ∘ .file) (.ok ())
      | none => saveFile t p [] (.drawing ∘ .file) (.error (.drawing .unwrittenFormat))

def storeImage (t : FileTree) (c : Chart) (p : Path) : Except OutputFault Unit × FileTree :=
  atPath t p (saveImage c p)

/-- Saves a manifest.  Where the writing is interrupted, the file holds what it took of the
text by then, and what was in it before is lost. -/
def saveManifest (m : Manifest) (p : Path) (interruption : Option Interruption)
    (t : FileTree) : Except OutputFault Unit × FileTree :=
  match interruption with
  | none => saveFile t p m.bytes .file (.ok ())
  | some i => saveFile t p (m.bytes.take i.length) .file (.error i.fault)

def storeManifest (t : FileTree) (m : Manifest) (p : Path)
    (interruption : Option Interruption := none) : Except OutputFault Unit × FileTree :=
  atPath t p (saveManifest m p interruption)

/-- Reads a manifest.  A directory can be opened, but has no text. -/
def loadManifest (t : FileTree) (p : Path) : Except ManifestFault Manifest :=
  match t.find p with
  | .error cause => .error (.file cause)
  | .ok (_, .file content) => (Manifest.ofBytes content).mapError .content
  | .ok _ => .error (.content .unreadable)

end Output

end RewardPlot
