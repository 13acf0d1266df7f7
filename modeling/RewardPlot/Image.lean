import RewardPlot.FileTree.Path
/-!
# Image files

The extension of a file decides about its format; images are written in three of the
formats.  Of an image only what identifies it is kept: the signature and, in a PNG file,
the header with its size.  What is drawn is left out.
-/

namespace RewardPlot

/-- The formats that extensions name. -/
inductive ImageFormat where
  | avif
  | bmp
  | dds
  | farbfeld
  | gif
  | hdr
  | ico
  | jpeg
  | openExr
  | png
  | pnm
  | qoi
  | tga
  | tiff
  | webP
deriving DecidableEq, Repr

namespace ImageFormat

def extensions : List (String × ImageFormat) :=
  [("avif", .avif), ("bmp", .bmp), ("dds", .dds), ("ff", .farbfeld), ("farbfeld", .farbfeld),
    ("gif", .gif), ("hdr", .hdr), ("ico", .ico), ("jpg", .jpeg), ("jpeg", .jpeg),
    ("exr", .openExr), ("png", .png), ("pbm", .pnm), ("pam", .pnm), ("ppm", .pnm),
    ("pgm", .pnm), ("qoi", .qoi), ("tga", .tga), ("tif", .tiff), ("tiff", .tiff),
    ("webp", .webP)]

/-- The format of an extension in any letter case. -/
def ofExtension? (extension : Name) : Option ImageFormat :=
  let lower := extension.map fun b => if 0x41 ≤ b ∧ b ≤ 0x5A then b + 0x20 else b
  (extensions.find? fun (name, _) => Utf8.ofString name = lower).map Prod.snd

def ofPath? (p : Path) : Option ImageFormat := p.extension?.bind ofExtension?

/-- The bytes with which PNG files begin. -/
def pngSignature : List UInt8 := [0x89, 0x50, 0x4E, 0x47, 0x0D, 0x0A, 0x1A, 0x0A]

/-- The bytes with which files of a format begin, if images are written in it. -/
def signature? : ImageFormat → Option (List UInt8)
  | png => some pngSignature
  | jpeg => some [0xFF, 0xD8, 0xFF]
  | bmp => some [0x42, 0x4D]
  | _ => none

end ImageFormat

structure Image where
  format : ImageFormat
  width : UInt32
  height : UInt32
deriving DecidableEq, Repr

namespace Image

/-- A number in four bytes, the most significant first. -/
def bigEndian (n : UInt32) : List UInt8 :=
  [n >>> 24, n >>> 16, n >>> 8, n].map UInt32.toUInt8

/-- The number in four bytes. -/
def ofBigEndian (a b c d : UInt8) : UInt32 :=
  a.toUInt32 <<< 24 ||| b.toUInt32 <<< 16 ||| c.toUInt32 <<< 8 ||| d.toUInt32

/-- The length and the name of the block in which a PNG file gives its size. -/
def headerBlock : List UInt8 := bigEndian 13 ++ [0x49, 0x48, 0x44, 0x52]

/-- What stands behind the signature of an image file, as far as it is kept. -/
def header (i : Image) : List UInt8 :=
  if i.format = .png then headerBlock ++ bigEndian i.width ++ bigEndian i.height else []

/-- The beginning of an image file, if images are written in its format. -/
def bytes? (i : Image) : Option (List UInt8) :=
  i.format.signature?.map fun signature => signature ++ i.header

/-- The width and height of a PNG file. -/
def pngSize? (content : List UInt8) : Option (UInt32 × UInt32) :=
  let start := ImageFormat.pngSignature ++ headerBlock
  if start.isPrefixOf content then
    match content.drop start.length with
    | a :: b :: c :: d :: e :: f :: g :: h :: _ =>
      some (ofBigEndian a b c d, ofBigEndian e f g h)
    | _ => none
  else none

end Image

end RewardPlot
