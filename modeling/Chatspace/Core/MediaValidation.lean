import Mathlib.Data.List.Infix
import Chatspace.Services.Auth

/-!
# `app/core/media_validation.py`

The checks of an upload.  Bytes are lists of `UInt8`; a check that raises returns the error.

* `parseKind`, `validateAllowlist`, `sniffContentType`, `validateSniffMatch`;
* `sanitizeFilename`.
-/

namespace Chatspace

open Auth

inductive MediaError where
  | invalidMediaKindError (detail : Text)
  | mediaSizeExceededError (detail : Text)
  | mediaTypeDisallowedError (detail : Text)
  | mediaSniffMismatchError (detail : Text)
  | mediaExifStripError (detail : Text)
  | mediaUploadEmptyError (detail : Text)
deriving DecidableEq

def AttachmentKind.value : AttachmentKind → Text
  | .image => "image".toList
  | .file => "file".toList
  | .video => "video".toList

/-- `SIZE_CAP_BYTES_BY_KIND`. -/
def sizeCapBytesByKind : AttachmentKind → ℕ
  | .image => 10 * (1024 * 1024)
  | .file => 50 * (1024 * 1024)
  | .video => 200 * (1024 * 1024)

def imageContentTypes : List Text :=
  ["image/png".toList, "image/jpeg".toList, "image/gif".toList, "image/webp".toList]

def videoContentTypes : List Text := ["video/mp4".toList, "video/webm".toList]

/-- `ALLOWED_CONTENT_TYPES_BY_KIND`, which has no entry for files. -/
def allowedContentTypesByKind : AttachmentKind → List Text
  | .image => imageContentTypes
  | .video => videoContentTypes
  | .file => []

/-- `_FILE_KIND_DENYLISTED_CONTENT_TYPES`. -/
def fileKindDenylistedContentTypes : List Text :=
  ["text/html".toList, "text/xml".toList, "application/xhtml+xml".toList,
    "application/javascript".toList, "text/javascript".toList, "image/svg+xml".toList]

/-- `_SNIFFABLE_IMAGE_TYPES`. -/
def sniffableImageTypes : List Text := imageContentTypes ++ ["image/svg+xml".toList]

/-- `_SNIFFABLE_IMAGE_OR_VIDEO_TYPES`. -/
def sniffableImageOrVideoTypes : List Text := sniffableImageTypes ++ videoContentTypes

/-- The bytes of an ASCII literal. -/
def ascii (s : String) : List UInt8 := s.toList.map fun c => UInt8.ofNat c.toNat

/-- `_MP4_MAJOR_BRANDS`. -/
def mp4MajorBrands : List (List UInt8) :=
  ["isom", "iso2", "iso3", "iso4", "iso5", "iso6", "mp41", "mp42", "avc1", "M4V ", "3gp4", "3gp5",
    "3g2a", "mmp4", "dash", "f4v "].map ascii

variable (lower : Text → Text)

def parseKind (raw : Text) : Except MediaError AttachmentKind :=
  if lower (strip raw) = "image".toList then .ok .image
  else if lower (strip raw) = "file".toList then .ok .file
  else if lower (strip raw) = "video".toList then .ok .video
  else .error (.invalidMediaKindError
    ("'".toList ++ raw ++ "' is not a valid media kind.".toList))

def validateAllowlist (kind : AttachmentKind) (contentType : Text) : Except MediaError Unit :=
  match kind with
  | .file =>
    if contentType ∈ fileKindDenylistedContentTypes then
      .error (.mediaTypeDisallowedError ("content_type '".toList ++ contentType ++
        "' is not allowed for kind='file' (browser-active type).".toList))
    else .ok ()
  | kind =>
    if contentType ∈ allowedContentTypesByKind kind then .ok ()
    else .error (.mediaTypeDisallowedError ("content_type '".toList ++ contentType ++
      "' is not allowed for kind='".toList ++ kind.value ++ "'.".toList))

/-- `bytes.lower`. -/
def lowerBytes (bs : List UInt8) : List UInt8 :=
  bs.map fun b => if 65 ≤ b ∧ b ≤ 90 then b + 32 else b

/-- The bytes that are stripped before a document is looked for. -/
def isMarkOrSpace (b : UInt8) : Bool :=
  b ∈ ([0xEF, 0xBB, 0xBF, 0x20, 0x09, 0x0D, 0x0A] : List UInt8)

def looksLikeSvg (data : List UInt8) : Bool :=
  let head := lowerBytes ((data.take 512).dropWhile isMarkOrSpace)
  (ascii "<?xml").isPrefixOf head || (ascii "<svg").isPrefixOf head || ascii "<svg" <:+: head

/-- The major brand of an MP4 video. -/
def Mp4Brand (data : List UInt8) : Prop :=
  data.length ≥ 12 ∧ (data.drop 4).take 4 = ascii "ftyp" ∧ (data.drop 8).take 4 ∈ mp4MajorBrands

instance (data : List UInt8) : Decidable (Mp4Brand data) := inferInstanceAs (Decidable (_ ∧ _))

def sniffContentType (data : List UInt8) : Option Text :=
  if ([0x89, 0x50, 0x4E, 0x47, 0x0D, 0x0A, 0x1A, 0x0A] : List UInt8).isPrefixOf data then
    some "image/png".toList
  else if ([0xFF, 0xD8, 0xFF] : List UInt8).isPrefixOf data then some "image/jpeg".toList
  else if (ascii "GIF87a").isPrefixOf data || (ascii "GIF89a").isPrefixOf data then
    some "image/gif".toList
  else if data.length ≥ 12 ∧ data.take 4 = ascii "RIFF" ∧ (data.drop 8).take 4 = ascii "WEBP" then
    some "image/webp".toList
  else if Mp4Brand data then some "video/mp4".toList
  else if ([0x1A, 0x45, 0xDF, 0xA3] : List UInt8).isPrefixOf data then some "video/webm".toList
  else if looksLikeSvg data then some "image/svg+xml".toList
  else none

def validateSniffMatch (kind : AttachmentKind) (contentType : Text) (sniffed : Option Text) :
    Except MediaError Unit :=
  if kind = .image ∨ kind = .video then
    if sniffed = none ∨ sniffed ≠ some contentType then
      .error (.mediaSniffMismatchError
        ("sniffed content does not match declared content_type '".toList ++ contentType ++
          "'.".toList))
    else .ok ()
  else
    match sniffed with
    | none => .ok ()
    | some sniffed =>
      if sniffed ∈ sniffableImageTypes then
        .error (.mediaSniffMismatchError ("sniffed content (".toList ++ sniffed ++
          ") is a real image and must be uploaded with kind='image', not 'file'.".toList))
      else if sniffed ∈ sniffableImageOrVideoTypes ∧ sniffed ≠ contentType then
        .error (.mediaSniffMismatchError ("sniffed content (".toList ++ sniffed ++
          ") contradicts declared content_type '".toList ++ contentType ++ "'.".toList))
      else .ok ()

/-- The part after the last slash. -/
def basename (path : Text) : Text := (path.reverse.takeWhile (· ≠ '/')).reverse

/-- `PurePosixPath(path).name`: the last component that is neither empty nor a dot. -/
def pathName (path : Text) : Text :=
  (((path.splitOn '/').filter fun part => part ≠ [] ∧ part ≠ ['.']).getLast?).getD []

/-- `[A-Za-z0-9._ -]`. -/
def safeFilenameChar (c : Char) : Bool :=
  (65 ≤ c.toNat && c.toNat ≤ 90) || (97 ≤ c.toNat && c.toNat ≤ 122) ||
    (48 ≤ c.toNat && c.toNat ≤ 57) || c = '.' || c = '_' || c = ' ' || c = '-'

/-- `.replace("\\", "/")` of one character. -/
def foldSeparator (c : Char) : Char := if c = '\\' then '/' else c

/-- `_UNSAFE_FILENAME_CHARS.sub("_", ...)` of one character. -/
def replaceUnsafe (c : Char) : Char := if safeFilenameChar c then c else '_'

def sanitizeFilename (raw : Text) : Text :=
  let normalized := (strip raw).map foldSeparator
  let candidate := if pathName normalized ≠ [] then pathName normalized else basename normalized
  let candidate := candidate.dropWhile (· = '.')
  let candidate := strip (candidate.map replaceUnsafe)
  let candidate := if candidate = [] then "file".toList else candidate
  candidate.take 255

end Chatspace
