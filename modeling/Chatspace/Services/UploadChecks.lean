import Mathlib.Data.List.Infix
import Chatspace.Codec.Text
import Chatspace.Services.MediaUpload

/-!
# What passes the checks of an upload

* `Accepts` — the bytes and the declared type of an upload pass;
* `accepts_of_ends` — an upload that succeeds has passed;
* `SvgDocument`, `ImageSignature` — what must not pass as a file;
* `no_image_as_file` — **no image passes as a file, except an SVG document whose `<svg` lies behind
  the bytes that are looked at or that looks like a video;**
* `browserType` — a content type as a browser reads it;
* `browser_active_refused` — **browser-active types are refused exactly when they are declared
  without parameters.**
-/

namespace Chatspace.MediaUpload

open Interleave Auth

abbrev Bytes : Type := List UInt8

/-- `validate_allowlist`, `sniff_content_type` and `validate_sniff_match`, one after the other. -/
def uploadChecks (kind : AttachmentKind) (contentType : Text) (data : Bytes) :
    Except MediaError Unit := do
  validateAllowlist kind contentType
  validateSniffMatch kind contentType (sniffContentType data)

/-- The upload passes. -/
structure Accepts (lower : Text → Text) (kind : AttachmentKind) (declaredContentTypeRaw : Text)
    (data : Bytes) : Prop where
  nonempty : data ≠ []
  cap : data.length ≤ sizeCapBytesByKind kind
  checks : uploadChecks kind (lower (strip declaredContentTypeRaw)) data = .ok ()

variable {lower : Text → Text} {kind : AttachmentKind} {ct : Text} {data : Bytes}
  {w w' : UploadWorld} {cs : List Choice}

/-- The checks of a file. -/
theorem uploadChecks_file : uploadChecks .file ct data = .ok () ↔
    ct ∉ fileKindDenylistedContentTypes ∧ ∀ s ∈ sniffContentType data,
      s ∉ sniffableImageTypes ∧ (s ∈ sniffableImageOrVideoTypes → s = ct) := by
  unfold uploadChecks validateAllowlist
  by_cases hdenied : ct ∈ fileKindDenylistedContentTypes
  · simp only [if_pos hdenied]
    exact iff_of_false nofun fun h => h.1 hdenied
  · simp only [if_neg hdenied]
    show validateSniffMatch .file ct (sniffContentType data) = .ok () ↔ _
    rw [and_iff_right hdenied]
    unfold validateSniffMatch
    rw [if_neg (by decide)]
    cases hs : sniffContentType data with
    | none => simp
    | some s =>
      by_cases himage : s ∈ sniffableImageTypes
      · simp [himage]
      · by_cases hvideo : s ∈ sniffableImageOrVideoTypes
        · by_cases hct : s = ct
          · simp [← hct, himage]
          · simp [himage, hvideo, hct]
        · simp [himage, hvideo]

/-- The checks of an image or a video. -/
theorem uploadChecks_media (hkind : kind ≠ .file) : uploadChecks kind ct data = .ok () ↔
    ct ∈ allowedContentTypesByKind kind ∧ sniffContentType data = some ct := by
  have hallow : validateAllowlist kind ct = .ok () ↔ ct ∈ allowedContentTypesByKind kind := by
    cases kind with
    | file => exact absurd rfl hkind
    | image => simp [validateAllowlist]
    | video => simp [validateAllowlist]
  have hsniff : validateSniffMatch kind ct (sniffContentType data) = .ok () ↔
      sniffContentType data = some ct := by
    have hboth : kind = .image ∨ kind = .video := by
      cases kind with
      | file => exact absurd rfl hkind
      | image => exact .inl rfl
      | video => exact .inr rfl
    unfold validateSniffMatch
    rw [if_pos hboth]
    by_cases h : sniffContentType data = some ct
    · simp [h]
    · simp [h]
  rw [← hallow, ← hsniff, uploadChecks]
  cases validateAllowlist kind ct with
  | ok _ => exact (and_iff_right rfl).symm
  | error e => exact iff_of_false nofun fun h => nomatch h.1

/-! ### Uploads that succeed -/

theorem ends_check {α : Type} {x : Except MediaError α} {a : α}
    (h : machine.Ends () (check x) w cs (.ok a) w') : x = .ok a := by
  cases x with
  | ok b =>
    cases h
    rfl
  | error e => cases h

theorem length_of_readChunks {maxBytes turns total : ℕ} {chunks : List Bytes}
    (htotal : chunks.flatten.length = total) (hle : total ≤ maxBytes)
    (h : machine.Ends () (readChunks maxBytes turns chunks total) w cs (.ok data) w') :
    data.length ≤ maxBytes := by
  induction turns generalizing chunks total w cs with
  | zero => cases h
  | succ turns ih =>
    obtain ⟨_, _, chunk, _, rfl, -, hrest⟩ := Machine.ends_bind_ok h
    dsimp only at hrest
    split at hrest
    · cases hrest
      rw [htotal]
      exact hle
    · split at hrest
      · cases hrest
      · rename_i hfits
        refine ih ?_ (Nat.le_of_not_lt hfits) hrest
        simp [htotal]

theorem ends_storeUpload {uploaderId : UserId} {filename : Text} {storedBytes : Bytes}
    {a : NewAttachment}
    (h : machine.Ends () (storeUpload uploaderId kind ct filename storedBytes) w cs
      (.ok a) w') : a.kind = kind ∧ a.contentType = ct := by
  obtain ⟨_, _, mediaId, _, rfl, -, h⟩ := Machine.ends_bind_ok h
  obtain ⟨_, _, _, _, rfl, -, h⟩ := Machine.ends_bind_ok h
  obtain ⟨_, _, _, _, rfl, -, h⟩ := Machine.ends_bind_ok h
  obtain ⟨_, _, _, _, rfl, -, h⟩ := Machine.ends_bind_ok h
  obtain ⟨_, _, _, _, rfl, -, h⟩ := Machine.ends_bind_ok h
  cases h
  exact ⟨rfl, rfl⟩

/-- An upload that succeeds has passed the checks, with the type that its row has. -/
theorem accepts_of_ends {uploaderId : UserId} {kindRaw filenameRaw : Text} {a : NewAttachment}
    (h : machine.Ends () (uploadMedia lower uploaderId ct kindRaw filenameRaw) w cs
      (.ok a) w') : a.contentType = lower (strip ct) ∧ ∃ data, Accepts lower a.kind ct data := by
  obtain ⟨_, _, kind, _, rfl, -, h⟩ := Machine.ends_bind_ok h
  obtain ⟨_, _, data, _, rfl, hread, h⟩ := Machine.ends_bind_ok h
  split at h
  · cases h
  · rename_i hne
    obtain ⟨_, _, _, _, rfl, hallow, h⟩ := Machine.ends_bind_ok h
    obtain ⟨_, _, _, _, rfl, hsniff, h⟩ := Machine.ends_bind_ok h
    obtain ⟨_, _, storedBytes, _, rfl, -, h⟩ := Machine.ends_bind_ok h
    obtain ⟨rfl, hct⟩ := ends_storeUpload h
    refine ⟨hct, data, ?_, length_of_readChunks rfl (Nat.zero_le _) hread, ?_⟩
    · exact fun hnil => hne (by simp [hnil])
    · rw [uploadChecks, ends_check hallow]
      exact ends_check hsniff

/-! ### Images -/

/-- The signature of a PNG, JPEG, GIF or WebP image. -/
def ImageSignature (data : Bytes) : Prop :=
  [0x89, 0x50, 0x4E, 0x47, 0x0D, 0x0A, 0x1A, 0x0A] <+: data ∨ [0xFF, 0xD8, 0xFF] <+: data ∨
    ascii "GIF87a" <+: data ∨ ascii "GIF89a" <+: data ∨
    (ascii "RIFF" <+: data ∧ ascii "WEBP" <+: data.drop 8)

def isXmlSpace (b : UInt8) : Bool := b ∈ ([0x20, 0x09, 0x0D, 0x0A] : Bytes)

/-- What may stand before the root element of an SVG document. -/
inductive Prolog : Bytes → Prop where
  | space (b : UInt8) (h : isXmlSpace b) : Prolog [b]
  | declaration (body : Bytes) (h : ¬ ascii "?>" <:+: body) :
    Prolog (ascii "<?xml" ++ body ++ ascii "?>")
  | comment (body : Bytes) (h : ¬ ascii "--" <:+: body) :
    Prolog (ascii "<!--" ++ body ++ ascii "-->")
  /-- A document type whose internal subset, if any, is `inner`. -/
  | doctype (outer inner : Bytes) (houter : ∀ b ∈ outer, b ∉ ascii "[>")
      (hinner : inner = [] ∨ ∃ subset spaces, inner = ascii "[" ++ subset ++ ascii "]" ++ spaces ∧
        (∀ b ∈ subset, b ∉ ascii "]") ∧ ∀ b ∈ spaces, isXmlSpace b) :
    Prolog (ascii "<!DOCTYPE" ++ outer ++ inner ++ ascii ">")

/-- An optional byte-order mark, white space, declarations, comments and document types, and an
`svg` element. -/
def SvgDocument (data : Bytes) : Prop :=
  ∃ (bom : Bytes) (items : List Bytes) (b : UInt8) (rest : Bytes),
    (bom = [] ∨ bom = [0xEF, 0xBB, 0xBF]) ∧ (∀ item ∈ items, Prolog item) ∧
    (isXmlSpace b ∨ b ∈ ascii "/>") ∧
    data = bom ++ (items.flatten ++ (ascii "<svg" ++ b :: rest))

/-- The first bytes give a document away: `<svg` is among them, or they are an XML declaration. -/
def Shows (data : Bytes) : Prop :=
  ascii "<svg" <:+: lowerBytes (data.take 512) ∨
    ascii "<?xml" <+: lowerBytes ((data.take 512).dropWhile isMarkOrSpace)

/-- No element that is dropped begins a list that occurs. -/
theorem infix_dropWhile {α : Type} {p : α → Bool} {x : α} (hx : ¬ p x) {xs l : List α} :
    x :: xs <:+: l.dropWhile p ↔ x :: xs <:+: l := by
  constructor
  · exact fun h => h.trans (List.dropWhile_suffix p).isInfix
  · intro h
    induction l with
    | nil => exact h
    | cons y l ih =>
      by_cases hy : p y
      · rw [List.dropWhile_cons_of_pos hy]
        rcases List.infix_cons_iff.mp h with hbegins | hwithin
        · have hxy : x = y := (List.cons_prefix_cons.mp hbegins).1
          exact absurd (hxy ▸ hy) hx
        · exact ih hwithin
      · rw [List.dropWhile_cons_of_neg hy]
        exact h

/-- Lower-casing neither makes nor removes such a byte. -/
theorem isMarkOrSpace_lower (b : UInt8) :
    isMarkOrSpace (if 65 ≤ b ∧ b ≤ 90 then b + 32 else b) = isMarkOrSpace b := by
  by_cases h : 65 ≤ b ∧ b ≤ 90
  · rw [if_pos h]
    simp only [isMarkOrSpace, List.mem_cons, List.not_mem_nil, or_false, decide_eq_decide]
    grind
  · rw [if_neg h]

theorem looksLikeSvg_iff : looksLikeSvg data = true ↔ Shows data := by
  have hhead : lowerBytes ((data.take 512).dropWhile isMarkOrSpace) =
      (lowerBytes (data.take 512)).dropWhile isMarkOrSpace := by
    unfold lowerBytes
    rw [List.dropWhile_map]
    congr 2
    funext b
    exact (isMarkOrSpace_lower b).symm
  have hsvg : ascii "<svg" <:+: lowerBytes ((data.take 512).dropWhile isMarkOrSpace) ↔
      ascii "<svg" <:+: lowerBytes (data.take 512) := by
    rw [hhead]
    exact infix_dropWhile (by decide)
  show ((ascii "<?xml").isPrefixOf (lowerBytes ((data.take 512).dropWhile isMarkOrSpace)) ||
    (ascii "<svg").isPrefixOf (lowerBytes ((data.take 512).dropWhile isMarkOrSpace)) ||
    decide (ascii "<svg" <:+: lowerBytes ((data.take 512).dropWhile isMarkOrSpace))) = true ↔ _
  unfold Shows
  rw [Bool.or_eq_true, Bool.or_eq_true, List.isPrefixOf_iff_prefix, List.isPrefixOf_iff_prefix,
    decide_eq_true_eq, ← hsvg]
  constructor
  · rintro ((hxml | hbegins) | hwithin)
    · exact .inr hxml
    · exact .inl hbegins.isInfix
    · exact .inl hwithin
  · rintro (hwithin | hxml)
    · exact .inr hwithin
    · exact .inl (.inl hxml)

/-! ### What the sniffer says -/

/-- The bytes that an SVG document may begin with. -/
def beginsSvg (b : UInt8) : Bool := b ∈ ([0xEF, 0x20, 0x09, 0x0D, 0x0A, 0x3C] : Bytes)

theorem beginsSvg_of_space {b : UInt8} (h : isXmlSpace b) : beginsSvg b := by
  simp only [isXmlSpace, beginsSvg, decide_eq_true_eq, List.mem_cons, List.not_mem_nil,
    or_false] at h ⊢
  tauto

theorem Prolog.head {item : Bytes} (h : Prolog item) : ∃ b rest, item = b :: rest ∧ beginsSvg b := by
  cases h with
  | space b h => exact ⟨b, [], rfl, beginsSvg_of_space h⟩
  | declaration body h => exact ⟨60, _, rfl, by decide⟩
  | comment body h => exact ⟨60, _, rfl, by decide⟩
  | doctype outer inner houter hinner => exact ⟨60, _, rfl, by decide⟩

theorem SvgDocument.head (h : SvgDocument data) : ∃ b rest, data = b :: rest ∧ beginsSvg b := by
  obtain ⟨bom, items, b, rest, hbom, hitems, -, rfl⟩ := h
  rcases hbom with rfl | rfl
  · cases items with
    | nil => exact ⟨60, _, rfl, by decide⟩
    | cons item items =>
      obtain ⟨b', rest', rfl, hb'⟩ := (hitems item List.mem_cons_self).head
      exact ⟨b', _, rfl, hb'⟩
  · exact ⟨0xEF, _, rfl, by decide⟩

/-- An SVG document is sniffed as a video, as a document, or not at all. -/
theorem sniff_of_svg (h : SvgDocument data) : sniffContentType data =
    if Mp4Brand data then some "video/mp4".toList
    else if looksLikeSvg data then some "image/svg+xml".toList else none := by
  obtain ⟨b, rest, rfl, hb⟩ := h.head
  obtain ⟨hpng, hjpeg, hgif, hwebp, hwebm⟩ :
      0x89 ≠ b ∧ 0xFF ≠ b ∧ 71 ≠ b ∧ 82 ≠ b ∧ 0x1A ≠ b := by
    simp only [beginsSvg, decide_eq_true_eq, List.mem_cons, List.not_mem_nil, or_false] at hb
    rcases hb with rfl | rfl | rfl | rfl | rfl | rfl <;> decide
  have hother : ∀ {x : UInt8} {xs : Bytes}, x ≠ b → (x :: xs).isPrefixOf (b :: rest) = false := by
    intro x xs hne
    rw [List.isPrefixOf, beq_eq_false_iff_ne.mpr hne, Bool.false_and]
  have hriff : ¬ ((b :: rest).length ≥ 12 ∧ (b :: rest).take 4 = ascii "RIFF" ∧
      ((b :: rest).drop 8).take 4 = ascii "WEBP") := by
    intro ⟨_, htake, _⟩
    exact hwebp (List.cons.inj htake).1.symm
  unfold sniffContentType
  rw [hother hpng, hother hjpeg, if_neg hriff, hother hwebm]
  have hgif87 : (ascii "GIF87a").isPrefixOf (b :: rest) = false := hother hgif
  have hgif89 : (ascii "GIF89a").isPrefixOf (b :: rest) = false := hother hgif
  rw [hgif87, hgif89]
  rfl

/-- An image signature is sniffed as an image. -/
theorem sniff_of_image (h : ImageSignature data) :
    ∃ s ∈ imageContentTypes, sniffContentType data = some s := by
  unfold sniffContentType
  simp only [List.isPrefixOf_iff_prefix, Bool.or_eq_true]
  split
  · exact ⟨_, by decide, rfl⟩
  · rename_i hpng
    split
    · exact ⟨_, by decide, rfl⟩
    · rename_i hjpeg
      split
      · exact ⟨_, by decide, rfl⟩
      · rename_i hgif
        have hwebp : data.length ≥ 12 ∧ data.take 4 = ascii "RIFF" ∧
            (data.drop 8).take 4 = ascii "WEBP" := by
          rcases h with h | h | h | h | ⟨hriff, hwebp⟩
          · exact absurd h hpng
          · exact absurd h hjpeg
          · exact absurd (.inl h) hgif
          · exact absurd (.inr h) hgif
          · have hlen := hwebp.length_le
            rw [List.length_drop, show (ascii "WEBP").length = 4 from rfl] at hlen
            exact ⟨by omega, (List.prefix_iff_eq_take.mp hriff).symm,
              (List.prefix_iff_eq_take.mp hwebp).symm⟩
        rw [if_pos hwebp]
        exact ⟨_, by decide, rfl⟩

/-- The sniffer sees an SVG document for what it is, or for a video of another type than declared. -/
def Caught (contentType : Text) (data : Bytes) : Prop :=
  (Mp4Brand data ∧ contentType ≠ "video/mp4".toList) ∨ (¬ Mp4Brand data ∧ Shows data)

/-- An SVG document passes as a file when its type is not denied and the sniffer is not warned. -/
theorem accepts_svg (h : SvgDocument data) : Accepts lower .file ct data ↔
    data.length ≤ sizeCapBytesByKind .file ∧
      lower (strip ct) ∉ fileKindDenylistedContentTypes ∧ ¬ Caught (lower (strip ct)) data := by
  have hsniffed : (∀ s ∈ sniffContentType data, s ∉ sniffableImageTypes ∧
      (s ∈ sniffableImageOrVideoTypes → s = lower (strip ct))) ↔ ¬ Caught (lower (strip ct)) data := by
    rw [sniff_of_svg h]
    unfold Caught
    have hvideo : "video/mp4".toList ∉ sniffableImageTypes ∧
        "video/mp4".toList ∈ sniffableImageOrVideoTypes := by decide
    have himage : "image/svg+xml".toList ∈ sniffableImageTypes := by decide
    rw [← looksLikeSvg_iff]
    by_cases hmp4 : Mp4Brand data
    · rw [if_pos hmp4]
      simp only [Option.mem_some_iff, forall_eq', hvideo, hmp4, not_true_eq_false, not_false_eq_true,
        true_and, false_and, or_false, forall_const, ne_eq, not_not]
      exact eq_comm
    · rw [if_neg hmp4]
      by_cases hshows : looksLikeSvg data = true
      · rw [if_pos hshows]
        exact iff_of_false (fun hall => (hall _ rfl).1 himage)
          fun hnot => hnot (.inr ⟨hmp4, hshows⟩)
      · rw [if_neg hshows]
        refine iff_of_true (fun s hs => by cases hs) ?_
        rintro (hcaught | hcaught)
        · exact hmp4 hcaught.1
        · exact hshows hcaught.2
  constructor
  · intro haccepts
    have hfile := uploadChecks_file.mp haccepts.checks
    exact ⟨haccepts.cap, hfile.1, hsniffed.mp hfile.2⟩
  · intro hpasses
    obtain ⟨hcap, hallowed, hcaught⟩ := hpasses
    obtain ⟨b, rest, rfl, -⟩ := h.head
    exact ⟨by simp, hcap, uploadChecks_file.mpr ⟨hallowed, hsniffed.mpr hcaught⟩⟩

theorem not_accepts_image (h : ImageSignature data) : ¬ Accepts lower .file ct data := by
  intro haccepts
  obtain ⟨s, hs, hsniff⟩ := sniff_of_image h
  have hfile := (uploadChecks_file.mp haccepts.checks).2 s hsniff
  exact hfile.1 (List.mem_append_left _ hs)

/-- **No image passes as a file, and an image or a video is what it is declared as, except for SVG
documents that are not caught.** -/
theorem no_image_as_file (lower : Text → Text) (ct : Text) (data : Bytes) :
    ((Accepts lower .file ct data → ¬ ImageSignature data ∧ ¬ SvgDocument data) ∧
      ∀ kind, kind ≠ .file → Accepts lower kind ct data →
        lower (strip ct) ∈ allowedContentTypesByKind kind ∧
          sniffContentType data = some (lower (strip ct))) ↔
    (SvgDocument data → data.length ≤ sizeCapBytesByKind .file →
      lower (strip ct) ∉ fileKindDenylistedContentTypes → Caught (lower (strip ct)) data) := by
  constructor
  · intro ⟨hfile, _⟩ hsvg hcap hallowed
    by_contra hcaught
    exact (hfile ((accepts_svg hsvg).mpr ⟨hcap, hallowed, hcaught⟩)).2 hsvg
  · intro hcond
    constructor
    · intro haccepts
      constructor
      · exact fun himage => not_accepts_image himage haccepts
      · intro hsvg
        obtain ⟨hcap, hallowed, hcaught⟩ := (accepts_svg hsvg).mp haccepts
        exact hcaught (hcond hsvg hcap hallowed)
    · intro kind hkind haccepts
      exact (uploadChecks_media hkind).mp haccepts.checks

/-- An SVG document behind 512 spaces. -/
def indentedSvg : Bytes := List.replicate 512 0x20 ++ ascii "<svg/>"

/-- An SVG document that begins with a comment in the place of the box of a video. -/
def commentedSvg : Bytes := ascii "<!--ftypisom--><svg/>"

theorem svgDocument_indented : SvgDocument indentedSvg := by
  refine ⟨[], List.replicate 512 [0x20], 0x2F, [0x3E], .inl rfl, ?_, .inr (by decide), by decide +kernel⟩
  intro item hitem
  rw [List.eq_of_mem_replicate hitem]
  exact .space 0x20 (by decide)

theorem svgDocument_commented : SvgDocument commentedSvg := by
  refine ⟨[], [ascii "<!--ftypisom-->"], 0x2F, [0x3E], .inl rfl, ?_, .inr (by decide), by decide⟩
  intro item hitem
  rw [List.mem_singleton.mp hitem]
  exact .comment (ascii "ftypisom") (by decide)

/-- Both pass as files, the second as a video. -/
theorem hidden_svg : (¬ ∀ ct data, Accepts (List.map Char.toLower) .file ct data →
      ¬ ImageSignature data ∧ ¬ SvgDocument data) ∧
    ¬ ∀ data, Accepts (List.map Char.toLower) .file "video/mp4".toList data →
      ¬ ImageSignature data ∧ ¬ SvgDocument data := by
  constructor
  · intro h
    have haccepts : Accepts (List.map Char.toLower) .file "text/plain".toList indentedSvg :=
      ⟨by decide, by decide +kernel, by decide +kernel⟩
    exact (h _ _ haccepts).2 svgDocument_indented
  · intro h
    have haccepts : Accepts (List.map Char.toLower) .file "video/mp4".toList commentedSvg :=
      ⟨by decide, by decide, by decide +kernel⟩
    exact (h _ haccepts).2 svgDocument_commented

/-! ### Browser-active types -/

/-- A content type as a browser reads it: without parameters, white space at its ends, and case. -/
def browserType (ct : Text) : Text := (strip (ct.takeWhile (· ≠ ';'))).map Char.toLower

/-- What is relied on of `str.lower`: ASCII text is lower-cased letter by letter, and a semicolon
stays. -/
structure LowersAscii (lower : Text → Text) : Prop where
  ascii : ∀ s, (∀ c ∈ s, c.toNat < 128) → lower s = s.map Char.toLower
  semicolon : ∀ s, ';' ∈ s → ';' ∈ lower s

theorem lowersAscii_toLower : LowersAscii (List.map Char.toLower) :=
  ⟨fun _ _ => rfl, fun _ h => List.mem_map.mpr ⟨';', h, rfl⟩⟩

theorem toNat_lt_of_toLower {c : Char} (h : c.toLower.toNat < 128) : c.toNat < 128 := by
  unfold Char.toLower at h
  split at h
  · rename_i hupper
    have hle : c.toNat ≤ 90 := UInt32.le_iff_toNat_le.mp hupper.2
    omega
  · exact h

theorem denylisted_plain : ∀ s ∈ fileKindDenylistedContentTypes,
    (∀ c ∈ s, c.toNat < 128) ∧ ';' ∉ s := by
  have hall : (fileKindDenylistedContentTypes.all fun s =>
      (s.all fun c => c.toNat < 128) && !s.contains ';') = true := by decide
  intro s hs
  simpa using List.all_eq_true.mp hall s hs

/-- One letter is sniffed as nothing. -/
theorem sniff_letter : sniffContentType [0x61] = none := by decide

/-- A file of one letter passes unless its type is denied. -/
theorem accepts_letter : Accepts lower .file ct [0x61] ↔
    lower (strip ct) ∉ fileKindDenylistedContentTypes := by
  constructor
  · exact fun h => (uploadChecks_file.mp h.checks).1
  · intro h
    refine ⟨by simp, by decide, uploadChecks_file.mpr ⟨h, ?_⟩⟩
    rw [sniff_letter]
    intro s hs
    cases hs

/-- **A browser-active type is refused, whatever the bytes, exactly when it is declared without
parameters.** -/
theorem browser_active_refused (hlower : LowersAscii lower)
    (hactive : browserType ct ∈ fileKindDenylistedContentTypes) :
    (∀ data, ¬ Accepts lower .file ct data) ↔ ';' ∉ ct := by
  constructor
  · intro h hsemicolon
    have hstrip : ';' ∈ strip ct := Codec.mem_trim (p := Messages.isSpace) hsemicolon (by decide)
    refine h [0x61] (accepts_letter.mpr fun hdenied => ?_)
    exact (denylisted_plain _ hdenied).2 (hlower.semicolon _ hstrip)
  · intro hsemicolon data haccepts
    have htake : ct.takeWhile (· ≠ ';') = ct := by
      rw [List.takeWhile_eq_self_iff]
      intro c hc
      simpa using fun heq : c = ';' => hsemicolon (heq ▸ hc)
    have htype : (strip ct).map Char.toLower ∈ fileKindDenylistedContentTypes := by
      rw [browserType, htake] at hactive
      exact hactive
    have hascii : ∀ c ∈ strip ct, c.toNat < 128 := fun c hc =>
      toNat_lt_of_toLower ((denylisted_plain _ htype).1 _ (List.mem_map_of_mem hc))
    have hdenied := (uploadChecks_file.mp haccepts.checks).1
    rw [hlower.ascii _ hascii] at hdenied
    exact hdenied htype

/-- A type in capitals, between spaces. -/
theorem browser_active_refused_html :
    browserType " Text/HTML ".toList ∈ fileKindDenylistedContentTypes ∧
      ∀ data, ¬ Accepts (List.map Char.toLower) .file " Text/HTML ".toList data := by
  have hactive : browserType " Text/HTML ".toList ∈ fileKindDenylistedContentTypes := by decide
  exact ⟨hactive, (browser_active_refused lowersAscii_toLower hactive).mpr (by decide)⟩

/-- With a parameter the type passes. -/
theorem active_with_parameter : ¬ ∀ ct data,
    browserType ct ∈ fileKindDenylistedContentTypes →
      ¬ Accepts (List.map Char.toLower) .file ct data := by
  intro h
  exact h "text/html; charset=utf-8".toList [0x61] (by decide) (accepts_letter.mpr (by decide))

end Chatspace.MediaUpload
