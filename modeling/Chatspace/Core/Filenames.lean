import Chatspace.Codec.Text
import Chatspace.Core.MediaValidation

/-!
# The names `sanitize_filename` returns

The leading dots are dropped before the surrounding white space is, and the white space before the
name is cut to 255 characters.

* `fileSegment`, `trimmedSegment` — the last component of the raw name, without its leading dots and
  then without its surrounding spaces;
* `sanitizeFilename_eq` — the result is read off the trimmed segment;
* `filename_sanitisation` — **a name is safe, and sanitised again to itself, exactly where no dot
  leads the trimmed segment and no space is the last character that is kept.**
-/

namespace Chatspace

open Auth Codec

/-- `.replace("\\", "_").replace('"', "_")` of one character. -/
def replaceQuoted (c : Char) : Char := if c = '\\' ∨ c = '"' then '_' else c

/-- `_attachment_content_disposition`. -/
def attachmentContentDisposition (filename : Text) : Text :=
  "attachment; filename=\"".toList ++ filename.map replaceQuoted ++ "\"".toList

/-- The last component of the stripped name that is neither empty nor a dot, without its leading
dots. -/
def fileSegment (raw : Text) : Text :=
  (pathName ((strip raw).map foldSeparator)).dropWhile (· = '.')

def trimmedSegment (raw : Text) : Text := trim (· = ' ') (fileSegment raw)

theorem strip_eq_trim (s : Text) : strip s = trim Messages.isSpace s := rfl

/-! ### Characters -/

theorem safe_replaceUnsafe (c : Char) : safeFilenameChar (replaceUnsafe c) := by
  by_cases hc : safeFilenameChar c
  · simp [replaceUnsafe, hc]
  · rw [replaceUnsafe, if_neg hc]
    rfl

/-- Of the characters that are kept only the space is white. -/
theorem isSpace_of_safe {c : Char} (h : safeFilenameChar c) :
    Messages.isSpace c = decide (c = ' ') := by
  by_cases hspace : c = ' '
  · subst hspace
    rfl
  have hlt : c.toNat ≠ 32 := by
    intro h32
    exact hspace (by rw [← Char.ofNat_toNat c, h32])
  have hrange : 33 ≤ c.toNat ∧ c.toNat ≤ 122 := by
    simp only [safeFilenameChar, Bool.or_eq_true, Bool.and_eq_true, decide_eq_true_eq] at h
    rcases h with ((((((h | h) | h) | rfl) | rfl) | h) | rfl)
    · omega
    · omega
    · omega
    · decide
    · decide
    · exact absurd h hspace
    · decide
  simp only [Messages.isSpace, List.mem_cons, List.not_mem_nil, or_false, hspace, decide_false]
  simp
  omega

theorem isSpace_replaceUnsafe (c : Char) : Messages.isSpace (replaceUnsafe c) = decide (c = ' ') := by
  rw [isSpace_of_safe (safe_replaceUnsafe c)]
  by_cases hc : safeFilenameChar c
  · simp [replaceUnsafe, hc]
  · have hne : c ≠ ' ' := by
      rintro rfl
      exact hc rfl
    simp [replaceUnsafe, hc, hne]

theorem replaceUnsafe_eq {c d : Char} (hd : safeFilenameChar d) (hne : d ≠ '_') :
    replaceUnsafe c = d ↔ c = d := by
  by_cases hc : safeFilenameChar c
  · simp [replaceUnsafe, hc]
  · have hcd : c ≠ d := by
      rintro rfl
      exact hc hd
    simp [replaceUnsafe, hc, hcd, hne.symm]

/-! ### The result -/

theorem pathName_eq_nil {path : Text} (h : pathName path = []) :
    (basename path).dropWhile (· = '.') = [] := by
  have hparts : ∀ part ∈ path.splitOn '/', part = [] ∨ part = ['.'] := by
    intro part hpart
    by_contra hcon
    rw [not_or] at hcon
    have hmem : part ∈ (path.splitOn '/').filter fun part => part ≠ [] ∧ part ≠ ['.'] :=
      List.mem_filter.mpr ⟨hpart, by simpa using hcon⟩
    obtain ⟨last, hlast⟩ := List.getLast?_isSome.mpr (List.ne_nil_of_mem hmem) |> Option.isSome_iff_exists.mp
    have hne := (List.mem_filter.mp (List.mem_of_getLast? hlast)).2
    rw [pathName, hlast, Option.getD_some] at h
    simp [h] at hne
  rw [List.dropWhile_eq_nil_iff]
  intro c hc
  have htake := List.mem_reverse.mp hc
  have hne : c ≠ '/' := by simpa using List.mem_takeWhile_imp htake
  have hpath : c ∈ path := List.mem_reverse.mp ((List.takeWhile_subset _) htake)
  obtain ⟨part, hpart, hcpart⟩ := mem_splitOn hpath hne
  rcases hparts part hpart with rfl | rfl
  · cases hcpart
  · simpa using hcpart

/-- A path of one component that is not a dot is its own name. -/
theorem pathName_eq_self {path : Text} (hslash : '/' ∉ path) (hne : path ≠ []) (hdot : path ≠ ['.']) :
    pathName path = path := by
  rw [pathName, splitOn_of_not_mem hslash]
  simp [hne, hdot]

theorem length_pathName_le (path : Text) : (pathName path).length ≤ path.length := by
  rw [pathName]
  cases hlast : ((path.splitOn '/').filter fun part => part ≠ [] ∧ part ≠ ['.']).getLast? with
  | none => simp
  | some part =>
    exact length_le_of_mem_splitOn (List.mem_filter.mp (List.mem_of_getLast? hlast)).1

theorem length_trimmedSegment_le (raw : Text) :
    (trimmedSegment raw).length ≤ (strip raw).length := by
  calc (trimmedSegment raw).length ≤ (fileSegment raw).length := length_trim_le _
    _ ≤ (pathName ((strip raw).map foldSeparator)).length := (List.dropWhile_suffix _).length_le
    _ ≤ ((strip raw).map foldSeparator).length := length_pathName_le _
    _ = (strip raw).length := List.length_map _

/-- The result is read off the trimmed segment. -/
theorem sanitizeFilename_eq (raw : Text) : sanitizeFilename raw =
    if trimmedSegment raw = [] then "file".toList
    else ((trimmedSegment raw).map replaceUnsafe).take 255 := by
  have hsegment : (if pathName ((strip raw).map foldSeparator) ≠ [] then
      pathName ((strip raw).map foldSeparator) else
      basename ((strip raw).map foldSeparator)).dropWhile (· = '.') = fileSegment raw := by
    split
    · rfl
    · rename_i hname
      rw [not_not] at hname
      rw [pathName_eq_nil hname, fileSegment, hname]
      rfl
  have hstrip : strip ((fileSegment raw).map replaceUnsafe) =
      (trimmedSegment raw).map replaceUnsafe := by
    rw [strip_eq_trim, trim_map]
    simp only [isSpace_replaceUnsafe]
    rfl
  have hunfold : sanitizeFilename raw =
      (if strip ((fileSegment raw).map replaceUnsafe) = [] then "file".toList
        else strip ((fileSegment raw).map replaceUnsafe)).take 255 := by
    rw [← hsegment]
    rfl
  rw [hunfold, hstrip]
  by_cases hnil : trimmedSegment raw = []
  · simp [hnil]
  · simp [hnil]

/-! ### What always holds -/

/-- What `sanitize_filename` says of the names it returns. -/
structure SafeName (name : Text) : Prop where
  nonempty : name ≠ []
  bounded : name.length ≤ 255
  chars : ∀ c ∈ name, safeFilenameChar c
  separators : '/' ∉ name ∧ '\\' ∉ name
  dot : name.head? ≠ some '.'

section Kept

variable (raw : Text)

theorem sanitizeFilename_nonempty : sanitizeFilename raw ≠ [] := by
  rw [sanitizeFilename_eq]
  by_cases hnil : trimmedSegment raw = []
  · rw [if_pos hnil]
    decide
  · rw [if_neg hnil, ne_eq, List.take_eq_nil_iff, List.map_eq_nil_iff]
    simpa using hnil

theorem length_sanitizeFilename : (sanitizeFilename raw).length ≤ 255 := by
  rw [sanitizeFilename_eq]
  split
  · decide
  · exact List.length_take_le _ _

theorem safe_sanitizeFilename {c : Char} (hc : c ∈ sanitizeFilename raw) : safeFilenameChar c := by
  rw [sanitizeFilename_eq] at hc
  split at hc
  · have hfile : "file".toList.all safeFilenameChar = true := by decide
    exact List.all_eq_true.mp hfile c hc
  · obtain ⟨d, _, rfl⟩ := List.mem_map.mp (List.mem_of_mem_take hc)
    exact safe_replaceUnsafe d

theorem head_trimmedSegment {c : Char} (h : c ∈ (trimmedSegment raw).head?) : c ≠ ' ' := by
  simpa using trim_head h

/-- The first character is that of the trimmed segment, replaced where it is not allowed. -/
theorem head_sanitizeFilename (h : trimmedSegment raw ≠ []) :
    (sanitizeFilename raw).head? = (trimmedSegment raw).head?.map replaceUnsafe := by
  rw [sanitizeFilename_eq, if_neg h]
  cases hseg : trimmedSegment raw with
  | nil => exact absurd hseg h
  | cons c cs => simp

theorem dot_sanitizeFilename : (sanitizeFilename raw).head? = some '.' ↔
    (trimmedSegment raw).head? = some '.' := by
  by_cases hnil : trimmedSegment raw = []
  · rw [sanitizeFilename_eq, if_pos hnil, hnil]
    decide
  · rw [head_sanitizeFilename raw hnil, Option.map_eq_some_iff]
    simp [replaceUnsafe_eq (c := _) (d := '.') (by decide) (by decide)]

theorem space_sanitizeFilename : (sanitizeFilename raw).head? ≠ some ' ' := by
  by_cases hnil : trimmedSegment raw = []
  · rw [sanitizeFilename_eq, if_pos hnil]
    decide
  · rw [head_sanitizeFilename raw hnil, ne_eq, Option.map_eq_some_iff]
    rintro ⟨c, hc, hspace⟩
    exact head_trimmedSegment raw hc ((replaceUnsafe_eq (by decide) (by decide)).mp hspace)

/-- A space ends the name exactly where it is the last character that the cut keeps. -/
theorem last_sanitizeFilename : (sanitizeFilename raw).getLast? = some ' ' ↔
    255 < (trimmedSegment raw).length ∧ (trimmedSegment raw)[254]? = some ' ' := by
  by_cases hnil : trimmedSegment raw = []
  · rw [sanitizeFilename_eq, if_pos hnil, hnil]
    decide
  rw [sanitizeFilename_eq, if_neg hnil]
  by_cases hlong : 255 < (trimmedSegment raw).length
  · have hlen : (((trimmedSegment raw).map replaceUnsafe).take 255).length = 255 := by
      rw [List.length_take, List.length_map]
      omega
    rw [List.getLast?_eq_getElem?, hlen, List.getElem?_take_of_lt (by decide), List.getElem?_map,
      Option.map_eq_some_iff]
    simp [replaceUnsafe_eq (c := _) (d := ' ') (by decide) (by decide), hlong]
  · have htake : ((trimmedSegment raw).map replaceUnsafe).take 255 =
        (trimmedSegment raw).map replaceUnsafe := List.take_of_length_le (by simp; omega)
    rw [htake, List.getLast?_map, Option.map_eq_some_iff]
    constructor
    · rintro ⟨c, hc, hspace⟩
      have hcspace : c = ' ' := (replaceUnsafe_eq (by decide) (by decide)).mp hspace
      exact absurd hcspace (by simpa using trim_getLast hc)
    · exact fun h => absurd h.1 hlong

end Kept

/-! ### A second application -/

section Again

variable {name : Text}

theorem sanitizeFilename_self (h : SafeName name) (hhead : name.head? ≠ some ' ')
    (hlast : name.getLast? ≠ some ' ') : sanitizeFilename name = name := by
  have hspace : ∀ c ∈ name, Messages.isSpace c → c = ' ' := by
    intro c hc hc'
    rw [isSpace_of_safe (h.chars c hc)] at hc'
    exact of_decide_eq_true hc'
  have hstrip : strip name = name := by
    rw [strip_eq_trim]
    apply trim_eq_self
    · intro c hc hc'
      rw [hspace c (List.mem_of_mem_head? hc) hc'] at hc
      exact hhead hc
    · intro c hc hc'
      rw [hspace c (List.mem_of_mem_getLast? hc) hc'] at hc
      exact hlast hc
  have hfold : name.map foldSeparator = name := by
    conv_rhs => rw [← List.map_id name]
    apply List.map_congr_left
    intro c hc
    have hne : c ≠ '\\' := fun heq => h.separators.2 (heq ▸ hc)
    simp [foldSeparator, hne]
  have hname : pathName name = name := by
    apply pathName_eq_self h.separators.1 h.nonempty
    rintro rfl
    exact h.dot rfl
  have hsegment : fileSegment name = name := by
    rw [fileSegment, hstrip, hfold, hname]
    cases hcons : name with
    | nil => rfl
    | cons c cs =>
      apply List.dropWhile_cons_of_neg
      have hdot := h.dot
      rw [hcons] at hdot
      simpa using hdot
  have htrimmed : trimmedSegment name = name := by
    rw [trimmedSegment, hsegment]
    apply trim_eq_self
    · intro c hc hc'
      rw [of_decide_eq_true hc'] at hc
      exact hhead hc
    · intro c hc hc'
      rw [of_decide_eq_true hc'] at hc
      exact hlast hc
  have hmap : name.map replaceUnsafe = name := by
    conv_rhs => rw [← List.map_id name]
    apply List.map_congr_left
    intro c hc
    simp [replaceUnsafe, h.chars c hc]
  rw [sanitizeFilename_eq, htrimmed, if_neg h.nonempty, hmap, List.take_of_length_le h.bounded]

/-- A space at the end is stripped by the second application. -/
theorem sanitizeFilename_ne (hlast : name.getLast? = some ' ') : sanitizeFilename name ≠ name := by
  intro heq
  rw [sanitizeFilename_eq] at heq
  split at heq
  · rw [← heq] at hlast
    revert hlast
    decide
  · have hlen := congrArg List.length heq
    rw [List.length_take, List.length_map] at hlen
    have hle := length_trimmedSegment_le name
    have hlt : (strip name).length < name.length := length_trim_lt hlast (by decide)
    omega

end Again

/-- **A name is safe, and sanitised again to itself, exactly where no dot leads the trimmed segment
and no space is the last character that is kept of it.** -/
theorem filename_sanitisation (raw : Text) :
    (SafeName (sanitizeFilename raw) ∧
        sanitizeFilename (sanitizeFilename raw) = sanitizeFilename raw) ↔
      (trimmedSegment raw).head? ≠ some '.' ∧
        (255 < (trimmedSegment raw).length → (trimmedSegment raw)[254]? ≠ some ' ') := by
  have hdot := dot_sanitizeFilename raw
  have hlast := last_sanitizeFilename raw
  constructor
  · rintro ⟨hsafe, hagain⟩
    refine ⟨fun h => hsafe.dot (hdot.mpr h), fun hlong h => ?_⟩
    exact sanitizeFilename_ne (hlast.mpr ⟨hlong, h⟩) hagain
  · rintro ⟨hhead, hkept⟩
    have hsafe : SafeName (sanitizeFilename raw) :=
      { nonempty := sanitizeFilename_nonempty raw
        bounded := length_sanitizeFilename raw
        chars := fun c hc => safe_sanitizeFilename raw hc
        separators := by
          constructor
          · intro h
            exact absurd (safe_sanitizeFilename raw h) (by decide)
          · intro h
            exact absurd (safe_sanitizeFilename raw h) (by decide)
        dot := fun h => hhead (hdot.mp h) }
    refine ⟨hsafe, sanitizeFilename_self hsafe (space_sanitizeFilename raw) fun h => ?_⟩
    exact hkept (hlast.mp h).1 (hlast.mp h).2

/-- **A name that climbs a directory, and one that a second application shortens.** -/
theorem unsafe_names : sanitizeFilename "a/ ..".toList = "..".toList ∧
    sanitizeFilename (sanitizeFilename (List.replicate 254 'a' ++ " b".toList)) ≠
      sanitizeFilename (List.replicate 254 'a' ++ " b".toList) := by
  decide +kernel

/-- Nothing of a returned name is replaced in the header. -/
theorem attachmentContentDisposition_sanitize (raw : Text) :
    attachmentContentDisposition (sanitizeFilename raw) =
      "attachment; filename=\"".toList ++ sanitizeFilename raw ++ "\"".toList := by
  have hmap : (sanitizeFilename raw).map replaceQuoted = sanitizeFilename raw := by
    conv_rhs => rw [← List.map_id (sanitizeFilename raw)]
    apply List.map_congr_left
    intro c hc
    have hsafe := safe_sanitizeFilename raw hc
    have hne : ¬ (c = '\\' ∨ c = '"') := by
      rintro (rfl | rfl)
      · exact absurd hsafe (by decide)
      · exact absurd hsafe (by decide)
    rw [replaceQuoted, if_neg hne]
    rfl
  exact congrArg (fun safe => "attachment; filename=\"".toList ++ safe ++ "\"".toList) hmap

end Chatspace
