import Chatspace.Core.MediaValidation
import Chatspace.Reactive.Runs
import Chatspace.Services.TextChecks
import Mathlib.Data.Rat.Defs

/-!
# `hooks/useMediaUploads.ts` in `components/chat/MessageComposer.tsx`

The composer with its uploads and the calls of `onSend` it has made.  What the user does is done to
what is rendered; the state updaters of React run in the order in which they are queued.  The ids of
`generateClientId` and the media ids of the server are new.

* `addFiles`, `removeAttachment`, `retryAttachment`, `reset`, `runUpload` — the hook;
* `canSubmit`, `submit`, `settle` — the composer;
* `Inv` — what ties the rows to the uploads and the sends;
* `composer_sends` — **what is sent is what is shown, whole and once.**
-/

namespace Chatspace.Frontend.MediaUploads

open Codec TextChecks Reactive

structure File where
  name : Text
  size : ℕ
  contentType : Text
deriving DecidableEq

/-! ### `utils/mediaValidation.ts` -/

def inferMediaKind (contentType : Text) : AttachmentKind :=
  if contentType ∈ imageContentTypes then .image
  else if contentType ∈ videoContentTypes then .video
  else .file

/-- `formatBytes(sizeCapBytes(kind))`. -/
def formattedCap : AttachmentKind → Text
  | .image => "10 MB".toList
  | .file => "50 MB".toList
  | .video => "200 MB".toList

def preflightSizeError (file : File) (kind : AttachmentKind) : Option Text :=
  if file.size > sizeCapBytesByKind kind then
    some ('"' :: (file.name ++ ("\" is too large (max ".toList ++ (formattedCap kind ++
      (" for ".toList ++ (kind.value ++ ").".toList))))))
  else none

def preflightTypeError (file : File) (kind : AttachmentKind) : Option Text :=
  if kind = .image ∧ file.contentType ∉ imageContentTypes then
    some ('"' :: (file.name ++ "\" is not a supported image type (png, jpeg, gif, webp).".toList))
  else if kind = .video ∧ file.contentType ∉ videoContentTypes then
    some ('"' :: (file.name ++ "\" is not a supported video type (mp4, webm).".toList))
  else none

/-- The kind that is inferred of a file passes the check of its type. -/
theorem preflightTypeError_inferred (file : File) :
    preflightTypeError file (inferMediaKind file.contentType) = none := by
  unfold preflightTypeError inferMediaKind
  split_ifs <;> simp_all

/-! ### The hook -/

inductive Status where
  | uploading
  | done
  | error
deriving DecidableEq

structure PendingAttachment where
  id : Text
  file : File
  kind : AttachmentKind
  status : Status
  progress : ℚ
  mediaId : Option Text
  error : Option Text
  retryAfterSeconds : Option ℕ
deriving DecidableEq

inductive Outcome where
  | pending
  | stored (mediaId : Text)
  | failed
deriving DecidableEq

/-- A call of `runUpload`. -/
structure Upload where
  id : Text
  file : File
  outcome : Outcome
deriving DecidableEq

/-- A call of `onSend`, with the files that were shown, and whether it has returned or thrown. -/
structure Send where
  content : Text
  mediaIds : List Text
  files : List File
  returned : Option Bool
deriving DecidableEq

structure Composer where
  attachments : List PendingAttachment
  filesById : List (Text × File)
  content : Text
  isSubmitting : Bool
  disabled : Bool
  uploads : List Upload
  /-- What `generateClientId` has returned. -/
  generated : List Text
  sends : List Send
deriving DecidableEq

/-- The composer is mounted. -/
def mounted : Composer := ⟨[], [], [], false, false, [], [], []⟩

/-- `setAttachments((prev) => prev.map((a) => (a.id === id ? f(a) : a)))`. -/
def modifyAttachment (attachments : List PendingAttachment) (id : Text)
    (f : PendingAttachment → PendingAttachment) : List PendingAttachment :=
  attachments.map fun a => if a.id = id then f a else a

def PendingAttachment.isDone (a : PendingAttachment) (mediaId : Text) : PendingAttachment :=
  { a with status := .done, progress := 1, mediaId := some mediaId, error := none }

def PendingAttachment.isFailed (a : PendingAttachment) (detail : Text)
    (retryAfterSeconds : Option ℕ) : PendingAttachment :=
  { a with
    status := .error
    error := some detail
    retryAfterSeconds := retryAfterSeconds }

def PendingAttachment.restarted (a : PendingAttachment) : PendingAttachment :=
  { a with status := .uploading, progress := 0, error := none }

/-- The row of a file that is added. -/
def newAttachment (id : Text) (file : File) : PendingAttachment :=
  let kind := inferMediaKind file.contentType
  match (preflightSizeError file kind).or (preflightTypeError file kind) with
  | some preflightError => ⟨id, file, kind, .error, 0, none, some preflightError, none⟩
  | none => ⟨id, file, kind, .uploading, 0, none, none, none⟩

namespace Composer

variable (s : Composer)

def runUpload (id : Text) (file : File) : Composer :=
  { s with uploads := s.uploads ++ [⟨id, file, .pending⟩] }

def addFile (id : Text) (file : File) : Composer :=
  let s := { s with
    filesById := s.filesById ++ [(id, file)]
    attachments := s.attachments ++ [newAttachment id file]
    generated := s.generated ++ [id] }
  if (newAttachment id file).status = .uploading then s.runUpload id file else s

/-- `addFiles`, with the ids that are generated. -/
def addFiles (files : List (Text × File)) : Composer := files.foldl (fun s f => s.addFile f.1 f.2) s

def removeAttachment (id : Text) : Composer :=
  { s with
    filesById := s.filesById.filter fun f => f.1 ≠ id
    attachments := s.attachments.filter fun a => a.id ≠ id }

def retryAttachment (id : Text) : Composer :=
  match s.filesById.lookup id with
  | none => s
  | some file =>
    let attachments := modifyAttachment s.attachments id PendingAttachment.restarted
    { s with attachments }.runUpload id file

def reset : Composer := { s with filesById := [], attachments := [] }

def isUploading : Bool := s.attachments.any fun a => a.status = .uploading

def hasError : Bool := s.attachments.any fun a => a.status = .error

def readyMediaIds : List Text :=
  (s.attachments.filter fun a => a.status = .done && a.mediaId.isSome).filterMap
    PendingAttachment.mediaId

/-! ### The composer -/

def canSubmit : Bool :=
  !s.disabled && !s.isSubmitting && !s.isUploading && !s.hasError &&
    0 < jsLength (trim jsWhitespace s.content) && jsLength s.content ≤ messageMaxLength

/-- `submit()` up to its `await`. -/
def submit : Composer :=
  { s with
    isSubmitting := true
    sends := s.sends ++
      [⟨s.content, s.readyMediaIds, s.attachments.map PendingAttachment.file, none⟩] }

/-- The call that has not come back has. -/
def settleSends (returned : Bool) : List Send :=
  s.sends.map fun send =>
    if send.returned = none then { send with returned := some returned } else send

/-- `submit()` after its `await`: `onSend` has returned, or thrown. -/
def settle (returned : Bool) : Composer :=
  let s := { s with sends := s.settleSends returned }
  let s := if returned then { s with content := [] }.reset else s
  { s with isSubmitting := false }

/-- The inputs are enabled. -/
def enabled : Bool := !(s.disabled || s.isSubmitting)

/-- The media ids the server has given. -/
def stored : List Text :=
  s.uploads.filterMap fun u =>
    match u.outcome with
    | .stored mediaId => some mediaId
    | _ => none

def settleUpload (k : ℕ) (u : Upload) (outcome : Outcome)
    (f : PendingAttachment → PendingAttachment) : Composer :=
  { s with
    uploads := s.uploads.set k { u with outcome }
    attachments := modifyAttachment s.attachments u.id f }

end Composer

inductive Event where
  | addFiles (files : List (Text × File))
  | progress (k : ℕ) (fraction : ℚ)
  | stored (k : ℕ) (mediaId : Text)
  | failed (k : ℕ) (detail : Text) (retryAfterSeconds : Option ℕ)
  | remove (id : Text)
  | retry (id : Text)
  | setContent (content : Text)
  | setDisabled (disabled : Bool)
  | submit
  | settle (returned : Bool)
deriving DecidableEq

/-- What happens; `none` where it cannot. -/
def step (s : Composer) : Event → Option Composer
  | .addFiles files =>
    if s.enabled ∧ files ≠ [] ∧ (s.generated ++ files.map Prod.fst).Nodup then
      some (s.addFiles files)
    else none
  | .progress k fraction =>
    match s.uploads[k]? with
    | some ⟨id, _, .pending⟩ =>
      if 0 ≤ fraction ∧ fraction ≤ 1 then
        let f (a : PendingAttachment) := { a with progress := fraction }
        some { s with attachments := modifyAttachment s.attachments id f }
      else none
    | _ => none
  | .stored k mediaId =>
    match s.uploads[k]? with
    | some ⟨id, file, .pending⟩ =>
      if mediaId ∉ s.stored then
        some (s.settleUpload k ⟨id, file, .pending⟩ (.stored mediaId) fun a => a.isDone mediaId)
      else none
    | _ => none
  | .failed k detail retryAfterSeconds =>
    match s.uploads[k]? with
    | some ⟨id, file, .pending⟩ =>
      some (s.settleUpload k ⟨id, file, .pending⟩ .failed fun a =>
        a.isFailed detail retryAfterSeconds)
    | _ => none
  -- the buttons of a row that is shown
  | .remove id =>
    if s.attachments.any fun a => a.id = id then some (s.removeAttachment id) else none
  | .retry id =>
    if s.attachments.any fun a => a.id = id && a.status = .error then some (s.retryAttachment id)
    else none
  | .setContent content => if s.enabled then some { s with content } else none
  | .setDisabled disabled => some { s with disabled }
  | .submit => if s.canSubmit then some s.submit else none
  | .settle returned => if s.isSubmitting then some (s.settle returned) else none

/-! ### Rows and uploads -/

/-- The upload is one of `id`, and has not come back. -/
def Upload.isPendingOf (id : Text) (u : Upload) : Bool := u.id = id && u.outcome = .pending

/-- What ties a row to the uploads: one of it is under way where the row says so, and none
elsewhere; and its media id is what the server gave for its file. -/
structure Row (uploads : List Upload) (a : PendingAttachment) : Prop where
  kind : a.kind = inferMediaKind a.file.contentType
  file : ∀ u ∈ uploads, u.id = a.id → u.file = a.file
  pending : uploads.countP (Upload.isPendingOf a.id) = if a.status = .uploading then 1 else 0
  done : a.status = .done → ∃ m, a.mediaId = some m ∧ ⟨a.id, a.file, .stored m⟩ ∈ uploads
  undone : a.status ≠ .done → a.mediaId = none
  error : a.status = .error → a.error ≠ none

variable {s s' : Composer} {uploads : List Upload} {a : PendingAttachment} {u : Upload} {k : ℕ}
  {id : Text} {file : File} {outcome : Outcome}

theorem mem_modifyAttachment {as : List PendingAttachment}
    {f : PendingAttachment → PendingAttachment} {b : PendingAttachment} :
    b ∈ modifyAttachment as id f ↔ ∃ a ∈ as, b = if a.id = id then f a else a := by
  simp [modifyAttachment, eq_comm]

theorem map_id_modifyAttachment {as : List PendingAttachment}
    {f : PendingAttachment → PendingAttachment} (hf : ∀ a, (f a).id = a.id) :
    (modifyAttachment as id f).map PendingAttachment.id = as.map PendingAttachment.id := by
  rw [modifyAttachment, List.map_map]
  refine List.map_congr_left fun a _ => ?_
  show (if a.id = id then f a else a).id = a.id
  split
  · exact hf a
  · rfl

/-- An upload of another row. -/
theorem Row.append (h : Row uploads a) (hu : u.id ≠ a.id) : Row (uploads ++ [u]) a where
  kind := h.kind
  file v hv hid := by
    rcases List.mem_append.mp hv with hv | hv
    · exact h.file v hv hid
    · obtain rfl := List.mem_singleton.mp hv
      exact absurd hid hu
  pending := by
    have hnone : Upload.isPendingOf a.id u = false := by simp [Upload.isPendingOf, hu]
    rw [List.countP_append, List.countP_singleton, hnone]
    exact h.pending
  done hs := by
    obtain ⟨m, hm, hmem⟩ := h.done hs
    exact ⟨m, hm, List.mem_append_left _ hmem⟩
  undone := h.undone
  error := h.error

/-- What has been stored stays. -/
theorem mem_set_of_stored {m : Text} (hk : uploads[k]? = some ⟨id, file, .pending⟩)
    {id' : Text} {file' : File} (h : ⟨id', file', .stored m⟩ ∈ uploads) (v : Upload) :
    ⟨id', file', .stored m⟩ ∈ uploads.set k v := by
  obtain ⟨j, hj⟩ := List.mem_iff_getElem?.mp h
  have hne : k ≠ j := by
    rintro rfl
    cases hk.symm.trans hj
  exact List.mem_iff_getElem?.mpr ⟨j, by rw [List.getElem?_set_ne hne, hj]⟩

theorem file_set {P : Upload → Prop} (h : ∀ v ∈ uploads, P v) (hu : P u) :
    ∀ v ∈ uploads.set k u, P v := by
  intro v hv
  rcases List.mem_or_eq_of_mem_set hv with hv | rfl
  · exact h v hv
  · exact hu

/-- An upload has come back. -/
theorem countP_set_pending (hk : uploads[k]? = some ⟨id, file, .pending⟩)
    (houtcome : outcome ≠ .pending) (id' : Text) :
    (uploads.set k ⟨id, file, outcome⟩).countP (Upload.isPendingOf id') =
      uploads.countP (Upload.isPendingOf id') - if id = id' then 1 else 0 := by
  obtain ⟨hlt, hget⟩ := List.getElem?_eq_some_iff.mp hk
  have hnew : Upload.isPendingOf id' ⟨id, file, outcome⟩ = false := by
    simp [Upload.isPendingOf, houtcome]
  have hold : Upload.isPendingOf id' ⟨id, file, .pending⟩ = decide (id = id') := by
    simp [Upload.isPendingOf]
  rw [List.countP_set hlt, hget, hnew, hold]
  by_cases hid : id = id' <;> simp [hid]

theorem Row.set_other (h : Row uploads a) (hk : uploads[k]? = some ⟨id, file, .pending⟩)
    (houtcome : outcome ≠ .pending) (hid : id ≠ a.id) :
    Row (uploads.set k ⟨id, file, outcome⟩) a where
  kind := h.kind
  file := file_set h.file fun heq => absurd heq hid
  pending := by
    rw [countP_set_pending hk houtcome, if_neg hid]
    exact h.pending
  done hs := by
    obtain ⟨m, hm, hmem⟩ := h.done hs
    exact ⟨m, hm, mem_set_of_stored hk hmem _⟩
  undone := h.undone
  error := h.error

/-- The row of an upload that is under way says so. -/
theorem Row.uploading_of_pending (h : Row uploads a)
    (hk : uploads[k]? = some ⟨a.id, file, .pending⟩) : a.status = .uploading := by
  by_contra hne
  have hcount := h.pending
  rw [if_neg hne, List.countP_eq_zero] at hcount
  exact hcount _ (List.mem_of_getElem? hk) (by simp [Upload.isPendingOf])

theorem Row.set_done (h : Row uploads a) (hk : uploads[k]? = some ⟨a.id, file, .pending⟩)
    (m : Text) : Row (uploads.set k ⟨a.id, file, .stored m⟩) (a.isDone m) where
  kind := h.kind
  file := file_set h.file fun _ => h.file ⟨a.id, file, .pending⟩ (List.mem_of_getElem? hk) rfl
  pending := by
    have hstatus := h.uploading_of_pending hk
    show (uploads.set k ⟨a.id, file, .stored m⟩).countP (Upload.isPendingOf a.id) = 0
    rw [countP_set_pending hk (by simp), h.pending, hstatus]
    simp
  done _ := by
    obtain rfl : file = a.file := h.file ⟨a.id, file, .pending⟩ (List.mem_of_getElem? hk) rfl
    obtain ⟨hlt, -⟩ := List.getElem?_eq_some_iff.mp hk
    exact ⟨m, rfl, List.mem_set hlt _⟩
  undone hs := absurd rfl hs
  error hs := by cases hs

theorem Row.set_failed (h : Row uploads a) (hk : uploads[k]? = some ⟨a.id, file, .pending⟩)
    (detail : Text) (retryAfterSeconds : Option ℕ) :
    Row (uploads.set k ⟨a.id, file, .failed⟩) (a.isFailed detail retryAfterSeconds) where
  kind := h.kind
  file := file_set h.file fun _ => h.file ⟨a.id, file, .pending⟩ (List.mem_of_getElem? hk) rfl
  pending := by
    have hstatus := h.uploading_of_pending hk
    show (uploads.set k ⟨a.id, file, .failed⟩).countP (Upload.isPendingOf a.id) = 0
    rw [countP_set_pending hk (by simp), h.pending, hstatus]
    simp
  done hs := by cases hs
  undone _ := h.undone (by rw [h.uploading_of_pending hk]; decide)
  error _ := Option.some_ne_none _

theorem Row.restart (h : Row uploads a) (hs : a.status = .error) :
    Row (uploads ++ [⟨a.id, a.file, .pending⟩]) a.restarted where
  kind := h.kind
  file v hv hid := by
    rcases List.mem_append.mp hv with hv | hv
    · exact h.file v hv hid
    · rw [List.mem_singleton.mp hv]
      rfl
  pending := by
    show (uploads ++ [_]).countP (Upload.isPendingOf a.id) = 1
    rw [List.countP_append, h.pending, hs]
    simp [Upload.isPendingOf]
  done hs' := by cases hs'
  undone _ := h.undone (by rw [hs]; decide)
  error hs' := by cases hs'

/-! ### The rows of a composer -/

/-- Rows, files and uploads fit; what is not pending or stored twice. -/
structure Rows (s : Composer) : Prop where
  row : ∀ a ∈ s.attachments, Row s.uploads a
  ids : (s.attachments.map PendingAttachment.id).Nodup
  files : s.filesById = s.attachments.map fun a => (a.id, a.file)
  rowIds : ∀ a ∈ s.attachments, a.id ∈ s.generated
  uploadIds : ∀ u ∈ s.uploads, u.id ∈ s.generated
  once : ∀ u ∈ s.uploads, ∀ v ∈ s.uploads, ∀ m,
    u.outcome = .stored m → v.outcome = .stored m → u.id = v.id

theorem mem_stored {m : Text} : m ∈ s.stored ↔ ∃ u ∈ s.uploads, u.outcome = .stored m := by
  rw [Composer.stored, List.mem_filterMap]
  refine exists_congr fun u => and_congr_right fun _ => ?_
  cases u.outcome with
  | pending => simp
  | stored m' => simp
  | failed => simp

/-- The rows, their files and the uploads are all they are about. -/
theorem Rows.frame (h : Rows s) (content : Text) (isSubmitting disabled : Bool)
    (sends : List Send) : Rows { s with content, isSubmitting, disabled, sends } :=
  ⟨h.row, h.ids, h.files, h.rowIds, h.uploadIds, h.once⟩

theorem newAttachment_id : (newAttachment id file).id = id := by
  simp only [newAttachment]
  split <;> rfl

theorem newAttachment_file : (newAttachment id file).file = file := by
  simp only [newAttachment]
  split <;> rfl

theorem newAttachment_mediaId : (newAttachment id file).mediaId = none := by
  simp only [newAttachment]
  split <;> rfl

/-- The row of a new file, where no upload of its id has run before. -/
theorem row_newAttachment (hfresh : ∀ u ∈ uploads, u.id ≠ id) :
    Row (if (newAttachment id file).status = .uploading then uploads ++ [⟨id, file, .pending⟩]
      else uploads) (newAttachment id file) := by
  have hnone : uploads.countP (Upload.isPendingOf id) = 0 := by
    rw [List.countP_eq_zero]
    intro u hu
    simp [Upload.isPendingOf, hfresh u hu]
  cases hpre : (preflightSizeError file (inferMediaKind file.contentType)).or
      (preflightTypeError file (inferMediaKind file.contentType)) with
  | some preflightError =>
    simp only [newAttachment, hpre, reduceCtorEq, if_false]
    refine ⟨rfl, fun u hu hid => absurd hid (hfresh u hu), hnone, fun h => ?_, fun _ => rfl,
      fun _ => Option.some_ne_none _⟩
    cases h
  | none =>
    simp only [newAttachment, hpre, if_true]
    refine ⟨rfl, fun u hu hid => ?_, ?_, fun h => ?_, fun _ => rfl, fun h => ?_⟩
    · rcases List.mem_append.mp hu with hu | hu
      · exact absurd hid (hfresh u hu)
      · rw [List.mem_singleton.mp hu]
    · show (uploads ++ [_]).countP (Upload.isPendingOf id) = 1
      rw [List.countP_append, hnone]
      simp [Upload.isPendingOf]
    · cases h
    · cases h

theorem attachments_addFile :
    (s.addFile id file).attachments = s.attachments ++ [newAttachment id file] := by
  simp only [Composer.addFile]
  split <;> rfl

theorem generated_addFile : (s.addFile id file).generated = s.generated ++ [id] := by
  simp only [Composer.addFile]
  split <;> rfl

theorem isSubmitting_addFile : (s.addFile id file).isSubmitting = s.isSubmitting := by
  simp only [Composer.addFile]
  split <;> rfl

theorem Rows.addFile (h : Rows s) (hid : id ∉ s.generated) : Rows (s.addFile id file) := by
  have hfresh : ∀ u ∈ s.uploads, u.id ≠ id := fun u hu heq => hid (heq ▸ h.uploadIds u hu)
  have hother : ∀ a ∈ s.attachments, id ≠ a.id := fun a ha heq => hid (heq ▸ h.rowIds a ha)
  have huploads : (s.addFile id file).uploads =
      if (newAttachment id file).status = .uploading then s.uploads ++ [⟨id, file, .pending⟩]
      else s.uploads := by
    simp only [Composer.addFile]
    split <;> rfl
  have hattachments : (s.addFile id file).attachments = _ := attachments_addFile
  have hfiles : (s.addFile id file).filesById = s.filesById ++ [(id, file)] := by
    simp only [Composer.addFile]
    split <;> rfl
  have hmem : ∀ u ∈ (s.addFile id file).uploads, u ∈ s.uploads ∨ u = ⟨id, file, .pending⟩ := by
    intro u hu
    rw [huploads] at hu
    split at hu
    · simpa using hu
    · exact .inl hu
  refine ⟨fun a ha => ?_, ?_, ?_, fun a ha => ?_, fun u hu => ?_, fun u hu v hv m hum hvm => ?_⟩
  · rw [hattachments, List.mem_append, List.mem_singleton] at ha
    rw [huploads]
    rcases ha with ha | rfl
    · split
      · exact (h.row a ha).append (hother a ha)
      · exact h.row a ha
    · exact row_newAttachment hfresh
  · rw [hattachments, List.map_append, List.nodup_append]
    refine ⟨h.ids, List.nodup_singleton _, fun i hi j hj => ?_⟩
    obtain ⟨a, ha, rfl⟩ := List.mem_map.mp hi
    rw [List.map_singleton, List.mem_singleton, newAttachment_id] at hj
    exact fun heq => hother a ha (hj ▸ heq.symm)
  · rw [hattachments, hfiles, h.files, List.map_append, List.map_singleton, newAttachment_id,
      newAttachment_file]
  · rw [hattachments, List.mem_append, List.mem_singleton] at ha
    rw [generated_addFile, List.mem_append, List.mem_singleton]
    rcases ha with ha | rfl
    · exact .inl (h.rowIds a ha)
    · exact .inr newAttachment_id
  · rw [generated_addFile, List.mem_append, List.mem_singleton]
    rcases hmem u hu with hu | rfl
    · exact .inl (h.uploadIds u hu)
    · exact .inr rfl
  · rcases hmem u hu with hu | rfl
    · rcases hmem v hv with hv | rfl
      · exact h.once u hu v hv m hum hvm
      · cases hvm
    · cases hum

/-- A change of the rows of `id` that keeps them to their files. -/
theorem Rows.modify (h : Rows s) {uploads : List Upload} {f : PendingAttachment → PendingAttachment}
    (hf : ∀ a, (f a).id = a.id ∧ (f a).file = a.file)
    (hrow : ∀ a ∈ s.attachments, a.id = id → Row uploads (f a))
    (hother : ∀ a ∈ s.attachments, id ≠ a.id → Row uploads a)
    (huploads : ∀ u ∈ uploads, u.id ∈ s.generated)
    (honce : ∀ u ∈ uploads, ∀ v ∈ uploads, ∀ m,
      u.outcome = .stored m → v.outcome = .stored m → u.id = v.id) :
    Rows { s with uploads, attachments := modifyAttachment s.attachments id f } := by
  refine ⟨fun b hb => ?_, ?_, ?_, fun b hb => ?_, huploads, honce⟩
  · obtain ⟨a, ha, rfl⟩ := mem_modifyAttachment.mp hb
    split
    · exact hrow a ha ‹_›
    · exact hother a ha (Ne.symm ‹_›)
  · rw [map_id_modifyAttachment fun a => (hf a).1]
    exact h.ids
  · refine h.files.trans ?_
    rw [modifyAttachment, List.map_map]
    refine List.map_congr_left fun a _ => ?_
    show (a.id, a.file) = ((if a.id = id then f a else a).id, (if a.id = id then f a else a).file)
    split
    · rw [(hf a).1, (hf a).2]
    · rfl
  · obtain ⟨a, ha, rfl⟩ := mem_modifyAttachment.mp hb
    split
    · rw [(hf a).1]
      exact h.rowIds a ha
    · exact h.rowIds a ha

theorem Rows.settleUpload (h : Rows s) {f : PendingAttachment → PendingAttachment}
    (hk : s.uploads[k]? = some ⟨id, file, .pending⟩) (houtcome : outcome ≠ .pending)
    (hf : ∀ a, (f a).id = a.id ∧ (f a).file = a.file)
    (hrow : ∀ a, Row s.uploads a → a.id = id → Row (s.uploads.set k ⟨id, file, outcome⟩) (f a))
    (hnew : ∀ m, outcome = .stored m → m ∉ s.stored) :
    Rows (s.settleUpload k ⟨id, file, .pending⟩ outcome f) := by
  refine h.modify hf (fun a ha => hrow a (h.row a ha))
    (fun a ha hid => (h.row a ha).set_other hk houtcome hid)
    (file_set h.uploadIds (h.uploadIds ⟨id, file, .pending⟩ (List.mem_of_getElem? hk))) ?_
  intro u hu v hv m hum hvm
  rcases List.mem_or_eq_of_mem_set hu with hu | rfl
  · rcases List.mem_or_eq_of_mem_set hv with hv | rfl
    · exact h.once u hu v hv m hum hvm
    · exact absurd (mem_stored.mpr ⟨u, hu, hum⟩) (hnew m hvm)
  · rcases List.mem_or_eq_of_mem_set hv with hv | rfl
    · exact absurd (mem_stored.mpr ⟨v, hv, hvm⟩) (hnew m hum)
    · rfl

theorem Rows.removeAttachment (h : Rows s) (id : Text) : Rows (s.removeAttachment id) := by
  have hmem : ∀ a ∈ (s.removeAttachment id).attachments, a ∈ s.attachments :=
    fun a ha => List.mem_of_mem_filter ha
  refine ⟨fun a ha => h.row a (hmem a ha), ?_, ?_, fun a ha => h.rowIds a (hmem a ha),
    h.uploadIds, h.once⟩
  · exact h.ids.sublist (List.filter_sublist.map _)
  · show s.filesById.filter _ = (s.attachments.filter _).map _
    rw [h.files, List.filter_map]
    rfl

/-- The file of a row is found by its id. -/
theorem Rows.lookup (h : Rows s) (ha : a ∈ s.attachments) :
    s.filesById.lookup a.id = some a.file := by
  rw [h.files, List.lookup_eq_some_iff]
  obtain ⟨l₁, l₂, hl⟩ := List.append_of_mem ha
  refine ⟨l₁.map fun b => (b.id, b.file), l₂.map fun b => (b.id, b.file), by rw [hl]; simp, ?_⟩
  have hids := h.ids
  rw [hl, List.map_append, List.map_cons] at hids
  intro p hp
  obtain ⟨b, hb, rfl⟩ := List.mem_map.mp hp
  have hne := (List.nodup_append.mp hids).2.2 b.id (List.mem_map_of_mem hb) a.id List.mem_cons_self
  simpa using Ne.symm hne

theorem Rows.retryAttachment (h : Rows s) (ha : a ∈ s.attachments) (hs : a.status = .error) :
    Rows (s.retryAttachment a.id) := by
  have heq : ∀ b ∈ s.attachments, b.id = a.id → b = a :=
    fun b hb hid => List.inj_on_of_nodup_map h.ids hb ha hid
  have hmem : ∀ u ∈ s.uploads ++ [⟨a.id, a.file, .pending⟩],
      u ∈ s.uploads ∨ u = ⟨a.id, a.file, .pending⟩ := by
    intro u hu
    simpa using hu
  rw [Composer.retryAttachment, h.lookup ha]
  refine h.modify (fun _ => ⟨rfl, rfl⟩) (fun b hb hid => ?_)
    (fun b hb hid => (h.row b hb).append hid) (fun u hu => ?_) fun u hu v hv m hum hvm => ?_
  · obtain rfl := heq b hb hid
    exact (h.row b hb).restart hs
  · rcases hmem u hu with hu | rfl
    · exact h.uploadIds u hu
    · exact h.rowIds a ha
  · rcases hmem u hu with hu | rfl
    · rcases hmem v hv with hv | rfl
      · exact h.once u hu v hv m hum hvm
      · cases hvm
    · cases hum


/-! ### The calls of `onSend` -/

/-- The media are those the server has given for the files, one each, and the content is one the
composer lets through. -/
structure Send.Sound (uploads : List Upload) (send : Send) : Prop where
  media : List.Forall₂ (fun m file => ∃ id, ⟨id, file, .stored m⟩ ∈ uploads)
    send.mediaIds send.files
  nodup : send.mediaIds.Nodup
  content : validateMessageContent send.content = none

/-- The last call is waited for, and whatever is still shown is part of it. -/
def Waiting (s : Composer) : Prop :=
  ∃ earlier send, s.sends = earlier ++ [send] ∧ send.returned = none ∧
    (∀ x ∈ earlier, x.returned ≠ none) ∧
    ∀ a ∈ s.attachments, ∃ m ∈ send.mediaIds, a.mediaId = some m

/-- The calls are sound, no medium is in two of them once the first has succeeded, and none that has
been sent is shown. -/
structure Sends (s : Composer) : Prop where
  sound : ∀ send ∈ s.sends, send.Sound s.uploads
  apart : s.sends.Pairwise fun x y => x.returned = some true → x.mediaIds.Disjoint y.mediaIds
  spent : ∀ send ∈ s.sends, send.returned = some true →
    ∀ a ∈ s.attachments, ∀ m ∈ send.mediaIds, a.mediaId ≠ some m
  waiting : s.isSubmitting = true → Waiting s
  idle : s.isSubmitting = false → ∀ send ∈ s.sends, send.returned ≠ none

/-- What ties the rows to the uploads and the sends. -/
structure Inv (s : Composer) : Prop where
  rows : Rows s
  sends : Sends s

theorem exists_of_mem_left {α β : Type} {R : α → β → Prop} {xs : List α} {ys : List β}
    (h : List.Forall₂ R xs ys) {x : α} (hx : x ∈ xs) : ∃ y ∈ ys, R x y := by
  induction h with
  | nil => cases hx
  | @cons _ y _ ys hxy _ ih =>
    rcases List.mem_cons.mp hx with rfl | hx
    · exact ⟨y, List.mem_cons_self, hxy⟩
    · obtain ⟨z, hz, hxz⟩ := ih hx
      exact ⟨z, List.mem_cons_of_mem _ hz, hxz⟩

theorem Send.Sound.stored {send : Send} (h : send.Sound s.uploads) :
    ∀ m ∈ send.mediaIds, m ∈ s.stored := by
  intro m hm
  obtain ⟨file, -, id, hmem⟩ := exists_of_mem_left h.media hm
  exact mem_stored.mpr ⟨_, hmem, rfl⟩

/-- Rows change, and the calls do not. -/
theorem Sends.of_rows (h : Sends s) (hsends : s'.sends = s.sends)
    (hsub : s'.isSubmitting = s.isSubmitting)
    (hstored : ∀ id file m, ⟨id, file, .stored m⟩ ∈ s.uploads → ⟨id, file, .stored m⟩ ∈ s'.uploads)
    (hkeep : ∀ b ∈ s'.attachments, ∀ m, b.mediaId = some m →
      (∃ a ∈ s.attachments, a.mediaId = some m) ∨ m ∉ s.stored)
    (hwait : s.isSubmitting = true →
      ∀ b ∈ s'.attachments, ∃ a ∈ s.attachments, b.mediaId = a.mediaId) : Sends s' := by
  refine ⟨fun send hsend => ?_, ?_, fun send hsend hret b hb m hm hbm => ?_, fun hs => ?_,
    fun hs => ?_⟩
  · rw [hsends] at hsend
    have hsound := h.sound send hsend
    exact ⟨hsound.media.imp fun m file hm => hm.imp fun id hmem => hstored _ _ _ hmem,
      hsound.nodup, hsound.content⟩
  · rw [hsends]
    exact h.apart
  · rw [hsends] at hsend
    rcases hkeep b hb m hbm with ⟨a, ha, ham⟩ | hnew
    · exact h.spent send hsend hret a ha m hm ham
    · exact hnew ((h.sound send hsend).stored m hm)
  · rw [hsub] at hs
    obtain ⟨earlier, send, heq, hret, hearlier, hshown⟩ := h.waiting hs
    refine ⟨earlier, send, hsends.trans heq, hret, hearlier, fun b hb => ?_⟩
    obtain ⟨a, ha, hba⟩ := hwait hs b hb
    rw [hba]
    exact hshown a ha
  · rw [hsub] at hs
    rw [hsends]
    exact h.idle hs

theorem canSubmit_iff : s.canSubmit = true ↔ s.disabled = false ∧ s.isSubmitting = false ∧
    (∀ a ∈ s.attachments, a.status = .done) ∧ validateMessageContent s.content = none := by
  have hdone : s.isUploading = false ∧ s.hasError = false ↔
      ∀ a ∈ s.attachments, a.status = .done := by
    simp only [Composer.isUploading, Composer.hasError, List.any_eq_false, decide_eq_true_eq,
      ← forall₂_and]
    refine forall₂_congr fun a _ => ?_
    cases a.status <;> simp
  have hcontent : validateMessageContent s.content = none ↔
      0 < jsLength (trim jsWhitespace s.content) ∧ jsLength s.content ≤ messageMaxLength := by
    rw [validateMessageContent, Nat.pos_iff_ne_zero, ← not_lt]
    split_ifs <;> simp_all
  rw [hcontent, ← hdone]
  simp only [Composer.canSubmit, Bool.and_eq_true, Bool.not_eq_true', decide_eq_true_eq]
  tauto

theorem Inv.addFile (h : Inv s) (hidle : s.isSubmitting = false) (hid : id ∉ s.generated) :
    Inv (s.addFile id file) := by
  refine ⟨h.rows.addFile hid, h.sends.of_rows ?_ isSubmitting_addFile
    (fun id' file' m hmem => ?_) (fun b hb m hbm => ?_) fun hs => ?_⟩
  · simp only [Composer.addFile]
    split <;> rfl
  · simp only [Composer.addFile]
    split
    · exact List.mem_append_left _ hmem
    · exact hmem
  · rw [attachments_addFile, List.mem_append, List.mem_singleton] at hb
    rcases hb with hb | rfl
    · exact .inl ⟨b, hb, hbm⟩
    · cases newAttachment_mediaId.symm.trans hbm
  · cases hidle.symm.trans hs

theorem Inv.addFiles (h : Inv s) (hidle : s.isSubmitting = false) (files : List (Text × File))
    (hids : (s.generated ++ files.map Prod.fst).Nodup) : Inv (s.addFiles files) := by
  induction files generalizing s with
  | nil => exact h
  | cons f files ih =>
    have hf : f.1 ∉ s.generated := by
      intro hmem
      exact (List.nodup_append.mp hids).2.2 _ hmem _ List.mem_cons_self rfl
    refine ih (h.addFile hidle hf) (isSubmitting_addFile.trans hidle) ?_
    rw [generated_addFile, List.append_assoc]
    exact hids

/-- Rows of `id` change, and none of them gets a medium that is not new. -/
theorem Inv.modify (h : Inv s) {uploads : List Upload} {f : PendingAttachment → PendingAttachment}
    (hrows : Rows { s with uploads, attachments := modifyAttachment s.attachments id f })
    (hstored : ∀ id file m, ⟨id, file, .stored m⟩ ∈ s.uploads → ⟨id, file, .stored m⟩ ∈ uploads)
    (hkeep : ∀ a ∈ s.attachments, a.id = id →
      (f a).mediaId = a.mediaId ∨ a.status ≠ .done ∧ ∀ m, (f a).mediaId = some m → m ∉ s.stored) :
    Inv { s with uploads, attachments := modifyAttachment s.attachments id f } := by
  refine ⟨hrows, h.sends.of_rows rfl rfl hstored (fun b hb m hbm => ?_) fun hs b hb => ?_⟩
  · obtain ⟨a, ha, rfl⟩ := mem_modifyAttachment.mp hb
    split at hbm
    · rcases hkeep a ha ‹_› with heq | hnew
      · exact .inl ⟨a, ha, heq ▸ hbm⟩
      · exact .inr (hnew.2 m hbm)
    · exact .inl ⟨a, ha, hbm⟩
  · obtain ⟨a, ha, rfl⟩ := mem_modifyAttachment.mp hb
    refine ⟨a, ha, ?_⟩
    split
    · rcases hkeep a ha ‹_› with heq | hnew
      · exact heq
      · -- while a call is waited for every row that is shown is done
        obtain ⟨-, send, -, -, -, hshown⟩ := h.sends.waiting hs
        obtain ⟨m, -, ham⟩ := hshown a ha
        cases ((h.rows.row a ha).undone hnew.1).symm.trans ham
    · rfl

/-- What is ready where all is done: a medium for each row, in the order of the rows. -/
theorem forall₂_readyMediaIds (hrow : ∀ a ∈ s.attachments, Row s.uploads a)
    (hdone : ∀ a ∈ s.attachments, a.status = .done) :
    List.Forall₂ (fun m a => a.mediaId = some m ∧ ⟨a.id, a.file, .stored m⟩ ∈ s.uploads)
      s.readyMediaIds s.attachments := by
  rw [Composer.readyMediaIds]
  generalize s.attachments = as at hrow hdone
  induction as with
  | nil => exact .nil
  | cons a as ih =>
    rw [List.forall_mem_cons] at hrow hdone
    obtain ⟨m, hm, hmem⟩ := hrow.1.done hdone.1
    have hready : (a.status = .done && a.mediaId.isSome) = true := by
      rw [hdone.1, hm]
      rfl
    rw [List.filter_cons, if_pos hready, List.filterMap_cons_some hm]
    exact .cons ⟨hm, hmem⟩ (ih hrow.2 hdone.2)

theorem nodup_readyMediaIds (h : Rows s) (hdone : ∀ a ∈ s.attachments, a.status = .done) :
    s.readyMediaIds.Nodup := by
  have hmedia := forall₂_readyMediaIds h.row hdone
  have heq : s.readyMediaIds.map some = s.attachments.map PendingAttachment.mediaId := by
    rw [← List.forall₂_eq_eq_eq, List.forall₂_map_left_iff, List.forall₂_map_right_iff]
    exact hmedia.imp fun m a hma => hma.1.symm
  refine List.Nodup.of_map some ?_
  rw [heq]
  refine h.ids.of_map.map_on fun a ha b hb hab => List.inj_on_of_nodup_map h.ids ha hb ?_
  obtain ⟨m, -, ham, hma⟩ := exists_of_mem_left hmedia.flip ha
  obtain ⟨m', -, hbm, hmb⟩ := exists_of_mem_left hmedia.flip hb
  obtain rfl : m = m' := Option.some.inj (ham.symm.trans (hab.trans hbm))
  exact h.once _ hma _ hmb m rfl rfl

theorem Inv.submit (h : Inv s) (hcan : s.canSubmit = true) : Inv s.submit := by
  obtain ⟨-, hidle, hdone, hcontent⟩ := canSubmit_iff.mp hcan
  have hmedia := forall₂_readyMediaIds h.rows.row hdone
  have hsound : Send.Sound s.uploads
      ⟨s.content, s.readyMediaIds, s.attachments.map PendingAttachment.file, none⟩ :=
    ⟨List.forall₂_map_right_iff.mpr (hmedia.imp fun m a hma => ⟨a.id, hma.2⟩),
      nodup_readyMediaIds h.rows hdone, hcontent⟩
  refine ⟨h.rows.frame _ _ _ _, fun send hsend => ?_, ?_, fun send hsend hret => ?_, fun _ => ?_,
    fun hs => ?_⟩
  · rcases List.mem_append.mp hsend with hsend | hsend
    · exact h.sends.sound send hsend
    · rw [List.mem_singleton.mp hsend]
      exact hsound
  · refine List.pairwise_append.mpr ⟨h.sends.apart, List.pairwise_singleton _ _, ?_⟩
    intro x hx y hy hret m hmx hmy
    rw [List.mem_singleton.mp hy] at hmy
    obtain ⟨a, ha, ham, -⟩ := exists_of_mem_left hmedia hmy
    exact h.sends.spent x hx hret a ha m hmx ham
  · rcases List.mem_append.mp hsend with hsend | hsend
    · exact h.sends.spent send hsend hret
    · rw [List.mem_singleton.mp hsend] at hret
      cases hret
  · refine ⟨s.sends, _, rfl, rfl, h.sends.idle hidle, fun a ha => ?_⟩
    obtain ⟨m, hm, ham, -⟩ := exists_of_mem_left hmedia.flip ha
    exact ⟨m, hm, ham⟩
  · cases hs

/-- The one call that is waited for comes back. -/
theorem settleSends_of_waiting {earlier : List Send} {send : Send}
    (heq : s.sends = earlier ++ [send]) (hret : send.returned = none)
    (hearlier : ∀ x ∈ earlier, x.returned ≠ none) (returned : Bool) :
    s.settleSends returned = earlier ++ [{ send with returned := some returned }] := by
  rw [Composer.settleSends, heq, List.map_append, List.map_singleton, if_pos hret]
  congr 1
  exact (List.map_congr_left fun x hx => if_neg (hearlier x hx)).trans (List.map_id' earlier)

theorem Inv.settle (h : Inv s) (hsub : s.isSubmitting = true) (returned : Bool) :
    Inv (s.settle returned) := by
  obtain ⟨earlier, send, heq, hret, hearlier, hshown⟩ := h.sends.waiting hsub
  have hsends : (s.settle returned).sends =
      earlier ++ [{ send with returned := some returned }] := by
    rw [← settleSends_of_waiting heq hret hearlier]
    cases returned <;> rfl
  have huploads : (s.settle returned).uploads = s.uploads := by
    cases returned <;> rfl
  have hold : ∀ x ∈ earlier, x ∈ s.sends := fun x hx => heq ▸ List.mem_append_left _ hx
  have hlast : send ∈ s.sends := heq ▸ List.mem_append_right _ (List.mem_singleton_self _)
  have hapart := h.sends.apart
  rw [heq, List.pairwise_append] at hapart
  refine ⟨?_, fun x hx => ?_, ?_, fun x hx hxret a ha => ?_, fun hs => ?_, fun _ x hx => ?_⟩
  · cases returned with
    | false => exact h.rows.frame _ _ _ _
    | true =>
      refine ⟨fun a ha => ?_, List.nodup_nil, rfl, fun a ha => ?_, h.rows.uploadIds, h.rows.once⟩
      · cases ha
      · cases ha
  · rw [huploads]
    rw [hsends] at hx
    rcases List.mem_append.mp hx with hx | hx
    · exact h.sends.sound x (hold x hx)
    · have hsound := h.sends.sound send hlast
      rw [List.mem_singleton.mp hx]
      exact ⟨hsound.media, hsound.nodup, hsound.content⟩
  · rw [hsends, List.pairwise_append]
    refine ⟨hapart.1, List.pairwise_singleton _ _, fun x hx y hy hxret => ?_⟩
    rw [List.mem_singleton.mp hy]
    exact hapart.2.2 x hx send (List.mem_singleton_self _) hxret
  · cases returned with
    | false =>
      rw [hsends] at hx
      rcases List.mem_append.mp hx with hx | hx
      · exact h.sends.spent x (hold x hx) hxret a ha
      · rw [List.mem_singleton.mp hx] at hxret
        cases hxret
    | true => cases ha
  · cases returned <;> cases hs
  · rw [hsends] at hx
    rcases List.mem_append.mp hx with hx | hx
    · exact hearlier x hx
    · rw [List.mem_singleton.mp hx]
      exact Option.some_ne_none _

/-! ### Steps and runs -/

theorem inv_mounted : Inv mounted := by
  refine ⟨⟨?_, List.nodup_nil, rfl, ?_, ?_, ?_⟩, ?_, .nil, ?_, ?_, ?_⟩ <;> simp [mounted]

theorem Row.progress (h : Row uploads a) (fraction : ℚ) :
    Row uploads { a with progress := fraction } :=
  ⟨h.kind, h.file, h.pending, h.done, h.undone, h.error⟩

theorem inv_step (h : Inv s) {e : Event} (he : step s e = some s') : Inv s' := by
  cases e with
  | addFiles files =>
    simp only [step, Option.ite_none_right_eq_some, Option.some.injEq] at he
    obtain ⟨⟨henabled, -, hids⟩, rfl⟩ := he
    simp only [Composer.enabled, Bool.not_eq_true', Bool.or_eq_false_iff] at henabled
    exact h.addFiles henabled.2 files hids
  | progress k fraction =>
    simp only [step] at he
    split at he
    · simp only [Option.ite_none_right_eq_some, Option.some.injEq] at he
      obtain ⟨-, rfl⟩ := he
      refine h.modify (h.rows.modify (fun _ => ⟨rfl, rfl⟩)
        (fun a ha _ => (h.rows.row a ha).progress _) (fun a ha _ => h.rows.row a ha)
        h.rows.uploadIds h.rows.once) (fun _ _ _ hmem => hmem) fun _ _ _ => .inl rfl
    · cases he
  | stored k mediaId =>
    simp only [step] at he
    split at he
    · rename_i id file hk
      simp only [Option.ite_none_right_eq_some, Option.some.injEq] at he
      obtain ⟨hnew, rfl⟩ := he
      refine h.modify (h.rows.settleUpload hk (by simp) (fun _ => ⟨rfl, rfl⟩) (fun a ha hid => ?_)
        fun m hm => ?_) (fun _ _ _ hmem => mem_set_of_stored hk hmem _)
        fun a ha hid => .inr ⟨?_, ?_⟩
      · subst hid
        exact ha.set_done hk mediaId
      · cases hm
        exact hnew
      · subst hid
        rw [(h.rows.row a ha).uploading_of_pending hk]
        decide
      · intro m hm
        cases hm
        exact hnew
    · cases he
  | failed k detail retryAfterSeconds =>
    simp only [step] at he
    split at he
    · rename_i id file hk
      simp only [Option.some.injEq] at he
      subst he
      refine h.modify (h.rows.settleUpload hk (by simp) (fun _ => ⟨rfl, rfl⟩) (fun a ha hid => ?_)
        fun m hm => ?_) (fun _ _ _ hmem => mem_set_of_stored hk hmem _) fun a ha hid => .inl rfl
      · subst hid
        exact ha.set_failed hk detail retryAfterSeconds
      · cases hm
    · cases he
  | remove id =>
    simp only [step, Option.ite_none_right_eq_some, Option.some.injEq] at he
    obtain ⟨-, rfl⟩ := he
    refine ⟨h.rows.removeAttachment id, h.sends.of_rows rfl rfl (fun _ _ _ hmem => hmem)
      (fun b hb m hbm => .inl ⟨b, List.mem_of_mem_filter hb, hbm⟩)
      fun _ b hb => ⟨b, List.mem_of_mem_filter hb, rfl⟩⟩
  | retry id =>
    simp only [step, Option.ite_none_right_eq_some, Option.some.injEq, List.any_eq_true,
      Bool.and_eq_true, decide_eq_true_eq] at he
    obtain ⟨⟨a, ha, rfl, hs⟩, rfl⟩ := he
    have hrows := h.rows.retryAttachment ha hs
    rw [Composer.retryAttachment, h.rows.lookup ha] at hrows ⊢
    exact h.modify hrows (fun _ _ _ hmem => List.mem_append_left _ hmem) fun _ _ _ => .inl rfl
  | setContent content =>
    simp only [step, Option.ite_none_right_eq_some, Option.some.injEq] at he
    obtain ⟨-, rfl⟩ := he
    exact ⟨h.rows.frame _ _ _ _,
      ⟨h.sends.sound, h.sends.apart, h.sends.spent, h.sends.waiting, h.sends.idle⟩⟩
  | setDisabled disabled =>
    simp only [step, Option.some.injEq] at he
    subst he
    exact ⟨h.rows.frame _ _ _ _,
      ⟨h.sends.sound, h.sends.apart, h.sends.spent, h.sends.waiting, h.sends.idle⟩⟩
  | submit =>
    simp only [step, Option.ite_none_right_eq_some, Option.some.injEq] at he
    obtain ⟨hcan, rfl⟩ := he
    exact h.submit hcan
  | settle returned =>
    simp only [step, Option.ite_none_right_eq_some, Option.some.injEq] at he
    obtain ⟨hsub, rfl⟩ := he
    exact h.settle hsub returned

/-- What a step does to the calls of `onSend`. -/
def Calls (s : Composer) (e : Event) (s' : Composer) : Prop :=
  match e with
  | .submit => ∃ send, s'.sends = s.sends ++ [send] ∧ send.content = s.content ∧
      send.files = s.attachments.map PendingAttachment.file ∧
      send.mediaIds.map some = s.attachments.map PendingAttachment.mediaId ∧
      send.Sound s'.uploads
  | .settle true => s'.attachments = [] ∧ ∃ earlier send,
      s'.sends = earlier ++ [send] ∧ send.returned = some true ∧
        ∀ a ∈ s.attachments, ∃ m ∈ send.mediaIds, a.mediaId = some m
  | _ => True

theorem calls_submit (h : Inv s) (hcan : s.canSubmit = true) : Calls s .submit s.submit := by
  have hdone := (canSubmit_iff.mp hcan).2.2.1
  have hmedia := forall₂_readyMediaIds h.rows.row hdone
  refine ⟨_, rfl, rfl, rfl, ?_, (h.submit hcan).sends.sound _ (List.mem_append_right _ ?_)⟩
  · rw [← List.forall₂_eq_eq_eq, List.forall₂_map_left_iff, List.forall₂_map_right_iff]
    exact hmedia.imp fun m a hma => hma.1.symm
  · exact List.mem_singleton_self _

theorem calls_settle (h : Inv s) (hsub : s.isSubmitting = true) :
    Calls s (.settle true) (s.settle true) := by
  obtain ⟨earlier, send, heq, hret, hearlier, hshown⟩ := h.sends.waiting hsub
  exact ⟨rfl, earlier, _, settleSends_of_waiting heq hret hearlier true, rfl, hshown⟩

theorem inv_calls (s : Composer) (e : Event) (s' : Composer) (h : Inv s) (he : step s e = some s') :
    Inv s' ∧ Calls s e s' := by
  refine ⟨inv_step h he, ?_⟩
  cases e with
  | submit =>
    simp only [step, Option.ite_none_right_eq_some, Option.some.injEq] at he
    obtain ⟨hcan, rfl⟩ := he
    exact calls_submit h hcan
  | settle returned =>
    simp only [step, Option.ite_none_right_eq_some, Option.some.injEq] at he
    obtain ⟨hsub, rfl⟩ := he
    cases returned with
    | false => trivial
    | true => exact calls_settle h hsub
  | _ => trivial

/-- **What is sent is what is shown, whole and once.**  Every call of `onSend` carries the content
and, for the files that are shown, the media the server has given for them, one each and in order;
what a call that succeeds clears away, it has sent; no medium is in two calls of which the first has
succeeded; and a row that is shown says of its uploads what is so. -/
theorem composer_sends (es : List Event) :
    (∀ x ∈ transitions step mounted es, Calls x.1 x.2.1 x.2.2) ∧
      (last step mounted es).sends.Pairwise
        (fun x y => x.returned = some true → x.mediaIds.Disjoint y.mediaIds) ∧
      ∀ a ∈ (last step mounted es).attachments, Row (last step mounted es).uploads a := by
  have hinv : Inv (last step mounted es) :=
    last_of_inv (C := fun _ _ => True) (fun s e s' h _ he => (inv_calls s e s' h he).1) inv_mounted
      es fun _ _ => trivial
  refine ⟨?_, hinv.sends.apart, hinv.rows.row⟩
  exact transitions_of_inv (C := fun _ _ => True) (fun s e s' h _ he => inv_calls s e s' h he)
    inv_mounted es fun _ _ => trivial

end Chatspace.Frontend.MediaUploads
