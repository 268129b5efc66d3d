import Chatspace.Core.MediaValidation
import Chatspace.Interleave.Solo

/-!
# `upload_media`

One upload, with the object storage and its database session.  Every await may be answered by an
exception, `asyncio.CancelledError` included.  A write that raises is not carried out; the deletion
of an object always is.

* `readUploadWithinLimit`, `putObject`, `deleteObject`, `uploadMedia` — the coroutines;
* `machine` — what each await does;
* `upload_atomic` — **row and object exist together, or neither, exactly when** no commit is
  cancelled and no rollback raises;
* `cancelled_commit` — a commit that is cancelled leaves an object without a row.
-/

namespace Chatspace.MediaUpload

open Interleave Auth

/-- What the awaits of an upload raise. -/
inductive UploadExc where
  | cancelledError
  | mediaStorageError
  | media (e : MediaError)
  /-- Any other `Exception`. -/
  | other (code : ℕ)
deriving DecidableEq

/-- Caught by `except Exception`. -/
def UploadExc.isException : UploadExc → Bool
  | .cancelledError => false
  | _ => true

inductive StorageKey where
  /-- `attachments/{media_id}`. -/
  | attachments (mediaId : AttachmentId)
deriving DecidableEq

structure StoredObject where
  body : List UInt8
  contentType : Text
deriving DecidableEq

/-- A row of `attachments` as `upload_media` creates it. -/
structure NewAttachment where
  id : AttachmentId
  messageId : Option MessageId
  uploaderId : UserId
  kind : AttachmentKind
  contentType : Text
  storageKey : StorageKey
  filename : Text
  byteSize : ℕ
deriving DecidableEq

/-- What an upload awaits; `add` and `generateId` are answered at once. -/
inductive Op where
  | read (size : ℕ)
  | stripExif (data : List UInt8) (contentType : Text)
  | generateId
  | s3PutObject (key : StorageKey) (body : List UInt8) (contentType : Text)
  | add (attachment : NewAttachment)
  | commit
  | rollback
  | s3DeleteObject (key : StorageKey)
  | refresh
deriving DecidableEq

abbrev Op.Res : Op → Type
  | .read _ => List UInt8
  | .stripExif .. => List UInt8
  | .generateId => AttachmentId
  | .s3PutObject .. => Unit
  | .add _ => Unit
  | .commit => Unit
  | .rollback => Unit
  | .s3DeleteObject _ => Unit
  | .refresh => Unit

abbrev Upload : Type → Type := Prog Op Op.Res UploadExc

def await (o : Op) : Upload o.Res := Prog.perform o

/-- A check that raises. -/
def check {α : Type} : Except MediaError α → Upload α
  | .ok a => .ret a
  | .error e => .raise (.media e)

/-- `_READ_CHUNK_BYTES`. -/
def readChunkBytes : ℕ := 1024 * 1024

def sizeExceeded (maxBytes : ℕ) : UploadExc :=
  .media (.mediaSizeExceededError ("upload exceeds the ".toList ++ (toString maxBytes).toList ++
    "-byte cap for this kind.".toList))

/-- The loop of `read_upload_within_limit`: every chunk but an empty one brings the total nearer
to the limit, so that many turns are enough. -/
def readChunks (maxBytes : ℕ) : ℕ → List (List UInt8) → ℕ → Upload (List UInt8)
  | 0, _, _ => .raise (sizeExceeded maxBytes)
  | turns + 1, chunks, total => do
    let chunk : List UInt8 ← await (.read readChunkBytes)
    if chunk = [] then return chunks.flatten
    else
      let total := total + chunk.length
      if total > maxBytes then .raise (sizeExceeded maxBytes)
      else readChunks maxBytes turns (chunks ++ [chunk]) total

def readUploadWithinLimit (maxBytes : ℕ) : Upload (List UInt8) :=
  readChunks maxBytes (maxBytes + 1) [] 0

def putObject (key : StorageKey) (body : List UInt8) (contentType : Text) : Upload Unit :=
  (await (.s3PutObject key body contentType)).handle fun e =>
    if e.isException then .raise .mediaStorageError else .raise e

def deleteObject (key : StorageKey) : Upload Unit :=
  (await (.s3DeleteObject key)).handle fun e =>
    if e.isException then .raise .mediaStorageError else .raise e

/-- `except Exception` of the commit. -/
def purge (storageKey : StorageKey) (e : UploadExc) : Upload Unit := do
  await .rollback
  (deleteObject storageKey).handle fun e' =>
    if e' = .mediaStorageError then .ret () else .raise e'
  .raise e

/-- The commit, and the purge of the object when it raises. -/
def commitOrPurge (storageKey : StorageKey) : Upload Unit :=
  (await .commit).handle fun e => if e.isException then purge storageKey e else .raise e

/-- `upload_media` from the checked bytes on. -/
def storeUpload (uploaderId : UserId) (kind : AttachmentKind) (declaredContentType : Text)
    (sanitizedFilename : Text) (storedBytes : List UInt8) : Upload NewAttachment := do
  let mediaId : AttachmentId ← await .generateId
  let storageKey := StorageKey.attachments mediaId
  let storedContentType :=
    if kind = .file then "application/octet-stream".toList else declaredContentType
  putObject storageKey storedBytes storedContentType
  let attachment : NewAttachment :=
    ⟨mediaId, none, uploaderId, kind, declaredContentType, storageKey, sanitizedFilename,
      storedBytes.length⟩
  await (.add attachment)
  commitOrPurge storageKey
  await .refresh
  return attachment

/-- The bytes to store: images are stripped, and must still be within their cap. -/
def strippedBytes (kind : AttachmentKind) (cap : ℕ) (declaredContentType : Text)
    (data : List UInt8) : Upload (List UInt8) :=
  if kind = .image then do
    let storedBytes : List UInt8 ← await (.stripExif data declaredContentType)
    if storedBytes.length > cap then
      .raise (.media (.mediaSizeExceededError ("stripped image exceeds the ".toList ++
        (toString cap).toList ++ "-byte cap for kind='image'.".toList)))
    else return storedBytes
  else return data

def uploadMedia (lower : Text → Text) (uploaderId : UserId)
    (declaredContentTypeRaw kindRaw filenameRaw : Text) : Upload NewAttachment := do
  let kind ← check (parseKind lower kindRaw)
  let declaredContentType := lower (strip declaredContentTypeRaw)
  let sanitizedFilename := sanitizeFilename filenameRaw
  let cap := sizeCapBytesByKind kind
  let data ← readUploadWithinLimit cap
  if data.length = 0 then
    .raise (.media (.mediaUploadEmptyError "uploaded file is empty.".toList))
  else do
    check (validateAllowlist kind declaredContentType)
    check (validateSniffMatch kind declaredContentType (sniffContentType data))
    let storedBytes ← strippedBytes kind cap declaredContentType data
    storeUpload uploaderId kind declaredContentType sanitizedFilename storedBytes

/-- How an await ends: with the bytes read or the id generated, or with an exception. -/
inductive Choice where
  | ok (bytes : List UInt8) (n : ℕ)
  | fail (e : UploadExc)
deriving DecidableEq

structure State where
  objects : StorageKey → Option StoredObject
  attachments : AttachmentId → Option NewAttachment
  /-- The row added to the session. -/
  pending : Option NewAttachment
  ids : List AttachmentId

/-- What an await does. -/
def Op.exec : (o : Op) → Choice → State → Option (Except UploadExc o.Res × State)
  | .read size, .ok bytes _, s => if bytes.length ≤ size then some (.ok bytes, s) else none
  | .stripExif .., .ok bytes _, s => some (.ok bytes, s)
  | .generateId, .ok _ n, s =>
    if n ∈ s.ids then none else some (.ok n, { s with ids := n :: s.ids })
  | .generateId, .fail _, _ => none
  | .s3PutObject key body contentType, .ok .., s =>
    some (.ok (), { s with objects := Function.update s.objects key (some ⟨body, contentType⟩) })
  | .add attachment, .ok .., s => some (.ok (), { s with pending := some attachment })
  | .add _, .fail _, _ => none
  | .commit, .ok .., s =>
    some (.ok (), { s with
      attachments := s.pending.elim s.attachments fun a =>
        Function.update s.attachments a.id (some a)
      pending := none })
  | .rollback, .ok .., s => some (.ok (), { s with pending := none })
  | .s3DeleteObject key, .ok .., s =>
    some (.ok (), { s with objects := Function.update s.objects key none })
  | .s3DeleteObject key, .fail e, s =>
    some (.error e, { s with objects := Function.update s.objects key none })
  | .refresh, .ok .., s => some (.ok (), s)
  | _, .fail e, s => some (.error e, s)

/-- The storage and the session of one upload. -/
def machine : Machine Unit Op Op.Res UploadExc Choice Empty State where
  exec _ := Op.exec
  event e := e.elim

/-! ### Row and object -/

/-- The world of one upload. -/
abbrev UploadWorld : Type := World Unit Op Op.Res UploadExc State

variable {w : UploadWorld} {s : State} {n : AttachmentId} {object row : Bool}
  {pending : Option NewAttachment} {α : Type}

/-- The upload was given that id. -/
def Generated (a : AttachmentId) (w : UploadWorld) : Prop :=
  (⟨(), .generateId, .ok a⟩ : Entry Unit Op Op.Res UploadExc) ∈ w.trace

/-- The upload's row is committed if and only if its object is in the storage. -/
def Atomic (w : UploadWorld) : Prop :=
  ∀ a, Generated a w →
    ((w.state.attachments a).isSome ↔ (w.state.objects (.attachments a)).isSome)

/-- No commit is cancelled, and no rollback raises. -/
def Uncut : Op → Choice → UploadWorld → Prop
  | .commit, c, _ => c ≠ .fail .cancelledError
  | .rollback, c, _ => ∀ e, c ≠ .fail e
  | _, _, _ => True

/-- Nothing is added to the session, and what exists was given its id. -/
structure State.Fresh (s : State) : Prop where
  pending : s.pending = none
  attachments : ∀ a, (s.attachments a).isSome → a ∈ s.ids
  objects : ∀ a, (s.objects (.attachments a)).isSome → a ∈ s.ids

/-- Before the upload has an id. -/
def Idle (w : UploadWorld) : Prop := w.state.Fresh ∧ ∀ a, ¬Generated a w

/-- The upload has the id `n`: whether its object is stored, whether its row is committed, and
what the session has to commit. -/
structure Stage (n : AttachmentId) (object row : Bool) (pending : Option NewAttachment)
    (w : UploadWorld) : Prop where
  generated : ∀ a, Generated a w ↔ a = n
  object : (w.state.objects (.attachments n)).isSome = object
  row : (w.state.attachments n).isSome = row
  pending : w.state.pending = pending

theorem Idle.atomic (h : Idle w) : Atomic w := fun a ha => absurd ha (h.2 a)

theorem Stage.atomic (h : Stage n object object pending w) : Atomic w := by
  intro a ha
  cases (h.generated a).mp ha
  rw [h.object, h.row]

theorem Stage.not_atomic (h : Stage n true false pending w) : ¬Atomic w := by
  intro hatomic
  have hn := hatomic n ((h.generated n).mpr rfl)
  rw [h.object, h.row] at hn
  exact Bool.false_ne_true (hn.mpr rfl)

/-- Only `generateId` gives an id. -/
theorem generated_after {o : Op} {r : Except UploadExc o.Res} (ho : o ≠ .generateId)
    (a : AttachmentId) : Generated a (w.after () o r s) ↔ Generated a w := by
  unfold Generated World.after
  rw [List.mem_cons]
  refine or_iff_right fun h => ho ?_
  cases h
  rfl

theorem Stage.after {o : Op} {r : Except UploadExc o.Res} {object' row' : Bool}
    {pending' : Option NewAttachment} (h : Stage n object row pending w) (ho : o ≠ .generateId)
    (hobject : (s.objects (.attachments n)).isSome = object')
    (hrow : (s.attachments n).isSome = row') (hpending : s.pending = pending') :
    Stage n object' row' pending' (w.after () o r s) :=
  ⟨fun a => (generated_after ho a).trans (h.generated a), hobject, hrow, hpending⟩

/-- The operations before the upload has an id change nothing. -/
def Early : Op → Prop
  | .read _ => True
  | .stripExif .. => True
  | _ => False

theorem Idle.early {o : Op} (ho : Early o) {c : Choice} {r : Except UploadExc o.Res} (h : Idle w)
    (hexec : machine.exec () o c w.state = some (r, s)) : Idle (w.after () o r s) := by
  have hne : o ≠ .generateId := by
    rintro rfl
    exact ho
  have hs : s = w.state := by
    cases o <;> simp only [Early] at ho <;> cases c <;> simp [machine, Op.exec] at hexec
    · exact hexec.2.2.symm
    · exact hexec.2.symm
    · exact hexec.2.symm
    · exact hexec.2.symm
  subst hs
  exact ⟨h.1, fun a ha => h.2 a ((generated_after hne a).mp ha)⟩

/-- What only reads settles. -/
theorem settles_early {p : Upload α} (hp : p.Only Early) :
    machine.Settles () Uncut Atomic Idle p fun _ => Idle := by
  apply Machine.Settles.only hp
  · intro w hw
    exact hw.atomic
  · intro o ho c w
    cases o <;> simp only [Early] at ho <;> trivial
  · intro o ho w c r s hw hexec
    exact hw.early ho hexec

theorem only_check (x : Except MediaError α) : (check x).Only Early := by
  cases x <;> trivial

theorem only_readChunks (maxBytes turns : ℕ) (chunks : List (List UInt8)) (total : ℕ) :
    (readChunks maxBytes turns chunks total).Only Early := by
  induction turns generalizing chunks total with
  | zero => trivial
  | succ turns ih =>
    apply Prog.Only.bind (Prog.only_perform (P := Early) (o := .read readChunkBytes) trivial)
    intro chunk
    split
    · trivial
    · dsimp only
      split
      · trivial
      · exact ih _ _

theorem only_strippedBytes (kind : AttachmentKind) (cap : ℕ) (contentType : Text)
    (data : List UInt8) : (strippedBytes kind cap contentType data).Only Early := by
  unfold strippedBytes
  split
  · apply Prog.Only.bind (Prog.only_perform (P := Early) (o := .stripExif data contentType) trivial)
    intro storedBytes
    split <;> trivial
  · trivial

/-- The id is new. -/
theorem settles_generateId :
    machine.Settles () Uncut Atomic Idle (await .generateId) fun n =>
      Stage n false false none := by
  apply Machine.Settles.perform
  intro w c r s hw hexec
  cases c with
  | fail e => cases hexec
  | ok bytes n =>
    simp only [machine, Op.exec] at hexec
    split at hexec
    · cases hexec
    · rename_i hn
      cases hexec
      refine ⟨trivial, ?_, ?_, ?_, hw.1.pending⟩
      · intro a
        unfold Generated World.after
        rw [List.mem_cons]
        constructor
        · rintro (h | h)
          · cases h
            rfl
          · exact absurd h (hw.2 a)
        · rintro rfl
          exact .inl rfl
      · exact Bool.eq_false_iff.mpr fun h => hn (hw.1.objects n h)
      · exact Bool.eq_false_iff.mpr fun h => hn (hw.1.attachments n h)

theorem settles_putObject (body : List UInt8) (contentType : Text) :
    machine.Settles () Uncut Atomic (Stage n false false none)
      (putObject (.attachments n) body contentType) fun _ => Stage n true false none := by
  apply Machine.Settles.call
    (B := fun r => match r with
      | .ok _ => Stage n true false none
      | .error _ => Stage n false false none)
  · intro w c r s hw hexec
    left
    cases c with
    | ok bytes m =>
      cases hexec
      exact ⟨trivial, hw.after (by simp) (by simp) hw.row hw.pending⟩
    | fail e =>
      cases hexec
      exact ⟨trivial, hw.after (by simp) hw.object hw.row hw.pending⟩
  · rintro (e | u)
    · show machine.Settles () Uncut Atomic (Stage n false false none)
        (if e.isException then .raise .mediaStorageError else .raise e) _
      split <;> exact .raise fun w => Stage.atomic
    · exact .ret fun w => id

theorem settles_add {attachment : NewAttachment} :
    machine.Settles () Uncut Atomic (Stage n true false none) (await (.add attachment)) fun _ =>
      Stage n true false (some attachment) := by
  apply Machine.Settles.perform
  intro w c r s hw hexec
  cases c with
  | fail e => cases hexec
  | ok bytes m =>
    cases hexec
    exact ⟨trivial, hw.after (by simp) hw.object hw.row rfl⟩

/-- The deletion, whatever it raises, is carried out. -/
theorem settles_deleteObject {f : UploadExc → Upload Unit}
    (hf : ∀ e, machine.Settles () Uncut Atomic (Stage n false false none) (f e) fun _ =>
      Stage n false false none) :
    machine.Settles () Uncut Atomic (Stage n true false none)
      ((deleteObject (.attachments n)).handle f) fun _ => Stage n false false none := by
  apply Machine.Settles.call (B := fun _ => Stage n false false none)
  · intro w c r s hw hexec
    left
    cases c with
    | ok bytes m =>
      cases hexec
      exact ⟨trivial, hw.after (by simp) (by simp) hw.row hw.pending⟩
    | fail e =>
      cases hexec
      exact ⟨trivial, hw.after (by simp) (by simp) hw.row hw.pending⟩
  · rintro (e | u)
    · show machine.Settles () Uncut Atomic (Stage n false false none)
        (Prog.handle (if e.isException then .raise .mediaStorageError else .raise e) f) _
      split <;> exact hf _
    · exact .ret fun w => id

/-- After the rollback the object is deleted; a rollback that raises leaves it. -/
theorem settles_purge {attachment : NewAttachment} (e : UploadExc) :
    machine.Settles () Uncut Atomic (Stage n true false (some attachment))
      (purge (.attachments n) e) fun _ => Stage n true true none := by
  apply Machine.Settles.call
    (B := fun r w => (∃ u, r = .ok u) ∧ Stage n true false none w)
  · intro w c r s hw hexec
    cases c with
    | ok bytes m =>
      cases hexec
      exact .inl ⟨nofun, ⟨_, rfl⟩, hw.after (by simp) hw.object hw.row rfl⟩
    | fail e' =>
      cases hexec
      refine .inr ⟨e', rfl, fun h => h e' rfl, ?_⟩
      exact (hw.after (o := .rollback) (by simp) hw.object hw.row hw.pending).not_atomic
  · intro r w cs x w' hw hend
    obtain ⟨⟨u, rfl⟩, hstage⟩ := hw
    have hrest : machine.Settles () Uncut Atomic (Stage n true false none)
        (Prog.bind ((deleteObject (.attachments n)).handle fun e' =>
            if e' = .mediaStorageError then .ret () else .raise e') fun _ =>
          (.raise e : Upload Unit)) fun _ => Stage n true true none := by
      refine (settles_deleteObject fun e' => ?_).bind fun _ => .raise fun w => Stage.atomic
      split
      · exact .ret fun w => id
      · exact .raise fun w => Stage.atomic
    exact hrest w cs x w' hstage hend

theorem settles_commitOrPurge {attachment : NewAttachment} (hid : attachment.id = n) :
    machine.Settles () Uncut Atomic (Stage n true false (some attachment))
      (commitOrPurge (.attachments n)) fun _ => Stage n true true none := by
  apply Machine.Settles.call
    (B := fun r w => match r with
      | .ok _ => Stage n true true none w
      | .error e => e.isException = true ∧ Stage n true false (some attachment) w)
  · intro w c r s hw hexec
    cases c with
    | ok bytes m =>
      cases hexec
      refine .inl ⟨nofun, hw.after (by simp) hw.object ?_ rfl⟩
      rw [hw.pending, ← hid]
      simp
    | fail e =>
      cases hexec
      have hstage := hw.after (o := .commit) (r := .error e) (s := w.state) (by simp) hw.object
        hw.row hw.pending
      by_cases he : e = .cancelledError
      · subst he
        exact .inr ⟨_, rfl, fun h => h rfl, hstage.not_atomic⟩
      · refine .inl ⟨fun h => he (Choice.fail.inj h), ?_, hstage⟩
        cases e <;> first | rfl | exact absurd rfl he
  · rintro (e | u)
    · show machine.Settles () Uncut Atomic
        (fun w => e.isException = true ∧ Stage n true false (some attachment) w)
        (if e.isException then purge (.attachments n) e else .raise e) _
      split
      · intro w cs x w' hw hend
        exact settles_purge e w cs x w' hw.2 hend
      · rename_i he
        exact .raise fun w hw => absurd hw.1 he
    · exact .ret fun w => id

theorem settles_refresh :
    machine.Settles () Uncut Atomic (Stage n true true none) (await .refresh) fun _ =>
      Stage n true true none := by
  apply Machine.Settles.perform
  intro w c r s hw hexec
  cases c with
  | ok bytes m =>
    cases hexec
    exact ⟨trivial, hw.after (by simp) hw.object hw.row hw.pending⟩
  | fail e =>
    cases hexec
    exact iff_of_true
      (hw.after (o := .refresh) (by simp) hw.object hw.row hw.pending).atomic trivial

theorem settles_storeUpload (uploaderId : UserId) (kind : AttachmentKind)
    (contentType filename : Text) (storedBytes : List UInt8) :
    machine.Settles () Uncut Atomic Idle
      (storeUpload uploaderId kind contentType filename storedBytes) fun _ => Atomic := by
  apply settles_generateId.bind
  intro n
  apply (settles_putObject _ _).bind
  intro _
  apply settles_add.bind
  intro _
  apply (settles_commitOrPurge (n := n) rfl).bind
  intro _
  apply settles_refresh.bind
  intro _
  exact .ret fun w => Stage.atomic

/-- An upload settles whether its row and its object exist together. -/
theorem settles_uploadMedia (lower : Text → Text) (uploaderId : UserId)
    (contentTypeRaw kindRaw filenameRaw : Text) :
    machine.Settles () Uncut Atomic Idle
      (uploadMedia lower uploaderId contentTypeRaw kindRaw filenameRaw) fun _ => Atomic := by
  apply (settles_early (only_check _)).bind
  intro kind
  apply (settles_early (only_readChunks _ _ _ _)).bind
  intro data
  split
  · exact .raise fun w => Idle.atomic
  · apply (settles_early (only_check _)).bind
    intro _
    apply (settles_early (only_check _)).bind
    intro _
    apply (settles_early (only_strippedBytes _ _ _ _)).bind
    intro storedBytes
    exact settles_storeUpload _ _ _ _ _

/-- **Upload atomicity**: however an upload ends, its row is committed if and only if its object is
stored, exactly if no commit was cancelled and no rollback raised. -/
theorem upload_atomic (lower : Text → Text) (uploaderId : UserId)
    (contentTypeRaw kindRaw filenameRaw : Text) (s : State) (hs : s.Fresh) (cs : List Choice)
    (x : Except UploadExc NewAttachment) (w : UploadWorld)
    (h : machine.Ends () (uploadMedia lower uploaderId contentTypeRaw kindRaw filenameRaw)
      ⟨s, []⟩ cs x w) :
    Atomic w ↔ machine.Along () Uncut
      (uploadMedia lower uploaderId contentTypeRaw kindRaw filenameRaw) ⟨s, []⟩ cs := by
  have hsettles := settles_uploadMedia lower uploaderId contentTypeRaw kindRaw filenameRaw
    ⟨s, []⟩ cs x w ⟨hs, fun a ha => List.not_mem_nil ha⟩ h
  cases x with
  | ok a => exact iff_of_true hsettles.2 hsettles.1
  | error e => exact hsettles

/-- User 1 uploads a file of one byte. -/
def oneByte : Upload NewAttachment :=
  uploadMedia (fun t => t) 1 "text/plain".toList "file".toList "a.txt".toList

def noUploads : State := ⟨fun _ => none, fun _ => none, none, []⟩

theorem noUploads_fresh : noUploads.Fresh := by
  refine ⟨rfl, ?_, ?_⟩
  · intro a ha
    cases ha
  · intro a ha
    cases ha

/-- The byte and the end of the stream are read, the id is 7, the object is stored and the row is
added; the commit ends so. -/
def untilCommit (c : Choice) : List Choice :=
  [.ok [65] 0, .ok [] 0, .ok [] 7, .ok [] 0, .ok [] 0, c]

/-- The entry gives out that id. -/
def givesId (a : AttachmentId) : Entry Unit Op Op.Res UploadExc → Bool
  | ⟨_, .generateId, .ok b⟩ => b = a
  | _ => false

theorem generated_of_any {a : AttachmentId} (h : w.trace.any (givesId a) = true) :
    Generated a w := by
  obtain ⟨e, he, hid⟩ := List.any_eq_true.mp h
  unfold givesId at hid
  split at hid
  · cases of_decide_eq_true hid
    exact he
  · cases hid

/-- A cancelled commit leaves the object without its row. -/
theorem cancelled_commit :
    ∃ x w, machine.Ends () oneByte ⟨noUploads, []⟩ (untilCommit (.fail .cancelledError)) x w ∧
      ¬Atomic w := by
  rcases Option.isSome_iff_exists.mp (show (machine.solo () oneByte ⟨noUploads, []⟩
    (untilCommit (.fail .cancelledError))).isSome from by decide +kernel) with ⟨⟨x, w⟩, hw⟩
  have hcut : ((machine.solo () oneByte ⟨noUploads, []⟩ (untilCommit (.fail .cancelledError))).any
      fun q => q.2.trace.any (givesId 7) && (q.2.state.attachments 7).isNone &&
        (q.2.state.objects (.attachments 7)).isSome) = true := by decide +kernel
  rw [hw, Option.any_some, Bool.and_eq_true, Bool.and_eq_true] at hcut
  obtain ⟨⟨hid, hrow⟩, hobject⟩ := hcut
  refine ⟨x, w, Machine.ends_of_solo hw, fun hatomic => ?_⟩
  have hstored := (hatomic 7 (generated_of_any hid)).mpr hobject
  rw [Option.isNone_iff_eq_none.mp hrow] at hstored
  cases hstored

/-- A commit that raises is followed by the purge. -/
theorem upload_atomic_purged :
    ∃ x w, machine.Ends () oneByte ⟨noUploads, []⟩
        (untilCommit (.fail (.other 0)) ++ [.ok [] 0, .ok [] 0]) x w ∧
      (Atomic w ↔ machine.Along () Uncut oneByte ⟨noUploads, []⟩
        (untilCommit (.fail (.other 0)) ++ [.ok [] 0, .ok [] 0])) := by
  rcases Option.isSome_iff_exists.mp (show (machine.solo () oneByte ⟨noUploads, []⟩
    (untilCommit (.fail (.other 0)) ++ [.ok [] 0, .ok [] 0])).isSome from by decide +kernel)
    with ⟨⟨x, w⟩, hw⟩
  have hend := Machine.ends_of_solo hw
  exact ⟨x, w, hend, upload_atomic _ 1 _ _ _ noUploads noUploads_fresh _ x w hend⟩

end Chatspace.MediaUpload
