import Chatspace.Services.Messages

/-!
# The sweep of orphaned media

* `sweepRow` — lock the row again, delete its object, delete the row;
* `sweepOrphanedMedia` — one batch, with a single commit at its end;
* `mediaOrphanSweep` — the job: the session is closed however the batch ends.

The object of an attachment is the one of its id, from which the storage key is made.
-/

namespace Chatspace.MediaSweep

open Interleave Store

structure SweepResult where
  scanned : ℕ
  purged : ℕ
  purgeFailures : ℕ
deriving DecidableEq

/-- What became of a row of the batch. -/
inductive SweptRow where
  | skipped
  | purgeFailed
  | purged
  | boundAfterLock
deriving DecidableEq

/-- `delete_object` and the failure that is caught. -/
def purgeObject (mediaId : AttachmentId) : Py Bool :=
  ((Prog.perform (Op.deleteObject mediaId)).bind fun _ => .ret true).handle fun e =>
    if e = .mediaStorageError then .ret false else .raise e

/-- `DELETE … WHERE id = mediaId AND message_id IS NULL`. -/
def deleteUnbound (mediaId : AttachmentId) : Py Bool := do
  match ← Py.sql (.lock .attachments mediaId fun a => a.messageId.isNone) with
  | none => return false
  | some _ => Py.sql (.delete .attachments mediaId)

def sweepRow (mediaId : AttachmentId) : Py SweptRow := do
  match ← Py.sql (.lock .attachments mediaId fun a => a.messageId.isNone) with
  | none => return .skipped
  | some _ =>
    if ← purgeObject mediaId then
      if ← deleteUnbound mediaId then return .purged else return .boundAfterLock
    else return .purgeFailed

def sweepOrphanedMedia (ttl : Time) (batchSize : ℕ) : Py SweepResult := do
  let now ← Prog.perform Op.utcNow
  let rows ← Py.select .attachments fun _ a => a.messageId.isNone && a.createdAt < now - ttl
  let swept ← Prog.forEach (rows.take batchSize) fun r => sweepRow r.1
  Py.commit
  return ⟨(rows.take batchSize).length, swept.count .purged, swept.count .purgeFailed⟩

/-- `async with session_factory() as db` around one batch. -/
def mediaOrphanSweep (ttl : Time) (batchSize : ℕ) : Py SweepResult :=
  Py.tryFinally (sweepOrphanedMedia ttl batchSize) Py.rollback

end Chatspace.MediaSweep
