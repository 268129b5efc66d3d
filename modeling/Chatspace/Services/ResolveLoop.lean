import Chatspace.Interleave.Play
import Chatspace.Services.Messages

/-!
# A send against any answers

One send is played against an adversary who answers every Redis command and every statement.

* `transactionOpen` — whether the session is in a transaction: every statement begins one, and a
  commit or a rollback that returns ends it;
* `Costs` — what a part of the send adds to the claims and the sleeps, never sleeping inside a
  transaction;
* `resolve_loop_discipline` — **no send sleeps inside a transaction, and the claims and the sleeps
  of a send are bounded, whatever the answers.**
-/

namespace Chatspace.Messages

open Interleave Store

abbrev History : Type := List (Reply Op Op.Res Exc)

/-- Whether the session is in a transaction after this operation. -/
def transactionAfter (isOpen : Bool) : Reply Op Op.Res Exc → Bool
  | ⟨.sql .commit, .ok _⟩ => false
  | ⟨.sql .rollback, .ok _⟩ => false
  | ⟨.sql _, _⟩ => true
  | _ => isOpen

def transactionOpen (isOpen : Bool) (hist : History) : Bool := hist.foldl transactionAfter isOpen

def isClaim : Op → Bool
  | .redisSetNx .. => true
  | _ => false

def isSleep : Op → Bool
  | .sleep => true
  | _ => false

def claims (hist : History) : ℕ := hist.countP fun reply => isClaim reply.op

def sleeps (hist : History) : ℕ := hist.countP fun reply => isSleep reply.op

/-- A send refused for what it asks. -/
def isValidation : Exc → Bool
  | .channelNotFoundError | .notChannelMemberError | .recipientNotFoundError | .selfDMError
  | .invalidContentError | .invalidMediaError => true
  | _ => false

/-- A way for a send to end with an exception: it gave up, it was refused, Redis held no id, the row
was refused, or an operation raised it. -/
def Ends (e : Exc) (hist : History) : Prop :=
  e = .idempotencyResolutionTimeoutError ∨ isValidation e ∨ e = .valueError ∨ e = .integrityError ∨
    ∃ o, ⟨o, .error e⟩ ∈ hist

/-- No sleep inside a transaction. -/
def Rested (isOpen : Bool) (past : History) (o : Op) : Prop :=
  o = .sleep → transactionOpen isOpen past = false

/-- At most `c` claims and `s` sleeps since `past`, and an exception that a send may end with. -/
structure Within {α : Type} (c s : ℕ) (past hist : History) (r : Except Exc α) : Prop where
  grows : past <+: hist
  claims : claims hist ≤ claims past + c
  sleeps : sleeps hist ≤ sleeps past + s
  ends : ∀ e, r = .error e → Ends e hist

/-- What a part of a send adds, wherever it stands. -/
def Costs {α : Type} (isOpen : Bool) (c s : ℕ) (p : Py α) : Prop :=
  ∀ past, p.Obeys (Rested isOpen) (Within c s past) past

/-! ### Histories -/

section Histories

variable {hist : History} {o : Op} {r : Except Exc o.Res} {e : Exc} {isOpen : Bool}

theorem transactionOpen_snoc : transactionOpen isOpen (hist ++ [⟨o, r⟩]) =
    transactionAfter (transactionOpen isOpen hist) ⟨o, r⟩ := by
  simp [transactionOpen]

theorem claims_snoc : claims (hist ++ [⟨o, r⟩]) = claims hist + if isClaim o then 1 else 0 := by
  simp [claims, List.countP_append, List.countP_cons]

theorem sleeps_snoc : sleeps (hist ++ [⟨o, r⟩]) = sleeps hist + if isSleep o then 1 else 0 := by
  simp [sleeps, List.countP_append, List.countP_cons]

theorem ends_answer (h : r = .error e) : Ends e (hist ++ [⟨o, r⟩]) := by
  subst h
  exact Or.inr (Or.inr (Or.inr (Or.inr ⟨o, by simp⟩)))

theorem Ends.mono {hist' : History} (h : Ends e hist) (hgrows : hist <+: hist') : Ends e hist' := by
  obtain h | h | h | h | ⟨o, h⟩ := h
  · exact Or.inl h
  · exact Or.inr (Or.inl h)
  · exact Or.inr (Or.inr (Or.inl h))
  · exact Or.inr (Or.inr (Or.inr (Or.inl h)))
  · exact Or.inr (Or.inr (Or.inr (Or.inr ⟨o, hgrows.subset h⟩)))

end Histories

/-! ### Rules -/

section Rules

variable {α β γ : Type} {isOpen : Bool} {c s c' s' : ℕ} {past hist hist' : History} {p : Py α}

theorem Within.trans {a : α} {r : Except Exc β} (h : Within c s past hist (.ok a))
    (h' : Within c' s' hist hist' r) : Within (c + c') (s + s') past hist' r := by
  have hclaims := h.claims
  have hclaims' := h'.claims
  have hsleeps := h.sleeps
  have hsleeps' := h'.sleeps
  exact ⟨h.grows.trans h'.grows, by omega, by omega, h'.ends⟩

/-- A sequence whose first part leaves `A` behind. -/
theorem obeys_bind {f : α → Py β} {A : History → Prop}
    (hp : p.Obeys (Rested isOpen) (fun hist r => Within c s past hist r ∧ A hist) past)
    (hf : ∀ a hist, A hist → (f a).Obeys (Rested isOpen) (Within c' s' hist) hist) :
    (p.bind f).Obeys (Rested isOpen) (Within (c + c') (s + s') past) past := by
  apply Prog.Obeys.bind
  refine hp.mono fun hist r hr => ?_
  obtain ⟨hwithin, hA⟩ := hr
  cases r with
  | ok a => exact (hf a hist hA).mono fun hist' r' h' => hwithin.trans h'
  | error e =>
    have hclaims := hwithin.claims
    have hsleeps := hwithin.sleeps
    refine ⟨hwithin.grows, by omega, by omega, fun e' he => ?_⟩
    cases he
    exact hwithin.ends e rfl

theorem costs_ret (a : α) : Costs isOpen 0 0 (.ret a : Py α) := by
  intro past
  exact ⟨List.prefix_rfl, le_rfl, le_rfl, fun e he => by cases he⟩

theorem obeys_raise {e : Exc} (h : Ends e past) :
    (Prog.raise e : Py α).Obeys (Rested isOpen) (Within 0 0 past) past := by
  refine ⟨List.prefix_rfl, le_rfl, le_rfl, fun e' he => ?_⟩
  cases he
  exact h

theorem costs_raise {e : Exc} (h : ∀ hist, Ends e hist) : Costs isOpen 0 0 (.raise e : Py α) := by
  intro past
  exact obeys_raise (h past)

/-- An operation that is no sleep. -/
theorem costs_perform {o : Op} (hsleep : isSleep o = false) (hclaim : isClaim o = false) :
    Costs isOpen 0 0 (Prog.perform o) := by
  intro past
  apply Prog.obeys_perform
  · rintro rfl
    cases hsleep
  · intro r
    refine ⟨List.prefix_append _ _, ?_, ?_, fun e he => ends_answer he⟩
    · rw [claims_snoc, hclaim]
      rfl
    · rw [sleeps_snoc, hsleep]
      rfl

theorem Costs.bind {f : α → Py β} (hp : Costs isOpen c s p) (hf : ∀ a, Costs isOpen c' s' (f a)) :
    Costs isOpen (c + c') (s + s') (p.bind f) := by
  intro past
  have hp' := (hp past).mono fun hist r h => (⟨h, trivial⟩ : Within c s past hist r ∧ True)
  exact obeys_bind hp' fun a hist _ => hf a hist

/-- A sequence whose first part costs nothing. -/
theorem Costs.seq {f : α → Py β} (hp : Costs isOpen 0 0 p) (hf : ∀ a, Costs isOpen c s (f a)) :
    Costs isOpen c s (p.bind f) := by
  simpa using hp.bind hf

theorem Costs.mono (h : Costs isOpen c s p) (hc : c ≤ c') (hs : s ≤ s') : Costs isOpen c' s' p := by
  intro past
  refine (h past).mono fun hist r hr => ?_
  have hclaims := hr.claims
  have hsleeps := hr.sleeps
  exact ⟨hr.grows, by omega, by omega, hr.ends⟩

theorem costs_forEach {f : γ → Py β} (hf : ∀ x, Costs isOpen 0 0 (f x)) (xs : List γ) :
    Costs isOpen 0 0 (Prog.forEach xs f) := by
  induction xs with
  | nil => exact costs_ret _
  | cons x xs ih => exact (hf x).bind fun b => ih.bind fun bs => costs_ret _

/-- A handler whose own exceptions are those the body raised. -/
theorem Costs.handle {f : Exc → Py α} (hp : Costs isOpen 0 0 p)
    (hf : ∀ e hist, Ends e hist → (f e).Obeys (Rested isOpen) (Within 0 0 hist) hist) :
    Costs isOpen 0 0 (p.handle f) := by
  intro past
  apply Prog.Obeys.handle
  refine (hp past).mono fun hist r hr => ?_
  cases r with
  | ok a => exact hr
  | error e =>
    refine (hf e hist (hr.ends e rfl)).mono fun hist' r' h' => ?_
    have hclaims := hr.claims
    have hclaims' := h'.claims
    have hsleeps := hr.sleeps
    have hsleeps' := h'.sleeps
    exact ⟨hr.grows.trans h'.grows, by omega, by omega, h'.ends⟩

/-- A sequence whose second part may look at the history. -/
theorem Costs.then {f : α → Py β} (hp : Costs isOpen 0 0 p)
    (hf : ∀ a hist, past <+: hist → (f a).Obeys (Rested isOpen) (Within 0 0 hist) hist) :
    (p.bind f).Obeys (Rested isOpen) (Within 0 0 past) past := by
  have hp' := (hp past).mono fun hist r h => (⟨h, h.grows⟩ : Within 0 0 past hist r ∧ past <+: hist)
  exact obeys_bind hp' hf

end Rules

/-! ### The parts of a send -/

section Parts

variable {isOpen : Bool}

theorem costs_sql (o : Stmt schema) : Costs isOpen 0 0 (Py.sql o) := costs_perform rfl rfl

theorem costs_loadClaimedMessageId (u : UserId) (key : Text) :
    Costs isOpen 0 0 (loadClaimedMessageId u key) := by
  refine Costs.seq (costs_perform rfl rfl) fun v => ?_
  match v with
  | none => exact costs_ret _
  | some (.uuid _) => exact costs_ret _
  | some (.text _) => exact costs_raise fun _ => Or.inr (Or.inr (Or.inl rfl))

theorem costs_getMessageMedia (m : MessageId) : Costs isOpen 0 0 (getMessageMedia m) :=
  (costs_sql _).seq fun _ => costs_ret _

theorem costs_loadMessageWithMedia (m : MessageId) : Costs isOpen 0 0 (loadMessageWithMedia m) := by
  refine Costs.seq (costs_sql _) fun message => ?_
  cases message with
  | none => exact costs_ret _
  | some message => exact (costs_getMessageMedia m).seq fun _ => costs_ret _

theorem costs_validateAndLoadMedia (ids : List AttachmentId) (u : UserId) :
    Costs isOpen 0 0 (validateAndLoadMedia ids u) := by
  unfold validateAndLoadMedia
  split
  · exact costs_ret _
  · refine Costs.seq (costs_sql _) fun found => ?_
    show Costs _ 0 0 (if _ then _ else _)
    split
    · exact costs_ret _
    · exact costs_raise fun _ => Or.inr (Or.inl rfl)

theorem costs_bindMediaAtomically (m : MessageId) (ids : List AttachmentId) (u : UserId) :
    Costs isOpen 0 0 (bindMediaAtomically m ids u) := by
  unfold bindMediaAtomically
  split
  · exact costs_ret _
  · have hupdate : Costs isOpen 0 0 (updateAttachments m ids u) := by
      refine Costs.seq (costs_sql _) fun rows => ?_
      apply costs_forEach
      intro r
      exact costs_sql _
    refine hupdate.seq fun updated => ?_
    show Costs _ 0 0 (if _ then _ else _)
    split
    · exact costs_raise fun _ => Or.inr (Or.inl rfl)
    · exact costs_getMessageMedia m

theorem costs_insertBindCommit (u : UserId) (ids : List AttachmentId) (build : Time → Message)
    (m : MessageId) : Costs isOpen 0 0 (insertBindCommit u ids build m) := by
  have hinsert : Costs isOpen 0 0 (Py.flushInsert .messages m build) := by
    refine Costs.seq (costs_sql _) fun row => ?_
    cases row with
    | none => exact costs_raise fun _ => Or.inr (Or.inr (Or.inr (Or.inl rfl)))
    | some row => exact costs_ret _
  exact hinsert.seq fun message => (costs_bindMediaAtomically m ids u).seq fun bound =>
    (costs_sql _).seq fun _ => costs_ret _

theorem costs_releaseIdempotencyKey (u : UserId) (key : Text) :
    Costs isOpen 0 0 (releaseIdempotencyKey u key) := costs_perform rfl rfl

theorem costs_persistAndPublish (u : UserId) (key : Text) (ids : List AttachmentId)
    (build : Time → Message) (m : MessageId) :
    Costs isOpen 0 0 (persistAndPublish u key ids build m) := by
  have htry : Costs isOpen 0 0 (Py.exceptException (insertBindCommit u ids build m)
      (rollbackAndRelease u key)) := by
    apply (costs_insertBindCommit u ids build m).handle
    intro e hist he
    split
    · -- the handler raises again what it caught
      refine Costs.then (costs_sql _) fun _ hist' hgrows => ?_
      refine Costs.then (costs_releaseIdempotencyKey u key) fun _ hist'' hgrows' => ?_
      exact obeys_raise ((he.mono hgrows).mono hgrows')
    · exact obeys_raise he
  have hpublish (message : MessageWithMedia) : Costs isOpen 0 0 (publishMessageCreated message) := by
    apply Costs.handle (costs_perform rfl rfl)
    intro e hist he
    split
    · exact costs_ret _ hist
    · exact obeys_raise he
  exact htry.seq fun message => (hpublish message).seq fun _ => costs_ret _

/-- An operation outside a transaction that is no statement and no claim. -/
theorem obeys_outside {o : Op} (hsql : ∀ q, o ≠ .sql q) (hclaim : isClaim o = false)
    {past : History}
    (hclosed : transactionOpen isOpen past = false) :
    (Prog.perform o).Obeys (Rested isOpen) (fun hist r =>
      Within 0 (if isSleep o then 1 else 0) past hist r ∧ transactionOpen isOpen hist = false)
      past := by
  apply Prog.obeys_perform (fun _ => hclosed)
  intro r
  refine ⟨⟨List.prefix_append _ _, ?_, ?_, fun e he => ends_answer he⟩, ?_⟩
  · rw [claims_snoc, hclaim]
    rfl
  · rw [sleeps_snoc]
  · rw [transactionOpen_snoc, hclosed]
    cases o with
    | sql q => exact absurd rfl (hsql q)
    | _ => rfl

/-- The claim is read without a statement. -/
theorem obeys_loadClaimedMessageId (u : UserId) (key : Text) {past : History}
    (hclosed : transactionOpen isOpen past = false) :
    (loadClaimedMessageId u key).Obeys (Rested isOpen)
      (fun hist r => Within 0 0 past hist r ∧ transactionOpen isOpen hist = false) past := by
  apply Prog.Obeys.bind
  refine (obeys_outside (fun q h => by cases h) rfl hclosed).mono fun hist r hr => ?_
  match r with
  | .error e => exact ⟨⟨hr.1.grows, hr.1.claims, hr.1.sleeps, fun e' he => by
      cases he
      exact hr.1.ends e rfl⟩, hr.2⟩
  | .ok none => exact ⟨⟨hr.1.grows, hr.1.claims, hr.1.sleeps, fun e' he => by cases he⟩, hr.2⟩
  | .ok (some (.uuid id)) =>
    exact ⟨⟨hr.1.grows, hr.1.claims, hr.1.sleeps, fun e' he => by cases he⟩, hr.2⟩
  | .ok (some (.text s)) => exact ⟨⟨hr.1.grows, hr.1.claims, hr.1.sleeps, fun e' he => by
      cases he
      exact Or.inr (Or.inr (Or.inl rfl))⟩, hr.2⟩

/-- The loop starts outside a transaction, and reads the database after its last sleep only. -/
theorem obeys_resolveLoop (u : UserId) (key : Text) (n : ℕ) {past : History}
    (hclosed : transactionOpen isOpen past = false) :
    (resolveLoop u key n).Obeys (Rested isOpen) (Within 0 n past) past := by
  induction n generalizing past with
  | zero => exact obeys_raise (Or.inl rfl)
  | succ n ih =>
    have hsleep : (Prog.perform Op.sleep).Obeys (Rested isOpen)
        (fun hist r => Within 0 1 past hist r ∧ transactionOpen isOpen hist = false) past :=
      obeys_outside (fun q h => by cases h) rfl hclosed
    suffices h : (resolveLoop u key (n + 1)).Obeys (Rested isOpen)
        (Within (0 + (0 + 0)) (1 + (0 + n)) past) past by
      rwa [Nat.zero_add n, Nat.add_comm 1 n] at h
    refine obeys_bind hsleep fun _ hist hslept => ?_
    refine obeys_bind (obeys_loadClaimedMessageId u key hslept) fun claimed hist' hread => ?_
    cases claimed with
    | none => exact (costs_ret _).mono le_rfl (Nat.zero_le _) hist'
    | some id =>
      show Prog.Obeys _ (if 0 < n then _ else _) _ _
      split
      · exact ih hread
      · rename_i hlast
        obtain rfl : n = 0 := by omega
        refine (Costs.seq (costs_loadMessageWithMedia id) fun loaded => ?_) hist'
        cases loaded with
        | none => exact costs_raise fun _ => Or.inl rfl
        | some m => exact costs_ret _

theorem costs_resolveExistingClaim (u : UserId) (key : Text) :
    Costs isOpen 0 (resolveMaxAttempts - 1) (resolveExistingClaim u key) := by
  refine Costs.seq (costs_loadClaimedMessageId u key) fun claimed => ?_
  cases claimed with
  | none => exact (costs_ret _).mono le_rfl (Nat.zero_le _)
  | some id =>
    refine Costs.seq (costs_loadMessageWithMedia id) fun loaded => ?_
    cases loaded with
    | some m => exact (costs_ret _).mono le_rfl (Nat.zero_le _)
    | none =>
      -- the rollback ends the transaction before the first sleep, or raises
      intro past
      apply Prog.Obeys.bind
      apply Prog.obeys_perform (fun h => by cases h)
      intro r
      cases r with
      | error e =>
        refine ⟨List.prefix_append _ _, ?_, ?_, fun e' he => ?_⟩
        · exact (claims_snoc).le
        · exact (sleeps_snoc).le.trans (Nat.le_add_right _ _)
        · cases he
          exact ends_answer rfl
      | ok _ =>
        have hclosed : transactionOpen isOpen (past ++ [⟨.sql .rollback, .ok ()⟩]) = false := by
          rw [transactionOpen_snoc]
          rfl
        refine (obeys_resolveLoop u key _ hclosed).mono fun hist r hr => ?_
        have hclaims := hr.claims
        have hsleeps := hr.sleeps
        rw [claims_snoc] at hclaims
        rw [sleeps_snoc] at hsleeps
        exact ⟨(List.prefix_append _ _).trans hr.grows, hclaims, hsleeps, hr.ends⟩

theorem costs_claimRounds (u : UserId) (key : Text) (ids : List AttachmentId)
    (build : Time → Message) (m : MessageId) (n : ℕ) :
    Costs isOpen n (n * (resolveMaxAttempts - 1)) (claimRounds u key ids build m n) := by
  induction n with
  | zero => exact (costs_raise fun _ => Or.inl rfl).mono le_rfl (Nat.zero_le _)
  | succ n ih =>
    have hclaim : Costs isOpen 1 0 (claimIdempotencyKey u key m) := by
      intro past
      apply Prog.obeys_perform (fun h => by cases h)
      intro r
      exact ⟨List.prefix_append _ _, (claims_snoc).le, (sleeps_snoc).le, fun e he => ends_answer he⟩
    suffices h : Costs isOpen (1 + (0 + n))
        (0 + ((resolveMaxAttempts - 1) + n * (resolveMaxAttempts - 1)))
        (claimRounds u key ids build m (n + 1)) from
      h.mono (by omega) (by rw [Nat.succ_mul]; omega)
    refine hclaim.bind fun claimed => ?_
    show Costs _ _ _ (if _ then _ else _)
    split
    · exact (costs_persistAndPublish u key ids build m).mono (Nat.zero_le _) (Nat.zero_le _)
    · refine (costs_resolveExistingClaim u key).bind fun resolved => ?_
      cases resolved with
      | some message => exact (costs_ret _).mono (Nat.zero_le _) (Nat.zero_le _)
      | none => exact ih

theorem costs_claimAndPersistMessage (u : UserId) (key : Text) (ids : List AttachmentId)
    (build : Time → Message) : Costs isOpen claimMaxRounds (claimMaxRounds * (resolveMaxAttempts - 1))
      (claimAndPersistMessage u key ids build) :=
  (costs_perform rfl rfl).seq fun m => costs_claimRounds u key ids build m claimMaxRounds

/-- A send: what a replay costs, the checks, and the claim rounds. -/
theorem costs_send {u : UserId} {key : Text} {rest : Py SendMessageResult}
    (hrest : Costs isOpen claimMaxRounds (claimMaxRounds * (resolveMaxAttempts - 1)) rest)
    {f : Option MessageWithMedia → Py SendMessageResult} (hnone : f none = rest)
    (hsome : ∀ m, f (some m) = .ret ⟨m, false⟩) :
    Costs isOpen claimMaxRounds ((claimMaxRounds + 1) * (resolveMaxAttempts - 1))
      ((resolveExistingClaim u key).bind f) := by
  have hbind : Costs isOpen (0 + claimMaxRounds)
      (resolveMaxAttempts - 1 + claimMaxRounds * (resolveMaxAttempts - 1))
      ((resolveExistingClaim u key).bind f) := by
    refine (costs_resolveExistingClaim u key).bind fun resolved => ?_
    cases resolved with
    | none =>
      rw [hnone]
      exact hrest
    | some m =>
      rw [hsome]
      exact (costs_ret _).mono (Nat.zero_le _) (Nat.zero_le _)
  exact hbind.mono (by omega) (by rw [Nat.succ_mul]; omega)

theorem costs_ensureChannelAndMembership (channelId : ChannelId) (u : UserId) :
    Costs isOpen 0 0 (ensureChannelAndMembership channelId u) := by
  refine Costs.seq (costs_sql _) fun channel => ?_
  cases channel with
  | none => exact costs_raise fun _ => Or.inr (Or.inl rfl)
  | some channel =>
    refine Costs.seq (costs_sql _) fun membership => ?_
    cases membership with
    | none => exact costs_raise fun _ => Or.inr (Or.inl rfl)
    | some membership => exact costs_ret _

theorem costs_ensureActiveRecipientExists (recipientId : UserId) :
    Costs isOpen 0 0 (ensureActiveRecipientExists recipientId) := by
  refine Costs.seq (costs_sql _) fun recipient => ?_
  cases recipient with
  | none => exact costs_raise fun _ => Or.inr (Or.inl rfl)
  | some recipient =>
    show Costs _ 0 0 (if _ then _ else _)
    split
    · exact costs_ret _
    · exact costs_raise fun _ => Or.inr (Or.inl rfl)

theorem costs_rejectSelfDm (recipientId u : UserId) : Costs isOpen 0 0 (rejectSelfDm recipientId u) := by
  unfold rejectSelfDm
  split
  · exact costs_raise fun _ => Or.inr (Or.inl rfl)
  · exact costs_ret _

/-- The content check, the media check and the claim rounds. -/
theorem costs_checked (u : UserId) (key content : Text) (ids : List AttachmentId)
    (build : Time → Message) :
    Costs isOpen claimMaxRounds (claimMaxRounds * (resolveMaxAttempts - 1))
      (if !isValidContent content then .raise .invalidContentError
        else (validateAndLoadMedia ids u).bind fun _ => claimAndPersistMessage u key ids build) := by
  split
  · exact (costs_raise fun _ => Or.inr (Or.inl rfl)).mono (Nat.zero_le _) (Nat.zero_le _)
  · exact (costs_validateAndLoadMedia ids u).seq fun _ => costs_claimAndPersistMessage u key ids build

theorem costs_sendChannelMessage (channelId : ChannelId) (u : UserId) (content : Text)
    (ids : List AttachmentId) (key : Text) :
    Costs isOpen claimMaxRounds ((claimMaxRounds + 1) * (resolveMaxAttempts - 1))
      (sendChannelMessage channelId u content ids key) :=
  costs_send ((costs_ensureChannelAndMembership channelId u).seq fun _ =>
    costs_checked u key content ids _) rfl fun _ => rfl

theorem costs_sendDmMessage (recipientId u : UserId) (content : Text) (ids : List AttachmentId)
    (key : Text) :
    Costs isOpen claimMaxRounds ((claimMaxRounds + 1) * (resolveMaxAttempts - 1))
      (sendDmMessage recipientId u content ids key) :=
  costs_send ((costs_rejectSelfDm recipientId u).seq fun _ =>
    (costs_ensureActiveRecipientExists recipientId).seq fun _ =>
      costs_checked u key content ids _) rfl fun _ => rfl

end Parts

/-- What holds of a send, whatever the answers and whether or not the session is in a transaction
when it begins. -/
def Disciplined (send : Py SendMessageResult) : Prop :=
  ∀ (adversary : Prog.Adversary Op Op.Res Exc) (isOpen : Bool),
    (∀ before reply after, (send.play adversary []).1 = before ++ reply :: after →
      reply.op = .sleep → transactionOpen isOpen before = false) ∧
    claims (send.play adversary []).1 ≤ claimMaxRounds ∧
    sleeps (send.play adversary []).1 ≤ (claimMaxRounds + 1) * (resolveMaxAttempts - 1) ∧
    ∀ e, (send.play adversary []).2 = .error e → Ends e (send.play adversary []).1

theorem disciplined_of_costs {send : Py SendMessageResult}
    (h : ∀ isOpen, Costs isOpen claimMaxRounds ((claimMaxRounds + 1) * (resolveMaxAttempts - 1)) send) :
    Disciplined send := by
  intro adversary isOpen
  obtain ⟨hok, hwithin⟩ := (h isOpen []).play adversary
  refine ⟨fun before reply after heq => hok before reply after heq (Nat.zero_le _), ?_, ?_, hwithin.ends⟩
  · simpa [claims] using hwithin.claims
  · simpa [sleeps] using hwithin.sleeps

/-- **No send sleeps inside a transaction; it claims and sleeps a bounded number of times, and ends
with a message, by giving up, refused, or by an error of Redis or of the database.** -/
theorem resolve_loop_discipline (target u : UserId) (content : Text) (ids : List AttachmentId)
    (key : Text) : Disciplined (sendChannelMessage target u content ids key) ∧
      Disciplined (sendDmMessage target u content ids key) :=
  ⟨disciplined_of_costs fun _ => costs_sendChannelMessage target u content ids key,
    disciplined_of_costs fun _ => costs_sendDmMessage target u content ids key⟩

end Chatspace.Messages
