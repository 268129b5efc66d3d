import Chatspace.Services.PageQueries

/-!
# Walks through the paged lists

A client starts without a cursor and follows `next_cursor` until it is null.  Every page is a page
of the keyset order in the sense of `Paging.IsPage` (`serves_of`), so the walks are exact.

* `live` — the messages of a partition that a history shows;
* `MayChange` — soft deletions, and insertions newer than the cursor;
* `pagination_walk` — **every walk ends, and returns each row that stays exactly once, in order.**
-/

namespace Chatspace

namespace PaginationWalk

open Paging Auth
open Messages (dmPair)

/-- A partition of the messages: a channel, or an unordered pair of users. -/
inductive Partition where
  | channel (channelId : ChannelId)
  | dm (callerId otherUserId : UserId)

/-- The message is in the partition. -/
def Partition.Has : Partition → Message → Prop
  | .channel channelId, m => m.target = .channel channelId
  | .dm a b, m => m.senderId = a ∧ m.target = .dm b ∨ m.senderId = b ∧ m.target = .dm a

instance (p : Partition) (m : Message) : Decidable (p.Has m) :=
  match p with
  | .channel _ => inferInstanceAs (Decidable (_ = _))
  | .dm .. => inferInstanceAs (Decidable (_ ∨ _))

/-- The history of a partition. -/
def Partition.history (p : Partition) (limit : ℕ) (db : Snapshot) (cursor : Option CursorKey) :
    Page (MessageId × Message) :=
  match p with
  | .channel channelId => getChannelMessageHistory db channelId limit cursor
  | .dm callerId otherUserId => getDmMessageHistory db callerId otherUserId limit cursor

/-- The messages of the partition that are not deleted. -/
def Partition.live (p : Partition) (db : Snapshot) : List (MessageId × Message) :=
  (db.rows .messages).filter fun m => p.Has m.2 ∧ m.2.deletedAt = none

/-- `(created_at, id)` of a message, and its place in the order. -/
def messageCursor (m : MessageId × Message) : CursorKey := ⟨m.2.createdAt, m.1⟩

def messageKey (m : MessageId × Message) : ℤ ×ₗ ℕ := (messageCursor m).position

/-- While the client holds cursor `c`, messages are soft-deleted, and messages newer than the cursor
are inserted. -/
def MayChange (c : Text) (db db' : Snapshot) : Prop :=
  ∀ key, decodeCursor c = .ok key → ∀ m ∈ db'.rows .messages,
    m ∈ db.rows .messages ∨ m.2.deletedAt ≠ none ∨ key.position < messageKey m

/-- The channels the caller is a member of, with the number of members and the caller's role. -/
def myChannels (callerId : UserId) (db : Snapshot) : List ChannelView :=
  (db.rows .channels).filterMap fun c =>
    ((db.rows .channelMembers).find? fun m => m.1 = (c.1, callerId)).map fun m =>
      ⟨c.1, c.2, (db.rows .channelMembers).countP fun m => m.1.1 = c.1, some m.2.role⟩

def channelCursor (view : ChannelView) : CursorKey := ⟨view.channel.createdAt, view.channelId⟩

def channelKey (view : ChannelView) : ℤ ×ₗ ℕ := (channelCursor view).position

/-- The users an administrator's search is for. -/
def adminUsers (env : Primitives) (q : Option Text) (statusFilter : Option AdminUserStatusFilter)
    (db : Snapshot) : List (UserId × User) :=
  (db.rows .users).filter fun u =>
    (strip (q.getD []) = [] ∨ [u.2.firstName, u.2.lastName, u.2.username, u.2.email].any fun s =>
      ilike env s (['%'] ++ escapeLike (strip (q.getD [])) ++ ['%'])) ∧
    ∀ f ∈ statusFilter, (f = .active ↔ u.2.isActive)

def userCursor (u : UserId × User) : CursorKey := ⟨u.2.createdAt, u.1⟩

def userKey (u : UserId × User) : ℤ ×ₗ ℕ := (userCursor u).position

def inviteCursor (i : InviteId × Invite) : CursorKey := ⟨i.2.createdAt, i.1⟩

def inviteKey (i : InviteId × Invite) : ℤ ×ₗ ℕ := (inviteCursor i).position

/-- The users a search of the directory is for. -/
def foundUsers (env : Primitives) (q : Text) (db : Snapshot) : List (UserId × User) :=
  (db.rows .users).filter fun u => u.2.isActive ∧
    [u.2.username, u.2.firstName, u.2.lastName].any fun s =>
      ilike env s (['%'] ++ escapeLike q ++ ['%'])

/-- Ids in ascending order. -/
def ascendingId (u : UserId × User) : ℕᵒᵈ := OrderDual.toDual u.1

/-! ### Requests -/

/-- A parser of the `cursor` parameter. -/
structure Parses (parse : Option Text → Except PaginationError (Option CursorKey)) : Prop where
  none : parse none = .ok none
  some : ∀ c key, decodeCursor c = .ok key → parse (some c) = .ok (some key)

theorem parses_parseCursor : Parses parseCursor where
  none := rfl
  some c key h := by simp [parseCursor, h, Except.map]

theorem decodeCursor_nil : decodeCursor [] = .error ⟨"cursor", "cursor must not be empty"⟩ := rfl

theorem parses_cursorKeyOf : Parses cursorKeyOf where
  none := rfl
  some c key h := by
    have hne : c ≠ [] := by
      rintro rfl
      rw [decodeCursor_nil] at h
      cases h
    simp [cursorKeyOf, hne, h, Except.map]

section Serves

variable {α κ : Type} {parse : Option Text → Except PaginationError (Option CursorKey)}
  {query : Snapshot → Option CursorKey → Page α} {rows : Snapshot → List α} {key : α → κ}
  {limit : ℕ}

/-- The key a cursor stands for, where rows are compared by `compared` of their cursor keys. -/
def positionBy (compared : CursorKey → κ) (c : Text) : Option κ :=
  (decodeCursor c).toOption.map compared

theorem decode_of_position {compared : CursorKey → κ} {c : Text} {k : κ}
    (h : positionBy compared c = some k) :
    ∃ cursor, decodeCursor c = .ok cursor ∧ compared cursor = k := by
  obtain ⟨cursor, hcursor, rfl⟩ := Option.map_eq_some_iff.mp h
  cases hdec : decodeCursor c with
  | error e =>
    rw [hdec] at hcursor
    cases hcursor
  | ok cursor' =>
    rw [hdec] at hcursor
    cases hcursor
    exact ⟨_, rfl, rfl⟩

variable [LinearOrder κ]

/-- A query that orders the rows below the cursor by their keys and paginates them serves pages. -/
theorem serves_of (compared : CursorKey → κ) (cursorKey : α → CursorKey) (hparse : Parses parse) (hlimit : 1 ≤ limit)
    (l : Snapshot → Option CursorKey → List α)
    (hquery : ∀ db c, query db c = paginateRows ((l db c).take (limit + 1)) limit cursorKey)
    (hl : ∀ db c x, x ∈ l db c ↔ x ∈ rows db ∧ Below key (c.map compared) x)
    (hd : ∀ db c, (l db c).Pairwise fun x y => key y < key x)
    (hkey : ∀ db, ∀ x ∈ rows db, (cursorKey x).WellTyped ∧ compared (cursorKey x) = key x) :
    Serves key rows (positionBy compared) (fetch parse query) := by
  have hparsed : ∀ c : Option Text, (∀ c' ∈ c, ∃ k, positionBy compared c' = some k) →
      ∃ cursor, parse c = .ok cursor ∧ c.bind (positionBy compared) = cursor.map compared := by
    intro c hc
    cases c with
    | none => exact ⟨none, hparse.none, rfl⟩
    | some c' =>
      obtain ⟨k, hk⟩ := hc c' rfl
      obtain ⟨cursor, hcursor, rfl⟩ := decode_of_position hk
      exact ⟨some cursor, hparse.some c' cursor hcursor, hk⟩
  have hpos : ∀ db, ∀ x ∈ rows db,
      positionBy compared (encodeCursor (cursorKey x)) = some (key x) := by
    intro db x hx
    obtain ⟨htyped, hcompared⟩ := hkey db x hx
    simp [positionBy, decode_encode htyped, Except.toOption, hcompared]
  constructor
  · intro db c items next hc hfetch
    obtain ⟨cursor, hcursor, hbind⟩ := hparsed c hc
    simp only [fetch, hcursor, Except.map, Except.ok.injEq, hquery] at hfetch
    have hpage := isPage_paginateRows hlimit (hl db cursor) (hd db cursor) (hpos db)
    rw [hfetch] at hpage
    rw [hbind]
    exact hpage
  · intro db c hc
    obtain ⟨cursor, hcursor, -⟩ := hparsed c hc
    exact ⟨(query db cursor).items, (query db cursor).nextCursor, by
      simp [fetch, hcursor, Except.map]⟩

/-- Over unchanging tables, such a query lists its rows. -/
theorem lists_of (compared : CursorKey → κ) (cursorKey : α → CursorKey) (hparse : Parses parse)
    (hlimit : 1 ≤ limit) (l : Snapshot → Option CursorKey → List α)
    (hquery : ∀ db c, query db c = paginateRows ((l db c).take (limit + 1)) limit cursorKey)
    (hl : ∀ db c x, x ∈ l db c ↔ x ∈ rows db ∧ Below key (c.map compared) x)
    (hd : ∀ db c, (l db c).Pairwise fun x y => key y < key x)
    (hkey : ∀ db, ∀ x ∈ rows db, (cursorKey x).WellTyped ∧ compared (cursorKey x) = key x)
    (hnodup : ∀ db, (rows db).Nodup) : Lists key rows (fetch parse query) :=
  lists_of_serves (serves_of compared cursorKey hparse hlimit l hquery hl hd hkey) hnodup

variable {createdAtCol : α → ℤ} {idCol : α → ℕ}

theorem keysetPredicate_iff {createdAt : ℤ} {id : ℕ} {c : CursorKey} :
    keysetPredicate createdAt id c ↔ (CursorKey.mk createdAt id).position < c.position := by
  rw [CursorKey.position, CursorKey.position, Prod.Lex.toLex_lt_toLex]
  simp [keysetPredicate]

theorem mem_applyKeyset_below {stmt : List α} {cursor : Option CursorKey} {x : α} :
    x ∈ applyKeyset stmt createdAtCol idCol cursor ↔ x ∈ stmt ∧
      Below (fun x => (CursorKey.mk (createdAtCol x) (idCol x)).position)
        (cursor.map CursorKey.position) x := by
  rw [mem_applyKeyset]
  refine and_congr_right fun _ => ?_
  cases cursor with
  | none => simp [Below]
  | some c => simp [below_some, keysetPredicate_iff]

end Serves

/-- The ids of the rows of a table are distinct. -/
theorem pairwise_id {κ ρ : Type} {rows : List (κ × ρ)} (h : (rows.map Prod.fst).Nodup)
    (p : κ × ρ → Bool) : (rows.filter p).Pairwise fun x y => x.1 ≠ y.1 :=
  (List.pairwise_map.mp h).filter p

/-! ### Message histories -/

variable {limit : ℕ}

theorem min_max_iff {a b m n : ℕ} :
    min m n = min a b ∧ max m n = max a b ↔ m = a ∧ n = b ∨ m = b ∧ n = a := by omega

theorem dmPair_eq (a b : UserId) : dmPair a b = (min a b, max a b) := by
  unfold dmPair
  split
  · rename_i h
    rw [min_eq_left h, max_eq_right h]
  · rename_i h
    rw [min_eq_right (le_of_not_ge h), max_eq_left (le_of_not_ge h)]

theorem dmPair_iff {a b sender recipient : UserId} :
    min sender recipient = (dmPair a b).1 ∧ max sender recipient = (dmPair a b).2 ↔
      sender = a ∧ recipient = b ∨ sender = b ∧ recipient = a := by
  rw [dmPair_eq]
  exact min_max_iff

/-- Both histories paginate the live messages of their partition. -/
theorem history_eq (p : Partition) (db : Snapshot) (cursor : Option CursorKey) :
    p.history limit db cursor =
      paginateRows ((applyKeyset (p.live db) (fun m => m.2.createdAt) (fun m => m.1) cursor).take
        (limit + 1)) limit fun m => ⟨m.2.createdAt, m.1⟩ := by
  cases p with
  | channel channelId => rfl
  | dm a b =>
    unfold Partition.history getDmMessageHistory Partition.live
    refine congrArg (fun rows : List (MessageId × Message) => paginateRows
      ((applyKeyset rows (fun m => m.2.createdAt) (fun m => m.1) cursor).take (limit + 1)) limit
      fun m => ⟨m.2.createdAt, m.1⟩) (List.filter_congr fun m _ => ?_)
    cases htarget : m.2.target with
    | channel channelId => simp [Partition.Has, htarget]
    | dm recipientId =>
      simp only [Partition.Has, htarget, MessageTargetOf.dm.injEq, decide_eq_decide]
      exact (and_congr_right fun _ => dmPair_iff).trans and_comm

theorem serves_history (p : Partition) (hlimit : 1 ≤ limit) :
    Serves messageKey p.live (positionBy CursorKey.position)
      (fetch parseCursor (p.history limit)) := by
  apply serves_of CursorKey.position messageCursor parses_parseCursor hlimit
    (fun db c => applyKeyset (p.live db) (fun m => m.2.createdAt) (fun m => m.1) c)
  · exact history_eq p
  · intro db c m
    exact mem_applyKeyset_below
  · intro db c
    exact pairwise_applyKeyset c (pairwise_id (db.nodup .messages) _)
  · intro db m hm
    exact ⟨db.typedMessages m (List.mem_filter.mp hm).1, rfl⟩

/-- Neither a deletion nor a newer message puts a row below the cursor. -/
theorem above_mayChange (p : Partition) :
    Above messageKey p.live (positionBy CursorKey.position) MayChange := by
  intro c db db' k hchange hk m hm hlt
  obtain ⟨cursor, hcursor, rfl⟩ := decode_of_position hk
  obtain ⟨hmem, hlive⟩ := List.mem_filter.mp hm
  rcases hchange cursor hcursor m hmem with h | h | h
  · exact List.mem_filter.mpr ⟨h, hlive⟩
  · simp only [decide_eq_true_eq] at hlive
    exact absurd hlive.2 h
  · exact absurd h (lt_asymm hlt)

theorem nodup_rows (db : Snapshot) (τ : Tbl) : (db.rows τ).Nodup := (db.nodup τ).of_map Prod.fst

theorem lists_history (p : Partition) (hlimit : 1 ≤ limit) :
    Lists messageKey p.live (fetch parseCursor (p.history limit)) :=
  lists_of_serves (serves_history p hlimit) fun db => (nodup_rows db .messages).filter _

/-! ### Users and invites -/

variable (env : Primitives)

theorem listAdminUsers_eq (db : Snapshot) (q : Option Text)
    (statusFilter : Option AdminUserStatusFilter) (cursor : Option CursorKey) :
    listAdminUsers env db q statusFilter limit cursor =
      paginateRows ((applyKeyset (adminUsers env q statusFilter db) (fun u => u.2.createdAt)
        (fun u => u.1) cursor).take (limit + 1)) limit userCursor := by
  have hq : (if strip (q.getD []) = [] then db.rows .users else
      (db.rows .users).filter fun u =>
        ilike env u.2.firstName (['%'] ++ escapeLike (strip (q.getD [])) ++ ['%']) ||
        ilike env u.2.lastName (['%'] ++ escapeLike (strip (q.getD [])) ++ ['%']) ||
        ilike env u.2.username (['%'] ++ escapeLike (strip (q.getD [])) ++ ['%']) ||
        ilike env u.2.email (['%'] ++ escapeLike (strip (q.getD [])) ++ ['%'])) =
      adminUsers env q none db := by
    split
    · rename_i hblank
      simp [adminUsers, hblank]
    · rename_i hblank
      simp [adminUsers, hblank, Bool.or_assoc]
  have hstatus : ∀ p : AdminUserStatusFilter, adminUsers env q (some p) db =
      (adminUsers env q none db).filter fun u => decide (p = .active ↔ u.2.isActive) := by
    intro p
    simp [adminUsers, List.filter_filter, Bool.and_comm]
  unfold listAdminUsers
  simp only [hq]
  cases statusFilter with
  | none => rfl
  | some p =>
    rw [hstatus]
    cases p with
    | active =>
      simp
      rfl
    | inactive =>
      simp
      rfl

theorem lists_adminUsers (q : Option Text) (statusFilter : Option AdminUserStatusFilter)
    (hlimit : 1 ≤ limit) :
    Lists userKey (adminUsers env q statusFilter)
      (fetch cursorKeyOf fun db c => listAdminUsers env db q statusFilter limit c) := by
  apply lists_of CursorKey.position userCursor parses_cursorKeyOf hlimit
    (fun db c => applyKeyset (adminUsers env q statusFilter db) (fun u => u.2.createdAt)
      (fun u => u.1) c)
  · intro db c
    exact listAdminUsers_eq env db q statusFilter c
  · intro db c u
    exact mem_applyKeyset_below
  · intro db c
    exact pairwise_applyKeyset c (pairwise_id (db.nodup .users) _)
  · intro db u hu
    exact ⟨db.typedUsers u (List.mem_filter.mp hu).1, rfl⟩
  · intro db
    exact (nodup_rows db .users).filter _

theorem lists_invites (now : Time) (hlimit : 1 ≤ limit) :
    Lists inviteKey (fun db => db.rows .invites)
      (fetch cursorKeyOf fun db c => listInvites db none now limit c) := by
  apply lists_of CursorKey.position inviteCursor parses_cursorKeyOf hlimit
    (fun db c => applyKeyset (db.rows .invites) (fun i => i.2.createdAt) (fun i => i.1) c)
  · intro db c
    rfl
  · intro db c i
    exact mem_applyKeyset_below
  · intro db c
    exact pairwise_applyKeyset c (List.pairwise_map.mp (db.nodup .invites))
  · intro db i hi
    exact ⟨db.typedInvites i hi, rfl⟩
  · intro db
    exact nodup_rows db .invites

/-- What `search_users` reads before `LIMIT`. -/
def searched (q : Text) (db : Snapshot) (cursor : Option CursorKey) : List (UserId × User) :=
  ((foundUsers env q db).filter fun u => ∀ c ∈ cursor, c.id < u.1).insertionSort
    fun u v => u.1 ≤ v.1

theorem searchUsers_eq (db : Snapshot) (q : Text) (cursor : Option CursorKey) :
    searchUsers env db q limit cursor =
      paginateRows ((searched env q db cursor).take (limit + 1)) limit userCursor := by
  have hfound : foundUsers env q db = (db.rows .users).filter fun u => u.2.isActive &&
      (ilike env u.2.username (['%'] ++ escapeLike q ++ ['%']) ||
        ilike env u.2.firstName (['%'] ++ escapeLike q ++ ['%']) ||
        ilike env u.2.lastName (['%'] ++ escapeLike q ++ ['%'])) := by
    simp [foundUsers, Bool.or_assoc]
  unfold searchUsers searched
  rw [hfound]
  cases cursor with
  | none =>
    simp
    rfl
  | some c =>
    simp
    rfl

theorem ids_ascending {l : List (UserId × User)} (h : l.Pairwise fun u v => u.1 ≠ v.1) :
    (l.insertionSort fun u v => u.1 ≤ v.1).Pairwise fun u v => ascendingId v < ascendingId u := by
  have hsorted := List.pairwise_insertionSort (fun u v : UserId × User => u.1 ≤ v.1) l
  have hperm := List.perm_insertionSort (fun u v : UserId × User => u.1 ≤ v.1) l
  have hne := (hperm.pairwise_iff fun h => Ne.symm h).mpr h
  refine (hsorted.and hne).imp fun huv => ?_
  exact OrderDual.toDual_lt_toDual.mpr (lt_of_le_of_ne huv.1 huv.2)

theorem lists_foundUsers (q : Text) (hlimit : 1 ≤ limit) :
    Lists ascendingId (foundUsers env q)
      (fetch cursorKeyOf fun db c => searchUsers env db q limit c) := by
  apply lists_of (fun c => OrderDual.toDual c.id) userCursor parses_cursorKeyOf hlimit
    (searched env q)
  · intro db c
    exact searchUsers_eq env db q c
  · intro db c u
    rw [searched, List.mem_insertionSort, List.mem_filter, decide_eq_true_eq]
    refine and_congr_right fun _ => ?_
    cases c with
    | none => simp [Below]
    | some c => simp [below_some, ascendingId]
  · intro db c
    exact ids_ascending ((pairwise_id (db.nodup .users) _).filter _)
  · intro db u hu
    exact ⟨db.typedUsers u (List.mem_filter.mp hu).1, rfl⟩
  · intro db
    exact (nodup_rows db .users).filter _

/-! ### Channels -/

theorem filter_key {κ ρ : Type} [DecidableEq κ] {rows : List (κ × ρ)}
    (h : (rows.map Prod.fst).Nodup) (k : κ) :
    rows.filter (fun r => r.1 = k) = (rows.find? fun r => r.1 = k).toList := by
  induction rows with
  | nil => rfl
  | cons r rows ih =>
    rw [List.map_cons, List.nodup_cons] at h
    by_cases hr : r.1 = k
    · have hnone : rows.filter (fun r => r.1 = k) = [] := by
        refine List.filter_eq_nil_iff.mpr fun r' hr' he => h.1 ?_
        rw [hr, ← of_decide_eq_true he]
        exact List.mem_map_of_mem hr'
      simp [hr, hnone]
    · simp [hr, ih h.2]

theorem memberCount_eq (db : Snapshot) (channelId : ChannelId) :
    (memberCountSubquery db channelId).getD 0 =
      (db.rows .channelMembers).countP fun m => m.1.1 = channelId := by
  rw [memberCountSubquery, List.countP_eq_length_filter]
  split
  · rename_i h
    rw [h]
    rfl
  · rfl

/-- The rows of the join in `list_my_channels`. -/
def joined (callerId : UserId) (db : Snapshot) :
    List ((ChannelId × Channel) × ChannelMemberRole × ℕ) :=
  (db.rows .channels).flatMap fun c =>
    ((db.rows .channelMembers).filter fun m => m.1 = (c.1, callerId)).map fun m =>
      (c, m.2.role, (memberCountSubquery db c.1).getD 0)

def viewOf (r : (ChannelId × Channel) × ChannelMemberRole × ℕ) : ChannelView :=
  ⟨r.1.1, r.1.2, r.2.2, some r.2.1⟩

theorem joined_eq (callerId : UserId) (db : Snapshot) :
    joined callerId db = (db.rows .channels).filterMap fun c =>
      ((db.rows .channelMembers).find? fun m => m.1 = (c.1, callerId)).map fun m =>
        (c, m.2.role, (memberCountSubquery db c.1).getD 0) := by
  rw [joined, List.filterMap_eq_flatMap_toList]
  refine congrArg (List.flatMap · (db.rows .channels)) (funext fun c => ?_)
  rw [filter_key (db.nodup .channelMembers), Option.toList_map]

theorem myChannels_eq (callerId : UserId) (db : Snapshot) :
    (joined callerId db).map viewOf = myChannels callerId db := by
  rw [joined_eq, List.map_filterMap, myChannels]
  refine congrArg (List.filterMap · (db.rows .channels)) (funext fun c => ?_)
  rw [Option.map_map, memberCount_eq]
  rfl

theorem pairwise_joined (callerId : UserId) (db : Snapshot) :
    (joined callerId db).Pairwise fun r r' => r.1.1 ≠ r'.1.1 := by
  rw [joined_eq]
  refine List.Pairwise.filterMap _ (fun c c' hne r hr r' hr' => ?_)
    (List.pairwise_map.mp (db.nodup .channels))
  obtain ⟨m, -, rfl⟩ := Option.map_eq_some_iff.mp hr
  obtain ⟨m', -, rfl⟩ := Option.map_eq_some_iff.mp hr'
  exact hne

theorem lists_myChannels (callerId : UserId) (hlimit : 1 ≤ limit) :
    Lists channelKey (myChannels callerId)
      (fetch cursorKeyOf fun db c => listMyChannels db callerId limit c) := by
  have hid : ∀ db, (myChannels callerId db).Pairwise fun v v' => v.channelId ≠ v'.channelId := by
    intro db
    rw [← myChannels_eq]
    exact List.pairwise_map.mpr (pairwise_joined callerId db)
  apply lists_of CursorKey.position channelCursor parses_cursorKeyOf hlimit
    (fun db c => (applyKeyset (joined callerId db) (fun r => r.1.2.createdAt) (fun r => r.1.1)
      c).map viewOf)
  · intro db c
    rw [← List.map_take]
    rfl
  · intro db c v
    rw [← myChannels_eq]
    simp only [List.mem_map, mem_applyKeyset_below]
    constructor
    · rintro ⟨r, ⟨hr, hb⟩, rfl⟩
      exact ⟨⟨r, hr, rfl⟩, hb⟩
    · rintro ⟨⟨r, hr, rfl⟩, hb⟩
      exact ⟨r, ⟨hr, hb⟩, rfl⟩
  · intro db c
    exact List.pairwise_map.mpr (pairwise_applyKeyset c (pairwise_joined callerId db))
  · intro db v hv
    obtain ⟨c, hc, hv⟩ := List.mem_filterMap.mp hv
    obtain ⟨m, -, rfl⟩ := Option.map_eq_some_iff.mp hv
    exact ⟨db.typedChannels c hc, rfl⟩
  · intro db
    exact (hid db).imp fun h he => h (congrArg _ he)

/-! ### The walks -/

/-- **Every walk through a history ends; it returns the live messages of the partition in strictly
descending order, each that stays exactly once, whatever is deleted and whatever newer is inserted
on the way.  So do, over unchanging tables, the walks through the other lists.** -/
theorem pagination_walk {limit : ℕ} (hlimit : 1 ≤ limit) :
    (∀ p db dbs w, Walk (fetch parseCursor (Partition.history p limit)) MayChange (db :: dbs) w →
      Exact messageKey p.live (fetch parseCursor (p.history limit)) db dbs w) ∧
    (∀ p, Lists messageKey (Partition.live p) (fetch parseCursor (p.history limit))) ∧
    (∀ callerId, Lists channelKey (myChannels callerId)
      (fetch cursorKeyOf fun db c => listMyChannels db callerId limit c)) ∧
    (∀ env q statusFilter, Lists userKey (adminUsers env q statusFilter)
      (fetch cursorKeyOf fun db c => listAdminUsers env db q statusFilter limit c)) ∧
    (∀ now, Lists inviteKey (fun db => db.rows .invites)
      (fetch cursorKeyOf fun db c => listInvites db none now limit c)) ∧
    ∀ env q, Lists ascendingId (foundUsers env q)
      (fetch cursorKeyOf fun db c => searchUsers env db q limit c) :=
  ⟨fun p _ _ _ hw => hw.exact (serves_history p hlimit) (above_mayChange p),
    fun p => lists_history p hlimit, fun callerId => lists_myChannels callerId hlimit,
    fun env q statusFilter => lists_adminUsers env q statusFilter hlimit,
    fun now => lists_invites now hlimit, fun env q => lists_foundUsers env q hlimit⟩

/-- Messages of channel `1` and nothing else, as `(id, created_at, deleted_at)`. -/
def channelRows (ms : List (MessageId × Time × Option Time)) (τ : Tbl) : List (τ.Key × τ.Row) :=
  match τ with
  | .messages => ms.map fun m => (m.1, ⟨.channel 1, 7, [], m.2.1, none, m.2.2⟩)
  | _ => []

/-- Three messages of one moment and a newer one; then message `2` is deleted and `5` is sent. -/
def tied : Snapshot where
  rows := channelRows [(1, 5, none), (2, 5, none), (3, 5, none), (4, 9, none)]
  nodup τ := by cases τ <;> decide
  typedUsers := nofun
  typedChannels := nofun
  typedInvites := nofun
  typedMessages := by decide

def tiedLater : Snapshot where
  rows := channelRows [(5, 10, none), (1, 5, none), (2, 5, some 10), (3, 5, none), (4, 9, none)]
  nodup τ := by cases τ <;> decide
  typedUsers := nofun
  typedChannels := nofun
  typedInvites := nofun
  typedMessages := by decide

def sent (id : MessageId) (createdAt : Time) : MessageId × Message :=
  (id, ⟨.channel 1, 7, [], createdAt, none, none⟩)

/-- Two pages of two: the deleted message and the new one are left out, and no other. -/
theorem walk_tied : Walk (fetch parseCursor (Partition.history (.channel 1) 2)) MayChange
    [tiedLater, tied] ⟨[sent 4 9, sent 3 5, sent 1 5], none, 2, true⟩ := by
  have hfirst : Walk (fetch parseCursor (Partition.history (.channel 1) 2)) MayChange [tied]
      ⟨[sent 4 9, sent 3 5], some (encodeCursor ⟨5, 3⟩), 1, false⟩ :=
    .request (.start tied) rfl rfl
  have hcursor : decodeCursor (encodeCursor ⟨5, 3⟩) = .ok ⟨5, 3⟩ := decode_encode (by decide)
  have hchange : MayChange (encodeCursor ⟨5, 3⟩) tied tiedLater := by
    intro key hkey
    cases hcursor.symm.trans hkey
    decide
  have hlast : fetch parseCursor (Partition.history (.channel 1) 2) tiedLater
      (some (encodeCursor ⟨5, 3⟩)) [sent 1 5] none := by
    simp only [fetch, parseCursor, hcursor]
    rfl
  exact .request (.change hfirst rfl hchange) rfl hlast

theorem pagination_walk_tied :
    Exact messageKey (Partition.live (.channel 1))
      (fetch parseCursor (Partition.history (.channel 1) 2)) tiedLater [tied]
      ⟨[sent 4 9, sent 3 5, sent 1 5], none, 2, true⟩ :=
  (pagination_walk (by decide : 1 ≤ 2)).1 _ _ _ _ walk_tied

end PaginationWalk

end Chatspace
