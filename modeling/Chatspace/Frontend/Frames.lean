import Chatspace.Backend.Schema

/-!
# `ws/frames.ts` and the message types of `api/types.ts`

On the client ids and timestamps are strings.
-/

namespace Chatspace.Frontend

inductive ConversationTarget where
  | channel (channelId : Text)
  | dm (userId : Text)
deriving DecidableEq

/-! ### Client to server -/

inductive ClientFrame where
  | join (conversation : ConversationTarget)
  | leave (conversation : ConversationTarget)
  | typing (conversation : ConversationTarget)
  | ping
deriving DecidableEq

/-! ### Server to client -/

structure MessageMedia where
  mediaId : Text
  kind : Text
  filename : Text
  size : ℕ
deriving DecidableEq

structure Message where
  id : Text
  channelId : Option Text
  recipientId : Option Text
  senderId : Text
  content : Text
  media : List MessageMedia
  createdAt : Text
  editedAt : Option Text
  deletedAt : Option Text
deriving DecidableEq

structure MessageDeletedPayload where
  id : Text
  conversation : ConversationTarget
  deletedAt : Text
deriving DecidableEq

/-- The frames the conversation hook acts on, with data that passes its checks; it drops every
other frame (`other`). -/
inductive ServerFrame where
  | messageCreated (data : Message)
  | messageEdited (data : Message)
  | messageDeleted (data : MessageDeletedPayload)
  | other
deriving DecidableEq

end Chatspace.Frontend
