import Chatspace.Interleave.Program
import Chatspace.Interleave.Pool
import Chatspace.Interleave.RelyGuarantee
import Chatspace.Interleave.Solo
import Chatspace.Interleave.Outbox
import Chatspace.Store.Table
import Chatspace.Store.Sql
import Chatspace.Backend.Schema
import Chatspace.Backend.Machine
import Chatspace.Backend.Tables
import Chatspace.Services.Messages
import Chatspace.Services.IdempotentSend
import Chatspace.Store.Expiring
import Chatspace.Services.ClaimRelease
import Chatspace.Services.Sessions
import Chatspace.Services.RevocationCache
import Chatspace.Services.Auth
import Chatspace.Services.RefreshRotation
import Chatspace.Services.Channels
import Chatspace.Services.AdminUsers
import Chatspace.Services.Password
import Chatspace.Interleave.History
import Chatspace.Services.CredentialSweep
import Chatspace.Services.AdminLocks
import Chatspace.Services.AdminSuccession
import Chatspace.Services.Invites
import Chatspace.Services.InviteLifecycle
import Chatspace.Services.LastSystemAdmin
import Chatspace.Services.MediaSweep
import Chatspace.Services.MediaBinding
import Chatspace.Services.MediaRequests
import Chatspace.Services.MediaPurge
import Chatspace.Services.MessageEdits
import Chatspace.Services.MessageLifecycle
import Chatspace.Services.ResetTokens
import Chatspace.Codec.Bytes
import Chatspace.Codec.Text
import Chatspace.Paging.Keyset
import Chatspace.Core.Pagination
import Chatspace.Services.PageQueries
import Chatspace.Services.PaginationWalk
import Chatspace.Services.SearchTerms
import Chatspace.Frontend.SocketClient
import Chatspace.Frontend.SocketExclusion
import Chatspace.Frontend.RefreshCycles
import Chatspace.Codec.Digits
import Chatspace.Core.Uuid
import Chatspace.Core.CursorCodec
import Chatspace.Core.Ids
import Chatspace.Store.InsertionMap
import Chatspace.Codec.Json
import Chatspace.Ws.TopicAgreement
import Chatspace.Ws.Fanout
import Chatspace.Frontend.PresenceAndTyping
import Chatspace.Frontend.TypingRelay
import Chatspace.Services.MessageOrder
import Chatspace.Reactive.Runs
import Chatspace.Frontend.MessageStore
import Chatspace.Frontend.ConversationSocket
import Chatspace.Frontend.StoreConvergence
import Chatspace.Frontend.Frames
import Chatspace.Store.Counters
import Chatspace.Interleave.Moments
import Chatspace.Ws.Machine
import Chatspace.Services.Presence
import Chatspace.Ws.Router
import Chatspace.Rates.Window
import Chatspace.Ws.RateLimit
import Chatspace.Ws.PresenceExpiry
import Chatspace.Ws.PresenceCount
import Chatspace.Ws.LastDisconnect
import Chatspace.Ws.PresenceOrder
import Chatspace.Ws.Revalidation
import Chatspace.Rates.Budget
import Chatspace.Core.RateLimit
import Chatspace.Core.RateLimitBounds
import Chatspace.Core.MediaValidation
import Chatspace.Services.MediaUpload
import Chatspace.Services.UploadChecks
import Chatspace.Services.Bootstrap
import Chatspace.Interleave.Lockstep
import Chatspace.Services.AdminAuthorization
import Chatspace.Services.ZeroAdmins
import Chatspace.Services.MembershipEvents
import Chatspace.Services.LockOrder
import Chatspace.Services.LockOrderRequests
import Chatspace.Services.LockOrderSuccession
import Chatspace.Ws.Subscriptions
import Chatspace.Frontend.Resubscription
import Chatspace.Frontend.HttpClient
import Chatspace.Frontend.TransientRefresh
import Chatspace.Frontend.MyChannels
import Chatspace.Core.Filenames
import Chatspace.Core.BodyLimit
import Chatspace.Codec.Substitute
import Chatspace.Core.RedactText
import Chatspace.Core.Redact
import Chatspace.Services.SoloMembership
import Chatspace.Services.ActiveAdmins
import Chatspace.Services.Promotions
import Chatspace.Frontend.CatchUpCompleteness
import Chatspace.Services.TextChecks
import Chatspace.Services.ResolveLoop
import Chatspace.Frontend.CatchUp
import Chatspace.Frontend.ChannelListSync
import Chatspace.Frontend.TypingExpiry
import Chatspace.Frontend.OwnActions
import Chatspace.Frontend.MessageHistory
import Chatspace.Frontend.HistoryIsolation
import Chatspace.Ws.RevokedDelivery
import Chatspace.Backend.Readers
import Chatspace.Services.RequireAuth
import Chatspace.Services.ReadRoutes
import Chatspace.Codec.JsonText
import Chatspace.Ws.Wire
import Chatspace.Frontend.MediaUploads
import Chatspace.Services.Authorship
import Chatspace.Services.MembershipAuthority
import Chatspace.Frontend.SendOnce
