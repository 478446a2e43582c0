import SpringStudy.Tables
import SpringStudy.Outcomes
import SpringStudy.TtlCaches

/-!
# The stores of the chat server

The repositories are key-value stores: a table for each entity that is found by
its id, a list of rows for each entity that only grows. Columns that no handler
sets are left out.
-/
namespace ChatStore

open Tables Outcomes TtlCaches

inductive CommonCode where
  | unknownInviteKey
  | notFoundAgent
  | notInviteYourself
  | makeTicketFailed
  | notFoundCallId
  | notSuccessRestResp
  | notSuccessResp
  | nullBody
  | notAgent
  | notHost
  | notGuest
  | noCallFound
  | notFoundSession
  deriving DecidableEq, Repr

/-- How a handler ends when it does not end normally. -/
inductive Failure where
  | common (code : CommonCode)
  | nullPointer
  | indexOutOfBounds
  /-- A null id is given to a repository. -/
  | illegalArgument
  /-- `get` on an empty `Optional`. -/
  | noSuchElement
  /-- The REST call throws. -/
  | restClient
  deriving DecidableEq, Repr

inductive CallType where
  | outboundClient
  | outboundCounselor
  | inbound
  deriving DecidableEq, Repr

inductive CallClosedReason where
  | completed | agentDeferred | clientDeferred | uncompleted | forcedLogout | clientCancel | agentCancel
  | agentReject | clientReject | timeout | error | systemDown | busy | flood | nobody | rest | holiday
  | nabd | ctiQueueFail
  deriving DecidableEq, Repr

inductive EUserType where
  | host
  | manager
  | client
  deriving DecidableEq, Repr

inductive InvolvementType where
  | invitation
  | handover
  deriving DecidableEq, Repr

inductive UserStatus where
  | rg | or | ir | ci | ia | as | ur
  deriving DecidableEq, Repr

structure SessionCache where
  userId : String
  isHost : Bool
  principalName : String
  deriving DecidableEq, Repr

structure User where
  userId : String
  userStatus : UserStatus
  callId : Option String
  server : String
  deriving DecidableEq, Repr

structure Call where
  id : String
  callType : CallType
  caller : String
  owner : String
  closeReason : CallClosedReason
  multiMediaServer : Option String
  mediaServer : Option String
  deriving DecidableEq, Repr

structure InviteKey where
  key : String
  userId : String
  callType : CallType
  server : String
  destnId : Option String
  /-- The id of the call the key belongs to. -/
  call : String
  expiredDate : Option Nat
  isUsed : Bool
  deriving DecidableEq, Repr

structure Participant where
  call : String
  userId : String
  userType : EUserType
  deriving DecidableEq, Repr

structure Involvement where
  call : String
  agentId : String
  type : InvolvementType
  deriving DecidableEq, Repr

structure Ticket where
  multiMediaServer : Option String
  mediaServer : Option String
  roomId : String
  deriving DecidableEq, Repr

/-- What the server sends to a principal or publishes. -/
inductive Notification where
  | invite (principalName inviteKey callId sender : String)
  | ticket (principalName : String) (ticket : Ticket)
  | refuseInvite (hostId userId inviteKey : String)
  | keyExpired (callId inviteKey principalName : String)
  deriving DecidableEq, Repr

structure CallManager where
  callMap : Table String (List String)
  userIdIndex : Table String String

def CallManager.empty : CallManager := ⟨∅, ∅⟩

def CallManager.put (m : CallManager) (callId userId : String) : CallManager where
  callMap := m.callMap.insert callId (((m.callMap.lookup callId).getD []).insert userId)
  userIdIndex := m.userIdIndex.insert userId callId

/-- What the TTL consumer of an invite key remembers of its `createInviteKey` call. -/
structure Expiry where
  userId : String
  callId : String
  deriving DecidableEq, Repr

structure Chat where
  serverName : String
  /-- The TTL of an invite key, in milliseconds. -/
  inviteKeyTtl : Nat
  sessions : Table String SessionCache
  users : Table String User
  calls : Table String Call
  inviteKeys : Table String InviteKey
  participants : List Participant
  involvements : List Involvement
  callManager : CallManager
  ttlCache : Cache String Expiry
  sent : List Notification

def Chat.init (serverName : String) (inviteKeyTtl : Nat) : Chat :=
  ⟨serverName, inviteKeyTtl, ∅, ∅, ∅, ∅, [], [], .empty, .empty, []⟩

namespace Chat

def send (s : Chat) (msg : Notification) : Chat := { s with sent := s.sent ++ [msg] }

def findByPrincipalName (s : Chat) (principalName : String) : Option SessionCache :=
  (values s.sessions).find? fun session => decide (session.principalName = principalName)

end Chat

/-! ## Sessions -/

/-- The pieces between slashes. -/
def pieces : List Char → List (List Char)
  | [] => [[]]
  | '/' :: cs => [] :: pieces cs
  | c :: cs =>
    match pieces cs with
    | [] => [[c]]
    | p :: ps => (c :: p) :: ps

/-- `split("/")`: a text without a slash is its own only piece, and empty pieces at the end are dropped. -/
def splitSlash (text : String) : List String :=
  if '/' ∈ text.toList then
    (((pieces text.toList).reverse.dropWhile fun p => p.isEmpty).reverse).map String.ofList
  else [text]

def Chat.addSession (s : Chat) (user : String) (authorization : Option String) : Outcome Chat Failure :=
  match authorization with
  | none => (s, some .nullPointer)
  | some text =>
    match splitSlash text with
    | userId :: host :: _ =>
      ({ s with sessions := s.sessions.insert userId ⟨userId, decide (host = "1"), user⟩ }, none)
    | _ => (s, some .indexOutOfBounds)

def Chat.removeSession (s : Chat) (user : String) : Chat :=
  match s.findByPrincipalName user with
  | none => s
  | some session => { s with sessions := s.sessions.erase session.userId }

/-- A host that subscribes is registered anew, with no call. -/
def Chat.handleSessionSubscribeListener (s : Chat) (user : String) : Outcome Chat Failure :=
  match s.findByPrincipalName user with
  | none => (s, some (.common .notFoundSession))
  | some session =>
    if session.isHost then
      ({ s with users := s.users.insert session.userId ⟨session.userId, .rg, none, s.serverName⟩ }, none)
    else (s, none)

/-! ## Invite keys -/

namespace Chat

def createInviteKey (s : Chat) (userId : String) (callType : CallType) (destinationId : Option String)
    (call : Call) (uuid : String) (now : Nat) : Chat × String :=
  let inviteKey := userId ++ "//" ++ uuid
  ({ s with
      inviteKeys := s.inviteKeys.insert inviteKey
        ⟨inviteKey, userId, callType, s.serverName, destinationId, call.id, none, false⟩
      ttlCache := put s.ttlCache inviteKey ⟨userId, call.id⟩ s.inviteKeyTtl now },
    inviteKey)

/-- The row after `useInviteKey`: only a key that has expired already is marked. -/
def usedRow (row : InviteKey) (inviteKey : String) (now : Nat) : InviteKey :=
  if row.expiredDate ≠ none ∧ row.key = inviteKey then
    { row with expiredDate := some now, isUsed := true }
  else row

def useInviteKey (s : Chat) (inviteKey : String) (now : Nat) : Chat × Option InviteKey :=
  match s.inviteKeys.lookup inviteKey with
  | none => ({ s with ttlCache := (remove s.ttlCache inviteKey).1 }, none)
  | some row =>
    let row := usedRow row inviteKey now
    ({ s with
        inviteKeys := s.inviteKeys.insert inviteKey row
        ttlCache := (remove s.ttlCache inviteKey).1 },
      some row)

/-- The TTL consumer: the row gets its expiry date before the lookups that may fail. -/
def expireKey (s : Chat) (inviteKey : String) (expiry : Expiry) (now : Nat) : Outcome Chat Failure :=
  match s.inviteKeys.lookup inviteKey with
  | none => (s, some (.common .unknownInviteKey))
  | some row =>
    let s := { s with inviteKeys := s.inviteKeys.insert inviteKey { row with expiredDate := some now } }
    match s.users.lookup expiry.userId with
    | none => (s, some (.common .notAgent))
    | some _ =>
      match s.calls.lookup expiry.callId with
      | none => (s, some (.common .noCallFound))
      | some call =>
        match s.sessions.lookup expiry.userId with
        | none => (s, some (.common .notFoundSession))
        | some session => (s.send (.keyExpired call.id inviteKey session.principalName), none)

/-- A TTL task runs. An entry is expired once its time has passed. -/
def fireTtl (s : Chat) (task : String × Nat) (now : Nat) : Outcome Chat Failure :=
  let q := fire hasPassed s.ttlCache task now
  let s := { s with ttlCache := q.1 }
  match q.2 with
  | none => (s, none)
  | some expiry => s.expireKey task.1 expiry now

end Chat

end ChatStore
