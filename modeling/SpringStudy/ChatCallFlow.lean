import SpringStudy.ChatStore
import SpringStudy.Runs

/-!
# The call flow of the chat server

A host requests a call and hands its invite key on; a guest accepts the key.
`handleRequestCall` runs in a transaction that is rolled back when it throws;
`handleAcceptCall` does not, so what it did before an exception stays. Room ids,
UUIDs, times and the answers of the media server are inputs of the events.
-/
namespace ChatCallFlow

open Tables Outcomes TtlCaches ChatStore

structure CreateRoomResponse where
  mediaServer : Option String
  multiMediaServer : Option String
  deriving DecidableEq, Repr

structure ClientResponse where
  headerStatusCode : Nat
  bodyStatusCode : Option Nat
  response : Option CreateRoomResponse
  deriving DecidableEq, Repr

structure AcceptCallMessage where
  inviteKey : Option String
  isAccept : Bool
  deriving DecidableEq, Repr

/-- The checks of `handleRequestCall` on the answer of the media server; `none`
is a REST call that throws. -/
def checkResponse (resp : Option ClientResponse) : Except Failure CreateRoomResponse :=
  match resp with
  | none => .error .restClient
  | some resp =>
    if 400 ≤ resp.headerStatusCode ∧ resp.headerStatusCode < 600 then .error (.common .makeTicketFailed)
    else if ¬ (200 ≤ resp.headerStatusCode ∧ resp.headerStatusCode < 300) then
      .error (.common .notSuccessRestResp)
    else
      match resp.bodyStatusCode with
      | none => .error (.common .nullBody)
      | some status =>
        if status ≠ 200 then .error (.common .notSuccessResp)
        else
          match resp.response with
          | none => .error .nullPointer
          | some room => .ok room

/-- The call of a request, before the media server has answered. -/
def newCall (roomId userId : String) : Call :=
  ⟨roomId, .outboundClient, userId, userId, .uncompleted, none, none⟩

/-- The inputs of a request that the server does not choose. -/
structure RequestInput where
  roomId : String
  response : Option ClientResponse
  uuid : String
  now : Nat

/-- The commit of `handleRequestCall` for a host that is registered as `host`. -/
def commitRequest (s : Chat) (principal : String) (session : SessionCache) (host : User)
    (input : RequestInput) (room : CreateRoomResponse) : Chat :=
  let call : Call := { newCall input.roomId session.userId with
    multiMediaServer := room.multiMediaServer, mediaServer := room.mediaServer }
  let s : Chat := { s with
    calls := s.calls.insert input.roomId call
    participants := s.participants ++ [⟨input.roomId, session.userId, .host⟩]
    users := s.users.insert session.userId { host with callId := some input.roomId } }
  let q := s.createInviteKey session.userId .outboundClient none call input.uuid input.now
  q.1.send (.invite principal q.2 input.roomId session.userId)

def handleRequestCall (s : Chat) (principal : String) (input : RequestInput) : Except Failure Chat :=
  match s.findByPrincipalName principal with
  | none => .error .nullPointer
  | some session =>
    if session.isHost then
      match s.users.lookup session.userId with
      | none => .error (.common .notFoundAgent)
      | some host =>
        match checkResponse input.response with
        | .error e => .error e
        | .ok room => .ok (commitRequest s principal session host input room)
    else .error (.common .notHost)

/-- The guest goes into the call `callId`. The start date is set on a detached
entity and reaches no store. -/
def joinCall (s : Chat) (principal : String) (session : SessionCache) (hostId callId : String) :
    Outcome Chat Failure :=
  let s := { s with callManager := s.callManager.put callId session.userId }
  match s.calls.lookup callId with
  | none => (s, some .noSuchElement)
  | some call =>
    let s : Chat := { s with
      involvements := s.involvements ++ [⟨call.id, hostId, .handover⟩]
      participants := s.participants ++ [⟨call.id, session.userId, .client⟩] }
    (s.send (.ticket principal ⟨call.multiMediaServer, call.mediaServer, callId⟩), none)

def handleOutboundAcceptCall (s : Chat) (principal inviteKey : String) (isAccept : Bool) (now : Nat) :
    Outcome Chat Failure :=
  match s.findByPrincipalName principal with
  | none => (s, some (.common .notFoundSession))
  | some session =>
    if session.isHost then (s, some (.common .notGuest))
    else
      match s.useInviteKey inviteKey now with
      | (s, none) => (s, some (.common .unknownInviteKey))
      | (s, some row) =>
        match s.users.lookup row.userId with
        | none => (s, some (.common .notFoundAgent))
        | some hostUser =>
          match hostUser.callId with
          | none => (s, some (.common .notFoundCallId))
          | some callId =>
            if isAccept then joinCall s principal session row.userId callId
            else (s.send (.refuseInvite row.userId session.userId inviteKey), none)

def handleAcceptCall (s : Chat) (principal : String) (message : AcceptCallMessage) (now : Nat) :
    Outcome Chat Failure :=
  match s.findByPrincipalName principal with
  | none => (s, some (.common .notFoundSession))
  | some session =>
    match message.inviteKey with
    | none => (s, some .illegalArgument)
    | some inviteKey =>
      match s.useInviteKey inviteKey now with
      | (s, none) => (s, some (.common .unknownInviteKey))
      | (s, some row) =>
        if row.userId = session.userId then (s, some (.common .notInviteYourself))
        else handleOutboundAcceptCall s principal inviteKey message.isAccept now

inductive Event where
  | connect (principal : String) (authorization : Option String)
  | disconnect (principal : String)
  | subscribe (principal : String)
  | requestCall (principal : String) (input : RequestInput)
  | acceptCall (principal : String) (message : AcceptCallMessage) (now : Nat)
  | sessionAll
  | fireTtl (task : String × Nat) (now : Nat)

def handle (s : Chat) : Event → Outcome Chat Failure
  | .connect principal authorization => s.addSession principal authorization
  | .disconnect principal => (s.removeSession principal, none)
  | .subscribe principal => s.handleSessionSubscribeListener principal
  | .requestCall principal input =>
    match handleRequestCall s principal input with
    | .error e => (s, some e)
    | .ok s => (s, none)
  | .acceptCall principal message now => handleAcceptCall s principal message now
  | .sessionAll => ({ s with sessions := ∅ }, none)
  | .fireTtl task now => s.fireTtl task now

def step (s : Chat) (e : Event) : Chat := (handle s e).1

end ChatCallFlow
