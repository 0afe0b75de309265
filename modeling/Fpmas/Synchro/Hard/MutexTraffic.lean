import Mathlib.Logic.Function.Basic
import Fpmas.Library.TransitionSystem
import Fpmas.Synchro.Hard.MutexServer

set_option autoImplicit false

namespace Fpmas.Synchro.Hard

/-- Where a process stands in a call to one of its mutexes. A synchronous send blocks its sender
until it is received, so the message in flight is part of the sender's position. -/
inductive Position (P T : Type) where
  | idle
  | sendRequest (type : MutexRequestType) (id : DistributedId P)
  | waitResponse (type : MutexRequestType) (id : DistributedId P)
  | sendRelease (type : MutexRequestType) (message : MutexMessage P T)
  | waitLocal (request : MutexRequest P)

/-- The client side of a process: what it was granted and has not released, and the data of its
DISTANT representations of the nodes. -/
structure Client (P T : Type) where
  position : Position P T
  held : List (DistributedId P × MutexRequestType)
  copy : DistributedId P → T

/-- History of one acquire, in the order of the grants: what the acquire returned to its caller, the
update the holder has applied since, and whether the owner has received the release. -/
structure AcquireSection (P T : Type) where
  holder : P
  acquired : Option T
  update : T → T
  released : Bool

structure MutexState (P T : Type) where
  server : P → MutexServer P T
  client : P → Client P T
  responses : List (Response P T)
  grants : DistributedId P → List (P × MutexRequestType)
  sections : DistributedId P → List (AcquireSection P T)

inductive MutexAction (P T : Type) where
  | call (p : P) (type : MutexRequestType) (id : DistributedId P)
  | deliver (p : P)
  | receive (p : P)
  | release (p : P) (type : MutexRequestType) (id : DistributedId P)
  | modify (p : P) (id : DistributedId P) (f : T → T)

namespace MutexAction

variable {P T : Type} (p : P) (id : DistributedId P)

def read : MutexAction P T := .call p .read id
def releaseRead : MutexAction P T := .release p .read id
def acquire : MutexAction P T := .call p .acquire id
def releaseAcquire : MutexAction P T := .release p .acquire id
def lock : MutexAction P T := .call p .lock id
def unlock : MutexAction P T := .release p .lock id
def lockShared : MutexAction P T := .call p .lockShared id
def unlockShared : MutexAction P T := .release p .lockShared id

end MutexAction

namespace MutexState

variable {P T : Type} [DecidableEq P] (owner : DistributedId P → P) (s : MutexState P T)

def mutex (id : DistributedId P) : Option (HardSyncMutex P T) :=
  (s.server (owner id)).mutexMap id

def setServer (p : P) (server : MutexServer P T) : MutexState P T :=
  { s with server := Function.update s.server p server }

def setPosition (p : P) (position : Position P T) : MutexState P T :=
  { s with client := Function.update s.client p { s.client p with position } }

def setHeld (p : P) (held : List (DistributedId P × MutexRequestType)) : MutexState P T :=
  { s with client := Function.update s.client p { s.client p with held } }

def setCopy (p : P) (id : DistributedId P) (data : T) : MutexState P T :=
  { s with
    client := Function.update s.client p
      { s.client p with copy := Function.update (s.client p).copy id data } }

-- The section of node `id` that `p` was granted and whose release the owner has not received.
def updateSection (p : P) (id : DistributedId P) (f : AcquireSection P T → AcquireSection P T) :
    MutexState P T :=
  { s with
    sections := Function.update s.sections id
      ((s.sections id).map fun sec =>
        if sec.holder = p ∧ sec.released = false then f sec else sec) }

def recordGrant (p : P) (type : MutexRequestType) (id : DistributedId P) (acquired : Option T) :
    MutexState P T :=
  { s with
    grants := Function.update s.grants id (s.grants id ++ [(p, type)])
    sections :=
      if type = .acquire then
        Function.update s.sections id (s.sections id ++ [⟨p, acquired, fun data => data, false⟩])
      else s.sections }

def recordRelease (p : P) (type : MutexRequestType) (id : DistributedId P) : MutexState P T :=
  let s := { s with grants := Function.update s.grants id ((s.grants id).erase (p, type)) }
  if type = .acquire then s.updateSection p id fun sec => { sec with released := true }
  else s

-- The responses leave the server: each one is a grant of the mutex to its destination.
def send : MutexState P T → List (Response P T) → MutexState P T
  | s, [] => s
  | s, response :: rest =>
    send
      (recordGrant { s with responses := s.responses ++ [response] }
        (response.dest.getD (owner response.id)) response.type response.id none)
      rest

-- The end of a local access, once the mutex is available: `_locked = true` or `_locked_shared++`, and the
-- caller gets the data in place.
def grantLocal (p : P) (type : MutexRequestType) (id : DistributedId P) : Option (MutexState P T) :=
  ((s.server p).mutexMap id).map fun m =>
    let s := s.setServer p ((s.server p).manage id (m.granted type))
    let s := s.setHeld p ((id, type) :: (s.client p).held)
    (s.recordGrant p type id (some m.data)).setPosition p .idle

-- `HardSyncMutex::read`, `acquire`, `lock` and `lockShared`.
def call (p : P) (type : MutexRequestType) (id : DistributedId P) : Option (MutexState P T) :=
  match (s.client p).position with
  | .idle =>
    if owner id = p then
      ((s.server p).mutexMap id).bind fun m =>
        if m.busy type then
          let request : MutexRequest P := { id, source := Source.LOCAL, type }
          some ((s.setServer p ((s.server p).manage id (m.pushRequest request))).setPosition p
            (.waitLocal request))
        else s.grantLocal p type id
    else some (s.setPosition p (.sendRequest type id))
  | _ => none

-- Process `o` receives `message` from `p`, inside `wait` or in any other reception cycle.
def serve (o p : P) (message : MutexMessage P T) : Option (MutexState P T) :=
  match (s.client o).position with
  | .waitLocal request =>
    ((s.server o).handleIncomingRequestWait request p message).bind fun (server, sent, reached) =>
      let s := send owner (s.setServer o server) sent
      if reached then s.grantLocal o request.type request.id else some s
  | _ =>
    ((s.server o).handleIncomingRequest p message).map fun (server, sent) =>
      send owner (s.setServer o server) sent

def deliver (p : P) : Option (MutexState P T) :=
  match (s.client p).position with
  | .sendRequest type id =>
    (s.setPosition p (.waitResponse type id)).serve owner (owner id) p (.request type id)
  | .sendRelease type message =>
    ((s.setPosition p .idle).recordRelease p type message.id).serve owner (owner message.id) p
      message
  | _ => none

-- The response a process waits for, matched as `waitResponse` does: by the rank of the server and the
-- tag.
def awaited (p : P) (type : MutexRequestType) (id : DistributedId P) (response : Response P T) :
    Bool :=
  decide (response.dest = some p ∧ response.type = type ∧ owner response.id = owner id)

-- The end of a DISTANT access: the caller gets the data of the response, if it has any.
def received (p : P) (type : MutexRequestType) (id : DistributedId P) (response : Response P T) :
    MutexState P T :=
  let s := { s with responses := s.responses.eraseP (awaited owner p type id) }
  let s := match response.data with
    | some data => s.setCopy p id data
    | none => s
  let s := s.setHeld p ((id, type) :: (s.client p).held)
  let s := if type = .acquire then
      s.updateSection p id fun sec => { sec with acquired := response.data }
    else s
  s.setPosition p .idle

def receive (p : P) : Option (MutexState P T) :=
  match (s.client p).position with
  | .waitResponse type id =>
    (s.responses.find? (awaited owner p type id)).map (s.received owner p type id)
  | _ => none

-- The message that releases a grant of the given type.
def releaseMessage (p : P) (type : MutexRequestType) (id : DistributedId P) : MutexMessage P T :=
  match type with
  | .read | .lockShared => .unlockShared id
  | .lock => .unlock id
  | .acquire => .releaseAcquire id ((s.client p).copy id)

def releaseLocal (p : P) (type : MutexRequestType) (id : DistributedId P) :
    Option (MutexState P T) :=
  ((s.server p).mutexMap id).bind fun m =>
    let m' := if type.exclusive then m.unlock else m.unlockShared
    let server := (s.server p).manage id m'
    if type.exclusive || decide (m'.lockedShared = 0) then
      (server.notify id).map fun (server, sent) => send owner (s.setServer p server) sent
    else some (s.setServer p server)

-- `HardSyncMutex::releaseRead`, `releaseAcquire`, `unlock` and `unlockShared`, called on a grant the
-- process holds.
def release (p : P) (type : MutexRequestType) (id : DistributedId P) : Option (MutexState P T) :=
  match (s.client p).position with
  | .idle =>
    if (id, type) ∈ (s.client p).held then
      let held := (s.client p).held.erase (id, type)
      if owner id = p then ((s.setHeld p held).recordRelease p type id).releaseLocal owner p type id
      else some ((s.setHeld p held).setPosition p (.sendRelease type (s.releaseMessage p type id)))
    else none
  | _ => none

-- User code writes the data it has acquired: in place on the owner, on its copy elsewhere.
def modify (p : P) (id : DistributedId P) (f : T → T) : Option (MutexState P T) :=
  match (s.client p).position with
  | .idle =>
    if (id, .acquire) ∈ (s.client p).held then
      let record := fun s : MutexState P T =>
        s.updateSection p id fun sec => { sec with update := f ∘ sec.update }
      if owner id = p then
        ((s.server p).mutexMap id).map fun m =>
          record (s.setServer p ((s.server p).manage id { m with data := f m.data }))
      else some (record (s.setCopy p id (f ((s.client p).copy id))))
    else none
  | _ => none

def next : MutexAction P T → Option (MutexState P T)
  | .call p type id => s.call owner p type id
  | .deliver p => s.deliver owner p
  | .receive p => s.receive owner p
  | .release p type id => s.release owner p type id
  | .modify p id f => s.modify owner p id f

-- No request is pending and no mutex is locked; `data` is the initial data of the nodes.
def start (data : DistributedId P → T) : MutexState P T where
  server p := { mutexMap := fun id => if owner id = p then some (.build (data id)) else none }
  client _ := { position := .idle, held := [], copy := data }
  responses := []
  grants _ := []
  sections _ := []

end MutexState

/-- All the processes of a run in which node `id` is LOCAL on `owner id`. -/
def mutexTraffic {P T : Type} [DecidableEq P] (owner : DistributedId P → P)
    (data : DistributedId P → T) : TransitionSystem (MutexState P T) (MutexAction P T) where
  init s := s = MutexState.start owner data
  next s := s.next owner

end Fpmas.Synchro.Hard
