import Fpmas.Library.TransitionSystem
import Fpmas.Synchro.Hard.MutexServer

set_option autoImplicit false

namespace Fpmas.Synchro.Hard

-- What a process does on behalf of its user or of a REMOVE_NODE request. `send` is any request sent to
-- another process.
inductive MutexOperation (P : Type) where
  | access (type : MutexRequestType) (id : DistributedId P)
  | release (type : MutexRequestType) (id : DistributedId P)
  | send
deriving DecidableEq

-- The calls a process is in, except those of its user.
inductive ServerFrame (P : Type) where
  -- The loop of `MutexServer::wait`.
  | wait (request : MutexRequest P)
  -- The last iteration of this loop, before or after the call to the link server.
  | reached (request : MutexRequest P) (linkServer : Bool)
  -- The loops of `ServerPack` and of `terminate`.
  | cycle
  | handler (operations : List (MutexOperation P))
  -- `respondToRequests(mutex, request_to_wait)`, at a local request it neither returns nor pops.
  | spin (request : MutexRequest P)
deriving DecidableEq

/-- One process, with the history of its mutex server: the requests it has received or pushed, the
responses it has sent, and the local requests that the wait made for them has taken. -/
structure ServerState (P T : Type) where
  server : MutexServer P T
  stack : List (ServerFrame P)
  received : List (MutexRequest P)
  sent : List (Response P T)
  taken : List (MutexRequest P)

inductive ServerAction (P T : Type) where
  | build (id : DistributedId P) (data : T)
  | call (operation : MutexOperation P)
  | step
  | receive (source : P) (message : MutexMessage P T)
  | removeNode (id : DistributedId P) (sends : Nat)
  | leave

variable {P T : Type}

def MutexMessage.requests (source : P) : MutexMessage P T → List (MutexRequest P)
  | .request type id => [{ id, source := some source, type }]
  | .releaseAcquire _ _ | .unlock _ | .unlockShared _ => []

namespace HardSyncMutex

def releasedLocal (m : HardSyncMutex P T) (type : MutexRequestType) : HardSyncMutex P T :=
  if type.exclusive then m.unlock else m.unlockShared

-- Whether the server is notified of a local release.
def notified (m : HardSyncMutex P T) (type : MutexRequestType) : Bool :=
  type.exclusive || decide ((m.releasedLocal type).lockedShared = 0)

def release (m : HardSyncMutex P T) (type : MutexRequestType) :
    HardSyncMutex P T × List (Response P T) :=
  if m.notified type then (m.releasedLocal type).respondToRequests else (m.releasedLocal type, [])

-- What `respondToRequests(mutex, request_to_wait)` has done when it meets another local request.
def respondToOthers (m : HardSyncMutex P T) : HardSyncMutex P T × List (Response P T) :=
  m.requestsToProcess.2.respondAll m.requestsToProcess.1.dropLast

-- The local request that the queues serve next, if any.
def nextLocal (m : HardSyncMutex P T) : Option (MutexRequest P) :=
  if m.locked then none
  else (m.lockSharedRequests ++ m.lockRequests.take 1).find? (·.source.isNone)

end HardSyncMutex

namespace ServerState

variable [DecidableEq P] (isLocal : DistributedId P → Bool) (s : ServerState P T)

def update (id : DistributedId P) (result : HardSyncMutex P T × List (Response P T)) :
    ServerState P T :=
  { s with server := s.server.manage id result.1, sent := s.sent ++ result.2 }

def push (frame : ServerFrame P) : ServerState P T :=
  { s with stack := frame :: s.stack }

def build (id : DistributedId P) (data : T) : Option (ServerState P T) :=
  match s.stack, s.server.mutexMap id with
  | .spin _ :: _, _ => none
  | _, some _ => none
  | _, none => some { s with server := s.server.manage id (.build data) }

def access (type : MutexRequestType) (id : DistributedId P) (m : HardSyncMutex P T) :
    ServerState P T :=
  if m.busy type then
    let request : MutexRequest P := { id, source := Source.LOCAL, type }
    { s with
      server := s.server.manage id (m.pushRequest request)
      stack := .wait request :: s.stack
      received := s.received ++ [request] }
  else { s with server := s.server.manage id (m.granted type) }

-- The operations on DISTANT nodes send requests.
def perform : MutexOperation P → Option (ServerState P T)
  | .access type id =>
    if isLocal id then (s.server.mutexMap id).map (s.access type id) else some (s.push .cycle)
  | .release type id =>
    if isLocal id then (s.server.mutexMap id).map fun m => s.update id (m.release type)
    else some (s.push .cycle)
  | .send => some (s.push .cycle)

def call (operation : MutexOperation P) : Option (ServerState P T) :=
  if s.stack.isEmpty then s.perform isLocal operation else none

def step : Option (ServerState P T) :=
  match s.stack with
  | .handler (operation :: rest) :: stack =>
    { s with stack := .handler rest :: stack }.perform isLocal operation
  | _ => none

def receiveWait (request : MutexRequest P) (stack : List (ServerFrame P)) (source : P)
    (message : MutexMessage P T) (m : HardSyncMutex P T) : ServerState P T :=
  match m.handleWait request source message with
  | some (m', sent, true) =>
    { s.update message.id (m', sent) with
      stack := .reached request true :: stack, taken := s.taken ++ [request] }
  | some (m', sent, false) => s.update message.id (m', sent)
  | none => (s.update message.id (m.released message).respondToOthers).push (.spin request)

def receive (source : P) (message : MutexMessage P T) : Option (ServerState P T) :=
  let s' := { s with received := s.received ++ message.requests source }
  match s.stack with
  | .wait request :: stack =>
    (s.server.mutexMap message.id).map (s'.receiveWait request stack source message)
  | .cycle :: _ =>
    (s.server.mutexMap message.id).map fun m => s'.update message.id (m.handle source message)
  | _ => none

-- The handler of REMOVE_NODE: the operations of `DistributedGraph::removeNode`.
def removeNode (id : DistributedId P) (sends : Nat) : Option (ServerState P T) :=
  let handler := .handler (.access .lockShared id ::
    (List.replicate sends .send ++ [.release .lockShared id]))
  match s.stack with
  | .wait _ :: _ | .cycle :: _ => some (s.push handler)
  | .reached request true :: stack =>
    some { s with stack := handler :: .reached request false :: stack }
  | _ => none

def leave : Option (ServerState P T) :=
  match s.stack with
  | .reached request _ :: stack =>
    (s.server.mutexMap request.id).map fun m =>
      { s with server := s.server.manage request.id (m.granted request.type), stack }
  | .cycle :: stack | .handler [] :: stack => some { s with stack }
  | _ => none

def next : ServerAction P T → Option (ServerState P T)
  | .build id data => s.build id data
  | .call operation => s.call isLocal operation
  | .step => s.step isLocal
  | .receive source message => s.receive source message
  | .removeNode id sends => s.removeNode id sends
  | .leave => s.leave

def start : ServerState P T where
  server := { mutexMap := fun _ => none }
  stack := []
  received := []
  sent := []
  taken := []

-- The operation that user code or a handler starts.
def operation : ServerAction P T → Option (MutexOperation P)
  | .call operation => some operation
  | .step =>
    match s.stack with
    | .handler (operation :: _) :: _ => some operation
    | _ => none
  | _ => none

-- The mutex whose queued requests a step responds to, as the release has left it.
def responds : ServerAction P T → Option (HardSyncMutex P T)
  | .receive _ (.request _ _) => none
  | .receive _ message => (s.server.mutexMap message.id).map (·.released message)
  | action =>
    match s.operation action with
    | some (.release type id) =>
      if isLocal id then
        ((s.server.mutexMap id).filter (·.notified type)).map (·.releasedLocal type)
      else none
    | _ => none

end ServerState

/-- The runs of one process, with any traffic from the others. -/
def nestedServer [DecidableEq P] (isLocal : DistributedId P → Bool) :
    TransitionSystem (ServerState P T) (ServerAction P T) where
  init s := s = ServerState.start
  next s := s.next isLocal

end Fpmas.Synchro.Hard
