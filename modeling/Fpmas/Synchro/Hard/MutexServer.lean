import Fpmas.Synchro.Hard.HardSyncMutex

set_option autoImplicit false

namespace Fpmas.Synchro.Hard

-- A response sent by the server; READ and ACQUIRE responses carry the data of the node.
structure Response (P T : Type) where
  dest : Source P
  id : DistributedId P
  type : MutexRequestType
  data : Option T

-- What a mutex client sends to the process that owns the node.
inductive MutexMessage (P T : Type) where
  | request (type : MutexRequestType) (id : DistributedId P)
  | releaseAcquire (id : DistributedId P) (updated : T)
  | unlock (id : DistributedId P)
  | unlockShared (id : DistributedId P)

variable {P T : Type}

def MutexMessage.id : MutexMessage P T → DistributedId P
  | .request _ id | .releaseAcquire id _ | .unlock id | .unlockShared id => id

namespace HardSyncMutex

def respondToRead (m : HardSyncMutex P T) (id : DistributedId P) (source : Source P) :
    HardSyncMutex P T × Response P T :=
  (m.lockShared, { dest := source, id, type := .read, data := some m.data })

def respondToAcquire (m : HardSyncMutex P T) (id : DistributedId P) (source : Source P) :
    HardSyncMutex P T × Response P T :=
  (m.lock, { dest := source, id, type := .acquire, data := some m.data })

def respondToLock (m : HardSyncMutex P T) (id : DistributedId P) (source : Source P) :
    HardSyncMutex P T × Response P T :=
  (m.lock, { dest := source, id, type := .lock, data := none })

def respondToLockShared (m : HardSyncMutex P T) (id : DistributedId P) (source : Source P) :
    HardSyncMutex P T × Response P T :=
  (m.lockShared, { dest := source, id, type := .lockShared, data := none })

def respondTo (m : HardSyncMutex P T) (request : MutexRequest P) :
    HardSyncMutex P T × Response P T :=
  match request.type with
  | .read => m.respondToRead request.id request.source
  | .lock => m.respondToLock request.id request.source
  | .acquire => m.respondToAcquire request.id request.source
  | .lockShared => m.respondToLockShared request.id request.source

def handleRead (m : HardSyncMutex P T) (id : DistributedId P) (source : P) :
    HardSyncMutex P T × List (Response P T) :=
  if m.locked then
    (m.pushRequest { id, source := some source, type := .read }, [])
  else ((m.respondToRead id source).1, [(m.respondToRead id source).2])

def handleAcquire (m : HardSyncMutex P T) (id : DistributedId P) (source : P) :
    HardSyncMutex P T × List (Response P T) :=
  if m.locked || decide (m.lockedShared > 0) then
    (m.pushRequest { id, source := some source, type := .acquire }, [])
  else ((m.respondToAcquire id source).1, [(m.respondToAcquire id source).2])

def handleLock (m : HardSyncMutex P T) (id : DistributedId P) (source : P) :
    HardSyncMutex P T × List (Response P T) :=
  if m.locked || decide (m.lockedShared > 0) then
    (m.pushRequest { id, source := some source, type := .lock }, [])
  else ((m.respondToLock id source).1, [(m.respondToLock id source).2])

def handleLockShared (m : HardSyncMutex P T) (id : DistributedId P) (source : P) :
    HardSyncMutex P T × List (Response P T) :=
  if m.locked then
    (m.pushRequest { id, source := some source, type := .lockShared }, [])
  else ((m.respondToLockShared id source).1, [(m.respondToLockShared id source).2])

-- The loop of `respondToRequests(mutex)` on a batch.
def respondAll (m : HardSyncMutex P T) :
    List (MutexRequest P) → HardSyncMutex P T × List (Response P T)
  | [] => (m, [])
  | request :: rest =>
    ((respondAll (m.respondTo request).1 rest).1,
      (m.respondTo request).2 :: (respondAll (m.respondTo request).1 rest).2)

def respondToRequests (m : HardSyncMutex P T) : HardSyncMutex P T × List (Response P T) :=
  m.requestsToProcess.2.respondAll m.requestsToProcess.1

-- The loop of `respondToRequests(mutex, request_to_wait)`. A local request that is not the one waited for
-- is never popped: the loop does not end, which is `none` here.
def respondAllWait [DecidableEq P] (m : HardSyncMutex P T) (requestToWait : MutexRequest P) :
    List (MutexRequest P) → Option (HardSyncMutex P T × List (Response P T) × Bool)
  | [] => some (m, [], false)
  | request :: rest =>
    match request.source with
    | some _ =>
      (respondAllWait (m.respondTo request).1 requestToWait rest).map fun (m', sent, reached) =>
        (m', (m.respondTo request).2 :: sent, reached)
    | none => if request = requestToWait then some (m, [], true) else none

def respondToRequestsWait [DecidableEq P] (m : HardSyncMutex P T)
    (requestToWait : MutexRequest P) :
    Option (HardSyncMutex P T × List (Response P T) × Bool) :=
  m.requestsToProcess.2.respondAllWait requestToWait m.requestsToProcess.1

def released (m : HardSyncMutex P T) : MutexMessage P T → HardSyncMutex P T
  | .request _ _ => m
  | .releaseAcquire _ updated => { m.unlock with data := updated }
  | .unlock _ => m.unlock
  | .unlockShared _ => m.unlockShared

-- What the server does with one message when it waits for no local request.
def handle (m : HardSyncMutex P T) (source : P) :
    MutexMessage P T → HardSyncMutex P T × List (Response P T)
  | .request .read id => m.handleRead id source
  | .request .acquire id => m.handleAcquire id source
  | .request .lock id => m.handleLock id source
  | .request .lockShared id => m.handleLockShared id source
  | message => (m.released message).respondToRequests

-- What the server does with one message inside `wait(request_to_wait)`.
def handleWait [DecidableEq P] (m : HardSyncMutex P T) (requestToWait : MutexRequest P)
    (source : P) : MutexMessage P T → Option (HardSyncMutex P T × List (Response P T) × Bool)
  | .request type id =>
    some ((m.handle source (.request type id)).1, (m.handle source (.request type id)).2, false)
  | message => (m.released message).respondToRequestsWait requestToWait

-- The response that grants `request` on a mutex whose node holds `data`.
def response (data : T) (request : MutexRequest P) : Response P T :=
  { dest := request.source, id := request.id, type := request.type,
    data := match request.type with
      | .read | .acquire => some data
      | .lock | .lockShared => none }

theorem respondTo_eq (m : HardSyncMutex P T) (request : MutexRequest P) :
    m.respondTo request = (m.granted request.type, response m.data request) := by
  obtain ⟨id, source, type⟩ := request
  cases type <;> rfl

@[simp] theorem granted_data (m : HardSyncMutex P T) (type : MutexRequestType) :
    (m.granted type).data = m.data := by
  cases type <;> rfl

@[simp] theorem granted_queued (m : HardSyncMutex P T) (type : MutexRequestType) :
    (m.granted type).queued = m.queued := by
  cases type <;> rfl

@[simp] theorem released_queued (m : HardSyncMutex P T) (message : MutexMessage P T) :
    (m.released message).queued = m.queued := by
  cases message <;> rfl

theorem respondAll_sent (m : HardSyncMutex P T) (batch : List (MutexRequest P)) :
    (m.respondAll batch).2 = batch.map (response m.data) := by
  induction batch generalizing m with
  | nil => rfl
  | cons request rest ih => simp [respondAll, respondTo_eq, ih]

theorem respondAll_mutex (m : HardSyncMutex P T) (batch : List (MutexRequest P)) :
    (m.respondAll batch).1 =
      { m with
        locked := m.locked || batch.any (·.type.exclusive)
        lockedShared := m.lockedShared + batch.countP (fun r => !r.type.exclusive) } := by
  induction batch generalizing m with
  | nil => simp [respondAll]
  | cons request rest ih =>
    cases kind : request.type.exclusive <;>
      simp [respondAll, respondTo_eq, ih, granted, kind, lock, lockShared]
    omega

theorem respondToRequests_sent (m : HardSyncMutex P T) :
    m.respondToRequests.2 = m.requestsToProcess.1.map (response m.data) := by
  simp [respondToRequests, respondAll_sent]

theorem respondToRequests_mutex (m : HardSyncMutex P T) :
    m.respondToRequests.1 =
      { m.requestsToProcess.2 with
        locked := m.locked || m.requestsToProcess.1.any (·.type.exclusive)
        lockedShared := m.lockedShared +
          m.requestsToProcess.1.countP (fun r => !r.type.exclusive) } := by
  simp [respondToRequests, respondAll_mutex]

theorem respondAllWait_remote [DecidableEq P] (m : HardSyncMutex P T) (wait : MutexRequest P)
    (batch : List (MutexRequest P)) (remote : ∀ r ∈ batch, r.source ≠ none) :
    m.respondAllWait wait batch = some ((m.respondAll batch).1, (m.respondAll batch).2, false) := by
  induction batch generalizing m with
  | nil => rfl
  | cons request rest ih =>
    obtain ⟨p, source⟩ := Option.ne_none_iff_exists'.mp (remote request (by simp))
    have others := ih (m.respondTo request).1 fun r member => remote r (by simp [member])
    simp [respondAllWait, respondAll, source, others]

theorem respondAllWait_reached [DecidableEq P] (m : HardSyncMutex P T) (wait : MutexRequest P)
    (front : List (MutexRequest P)) (remote : ∀ r ∈ front, r.source ≠ none)
    (isLocal : wait.source = none) :
    m.respondAllWait wait (front ++ [wait]) =
      some ((m.respondAll front).1, (m.respondAll front).2, true) := by
  induction front generalizing m with
  | nil => simp [respondAllWait, respondAll, isLocal]
  | cons request rest ih =>
    obtain ⟨p, source⟩ := Option.ne_none_iff_exists'.mp (remote request (by simp))
    have others := ih (m.respondTo request).1 fun r member => remote r (by simp [member])
    simp [respondAllWait, respondAll, source, others]

theorem handle_request (m : HardSyncMutex P T) (source : P) (type : MutexRequestType)
    (id : DistributedId P) :
    m.handle source (.request type id) =
      if m.busy type then (m.pushRequest { id, source := some source, type }, [])
      else (m.granted type, [response m.data { id, source := some source, type }]) := by
  cases type <;> rfl

end HardSyncMutex

-- `mutex_map`; looking up an id that is not managed is an error.
structure MutexServer (P T : Type) where
  mutexMap : DistributedId P → Option (HardSyncMutex P T)

namespace MutexServer

variable [DecidableEq P]

def manage (server : MutexServer P T) (id : DistributedId P) (m : HardSyncMutex P T) :
    MutexServer P T :=
  { mutexMap := Function.update server.mutexMap id (some m) }

def remove (server : MutexServer P T) (id : DistributedId P) : MutexServer P T :=
  { mutexMap := Function.update server.mutexMap id none }

-- One request received by `handleIncomingRequests`.
def handleIncomingRequest (server : MutexServer P T) (source : P) (message : MutexMessage P T) :
    Option (MutexServer P T × List (Response P T)) :=
  (server.mutexMap message.id).map fun m =>
    (server.manage message.id (m.handle source message).1, (m.handle source message).2)

def handleIncomingRequestWait (server : MutexServer P T) (requestToWait : MutexRequest P)
    (source : P) (message : MutexMessage P T) :
    Option (MutexServer P T × List (Response P T) × Bool) :=
  (server.mutexMap message.id).bind fun m =>
    (m.handleWait requestToWait source message).map fun (m', sent, reached) =>
      (server.manage message.id m', sent, reached)

-- `notify`: the local process has released the mutex of node `id`.
def notify (server : MutexServer P T) (id : DistributedId P) :
    Option (MutexServer P T × List (Response P T)) :=
  (server.mutexMap id).map fun m =>
    (server.manage id m.respondToRequests.1, m.respondToRequests.2)

end MutexServer

end Fpmas.Synchro.Hard
