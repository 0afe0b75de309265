import Mathlib.Data.List.Basic
import Fpmas.Graph.DistributedId

set_option autoImplicit false

namespace Fpmas.Synchro.Hard

inductive MutexRequestType where
  | read
  | lock
  | acquire
  | lockShared
deriving DecidableEq

-- Requests that `requestsToProcess` serves from the exclusive queue.
def MutexRequestType.exclusive : MutexRequestType → Bool
  | .lock | .acquire => true
  | .read | .lockShared => false

-- The rank a request comes from; `none` stands for `MutexRequest::LOCAL`.
abbrev Source (P : Type) := Option P

abbrev Source.LOCAL {P : Type} : Source P := none

structure MutexRequest (P : Type) where
  id : DistributedId P
  source : Source P
  type : MutexRequestType
deriving DecidableEq

-- A node's mutex, with the data of the node it protects.
structure HardSyncMutex (P T : Type) where
  data : T
  locked : Bool
  lockedShared : Int
  lockRequests : List (MutexRequest P)
  lockSharedRequests : List (MutexRequest P)

variable {P T : Type}

def HardSyncMutex.build (data : T) : HardSyncMutex P T :=
  { data, locked := false, lockedShared := 0, lockRequests := [], lockSharedRequests := [] }

namespace HardSyncMutex

def lock (m : HardSyncMutex P T) : HardSyncMutex P T := { m with locked := true }
def lockShared (m : HardSyncMutex P T) : HardSyncMutex P T :=
  { m with lockedShared := m.lockedShared + 1 }
def unlock (m : HardSyncMutex P T) : HardSyncMutex P T := { m with locked := false }
def unlockShared (m : HardSyncMutex P T) : HardSyncMutex P T :=
  { m with lockedShared := m.lockedShared - 1 }

-- The mutex once an access of the given type is granted.
def granted (m : HardSyncMutex P T) (type : MutexRequestType) : HardSyncMutex P T :=
  if type.exclusive then m.lock else m.lockShared

def pushRequest (m : HardSyncMutex P T) (request : MutexRequest P) : HardSyncMutex P T :=
  match request.type with
  | .read => { m with lockSharedRequests := m.lockSharedRequests ++ [request] }
  | .lock => { m with lockRequests := m.lockRequests ++ [request] }
  | .acquire => { m with lockRequests := m.lockRequests ++ [request] }
  | .lockShared => { m with lockSharedRequests := m.lockSharedRequests ++ [request] }

-- The loop of `requestsToProcess` on the shared queue: the requests it pops, and what it leaves when it
-- stops at a request of the local process.
def popShared : List (MutexRequest P) → List (MutexRequest P) × Option (List (MutexRequest P))
  | [] => ([], none)
  | request :: rest =>
    match request.source with
    | none => ([request], some rest)
    | some _ => (request :: (popShared rest).1, (popShared rest).2)

def requestsToProcess (m : HardSyncMutex P T) : List (MutexRequest P) × HardSyncMutex P T :=
  if m.locked then ([], m) else
  match popShared m.lockSharedRequests with
  | (requests, some rest) => (requests, { m with lockSharedRequests := rest })
  | (requests, none) =>
    match m.lockRequests with
    | [] => (requests, { m with lockSharedRequests := [] })
    | request :: rest =>
      (requests ++ [request], { m with lockSharedRequests := [], lockRequests := rest })

-- All the queued requests, shared ones first.
def queued (m : HardSyncMutex P T) : List (MutexRequest P) :=
  m.lockSharedRequests ++ m.lockRequests

-- The condition under which `read` and `lockShared` (resp. `acquire` and `lock`) queue.
def busy (m : HardSyncMutex P T) (type : MutexRequestType) : Bool :=
  if type.exclusive then m.locked || decide (m.lockedShared > 0) else m.locked

theorem popShared_cases (requests : List (MutexRequest P)) :
    ((popShared requests).2 = none ∧ (popShared requests).1 = requests ∧
      ∀ r ∈ requests, r.source ≠ none) ∨
    ∃ front last rest, popShared requests = (front ++ [last], some rest) ∧
      requests = front ++ last :: rest ∧ last.source = none ∧ ∀ r ∈ front, r.source ≠ none := by
  induction requests with
  | nil => exact .inl ⟨rfl, rfl, by simp⟩
  | cons request rest ih =>
    cases source : request.source with
    | none => exact .inr ⟨[], request, rest, by simp [popShared, source], rfl, source, by simp⟩
    | some p =>
      rcases ih with ⟨stop, all, remote⟩ | ⟨front, last, left, popped, split, isLocal, remote⟩
      · refine .inl ⟨by simp [popShared, source, stop], by simp [popShared, source, all], ?_⟩
        simpa [source] using remote
      · refine .inr ⟨request :: front, last, left, by simp [popShared, source, popped],
          by simp [split], isLocal, ?_⟩
        simpa [source] using remote

@[simp] theorem pushRequest_data (m : HardSyncMutex P T) (r : MutexRequest P) :
    (m.pushRequest r).data = m.data := by
  cases type : r.type <;> simp [pushRequest, type]

@[simp] theorem pushRequest_locked (m : HardSyncMutex P T) (r : MutexRequest P) :
    (m.pushRequest r).locked = m.locked := by
  cases type : r.type <;> simp [pushRequest, type]

@[simp] theorem pushRequest_lockedShared (m : HardSyncMutex P T) (r : MutexRequest P) :
    (m.pushRequest r).lockedShared = m.lockedShared := by
  cases type : r.type <;> simp [pushRequest, type]

theorem pushRequest_queued (m : HardSyncMutex P T) (r : MutexRequest P) :
    (m.pushRequest r).queued.Perm (r :: m.queued) := by
  cases type : r.type <;> simp only [pushRequest, type, queued]
  · simp
  · rw [← List.append_assoc]
    exact List.perm_append_singleton _ _
  · rw [← List.append_assoc]
    exact List.perm_append_singleton _ _
  · simp

@[simp] theorem requestsToProcess_data (m : HardSyncMutex P T) :
    m.requestsToProcess.2.data = m.data := by
  unfold requestsToProcess
  repeat' split
  all_goals rfl

@[simp] theorem requestsToProcess_locked (m : HardSyncMutex P T) :
    m.requestsToProcess.2.locked = m.locked := by
  unfold requestsToProcess
  repeat' split
  all_goals rfl

@[simp] theorem requestsToProcess_lockedShared (m : HardSyncMutex P T) :
    m.requestsToProcess.2.lockedShared = m.lockedShared := by
  unfold requestsToProcess
  repeat' split
  all_goals rfl

theorem requestsToProcess_cases (m : HardSyncMutex P T) :
    (m.locked = true ∧ m.requestsToProcess = ([], m)) ∨
    (m.locked = false ∧ ∃ front last rest, last.source = none ∧ (∀ r ∈ front, r.source ≠ none) ∧
      m.lockSharedRequests = front ++ last :: rest ∧
      m.requestsToProcess = (front ++ [last], { m with lockSharedRequests := rest })) ∨
    (m.locked = false ∧ (∀ r ∈ m.lockSharedRequests, r.source ≠ none) ∧ m.lockRequests = [] ∧
      m.requestsToProcess = (m.lockSharedRequests, { m with lockSharedRequests := [] })) ∨
    (m.locked = false ∧ (∀ r ∈ m.lockSharedRequests, r.source ≠ none) ∧
      ∃ request rest, m.lockRequests = request :: rest ∧
        m.requestsToProcess = (m.lockSharedRequests ++ [request],
          { m with lockSharedRequests := [], lockRequests := rest })) := by
  cases locked : m.locked with
  | true => exact .inl ⟨rfl, by simp [requestsToProcess, locked]⟩
  | false =>
    rcases popShared_cases m.lockSharedRequests with
      ⟨stop, all, remote⟩ | ⟨front, last, rest, popped, split, isLocal, remote⟩
    · have popped : popShared m.lockSharedRequests = (m.lockSharedRequests, none) :=
        Prod.ext all stop
      cases exclusive : m.lockRequests with
      | nil =>
        exact .inr (.inr (.inl ⟨rfl, remote, rfl,
          by simp [requestsToProcess, locked, popped, exclusive]⟩))
      | cons request rest =>
        exact .inr (.inr (.inr ⟨rfl, remote, request, rest, rfl,
          by simp [requestsToProcess, locked, popped, exclusive]⟩))
    · exact .inr (.inl ⟨rfl, front, last, rest, isLocal, remote, split,
        by simp [requestsToProcess, locked, popped]⟩)

theorem requestsToProcess_perm (m : HardSyncMutex P T) :
    (m.requestsToProcess.1 ++ m.requestsToProcess.2.queued).Perm m.queued := by
  rcases m.requestsToProcess_cases with ⟨_, h⟩ | ⟨_, front, last, rest, _, _, split, h⟩ |
    ⟨_, _, empty, h⟩ | ⟨_, _, request, rest, split, h⟩
  · simp [h]
  · simp [h, queued, split]
  · simp [h, queued, empty]
  · simp [h, queued, split]

theorem requestsToProcess_local (m : HardSyncMutex P T) :
    (∀ r ∈ m.requestsToProcess.1, r.source ≠ none) ∨
    ∃ front last, m.requestsToProcess.1 = front ++ [last] ∧ last.source = none ∧
      ∀ r ∈ front, r.source ≠ none := by
  rcases m.requestsToProcess_cases with ⟨_, h⟩ | ⟨_, front, last, rest, isLocal, remote, _, h⟩ |
    ⟨_, remote, _, h⟩ | ⟨_, remote, request, rest, _, h⟩
  · simp [h]
  · exact .inr ⟨front, last, by rw [h], isLocal, remote⟩
  · rw [h]
    exact .inl remote
  · rw [h]
    cases source : request.source with
    | none => exact .inr ⟨_, request, rfl, source, remote⟩
    | some p =>
      refine .inl fun r member => ?_
      rcases List.mem_append.mp member with shared | single
      · exact remote r shared
      · rw [List.mem_singleton.mp single, source]
        exact Option.some_ne_none p

end HardSyncMutex

end Fpmas.Synchro.Hard
