import Mathlib.Data.List.Induction
import Fpmas.Library.TransitionSystem
import Fpmas.Synchro.Hard.HardSyncMutex

set_option autoImplicit false

namespace Fpmas.Synchro.Hard

variable {P T : Type}

inductive QueueAction (P : Type) where
  | push (request : MutexRequest P)
  | process
  | lock
  | lockShared
  | unlock
  | unlockShared

inductive QueueEvent (P : Type) where
  | pushed (request : MutexRequest P)
  | returned (batch : List (MutexRequest P))

/-- A mutex, with what it has been given and what it has returned so far. -/
structure QueueRun (P T : Type) where
  mutex : HardSyncMutex P T
  log : List (QueueEvent P)

namespace QueueEvent

def request : QueueEvent P → Option (MutexRequest P)
  | pushed request => some request
  | returned _ => none

def batch : QueueEvent P → Option (List (MutexRequest P))
  | pushed _ => none
  | returned batch => some batch

def pushes (log : List (QueueEvent P)) : List (MutexRequest P) := log.filterMap request
def batches (log : List (QueueEvent P)) : List (List (MutexRequest P)) := log.filterMap batch

@[simp] theorem pushes_pushed (log : List (QueueEvent P)) (request : MutexRequest P) :
    pushes (log ++ [pushed request]) = pushes log ++ [request] := by
  simp [pushes, QueueEvent.request]

@[simp] theorem batches_pushed (log : List (QueueEvent P)) (request : MutexRequest P) :
    batches (log ++ [pushed request]) = batches log := by
  simp [batches, QueueEvent.batch]

@[simp] theorem pushes_returned (log : List (QueueEvent P)) (batch : List (MutexRequest P)) :
    pushes (log ++ [returned batch]) = pushes log := by
  simp [pushes, QueueEvent.request]

@[simp] theorem batches_returned (log : List (QueueEvent P)) (batch : List (MutexRequest P)) :
    batches (log ++ [returned batch]) = batches log ++ [batch] := by
  simp [batches, QueueEvent.batch]

end QueueEvent

open QueueEvent

def QueueAction.next (s : QueueRun P T) : QueueAction P → Option (QueueRun P T)
  | push request =>
    some { mutex := s.mutex.pushRequest request, log := s.log ++ [.pushed request] }
  | process =>
    some { mutex := s.mutex.requestsToProcess.2, log := s.log ++ [.returned s.mutex.requestsToProcess.1] }
  | lock => some { s with mutex := s.mutex.lock }
  | lockShared => some { s with mutex := s.mutex.lockShared }
  | unlock => some { s with mutex := s.mutex.unlock }
  | unlockShared => some { s with mutex := s.mutex.unlockShared }

def queue (P T : Type) : TransitionSystem (QueueRun P T) (QueueAction P) where
  init s := ∃ data, s = { mutex := .build data, log := [] }
  next s action := action.next s

-- What a call returns, after `before`.
structure CallDiscipline (before : List (QueueEvent P)) (batch : List (MutexRequest P)) : Prop where
  atMostOne : ∃ shared exclusive, batch = shared ++ exclusive ∧ exclusive.length ≤ 1 ∧
    (∀ r ∈ shared, r.type.exclusive = false) ∧ ∀ r ∈ exclusive, r.type.exclusive = true
  localLast : ∀ front r rest, batch = front ++ r :: rest → r.source = .LOCAL → rest = []
  sharedFirst : (∃ r ∈ batch, r.type.exclusive = true) →
    (pushes before).filter (!·.type.exclusive) =
      (batches before ++ [batch]).flatten.filter (!·.type.exclusive)

/-- Every request that has been pushed is either in the queues or in one of the batches, once, and each
of the two kinds of requests comes out in the order in which it went in. -/
structure QueueDiscipline (s : QueueRun P T) : Prop where
  shared : (pushes s.log).filter (!·.type.exclusive) =
    (batches s.log).flatten.filter (!·.type.exclusive) ++ s.mutex.lockSharedRequests
  exclusive : (pushes s.log).filter (·.type.exclusive) =
    (batches s.log).flatten.filter (·.type.exclusive) ++ s.mutex.lockRequests
  calls : ∀ before batch after, s.log = before ++ .returned batch :: after →
    CallDiscipline before batch

namespace HardSyncMutex

variable (m : HardSyncMutex P T)

theorem requestsToProcess_split : ∃ shared exclusive, m.requestsToProcess.1 = shared ++ exclusive ∧
    exclusive.length ≤ 1 ∧
    m.lockSharedRequests = shared ++ m.requestsToProcess.2.lockSharedRequests ∧
    m.lockRequests = exclusive ++ m.requestsToProcess.2.lockRequests ∧
    (exclusive ≠ [] → m.requestsToProcess.2.lockSharedRequests = []) := by
  rcases m.requestsToProcess_cases with ⟨_, h⟩ | ⟨_, front, last, rest, _, _, split, h⟩ |
    ⟨_, _, empty, h⟩ | ⟨_, _, request, rest, split, h⟩
  · exact ⟨[], [], by simp [h]⟩
  · exact ⟨front ++ [last], [], by simp [h, split]⟩
  · exact ⟨m.lockSharedRequests, [], by simp [h, empty]⟩
  · exact ⟨m.lockSharedRequests, [request], by simp [h, split]⟩

theorem requestsToProcess_localLast {front rest : List (MutexRequest P)} {r : MutexRequest P}
    (batch : m.requestsToProcess.1 = front ++ r :: rest) (isLocal : r.source = .LOCAL) : rest = [] := by
  rcases m.requestsToProcess_local with remote | ⟨others, last, split, _, remote⟩
  · exact absurd isLocal (remote r (by simp [batch]))
  · -- The batch ends with `last`, and what comes before it is not LOCAL.
    cases rest using List.reverseRecOn with
    | nil => rfl
    | append_singleton rest x _ =>
      have same : others ++ [last] = (front ++ r :: rest) ++ [x] := by
        rw [← split, batch, List.append_assoc, List.cons_append]
      have inside : r ∈ others := by
        rw [(List.append_inj' same rfl).1]
        simp
      exact absurd isLocal (remote r inside)

end HardSyncMutex

namespace QueueDiscipline

variable {s : QueueRun P T}

theorem sharedQueue (kept : QueueDiscipline s) {r : MutexRequest P}
    (waits : r ∈ s.mutex.lockSharedRequests) : r.type.exclusive = false := by
  have pushed : r ∈ (pushes s.log).filter (!·.type.exclusive) := by
    rw [kept.shared]
    exact List.mem_append_right _ waits
  simpa using (List.mem_filter.mp pushed).2

theorem exclusiveQueue (kept : QueueDiscipline s) {r : MutexRequest P}
    (waits : r ∈ s.mutex.lockRequests) : r.type.exclusive = true := by
  have pushed : r ∈ (pushes s.log).filter (·.type.exclusive) := by
    rw [kept.exclusive]
    exact List.mem_append_right _ waits
  exact (List.mem_filter.mp pushed).2

theorem calls_append (kept : QueueDiscipline s) {event : QueueEvent P}
    (last : ∀ batch, event = .returned batch → CallDiscipline s.log batch)
    (before : List (QueueEvent P)) (batch : List (MutexRequest P)) (after : List (QueueEvent P))
    (split : s.log ++ [event] = before ++ .returned batch :: after) : CallDiscipline before batch := by
  cases after using List.reverseRecOn with
  | nil =>
    obtain ⟨rfl, same⟩ := List.append_inj' split rfl
    exact last batch (List.cons.inj same).1
  | append_singleton after x _ =>
    have same : s.log ++ [event] = (before ++ .returned batch :: after) ++ [x] :=
      split.trans (by rw [List.append_assoc, List.cons_append])
    exact kept.calls before batch after (List.append_inj' same rfl).1

theorem push (kept : QueueDiscipline s) (request : MutexRequest P) :
    QueueDiscipline { mutex := s.mutex.pushRequest request, log := s.log ++ [.pushed request] } := by
  refine ⟨?_, ?_, kept.calls_append fun batch returned => nomatch returned⟩
  · simp only [pushes_pushed, batches_pushed, List.filter_append, kept.shared]
    cases type : request.type <;>
      simp [HardSyncMutex.pushRequest, type, MutexRequestType.exclusive]
  · simp only [pushes_pushed, batches_pushed, List.filter_append, kept.exclusive]
    cases type : request.type <;>
      simp [HardSyncMutex.pushRequest, type, MutexRequestType.exclusive]

theorem process (kept : QueueDiscipline s) : QueueDiscipline
    { mutex := s.mutex.requestsToProcess.2
      log := s.log ++ [.returned s.mutex.requestsToProcess.1] } := by
  obtain ⟨shared, exclusive, batch, one, sharedQueue, exclusiveQueue, first⟩ :=
    s.mutex.requestsToProcess_split
  have isShared : ∀ r ∈ shared, r.type.exclusive = false := fun r member =>
    kept.sharedQueue (sharedQueue ▸ List.mem_append_left _ member)
  have isExclusive : ∀ r ∈ exclusive, r.type.exclusive = true := fun r member =>
    kept.exclusiveQueue (exclusiveQueue ▸ List.mem_append_left _ member)
  have sharedPart : (shared ++ exclusive).filter (!·.type.exclusive) = shared := by
    rw [List.filter_append, List.filter_eq_self.mpr (by simpa using isShared),
      List.filter_eq_nil_iff.mpr (by simpa using isExclusive), List.append_nil]
  have exclusivePart : (shared ++ exclusive).filter (·.type.exclusive) = exclusive := by
    rw [List.filter_append, List.filter_eq_nil_iff.mpr (by simpa using isShared),
      List.filter_eq_self.mpr isExclusive, List.nil_append]
  refine ⟨?_, ?_, kept.calls_append fun returned same => ?_⟩
  · simp only [pushes_returned, batches_returned, List.flatten_append, List.filter_append,
      List.flatten_singleton, batch, sharedPart, kept.shared]
    rw [List.append_assoc, ← sharedQueue]
  · simp only [pushes_returned, batches_returned, List.flatten_append, List.filter_append,
      List.flatten_singleton, batch, exclusivePart, kept.exclusive]
    rw [List.append_assoc, ← exclusiveQueue]
  · cases same
    refine ⟨⟨shared, exclusive, batch, one, isShared, isExclusive⟩,
      fun front r rest => s.mutex.requestsToProcess_localLast, ?_⟩
    rintro ⟨r, member, isExclusive'⟩
    have some_ : exclusive ≠ [] := by
      rintro rfl
      rw [batch, List.append_nil] at member
      rw [isShared r member] at isExclusive'
      cases isExclusive'
    rw [kept.shared, List.flatten_append, List.filter_append, List.flatten_singleton, batch,
      sharedPart, sharedQueue, first some_, List.append_nil]

end QueueDiscipline

/-- Whatever happens to the lock, no request is lost, duplicated or overtaken. -/
theorem queue_discipline {s : QueueRun P T} (reached : (queue P T).Reachable s) :
    QueueDiscipline s := by
  refine reached.invariant (I := QueueDiscipline) ?_ ?_
  · rintro s ⟨data, rfl⟩
    refine ⟨rfl, rfl, fun before batch after split => ?_⟩
    exact absurd split.symm (by simp)
  · rintro s action t _ kept _ taken
    cases action with
    | push request =>
      cases taken
      exact kept.push request
    | process =>
      cases taken
      exact kept.process
    | lock | lockShared | unlock | unlockShared =>
      cases taken
      exact ⟨kept.shared, kept.exclusive, kept.calls⟩

-- The local process reads, while two others ask for the node.
theorem queue_discipline_local : ∃ s : QueueRun Nat Unit,
    (queue Nat Unit).exec { mutex := .build (), log := [] }
      [.push ⟨⟨0, 0⟩, some 1, .lock⟩, .lock, .push ⟨⟨0, 0⟩, .LOCAL, .read⟩, .unlock, .process,
        .push ⟨⟨0, 0⟩, some 2, .read⟩, .process] = some s ∧
    s.mutex.queued = [] ∧ QueueDiscipline s := by
  have run : ((queue Nat Unit).exec { mutex := .build (), log := [] }
      [.push ⟨⟨0, 0⟩, some 1, .lock⟩, .lock, .push ⟨⟨0, 0⟩, .LOCAL, .read⟩, .unlock, .process,
        .push ⟨⟨0, 0⟩, some 2, .read⟩, .process]).map (fun s => s.mutex.queued) = some [] := by
    decide
  obtain ⟨s, taken, left⟩ := Option.map_eq_some_iff.mp run
  have started : (queue Nat Unit).Reachable { mutex := .build (), log := [] } := .start ⟨(), rfl⟩
  have reached := TransitionSystem.reachable_exec _ started taken
  exact ⟨s, taken, left, queue_discipline reached⟩

end Fpmas.Synchro.Hard
