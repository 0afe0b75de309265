import Mathlib.Logic.Function.Iterate
import Fpmas.Synchro.Hard.RequestConservation

set_option autoImplicit false

namespace Fpmas.Synchro.Hard

/-- `respondToRequests(mutex, request_to_wait)`, between two turns of its loop. -/
inductive WaitLoop (P T : Type) where
  | running (mutex : HardSyncMutex P T) (sent : List (Response P T)) (requests : List (MutexRequest P))
  | returned (mutex : HardSyncMutex P T) (sent : List (Response P T)) (reached : Bool)

variable {P T : Type}

namespace WaitLoop

def remaining : WaitLoop P T → Nat
  | .running _ _ requests => requests.length + 1
  | .returned _ _ _ => 0

variable [DecidableEq P] (requestToWait : MutexRequest P)

def turn : WaitLoop P T → WaitLoop P T
  | .running m sent [] => .returned m sent false
  | .running m sent (request :: rest) =>
    match request.source with
    | some _ => .running (m.respondTo request).1 (sent ++ [(m.respondTo request).2]) rest
    | none =>
      if request = requestToWait then .returned m sent true else .running m sent (request :: rest)
  | .returned m sent reached => .returned m sent reached

def enter (m : HardSyncMutex P T) : WaitLoop P T :=
  .running m.requestsToProcess.2 [] m.requestsToProcess.1

def after (m : HardSyncMutex P T) (k : Nat) : WaitLoop P T :=
  (turn requestToWait)^[k] (enter m)

/-- Every turn consumes a request or returns. -/
def Progresses (m : HardSyncMutex P T) : Prop :=
  ∀ k, (after requestToWait m k).remaining = 0 ∨
    (after requestToWait m (k + 1)).remaining < (after requestToWait m k).remaining

def Ends (m : HardSyncMutex P T) : Prop :=
  ∃ k m' sent reached, after requestToWait m k = .returned m' sent reached

variable {requestToWait} {m : HardSyncMutex P T}

theorem turn_remote {request : MutexRequest P} (remote : request.source ≠ none)
    (sent : List (Response P T)) (rest : List (MutexRequest P)) :
    turn requestToWait (.running m sent (request :: rest)) =
      .running (m.respondTo request).1 (sent ++ [(m.respondTo request).2]) rest := by
  obtain ⟨p, source⟩ := Option.ne_none_iff_exists'.mp remote
  simp only [turn, source]

theorem turn_local {request : MutexRequest P} (isLocal : request.source = none)
    (sent : List (Response P T)) (rest : List (MutexRequest P)) :
    turn requestToWait (.running m sent (request :: rest)) =
      if request = requestToWait then .returned m sent true else .running m sent (request :: rest) := by
  simp only [turn, isLocal]

theorem turns_remote (requestToWait : MutexRequest P) (m : HardSyncMutex P T)
    {front : List (MutexRequest P)} (remote : ∀ r ∈ front, r.source ≠ none)
    (sent : List (Response P T)) (rest : List (MutexRequest P)) :
    (turn requestToWait)^[front.length] (.running m sent (front ++ rest)) =
      .running (m.respondAll front).1 (sent ++ (m.respondAll front).2) rest := by
  induction front generalizing m sent with
  | nil => simp [HardSyncMutex.respondAll]
  | cons request front ih =>
    rw [List.length_cons, Function.iterate_succ_apply, List.cons_append,
      turn_remote (remote request List.mem_cons_self),
      ih _ fun r member => remote r (List.mem_cons_of_mem request member)]
    simp [HardSyncMutex.respondAll]

-- A turn consumes a request or returns, unless it changes nothing.
theorem turn_cases (requestToWait : MutexRequest P) (s : WaitLoop P T) :
    s.remaining = 0 ∨ (turn requestToWait s).remaining < s.remaining ∨ turn requestToWait s = s := by
  cases s with
  | returned => exact .inl rfl
  | running m sent requests =>
    right
    cases requests with
    | nil => exact .inl (Nat.zero_lt_succ _)
    | cons request rest =>
      by_cases remote : request.source = none
      next =>
        rw [turn_local remote]
        split
        next => exact .inl (Nat.zero_lt_succ _)
        next => exact .inr rfl
      next =>
        rw [turn_remote remote]
        exact .inl (Nat.lt_succ_self _)

theorem after_succ (requestToWait : MutexRequest P) (m : HardSyncMutex P T) (k : Nat) :
    after requestToWait m (k + 1) = turn requestToWait (after requestToWait m k) :=
  Function.iterate_succ_apply' _ _ _

theorem after_stuck {k : Nat}
    (stuck : turn requestToWait (after requestToWait m k) = after requestToWait m k) (j : Nat) :
    after requestToWait m (k + j) = after requestToWait m k := by
  induction j with
  | zero => rfl
  | succ j ih => rw [← Nat.add_assoc, after_succ, ih, stuck]

theorem after_returned {k : Nat} {m' : HardSyncMutex P T} {sent : List (Response P T)} {reached : Bool}
    (returned : after requestToWait m k = .returned m' sent reached) (j : Nat) :
    after requestToWait m (k + j) = .returned m' sent reached := by
  rw [after_stuck _ j, returned]
  rw [returned]
  rfl

theorem progresses_iff_ends : Progresses requestToWait m ↔ Ends requestToWait m := by
  constructor
  next =>
    intro progresses
    have shrinks : ∀ k, (after requestToWait m k).remaining = 0 ∨
        (after requestToWait m k).remaining + k ≤ (enter m).remaining := by
      intro k
      induction k with
      | zero => exact .inr (Nat.le_refl _)
      | succ k ih =>
        rcases progresses k with done | fewer
        next =>
          left
          cases found : after requestToWait m k with
          | running =>
            rw [found] at done
            cases done
          | returned => rw [after_returned found 1, remaining]
        next =>
          right
          rcases ih with done | bound
          next => omega
          next => omega
    refine ⟨(enter m).remaining + 1, ?_⟩
    cases found : after requestToWait m ((enter m).remaining + 1) with
    | returned m' sent reached => exact ⟨m', sent, reached, rfl⟩
    | running m' sent requests =>
      rcases shrinks ((enter m).remaining + 1) with done | bound
      next =>
        rw [found] at done
        cases done
      next => omega
  next =>
    rintro ⟨last, m', sent, reached, returned⟩ k
    rw [after_succ]
    rcases turn_cases requestToWait (after requestToWait m k) with
      done | fewer | stuck
    next => exact .inl done
    next => exact .inr fewer
    next =>
      left
      have here : after requestToWait m (k + last) = .returned m' sent reached := by
        rw [Nat.add_comm]
        exact after_returned returned k
      rw [after_stuck stuck] at here
      rw [here, remaining]

theorem ends_iff :
    Ends requestToWait m ↔ ∀ r, m.nextLocal = some r → r = requestToWait := by
  have whole := List.append_nil m.requestsToProcess.1
  rcases m.nextLocal_cases with ⟨next, remote⟩ | ⟨front, last, next, isLocal, batch, remote⟩
  next =>
    refine iff_of_true ?_ fun r found => nomatch next.symm.trans found
    have turns := turns_remote requestToWait m.requestsToProcess.2 remote [] []
    rw [whole] at turns
    refine ⟨m.requestsToProcess.1.length + 1, ?_⟩
    rw [after_succ, after, enter, turns]
    exact ⟨_, _, _, rfl⟩
  next =>
    have here := turns_remote requestToWait m.requestsToProcess.2 remote [] [last]
    rw [← batch] at here
    change after requestToWait m front.length = _ at here
    have turned := after_succ requestToWait m front.length
    rw [here, turn_local isLocal] at turned
    constructor
    next =>
      rintro ⟨k, m', sent, reached, returned⟩ r found
      cases next.symm.trans found
      by_contra other
      rw [if_neg other, ← here] at turned
      rw [after_succ] at turned
      have stuck := after_stuck turned k
      rw [Nat.add_comm, after_returned returned, here] at stuck
      cases stuck
    next =>
      intro waited
      rw [if_pos (waited last next)] at turned
      exact ⟨_, _, _, _, turned⟩

end WaitLoop

/-- The loop ends when the local request that the queues serve next, if any, is the one that the
process waits for. -/
theorem wait_loop_ends_iff [DecidableEq P] (m : HardSyncMutex P T) (requestToWait : MutexRequest P) :
    (WaitLoop.Ends requestToWait m ∧ WaitLoop.Progresses requestToWait m) ↔
      ∀ r, m.nextLocal = some r → r = requestToWait := by
  rw [WaitLoop.progresses_iff_ends, and_self, WaitLoop.ends_iff]

-- The handler of a REMOVE_NODE request for `other`, run in the wait for the mutex of `id`, waits for the
-- mutex of `other`, which process `q` has locked.
def nestedWaitRun (q : P) (id other : DistributedId P) : List (ServerAction P Nat) :=
  [.build id 0, .build other 0, .call .send, .receive q (.request .lockShared id),
    .receive q (.request .lock other), .leave, .call (.access .lock id), .removeNode other 0, .step]

theorem wait_loop_spins : ¬ ∀ s : ServerState (Fin 2) Nat, (nestedServer fun _ => true).Reachable s →
    ∀ request stack, s.stack = .wait request :: stack →
    ∀ message m, s.server.mutexMap message.id = some m → WaitLoop.Ends request (m.released message) := by
  intro ends
  have ran : ((nestedServer (T := Nat) fun _ : DistributedId (Fin 2) => true).exec
      .start (nestedWaitRun 1 ⟨0, 0⟩ ⟨0, 1⟩)).map (fun s => (s.stack.head?,
        (s.server.mutexMap ⟨0, 0⟩).map fun m => (m.released (.unlockShared ⟨0, 0⟩)).nextLocal)) =
      some (some (.wait { id := ⟨0, 1⟩, source := Source.LOCAL, type := .lockShared }),
        some (some { id := ⟨0, 0⟩, source := Source.LOCAL, type := .lock })) := by
    decide
  obtain ⟨s, run, result⟩ := Option.map_eq_some_iff.mp ran
  obtain ⟨top, found⟩ := Prod.mk.inj result
  obtain ⟨m, found, next⟩ := Option.map_eq_some_iff.mp found
  obtain ⟨stack, top⟩ := List.head?_eq_some_iff.mp top
  have ended := ends s (TransitionSystem.reachable_exec _ (.start rfl) run) _ stack top
    (.unlockShared ⟨0, 0⟩) m found
  have same := WaitLoop.ends_iff.mp ended _ next
  cases same

end Fpmas.Synchro.Hard
