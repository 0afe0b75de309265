import Fpmas.Synchro.Hard.NestedServer

set_option autoImplicit false

namespace Fpmas.Synchro.Hard

variable {P T : Type}

def Response.request (x : Response P T) : MutexRequest P :=
  { id := x.id, source := x.dest, type := x.type }

namespace HardSyncMutex

@[simp] theorem response_request (data : T) (request : MutexRequest P) :
    (response data request).request = request := rfl

theorem nextLocal_cases (m : HardSyncMutex P T) :
    (m.nextLocal = none ∧ ∀ r ∈ m.requestsToProcess.1, r.source ≠ none) ∨
    ∃ front last, m.nextLocal = some last ∧ last.source = none ∧
      m.requestsToProcess.1 = front ++ [last] ∧ ∀ r ∈ front, r.source ≠ none := by
  have remote : ∀ {requests : List (MutexRequest P)}, (∀ r ∈ requests, r.source ≠ none) →
      requests.find? (·.source.isNone) = none := by
    intro requests all
    rw [List.find?_eq_none]
    exact fun r member missing => all r member (Option.isNone_iff_eq_none.mp missing)
  unfold nextLocal
  rcases m.requestsToProcess_cases with ⟨locked, batch⟩ |
    ⟨free, front, last, rest, isLocal, others, split, batch⟩ |
    ⟨free, others, empty, batch⟩ | ⟨free, others, request, rest, split, batch⟩
  next =>
    left
    simp [locked, batch]
  next =>
    right
    refine ⟨front, last, ?_, isLocal, by rw [batch], others⟩
    simp [free, split, List.find?_append, remote others, isLocal]
  next =>
    left
    rw [batch]
    exact ⟨by simp [free, empty, remote others], others⟩
  next =>
    rw [batch]
    cases source : request.source with
    | none =>
      right
      refine ⟨m.lockSharedRequests, request, ?_, source, rfl, others⟩
      simp [free, split, List.find?_append, remote others, source]
    | some p =>
      left
      constructor
      next => simp [free, split, List.find?_append, remote others, source]
      next =>
        intro r member
        rcases List.mem_append.mp member with shared | single
        next => exact others r shared
        next =>
          rw [List.mem_singleton.mp single, source]
          exact Option.some_ne_none p

variable (m : HardSyncMutex P T)

@[simp] theorem releasedLocal_queued (type : MutexRequestType) :
    (m.releasedLocal type).queued = m.queued := by
  cases type <;> rfl

@[simp] theorem respondAll_queued (batch : List (MutexRequest P)) :
    (m.respondAll batch).1.queued = m.queued := by
  rw [respondAll_mutex]
  rfl

theorem respondAll_requests (batch : List (MutexRequest P)) :
    (m.respondAll batch).2.map Response.request = batch := by
  rw [respondAll_sent, List.map_map]
  exact (List.map_congr_left fun r _ => response_request _ r).trans (List.map_id batch)

/-- The requests that a mutex has queued or received are queued, answered or taken by a wait. -/
structure Serves (m : HardSyncMutex P T) (new : List (MutexRequest P)) (m' : HardSyncMutex P T)
    (sent : List (Response P T)) (taken : List (MutexRequest P)) : Prop where
  perm : (new ++ m.queued).Perm (m'.queued ++ (sent.map Response.request ++ taken))
  remote : ∀ x ∈ sent, x.dest ≠ Source.LOCAL

theorem respondAll_serves {front : List (MutexRequest P)} {taken : List (MutexRequest P)}
    (batch : m.requestsToProcess.1 = front ++ taken) (remote : ∀ r ∈ front, r.source ≠ none) :
    Serves m [] (m.requestsToProcess.2.respondAll front).1
      (m.requestsToProcess.2.respondAll front).2 taken := by
  constructor
  case perm =>
    rw [respondAll_queued, respondAll_requests, List.nil_append, ← batch]
    exact m.requestsToProcess_perm.symm.trans List.perm_append_comm
  case remote =>
    intro x answered
    rw [respondAll_sent] at answered
    obtain ⟨r, member, rfl⟩ := List.mem_map.mp answered
    exact remote r member

theorem respondToRequests_serves (unwaited : m.nextLocal = none) :
    Serves m [] m.respondToRequests.1 m.respondToRequests.2 [] := by
  rcases m.nextLocal_cases with ⟨_, remote⟩ | ⟨_, last, next, _⟩
  next => exact m.respondAll_serves (List.append_nil _).symm remote
  next => cases unwaited.symm.trans next

variable [DecidableEq P]

theorem respondToRequestsWait_serves {request : MutexRequest P}
    (waited : ∀ r, m.nextLocal = some r → r = request) :
    ∃ m' sent reached, m.respondToRequestsWait request = some (m', sent, reached) ∧
      Serves m [] m' sent (if reached then [request] else []) := by
  unfold respondToRequestsWait
  rcases m.nextLocal_cases with ⟨_, remote⟩ | ⟨front, last, next, isLocal, batch, remote⟩
  next =>
    refine ⟨_, _, _, respondAllWait_remote _ _ _ remote, ?_⟩
    exact m.respondAll_serves (List.append_nil _).symm remote
  next =>
    obtain rfl := waited last next
    refine ⟨_, _, _, by rw [batch, respondAllWait_reached _ _ _ remote isLocal], ?_⟩
    exact m.respondAll_serves batch remote

omit [DecidableEq P] in
theorem handle_request_serves (source : P) (type : MutexRequestType) (id : DistributedId P) :
    Serves m [{ id, source := some source, type }] (m.handle source (.request type id)).1
      (m.handle source (.request type id)).2 [] := by
  rw [handle_request]
  split
  next =>
    exact ⟨by simpa using (m.pushRequest_queued _).symm, by simp⟩
  next =>
    constructor
    case perm =>
      rw [granted_queued]
      exact List.perm_append_comm
    case remote =>
      intro x answered
      rw [List.mem_singleton.mp answered]
      exact Option.some_ne_none source

omit [DecidableEq P] in
theorem Serves.of_released {m' : HardSyncMutex P T} {message : MutexMessage P T}
    {sent : List (Response P T)} {taken : List (MutexRequest P)}
    (serves : Serves (m.released message) [] m' sent taken) : Serves m [] m' sent taken :=
  ⟨by simpa only [released_queued] using serves.perm, serves.remote⟩

omit [DecidableEq P] in
theorem handle_serves (source : P) (message : MutexMessage P T)
    (unwaited : (∀ type id, message ≠ .request type id) → (m.released message).nextLocal = none) :
    Serves m (message.requests source) (m.handle source message).1 (m.handle source message).2 [] := by
  cases message with
  | request type id => exact m.handle_request_serves source type id
  | releaseAcquire id updated =>
    exact Serves.of_released m (respondToRequests_serves _ (unwaited (by simp)))
  | unlock id => exact Serves.of_released m (respondToRequests_serves _ (unwaited (by simp)))
  | unlockShared id => exact Serves.of_released m (respondToRequests_serves _ (unwaited (by simp)))

theorem handleWait_serves {request : MutexRequest P} (source : P) (message : MutexMessage P T)
    (waited : (∀ type id, message ≠ .request type id) →
      ∀ r, (m.released message).nextLocal = some r → r = request) :
    ∃ m' sent reached, m.handleWait request source message = some (m', sent, reached) ∧
      Serves m (message.requests source) m' sent (if reached then [request] else []) := by
  have release : (∀ type id, message ≠ .request type id) →
      ∃ m' sent reached,
        (m.released message).respondToRequestsWait request = some (m', sent, reached) ∧
          Serves m [] m' sent (if reached then [request] else []) := by
    intro releasing
    obtain ⟨m', sent, reached, result, serves⟩ :=
      (m.released message).respondToRequestsWait_serves (waited releasing)
    exact ⟨m', sent, reached, result, serves.of_released m⟩
  cases message with
  | request type id => exact ⟨_, _, false, rfl, m.handle_request_serves source type id⟩
  | releaseAcquire | unlock | unlockShared => exact release (by simp)

omit [DecidableEq P] in
-- A local request that the queues serve next is answered outside of a wait.
theorem respondToRequests_answers {r : MutexRequest P} (next : m.nextLocal = some r) :
    ∃ x ∈ m.respondToRequests.2, x.dest = Source.LOCAL := by
  rcases m.nextLocal_cases with ⟨none, _⟩ | ⟨front, last, _, isLocal, batch, _⟩
  next => cases none.symm.trans next
  next =>
    refine ⟨response m.data last, ?_, isLocal⟩
    rw [respondToRequests_sent, batch]
    simp

theorem respondAllWait_blocked {request r : MutexRequest P} {front : List (MutexRequest P)}
    (isLocal : r.source = none) (other : request ≠ r) (remote : ∀ x ∈ front, x.source ≠ none) :
    m.respondAllWait request (front ++ [r]) = none := by
  induction front generalizing m with
  | nil => simp [respondAllWait, isLocal, other.symm]
  | cons first rest ih =>
    obtain ⟨p, source⟩ := Option.ne_none_iff_exists'.mp (remote first (by simp))
    simp [respondAllWait, source, ih _ fun x member => remote x (by simp [member])]

-- In a wait for another local request, it leaves the queues and nothing answers it.
theorem respondToOthers_loses {request r : MutexRequest P} (next : m.nextLocal = some r)
    (other : request ≠ r) :
    m.respondToRequestsWait request = none ∧ r ∈ m.queued ∧
      m.respondToOthers.1.queued.count r < m.queued.count r := by
  rcases m.nextLocal_cases with ⟨none, _⟩ | ⟨front, last, found, isLocal, batch, remote⟩
  next => cases none.symm.trans next
  next =>
    cases found.symm.trans next
    have perm := m.requestsToProcess_perm
    rw [batch] at perm
    refine ⟨by rw [respondToRequestsWait, batch, respondAllWait_blocked _ isLocal other remote], perm.subset (by simp), ?_⟩
    have count := perm.count_eq r
    rw [respondToOthers, respondAll_queued]
    simp only [List.count_append, List.count_singleton_self] at count
    omega

omit [DecidableEq P] in
theorem granted_serves (type : MutexRequestType) : Serves m [] (m.granted type) [] [] :=
  ⟨by simp, by simp⟩

omit [DecidableEq P] in
theorem pushRequest_serves (request : MutexRequest P) :
    Serves m [request] (m.pushRequest request) [] [] :=
  ⟨by simpa using (m.pushRequest_queued request).symm, by simp⟩

end HardSyncMutex

open HardSyncMutex (Serves)

variable [DecidableEq P]

theorem MutexMessage.requests_remote (message : MutexMessage P T) (source : P) {r : MutexRequest P}
    (own : r.source = Source.LOCAL) : (message.requests source).count r = 0 := by
  cases message with
  | request type id =>
    refine List.count_eq_zero.mpr fun member => ?_
    rw [List.mem_singleton.mp member] at own
    cases own
  | releaseAcquire | unlock | unlockShared => rfl

namespace ServerState

def queued (s : ServerState P T) (r : MutexRequest P) : Nat :=
  ((s.server.mutexMap r.id).elim [] (·.queued)).count r

def granted (s : ServerState P T) : List (MutexRequest P) :=
  s.sent.map Response.request ++ s.taken

/-- A request received or pushed is queued or granted; a local one is queued while the wait made for
it runs. -/
structure Conserved (s : ServerState P T) : Prop where
  placed : ∀ id m, s.server.mutexMap id = some m → ∀ r ∈ m.queued, r.id = id
  once : ∀ r, s.received.count r = s.queued r + s.granted.count r
  waiting : ∀ r, r.source = Source.LOCAL → s.queued r = s.stack.count (.wait r)
  answered : ∀ x ∈ s.sent, x.dest ≠ Source.LOCAL

/-- The requests a step responds to end with a local one only in the wait made for it. -/
def Served (isLocal : DistributedId P → Bool) (s : ServerState P T) (a : ServerAction P T) : Prop :=
  ∀ r ∈ (s.responds isLocal a).bind (·.nextLocal), s.stack.head? = some (.wait r)

instance (isLocal : DistributedId P → Bool) (s : ServerState P T) (a : ServerAction P T) :
    Decidable (Served isLocal s a) :=
  inferInstanceAs (Decidable (∀ r ∈ (s.responds isLocal a).bind (·.nextLocal), _))

variable {isLocal : DistributedId P → Bool} {s s' : ServerState P T}

theorem Conserved.change (inv : Conserved s) {id : DistributedId P} {m m' : HardSyncMutex P T}
    {new taken : List (MutexRequest P)} {sent : List (Response P T)}
    (found : s.server.mutexMap id = some m) (serves : Serves m new m' sent taken)
    (placed : ∀ r ∈ new, r.id = id) (server : s'.server = s.server.manage id m')
    (received : s'.received = s.received ++ new) (answers : s'.sent = s.sent ++ sent)
    (takes : s'.taken = s.taken ++ taken)
    (waits : ∀ r, r.source = Source.LOCAL →
      s'.stack.count (.wait r) + taken.count r = s.stack.count (.wait r) + new.count r) :
    Conserved s' := by
  have mutex : ∀ id', s'.server.mutexMap id' = if id' = id then some m' else s.server.mutexMap id' := by
    intro id'
    rw [server]
    exact Function.update_apply ..
  have all : ∀ r ∈ new ++ m.queued, r.id = id := by
    intro r member
    rcases List.mem_append.mp member with fresh | old
    next => exact placed r fresh
    next => exact inv.placed id m found r old
  have counts : ∀ r, new.count r + m.queued.count r =
      m'.queued.count r + ((sent.map Response.request).count r + taken.count r) := by
    intro r
    simpa only [List.count_append] using serves.perm.count_eq r
  have balance : ∀ r, s.queued r + new.count r =
      s'.queued r + ((sent.map Response.request).count r + taken.count r) := by
    intro r
    unfold queued
    rw [mutex]
    by_cases here : r.id = id
    next =>
      rw [if_pos here, here, found]
      simp only [Option.elim_some]
      have := counts r
      omega
    next =>
      have absent : ∀ requests, requests ⊆ new ++ m.queued → requests.count r = 0 :=
        fun requests inside => List.count_eq_zero.mpr fun member => here (all r (inside member))
      have results : (sent.map Response.request ++ taken) ⊆ new ++ m.queued := fun x member =>
        serves.perm.symm.subset (List.mem_append_right _ member)
      rw [if_neg here, absent new (List.subset_append_left _ _), ← List.count_append,
        absent _ results]
  constructor
  case placed =>
    intro id' m₁ managed r member
    rw [mutex] at managed
    split at managed
    case isTrue same =>
      cases managed
      rw [same]
      exact all r (serves.perm.symm.subset (List.mem_append_left _ member))
    case isFalse => exact inv.placed id' m₁ managed r member
  case once =>
    intro r
    have := inv.once r
    have := balance r
    simp only [granted, received, answers, takes, List.map_append, List.count_append] at *
    omega
  case waiting =>
    intro r own
    have remote : (sent.map Response.request).count r = 0 := by
      refine List.count_eq_zero.mpr fun member => ?_
      obtain ⟨x, answered, rfl⟩ := List.mem_map.mp member
      exact serves.remote x answered own
    have := inv.waiting r own
    have := waits r own
    have := balance r
    omega
  case answered =>
    rw [answers]
    intro x member
    rcases List.mem_append.mp member with old | fresh
    next => exact inv.answered x old
    next => exact serves.remote x fresh

theorem Conserved.stacked (inv : Conserved s) {stack : List (ServerFrame P)}
    (waits : ∀ r, stack.count (.wait r) = s.stack.count (.wait r)) :
    Conserved { s with stack } :=
  ⟨inv.placed, inv.once, fun r own => (inv.waiting r own).trans (waits r).symm, inv.answered⟩

theorem Conserved.push (inv : Conserved s) {frame : ServerFrame P} (other : ∀ r, frame ≠ .wait r) :
    Conserved (s.push frame) :=
  inv.stacked fun r => List.count_cons_of_ne (other r)

theorem Conserved.build (inv : Conserved s) {id : DistributedId P} {data : T}
    (taken : s.build id data = some s') : Conserved s' := by
  unfold ServerState.build at taken
  split at taken <;> cases taken
  next stack absent _ =>
    have mutex : ∀ id', (s.server.manage id (.build data)).mutexMap id' =
        if id' = id then some (.build data) else s.server.mutexMap id' := fun id' =>
      Function.update_apply ..
    have queues : ∀ r, ServerState.queued
        { s with server := s.server.manage id (.build data) } r = s.queued r := by
      intro r
      unfold queued
      rw [mutex]
      by_cases here : r.id = id
      next =>
        rw [if_pos here, here, absent]
        rfl
      next => rw [if_neg here]
    refine ⟨fun id' m managed r member => ?_, fun r => ?_, fun r own => ?_, inv.answered⟩
    next =>
      rw [mutex] at managed
      by_cases here : id' = id
      next =>
        rw [if_pos here] at managed
        cases managed
        cases member
      next =>
        rw [if_neg here] at managed
        exact inv.placed id' m managed r member
    next => rw [queues]; exact inv.once r
    next => rw [queues]; exact inv.waiting r own

theorem Conserved.access (inv : Conserved s) {type : MutexRequestType} {id : DistributedId P}
    {m : HardSyncMutex P T} (found : s.server.mutexMap id = some m) :
    Conserved (s.access type id m) := by
  unfold ServerState.access
  split
  case isTrue =>
    refine inv.change found (m.pushRequest_serves _) (by simp) rfl rfl (by simp) (by simp) ?_
    intro r _
    simp [List.count_cons, List.count_nil]
  case isFalse =>
    exact inv.change found (m.granted_serves type) (by simp) rfl (by simp) (by simp) (by simp)
      (by simp)

theorem Conserved.perform (inv : Conserved s) {operation : MutexOperation P}
    (unwaited : ∀ type id m, operation = .release type id → isLocal id = true →
      s.server.mutexMap id = some m → m.notified type = true → (m.releasedLocal type).nextLocal = none)
    (taken : s.perform isLocal operation = some s') : Conserved s' := by
  cases operation with
  | access type id =>
    simp only [ServerState.perform] at taken
    split at taken
    case isTrue =>
      obtain ⟨m, found, rfl⟩ := Option.map_eq_some_iff.mp taken
      exact inv.access found
    case isFalse =>
      cases taken
      exact inv.push (by simp)
  | release type id =>
    simp only [ServerState.perform] at taken
    split at taken
    case isTrue own =>
      obtain ⟨m, found, rfl⟩ := Option.map_eq_some_iff.mp taken
      have serves : Serves m [] (m.release type).1 (m.release type).2 [] := by
        unfold HardSyncMutex.release
        split
        case isTrue notified =>
          have responds := (m.releasedLocal type).respondToRequests_serves
            (unwaited type id m rfl own found notified)
          exact ⟨by simpa using responds.perm, responds.remote⟩
        case isFalse => exact ⟨by simp, by simp⟩
      exact inv.change found serves (by simp) rfl (by simp [update]) rfl (by simp [update])
        (by simp [update])
    case isFalse =>
      cases taken
      exact inv.push (by simp)
  | send =>
    cases taken
    exact inv.push (by simp)

theorem Conserved.call (inv : Conserved s) {operation : MutexOperation P}
    (served : Served isLocal s (.call operation)) (taken : s.call isLocal operation = some s') :
    Conserved s' := by
  obtain ⟨empty, taken⟩ := Option.ite_none_right_eq_some.mp taken
  refine inv.perform ?_ taken
  rintro type id m rfl own found notified
  by_contra waited
  obtain ⟨r, next⟩ := Option.ne_none_iff_exists'.mp waited
  have top := served r
    (by simp [responds, ServerState.operation, own, found, Option.filter, notified, next])
  rw [List.isEmpty_iff.mp empty] at top
  cases top

theorem Conserved.step (inv : Conserved s) (served : Served isLocal s .step)
    (taken : s.step isLocal = some s') : Conserved s' := by
  unfold ServerState.step at taken
  split at taken
  case h_2 => cases taken
  case h_1 operation rest stack top =>
    have rested : Conserved { s with stack := .handler rest :: stack } :=
      inv.stacked fun r => by simp [top]
    refine rested.perform ?_ taken
    rintro type id m rfl own found notified
    by_contra waited
    obtain ⟨r, next⟩ := Option.ne_none_iff_exists'.mp waited
    have managed : s.server.mutexMap id = some m := found
    have waiting := served r
      (by simp [responds, ServerState.operation, top, own, managed, Option.filter, notified,
        next])
    rw [top] at waiting
    cases waiting

theorem Conserved.receive (inv : Conserved s) {source : P} {message : MutexMessage P T}
    (served : Served isLocal s (.receive source message))
    (taken : s.receive source message = some s') : Conserved s' := by
  unfold ServerState.receive at taken
  have placed : ∀ r ∈ message.requests source, r.id = message.id := by
    intro r member
    cases message with
    | request type id =>
      rw [List.mem_singleton.mp member]
      rfl
    | releaseAcquire | unlock | unlockShared => cases member
  have responds : ∀ {m}, s.server.mutexMap message.id = some m →
      (∀ type id, message ≠ .request type id) →
      ∀ r, (m.released message).nextLocal = some r → s.stack.head? = some (.wait r) := by
    intro m found releasing r next
    refine served r (Option.bind_eq_some_iff.mpr ⟨m.released message, ?_, next⟩)
    cases message with
    | request type id => exact absurd rfl (releasing type id)
    | releaseAcquire | unlock | unlockShared => exact Option.map_eq_some_iff.mpr ⟨m, found, rfl⟩
  split at taken
  case h_1 request stack top =>
    obtain ⟨m, found, rfl⟩ := Option.map_eq_some_iff.mp taken
    have waited : (∀ type id, message ≠ .request type id) →
        ∀ r, (m.released message).nextLocal = some r → r = request := by
      intro releasing r next
      have waiting := responds found releasing r next
      rw [top] at waiting
      cases waiting
      rfl
    obtain ⟨m', sent, reached, result, serves⟩ := m.handleWait_serves source message waited
    unfold receiveWait
    rw [result]
    cases reached with
    | true =>
      refine inv.change found serves placed rfl rfl rfl rfl fun r own => ?_
      have fresh := message.requests_remote source own
      simp [top, fresh, List.count_cons]
    | false =>
      refine inv.change found serves placed rfl rfl rfl (by simp [update]) fun r own => ?_
      have fresh := message.requests_remote source own
      simp [update, fresh]
  case h_2 stack top =>
    obtain ⟨m, found, rfl⟩ := Option.map_eq_some_iff.mp taken
    have unwaited : (∀ type id, message ≠ .request type id) →
        (m.released message).nextLocal = none := by
      intro releasing
      by_contra waited
      obtain ⟨r, next⟩ := Option.ne_none_iff_exists'.mp waited
      have waiting := responds found releasing r next
      rw [top] at waiting
      cases waiting
    refine inv.change found (m.handle_serves source message unwaited) placed rfl rfl rfl
      (by simp [update]) fun r own => ?_
    have fresh := message.requests_remote source own
    simp [update, fresh]
  case h_3 => cases taken

theorem Conserved.removeNode (inv : Conserved s) {id : DistributedId P} {sends : Nat}
    (taken : s.removeNode id sends = some s') : Conserved s' := by
  unfold ServerState.removeNode at taken
  split at taken
  case h_1 | h_2 =>
    cases taken
    exact inv.push (by simp)
  case h_3 top =>
    cases taken
    exact inv.stacked fun r => by simp [top]
  case h_4 => cases taken

theorem Conserved.leave (inv : Conserved s) (taken : s.leave = some s') : Conserved s' := by
  unfold ServerState.leave at taken
  split at taken
  case h_1 request link stack top =>
    obtain ⟨m, found, rfl⟩ := Option.map_eq_some_iff.mp taken
    exact inv.change found (m.granted_serves _) (by simp) rfl (by simp) (by simp) (by simp)
      (by simp [top])
  case h_2 top | h_3 top =>
    cases taken
    exact inv.stacked fun r => by simp [top]
  case h_4 => cases taken

theorem Conserved.next (inv : Conserved s) {a : ServerAction P T} (served : Served isLocal s a)
    (taken : s.next isLocal a = some s') : Conserved s' := by
  cases a with
  | build id data => exact inv.build taken
  | call operation => exact inv.call served taken
  | step => exact inv.step served taken
  | receive source message => exact inv.receive served taken
  | removeNode id sends => exact inv.removeNode taken
  | leave => exact inv.leave taken

theorem perform_stack {operation : MutexOperation P} (taken : s.perform isLocal operation = some s')
    (r : MutexRequest P) : s.stack.count (.wait r) ≤ s'.stack.count (.wait r) := by
  have pushed : ∀ frame, s.stack.count (.wait r) ≤ (s.push frame).stack.count (.wait r) :=
    fun _ => List.count_le_count_cons
  cases operation with
  | access type id =>
    simp only [ServerState.perform] at taken
    split at taken
    case isTrue =>
      obtain ⟨m, _, rfl⟩ := Option.map_eq_some_iff.mp taken
      unfold ServerState.access
      split
      case isTrue => exact List.count_le_count_cons
      case isFalse => exact Nat.le_refl _
    case isFalse =>
      cases taken
      exact pushed _
  | release type id =>
    simp only [ServerState.perform] at taken
    split at taken
    case isTrue =>
      obtain ⟨m, _, rfl⟩ := Option.map_eq_some_iff.mp taken
      exact Nat.le_refl _
    case isFalse =>
      cases taken
      exact pushed _
  | send =>
    cases taken
    exact pushed _

theorem Conserved.receive_unserved (inv : Conserved s) {source : P} {message : MutexMessage P T}
    {m : HardSyncMutex P T} {r : MutexRequest P}
    (responds : s.responds isLocal (.receive source message) = some m) (next : m.nextLocal = some r)
    (top : s.stack.head? ≠ some (.wait r)) (taken : s.receive source message = some s') :
    ¬ Conserved s' := by
  intro after
  obtain ⟨m₀, found, released, handle, handleWait, requests⟩ :
      ∃ m₀, s.server.mutexMap message.id = some m₀ ∧ m₀.released message = m ∧
        m₀.handle source message = m.respondToRequests ∧
        (∀ request, m₀.handleWait request source message = m.respondToRequestsWait request) ∧
        message.requests source = [] := by
    cases message with
    | request type id => cases responds
    | releaseAcquire | unlock | unlockShared =>
      obtain ⟨m₀, found, rfl⟩ := Option.map_eq_some_iff.mp responds
      exact ⟨m₀, found, rfl, rfl, fun _ => rfl, rfl⟩
  simp only [ServerState.receive, found, Option.map_some] at taken
  split at taken
  case h_3 => cases taken
  case h_2 =>
    cases taken
    obtain ⟨x, sent, own⟩ := HardSyncMutex.respondToRequests_answers _ next
    refine after.answered x (List.mem_append_right _ ?_) own
    rwa [handle]
  case h_1 request stack waiting =>
    have other : request ≠ r := by
      rintro rfl
      exact top (by rw [waiting]; rfl)
    obtain ⟨spins, inside, fewer⟩ := m.respondToOthers_loses next other
    simp only [receiveWait, handleWait, spins, released] at taken
    cases taken
    have queues : m.queued = m₀.queued := by rw [← released, m₀.released_queued]
    rw [queues] at inside fewer
    have place := inv.placed _ _ found r inside
    have own : r.source = Source.LOCAL := by
      rcases m.nextLocal_cases with ⟨none, _⟩ | ⟨_, last, found, isLocal, _⟩
      next => cases none.symm.trans next
      next =>
        cases found.symm.trans next
        exact isLocal
    have unanswered : (m.respondToOthers.2.map Response.request).count r = 0 := by
      refine List.count_eq_zero.mpr fun member => ?_
      obtain ⟨x, answered, rfl⟩ := List.mem_map.mp member
      exact after.answered x (List.mem_append_right _ answered) own
    have before := inv.once r
    have now := after.once r
    simp only [queued, granted, ServerState.push, ServerState.update, MutexServer.manage, place, found,
      requests, Function.update_self, Option.elim_some, List.append_nil, List.map_append,
      List.count_append, unanswered] at before now
    omega

/-- A step that does not meet `Served` answers a local request by a message, or loses it. -/
theorem Conserved.unserved (inv : Conserved s) {a : ServerAction P T}
    (unserved : ¬ Served isLocal s a) (taken : s.next isLocal a = some s') : ¬ Conserved s' := by
  intro after
  obtain ⟨r, served, top⟩ : ∃ r ∈ (s.responds isLocal a).bind (·.nextLocal),
      s.stack.head? ≠ some (.wait r) := by simpa [Served] using unserved
  obtain ⟨m, responds, next⟩ := Option.bind_eq_some_iff.mp served
  have releasing : ∀ {t : ServerState P T} {type id},
      t.perform isLocal (.release type id) = some s' → isLocal id = true →
      ((t.server.mutexMap id).filter (·.notified type)).map (·.releasedLocal type) = some m →
      False := by
    intro t type id performed own released
    obtain ⟨m₀, managed, rfl⟩ := Option.map_eq_some_iff.mp released
    obtain ⟨found, notified⟩ := Option.filter_eq_some_iff.mp managed
    simp only [ServerState.perform, own, found, if_true, Option.map_some] at performed
    cases performed
    obtain ⟨x, sent, isLocal⟩ := HardSyncMutex.respondToRequests_answers _ next
    refine after.answered x (List.mem_append_right _ ?_) isLocal
    rwa [HardSyncMutex.release, if_pos notified]
  cases a with
  | build | removeNode | leave => cases responds
  | call operation =>
    obtain ⟨_, performed⟩ := Option.ite_none_right_eq_some.mp taken
    cases operation with
    | access | send => cases responds
    | release type id =>
      obtain ⟨own, released⟩ := Option.ite_none_right_eq_some.mp responds
      exact releasing performed own released
  | step =>
    simp only [ServerState.next, ServerState.step] at taken
    split at taken
    case h_2 => cases taken
    case h_1 operation rest stack top =>
      simp only [ServerState.responds, ServerState.operation, top] at responds
      cases operation with
      | access | send => cases responds
      | release type id =>
        obtain ⟨own, released⟩ := Option.ite_none_right_eq_some.mp responds
        exact releasing taken own released
  | receive source message => exact inv.receive_unserved responds next top taken after

theorem wait_ends {a : ServerAction P T} (taken : s.next isLocal a = some s') {r : MutexRequest P}
    (ended : s'.stack.count (.wait r) < s.stack.count (.wait r)) :
    s.stack.head? = some (.wait r) ∧ s'.stack.head? = some (.reached r true) ∧
      s'.taken = s.taken ++ [r] := by
  cases a with
  | build id data =>
    simp only [ServerState.next, ServerState.build] at taken
    split at taken <;> cases taken
    exact absurd ended (Nat.lt_irrefl _)
  | call operation =>
    obtain ⟨_, taken⟩ := Option.ite_none_right_eq_some.mp taken
    exact absurd ended (Nat.not_lt.mpr (perform_stack taken r))
  | step =>
    simp only [ServerState.next, ServerState.step] at taken
    split at taken
    case h_2 => cases taken
    case h_1 top =>
      have grows := perform_stack taken r
      rw [top] at ended
      simp only [List.count_cons_of_ne, ne_eq, reduceCtorEq, not_false_eq_true] at grows ended
      omega
  | receive source message =>
    simp only [ServerState.next, ServerState.receive] at taken
    split at taken
    case h_1 request stack top =>
      obtain ⟨m, _, rfl⟩ := Option.map_eq_some_iff.mp taken
      unfold receiveWait at ended ⊢
      cases result : m.handleWait request source message with
      | none =>
        rw [result] at ended
        exact absurd ended (Nat.not_lt.mpr List.count_le_count_cons)
      | some handled =>
        rcases handled with ⟨m', sent, _ | _⟩
        next =>
          rw [result] at ended
          exact absurd ended (Nat.lt_irrefl _)
        next =>
          rw [result] at ended
          obtain rfl : request = r := by
            by_contra other
            simp [top, other] at ended
          exact ⟨by rw [top]; rfl, rfl, rfl⟩
    case h_2 =>
      obtain ⟨m, _, rfl⟩ := Option.map_eq_some_iff.mp taken
      exact absurd ended (Nat.lt_irrefl _)
    case h_3 => cases taken
  | removeNode id sends =>
    simp only [ServerState.next, ServerState.removeNode] at taken
    split at taken
    case h_1 | h_2 =>
      cases taken
      exact absurd ended (Nat.not_lt.mpr List.count_le_count_cons)
    case h_3 top =>
      cases taken
      simp [top] at ended
    case h_4 => cases taken
  | leave =>
    simp only [ServerState.next, ServerState.leave] at taken
    split at taken
    case h_1 top =>
      obtain ⟨m, _, rfl⟩ := Option.map_eq_some_iff.mp taken
      simp [top] at ended
    case h_2 top | h_3 top =>
      cases taken
      simp [top] at ended
    case h_4 => cases taken

end ServerState

open ServerState

variable {isLocal : DistributedId P → Bool} {s : ServerState P T}

theorem request_conservation (reached : (nestedServer isLocal).ReachableBy (Served isLocal) s) :
    Conserved s ∧ ∀ a s', (nestedServer isLocal).next s a = some s' → Served isLocal s a →
      ∀ r, r.source = Source.LOCAL → s'.queued r < s.queued r →
        s.stack.head? = some (.wait r) ∧ s'.stack.head? = some (.reached r true) ∧
          s'.taken = s.taken ++ [r] := by
  have conserved : Conserved s := by
    refine reached.invariant ?_ fun s a s' _ inv served taken => inv.next served taken
    rintro s rfl
    exact ⟨by simp [start], fun _ => rfl, fun _ _ => rfl, by simp [start]⟩
  refine ⟨conserved, fun a s' taken served r own fewer => ?_⟩
  rw [conserved.waiting r own, (conserved.next served taken).waiting r own] at fewer
  exact wait_ends taken fewer

-- Another process locks node `id`, shared, then unlocks it while the local process waits for the mutex of
-- `id`.
def waitRun (q : P) (id : DistributedId P) : List (ServerAction P Nat) :=
  [.build id 0, .call .send, .receive q (.request .lockShared id), .leave,
    .call (.access .lock id), .receive q (.unlockShared id), .leave]

theorem request_conservation_wait : ∃ s : ServerState (Fin 2) Nat,
    (nestedServer fun _ => true).execBy (Served fun _ => true)
      .start (waitRun 1 ⟨0, 0⟩) = some s ∧
    s.taken = [{ id := ⟨0, 0⟩, source := Source.LOCAL, type := .lock }] ∧ Conserved s := by
  have waited : ((nestedServer (T := Nat) fun _ : DistributedId (Fin 2) => true).execBy
      (Served fun _ => true) .start (waitRun 1 ⟨0, 0⟩)).map (·.taken) =
        some [{ id := ⟨0, 0⟩, source := Source.LOCAL, type := .lock }] := by
    decide
  obtain ⟨s, run, taken⟩ := Option.map_eq_some_iff.mp waited
  exact ⟨s, run, taken,
    (request_conservation (TransitionSystem.ReachableBy.execBy _ (.start rfl) run)).1⟩

-- The other process unlocks `id` while the handler of a REMOVE_NODE request, run in the wait, waits for
-- an UNLINK request to be sent.
def nestedRun (q : P) (id : DistributedId P) : List (ServerAction P Nat) :=
  [.build id 0, .call .send, .receive q (.request .lockShared id), .leave,
    .call (.access .lock id), .removeNode id 1, .step, .step, .receive q (.unlockShared id)]

theorem local_request_answered :
    ¬ ∀ s : ServerState (Fin 2) Nat, (nestedServer fun _ => true).Reachable s → Conserved s := by
  intro conserved
  have answered : ((nestedServer (T := Nat) fun _ : DistributedId (Fin 2) => true).exec
      .start (nestedRun 1 ⟨0, 0⟩)).map (fun s => s.sent.map (·.dest)) = some [some 1, Source.LOCAL] := by
    decide
  obtain ⟨s, run, sent⟩ := Option.map_eq_some_iff.mp answered
  have remote := (conserved s (TransitionSystem.reachable_exec _ (.start rfl) run)).answered
  obtain ⟨x, member, own⟩ := List.mem_map.mp (show Source.LOCAL ∈ s.sent.map (·.dest) by simp [sent])
  exact remote x member own

end Fpmas.Synchro.Hard
