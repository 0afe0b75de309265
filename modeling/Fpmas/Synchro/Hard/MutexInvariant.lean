import Mathlib.Data.List.Count
import Mathlib.Tactic.Common
import Fpmas.Synchro.Hard.MutexTraffic

set_option autoImplicit false

namespace Fpmas.Synchro.Hard

variable {P T : Type} [DecidableEq P]

namespace Position

def sends (id : DistributedId P) (type : MutexRequestType) : Position P T → Nat
  | .sendRelease type' message => if message.id = id ∧ type' = type then 1 else 0
  | _ => 0

def awaits (id : DistributedId P) (type : MutexRequestType) : Position P T → Nat
  | .waitResponse type' id' => if id' = id ∧ type' = type then 1 else 0
  | _ => 0

def awaitsLocal (id : DistributedId P) (type : MutexRequestType) : Position P T → Nat
  | .waitLocal request => if request.id = id ∧ request.type = type then 1 else 0
  | _ => 0

end Position

def Response.to (p : P) (id : DistributedId P) (type : MutexRequestType) (r : Response P T) : Bool :=
  decide (r.dest = some p ∧ r.id = id ∧ r.type = type)

def MutexRequest.by (source : Source P) (type : MutexRequestType) (r : MutexRequest P) : Bool :=
  decide (r.source = source ∧ r.type = type)

/-- What the mutex of node `id` knows of the grants and of the pending requests. -/
structure NodeInv (owner : DistributedId P → P) (client : P → Client P T)
    (responses : List (Response P T)) (grants : List (P × MutexRequestType))
    (id : DistributedId P) (m : HardSyncMutex P T) : Prop where
  sharedQueue : ∀ r ∈ m.lockSharedRequests, r.id = id ∧ r.type.exclusive = false
  lockQueue : ∀ r ∈ m.lockRequests, r.id = id ∧ r.type.exclusive = true
  shared : (grants.countP (fun g => !g.2.exclusive) : Int) = m.lockedShared
  exclusive : grants.countP (fun g => g.2.exclusive) = if m.locked then 1 else 0
  granted : ∀ p type, grants.count (p, type) =
    (client p).held.count (id, type) + (client p).position.sends id type +
      responses.countP (Response.to p id type)
  asked : ∀ p type, (client p).position.awaits id type =
    m.queued.countP (MutexRequest.by (some p) type) + responses.countP (Response.to p id type)
  askedLocal : ∀ type, (client (owner id)).position.awaitsLocal id type =
    m.queued.countP (MutexRequest.by none type)

theorem NodeInv.queue {owner : DistributedId P → P} {client : P → Client P T}
    {responses : List (Response P T)} {grants : List (P × MutexRequestType)}
    {id : DistributedId P} {m : HardSyncMutex P T}
    (h : NodeInv owner client responses grants id m) : ∀ r ∈ m.queued, r.id = id := by
  intro r member
  rcases List.mem_append.mp member with shared | exclusive
  · exact (h.sharedQueue r shared).1
  · exact (h.lockQueue r exclusive).1

-- The invariant of a node only reads what the clients do about that node.
theorem NodeInv.frame {owner : DistributedId P → P} {client client' : P → Client P T}
    {responses responses' : List (Response P T)} {grants : List (P × MutexRequestType)}
    {id : DistributedId P} {m : HardSyncMutex P T}
    (h : NodeInv owner client responses grants id m)
    (held : ∀ p type, (client' p).held.count (id, type) = (client p).held.count (id, type))
    (sends : ∀ p type, (client' p).position.sends id type = (client p).position.sends id type)
    (awaits : ∀ p type, (client' p).position.awaits id type = (client p).position.awaits id type)
    (awaitsLocal : ∀ p type,
      (client' p).position.awaitsLocal id type = (client p).position.awaitsLocal id type)
    (sent : ∀ p type, responses'.countP (Response.to p id type) =
      responses.countP (Response.to p id type)) :
    NodeInv owner client' responses' grants id m where
  sharedQueue := h.sharedQueue
  lockQueue := h.lockQueue
  shared := h.shared
  exclusive := h.exclusive
  granted p type := by rw [h.granted, held, sends, sent]
  asked p type := by rw [awaits, h.asked, sent]
  askedLocal type := by rw [awaitsLocal, h.askedLocal]

-- Positions of a process that only sends requests to other processes.
def Position.Placed (owner : DistributedId P → P) (p : P) : Position P T → Prop
  | .idle => True
  | .sendRequest _ id => owner id ≠ p
  | .waitResponse _ id => owner id ≠ p
  | .sendRelease type message => owner message.id ≠ p ∧
      match type with
      | .read | .lockShared => message = .unlockShared message.id
      | .lock => message = .unlock message.id
      | .acquire => ∃ updated, message = .releaseAcquire message.id updated
  | .waitLocal request => owner request.id = p ∧ request.source = none

structure TrafficInv (owner : DistributedId P → P) (s : MutexState P T) : Prop where
  managed : ∀ id, ∃ m, s.mutex owner id = some m
  node : ∀ id m, s.mutex owner id = some m →
    NodeInv owner s.client s.responses (s.grants id) id m
  dest : ∀ r ∈ s.responses, r.dest ≠ none
  placed : ∀ p, (s.client p).position.Placed owner p

namespace MutexState

variable (owner : DistributedId P → P) (s : MutexState P T)

def setMutex (id : DistributedId P) (m : HardSyncMutex P T) : MutexState P T :=
  s.setServer (owner id) ((s.server (owner id)).manage id m)

@[simp] theorem mutex_setMutex_self (id : DistributedId P) (m : HardSyncMutex P T) :
    (s.setMutex owner id m).mutex owner id = some m := by
  simp [setMutex, setServer, MutexServer.manage, mutex]

theorem mutex_setMutex_ne {id id' : DistributedId P} (m : HardSyncMutex P T) (other : id' ≠ id) :
    (s.setMutex owner id m).mutex owner id' = s.mutex owner id' := by
  by_cases same : owner id' = owner id <;>
    simp [setMutex, setServer, MutexServer.manage, mutex, same, other]

@[simp] theorem setMutex_client (id : DistributedId P) (m : HardSyncMutex P T) :
    (s.setMutex owner id m).client = s.client := rfl
@[simp] theorem setMutex_responses (id : DistributedId P) (m : HardSyncMutex P T) :
    (s.setMutex owner id m).responses = s.responses := rfl
@[simp] theorem setMutex_grants (id : DistributedId P) (m : HardSyncMutex P T) :
    (s.setMutex owner id m).grants = s.grants := rfl
@[simp] theorem setMutex_sections (id : DistributedId P) (m : HardSyncMutex P T) :
    (s.setMutex owner id m).sections = s.sections := rfl

@[simp] theorem setMutex_setMutex (id : DistributedId P) (m m' : HardSyncMutex P T) :
    (s.setMutex owner id m).setMutex owner id m' = s.setMutex owner id m' := by
  simp [setMutex, setServer, MutexServer.manage]

@[simp] theorem recordGrant_server (p : P) (type : MutexRequestType) (id : DistributedId P)
    (acquired : Option T) : (s.recordGrant p type id acquired).server = s.server := rfl
@[simp] theorem recordGrant_client (p : P) (type : MutexRequestType) (id : DistributedId P)
    (acquired : Option T) : (s.recordGrant p type id acquired).client = s.client := rfl
@[simp] theorem recordGrant_responses (p : P) (type : MutexRequestType) (id : DistributedId P)
    (acquired : Option T) : (s.recordGrant p type id acquired).responses = s.responses := rfl

@[simp] theorem recordRelease_server (p : P) (type : MutexRequestType) (id : DistributedId P) :
    (s.recordRelease p type id).server = s.server := by
  unfold recordRelease
  split <;> rfl
@[simp] theorem recordRelease_client (p : P) (type : MutexRequestType) (id : DistributedId P) :
    (s.recordRelease p type id).client = s.client := by
  unfold recordRelease
  split <;> rfl
@[simp] theorem recordRelease_responses (p : P) (type : MutexRequestType) (id : DistributedId P) :
    (s.recordRelease p type id).responses = s.responses := by
  unfold recordRelease
  split <;> rfl
@[simp] theorem recordRelease_grants (p : P) (type : MutexRequestType) (id : DistributedId P) :
    (s.recordRelease p type id).grants =
      Function.update s.grants id ((s.grants id).erase (p, type)) := by
  unfold recordRelease
  split <;> rfl

theorem send_server (sent : List (Response P T)) : (send owner s sent).server = s.server := by
  induction sent generalizing s with
  | nil => rfl
  | cons r rest ih => rw [send, ih]; rfl

theorem send_client (sent : List (Response P T)) : (send owner s sent).client = s.client := by
  induction sent generalizing s with
  | nil => rfl
  | cons r rest ih => rw [send, ih]; rfl

theorem send_responses (sent : List (Response P T)) :
    (send owner s sent).responses = s.responses ++ sent := by
  induction sent generalizing s with
  | nil => simp [send]
  | cons r rest ih => rw [send, ih]; simp

theorem send_grants {id : DistributedId P} (sent : List (Response P T))
    (about : ∀ r ∈ sent, r.id = id) :
    (send owner s sent).grants = Function.update s.grants id
      (s.grants id ++ sent.map fun r => (r.dest.getD (owner id), r.type)) := by
  induction sent generalizing s with
  | nil => simp [send]
  | cons r rest ih =>
    have this := about r (by simp)
    rw [send, ih _ fun r member => about r (by simp [member])]
    subst this
    simp [recordGrant]

end MutexState

/-! ### What each elementary change of a mutex does to the invariant of its node -/

section

variable {owner : DistributedId P → P} {client : P → Client P T}
  {responses : List (Response P T)} {grants : List (P × MutexRequestType)}
  {id : DistributedId P} {m : HardSyncMutex P T}

theorem NodeInv.locked_grant (h : NodeInv owner client responses grants id m) {p : P}
    {type : MutexRequestType} (member : (p, type) ∈ grants) (exclusive : type.exclusive = true) :
    m.locked = true := by
  have positive : 0 < grants.countP (fun g => g.2.exclusive) :=
    List.countP_pos_iff.mpr ⟨_, member, exclusive⟩
  rw [h.exclusive] at positive
  by_contra unlocked
  simp [unlocked] at positive

theorem NodeInv.push (h : NodeInv owner client responses grants id m) (r : MutexRequest P)
    (about : r.id = id) (client' : P → Client P T)
    (held : ∀ p, (client' p).held = (client p).held)
    (sends : ∀ p type, (client' p).position.sends id type = (client p).position.sends id type)
    (awaits : ∀ p type, (client' p).position.awaits id type =
      (client p).position.awaits id type + if r.by (some p) type then 1 else 0)
    (awaitsLocal : ∀ type, (client' (owner id)).position.awaitsLocal id type =
      (client (owner id)).position.awaitsLocal id type + if r.by none type then 1 else 0) :
    NodeInv owner client' responses grants id (m.pushRequest r) where
  sharedQueue x member := by
    cases kind : r.type <;> simp only [HardSyncMutex.pushRequest, kind] at member
    case lock | acquire => exact h.sharedQueue x member
    all_goals
      rcases List.mem_append.mp member with old | new
      · exact h.sharedQueue x old
      · rw [List.mem_singleton.mp new]
        exact ⟨about, by rw [kind]; rfl⟩
  lockQueue x member := by
    cases kind : r.type <;> simp only [HardSyncMutex.pushRequest, kind] at member
    case read | lockShared => exact h.lockQueue x member
    all_goals
      rcases List.mem_append.mp member with old | new
      · exact h.lockQueue x old
      · rw [List.mem_singleton.mp new]
        exact ⟨about, by rw [kind]; rfl⟩
  shared := by simpa using h.shared
  exclusive := by simpa using h.exclusive
  granted p type := by rw [h.granted, held, sends]
  asked p type := by
    rw [awaits, h.asked, (HardSyncMutex.pushRequest_queued m r).countP_eq, List.countP_cons]
    omega
  askedLocal type := by
    rw [awaitsLocal, h.askedLocal, (HardSyncMutex.pushRequest_queued m r).countP_eq,
      List.countP_cons]

theorem NodeInv.grant (h : NodeInv owner client responses grants id m) (p : P)
    (type : MutexRequestType) (free : type.exclusive = true → m.locked = false)
    (client' : P → Client P T) (responses' : List (Response P T))
    (granted : ∀ q t, (client' q).held.count (id, t) + (client' q).position.sends id t +
        responses'.countP (Response.to q id t) =
      (client q).held.count (id, t) + (client q).position.sends id t +
        responses.countP (Response.to q id t) + if q = p ∧ t = type then 1 else 0)
    (asked : ∀ q t, (client' q).position.awaits id t + responses.countP (Response.to q id t) =
      (client q).position.awaits id t + responses'.countP (Response.to q id t))
    (askedLocal : ∀ t, (client' (owner id)).position.awaitsLocal id t =
      (client (owner id)).position.awaitsLocal id t) :
    NodeInv owner client' responses' (grants ++ [(p, type)]) id (m.granted type) := by
  have queues := m.granted_queued type
  refine ⟨?_, ?_, ?_, ?_, ?_, ?_, ?_⟩
  · have same : (m.granted type).lockSharedRequests = m.lockSharedRequests := by
      cases type <;> rfl
    rw [same]
    exact h.sharedQueue
  · have same : (m.granted type).lockRequests = m.lockRequests := by cases type <;> rfl
    rw [same]
    exact h.lockQueue
  · have := h.shared
    cases kind : type.exclusive <;>
      simp [HardSyncMutex.granted, kind, HardSyncMutex.lock, HardSyncMutex.lockShared, ← this]
  · have count := h.exclusive
    cases kind : type.exclusive
    · simpa [HardSyncMutex.granted, kind, HardSyncMutex.lockShared] using count
    · rw [free kind] at count
      simpa [HardSyncMutex.granted, kind, HardSyncMutex.lock] using count
  · intro q t
    rw [List.count_append, h.granted, List.count_singleton, granted]
    by_cases same : q = p ∧ t = type
    · simp [same]
    · have : ¬ (p, type) = (q, t) := fun eq => same ⟨(congrArg Prod.fst eq).symm,
        (congrArg Prod.snd eq).symm⟩
      simp [same, this]
  · intro q t
    have before := h.asked q t
    have change := asked q t
    rw [queues]
    omega
  · intro t
    rw [queues, askedLocal]
    exact h.askedLocal t

theorem NodeInv.release (h : NodeInv owner client responses grants id m) (p : P)
    (type : MutexRequestType) (client' : P → Client P T)
    (granted : ∀ q t, (client' q).held.count (id, t) + (client' q).position.sends id t +
        (if q = p ∧ t = type then 1 else 0) =
      (client q).held.count (id, t) + (client q).position.sends id t)
    (awaits : ∀ q t, (client' q).position.awaits id t = (client q).position.awaits id t)
    (awaitsLocal : ∀ t, (client' (owner id)).position.awaitsLocal id t =
      (client (owner id)).position.awaitsLocal id t)
    {m' : HardSyncMutex P T} (sharedRequests : m'.lockSharedRequests = m.lockSharedRequests)
    (requests : m'.lockRequests = m.lockRequests)
    (lockedShared : m'.lockedShared = m.lockedShared - if type.exclusive then 0 else 1)
    (locked : m'.locked = if type.exclusive then false else m.locked) :
    NodeInv owner client' responses (grants.erase (p, type)) id m' := by
  have queues : m'.queued = m.queued := by simp [HardSyncMutex.queued, sharedRequests, requests]
  have member : (p, type) ∈ grants := by
    have here := granted p type
    have total := h.granted p type
    simp only [and_self, if_true] at here
    exact List.count_pos_iff.mp (by omega)
  refine ⟨by rw [sharedRequests]; exact h.sharedQueue, by rw [requests]; exact h.lockQueue,
    ?_, ?_, ?_, ?_, ?_⟩
  · have before := h.shared
    have positive := List.countP_pos_iff (p := fun g : P × MutexRequestType => !g.2.exclusive)
      (l := grants)
    rw [List.countP_erase, lockedShared]
    cases kind : type.exclusive
    · have : 0 < grants.countP (fun g => !g.2.exclusive) := positive.mpr ⟨_, member, by simp [kind]⟩
      simp only [member, Bool.not_false, and_self, if_true]
      simp only [Bool.false_eq_true, if_false]
      omega
    · simpa [member, kind] using before
  · rw [List.countP_erase, h.exclusive, locked]
    cases kind : type.exclusive
    · simp
    · simp [member, h.locked_grant member kind]
  · intro q t
    have total := h.granted q t
    have here := granted q t
    rw [List.count_erase]
    by_cases same : q = p ∧ t = type
    · obtain ⟨rfl, rfl⟩ := same
      simp only [and_self, if_true] at here
      simp only [BEq.rfl, if_true]
      omega
    · have other : ((p, type) == (q, t)) = false := by
        refine beq_false_of_ne fun eq => same ⟨?_, ?_⟩
        · exact (congrArg Prod.fst eq).symm
        · exact (congrArg Prod.snd eq).symm
      simp only [same, if_false] at here
      simp only [other, Bool.false_eq_true, if_false]
      omega
  · intro q t
    rw [awaits, queues, h.asked]
  · intro t
    rw [awaitsLocal, queues, h.askedLocal]

omit [DecidableEq P] in
theorem HardSyncMutex.requestsToProcess_count (m : HardSyncMutex P T)
    (q : MutexRequest P → Bool) :
    m.requestsToProcess.1.countP q + m.requestsToProcess.2.queued.countP q = m.queued.countP q := by
  rw [← List.countP_append, (m.requestsToProcess_perm).countP_eq]

theorem NodeInv.batch_exclusive (h : NodeInv owner client responses grants id m) :
    (m.locked = true ∧ m.requestsToProcess.1 = []) ∨
    (m.locked = false ∧ m.requestsToProcess.1.countP (·.type.exclusive) =
      if m.requestsToProcess.1.any (·.type.exclusive) then 1 else 0) := by
  have shared : m.lockSharedRequests.countP (·.type.exclusive) = 0 := by
    rw [List.countP_eq_zero]
    intro r member
    simp [(h.sharedQueue r member).2]
  have none_shared : m.lockSharedRequests.any (·.type.exclusive) = false := by
    rw [List.any_eq_false]
    intro r member
    simp [(h.sharedQueue r member).2]
  rcases m.requestsToProcess_cases with ⟨locked, batch⟩ | ⟨locked, front, last, rest, _, _, split, batch⟩ |
    ⟨locked, _, _, batch⟩ | ⟨locked, _, request, rest, split, batch⟩
  · exact .inl ⟨locked, by rw [batch]⟩
  · refine .inr ⟨locked, ?_⟩
    have parts : m.lockSharedRequests = (front ++ [last]) ++ rest := by simp [split]
    rw [parts, List.countP_append] at shared
    rw [parts, List.any_append] at none_shared
    rw [batch, (Bool.or_eq_false_iff.mp none_shared).1]
    simpa using (Nat.eq_zero_of_add_eq_zero shared).1
  · refine .inr ⟨locked, ?_⟩
    rw [batch, none_shared]
    simpa using shared
  · refine .inr ⟨locked, ?_⟩
    have kind := (h.lockQueue request (by simp [split])).2
    rw [batch, List.countP_append, shared]
    simp [kind]

-- A batch grants as many accesses as it has requests, local ones to the owner.
theorem batch_grants (o p : P) (type : MutexRequestType)
    (batch : List (MutexRequest P)) :
    (batch.map fun r => (r.source.getD o, r.type)).count (p, type) =
      batch.countP (MutexRequest.by (some p) type) +
        if p = o then batch.countP (MutexRequest.by none type) else 0 := by
  induction batch with
  | nil => simp
  | cons r rest ih =>
    rw [List.map_cons, List.count_cons, ih, List.countP_cons, List.countP_cons]
    cases source : r.source with
    | none =>
      by_cases here : p = o
      · subst here
        by_cases kind : r.type = type <;> simp [MutexRequest.by, source, kind]
        omega
      · simp [MutexRequest.by, source, here, Ne.symm here]
    | some q =>
      by_cases here : q = p <;> by_cases kind : r.type = type <;> by_cases own : p = o <;>
        simp [MutexRequest.by, source, here, kind, own] <;> omega

-- The requests of a batch are granted together, the local one to the waiting process.
theorem NodeInv.respond (h : NodeInv owner client responses grants id m)
    (client' : P → Client P T) (responses' : List (Response P T))
    (granted : ∀ p type, (client' p).held.count (id, type) +
        (client' p).position.sends id type =
      (client p).held.count (id, type) + (client p).position.sends id type +
        if p = owner id then m.requestsToProcess.1.countP (MutexRequest.by none type) else 0)
    (sent : ∀ p type, responses'.countP (Response.to p id type) =
      responses.countP (Response.to p id type) +
        m.requestsToProcess.1.countP (MutexRequest.by (some p) type))
    (awaits : ∀ p type, (client' p).position.awaits id type = (client p).position.awaits id type)
    (awaitsLocal : ∀ type, (client' (owner id)).position.awaitsLocal id type +
        m.requestsToProcess.1.countP (MutexRequest.by none type) =
      (client (owner id)).position.awaitsLocal id type) :
    NodeInv owner client' responses'
      (grants ++ m.requestsToProcess.1.map fun r => (r.source.getD (owner id), r.type)) id
      m.respondToRequests.1 := by
  have kindCount : ∀ q : MutexRequestType → Bool,
      (m.requestsToProcess.1.map fun r => (r.source.getD (owner id), r.type)).countP
        (fun g => q g.2) = m.requestsToProcess.1.countP (fun r => q r.type) := by
    intro q
    rw [List.countP_map]
    rfl
  have count := m.requestsToProcess_count
  have queues : m.respondToRequests.1.queued = m.requestsToProcess.2.queued := by
    simp [HardSyncMutex.respondToRequests_mutex, HardSyncMutex.queued]
  refine ⟨?_, ?_, ?_, ?_, ?_, ?_, ?_⟩
  · intro r member
    simp only [HardSyncMutex.respondToRequests_mutex] at member
    refine h.sharedQueue r ?_
    rcases m.requestsToProcess_cases with ⟨_, b⟩ | ⟨_, front, last, rest, _, _, split, b⟩ |
      ⟨_, _, _, b⟩ | ⟨_, _, request, rest, _, b⟩ <;> rw [b] at member
    · exact member
    · simp only at member
      simp [split, member]
    all_goals simp at member
  · intro r member
    simp only [HardSyncMutex.respondToRequests_mutex] at member
    refine h.lockQueue r ?_
    rcases m.requestsToProcess_cases with ⟨_, b⟩ | ⟨_, front, last, rest, _, _, _, b⟩ |
      ⟨_, _, _, b⟩ | ⟨_, _, request, rest, split, b⟩ <;> rw [b] at member
    · exact member
    · exact member
    · exact member
    · simp only at member
      simp [split, member]
  · rw [List.countP_append, kindCount fun t => !t.exclusive]
    simp [HardSyncMutex.respondToRequests_mutex, ← h.shared]
  · rw [List.countP_append, kindCount fun t => t.exclusive, h.exclusive]
    rcases h.batch_exclusive with ⟨locked, empty⟩ | ⟨locked, batch⟩
    · simp [HardSyncMutex.respondToRequests_mutex, locked, empty]
    · rw [batch]
      simp [HardSyncMutex.respondToRequests_mutex, locked]
  · intro p type
    rw [List.count_append, batch_grants, h.granted, granted, sent]
    omega
  · intro p type
    rw [awaits, sent, queues, h.asked, ← count]
    omega
  · intro type
    have change := awaitsLocal type
    have before := h.askedLocal type
    have left := count (MutexRequest.by none type)
    rw [queues]
    omega

end

/-! ### Steps of the processes -/

def MutexMessage.IsRelease : MutexMessage P T → Prop
  | .request _ _ => False
  | _ => True

namespace MutexState

variable (owner : DistributedId P → P) (s : MutexState P T)

-- `respondToRequests` on the mutex `m` of node `id`.
def respondAt (id : DistributedId P) (m : HardSyncMutex P T) : MutexState P T :=
  send owner (s.setMutex owner id m.respondToRequests.1) m.respondToRequests.2

-- `grantLocal`, on the mutex `m` of a LOCAL node.
def grantLocalAt (p : P) (type : MutexRequestType) (id : DistributedId P)
    (m : HardSyncMutex P T) : MutexState P T :=
  (((s.setMutex owner id (m.granted type)).setHeld p ((id, type) :: (s.client p).held)).recordGrant
    p type id (some m.data)).setPosition p .idle

variable {owner s}

theorem grantLocal_eq {p : P} {type : MutexRequestType} {id : DistributedId P}
    {m : HardSyncMutex P T} (own : owner id = p) (found : s.mutex owner id = some m) :
    s.grantLocal p type id = some (s.grantLocalAt owner p type id m) := by
  subst own
  have found : (s.server (owner id)).mutexMap id = some m := found
  simp [grantLocal, found, grantLocalAt, setMutex, setServer]

theorem serve_request {p : P} {type : MutexRequestType} {id : DistributedId P}
    {m : HardSyncMutex P T} (found : s.mutex owner id = some m) :
    s.serve owner (owner id) p (.request type id) = some
      (if m.busy type then s.setMutex owner id (m.pushRequest { id, source := some p, type })
      else send owner (s.setMutex owner id (m.granted type))
        [HardSyncMutex.response m.data { id, source := some p, type }]) := by
  have found : (s.server (owner id)).mutexMap id = some m := found
  cases busy : m.busy type <;> cases position : (s.client (owner id)).position <;>
    simp [serve, position, MutexServer.handleIncomingRequest,
      MutexServer.handleIncomingRequestWait, HardSyncMutex.handleWait, MutexMessage.id, found,
      HardSyncMutex.handle_request, busy, send, setMutex]

theorem serve_release {p : P} {message : MutexMessage P T} {m : HardSyncMutex P T}
    (kind : message.IsRelease) (found : s.mutex owner message.id = some m)
    (serving : ∀ request, (s.client (owner message.id)).position ≠ .waitLocal request) :
    s.serve owner (owner message.id) p message =
      some (s.respondAt owner message.id (m.released message)) := by
  have found : (s.server (owner message.id)).mutexMap message.id = some m := found
  have handled : m.handle p message = (m.released message).respondToRequests := by
    cases message <;> first | rfl | exact kind.elim
  cases position : (s.client (owner message.id)).position
  case waitLocal request => exact absurd position (serving request)
  all_goals
    simp [serve, position, MutexServer.handleIncomingRequest, found, handled, respondAt, setMutex]

theorem serve_release_wait {p : P} {message : MutexMessage P T} {m : HardSyncMutex P T}
    {request : MutexRequest P} (kind : message.IsRelease)
    (found : s.mutex owner message.id = some m)
    (waiting : (s.client (owner message.id)).position = .waitLocal request) :
    s.serve owner (owner message.id) p message =
      ((m.released message).respondToRequestsWait request).bind fun (m', sent, reached) =>
        let s' := send owner (s.setMutex owner message.id m') sent
        if reached then s'.grantLocal (owner message.id) request.type request.id else some s' := by
  have found : (s.server (owner message.id)).mutexMap message.id = some m := found
  have handled : m.handleWait request p message =
      (m.released message).respondToRequestsWait request := by
    cases message <;> first | rfl | exact kind.elim
  simp only [serve, waiting, MutexServer.handleIncomingRequestWait, found, handled, setMutex,
    Option.bind_some, Option.bind_map, Function.comp_def]

end MutexState

/-- Everything a step can do. -/
inductive Effect (owner : DistributedId P → P) (s : MutexState P T) :
    MutexAction P T → MutexState P T → Prop where
  | ask {p type id} : (s.client p).position = .idle → owner id ≠ p →
      Effect owner s (.call p type id) (s.setPosition p (.sendRequest type id))
  | wait {p type id m} : (s.client p).position = .idle → owner id = p →
      s.mutex owner id = some m → m.busy type = true →
      Effect owner s (.call p type id)
        ((s.setMutex owner id (m.pushRequest { id, source := none, type })).setPosition p
          (.waitLocal { id, source := none, type }))
  | access {p type id m} : (s.client p).position = .idle → owner id = p →
      s.mutex owner id = some m → m.busy type = false →
      Effect owner s (.call p type id) (s.grantLocalAt owner p type id m)
  | queue {p type id m} : (s.client p).position = .sendRequest type id →
      s.mutex owner id = some m → m.busy type = true →
      Effect owner s (.deliver p)
        ((s.setPosition p (.waitResponse type id)).setMutex owner id
          (m.pushRequest { id, source := some p, type }))
  | grant {p type id m} : (s.client p).position = .sendRequest type id →
      s.mutex owner id = some m → m.busy type = false →
      Effect owner s (.deliver p)
        (MutexState.send owner
          ((s.setPosition p (.waitResponse type id)).setMutex owner id (m.granted type))
          [HardSyncMutex.response m.data { id, source := some p, type }])
  | respond {p type message m} : (s.client p).position = .sendRelease type message →
      s.mutex owner message.id = some m →
      (∀ r ∈ (m.released message).requestsToProcess.1, r.source ≠ none) →
      Effect owner s (.deliver p)
        (((s.setPosition p .idle).recordRelease p type message.id).respondAt owner message.id
          (m.released message))
  | reach {p type message m request front} : (s.client p).position = .sendRelease type message →
      s.mutex owner message.id = some m →
      (s.client (owner message.id)).position = .waitLocal request → request.id = message.id →
      (m.released message).requestsToProcess.1 = front ++ [request] →
      (∀ r ∈ front, r.source ≠ none) →
      Effect owner s (.deliver p)
        ((MutexState.send owner
          (((s.setPosition p .idle).recordRelease p type message.id).setMutex owner message.id
            ((m.released message).requestsToProcess.2.respondAll front).1)
          (front.map (HardSyncMutex.response (m.released message).data))).grantLocalAt owner
            (owner message.id) request.type message.id
            ((m.released message).requestsToProcess.2.respondAll front).1)
  | receive {p type id response} : (s.client p).position = .waitResponse type id →
      s.responses.find? (MutexState.awaited owner p type id) = some response →
      Effect owner s (.receive p) (s.received owner p type id response)
  | notify {p type id m} : (s.client p).position = .idle → owner id = p →
      (id, type) ∈ (s.client p).held → s.mutex owner id = some m →
      (type.exclusive || decide
        ((if type.exclusive then m.unlock else m.unlockShared).lockedShared = 0)) = true →
      (∀ r ∈ (if type.exclusive then m.unlock else m.unlockShared).requestsToProcess.1,
        r.source ≠ none) →
      Effect owner s (.release p type id)
        (((s.setHeld p ((s.client p).held.erase (id, type))).recordRelease p type id).respondAt owner
          id (if type.exclusive then m.unlock else m.unlockShared))
  | unlockShared {p type id m} : (s.client p).position = .idle → owner id = p →
      (id, type) ∈ (s.client p).held → s.mutex owner id = some m → type.exclusive = false →
      m.unlockShared.lockedShared ≠ 0 →
      Effect owner s (.release p type id)
        (((s.setHeld p ((s.client p).held.erase (id, type))).recordRelease p type id).setMutex owner
          id m.unlockShared)
  | sendRelease {p type id} : (s.client p).position = .idle → owner id ≠ p →
      (id, type) ∈ (s.client p).held →
      Effect owner s (.release p type id)
        ((s.setHeld p ((s.client p).held.erase (id, type))).setPosition p
          (.sendRelease type (s.releaseMessage p type id)))
  | modifyLocal {p id f m} : (s.client p).position = .idle → owner id = p →
      (id, .acquire) ∈ (s.client p).held → s.mutex owner id = some m →
      Effect owner s (.modify p id f)
        ((s.setMutex owner id { m with data := f m.data }).updateSection p id fun sec =>
          { sec with update := f ∘ sec.update })
  | modifyCopy {p id f} : (s.client p).position = .idle → owner id ≠ p →
      (id, .acquire) ∈ (s.client p).held →
      Effect owner s (.modify p id f)
        ((s.setCopy p id (f ((s.client p).copy id))).updateSection p id fun sec =>
          { sec with update := f ∘ sec.update })

theorem TrafficInv.remote_batch {owner : DistributedId P → P} {s : MutexState P T}
    (inv : TrafficInv owner s) {id : DistributedId P} {m m' : HardSyncMutex P T}
    (found : s.mutex owner id = some m) (queued : m'.queued = m.queued)
    (serving : ∀ request, (s.client (owner id)).position ≠ .waitLocal request) :
    ∀ r ∈ m'.requestsToProcess.1, r.source ≠ none := by
  intro r member isLocal
  have here : r ∈ m.queued := by
    rw [← queued]
    exact m'.requestsToProcess_perm.subset (by simp [member])
  have count := (inv.node id m found).askedLocal r.type
  have positive : 0 < m.queued.countP (MutexRequest.by none r.type) :=
    List.countP_pos_iff.mpr ⟨r, here, by simp [MutexRequest.by, isLocal]⟩
  cases position : (s.client (owner id)).position
  case waitLocal request => exact serving request position
  all_goals
    rw [position] at count
    simp only [Position.awaitsLocal] at count
    omega

-- The local request of a batch is the one its owner waits for.
theorem TrafficInv.awaited_local {owner : DistributedId P → P} {s : MutexState P T}
    (inv : TrafficInv owner s) {id : DistributedId P} {m m' : HardSyncMutex P T}
    (found : s.mutex owner id = some m) (queued : m'.queued = m.queued)
    {request : MutexRequest P} (waiting : (s.client (owner id)).position = .waitLocal request)
    {r : MutexRequest P} (member : r ∈ m'.requestsToProcess.1) (isLocal : r.source = none) :
    r = request ∧ r.id = id := by
  have here : r ∈ m.queued := by
    rw [← queued]
    exact m'.requestsToProcess_perm.subset (by simp [member])
  have about := (inv.node id m found).queue r here
  have count := (inv.node id m found).askedLocal r.type
  have positive : 0 < m.queued.countP (MutexRequest.by none r.type) :=
    List.countP_pos_iff.mpr ⟨r, here, by simp [MutexRequest.by, isLocal]⟩
  have placed := inv.placed (owner id)
  rw [waiting] at count placed
  simp only [Position.awaitsLocal] at count
  by_cases same : request.id = id ∧ request.type = r.type
  · refine ⟨?_, about⟩
    obtain ⟨rid, rsource, rtype⟩ := r
    obtain ⟨qid, qsource, qtype⟩ := request
    simp_all [Position.Placed]
  · simp only [same, if_false] at count
    omega

section

variable {owner : DistributedId P → P} {s s' : MutexState P T} {p : P}

theorem TrafficInv.call_effect (inv : TrafficInv owner s) {type : MutexRequestType}
    {id : DistributedId P} (taken : s.call owner p type id = some s') :
    Effect owner s (.call p type id) s' := by
  cases position : (s.client p).position <;>
    simp only [MutexState.call, position, reduceCtorEq] at taken
  by_cases own : owner id = p
  · obtain ⟨m, found⟩ := inv.managed id
    have lookup : (s.server p).mutexMap id = some m := own ▸ found
    simp only [own, if_true, lookup, Option.bind_some] at taken
    cases busy : m.busy type
    · simp only [busy, Bool.false_eq_true, if_false,
        MutexState.grantLocal_eq own found] at taken
      cases taken
      exact .access position own found busy
    · simp only [busy, if_true] at taken
      cases taken
      subst own
      exact .wait position rfl found busy
  · simp only [own, if_false] at taken
    cases taken
    exact .ask position own

theorem TrafficInv.deliver_effect (inv : TrafficInv owner s) (taken : s.deliver owner p = some s') :
    Effect owner s (.deliver p) s' := by
  cases position : (s.client p).position <;>
    simp only [MutexState.deliver, position, reduceCtorEq] at taken
  case sendRequest type id =>
    obtain ⟨m, found⟩ := inv.managed id
    have found' : (s.setPosition p (.waitResponse type id)).mutex owner id = some m := found
    rw [MutexState.serve_request found'] at taken
    cases busy : m.busy type <;> simp only [busy, Bool.false_eq_true, if_true, if_false] at taken
    · cases taken
      exact .grant position found busy
    · cases taken
      exact .queue position found busy
  case sendRelease type message =>
    obtain ⟨m, found⟩ := inv.managed message.id
    have placed := inv.placed p
    rw [position] at placed
    have kind : message.IsRelease := by
      obtain ⟨_, shape⟩ := placed
      cases type <;> simp only at shape
      case acquire => obtain ⟨_, shape⟩ := shape; rw [shape]; trivial
      all_goals rw [shape]; trivial
    have away : owner message.id ≠ p := placed.1
    have found' : ((s.setPosition p .idle).recordRelease p type message.id).mutex owner
        message.id = some m := by
      simpa [MutexState.mutex, MutexState.setPosition] using found
    have client : (((s.setPosition p .idle).recordRelease p type message.id).client
        (owner message.id)).position = (s.client (owner message.id)).position := by
      simp [MutexState.setPosition, away]
    by_cases waiting : ∃ request, (s.client (owner message.id)).position = .waitLocal request
    · obtain ⟨request, waiting⟩ := waiting
      rw [MutexState.serve_release_wait kind found' (client.trans waiting)] at taken
      have queued : (m.released message).queued = m.queued := m.released_queued message
      have awaited := fun {r} => inv.awaited_local (r := r) found queued waiting
      unfold HardSyncMutex.respondToRequestsWait at taken
      rcases (m.released message).requestsToProcess_local with
        remote | ⟨front, last, batch, isLocal, remote⟩
      · rw [HardSyncMutex.respondAllWait_remote _ _ _ remote] at taken
        simp only [Option.bind_some, Bool.false_eq_true, if_false, Option.some.injEq] at taken
        subst taken
        exact .respond position found remote
      · obtain ⟨same, about⟩ := awaited (batch ▸ List.mem_append_right front (by simp)) isLocal
        subst same
        rw [batch, HardSyncMutex.respondAllWait_reached _ _ _ remote isLocal] at taken
        simp only [Option.bind_some, if_true, HardSyncMutex.respondAll_sent,
          HardSyncMutex.requestsToProcess_data, about] at taken
        rw [MutexState.grantLocal_eq
          (m := ((m.released message).requestsToProcess.2.respondAll front).1) rfl
          (by simp [MutexState.mutex, MutexState.send_server, MutexState.setMutex,
            MutexState.setServer, MutexServer.manage])] at taken
        cases taken
        exact .reach position found waiting about batch remote
    · have serving : ∀ request, (s.client (owner message.id)).position ≠ .waitLocal request :=
        fun request h => waiting ⟨request, h⟩
      rw [MutexState.serve_release kind found' (by rwa [client])] at taken
      cases taken
      exact .respond position found
        (inv.remote_batch found (m.released_queued message) serving)

theorem TrafficInv.release_effect (inv : TrafficInv owner s) {type : MutexRequestType}
    {id : DistributedId P} (taken : s.release owner p type id = some s') :
    Effect owner s (.release p type id) s' := by
  cases position : (s.client p).position <;>
    simp only [MutexState.release, position, reduceCtorEq] at taken
  by_cases holds : (id, type) ∈ (s.client p).held
  · by_cases own : owner id = p
    · obtain ⟨m, found⟩ := inv.managed id
      have lookup : (s.server p).mutexMap id = some m := own ▸ found
      have batch : ∀ m' : HardSyncMutex P T, m'.queued = m.queued →
          ∀ r ∈ m'.requestsToProcess.1, r.source ≠ none := fun m' queued =>
        inv.remote_batch found queued (by simp [own, position])
      subst own
      simp only [holds, if_true, MutexState.releaseLocal, MutexState.recordRelease_server,
        MutexState.setHeld, lookup, Option.bind_some] at taken
      by_cases free : (type.exclusive || decide
          ((if type.exclusive = true then m.unlock else m.unlockShared).lockedShared = 0)) = true
      · simp only [free, if_true, MutexServer.notify, MutexServer.manage,
          Function.update_self, Option.map_some] at taken
        cases taken
        have result := Effect.notify (s := s) position rfl holds
          found free (batch _ (by split <;> rfl))
        simpa [MutexState.respondAt, MutexState.setMutex, MutexState.setServer,
          MutexServer.manage, MutexState.setHeld] using result
      · simp only [free, Bool.false_eq_true, if_false] at taken
        cases taken
        cases kind : type.exclusive <;> simp only [kind, Bool.true_or, not_true] at free
        simp only [Bool.false_or, decide_eq_true_eq, Bool.false_eq_true, if_false] at free
        have result := Effect.unlockShared (s := s) position rfl holds found kind
          free
        simpa [MutexState.setMutex, MutexState.setServer, MutexState.setHeld, kind] using result
    · simp only [holds, own, if_true, if_false] at taken
      cases taken
      exact .sendRelease position own holds
  · simp only [holds, if_false, reduceCtorEq] at taken

theorem TrafficInv.modify_effect (inv : TrafficInv owner s) {id : DistributedId P} {f : T → T}
    (taken : s.modify owner p id f = some s') : Effect owner s (.modify p id f) s' := by
  cases position : (s.client p).position <;>
    simp only [MutexState.modify, position, reduceCtorEq] at taken
  by_cases holds : (id, .acquire) ∈ (s.client p).held
  · by_cases own : owner id = p
    · obtain ⟨m, found⟩ := inv.managed id
      have lookup : (s.server p).mutexMap id = some m := own ▸ found
      simp only [holds, own, if_true, lookup, Option.map_some] at taken
      subst own
      cases taken
      exact .modifyLocal position rfl holds found
    · simp only [holds, own, if_true, if_false] at taken
      cases taken
      exact .modifyCopy position own holds
  · simp only [holds, if_false, reduceCtorEq] at taken

theorem TrafficInv.next_effect {a : MutexAction P T} (inv : TrafficInv owner s)
    (taken : s.next owner a = some s') : Effect owner s a s' := by
  cases a with
  | call p type id => exact inv.call_effect taken
  | deliver p => exact inv.deliver_effect taken
  | receive p =>
    cases position : (s.client p).position <;>
      simp only [MutexState.next, MutexState.receive, position, reduceCtorEq,
        Option.map_eq_some_iff] at taken
    obtain ⟨response, found, result⟩ := taken
    exact result ▸ .receive position found
  | release p type id => exact inv.release_effect taken
  | modify p id f => exact inv.modify_effect taken

end

theorem TrafficInv.change {owner : DistributedId P → P} {s s' : MutexState P T}
    (inv : TrafficInv owner s) (id : DistributedId P) (m' : HardSyncMutex P T)
    (mutex : s'.mutex owner id = some m')
    (others : ∀ id', id' ≠ id → s'.mutex owner id' = s.mutex owner id' ∧
      s'.grants id' = s.grants id')
    (node : NodeInv owner s'.client s'.responses (s'.grants id) id m')
    (held : ∀ id', id' ≠ id → ∀ p type,
      (s'.client p).held.count (id', type) = (s.client p).held.count (id', type))
    (sends : ∀ id', id' ≠ id → ∀ p type,
      (s'.client p).position.sends id' type = (s.client p).position.sends id' type)
    (awaits : ∀ id', id' ≠ id → ∀ p type,
      (s'.client p).position.awaits id' type = (s.client p).position.awaits id' type)
    (awaitsLocal : ∀ id', id' ≠ id → ∀ p type,
      (s'.client p).position.awaitsLocal id' type = (s.client p).position.awaitsLocal id' type)
    (sent : ∀ id', id' ≠ id → ∀ p type, s'.responses.countP (Response.to p id' type) =
      s.responses.countP (Response.to p id' type))
    (dest : ∀ r ∈ s'.responses, r.dest ≠ none)
    (placed : ∀ p, (s'.client p).position.Placed owner p) : TrafficInv owner s' where
  managed id' := by
    by_cases here : id' = id
    · exact ⟨m', here ▸ mutex⟩
    · rw [(others id' here).1]
      exact inv.managed id'
  node id' m found := by
    by_cases here : id' = id
    · subst here
      rw [mutex] at found
      cases found
      exact node
    · rw [(others id' here).1] at found
      rw [(others id' here).2]
      exact (inv.node id' m found).frame (held id' here) (sends id' here) (awaits id' here)
        (awaitsLocal id' here) (sent id' here)
  dest := dest
  placed := placed

omit [DecidableEq P] in
@[simp] theorem MutexState.releaseMessage_id (s : MutexState P T) (p : P)
    (type : MutexRequestType) (id : DistributedId P) : (s.releaseMessage p type id).id = id := by
  cases type <;> rfl

section

variable {owner : DistributedId P → P} {s : MutexState P T}

theorem MutexState.setPosition_position (s : MutexState P T) (p q : P)
    (position : Position P T) : ((s.setPosition p position).client q).position =
      if q = p then position else (s.client q).position := by
  by_cases same : q = p
  · subst same
    simp [MutexState.setPosition]
  · simp [MutexState.setPosition, same]

@[simp] theorem MutexState.setPosition_held (s : MutexState P T) (p q : P)
    (position : Position P T) : ((s.setPosition p position).client q).held = (s.client q).held := by
  by_cases same : q = p
  · subst same
    simp [MutexState.setPosition]
  · simp [MutexState.setPosition, same]

theorem MutexState.setHeld_held (s : MutexState P T) (p q : P)
    (held : List (DistributedId P × MutexRequestType)) :
    ((s.setHeld p held).client q).held = if q = p then held else (s.client q).held := by
  by_cases same : q = p
  · subst same
    simp [MutexState.setHeld]
  · simp [MutexState.setHeld, same]

@[simp] theorem MutexState.setHeld_position (s : MutexState P T) (p q : P)
    (held : List (DistributedId P × MutexRequestType)) :
    ((s.setHeld p held).client q).position = (s.client q).position := by
  by_cases same : q = p
  · subst same
    simp [MutexState.setHeld]
  · simp [MutexState.setHeld, same]

theorem TrafficInv.placed_update (inv : TrafficInv owner s) {p : P} {position : Position P T}
    (placed : position.Placed owner p) (q : P) :
    ((s.setPosition p position).client q).position.Placed owner q := by
  rw [MutexState.setPosition_position]
  split
  case isTrue same => exact same ▸ placed
  case isFalse => exact inv.placed q

theorem TrafficInv.ask (inv : TrafficInv owner s) {p : P} {type : MutexRequestType}
    {id : DistributedId P} (position : (s.client p).position = .idle) (away : owner id ≠ p) :
    TrafficInv owner (s.setPosition p (.sendRequest type id)) where
  managed := inv.managed
  node id' m found := by
    refine (inv.node id' m found).frame (fun q t => by simp) ?_ ?_ ?_ (fun _ _ => rfl)
    all_goals
      intro q t
      rw [MutexState.setPosition_position]
      split
      case isTrue same => rw [same, position]; rfl
      case isFalse => rfl
  dest := inv.dest
  placed := inv.placed_update away

theorem TrafficInv.wait (inv : TrafficInv owner s) {p : P} {type : MutexRequestType}
    {id : DistributedId P} {m : HardSyncMutex P T} (position : (s.client p).position = .idle)
    (own : owner id = p) (found : s.mutex owner id = some m) :
    TrafficInv owner ((s.setMutex owner id
      (m.pushRequest { id, source := none, type })).setPosition p
        (.waitLocal { id, source := none, type })) := by
  refine inv.change id (m.pushRequest { id, source := none, type })
    (s.mutex_setMutex_self owner id _) (fun id' other => ⟨s.mutex_setMutex_ne owner _ other, rfl⟩)
    ?_ (fun _ _ q t => by simp) ?_ ?_ ?_ (fun _ _ _ _ => rfl) inv.dest
    (inv.placed_update ⟨own, rfl⟩)
  · refine (inv.node id m found).push _ rfl _ (fun q => by simp) ?_ ?_ ?_
    · intro q t
      rw [MutexState.setPosition_position]
      split
      case isTrue same => rw [same, position]; rfl
      case isFalse => rfl
    · intro q t
      rw [MutexState.setPosition_position]
      split
      case isTrue same => rw [same, position]; simp [Position.awaits, MutexRequest.by]
      case isFalse => simp [MutexRequest.by]
    · intro t
      rw [MutexState.setPosition_position, if_pos own, own, position]
      simp [Position.awaitsLocal, MutexRequest.by]
  all_goals
    intro id' other q t
    rw [MutexState.setPosition_position]
    split
    case isTrue same =>
      rw [same, position]
      simp [Position.sends, Position.awaits, Position.awaitsLocal, other.symm]
    case isFalse => rfl

theorem TrafficInv.queue (inv : TrafficInv owner s) {p : P} {type : MutexRequestType}
    {id : DistributedId P} {m : HardSyncMutex P T}
    (position : (s.client p).position = .sendRequest type id)
    (found : s.mutex owner id = some m) :
    TrafficInv owner ((s.setPosition p (.waitResponse type id)).setMutex owner id
      (m.pushRequest { id, source := some p, type })) := by
  have away : owner id ≠ p := by simpa [position, Position.Placed] using inv.placed p
  refine inv.change id (m.pushRequest { id, source := some p, type })
    ((s.setPosition p _).mutex_setMutex_self owner id _)
    (fun id' other => ⟨(s.setPosition p _).mutex_setMutex_ne owner _ other, rfl⟩)
    ?_ (fun _ _ q t => by simp) ?_ ?_ ?_ (fun _ _ _ _ => rfl) inv.dest
    (inv.placed_update away)
  · refine (inv.node id m found).push _ rfl _ (fun q => by simp) ?_ ?_ ?_
    · intro q t
      rw [MutexState.setMutex_client, MutexState.setPosition_position]
      split
      case isTrue same => rw [same, position]; rfl
      case isFalse => rfl
    · intro q t
      rw [MutexState.setMutex_client, MutexState.setPosition_position]
      split
      case isTrue same => rw [same, position]; simp [Position.awaits, MutexRequest.by]
      case isFalse other => simp [MutexRequest.by, Ne.symm other]
    · intro t
      rw [MutexState.setMutex_client, MutexState.setPosition_position, if_neg away]
      simp [MutexRequest.by]
  all_goals
    intro id' other q t
    rw [MutexState.setMutex_client, MutexState.setPosition_position]
    split
    case isTrue same =>
      rw [same, position]
      simp [Position.sends, Position.awaits, Position.awaitsLocal, other.symm]
    case isFalse => rfl

omit [DecidableEq P] in
theorem HardSyncMutex.free_locked {m : HardSyncMutex P T} {type : MutexRequestType}
    (free : m.busy type = false) : m.locked = false := by
  unfold HardSyncMutex.busy at free
  split at free
  · exact (Bool.or_eq_false_iff.mp free).1
  · exact free

@[simp] theorem MutexState.grantLocalAt_mutex (s : MutexState P T) (p : P)
    (type : MutexRequestType) (id : DistributedId P) (m : HardSyncMutex P T) :
    (s.grantLocalAt owner p type id m).mutex owner = (s.setMutex owner id (m.granted type)).mutex
      owner := rfl

theorem MutexState.grantLocalAt_grants (s : MutexState P T) (p : P)
    (type : MutexRequestType) (id : DistributedId P) (m : HardSyncMutex P T) :
    (s.grantLocalAt owner p type id m).grants =
      Function.update s.grants id (s.grants id ++ [(p, type)]) := rfl

theorem MutexState.grantLocalAt_held (s : MutexState P T) (p q : P)
    (type : MutexRequestType) (id : DistributedId P) (m : HardSyncMutex P T) :
    ((s.grantLocalAt owner p type id m).client q).held =
      if q = p then (id, type) :: (s.client p).held else (s.client q).held := by
  simp only [MutexState.grantLocalAt, MutexState.setPosition_held, MutexState.recordGrant_client,
    MutexState.setHeld_held, MutexState.setMutex_client]

theorem MutexState.grantLocalAt_position (s : MutexState P T) (p q : P)
    (type : MutexRequestType) (id : DistributedId P) (m : HardSyncMutex P T) :
    ((s.grantLocalAt owner p type id m).client q).position =
      if q = p then .idle else (s.client q).position := by
  simp only [MutexState.grantLocalAt, MutexState.setPosition_position,
    MutexState.recordGrant_client, MutexState.setHeld_position, MutexState.setMutex_client]

theorem TrafficInv.access (inv : TrafficInv owner s) {p : P} {type : MutexRequestType}
    {id : DistributedId P} {m : HardSyncMutex P T} (position : (s.client p).position = .idle)
    (found : s.mutex owner id = some m) (free : m.busy type = false) :
    TrafficInv owner (s.grantLocalAt owner p type id m) := by
  have still : ∀ q, ((s.grantLocalAt owner p type id m).client q).position =
      (s.client q).position := by
    intro q
    rw [MutexState.grantLocalAt_position]
    split
    case isTrue same => rw [same, position]
    case isFalse => rfl
  refine inv.change id (m.granted type) (s.mutex_setMutex_self owner id _)
    (fun id' other => ⟨s.mutex_setMutex_ne owner _ other, ?_⟩) ?_ ?_ ?_ ?_ ?_
    (fun _ _ _ _ => rfl) inv.dest (fun q => by rw [still]; exact inv.placed q)
  · rw [MutexState.grantLocalAt_grants, Function.update_of_ne other]
  · rw [MutexState.grantLocalAt_grants, Function.update_self]
    refine (inv.node id m found).grant p type (fun _ => HardSyncMutex.free_locked free) _ _ ?_
      (fun q t => by rw [still]; rfl) (fun t => by rw [still])
    intro q t
    rw [still, MutexState.grantLocalAt_held]
    by_cases same : q = p
    · subst same
      by_cases kind : type = t
      · simp [kind, MutexState.grantLocalAt, MutexState.setPosition, MutexState.setHeld]
        omega
      · simp [kind, Ne.symm kind, MutexState.grantLocalAt, MutexState.setPosition,
          MutexState.setHeld]
    · simp [same, MutexState.grantLocalAt, MutexState.setPosition, MutexState.setHeld]
  · intro id' other q t
    rw [MutexState.grantLocalAt_held]
    split
    case isTrue same => simp [same, other.symm]
    case isFalse => rfl
  all_goals
    intro id' other q t
    rw [still]

theorem TrafficInv.grant (inv : TrafficInv owner s) {p : P} {type : MutexRequestType}
    {id : DistributedId P} {m : HardSyncMutex P T}
    (position : (s.client p).position = .sendRequest type id)
    (found : s.mutex owner id = some m) (free : m.busy type = false) :
    TrafficInv owner (MutexState.send owner
      ((s.setPosition p (.waitResponse type id)).setMutex owner id (m.granted type))
      [HardSyncMutex.response m.data { id, source := some p, type }]) := by
  have away : owner id ≠ p := by simpa [position, Position.Placed] using inv.placed p
  have single : ∀ id' q t, [HardSyncMutex.response m.data { id, source := some p, type }].countP
      (Response.to q id' t) = if id' = id ∧ q = p ∧ t = type then 1 else 0 := by
    intro id' q t
    rw [List.countP_singleton]
    simp only [HardSyncMutex.response, Response.to, Option.some.injEq, decide_eq_true_eq]
    congr 1
    exact propext ⟨fun h => ⟨h.2.1.symm, h.1.symm, h.2.2.symm⟩,
      fun h => ⟨h.2.1.symm, h.1.symm, h.2.2.symm⟩⟩
  have about : ∀ r ∈ [HardSyncMutex.response m.data { id, source := some p, type }],
      r.id = id := by
    intro r member
    rw [List.mem_singleton.mp member]
    rfl
  have grants := MutexState.send_grants owner
    ((s.setPosition p (.waitResponse type id)).setMutex owner id (m.granted type)) _ about
  refine inv.change id (m.granted type) ?_ (fun id' other => ⟨?_, ?_⟩) ?_ ?_ ?_ ?_ ?_ ?_ ?_ ?_
  · simp only [MutexState.mutex, MutexState.send_server]
    exact MutexState.mutex_setMutex_self owner _ _ _
  · simp only [MutexState.mutex, MutexState.send_server]
    exact MutexState.mutex_setMutex_ne owner _ _ other
  · rw [grants, Function.update_of_ne other]
    rfl
  · rw [grants, Function.update_self]
    refine (inv.node id m found).grant p type (fun _ => HardSyncMutex.free_locked free) _ _ ?_ ?_ ?_
    · intro q t
      rw [MutexState.send_responses, List.countP_append, single, MutexState.send_client]
      simp only [MutexState.setMutex_client, MutexState.setPosition_held,
        MutexState.setPosition_position, MutexState.setMutex_responses, true_and]
      split
      case isTrue same =>
        subst same
        rw [position]
        simp only [Position.sends, MutexState.setPosition]
        omega
      case isFalse =>
        simp only [MutexState.setPosition]
        omega
    · intro q t
      rw [MutexState.send_responses, List.countP_append, single, MutexState.send_client]
      simp only [MutexState.setMutex_client, MutexState.setPosition_position,
        MutexState.setMutex_responses, true_and]
      split
      case isTrue same =>
        subst same
        rw [position]
        simp only [Position.awaits, MutexState.setPosition, true_and, eq_comm (a := t)]
        omega
      case isFalse other => simp [MutexState.setPosition, other]
    · intro t
      rw [MutexState.send_client, MutexState.setMutex_client, MutexState.setPosition_position,
        if_neg away]
  · intro id' other q t
    rw [MutexState.send_client]
    simp
  case refine_9 =>
    intro id' other q t
    rw [MutexState.send_responses, List.countP_append, single]
    simp [other, MutexState.setPosition]
  case refine_10 =>
    intro r member
    rw [MutexState.send_responses] at member
    rcases List.mem_append.mp member with old | new
    · exact inv.dest r old
    · rw [List.mem_singleton.mp new]
      simp [HardSyncMutex.response]
  case refine_11 =>
    intro q
    rw [MutexState.send_client]
    have placed : Position.Placed owner p (.waitResponse type id : Position P T) := away
    exact inv.placed_update placed q
  all_goals
    intro id' other q t
    rw [MutexState.send_client, MutexState.setMutex_client, MutexState.setPosition_position]
    split
    case isTrue same =>
      rw [same, position]
      simp [Position.sends, Position.awaits, Position.awaitsLocal, other.symm]
    case isFalse => rfl

theorem TrafficInv.release (inv : TrafficInv owner s) {p : P} {type : MutexRequestType}
    {id : DistributedId P} {m m' : HardSyncMutex P T} {s₁ : MutexState P T}
    (found : s.mutex owner id = some m) (server : s₁.server = s.server)
    (responses : s₁.responses = s.responses) (grants : s₁.grants = s.grants)
    (released : ∀ id' q t, (s₁.client q).held.count (id', t) +
        (s₁.client q).position.sends id' t + (if id' = id ∧ q = p ∧ t = type then 1 else 0) =
      (s.client q).held.count (id', t) + (s.client q).position.sends id' t)
    (awaits : ∀ id' q t, (s₁.client q).position.awaits id' t = (s.client q).position.awaits id' t)
    (awaitsLocal : ∀ id' q t,
      (s₁.client q).position.awaitsLocal id' t = (s.client q).position.awaitsLocal id' t)
    (placed : ∀ q, (s₁.client q).position.Placed owner q)
    (sharedRequests : m'.lockSharedRequests = m.lockSharedRequests)
    (requests : m'.lockRequests = m.lockRequests)
    (lockedShared : m'.lockedShared = m.lockedShared - if type.exclusive then 0 else 1)
    (locked : m'.locked = if type.exclusive then false else m.locked) :
    TrafficInv owner ((s₁.recordRelease p type id).setMutex owner id m') where
  managed id' := by
    by_cases here : id' = id
    · exact ⟨m', here ▸ MutexState.mutex_setMutex_self owner _ _ _⟩
    · rw [MutexState.mutex_setMutex_ne owner _ _ here]
      simpa [MutexState.mutex, server] using inv.managed id'
  node id' m₀ found' := by
    by_cases here : id' = id
    · subst here
      rw [MutexState.mutex_setMutex_self] at found'
      cases found'
      simp only [MutexState.setMutex_client, MutexState.setMutex_responses,
        MutexState.setMutex_grants, MutexState.recordRelease_client,
        MutexState.recordRelease_responses, MutexState.recordRelease_grants, responses, grants,
        Function.update_self]
      exact (inv.node id' m found).release p type _
        (fun q t => by simpa using released id' q t) (awaits id') (awaitsLocal id' _)
        sharedRequests requests lockedShared locked
    · rw [MutexState.mutex_setMutex_ne owner _ _ here] at found'
      have found' : s.mutex owner id' = some m₀ := by
        simpa [MutexState.mutex, server] using found'
      simp only [MutexState.setMutex_client, MutexState.setMutex_responses,
        MutexState.setMutex_grants, MutexState.recordRelease_client,
        MutexState.recordRelease_responses, MutexState.recordRelease_grants, responses, grants,
        Function.update_of_ne here]
      have before := inv.node id' m₀ found'
      have same := released id'
      simp only [here, false_and, if_false, Nat.add_zero] at same
      exact { before with
        granted := fun q t => by rw [before.granted, same]
        asked := fun q t => by rw [awaits, before.asked]
        askedLocal := fun t => by rw [awaitsLocal, before.askedLocal] }
  dest r member := inv.dest r (by simpa [responses] using member)
  placed q := by simpa using placed q

theorem MutexState.respondAt_setMutex (s : MutexState P T) (id : DistributedId P)
    (m m' : HardSyncMutex P T) :
    (s.setMutex owner id m').respondAt owner id m = s.respondAt owner id m := by
  simp [MutexState.respondAt]

theorem TrafficInv.batch_about (inv : TrafficInv owner s) {id : DistributedId P}
    {m : HardSyncMutex P T} (found : s.mutex owner id = some m) :
    ∀ r ∈ m.requestsToProcess.1, r.id = id := fun r member =>
  (inv.node id m found).queue r (m.requestsToProcess_perm.subset (by simp [member]))

omit [DecidableEq P] in
theorem HardSyncMutex.response_dest (data : T) (o : P) (batch : List (MutexRequest P)) :
    (batch.map (HardSyncMutex.response data)).map (fun r => (r.dest.getD o, r.type)) =
      batch.map fun r => (r.source.getD o, r.type) := by
  simp [HardSyncMutex.response, Function.comp_def]

theorem HardSyncMutex.response_count (data : T) (id : DistributedId P)
    (batch : List (MutexRequest P)) (about : ∀ r ∈ batch, r.id = id) (id' : DistributedId P)
    (p : P) (type : MutexRequestType) :
    (batch.map (HardSyncMutex.response data)).countP (Response.to p id' type) =
      if id' = id then batch.countP (MutexRequest.by (some p) type) else 0 := by
  rw [List.countP_map]
  split
  case isTrue same =>
    refine List.countP_congr fun r member => ?_
    simp [HardSyncMutex.response, Response.to, MutexRequest.by, about r member, same]
  case isFalse other =>
    rw [List.countP_eq_zero]
    intro r member
    simp [HardSyncMutex.response, Response.to, about r member, Ne.symm other]

theorem TrafficInv.respond (inv : TrafficInv owner s) {id : DistributedId P}
    {m : HardSyncMutex P T} (found : s.mutex owner id = some m)
    (remote : ∀ r ∈ m.requestsToProcess.1, r.source ≠ none) :
    TrafficInv owner (s.respondAt owner id m) := by
  have about := inv.batch_about found
  have noLocal : ∀ type, m.requestsToProcess.1.countP (MutexRequest.by none type) = 0 := by
    intro type
    rw [List.countP_eq_zero]
    intro r member
    simp [MutexRequest.by, remote r member]
  have aboutSent : ∀ r ∈ m.respondToRequests.2, r.id = id := by
    intro r member
    rw [HardSyncMutex.respondToRequests_sent] at member
    obtain ⟨request, inBatch, rfl⟩ := List.mem_map.mp member
    exact about request inBatch
  have grants := MutexState.send_grants owner (s.setMutex owner id m.respondToRequests.1) _
    aboutSent
  have client : (s.respondAt owner id m).client = s.client := MutexState.send_client _ _ _
  have responses : (s.respondAt owner id m).responses = s.responses ++ m.respondToRequests.2 :=
    MutexState.send_responses _ _ _
  refine inv.change id m.respondToRequests.1 ?_ (fun id' other => ⟨?_, ?_⟩) ?_
    (by simp [client]) (by simp [client]) (by simp [client]) (by simp [client]) ?_ ?_
    (by simpa [client] using inv.placed)
  · simp only [MutexState.mutex, MutexState.respondAt, MutexState.send_server]
    exact MutexState.mutex_setMutex_self owner _ _ _
  · simp only [MutexState.mutex, MutexState.respondAt, MutexState.send_server]
    exact MutexState.mutex_setMutex_ne owner _ _ other
  · rw [MutexState.respondAt, grants, Function.update_of_ne other]
    rfl
  · rw [client, responses, MutexState.respondAt, grants, Function.update_self,
      HardSyncMutex.respondToRequests_sent, HardSyncMutex.response_dest]
    refine (inv.node id m found).respond _ _ (fun p type => by simp [noLocal]) ?_
      (fun p type => rfl) (fun type => by simp [noLocal])
    intro p type
    rw [List.countP_append, HardSyncMutex.response_count _ id _ about, if_pos rfl]
  · intro id' other p type
    rw [responses, List.countP_append, HardSyncMutex.respondToRequests_sent,
      HardSyncMutex.response_count _ id _ about, if_neg other, Nat.add_zero]
  · intro r member
    rw [responses] at member
    rcases List.mem_append.mp member with old | new
    · exact inv.dest r old
    · rw [HardSyncMutex.respondToRequests_sent] at new
      obtain ⟨request, inBatch, rfl⟩ := List.mem_map.mp new
      exact remote request inBatch

omit [DecidableEq P] in
theorem HardSyncMutex.respond_last (m : HardSyncMutex P T) {front : List (MutexRequest P)}
    {last : MutexRequest P} (batch : m.requestsToProcess.1 = front ++ [last]) :
    (m.requestsToProcess.2.respondAll front).1.granted last.type = m.respondToRequests.1 := by
  rw [HardSyncMutex.respondToRequests_mutex, HardSyncMutex.respondAll_mutex, batch]
  cases kind : last.type.exclusive <;>
    simp [HardSyncMutex.granted, kind, HardSyncMutex.lock, HardSyncMutex.lockShared,
      Int.add_assoc]

theorem TrafficInv.reach (inv : TrafficInv owner s) {id : DistributedId P}
    {m : HardSyncMutex P T} {request : MutexRequest P} {front : List (MutexRequest P)}
    (found : s.mutex owner id = some m)
    (waiting : (s.client (owner id)).position = .waitLocal request)
    (batch : m.requestsToProcess.1 = front ++ [request])
    (remote : ∀ r ∈ front, r.source ≠ none) :
    TrafficInv owner ((MutexState.send owner
      (s.setMutex owner id (m.requestsToProcess.2.respondAll front).1)
      (front.map (HardSyncMutex.response m.data))).grantLocalAt owner (owner id) request.type id
        (m.requestsToProcess.2.respondAll front).1) := by
  have about := inv.batch_about found
  rw [batch] at about
  have aboutFront : ∀ r ∈ front, r.id = id := fun r member => about r (by simp [member])
  have isLocal : request.source = none := by
    have placed := inv.placed (owner id)
    rw [waiting] at placed
    exact placed.2
  have aboutRequest : request.id = id := about request (by simp)
  have aboutSent : ∀ r ∈ front.map (HardSyncMutex.response m.data), r.id = id := by
    intro r member
    obtain ⟨x, inFront, rfl⟩ := List.mem_map.mp member
    exact aboutFront x inFront
  have frontLocal : ∀ type, front.countP (MutexRequest.by none type) = 0 := by
    intro type
    rw [List.countP_eq_zero]
    intro r member
    simp [MutexRequest.by, remote r member]
  have mutexes := m.respond_last batch
  have grants := MutexState.send_grants owner
    (s.setMutex owner id (m.requestsToProcess.2.respondAll front).1) _ aboutSent
  generalize first : MutexState.send owner
    (s.setMutex owner id (m.requestsToProcess.2.respondAll front).1)
    (front.map (HardSyncMutex.response m.data)) = s₁ at grants
  have client : s₁.client = s.client := by rw [← first, MutexState.send_client]; rfl
  have responses : s₁.responses = s.responses ++ front.map (HardSyncMutex.response m.data) := by
    rw [← first, MutexState.send_responses]; rfl
  have server : (s₁.setMutex owner id m.respondToRequests.1).mutex owner =
      (s.setMutex owner id m.respondToRequests.1).mutex owner := by
    funext id'
    rw [← first]
    simp [MutexState.mutex, MutexState.setMutex, MutexState.setServer, MutexState.send_server,
      MutexServer.manage]
  have responses' : (s₁.grantLocalAt owner (owner id) request.type id
      (m.requestsToProcess.2.respondAll front).1).responses = s₁.responses := rfl
  refine inv.change id m.respondToRequests.1 ?_ (fun id' other => ⟨?_, ?_⟩) ?_ ?_ ?_ ?_ ?_ ?_ ?_ ?_
  · rw [MutexState.grantLocalAt_mutex, mutexes]
    exact MutexState.mutex_setMutex_self owner _ _ _
  · rw [MutexState.grantLocalAt_mutex, mutexes, server]
    exact MutexState.mutex_setMutex_ne owner _ _ other
  · rw [MutexState.grantLocalAt_grants, Function.update_of_ne other, grants,
      Function.update_of_ne other]
    rfl
  · rw [MutexState.grantLocalAt_grants, Function.update_self, grants, Function.update_self,
      HardSyncMutex.response_dest, List.append_assoc]
    have list : (front.map fun r => (r.source.getD (owner id), r.type)) ++
        [(owner id, request.type)] =
          m.requestsToProcess.1.map fun r => (r.source.getD (owner id), r.type) := by
      simp [batch, isLocal]
    rw [MutexState.setMutex_grants, list]
    refine (inv.node id m found).respond _ _ ?_ ?_ ?_ ?_
    · intro p type
      rw [MutexState.grantLocalAt_held, MutexState.grantLocalAt_position, batch,
        List.countP_append, frontLocal, client]
      by_cases same : p = owner id
      · subst same
        rw [waiting]
        by_cases kind : request.type = type <;>
          simp [Position.sends, MutexRequest.by, isLocal, kind]
      · simp [same]
    · intro p type
      rw [responses', responses, List.countP_append,
        HardSyncMutex.response_count _ id _ aboutFront, if_pos rfl, batch, List.countP_append]
      simp [MutexRequest.by, isLocal]
    · intro p type
      rw [MutexState.grantLocalAt_position, client]
      split
      case isTrue same => rw [same, waiting]; rfl
      case isFalse => rfl
    · intro type
      rw [MutexState.grantLocalAt_position, if_pos rfl, waiting, batch, List.countP_append,
        frontLocal]
      simp [Position.awaitsLocal, MutexRequest.by, isLocal, aboutRequest]
  · intro id' other p type
    rw [MutexState.grantLocalAt_held, client]
    split
    case isTrue same => simp [same, other.symm]
    case isFalse => rfl
  case refine_9 =>
    intro id' other p type
    rw [responses', responses, List.countP_append,
      HardSyncMutex.response_count _ id _ aboutFront, if_neg other, Nat.add_zero]
  case refine_10 =>
    intro r member
    rw [responses', responses] at member
    rcases List.mem_append.mp member with old | new
    · exact inv.dest r old
    · obtain ⟨x, inFront, rfl⟩ := List.mem_map.mp new
      exact remote x inFront
  case refine_11 =>
    intro p
    rw [MutexState.grantLocalAt_position, client]
    split
    case isTrue => trivial
    case isFalse => exact inv.placed p
  all_goals
    intro id' other p type
    rw [MutexState.grantLocalAt_position, client]
    split
    case isTrue same =>
      rw [same, waiting]
      simp [Position.sends, Position.awaits, Position.awaitsLocal, aboutRequest, other.symm]
    case isFalse => rfl

@[simp] theorem MutexState.updateSection_server (s : MutexState P T) (p : P)
    (id : DistributedId P) (f : AcquireSection P T → AcquireSection P T) :
    (s.updateSection p id f).server = s.server := rfl
@[simp] theorem MutexState.updateSection_client (s : MutexState P T) (p : P)
    (id : DistributedId P) (f : AcquireSection P T → AcquireSection P T) :
    (s.updateSection p id f).client = s.client := rfl
@[simp] theorem MutexState.updateSection_responses (s : MutexState P T) (p : P)
    (id : DistributedId P) (f : AcquireSection P T → AcquireSection P T) :
    (s.updateSection p id f).responses = s.responses := rfl
@[simp] theorem MutexState.updateSection_grants (s : MutexState P T) (p : P)
    (id : DistributedId P) (f : AcquireSection P T → AcquireSection P T) :
    (s.updateSection p id f).grants = s.grants := rfl

@[simp] theorem MutexState.setCopy_held (s : MutexState P T) (p q : P) (id : DistributedId P)
    (data : T) : ((s.setCopy p id data).client q).held = (s.client q).held := by
  by_cases same : q = p
  · subst same
    simp [MutexState.setCopy]
  · simp [MutexState.setCopy, same]

@[simp] theorem MutexState.setCopy_position (s : MutexState P T) (p q : P) (id : DistributedId P)
    (data : T) : ((s.setCopy p id data).client q).position = (s.client q).position := by
  by_cases same : q = p
  · subst same
    simp [MutexState.setCopy]
  · simp [MutexState.setCopy, same]

theorem TrafficInv.same {s' : MutexState P T} (inv : TrafficInv owner s)
    (mutex : ∀ id m, s.mutex owner id = some m →
      ∃ data, s'.mutex owner id = some { m with data })
    (responses : s'.responses = s.responses) (grants : s'.grants = s.grants)
    (held : ∀ p, (s'.client p).held = (s.client p).held)
    (position : ∀ p, (s'.client p).position = (s.client p).position) : TrafficInv owner s' where
  managed id := by
    obtain ⟨m, found⟩ := inv.managed id
    obtain ⟨data, found'⟩ := mutex id m found
    exact ⟨_, found'⟩
  node id m' found' := by
    obtain ⟨m, found⟩ := inv.managed id
    obtain ⟨data, found''⟩ := mutex id m found
    rw [found''] at found'
    cases found'
    have before : NodeInv owner s'.client s'.responses (s.grants id) id m :=
      (inv.node id m found).frame (by simp [held]) (by simp [position]) (by simp [position])
        (by simp [position]) (by simp [responses])
    rw [grants]
    exact { before with }
  dest := responses ▸ inv.dest
  placed p := position p ▸ inv.placed p

theorem TrafficInv.awaited_response (inv : TrafficInv owner s) {p : P}
    {type : MutexRequestType} {id : DistributedId P} {response : Response P T}
    (position : (s.client p).position = .waitResponse type id)
    (found : s.responses.find? (MutexState.awaited owner p type id) = some response) :
    response.dest = some p ∧ response.id = id ∧ response.type = type ∧ ∃ before after,
      s.responses = before ++ response :: after ∧
      s.responses.eraseP (MutexState.awaited owner p type id) = before ++ after := by
  obtain ⟨matched, before, after, split, earlier⟩ := List.find?_eq_some_iff_append.mp found
  obtain ⟨dest, kind, _⟩ := of_decide_eq_true matched
  have about : response.id = id := by
    obtain ⟨m, mutex⟩ := inv.managed response.id
    have count := (inv.node response.id m mutex).asked p response.type
    have positive : 0 < s.responses.countP (Response.to p response.id response.type) :=
      List.countP_pos_iff.mpr ⟨response, by simp [split], by simp [Response.to, dest]⟩
    rw [position] at count
    simp only [Position.awaits, kind] at count
    by_contra other
    simp only [Ne.symm other, false_and, if_false, ← kind] at count
    omega
  refine ⟨dest, about, kind, before, after, split, ?_⟩
  rw [split, List.eraseP_append_right _ (by simpa using earlier), List.eraseP_cons_of_pos matched]

theorem MutexState.received_server (s : MutexState P T) (p : P) (type : MutexRequestType)
    (id : DistributedId P) (response : Response P T) :
    (s.received owner p type id response).server = s.server := by
  cases data : response.data <;> by_cases kind : type = .acquire <;>
    simp only [MutexState.received, data, kind, if_true, if_false] <;> rfl

theorem MutexState.received_grants (s : MutexState P T) (p : P) (type : MutexRequestType)
    (id : DistributedId P) (response : Response P T) :
    (s.received owner p type id response).grants = s.grants := by
  cases data : response.data <;> by_cases kind : type = .acquire <;>
    simp only [MutexState.received, data, kind, if_true, if_false] <;> rfl

theorem MutexState.received_responses (s : MutexState P T) (p : P) (type : MutexRequestType)
    (id : DistributedId P) (response : Response P T) :
    (s.received owner p type id response).responses =
      s.responses.eraseP (MutexState.awaited owner p type id) := by
  cases data : response.data <;> by_cases kind : type = .acquire <;>
    simp only [MutexState.received, data, kind, if_true, if_false] <;> rfl

theorem MutexState.received_position (s : MutexState P T) (p q : P) (type : MutexRequestType)
    (id : DistributedId P) (response : Response P T) :
    ((s.received owner p type id response).client q).position =
      if q = p then .idle else (s.client q).position := by
  cases data : response.data <;> by_cases kind : type = .acquire <;>
    simp [MutexState.received, data, kind, MutexState.setPosition_position]

theorem MutexState.received_held (s : MutexState P T) (p q : P) (type : MutexRequestType)
    (id : DistributedId P) (response : Response P T) :
    ((s.received owner p type id response).client q).held =
      if q = p then (id, type) :: (s.client p).held else (s.client q).held := by
  cases data : response.data <;> by_cases kind : type = .acquire <;>
    simp [MutexState.received, data, kind, MutexState.setHeld_held]

theorem TrafficInv.receive (inv : TrafficInv owner s) {p : P} {type : MutexRequestType}
    {id : DistributedId P} {response : Response P T}
    (position : (s.client p).position = .waitResponse type id)
    (found : s.responses.find? (MutexState.awaited owner p type id) = some response) :
    TrafficInv owner (s.received owner p type id response) := by
  obtain ⟨dest, about, kind, before, after, split, rest⟩ := inv.awaited_response position found
  have count : ∀ id' q t, s.responses.countP (Response.to q id' t) =
      (before ++ after).countP (Response.to q id' t) +
        if id' = id ∧ q = p ∧ t = type then 1 else 0 := by
    intro id' q t
    have single : Response.to q id' t response = decide (id' = id ∧ q = p ∧ t = type) := by
      simp only [Response.to, dest, about, kind, Option.some.injEq]
      exact decide_eq_decide.mpr ⟨fun h => ⟨h.2.1.symm, h.1.symm, h.2.2.symm⟩,
        fun h => ⟨h.2.1.symm, h.1.symm, h.2.2.symm⟩⟩
    rw [split, List.countP_append, List.countP_cons, single, List.countP_append]
    simp only [decide_eq_true_eq]
    omega
  obtain ⟨m, mutex⟩ := inv.managed id
  have same : (s.received owner p type id response).mutex owner = s.mutex owner := by
    funext id'
    simp [MutexState.mutex, MutexState.received_server]
  have away : Position.Placed owner p (.waitResponse type id : Position P T) :=
    position ▸ inv.placed p
  refine inv.change id m (by rw [same, mutex])
    (fun id' _ => ⟨by rw [same], by rw [MutexState.received_grants]⟩) ?_ ?_ ?_ ?_ ?_ ?_ ?_ ?_
  · have old := inv.node id m mutex
    rw [MutexState.received_grants, MutexState.received_responses, rest]
    refine ⟨old.sharedQueue, old.lockQueue, old.shared, old.exclusive, ?_, ?_, ?_⟩
    · intro q t
      rw [old.granted, count, MutexState.received_held, MutexState.received_position]
      simp only [true_and]
      by_cases here : q = p
      · subst here
        rw [position]
        by_cases kind : t = type
        · simp [kind, Position.sends]
          omega
        · simp [kind, Ne.symm kind, Position.sends]
      · simp [here]
    · intro q t
      have total := old.asked q t
      rw [count] at total
      rw [MutexState.received_position]
      simp only [true_and] at total
      by_cases here : q = p
      · subst here
        rw [position] at total
        simp only [Position.awaits, true_and, eq_comm (a := t)] at total
        simp only [if_true, Position.awaits]
        omega
      · simp only [here, false_and, if_false, Nat.add_zero] at total ⊢
        exact total
    · intro t
      rw [← old.askedLocal, MutexState.received_position, if_neg away]
  · intro id' other q t
    rw [MutexState.received_held]
    split
    case isTrue here => simp [here, other.symm]
    case isFalse => rfl
  case refine_6 =>
    intro id' other q t
    rw [MutexState.received_responses, rest, count]
    simp [other]
  case refine_7 =>
    intro r member
    rw [MutexState.received_responses] at member
    exact inv.dest r (List.mem_of_mem_eraseP member)
  case refine_8 =>
    intro q
    rw [MutexState.received_position]
    split
    case isTrue => trivial
    case isFalse => exact inv.placed q
  all_goals
    intro id' other q t
    rw [MutexState.received_position]
    split
    case isTrue here =>
      rw [here, position]
      simp [Position.sends, Position.awaits, Position.awaitsLocal, other.symm]
    case isFalse => rfl

theorem TrafficInv.sendRelease (inv : TrafficInv owner s) {p : P} {type : MutexRequestType}
    {id : DistributedId P} (position : (s.client p).position = .idle) (away : owner id ≠ p)
    (holds : (id, type) ∈ (s.client p).held) :
    TrafficInv owner ((s.setHeld p ((s.client p).held.erase (id, type))).setPosition p
      (.sendRelease type (s.releaseMessage p type id))) where
  managed := inv.managed
  node id' m found := by
    have old := inv.node id' m found
    refine ⟨old.sharedQueue, old.lockQueue, old.shared, old.exclusive, ?_, ?_, ?_⟩
    · intro q t
      refine (old.granted q t).trans ?_
      rw [MutexState.setPosition_held, MutexState.setHeld_held, MutexState.setPosition_position]
      by_cases here : q = p
      · subst here
        have positive : 0 < (s.client q).held.count (id, type) := List.count_pos_iff.mpr holds
        simp only [if_true, position, Position.sends, MutexState.releaseMessage_id]
        rw [List.count_erase]
        by_cases target : id = id' ∧ type = t
        · obtain ⟨rfl, rfl⟩ := target
          simp only [BEq.rfl, and_self, if_true]
          show _ = _ + s.responses.countP _
          omega
        · have different : ((id, type) == (id', t)) = false :=
            beq_false_of_ne fun eq => target ⟨congrArg Prod.fst eq, congrArg Prod.snd eq⟩
          simp only [different, target, Bool.false_eq_true, if_false, Nat.sub_zero]
          rfl
      · simp only [here, if_false, MutexState.setHeld_position]
        rfl
    · intro q t
      rw [MutexState.setPosition_position]
      split
      case isTrue same =>
        have before := old.asked p t
        rw [position] at before
        rw [same]
        exact before
      case isFalse => rw [MutexState.setHeld_position]; exact old.asked q t
    · intro t
      rw [MutexState.setPosition_position]
      split
      case isTrue same => rw [← old.askedLocal, same, position]; rfl
      case isFalse => rw [MutexState.setHeld_position]; exact old.askedLocal t
  dest := inv.dest
  placed q := by
    rw [MutexState.setPosition_position]
    split
    case isTrue same =>
      rw [same]
      refine ⟨by simpa using away, ?_⟩
      cases type <;> simp [MutexState.releaseMessage, MutexMessage.id]
    case isFalse => rw [MutexState.setHeld_position]; exact inv.placed q

omit [DecidableEq P] in
theorem Position.Placed.released {p : P} {type : MutexRequestType} {message : MutexMessage P T}
    (placed : Position.Placed owner p (.sendRelease type message)) (m : HardSyncMutex P T) :
    (m.released message).lockSharedRequests = m.lockSharedRequests ∧
      (m.released message).lockRequests = m.lockRequests ∧
      (m.released message).lockedShared = m.lockedShared - (if type.exclusive then 0 else 1) ∧
      (m.released message).locked = if type.exclusive then false else m.locked := by
  obtain ⟨_, shape⟩ := placed
  cases type <;> simp only at shape
  case acquire =>
    obtain ⟨updated, shape⟩ := shape
    rw [shape]
    simp [HardSyncMutex.released, HardSyncMutex.unlock, MutexRequestType.exclusive]
  all_goals
    rw [shape]
    simp [HardSyncMutex.released, HardSyncMutex.unlock, HardSyncMutex.unlockShared,
      MutexRequestType.exclusive]

theorem TrafficInv.hear (inv : TrafficInv owner s) {p : P} {type : MutexRequestType}
    {message : MutexMessage P T} {m : HardSyncMutex P T}
    (position : (s.client p).position = .sendRelease type message)
    (found : s.mutex owner message.id = some m) :
    TrafficInv owner (((s.setPosition p .idle).recordRelease p type message.id).setMutex owner
      message.id (m.released message)) := by
  have placed : Position.Placed owner p (.sendRelease type message) := position ▸ inv.placed p
  obtain ⟨sharedRequests, requests, lockedShared, locked⟩ := placed.released m
  have idle : ∀ {β : Type} (f : Position P T → β), f .idle = f (.sendRelease type message) →
      ∀ q, f ((s.setPosition p .idle).client q).position = f (s.client q).position := by
    intro β f same q
    rw [MutexState.setPosition_position]
    split
    case isTrue here => rw [here, position, same]
    case isFalse => rfl
  refine inv.release found rfl rfl rfl ?_ (fun id' q t => idle (Position.awaits id' t) rfl q)
    (fun id' q t => idle (Position.awaitsLocal id' t) rfl q)
    (inv.placed_update trivial) sharedRequests requests lockedShared locked
  · intro id' q t
    rw [MutexState.setPosition_held, MutexState.setPosition_position]
    by_cases here : q = p
    · subst here
      rw [position]
      by_cases target : message.id = id' ∧ type = t
      · obtain ⟨rfl, rfl⟩ := target
        simp [Position.sends]
      · have : ¬ (id' = message.id ∧ t = type) := fun both => target ⟨both.1.symm, both.2.symm⟩
        simp only [if_true, Position.sends, true_and, target, this, if_false]
    · simp [here]

theorem TrafficInv.hearLocal (inv : TrafficInv owner s) {p : P} {type : MutexRequestType}
    {id : DistributedId P} {m : HardSyncMutex P T} (position : (s.client p).position = .idle)
    (own : owner id = p) (holds : (id, type) ∈ (s.client p).held)
    (found : s.mutex owner id = some m) :
    TrafficInv owner (((s.setHeld p ((s.client p).held.erase (id, type))).recordRelease p type
      id).setMutex owner id (if type.exclusive then m.unlock else m.unlockShared)) := by
  refine inv.release found rfl rfl rfl ?_ (fun _ _ _ => by simp) (fun _ _ _ => by simp)
    (fun q => by simpa using inv.placed q) ?_ ?_ ?_ ?_
  · intro id' q t
    rw [MutexState.setHeld_held, MutexState.setHeld_position]
    by_cases here : q = p
    · subst here
      have positive : 0 < (s.client q).held.count (id, type) := List.count_pos_iff.mpr holds
      rw [if_pos rfl, List.count_erase]
      by_cases target : id = id' ∧ type = t
      · obtain ⟨rfl, rfl⟩ := target
        simp only [BEq.rfl, and_self, if_true]
        omega
      · have different : ((id, type) == (id', t)) = false :=
          beq_false_of_ne fun eq => target ⟨congrArg Prod.fst eq, congrArg Prod.snd eq⟩
        have : ¬ (id' = id ∧ t = type) := fun both => target ⟨both.1.symm, both.2.symm⟩
        simp [different, this]
    · simp [here]
  all_goals
    cases kind : type.exclusive <;>
      simp [HardSyncMutex.unlock, HardSyncMutex.unlockShared]

theorem TrafficInv.deliverRelease (inv : TrafficInv owner s) {p : P} {type : MutexRequestType}
    {message : MutexMessage P T} {m : HardSyncMutex P T}
    (position : (s.client p).position = .sendRelease type message)
    (found : s.mutex owner message.id = some m)
    (remote : ∀ r ∈ (m.released message).requestsToProcess.1, r.source ≠ none) :
    TrafficInv owner (((s.setPosition p .idle).recordRelease p type message.id).respondAt owner
      message.id (m.released message)) := by
  rw [← MutexState.respondAt_setMutex]
  exact (inv.hear position found).respond (MutexState.mutex_setMutex_self owner _ _ _) remote

theorem TrafficInv.step {a : MutexAction P T} {s' : MutexState P T} (inv : TrafficInv owner s)
    (effect : Effect owner s a s') : TrafficInv owner s' := by
  cases effect with
  | ask position away => exact inv.ask position away
  | wait position own found _ => exact inv.wait position own found
  | access position _ found free => exact inv.access position found free
  | queue position found _ => exact inv.queue position found
  | grant position found free => exact inv.grant position found free
  | receive position found => exact inv.receive position found
  | sendRelease position away holds => exact inv.sendRelease position away holds
  | respond position found remote => exact inv.deliverRelease position found remote
  | @reach p type message m request front position found waiting about batch remote =>
    have heard := inv.hear position found
    have placed : Position.Placed owner p (.sendRelease type message) := position ▸ inv.placed p
    have away := placed.1
    have result := heard.reach (MutexState.mutex_setMutex_self owner _ _ _)
      (by simpa [MutexState.setPosition_position, away] using waiting) batch remote
    simpa using result
  | notify position own holds found _ remote =>
    have heard := inv.hearLocal position own holds found
    rw [← MutexState.respondAt_setMutex]
    exact heard.respond (MutexState.mutex_setMutex_self owner _ _ _) remote
  | unlockShared position own holds found kind _ =>
    simpa [kind] using inv.hearLocal position own holds found
  | @modifyLocal p id f m position own holds found =>
    refine inv.same ?_ rfl rfl (fun _ => rfl) (fun _ => rfl)
    intro id' m' found'
    by_cases here : id' = id
    · subst here
      rw [found] at found'
      cases found'
      exact ⟨_, MutexState.mutex_setMutex_self owner _ _ _⟩
    · exact ⟨m'.data, (MutexState.mutex_setMutex_ne owner _ _ here).trans found'⟩
  | modifyCopy position away holds =>
    exact inv.same (fun _ m found => ⟨m.data, found⟩) rfl rfl (fun _ => by simp) (fun _ => by simp)

theorem mutexTraffic_invariant {data : DistributedId P → T} {ok : MutexState P T →
    MutexAction P T → Prop} (reached : (mutexTraffic owner data).ReachableBy ok s) :
    TrafficInv owner s := by
  refine reached.invariant ?_ fun s a s' _ inv _ taken => inv.step (inv.next_effect taken)
  rintro s rfl
  have start : ∀ id, (MutexState.start owner data).mutex owner id = some (.build (data id)) := by
    intro id
    simp [MutexState.mutex, MutexState.start]
  refine ⟨fun id => ⟨_, start id⟩, ?_, by simp [MutexState.start], fun _ => trivial⟩
  intro id m found
  rw [start] at found
  cases found
  constructor <;> simp [MutexState.start, HardSyncMutex.build, HardSyncMutex.queued,
    Position.sends, Position.awaits, Position.awaitsLocal]

end

end Fpmas.Synchro.Hard
