import Fpmas.Synchro.Hard.MutexInvariant

set_option autoImplicit false

namespace Fpmas.Synchro.Hard

variable {P T : Type} [DecidableEq P]

/-- An outstanding LOCK or ACQUIRE grant is the only outstanding grant of the node. -/
def MutualExclusion (grants : List (P × MutexRequestType)) : Prop :=
  ∀ g ∈ grants, g.2.exclusive = true → grants = [g]

/-- The mutex, as a release leaves it, from which `requestsToProcess` pops an exclusive request
although shared accesses are held or popped with it. -/
def HardSyncMutex.Mixes (m : HardSyncMutex P T) : Prop :=
  m.locked = false ∧ m.lockRequests ≠ [] ∧ (∀ r ∈ m.lockSharedRequests, r.source ≠ none) ∧
    (0 < m.lockedShared ∨ m.lockSharedRequests ≠ [])

def MutexState.responding (owner : DistributedId P → P) (s : MutexState P T) :
    MutexAction P T → Option (HardSyncMutex P T)
  | .deliver p =>
    match (s.client p).position with
    | .sendRelease _ message => (s.mutex owner message.id).map (·.released message)
    | _ => none
  | .release p type id =>
    if owner id = p then
      (s.mutex owner id).bind fun m =>
        let m' := if type.exclusive then m.unlock else m.unlockShared
        if type.exclusive || decide (m'.lockedShared = 0) then some m' else none
    else none
  | _ => none

/-- The step does not respond to the queued requests of a mutex that mixes grants. -/
def Separates (owner : DistributedId P → P) (s : MutexState P T) (a : MutexAction P T) : Prop :=
  ∀ m ∈ s.responding owner a, ¬ m.Mixes

theorem NodeInv.exclusion_iff {owner : DistributedId P → P} {client : P → Client P T}
    {responses : List (Response P T)} {grants : List (P × MutexRequestType)}
    {id : DistributedId P} {m : HardSyncMutex P T}
    (h : NodeInv owner client responses grants id m) :
    MutualExclusion grants ↔ (m.locked = true → m.lockedShared = 0) := by
  have shared := h.shared
  have exclusive := h.exclusive
  constructor
  · intro exclusion locked
    rw [locked, if_pos rfl] at exclusive
    obtain ⟨g, member, kind⟩ := List.countP_pos_iff.mp (by omega : 0 < grants.countP
      (fun g => g.2.exclusive))
    rw [← shared, exclusion g member kind]
    simp [kind]
  · intro alone g member kind
    have locked := h.locked_grant member kind
    rw [locked, if_pos rfl] at exclusive
    rw [alone locked] at shared
    have total := List.length_eq_countP_add_countP (fun g : P × MutexRequestType => g.2.exclusive)
      (l := grants)
    have others : grants.countP (fun g => decide ¬g.2.exclusive = true) =
        grants.countP (fun g => !g.2.exclusive) := by
      refine List.countP_congr fun x _ => ?_
      cases x.2.exclusive <;> simp
    obtain ⟨x, single⟩ := List.length_eq_one_iff.mp (by omega : grants.length = 1)
    rw [single] at member ⊢
    rw [List.mem_singleton.mp member]

omit [DecidableEq P] in
theorem HardSyncMutex.respond_alone_iff {m : HardSyncMutex P T}
    (sharedQueue : ∀ r ∈ m.lockSharedRequests, r.type.exclusive = false)
    (lockQueue : ∀ r ∈ m.lockRequests, r.type.exclusive = true)
    (shared : 0 ≤ m.lockedShared) (unlocked : m.locked = false) :
    (m.respondToRequests.1.locked = true → m.respondToRequests.1.lockedShared = 0) ↔
      ¬ m.Mixes := by
  rw [HardSyncMutex.respondToRequests_mutex]
  simp only [unlocked, Bool.false_or]
  have quiet : ∀ l : List (MutexRequest P), (∀ r ∈ l, r ∈ m.lockSharedRequests) →
      (l.any fun r => r.type.exclusive) = false := by
    intro l sub
    rw [List.any_eq_false]
    intro r member
    simp [sharedQueue r (sub r member)]
  rcases m.requestsToProcess_cases with ⟨locked, _⟩ | ⟨_, front, last, rest, isLocal, _, split, b⟩ |
    ⟨_, _, empty, b⟩ | ⟨_, remote, request, rest, split, b⟩
  · simp [unlocked] at locked
  · have all := quiet (front ++ [last]) fun r member => by
      rw [split]
      simp only [List.mem_append, List.mem_cons, List.not_mem_nil, or_false] at member ⊢
      tauto
    refine iff_of_true (by rw [b, all]; simp) fun mixes => ?_
    exact mixes.2.2.1 last (by simp [split]) isLocal
  · have all := quiet m.lockSharedRequests fun _ member => member
    refine iff_of_true (by rw [b, all]; simp) fun mixes => mixes.2.1 empty
  · have kind := lockQueue request (by simp [split])
    have count : m.lockSharedRequests.countP (fun r => !r.type.exclusive) =
        m.lockSharedRequests.length := by
      rw [List.countP_eq_length]
      intro r member
      simp [sharedQueue r member]
    have batch : ((m.lockSharedRequests ++ [request]).any fun r => r.type.exclusive) = true := by
      simp [kind]
    rw [b]
    simp only [batch, List.countP_append, count, forall_const, List.countP_singleton, kind,
      Bool.not_true, Bool.false_eq_true, if_false, Nat.add_zero]
    constructor
    · rintro none_shared ⟨_, _, _, held | queue⟩
      · omega
      · exact queue (List.eq_nil_of_length_eq_zero (by omega))
    · intro separate
      by_contra some_shared
      refine separate ⟨unlocked, by simp [split], remote, ?_⟩
      by_cases empty : m.lockSharedRequests = []
      · left
        simp only [empty, List.length_nil] at some_shared
        omega
      · exact .inr empty

theorem NodeInv.grant_alone {owner : DistributedId P → P} {client : P → Client P T}
    {responses : List (Response P T)} {grants : List (P × MutexRequestType)}
    {id : DistributedId P} {m : HardSyncMutex P T} {type : MutexRequestType}
    (h : NodeInv owner client responses grants id m) (free : m.busy type = false) :
    (m.granted type).locked = true → (m.granted type).lockedShared = 0 := by
  have unlocked := HardSyncMutex.free_locked free
  have shared := h.shared
  cases kind : type.exclusive
  · simp [HardSyncMutex.granted, kind, HardSyncMutex.lockShared, unlocked]
  · simp only [HardSyncMutex.busy, kind, if_true, unlocked, Bool.false_or,
      decide_eq_false_iff_not] at free
    simp only [HardSyncMutex.granted, kind, if_true, HardSyncMutex.lock, forall_const]
    omega

-- No node has an exclusive grant together with a shared one.
def Alone (owner : DistributedId P → P) (s : MutexState P T) : Prop :=
  ∀ id m, s.mutex owner id = some m → m.locked = true → m.lockedShared = 0

theorem alone_iff {owner : DistributedId P → P} {s : MutexState P T}
    (inv : TrafficInv owner s) :
    Alone owner s ↔ ∀ id, MutualExclusion (s.grants id) := by
  constructor
  · intro alone id
    obtain ⟨m, found⟩ := inv.managed id
    exact (inv.node id m found).exclusion_iff.mpr (alone id m found)
  · intro exclusion id m found
    exact (inv.node id m found).exclusion_iff.mp (exclusion id)

theorem Alone.change {owner : DistributedId P → P} {s s' : MutexState P T}
    (alone : Alone owner s) (id : DistributedId P) (m' : HardSyncMutex P T)
    (mutex : s'.mutex owner id = some m')
    (others : ∀ id', id' ≠ id → s'.mutex owner id' = s.mutex owner id') :
    Alone owner s' ↔ (m'.locked = true → m'.lockedShared = 0) := by
  constructor
  · intro after
    exact after id m' mutex
  · intro here id' m found
    by_cases same : id' = id
    · subst same
      rw [mutex] at found
      cases found
      exact here
    · rw [others id' same] at found
      exact alone id' m found

section

variable {owner : DistributedId P → P} {s : MutexState P T}

-- A release is only heard from a mutex whose exclusive grants are alone, so it unlocks it.
theorem TrafficInv.released_unlocked {s₁ : MutexState P T} {id : DistributedId P}
    {m m' : HardSyncMutex P T} (type : MutexRequestType) (alone : Alone owner s)
    (found : s.mutex owner id = some m) (heard : TrafficInv owner s₁)
    (found' : s₁.mutex owner id = some m')
    (lockedShared : m'.lockedShared = m.lockedShared - if type.exclusive then 0 else 1)
    (locked : m'.locked = if type.exclusive then false else m.locked) :
    m'.locked = false ∧ 0 ≤ m'.lockedShared := by
  have shared := (heard.node id m' found').shared
  refine ⟨?_, by omega⟩
  cases kind : type.exclusive
  · rw [kind] at locked lockedShared
    cases before : m.locked
    · simpa [before] using locked
    · have := alone id m found before
      simp at lockedShared
      omega
  · simpa [kind] using locked

theorem Alone.respond (heard : TrafficInv owner s) {id : DistributedId P}
    {m : HardSyncMutex P T} (found : s.mutex owner id = some m)
    (unlocked : m.locked = false) (shared : 0 ≤ m.lockedShared) :
    (m.respondToRequests.1.locked = true → m.respondToRequests.1.lockedShared = 0) ↔
      ¬ m.Mixes :=
  HardSyncMutex.respond_alone_iff (fun r member => ((heard.node id m found).sharedQueue r member).2)
    (fun r member => ((heard.node id m found).lockQueue r member).2) shared unlocked

-- The mutex a step grants accesses of, if the step grants them through the queues, is the one
-- `responding` names; any other step keeps exclusive grants alone.
theorem alone_step {a : MutexAction P T} {s' : MutexState P T} (inv : TrafficInv owner s)
    (alone : Alone owner s) (effect : Effect owner s a s') :
    Alone owner s' ↔ Separates owner s a := by
  cases effect with
  | ask => exact iff_of_true alone (by simp [Separates, MutexState.responding])
  | sendRelease position away holds =>
    exact iff_of_true alone (by simp [Separates, MutexState.responding, away])
  | @wait p type id m position own found busy =>
    refine iff_of_true ?_ (by simp [Separates, MutexState.responding])
    refine (alone.change id _ (MutexState.mutex_setMutex_self owner _ _ _)
      fun id' other => MutexState.mutex_setMutex_ne owner _ _ other).mpr ?_
    simpa using alone id m found
  | @queue p type id m position found busy =>
    refine iff_of_true ?_ (by simp [Separates, MutexState.responding, position])
    refine (alone.change id _ (MutexState.mutex_setMutex_self owner _ _ _)
      fun id' other => MutexState.mutex_setMutex_ne owner _ _ other).mpr ?_
    simpa using alone id m found
  | @access p type id m position own found free =>
    refine iff_of_true ?_ (by simp [Separates, MutexState.responding])
    exact (alone.change id (m.granted type) (MutexState.mutex_setMutex_self owner _ _ _)
      fun id' other => MutexState.mutex_setMutex_ne owner _ _ other).mpr
        ((inv.node id m found).grant_alone free)
  | @grant p type id m position found free =>
    refine iff_of_true ?_ (by simp [Separates, MutexState.responding, position])
    refine (alone.change id (m.granted type) ?_ fun id' other => ?_).mpr
      ((inv.node id m found).grant_alone free)
    · simp only [MutexState.mutex, MutexState.send_server]
      exact MutexState.mutex_setMutex_self owner _ _ _
    · simp only [MutexState.mutex, MutexState.send_server]
      exact MutexState.mutex_setMutex_ne owner _ _ other
  | receive position found =>
    refine iff_of_true ?_ (by simp [Separates, MutexState.responding])
    intro id m found
    exact alone id m (by simpa [MutexState.mutex, MutexState.received_server] using found)
  | @respond p type message m position found remote =>
    have placed : Position.Placed owner p (.sendRelease type message) := position ▸ inv.placed p
    obtain ⟨_, _, lockedShared, locked⟩ := placed.released m
    have heard := inv.hear position found
    have here := MutexState.mutex_setMutex_self owner
      ((s.setPosition p .idle).recordRelease p type message.id) message.id (m.released message)
    obtain ⟨unlocked, shared⟩ := heard.released_unlocked _ alone found here lockedShared locked
    have granted := Alone.respond heard here unlocked shared
    rw [alone.change message.id (m.released message).respondToRequests.1, granted]
    · simp [Separates, MutexState.responding, position, found]
    · simp only [MutexState.mutex, MutexState.respondAt, MutexState.send_server]
      exact MutexState.mutex_setMutex_self owner _ _ _
    · intro id' other
      simp only [MutexState.mutex, MutexState.respondAt, MutexState.send_server]
      refine (MutexState.mutex_setMutex_ne owner _ _ other).trans ?_
      simp [MutexState.mutex, MutexState.setPosition]
  | @reach p type message m request front position found waiting about batch remote =>
    have placed : Position.Placed owner p (.sendRelease type message) := position ▸ inv.placed p
    obtain ⟨_, _, lockedShared, locked⟩ := placed.released m
    have heard := inv.hear position found
    have here := MutexState.mutex_setMutex_self owner
      ((s.setPosition p .idle).recordRelease p type message.id) message.id (m.released message)
    obtain ⟨unlocked, shared⟩ := heard.released_unlocked _ alone found here lockedShared locked
    have granted := Alone.respond heard here unlocked shared
    rw [alone.change message.id (m.released message).respondToRequests.1, granted]
    · simp [Separates, MutexState.responding, position, found]
    · rw [MutexState.grantLocalAt_mutex, HardSyncMutex.respond_last _ batch]
      exact MutexState.mutex_setMutex_self owner _ _ _
    · intro id' other
      rw [MutexState.grantLocalAt_mutex, MutexState.mutex_setMutex_ne owner _ _ other]
      simp only [MutexState.mutex, MutexState.send_server]
      refine (MutexState.mutex_setMutex_ne owner _ _ other).trans ?_
      simp [MutexState.mutex, MutexState.setPosition]
  | @notify p type id m position own holds found free remote =>
    have heard := inv.hearLocal position own holds found
    have here := MutexState.mutex_setMutex_self owner
      ((s.setHeld p ((s.client p).held.erase (id, type))).recordRelease p type id) id
      (if type.exclusive then m.unlock else m.unlockShared)
    obtain ⟨unlocked, shared⟩ := heard.released_unlocked _ alone found here
      (by cases kind : type.exclusive <;> simp [HardSyncMutex.unlock, HardSyncMutex.unlockShared])
      (by cases kind : type.exclusive <;> simp [HardSyncMutex.unlock, HardSyncMutex.unlockShared])
    have granted := Alone.respond heard here unlocked shared
    rw [alone.change id (if type.exclusive then m.unlock else m.unlockShared).respondToRequests.1,
      granted]
    · simp only [Separates, MutexState.responding, own, if_true, found, Option.bind_some, free]
      simp
    · simp only [MutexState.mutex, MutexState.respondAt, MutexState.send_server]
      exact MutexState.mutex_setMutex_self owner _ _ _
    · intro id' other
      simp only [MutexState.mutex, MutexState.respondAt, MutexState.send_server]
      refine (MutexState.mutex_setMutex_ne owner _ _ other).trans ?_
      simp [MutexState.mutex, MutexState.setHeld]
  | @unlockShared p type id m position own holds found kind left =>
    have heard := inv.hearLocal position own holds found
    have here := MutexState.mutex_setMutex_self owner
      ((s.setHeld p ((s.client p).held.erase (id, type))).recordRelease p type id) id
      (if type.exclusive then m.unlock else m.unlockShared)
    obtain ⟨unlocked, _⟩ := heard.released_unlocked type alone found here
      (by simp [kind, HardSyncMutex.unlockShared]) (by simp [kind, HardSyncMutex.unlockShared])
    refine iff_of_true ?_ ?_
    · refine (alone.change id m.unlockShared (MutexState.mutex_setMutex_self owner _ _ _)
        fun id' other => ?_).mpr ?_
      · refine (MutexState.mutex_setMutex_ne owner _ _ other).trans ?_
        simp [MutexState.mutex, MutexState.setHeld]
      · simp only [kind, Bool.false_eq_true, if_false] at unlocked
        simp [unlocked]
    · simp [Separates, MutexState.responding, own, found, kind, left]
  | @modifyLocal p id f m position own holds found =>
    refine iff_of_true ?_ (by simp [Separates, MutexState.responding])
    exact (alone.change id { m with data := f m.data } (MutexState.mutex_setMutex_self owner _ _ _)
      fun id' other => MutexState.mutex_setMutex_ne owner _ _ other).mpr (alone id m found)
  | modifyCopy position away holds =>
    exact iff_of_true alone (by simp [Separates, MutexState.responding])

/-- Along the runs whose steps separate grants exclusive grants stay alone, and the first step that
does not separate them breaks mutual exclusion. -/
theorem mutual_exclusion_exact (data : DistributedId P → T)
    (reached : (mutexTraffic owner data).ReachableBy (Separates owner) s) :
    (∀ id, MutualExclusion (s.grants id)) ∧
      ∀ a s', (mutexTraffic owner data).next s a = some s' →
        ((∀ id, MutualExclusion (s'.grants id)) ↔ Separates owner s a) := by
  have alone : Alone owner s := by
    refine reached.invariant ?_ fun s a s' before alone guard taken => ?_
    · rintro s rfl id m found
      simp only [MutexState.mutex, MutexState.start, if_true, Option.some.injEq] at found
      simp [← found, HardSyncMutex.build]
    · have inv := mutexTraffic_invariant before
      exact (alone_step inv alone (inv.next_effect taken)).mpr guard
  have inv := mutexTraffic_invariant reached
  refine ⟨(alone_iff inv).mp alone, fun a s' taken => ?_⟩
  have effect := inv.next_effect taken
  rw [← alone_iff (inv.step effect)]
  exact alone_step inv alone effect

-- Two shared accesses of process 1 and an acquire of the owner, which the first release grants.
def mixingRun {P : Type} (owner p : P) : List (MutexAction P Nat) :=
  let id : DistributedId P := ⟨owner, 0⟩
  [.lockShared p id, .deliver p, .receive p, .read p id, .deliver p, .receive p, .acquire owner id,
    .unlockShared p id, .deliver p]

theorem mutual_exclusion_fails :
    ¬ ∀ s, (mutexTraffic (T := Nat) (fun id : DistributedId (Fin 2) => id.rank)
        fun _ => 0).Reachable s → ∀ id, MutualExclusion (s.grants id) := by
  intro exclusion
  have grants : (((mutexTraffic (fun id : DistributedId (Fin 2) => id.rank) fun _ => 0).exec
      (.start (·.rank) fun _ => 0) (mixingRun 0 1)).map fun s => s.grants ⟨0, 0⟩) =
        some [(1, .read), (0, .acquire)] := by
    decide
  obtain ⟨s, run, both⟩ := Option.map_eq_some_iff.mp grants
  have alone := exclusion s (TransitionSystem.reachable_exec (mixingRun 0 1) (.start rfl) run) ⟨0, 0⟩
  rw [both] at alone
  exact absurd (alone (0, .acquire) (by simp) rfl) (by decide)

instance (m : HardSyncMutex P T) : Decidable m.Mixes :=
  inferInstanceAs (Decidable (_ ∧ _ ∧ _ ∧ _))

instance (owner : DistributedId P → P) (s : MutexState P T) (a : MutexAction P T) :
    Decidable (Separates owner s a) :=
  Option.decidableForallMem _

-- The next delivery is the release that breaks the exclusion in `mixingRun`.
theorem mutual_exclusion_exact_queued : ∃ s,
    (mutexTraffic (T := Nat) (fun id : DistributedId (Fin 2) => id.rank) fun _ => 0).execBy
        (Separates (·.rank)) (.start (·.rank) fun _ => 0) (mixingRun 0 1).dropLast = some s ∧
      s.grants ⟨0, 0⟩ = [(1, .lockShared), (1, .read)] ∧
      ((s.mutex (·.rank) ⟨0, 0⟩).map fun m => m.lockRequests.map (·.type)) = some [.acquire] ∧
      (∀ id, MutualExclusion (s.grants id)) ∧
      ∀ a s', (mutexTraffic (T := Nat) (fun id : DistributedId (Fin 2) => id.rank) fun _ => 0).next
          s a = some s' →
        ((∀ id, MutualExclusion (s'.grants id)) ↔ Separates (·.rank) s a) := by
  let S := mutexTraffic (T := Nat) (fun id : DistributedId (Fin 2) => id.rank) fun _ => 0
  have shown : ((S.execBy (Separates (·.rank)) (.start (·.rank) fun _ => 0)
      (mixingRun 0 1).dropLast).map fun s => (s.grants ⟨0, 0⟩,
        (s.mutex (·.rank) ⟨0, 0⟩).map fun m => m.lockRequests.map (·.type))) =
      some ([(1, .lockShared), (1, .read)], some [.acquire]) := by
    decide
  obtain ⟨s, run, result⟩ := Option.map_eq_some_iff.mp shown
  obtain ⟨grants, queue⟩ := Prod.mk.inj result
  have reached := TransitionSystem.ReachableBy.execBy _ (.start rfl) run
  exact ⟨s, run, grants, queue, mutual_exclusion_exact (fun _ => 0) reached⟩

end

end Fpmas.Synchro.Hard
