import Fpmas.Synchro.Hard.MutexExclusion

set_option autoImplicit false

namespace Fpmas.Synchro.Hard

variable {P T : Type} [DecidableEq P]

def applied (initial : T) (sections : List (AcquireSection P T)) : T :=
  sections.foldl (fun data sec => sec.update data) initial

omit [DecidableEq P] in
@[simp] theorem applied_append (initial : T) (before after : List (AcquireSection P T)) :
    applied initial (before ++ after) = applied (applied initial before) after := by
  simp [applied]

/-- The section of an outstanding acquire, when `value` is the data the acquire was granted with:
the owner works on its node in place, any other holder on the copy it got, gets or sends back. -/
structure OpenSection (owner : P) (client : P → Client P T) (responses : List (Response P T))
    (id : DistributedId P) (value data : T) (sec : AcquireSection P T) : Prop where
  unreleased : sec.released = false
  inPlace : sec.holder = owner → sec.acquired = some value ∧ data = sec.update value
  away : sec.holder ≠ owner → data = value
  answered : ∀ r ∈ responses, r.to sec.holder id .acquire → r.data = some value ∧
    sec.acquired = none ∧ sec.update = fun data => data
  held : sec.holder ≠ owner → (id, .acquire) ∈ (client sec.holder).held →
    sec.acquired = some value ∧ (client sec.holder).copy id = sec.update value
  sent : ∀ updated, (client sec.holder).position = .sendRelease .acquire (.releaseAcquire id updated) →
    sec.acquired = some value ∧ updated = sec.update value

/-- The data of a node and the history of its acquires. -/
structure FreshNode (owner : P) (client : P → Client P T) (responses : List (Response P T))
    (grants : List (P × MutexRequestType)) (sections : List (AcquireSection P T)) (initial : T)
    (id : DistributedId P) (data : T) : Prop where
  history : ∀ k sec, sections[k]? = some sec → sec.released = true →
    sec.acquired = some (applied initial (sections.take k))
  now : ((∀ p, (p, .acquire) ∉ grants) ∧ (∀ sec ∈ sections, sec.released = true) ∧
      data = applied initial sections) ∨
    ∃ before sec, sections = before ++ [sec] ∧ (∀ x ∈ before, x.released = true) ∧
      (sec.holder, .acquire) ∈ grants ∧
      OpenSection owner client responses id (applied initial before) data sec
  quiet : ∀ p, (id, .acquire) ∈ (client p).held →
    ∀ type, responses.countP (Response.to p id type) = 0

def Fresh (owner : DistributedId P → P) (initial : DistributedId P → T) (s : MutexState P T) : Prop :=
  ∀ id m, s.mutex owner id = some m →
    FreshNode (owner id) s.client s.responses (s.grants id) (s.sections id) (initial id) id m.data

section

variable {owner : P} {client client' : P → Client P T} {responses responses' : List (Response P T)}
  {grants grants' : List (P × MutexRequestType)} {sections : List (AcquireSection P T)}
  {initial : T} {id : DistributedId P} {data : T}

theorem FreshNode.frame (h : FreshNode owner client responses grants sections initial id data)
    (acquires : ∀ p, (p, .acquire) ∈ grants' ↔ (p, .acquire) ∈ grants)
    (answers : ∀ p, ∀ r ∈ responses', r.to p id .acquire → r ∈ responses)
    (held : ∀ p, (id, .acquire) ∈ (client' p).held →
      (id, .acquire) ∈ (client p).held ∧ (client' p).copy id = (client p).copy id)
    (sent : ∀ p updated, (client' p).position = .sendRelease .acquire (.releaseAcquire id updated) →
      (client p).position = .sendRelease .acquire (.releaseAcquire id updated) ∨
        p ≠ owner ∧ (id, .acquire) ∈ (client p).held ∧ updated = (client p).copy id)
    (quiet : ∀ p, (id, .acquire) ∈ (client' p).held →
      ∀ type, responses'.countP (Response.to p id type) = 0) :
    FreshNode owner client' responses' grants' sections initial id data where
  history := h.history
  now := by
    rcases h.now with ⟨none, all, value⟩ | ⟨before, sec, split, all, member, opened⟩
    · exact .inl ⟨fun p member => none p ((acquires p).mp member), all, value⟩
    · refine .inr ⟨before, sec, split, all, (acquires _).mpr member, ?_⟩
      refine ⟨opened.unreleased, opened.inPlace, opened.away, ?_, ?_, ?_⟩
      · intro r inflight toHolder
        exact opened.answered r (answers _ r inflight toHolder) toHolder
      · intro away holds
        obtain ⟨before, same⟩ := held _ holds
        rw [same]
        exact opened.held away before
      · intro updated position
        rcases sent _ _ position with same | ⟨away, holds, same⟩
        · exact opened.sent updated same
        · rw [same]
          exact opened.held away holds
  quiet := quiet

omit [DecidableEq P] in
theorem history_append {sections : List (AcquireSection P T)} {initial : T}
    (history : ∀ k sec, sections[k]? = some sec → sec.released = true →
      sec.acquired = some (applied initial (sections.take k)))
    {sec : AcquireSection P T}
    (last : sec.released = true → sec.acquired = some (applied initial sections)) :
    ∀ k x, (sections ++ [sec])[k]? = some x → x.released = true →
      x.acquired = some (applied initial ((sections ++ [sec]).take k)) := by
  intro k x found released
  rcases Nat.lt_trichotomy k sections.length with inside | here | outside
  · rw [List.getElem?_append_left inside] at found
    rw [List.take_append_of_le_length (Nat.le_of_lt inside)]
    exact history k x found released
  · subst here
    simp only [List.getElem?_concat_length, Option.some.injEq] at found
    subst found
    rw [List.take_append_of_le_length (Nat.le_refl _), List.take_length]
    exact last released
  · rw [List.getElem?_eq_none (by simp; omega)] at found
    cases found

omit [DecidableEq P] in
theorem history_last {before : List (AcquireSection P T)} {initial : T}
    {sec sec' : AcquireSection P T}
    (history : ∀ k x, (before ++ [sec])[k]? = some x → x.released = true →
      x.acquired = some (applied initial ((before ++ [sec]).take k)))
    (last : sec'.released = true → sec'.acquired = some (applied initial before)) :
    ∀ k x, (before ++ [sec'])[k]? = some x → x.released = true →
      x.acquired = some (applied initial ((before ++ [sec']).take k)) := by
  refine history_append (fun k x found released => ?_) last
  have inside : k < before.length := (List.getElem?_eq_some_iff.mp found).1
  have := history k x (by rw [List.getElem?_append_left inside]; exact found) released
  rwa [List.take_append_of_le_length (Nat.le_of_lt inside)] at this

-- What `updateSection` does to a history whose last section only is not released.
theorem updateSection_open {before : List (AcquireSection P T)} {sec : AcquireSection P T}
    (all : ∀ x ∈ before, x.released = true) (unreleased : sec.released = false) (p : P)
    (f : AcquireSection P T → AcquireSection P T) :
    ((before ++ [sec]).map fun x => if x.holder = p ∧ x.released = false then f x else x) =
      before ++ [if sec.holder = p then f sec else sec] := by
  rw [List.map_append]
  congr 1
  · refine (List.map_congr_left fun x member => ?_).trans (List.map_id _)
    simp [all x member]
  · simp [unreleased]

theorem FreshNode.openRemote
    (h : FreshNode owner client responses grants sections initial id data)
    (closed : ∀ p, (p, .acquire) ∉ grants) {holder : P} (away : holder ≠ owner)
    (member : (holder, .acquire) ∈ grants') (held : ∀ p, (id, .acquire) ∉ (client' p).held)
    (sent : ∀ p, (client' p).position.sends id .acquire = 0)
    (answers : ∀ r ∈ responses', r.to holder id .acquire → r.data = some data) :
    FreshNode owner client' responses' grants'
      (sections ++ [⟨holder, none, fun data => data, false⟩]) initial id data where
  history := history_append h.history (by simp)
  now := by
    rcases h.now with ⟨_, all, value⟩ | ⟨_, _, _, _, old, _⟩
    · refine .inr ⟨sections, _, rfl, all, member, ?_⟩
      rw [← value]
      refine ⟨rfl, fun own => absurd own away, fun _ => rfl, ?_, ?_, ?_⟩
      · intro r inflight toHolder
        exact ⟨answers r inflight toHolder, rfl, rfl⟩
      · intro _ holds
        exact absurd holds (held _)
      · intro updated position
        have none := sent holder
        rw [position] at none
        simp [Position.sends, MutexMessage.id] at none
    · exact absurd old (closed _)
  quiet p holds := absurd holds (held p)

theorem FreshNode.openLocal
    (h : FreshNode owner client responses grants sections initial id data)
    (closed : ∀ p, (p, .acquire) ∉ grants) (member : (owner, .acquire) ∈ grants')
    (held : ∀ p, p ≠ owner → (id, .acquire) ∉ (client' p).held)
    (sent : ∀ p, (client' p).position.sends id .acquire = 0)
    (answers : ∀ type, responses'.countP (Response.to owner id type) = 0) :
    FreshNode owner client' responses' grants'
      (sections ++ [⟨owner, some data, fun data => data, false⟩]) initial id data where
  history := history_append h.history (by simp)
  now := by
    rcases h.now with ⟨_, all, value⟩ | ⟨_, _, _, _, old, _⟩
    · refine .inr ⟨sections, _, rfl, all, member, ?_⟩
      rw [← value]
      refine ⟨rfl, fun _ => ⟨rfl, rfl⟩, fun away => absurd rfl away, ?_,
        fun away => absurd rfl away, ?_⟩
      · intro r inflight toOwner
        have none := List.countP_eq_zero.mp (answers .acquire) r inflight
        exact absurd toOwner none
      · intro updated position
        have none := sent owner
        rw [position] at none
        simp [Position.sends, MutexMessage.id] at none
    · exact absurd old (closed _)
  quiet p holds := by
    by_cases own : p = owner
    · rw [own]
      exact answers
    · exact absurd holds (held p own)

theorem FreshNode.close
    (h : FreshNode owner client responses grants sections initial id data) {p : P} {data' : T}
    (member : (p, .acquire) ∈ grants) (only : ∀ q, (q, .acquire) ∈ grants → q = p)
    (closed : ∀ q, (q, .acquire) ∉ grants') (held : ∀ q, (id, .acquire) ∉ (client' q).held)
    (result : ∀ value sec, OpenSection owner client responses id value data sec →
      sec.holder = p → sec.acquired = some value ∧ data' = sec.update value)
    (responses' : List (Response P T)) :
    FreshNode owner client' responses' grants'
      (sections.map fun sec =>
        if sec.holder = p ∧ sec.released = false then { sec with released := true } else sec)
      initial id data' := by
  rcases h.now with ⟨none, _, _⟩ | ⟨before, sec, split, all, granted, opened⟩
  · exact absurd member (none p)
  · have holder : sec.holder = p := only _ granted
    have history := h.history
    subst split
    rw [updateSection_open all opened.unreleased, if_pos holder]
    obtain ⟨acquired, left⟩ := result _ sec opened holder
    refine ⟨history_last history fun _ => acquired, .inl ⟨closed, ?_, ?_⟩,
      fun q holds => absurd holds (held q)⟩
    · intro x found
      rcases List.mem_append.mp found with old | last
      · exact all x old
      · rw [List.mem_singleton.mp last]
    · rw [left]
      simp [applied]

theorem FreshNode.within
    (h : FreshNode owner client responses grants sections initial id data) {p : P} {data' : T}
    (member : (p, .acquire) ∈ grants) (only : ∀ q, (q, .acquire) ∈ grants → q = p)
    (f : AcquireSection P T → AcquireSection P T)
    (holder : ∀ sec, sec.holder = p → (f sec).holder = p)
    (changed : ∀ value sec, OpenSection owner client responses id value data sec →
      sec.holder = p → OpenSection owner client' responses' id value data' (f sec))
    (quiet : ∀ p, (id, .acquire) ∈ (client' p).held →
      ∀ type, responses'.countP (Response.to p id type) = 0) :
    FreshNode owner client' responses' grants
      (sections.map fun sec => if sec.holder = p ∧ sec.released = false then f sec else sec)
      initial id data' := by
  rcases h.now with ⟨none, _, _⟩ | ⟨before, sec, split, all, granted, opened⟩
  · exact absurd member (none p)
  · have own : sec.holder = p := only _ granted
    have history := h.history
    subst split
    rw [updateSection_open all opened.unreleased, if_pos own]
    have opened' := changed _ sec opened own
    refine ⟨history_last history fun released => ?_, .inr ⟨before, f sec, rfl, all, ?_, opened'⟩,
      quiet⟩
    · rw [opened'.unreleased] at released
      cases released
    · rw [holder sec own]
      exact member

end

section

variable {owner : DistributedId P → P} {initial : DistributedId P → T} {s : MutexState P T}

@[simp] theorem MutexState.setPosition_copy (s : MutexState P T) (p q : P)
    (position : Position P T) : ((s.setPosition p position).client q).copy = (s.client q).copy := by
  by_cases same : q = p
  · subst same
    simp [MutexState.setPosition]
  · simp [MutexState.setPosition, same]

@[simp] theorem MutexState.setHeld_copy (s : MutexState P T) (p q : P)
    (held : List (DistributedId P × MutexRequestType)) :
    ((s.setHeld p held).client q).copy = (s.client q).copy := by
  by_cases same : q = p
  · subst same
    simp [MutexState.setHeld]
  · simp [MutexState.setHeld, same]

theorem MutexState.setCopy_copy (s : MutexState P T) (p q : P) (id id' : DistributedId P)
    (data : T) : ((s.setCopy p id data).client q).copy id' =
      if q = p ∧ id' = id then data else (s.client q).copy id' := by
  by_cases same : q = p
  · subst same
    by_cases here : id' = id
    · subst here
      simp [MutexState.setCopy]
    · simp [MutexState.setCopy, here]
  · simp [MutexState.setCopy, same]

theorem Fresh.setMutex (fresh : Fresh owner initial s) {id : DistributedId P}
    {m m' : HardSyncMutex P T} (found : s.mutex owner id = some m) (data : m'.data = m.data) :
    Fresh owner initial (s.setMutex owner id m') := by
  intro id' m₀ found'
  by_cases here : id' = id
  · subst here
    rw [MutexState.mutex_setMutex_self] at found'
    cases found'
    rw [data]
    exact fresh id' m found
  · rw [MutexState.mutex_setMutex_ne owner _ _ here] at found'
    exact fresh id' m₀ found'

theorem Fresh.setPosition (fresh : Fresh owner initial s) (p : P) (position : Position P T)
    (quiet : ∀ message, position ≠ .sendRelease .acquire message) :
    Fresh owner initial (s.setPosition p position) := by
  intro id m found
  have node := fresh id m found
  refine node.frame (fun q => Iff.rfl) (fun _ _ inflight _ => inflight) ?_ ?_ ?_
  · intro q holds
    rw [MutexState.setPosition_held] at holds
    exact ⟨holds, by rw [MutexState.setPosition_copy]⟩
  · intro q updated here
    rw [MutexState.setPosition_position] at here
    split at here
    case isTrue => exact absurd here (quiet _)
    case isFalse => exact .inl here
  · intro q holds
    rw [MutexState.setPosition_held] at holds
    exact node.quiet q holds

theorem Fresh.setHeld (fresh : Fresh owner initial s) (p : P)
    (held : List (DistributedId P × MutexRequestType))
    (less : ∀ id, (id, .acquire) ∈ held → (id, .acquire) ∈ (s.client p).held) :
    Fresh owner initial (s.setHeld p held) := by
  intro id m found
  have node := fresh id m found
  have before : ∀ q, (id, .acquire) ∈ ((s.setHeld p held).client q).held →
      (id, .acquire) ∈ (s.client q).held := by
    intro q holds
    rw [MutexState.setHeld_held] at holds
    split at holds
    case isTrue here => exact here ▸ less id holds
    case isFalse => exact holds
  refine node.frame (fun q => Iff.rfl) (fun _ _ inflight _ => inflight) ?_ ?_ ?_
  · intro q holds
    exact ⟨before q holds, by rw [MutexState.setHeld_copy]⟩
  · intro q updated here
    rw [MutexState.setHeld_position] at here
    exact .inl here
  · intro q holds
    exact node.quiet q (before q holds)

theorem Fresh.setCopy (fresh : Fresh owner initial s) {p : P} {id : DistributedId P} (data : T)
    (free : (id, .acquire) ∉ (s.client p).held) : Fresh owner initial (s.setCopy p id data) := by
  intro id' m found
  have node := fresh id' m found
  refine node.frame (fun q => Iff.rfl) (fun _ _ inflight _ => inflight) ?_ ?_ ?_
  · intro q holds
    rw [MutexState.setCopy_held] at holds
    refine ⟨holds, ?_⟩
    rw [MutexState.setCopy_copy, if_neg]
    rintro ⟨rfl, rfl⟩
    exact free holds
  · intro q updated here
    rw [MutexState.setCopy_position] at here
    exact .inl here
  · intro q holds
    rw [MutexState.setCopy_held] at holds
    exact node.quiet q holds

theorem Fresh.setGrants (fresh : Fresh owner initial s) (id : DistributedId P)
    (grants : List (P × MutexRequestType))
    (acquires : ∀ p, (p, .acquire) ∈ grants ↔ (p, .acquire) ∈ s.grants id) :
    Fresh owner initial { s with grants := Function.update s.grants id grants } := by
  intro id' m found
  have node := fresh id' m found
  refine node.frame ?_ (fun _ _ inflight _ => inflight) (fun _ holds => ⟨holds, rfl⟩)
    (fun _ _ here => .inl here) node.quiet
  intro p
  by_cases here : id' = id
  · subst here
    simpa using acquires p
  · simp [here]

theorem Fresh.recordGrant (fresh : Fresh owner initial s) (p : P) {type : MutexRequestType}
    (other : type ≠ .acquire) (id : DistributedId P) (acquired : Option T) :
    Fresh owner initial (s.recordGrant p type id acquired) := by
  have kept := fresh.setGrants id (s.grants id ++ [(p, type)])
    (by simp [other.symm])
  simpa [MutexState.recordGrant, other] using kept

theorem Fresh.recordRelease (fresh : Fresh owner initial s) (p : P) {type : MutexRequestType}
    (other : type ≠ .acquire) (id : DistributedId P) :
    Fresh owner initial (s.recordRelease p type id) := by
  have kept := fresh.setGrants id ((s.grants id).erase (p, type)) ?_
  · simpa [MutexState.recordRelease, other] using kept
  · intro q
    refine List.mem_erase_of_ne ?_
    simp [other.symm]

-- Responses that carry no acquire, and no data for a process that has the acquire.
theorem Fresh.setResponses (fresh : Fresh owner initial s) {responses : List (Response P T)}
    (answers : ∀ r ∈ responses, r.type = .acquire → r ∈ s.responses)
    (quiet : ∀ p id type, (id, .acquire) ∈ (s.client p).held →
      responses.countP (Response.to p id type) ≤ s.responses.countP (Response.to p id type)) :
    Fresh owner initial { s with responses } := by
  intro id m found
  have node := fresh id m found
  refine node.frame (fun q => Iff.rfl) ?_ (fun _ holds => ⟨holds, rfl⟩)
    (fun _ _ here => .inl here) ?_
  · intro p r inflight toHolder
    exact answers r inflight (of_decide_eq_true toHolder).2.2
  · intro p holds type
    have none := node.quiet p holds type
    exact Nat.le_zero.mp (Nat.le_trans (quiet p id type holds) (Nat.le_of_eq none))

theorem NodeInv.exclusive_unique {client : P → Client P T} {responses : List (Response P T)}
    {grants : List (P × MutexRequestType)} {id : DistributedId P} {m : HardSyncMutex P T}
    (h : NodeInv owner client responses grants id m) {g g' : P × MutexRequestType}
    (member : g ∈ grants) (kind : g.2.exclusive = true) (member' : g' ∈ grants)
    (kind' : g'.2.exclusive = true) : g' = g := by
  have few : (grants.filter (·.2.exclusive)).length ≤ 1 := by
    rw [← List.countP_eq_length_filter, h.exclusive]
    split <;> omega
  have inside : g ∈ grants.filter (·.2.exclusive) := List.mem_filter.mpr ⟨member, kind⟩
  have inside' : g' ∈ grants.filter (·.2.exclusive) := List.mem_filter.mpr ⟨member', kind'⟩
  generalize grants.filter (·.2.exclusive) = exclusive at few inside inside'
  cases exclusive with
  | nil => cases inside
  | cons x rest =>
    cases rest with
    | nil => rw [List.mem_singleton.mp inside, List.mem_singleton.mp inside']
    | cons y rest => simp at few

-- No acquire of node `id` is outstanding.
structure Unacquired (s : MutexState P T) (id : DistributedId P) : Prop where
  grants : ∀ p, (p, .acquire) ∉ s.grants id
  held : ∀ p, (id, .acquire) ∉ (s.client p).held
  sent : ∀ p, (s.client p).position.sends id .acquire = 0
  answers : ∀ p, s.responses.countP (Response.to p id .acquire) = 0

theorem TrafficInv.unacquired (inv : TrafficInv owner s) {id : DistributedId P}
    {m : HardSyncMutex P T} (found : s.mutex owner id = some m) (unlocked : m.locked = false) :
    Unacquired s id := by
  have node := inv.node id m found
  have none : ∀ p, (p, .acquire) ∉ s.grants id := by
    intro p member
    have locked := node.locked_grant member rfl
    rw [unlocked] at locked
    cases locked
  have granted : ∀ p, (s.client p).held.count (id, .acquire) +
      (s.client p).position.sends id .acquire +
        s.responses.countP (Response.to p id .acquire) = 0 := by
    intro p
    rw [← node.granted p .acquire]
    exact List.count_eq_zero.mpr (none p)
  refine ⟨none, fun p => ?_, fun p => ?_, fun p => ?_⟩
  · exact List.count_eq_zero.mp (by have := granted p; omega)
  · have := granted p
    omega
  · have := granted p
    omega

theorem TrafficInv.answered (inv : TrafficInv owner s) (id : DistributedId P) (p : P)
    (type : MutexRequestType) (idle : (s.client p).position.awaits id type = 0) :
    s.responses.countP (Response.to p id type) = 0 := by
  obtain ⟨m, found⟩ := inv.managed id
  have asked := (inv.node id m found).asked p type
  omega

-- The owner of a node waits for no response about it.
theorem TrafficInv.unanswered (inv : TrafficInv owner s) (id : DistributedId P)
    (type : MutexRequestType) : s.responses.countP (Response.to (owner id) id type) = 0 := by
  apply inv.answered
  have placed := inv.placed (owner id)
  cases position : (s.client (owner id)).position <;> simp only [Position.awaits]
  case waitResponse type' id' =>
    rw [position] at placed
    rw [if_neg]
    rintro ⟨rfl, _⟩
    exact placed rfl

theorem Unacquired.recordGrant {id : DistributedId P} (free : Unacquired s id) (p : P)
    {type : MutexRequestType} (other : type ≠ .acquire) (acquired : Option T) :
    Unacquired (s.recordGrant p type id acquired) id :=
  ⟨by simp [MutexState.recordGrant, free.grants, other.symm], free.held, free.sent, free.answers⟩

-- Responses about node `id`, at most one of which grants an acquire.
theorem Fresh.send {s : MutexState P T} (fresh : Fresh owner initial s) {id : DistributedId P}
    {m : HardSyncMutex P T} (found : s.mutex owner id = some m)
    {sent : List (Response P T)} (about : ∀ r ∈ sent, r.id = id)
    (data : ∀ r ∈ sent, r.type = .acquire → r.data = some m.data)
    (remote : ∀ r ∈ sent, ∃ p, r.dest = some p ∧ p ≠ owner id)
    (held : ∀ p, (id, .acquire) ∉ (s.client p).held)
    (few : sent.countP (·.type = .acquire) ≤ 1)
    (free : 0 < sent.countP (·.type = .acquire) → Unacquired s id) :
    Fresh owner initial (MutexState.send owner s sent) := by
  induction sent generalizing s with
  | nil => exact fresh
  | cons r rest ih =>
    obtain ⟨p, dest, away⟩ := remote r (by simp)
    have here : r.id = id := about r (by simp)
    rw [MutexState.send]
    by_cases acquire : r.type = .acquire
    · have empty := free (by simp [acquire])
      have last : rest.countP (·.type = .acquire) = 0 := by
        rw [List.countP_cons, acquire] at few
        simp only [decide_true, if_true] at few
        omega
      refine ih ?_ found (fun x member => about x (by simp [member]))
        (fun x member => data x (by simp [member])) (fun x member => remote x (by simp [member]))
        held (by omega) (by omega)
      intro id' m' found'
      by_cases same : id' = id
      · subst same
        have found' : s.mutex owner id' = some m' := found'
        rw [found] at found'
        cases found'
        have opened : FreshNode (owner id') s.client (s.responses ++ [r])
            (s.grants id' ++ [(p, .acquire)]) _ (initial id') id' m.data :=
          (fresh id' m found).openRemote empty.grants away (by simp) held empty.sent ?_
        · simpa [MutexState.recordGrant, dest, here, acquire] using opened
        · intro x inflight toHolder
          rcases List.mem_append.mp inflight with old | new
          · exact absurd toHolder (List.countP_eq_zero.mp (empty.answers p) x old)
          · rw [List.mem_singleton.mp new]
            exact data r (by simp) acquire
      · have node := fresh id' m' found'
        have framed : FreshNode (owner id') s.client (s.responses ++ [r]) (s.grants id')
            (s.sections id') (initial id') id' m'.data := node.frame
          (fun _ => Iff.rfl) ?_ (fun _ holds => ⟨holds, rfl⟩)
          (fun _ _ position => .inl position) ?_
        · simpa [MutexState.recordGrant, here, acquire, same] using framed
        · intro q x inflight toHolder
          rcases List.mem_append.mp inflight with old | new
          · exact old
          · rw [List.mem_singleton.mp new] at toHolder
            exact absurd ((of_decide_eq_true toHolder).2.1.symm.trans here) same
        · intro q holds type
          rw [List.countP_append, node.quiet q holds type]
          simp [Response.to, here, Ne.symm same]
    · have quiet : Fresh owner initial { s with responses := s.responses ++ [r] } := by
        refine fresh.setResponses ?_ ?_
        · intro x inflight kind
          rcases List.mem_append.mp inflight with old | new
          · exact old
          · rw [List.mem_singleton.mp new] at kind
            exact absurd kind acquire
        · intro q id' type holds
          have other : id ≠ id' := by
            rintro rfl
            exact held q holds
          simp [Response.to, here, other]
      have count : (r :: rest).countP (·.type = .acquire) = rest.countP (·.type = .acquire) := by
        simp [acquire]
      rw [count] at few free
      refine ih (quiet.recordGrant _ acquire _ _) found (fun x member => about x (by simp [member]))
        (fun x member => data x (by simp [member])) (fun x member => remote x (by simp [member]))
        held few fun some => ?_
      have empty := free some
      have pushed : Unacquired { s with responses := s.responses ++ [r] } id := by
        refine ⟨empty.grants, empty.held, empty.sent, fun q => ?_⟩
        rw [List.countP_append, empty.answers q]
        simp [Response.to, acquire]
      rw [here]
      exact pushed.recordGrant _ acquire _

theorem Unacquired.send {s : MutexState P T} {id : DistributedId P} (free : Unacquired s id)
    {sent : List (Response P T)} (about : ∀ r ∈ sent, r.id = id)
    (quiet : ∀ r ∈ sent, r.type ≠ .acquire) : Unacquired (MutexState.send owner s sent) id := by
  induction sent generalizing s with
  | nil => exact free
  | cons r rest ih =>
    have here : r.id = id := about r (by simp)
    have other : r.type ≠ .acquire := quiet r (by simp)
    have pushed : Unacquired { s with responses := s.responses ++ [r] } id := by
      refine ⟨free.grants, free.held, free.sent, fun q => ?_⟩
      rw [List.countP_append, free.answers q]
      simp [Response.to, other]
    rw [MutexState.send, here]
    exact ih (pushed.recordGrant _ other _) (fun x member => about x (by simp [member]))
      fun x member => quiet x (by simp [member])

theorem Fresh.grantLocal (fresh : Fresh owner initial s) {id : DistributedId P}
    {m : HardSyncMutex P T} {type : MutexRequestType} (found : s.mutex owner id = some m)
    (free : type = .acquire → Unacquired s id)
    (answers : ∀ t, s.responses.countP (Response.to (owner id) id t) = 0) :
    Fresh owner initial (s.grantLocalAt owner (owner id) type id m) := by
  have unlocked := fresh.setMutex found (m.granted_data type)
  by_cases acquire : type = .acquire
  · subst acquire
    have empty := free rfl
    intro id' m' found'
    rw [MutexState.grantLocalAt_mutex] at found'
    have held : ∀ q, (id', .acquire) ∈
        ((s.grantLocalAt owner (owner id) .acquire id m).client q).held →
          (q = owner id ∧ id' = id) ∨ (id', .acquire) ∈ (s.client q).held := by
      intro q holds
      rw [MutexState.grantLocalAt_held] at holds
      split at holds
      case isTrue own =>
        rcases List.mem_cons.mp holds with new | old
        · exact .inl ⟨own, congrArg Prod.fst new⟩
        · exact .inr (own ▸ old)
      case isFalse => exact .inr holds
    have sent : ∀ q updated, ((s.grantLocalAt owner (owner id) .acquire id m).client q).position =
        .sendRelease .acquire (.releaseAcquire id' updated) →
          (s.client q).position = .sendRelease .acquire (.releaseAcquire id' updated) := by
      intro q updated position
      rw [MutexState.grantLocalAt_position] at position
      split at position
      case isTrue => cases position
      case isFalse => exact position
    by_cases here : id' = id
    · subst here
      rw [MutexState.mutex_setMutex_self] at found'
      cases found'
      have opened : FreshNode (owner id') (s.grantLocalAt owner (owner id') .acquire id' m).client
          s.responses (s.grants id' ++ [(owner id', .acquire)]) _ (initial id') id' m.data :=
        (fresh id' m found).openLocal empty.grants (by simp) ?_ ?_ answers
      · simpa [MutexState.grantLocalAt, MutexState.recordGrant, MutexState.setPosition,
          MutexState.setHeld] using opened
      · intro q away holds
        rcases held q holds with ⟨own, _⟩ | old
        · exact away own
        · exact empty.held q old
      · intro q
        rw [MutexState.grantLocalAt_position]
        split
        case isTrue => rfl
        case isFalse => exact empty.sent q
    · rw [MutexState.mutex_setMutex_ne owner _ _ here] at found'
      have node := fresh id' m' found'
      have framed := node.frame (fun _ => Iff.rfl)
        (fun _ _ inflight _ => inflight) ?_ (fun q updated position => .inl (sent q updated position))
        ?_
      · simpa [MutexState.grantLocalAt, MutexState.recordGrant, MutexState.setPosition,
          MutexState.setHeld, here] using framed
      · intro q holds
        rcases held q holds with ⟨_, same⟩ | old
        · exact absurd same here
        · exact ⟨old, by simp [MutexState.grantLocalAt]⟩
      · intro q holds
        rcases held q holds with ⟨_, same⟩ | old
        · exact absurd same here
        · exact node.quiet q old
  · have kept := unlocked.setHeld (owner id) ((id, type) :: (s.client (owner id)).held) ?_
    · exact (kept.recordGrant (owner id) acquire id (some m.data)).setPosition (owner id) _ (by simp)
    · intro id' member
      rcases List.mem_cons.mp member with new | old
      · exact absurd (congrArg Prod.snd new).symm acquire
      · exact old

theorem TrafficInv.batch_remote (inv : TrafficInv owner s) {id : DistributedId P}
    {m : HardSyncMutex P T} (found : s.mutex owner id = some m) {r : MutexRequest P}
    (member : r ∈ m.requestsToProcess.1) {p : P} (source : r.source = some p) : p ≠ owner id := by
  have here : r ∈ m.queued := m.requestsToProcess_perm.subset (by simp [member])
  have asked := (inv.node id m found).asked p r.type
  have positive : 0 < m.queued.countP (MutexRequest.by (some p) r.type) :=
    List.countP_pos_iff.mpr ⟨r, here, by simp [MutexRequest.by, source]⟩
  have placed := inv.placed p
  cases position : (s.client p).position <;> rw [position] at asked placed <;>
    simp only [Position.awaits] at asked
  case waitResponse type' id' =>
    by_cases same : id' = id
    · subst same
      exact Ne.symm placed
    · simp only [same, false_and, if_false] at asked
      omega
  all_goals omega

-- A batch of responses has at most one acquire, and none on a locked mutex.
theorem TrafficInv.batch_acquire (inv : TrafficInv owner s) {id : DistributedId P}
    {m : HardSyncMutex P T} (found : s.mutex owner id = some m) :
    m.requestsToProcess.1.countP (·.type = .acquire) ≤
        m.requestsToProcess.1.countP (·.type.exclusive) ∧
      m.requestsToProcess.1.countP (·.type.exclusive) ≤ 1 ∧
      (m.requestsToProcess.1 ≠ [] → Unacquired s id) := by
  refine ⟨?_, ?_⟩
  · refine List.countP_mono_left fun r _ acquire => ?_
    have kind : r.type = .acquire := of_decide_eq_true acquire
    rw [kind]
    rfl
  · rcases (inv.node id m found).batch_exclusive with ⟨_, empty⟩ | ⟨unlocked, count⟩
    · simp [empty]
    · refine ⟨?_, fun _ => inv.unacquired found unlocked⟩
      rw [count]
      split <;> omega

omit [DecidableEq P] in
theorem HardSyncMutex.response_acquire (data : T) (batch : List (MutexRequest P)) :
    (batch.map (HardSyncMutex.response data)).countP (·.type = .acquire) =
      batch.countP (·.type = .acquire) := by
  rw [List.countP_map]
  rfl

theorem Fresh.respond (fresh : Fresh owner initial s) (inv : TrafficInv owner s)
    {id : DistributedId P} {m : HardSyncMutex P T} (found : s.mutex owner id = some m)
    (remote : ∀ r ∈ m.requestsToProcess.1, r.source ≠ none) :
    Fresh owner initial (s.respondAt owner id m) := by
  obtain ⟨fewer, few, free⟩ := inv.batch_acquire found
  have data : m.respondToRequests.1.data = m.data := by
    simp [HardSyncMutex.respondToRequests_mutex]
  have kept := fresh.setMutex found data
  rw [MutexState.respondAt, HardSyncMutex.respondToRequests_sent]
  by_cases empty : m.requestsToProcess.1 = []
  · rw [empty]
    exact kept
  · have unacquired := free empty
    refine kept.send (MutexState.mutex_setMutex_self owner _ _ _) ?_ ?_ ?_ unacquired.held ?_
      fun _ => ⟨unacquired.grants, unacquired.held, unacquired.sent, unacquired.answers⟩
    · intro r member
      obtain ⟨x, inBatch, rfl⟩ := List.mem_map.mp member
      exact inv.batch_about found x inBatch
    · intro r member acquire
      obtain ⟨x, inBatch, rfl⟩ := List.mem_map.mp member
      have kind : x.type = .acquire := acquire
      simp [HardSyncMutex.response, kind, data]
    · intro r member
      obtain ⟨x, inBatch, rfl⟩ := List.mem_map.mp member
      obtain ⟨p, source⟩ := Option.ne_none_iff_exists'.mp (remote x inBatch)
      exact ⟨p, source, inv.batch_remote found inBatch source⟩
    · rw [HardSyncMutex.response_acquire]
      exact Nat.le_trans fewer few

theorem Fresh.reach (fresh : Fresh owner initial s) (inv : TrafficInv owner s)
    {id : DistributedId P} {m : HardSyncMutex P T} {request : MutexRequest P}
    {front : List (MutexRequest P)} (found : s.mutex owner id = some m)
    (batch : m.requestsToProcess.1 = front ++ [request]) (remote : ∀ r ∈ front, r.source ≠ none) :
    Fresh owner initial ((MutexState.send owner
      (s.setMutex owner id (m.requestsToProcess.2.respondAll front).1)
      (front.map (HardSyncMutex.response m.data))).grantLocalAt owner (owner id) request.type id
        (m.requestsToProcess.2.respondAll front).1) := by
  obtain ⟨fewer, few, free⟩ := inv.batch_acquire found
  have unacquired := free (by simp [batch])
  have inBatch : ∀ r ∈ front, r ∈ m.requestsToProcess.1 := by
    intro r member
    simp [batch, member]
  have aboutSent : ∀ r ∈ front.map (HardSyncMutex.response m.data), r.id = id := by
    intro r member
    obtain ⟨x, inFront, rfl⟩ := List.mem_map.mp member
    exact inv.batch_about found x (inBatch x inFront)
  have data : (m.requestsToProcess.2.respondAll front).1.data = m.data := by
    simp [HardSyncMutex.respondAll_mutex]
  have mutex := MutexState.mutex_setMutex_self owner s id (m.requestsToProcess.2.respondAll front).1
  have heard : Unacquired (s.setMutex owner id (m.requestsToProcess.2.respondAll front).1) id :=
    ⟨unacquired.grants, unacquired.held, unacquired.sent, unacquired.answers⟩
  have sent : Fresh owner initial (MutexState.send owner
      (s.setMutex owner id (m.requestsToProcess.2.respondAll front).1)
      (front.map (HardSyncMutex.response m.data))) := by
    refine (fresh.setMutex found data).send mutex aboutSent ?_ ?_ unacquired.held ?_ fun _ => heard
    · intro r member acquire
      obtain ⟨x, _, rfl⟩ := List.mem_map.mp member
      have kind : x.type = .acquire := acquire
      simp [HardSyncMutex.response, kind, data]
    · intro r member
      obtain ⟨x, inFront, rfl⟩ := List.mem_map.mp member
      obtain ⟨p, source⟩ := Option.ne_none_iff_exists'.mp (remote x inFront)
      exact ⟨p, source, inv.batch_remote found (inBatch x inFront) source⟩
    · rw [HardSyncMutex.response_acquire]
      have atMostOne := Nat.le_trans fewer few
      rw [batch, List.countP_append] at atMostOne
      omega
  refine sent.grantLocal ?_ ?_ ?_
  · simp only [MutexState.mutex, MutexState.send_server]
    exact mutex
  · intro acquire
    refine heard.send aboutSent fun r member => ?_
    obtain ⟨x, inFront, rfl⟩ := List.mem_map.mp member
    intro kind
    have kind : x.type = .acquire := kind
    have both : 0 < front.countP (·.type.exclusive) :=
      List.countP_pos_iff.mpr ⟨x, inFront, by rw [kind]; rfl⟩
    have last : request.type.exclusive = true := by
      rw [acquire]
      rfl
    rw [batch, List.countP_append, List.countP_singleton, if_pos last] at few
    omega
  · intro t
    rw [MutexState.send_responses, List.countP_append, MutexState.setMutex_responses,
      inv.unanswered id t, Nat.zero_add, List.countP_eq_zero]
    intro r member
    obtain ⟨x, inFront, rfl⟩ := List.mem_map.mp member
    intro toOwner
    exact inv.batch_remote found (inBatch x inFront) (of_decide_eq_true toOwner).1 rfl

theorem TrafficInv.only (inv : TrafficInv owner s) (id : DistributedId P) (p : P)
    (outstanding : 0 < (s.client p).held.count (id, .acquire) +
      (s.client p).position.sends id .acquire + s.responses.countP (Response.to p id .acquire)) :
    (p, .acquire) ∈ s.grants id ∧ ∀ q, (q, .acquire) ∈ s.grants id → q = p := by
  obtain ⟨m, found⟩ := inv.managed id
  have node := inv.node id m found
  rw [← node.granted p .acquire] at outstanding
  have member := List.count_pos_iff.mp outstanding
  exact ⟨member, fun q other => congrArg Prod.fst (node.exclusive_unique member rfl other rfl)⟩

theorem MutexState.recordRelease_sections (s : MutexState P T) (p : P) (id : DistributedId P) :
    (s.recordRelease p .acquire id).sections = Function.update s.sections id
      ((s.sections id).map fun sec =>
        if sec.holder = p ∧ sec.released = false then { sec with released := true } else sec) := by
  simp [MutexState.recordRelease, MutexState.updateSection]

-- A release of the acquire of node `id` by `p`, heard by the owner in state `s'`.
theorem Fresh.release (fresh : Fresh owner initial s) (inv : TrafficInv owner s)
    {s₁ : MutexState P T} {id : DistributedId P} {p : P} {m m' : HardSyncMutex P T}
    (found : s.mutex owner id = some m) (unlocked : m'.locked = false)
    (heard : TrafficInv owner ((s₁.recordRelease p .acquire id).setMutex owner id m'))
    (outstanding : 0 < (s.client p).held.count (id, .acquire) +
      (s.client p).position.sends id .acquire + s.responses.countP (Response.to p id .acquire))
    (result : ∀ value sec, OpenSection (owner id) s.client s.responses id value m.data sec →
      sec.holder = p → sec.acquired = some value ∧ m'.data = sec.update value)
    (server : s₁.server = s.server) (responses : s₁.responses = s.responses)
    (grants : s₁.grants = s.grants) (sections : s₁.sections = s.sections)
    (held : ∀ id' q, (id', .acquire) ∈ (s₁.client q).held →
      (id', .acquire) ∈ (s.client q).held ∧ (s₁.client q).copy id' = (s.client q).copy id')
    (sent : ∀ q message, (s₁.client q).position = .sendRelease .acquire message →
      (s.client q).position = .sendRelease .acquire message) :
    Fresh owner initial ((s₁.recordRelease p .acquire id).setMutex owner id m') := by
  obtain ⟨member, only⟩ := inv.only _ _ outstanding
  intro id' m₀ found'
  by_cases here : id' = id
  · subst here
    rw [MutexState.mutex_setMutex_self] at found'
    cases found'
    have empty := heard.unacquired (MutexState.mutex_setMutex_self owner _ _ _) unlocked
    have closed := (fresh id' m found).close member only empty.grants empty.held result s.responses
    simpa [MutexState.recordRelease_sections, responses, sections] using closed
  · rw [MutexState.mutex_setMutex_ne owner _ _ here] at found'
    have found' : s.mutex owner id' = some m₀ := by
      simpa [MutexState.mutex, server] using found'
    have node := fresh id' m₀ found'
    have framed := node.frame
      (fun _ => Iff.rfl) (fun _ _ inflight _ => inflight) (held id')
      (fun q updated position => .inl (sent q _ position))
      fun q holds => node.quiet q (held id' q holds).1
    simpa [MutexState.recordRelease_sections, here, responses, sections, grants] using framed

theorem Fresh.hear (fresh : Fresh owner initial s) (inv : TrafficInv owner s) {p : P}
    {type : MutexRequestType} {message : MutexMessage P T} {m : HardSyncMutex P T}
    (position : (s.client p).position = .sendRelease type message)
    (found : s.mutex owner message.id = some m) :
    Fresh owner initial (((s.setPosition p .idle).recordRelease p type message.id).setMutex owner
      message.id (m.released message)) := by
  have heard := inv.hear position found
  have placed : Position.Placed owner p (.sendRelease type message) := position ▸ inv.placed p
  by_cases acquire : type = .acquire
  · subst acquire
    obtain ⟨away, updated, shape⟩ := placed
    refine fresh.release inv found (by rw [shape]; rfl) heard ?_ ?_ rfl rfl rfl rfl ?_ ?_
    · rw [position]
      simp only [Position.sends, and_self, if_true]
      omega
    · intro value sec opened holder
      have sent := opened.sent updated (by rw [holder, position, ← shape])
      rw [shape]
      exact sent
    · intro id' q holds
      rw [MutexState.setPosition_held] at holds
      exact ⟨holds, by simp⟩
    · intro q message' here
      rw [MutexState.setPosition_position] at here
      split at here
      case isTrue => cases here
      case isFalse => exact here
  · refine ((fresh.setPosition p _ (by simp)).recordRelease p acquire message.id).setMutex
      (by simpa [MutexState.mutex, MutexState.setPosition] using found) ?_
    obtain ⟨_, shape⟩ := placed
    cases type <;> simp only at shape
    case acquire => exact absurd rfl acquire
    all_goals
      rw [shape]
      rfl

theorem Fresh.hearLocal (fresh : Fresh owner initial s) (inv : TrafficInv owner s) {p : P}
    {type : MutexRequestType} {id : DistributedId P} {m : HardSyncMutex P T}
    (position : (s.client p).position = .idle) (own : owner id = p)
    (holds : (id, type) ∈ (s.client p).held) (found : s.mutex owner id = some m) :
    Fresh owner initial (((s.setHeld p ((s.client p).held.erase (id, type))).recordRelease p type
      id).setMutex owner id (if type.exclusive then m.unlock else m.unlockShared)) := by
  have heard := inv.hearLocal position own holds found
  have less : ∀ id', (id', .acquire) ∈ (s.client p).held.erase (id, type) →
      (id', .acquire) ∈ (s.client p).held := fun id' member => List.mem_of_mem_erase member
  have data : (if type.exclusive then m.unlock else m.unlockShared).data = m.data := by
    split <;> rfl
  by_cases acquire : type = .acquire
  · subst acquire
    refine fresh.release inv found rfl heard ?_ ?_ rfl rfl rfl rfl ?_ ?_
    · have positive := List.count_pos_iff.mpr holds
      omega
    · intro value sec opened holder
      exact opened.inPlace (holder.trans own.symm)
    · intro id' q member
      rw [MutexState.setHeld_held] at member
      split at member
      case isTrue here =>
        subst here
        exact ⟨less id' member, by simp⟩
      case isFalse => exact ⟨member, by simp⟩
    · intro q message here
      rw [MutexState.setHeld_position] at here
      exact here
  · exact ((fresh.setHeld _ _ less).recordRelease p acquire id).setMutex
      (by simpa [MutexState.mutex, MutexState.setHeld] using found) data

theorem Fresh.sendRelease (fresh : Fresh owner initial s) {p : P} {type : MutexRequestType}
    {id : DistributedId P} (away : owner id ≠ p) (holds : (id, type) ∈ (s.client p).held) :
    Fresh owner initial ((s.setHeld p ((s.client p).held.erase (id, type))).setPosition p
      (.sendRelease type (s.releaseMessage p type id))) := by
  intro id' m found
  have node := fresh id' m found
  have before : ∀ q, (id', .acquire) ∈ (((s.setHeld p ((s.client p).held.erase
      (id, type))).setPosition p (.sendRelease type (s.releaseMessage p type id))).client q).held →
        (id', .acquire) ∈ (s.client q).held := by
    intro q member
    rw [MutexState.setPosition_held, MutexState.setHeld_held] at member
    split at member
    case isTrue here => exact here ▸ List.mem_of_mem_erase member
    case isFalse => exact member
  refine node.frame (fun _ => Iff.rfl) (fun _ _ inflight _ => inflight) ?_ ?_
    fun q member => node.quiet q (before q member)
  · intro q member
    exact ⟨before q member, by simp⟩
  · intro q updated position
    rw [MutexState.setPosition_position, MutexState.setHeld_position] at position
    split at position
    case isTrue here =>
      subst here
      right
      injection position with kind message
      subst kind
      simp only [MutexState.releaseMessage, MutexMessage.releaseAcquire.injEq] at message
      obtain ⟨rfl, same⟩ := message
      exact ⟨Ne.symm away, holds, same.symm⟩
    case isFalse => exact .inl position

theorem MutexState.received_copy (s : MutexState P T) (p q : P) (type : MutexRequestType)
    (id id' : DistributedId P) (response : Response P T) :
    ((s.received owner p type id response).client q).copy id' =
      if q = p ∧ id' = id then response.data.getD ((s.client q).copy id')
      else (s.client q).copy id' := by
  cases data : response.data <;> by_cases kind : type = .acquire <;>
    simp [MutexState.received, data, kind, MutexState.setCopy_copy]

theorem MutexState.received_sections (s : MutexState P T) (p : P) (type : MutexRequestType)
    (id : DistributedId P) (response : Response P T) :
    (s.received owner p type id response).sections =
      if type = .acquire then Function.update s.sections id ((s.sections id).map fun sec =>
        if sec.holder = p ∧ sec.released = false then { sec with acquired := response.data }
        else sec)
      else s.sections := by
  cases data : response.data <;> by_cases kind : type = .acquire <;>
    simp only [MutexState.received, data, kind, if_true, if_false] <;> rfl

theorem Fresh.receive (fresh : Fresh owner initial s) (inv : TrafficInv owner s) {p : P}
    {type : MutexRequestType} {id : DistributedId P} {response : Response P T}
    (position : (s.client p).position = .waitResponse type id)
    (found : s.responses.find? (MutexState.awaited owner p type id) = some response) :
    Fresh owner initial (s.received owner p type id response) := by
  obtain ⟨dest, about, kind, before, after, split, rest⟩ := inv.awaited_response position found
  have heard := inv.receive position found
  have toHolder : response.to p id type = true := by simp [Response.to, dest, about, kind]
  have inflight : response ∈ s.responses := by simp [split]
  have away : owner id ≠ p := by simpa [position, Position.Placed] using inv.placed p
  have idle : ∀ id' t, (s.received owner p type id response).responses.countP
      (Response.to p id' t) = 0 := by
    intro id' t
    refine heard.answered id' p t ?_
    rw [MutexState.received_position, if_pos rfl]
    rfl
  have left : ∀ r, r ∈ (s.received owner p type id response).responses → r ∈ s.responses := by
    intro r member
    rw [MutexState.received_responses] at member
    exact List.mem_of_mem_eraseP member
  have quiet : ∀ id' q, (q ≠ p → (id', .acquire) ∈ (s.client q).held) →
      ∀ m, s.mutex owner id' = some m → ∀ t,
        (s.received owner p type id response).responses.countP (Response.to q id' t) = 0 := by
    intro id' q holds m mutex t
    by_cases here : q = p
    · exact here ▸ idle id' t
    · have none := (fresh id' m mutex).quiet q (holds here) t
      rw [List.countP_eq_zero] at none ⊢
      exact fun r member => none r (left r member)
  have sent : ∀ q message, ((s.received owner p type id response).client q).position =
      .sendRelease .acquire message → q ≠ p ∧
        (s.client q).position = .sendRelease .acquire message := by
    intro q message here
    rw [MutexState.received_position] at here
    split at here
    case isTrue => cases here
    case isFalse other => exact ⟨other, here⟩
  have held : ∀ id' q, ¬ (id' = id ∧ type = .acquire) →
      (id', .acquire) ∈ ((s.received owner p type id response).client q).held →
        (id', .acquire) ∈ (s.client q).held := by
    intro id' q other member
    rw [MutexState.received_held] at member
    split at member
    case isTrue here =>
      rcases List.mem_cons.mp member with new | old
      · exact absurd ⟨congrArg Prod.fst new, (congrArg Prod.snd new).symm⟩ other
      · exact here ▸ old
    case isFalse => exact member
  intro id' m found'
  have mutex : s.mutex owner id' = some m := by
    simpa [MutexState.mutex, MutexState.received_server] using found'
  have node := fresh id' m mutex
  rw [MutexState.received_grants, MutexState.received_sections]
  by_cases target : id' = id ∧ type = .acquire
  · obtain ⟨rfl, rfl⟩ := target
    have outstanding : 0 < s.responses.countP (Response.to p id' .acquire) :=
      List.countP_pos_iff.mpr ⟨response, inflight, toHolder⟩
    obtain ⟨member, only⟩ := inv.only id' p (by omega)
    rw [if_pos rfl, Function.update_self]
    refine node.within member only (fun sec => { sec with acquired := response.data })
      (fun sec own => own) ?_ fun q holds t => quiet id' q (fun other => ?_) m mutex t
    · intro value sec opened own
      obtain ⟨data, none, same⟩ := opened.answered response inflight (own ▸ toHolder)
      refine ⟨opened.unreleased, fun here => ?_, opened.away, ?_, ?_, ?_⟩
      · exact absurd (here.symm.trans own) away
      · intro r member toHolder'
        have none := List.countP_eq_zero.mp (idle id' .acquire) r member
        exact absurd (own ▸ toHolder') none
      · intro _ _
        refine ⟨data, ?_⟩
        rw [MutexState.received_copy, if_pos ⟨own, rfl⟩, data, same]
        rfl
      · intro updated here
        exact absurd own (sent _ _ here).1
    · rw [MutexState.received_held, if_neg other] at holds
      exact holds
  · have same : (if type = .acquire then Function.update s.sections id
        ((s.sections id).map fun sec => if sec.holder = p ∧ sec.released = false then
          { sec with acquired := response.data } else sec) else s.sections) id' =
            s.sections id' := by
      split
      case isTrue acquire =>
        rw [Function.update_of_ne fun here => target ⟨here, acquire⟩]
      case isFalse => rfl
    rw [same]
    refine node.frame (fun _ => Iff.rfl) (fun q r member _ => left r member) ?_
      (fun q updated here => .inl (sent q _ here).2)
      fun q holds t => quiet id' q (fun _ => held id' q target holds) m mutex t
    intro q holds
    have old := held id' q target holds
    refine ⟨old, ?_⟩
    rw [MutexState.received_copy, if_neg]
    rintro ⟨rfl, rfl⟩
    have none := List.countP_eq_zero.mp (node.quiet q old type) response inflight
    exact none toHolder

theorem Fresh.modify (fresh : Fresh owner initial s) (inv : TrafficInv owner s)
    {s₁ : MutexState P T} {id : DistributedId P} {p : P} {m m' : HardSyncMutex P T} (f : T → T)
    (position : (s.client p).position = .idle) (holds : (id, .acquire) ∈ (s.client p).held)
    (found : s.mutex owner id = some m) (found' : s₁.mutex owner id = some m')
    (others : ∀ id', id' ≠ id → s₁.mutex owner id' = s.mutex owner id')
    (responses : s₁.responses = s.responses) (grants : s₁.grants = s.grants)
    (sections : s₁.sections = s.sections)
    (held : ∀ q, (s₁.client q).held = (s.client q).held)
    (still : ∀ q, (s₁.client q).position = (s.client q).position)
    (inPlace : owner id = p → m'.data = f m.data)
    (away : owner id ≠ p → m'.data = m.data ∧ (s₁.client p).copy id = f ((s.client p).copy id))
    (copies : ∀ q id', ¬ (q = p ∧ id' = id) → (s₁.client q).copy id' = (s.client q).copy id') :
    Fresh owner initial (s₁.updateSection p id fun sec => { sec with update := f ∘ sec.update }) := by
  obtain ⟨member, only⟩ := inv.only id p (by
    have positive := List.count_pos_iff.mpr holds
    omega)
  intro id' m₀ mutex
  replace mutex : s₁.mutex owner id' = some m₀ := mutex
  by_cases here : id' = id
  · subst here
    rw [found'] at mutex
    cases mutex
    have node := fresh id' m found
    have changed : FreshNode (owner id') s₁.client s.responses (s.grants id') _ (initial id') id'
        m'.data := node.within member only
      (fun sec => { sec with update := f ∘ sec.update }) (fun sec own => own) ?_ ?_
    · simpa [MutexState.updateSection, responses, grants, sections] using changed
    · intro value sec opened own
      refine ⟨opened.unreleased, fun atOwner => ?_, fun atOther => ?_, ?_, ?_, ?_⟩
      · obtain ⟨acquired, data⟩ := opened.inPlace atOwner
        refine ⟨acquired, ?_⟩
        rw [inPlace (atOwner.symm.trans own), data]
        rfl
      · rw [(away fun same => atOther (own.trans same.symm)).1]
        exact opened.away atOther
      · intro r inflight toHolder
        have none := List.countP_eq_zero.mp (node.quiet p holds .acquire) r inflight
        exact absurd (own ▸ toHolder) none
      · intro atOther holding
        obtain ⟨acquired, copy⟩ := opened.held atOther (own ▸ holds)
        refine ⟨acquired, ?_⟩
        rw [own] at copy ⊢
        rw [(away fun same => atOther (own.trans same.symm)).2, copy]
        rfl
      · intro updated sending
        rw [still, own, position] at sending
        cases sending
    · intro q holding
      rw [held] at holding
      exact node.quiet q holding
  · rw [others id' here] at mutex
    have node := fresh id' m₀ mutex
    have framed : FreshNode (owner id') s₁.client s.responses (s.grants id') (s.sections id')
        (initial id') id' m₀.data := node.frame
      (fun _ => Iff.rfl) (fun _ _ inflight _ => inflight) ?_ ?_ ?_
    · simpa [MutexState.updateSection, here, responses, grants, sections] using framed
    · intro q holding
      exact ⟨held q ▸ holding, copies q id' fun both => here both.2⟩
    · intro q updated sending
      exact .inl (still q ▸ sending)
    · intro q holding
      exact node.quiet q (held q ▸ holding)

theorem Fresh.step (fresh : Fresh owner initial s) (inv : TrafficInv owner s)
    {a : MutexAction P T} {s' : MutexState P T} (effect : Effect owner s a s') :
    Fresh owner initial s' := by
  cases effect with
  | ask position away => exact fresh.setPosition _ _ (by simp)
  | wait position own found _ =>
    exact (fresh.setMutex found (HardSyncMutex.pushRequest_data _ _)).setPosition _ _ (by simp)
  | @access p type id m position own found free =>
    subst own
    exact fresh.grantLocal found
      (fun _ => inv.unacquired found (HardSyncMutex.free_locked free)) (inv.unanswered id)
  | queue position found _ =>
    exact (fresh.setPosition _ _ (by simp)).setMutex found (HardSyncMutex.pushRequest_data _ _)
  | @grant p type id m position found free =>
    have away : owner id ≠ p := by simpa [position, Position.Placed] using inv.placed p
    have empty := inv.unacquired found (HardSyncMutex.free_locked free)
    have waiting := fresh.setPosition p (.waitResponse type id) (by simp)
    refine (waiting.setMutex found (m.granted_data type)).send
      (MutexState.mutex_setMutex_self owner _ _ _) ?_ ?_ ?_ (fun q => by simpa using empty.held q)
      ?_ fun _ => ⟨empty.grants, fun q => by simpa using empty.held q, fun q => ?_, empty.answers⟩
    · intro r member
      rw [List.mem_singleton.mp member]
      rfl
    · intro r member acquire
      rw [List.mem_singleton.mp member] at acquire ⊢
      have kind : type = .acquire := acquire
      simp [HardSyncMutex.response, kind]
    · intro r member
      rw [List.mem_singleton.mp member]
      exact ⟨p, rfl, Ne.symm away⟩
    · rw [List.countP_singleton]
      split <;> omega
    · rw [MutexState.setMutex_client, MutexState.setPosition_position]
      split
      case isTrue => rfl
      case isFalse => exact empty.sent q
  | receive position found => exact fresh.receive inv position found
  | sendRelease position away holds => exact fresh.sendRelease away holds
  | respond position found remote =>
    rw [← MutexState.respondAt_setMutex]
    exact (fresh.hear inv position found).respond (inv.hear position found)
      (MutexState.mutex_setMutex_self owner _ _ _) remote
  | reach position found waiting about batch remote =>
    have reached := (fresh.hear inv position found).reach (inv.hear position found)
      (MutexState.mutex_setMutex_self owner _ _ _) batch remote
    simpa using reached
  | notify position own holds found _ remote =>
    rw [← MutexState.respondAt_setMutex]
    exact (fresh.hearLocal inv position own holds found).respond
      (inv.hearLocal position own holds found) (MutexState.mutex_setMutex_self owner _ _ _) remote
  | unlockShared position own holds found kind _ =>
    simpa [kind] using fresh.hearLocal inv position own holds found
  | @modifyLocal p id f m position own holds found =>
    exact fresh.modify inv f position holds found (MutexState.mutex_setMutex_self owner _ _ _)
      (fun _ other => MutexState.mutex_setMutex_ne owner _ _ other) rfl rfl rfl (fun _ => rfl)
      (fun _ => rfl) (fun _ => rfl) (fun away => absurd own away) fun _ _ _ => rfl
  | @modifyCopy p id f position away holds =>
    obtain ⟨m, found⟩ := inv.managed id
    refine fresh.modify inv f position holds found found (fun _ _ => rfl) rfl rfl rfl
      (fun q => by simp) (fun q => by simp) (fun own => absurd own away) (fun _ => ⟨rfl, ?_⟩) ?_
    · rw [MutexState.setCopy_copy, if_pos ⟨rfl, rfl⟩]
    · intro q id' other
      rw [MutexState.setCopy_copy, if_neg other]

theorem mutexTraffic_fresh (reached : (mutexTraffic owner initial).Reachable s) :
    Fresh owner initial s := by
  refine TransitionSystem.ReachableBy.invariant ?_ (fun s a s' before fresh _ taken => ?_) reached
  · rintro s rfl id m found
    simp only [MutexState.mutex, MutexState.start, if_true, Option.some.injEq] at found
    subst found
    exact ⟨by simp [MutexState.start], .inl ⟨by simp [MutexState.start], by simp [MutexState.start],
      rfl⟩, by simp [MutexState.start]⟩
  · have inv := mutexTraffic_invariant before
    exact fresh.step inv (inv.next_effect taken)

/-- Outside the sections of its owner, a node holds the released modifications, applied in the order
of the grants, and each acquire returned the data left by the releases that precede it. -/
theorem no_lost_update (data : DistributedId P → T)
    (reached : (mutexTraffic owner data).Reachable s) (id : DistributedId P) :
    ∃ m, s.mutex owner id = some m ∧
      ((id, .acquire) ∉ (s.client (owner id)).held →
        m.data = applied (data id) ((s.sections id).filter (·.released))) ∧
      ∀ k sec, (s.sections id)[k]? = some sec →
        sec.released = true ∨ (id, .acquire) ∈ (s.client sec.holder).held →
          (∀ x ∈ (s.sections id).take k, x.released = true) ∧
            sec.acquired = some (applied (data id) ((s.sections id).take k)) := by
  have inv := mutexTraffic_invariant reached
  obtain ⟨m, found⟩ := inv.managed id
  have node := mutexTraffic_fresh reached id m found
  refine ⟨m, found, ?_, ?_⟩
  · intro outside
    rcases node.now with ⟨_, all, value⟩ | ⟨before, sec, split, all, granted, opened⟩
    · rw [List.filter_eq_self.mpr all, value]
    · have filtered : (s.sections id).filter (·.released) = before := by
        rw [split, List.filter_append, List.filter_eq_self.mpr all]
        simp [opened.unreleased]
      rw [filtered]
      refine opened.away fun own => ?_
      have node := inv.node id m found
      have count := node.granted sec.holder .acquire
      have positive := List.count_pos_iff.mpr granted
      have unanswered := inv.unanswered id .acquire
      have placed := inv.placed sec.holder
      have unsent : (s.client sec.holder).position.sends id .acquire = 0 := by
        cases position : (s.client sec.holder).position <;> simp only [Position.sends]
        rw [position] at placed
        rw [if_neg]
        rintro ⟨rfl, _⟩
        exact placed.1 own.symm
      rw [own] at count positive unsent
      have notHeld := List.count_eq_zero.mpr outside
      omega
  · intro k sec at_k returned
    rcases node.now with ⟨_, all, _⟩ | ⟨before, last, split, all, _, opened⟩
    · refine ⟨fun x member => all x (List.mem_of_mem_take member), ?_⟩
      exact node.history k sec at_k (all sec (List.mem_of_getElem? at_k))
    · rcases Nat.lt_trichotomy k before.length with inside | here | beyond
      · rw [split, List.take_append_of_le_length (Nat.le_of_lt inside)]
        rw [split, List.getElem?_append_left inside] at at_k
        refine ⟨fun x member => all x (List.mem_of_mem_take member), ?_⟩
        have history := node.history k sec
          (by rw [split, List.getElem?_append_left inside]; exact at_k)
          (all sec (List.mem_of_getElem? at_k))
        rwa [split, List.take_append_of_le_length (Nat.le_of_lt inside)] at history
      · subst here
        rw [split] at at_k ⊢
        simp only [List.getElem?_concat_length, Option.some.injEq] at at_k
        subst at_k
        rw [List.take_append_of_le_length (Nat.le_refl _), List.take_length]
        refine ⟨all, ?_⟩
        rcases returned with released | holds
        · rw [opened.unreleased] at released
          cases released
        · by_cases own : last.holder = owner id
          · exact (opened.inPlace own).1
          · exact (opened.held own holds).1
      · rw [split, List.getElem?_eq_none (by simp; omega)] at at_k
        cases at_k

def sectionsRun {P : Type} (owner p : P) : List (MutexAction P Nat) :=
  let id : DistributedId P := ⟨owner, 0⟩
  [.acquire p id, .deliver p, .receive p, .modify p id (· + 3), .releaseAcquire p id, .deliver p,
    .acquire owner id, .modify owner id (· * 2), .releaseAcquire owner id]

theorem no_lost_update_run : ∃ s m,
    (mutexTraffic (fun id : DistributedId (Fin 2) => id.rank) fun _ => 0).exec
      (.start (·.rank) fun _ => 0) (sectionsRun 0 1) = some s ∧
    s.mutex (·.rank) ⟨0, 0⟩ = some m ∧
    m.data = applied 0 ((s.sections ⟨0, 0⟩).filter (·.released)) := by
  have held : (((mutexTraffic (fun id : DistributedId (Fin 2) => id.rank) fun _ => 0).exec
      (.start (·.rank) fun _ => 0) (sectionsRun 0 1)).map fun s => (s.client 0).held) = some [] := by
    decide
  obtain ⟨s, run, outside⟩ := Option.map_eq_some_iff.mp held
  obtain ⟨m, found, data, _⟩ := no_lost_update (fun _ => 0)
    (TransitionSystem.reachable_exec (sectionsRun 0 1) (.start rfl) run) ⟨0, 0⟩
  exact ⟨s, m, run, found, data (by simp [outside])⟩

end

end Fpmas.Synchro.Hard
