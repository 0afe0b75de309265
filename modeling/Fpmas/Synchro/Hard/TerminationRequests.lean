import Fpmas.Library.Counting
import Fpmas.Synchro.Hard.Termination

set_option autoImplicit false

namespace Fpmas.Synchro.Hard

variable {n : Nat}

def Tag.isAccess : Tag → Bool
  | .access _ => true
  | .command _ => false

namespace Frame

def pending : Frame n → List (Request n)
  | .waitSend pending => pending
  | _ => []

-- The requests of the frame that a server has still to receive and answer.
def asks : Frame n → Nat
  | .send requests => requests.countP (·.2.isAccess)
  | .waitSend pending => pending.countP (·.tag.isAccess)
  | _ => 0

def waits : Frame n → Nat
  | .waitResponse _ _ => 1
  | _ => 0

end Frame

def asks (frames : List (Frame n)) : Nat := (frames.map Frame.asks).sum
def waits (frames : List (Frame n)) : Nat := (frames.map Frame.waits).sum

@[simp] theorem asks_nil : asks ([] : List (Frame n)) = 0 := rfl
@[simp] theorem waits_nil : waits ([] : List (Frame n)) = 0 := rfl
@[simp] theorem asks_cons (frame : Frame n) (rest : List (Frame n)) :
    asks (frame :: rest) = frame.asks + asks rest := by
  simp [asks]
@[simp] theorem waits_cons (frame : Frame n) (rest : List (Frame n)) :
    waits (frame :: rest) = frame.waits + waits rest := by
  simp [waits]
@[simp] theorem asks_append (frames rest : List (Frame n)) :
    asks (frames ++ rest) = asks frames + asks rest := by
  simp [asks]
@[simp] theorem waits_append (frames rest : List (Frame n)) :
    waits (frames ++ rest) = waits frames + waits rest := by
  simp [waits]

theorem Operation.frames_asks (operation : Operation n) :
    waits operation.frames = asks operation.frames := by
  cases operation with
  | access server type => rfl
  | waitLocal => rfl
  | sends requests =>
    have none : (requests.map fun request => (request.1, Tag.command request.2)).countP
        (·.2.isAccess) = 0 := by
      rw [List.countP_eq_zero]
      intro request member
      obtain ⟨_, _, rfl⟩ := List.mem_map.mp member
      exact Bool.false_ne_true
    simp [Operation.frames, Frame.asks, Frame.waits, none]

theorem Operation.frames_pending (operation : Operation n) :
    ∀ frame ∈ operation.frames, frame.pending = [] := by
  cases operation <;> simp [Operation.frames, Frame.pending]

theorem handler_frames (handler : List (RemoveNodeStep n)) :
    waits (handler.flatMap (·.operation.frames)) = asks (handler.flatMap (·.operation.frames)) ∧
      ∀ frame ∈ handler.flatMap (·.operation.frames), frame.pending = [] := by
  induction handler with
  | nil => exact ⟨rfl, by simp⟩
  | cons step rest ih =>
    rw [List.flatMap_cons]
    constructor
    next =>
      rw [waits_append, asks_append, step.operation.frames_asks, ih.1]
    next =>
      intro frame member
      rcases List.mem_append.mp member with first | later
      · exact step.operation.frames_pending frame first
      · exact ih.2 frame later

namespace TerminationState

variable (s : TerminationState n)

theorem update_process (p q : Rank n) (f : Process n → Process n) :
    (s.update p f).process q = if q = p then f (s.process p) else s.process q := by
  simp [update, Function.update_apply]

@[simp] theorem update_tokens (p : Rank n) (f : Process n → Process n) :
    (s.update p f).tokens = s.tokens := rfl
@[simp] theorem update_ends (p : Rank n) (f : Process n → Process n) :
    (s.update p f).ends = s.ends := rfl

end TerminationState

/-- Every outstanding request belongs to a process that waits for it. -/
structure RequestInv (s : TerminationState n) : Prop where
  pending : ∀ p, ∀ frame ∈ (s.process p).frames, ∀ request ∈ frame.pending,
    request.round = (s.process p).round ∧ request.epoch = (s.process p).epoch
  answers : ∀ p, waits (s.process p).frames = asks (s.process p).frames +
    s.unanswered.countP (·.dest = p) + s.responses.countP (·.dest = p)
  unanswered : ∀ x ∈ s.unanswered, (s.process x.server).round = (s.process x.dest).round
  responses : ∀ x ∈ s.responses, x.round = (s.process x.dest).round

section

variable {s s' : TerminationState n}

-- A process whose call stack is empty has nothing in flight.
theorem RequestInv.idle (inv : RequestInv s) {p : Rank n} (empty : (s.process p).frames = []) :
    (∀ x ∈ s.unanswered, x.dest ≠ p) ∧ ∀ x ∈ s.responses, x.dest ≠ p := by
  have answers := inv.answers p
  rw [empty] at answers
  simp only [waits_nil, asks_nil] at answers
  constructor
  next =>
    intro x member same
    have positive : 0 < s.unanswered.countP (·.dest = p) :=
      List.countP_pos_iff.mpr ⟨x, member, by simp [same]⟩
    omega
  next =>
    intro x member same
    have positive : 0 < s.responses.countP (·.dest = p) :=
      List.countP_pos_iff.mpr ⟨x, member, by simp [same]⟩
    omega

-- Steps that only change call stacks, by steps that balance requests and waits.
theorem RequestInv.frames (inv : RequestInv s)
    (ring : ∀ p, s'.process p = (s.process p).setFrames (s'.process p).frames)
    (unanswered : s'.unanswered = s.unanswered) (responses : s'.responses = s.responses)
    (pending : ∀ p, ∀ frame ∈ (s'.process p).frames, ∀ request ∈ frame.pending,
      (request.round = (s.process p).round ∧ request.epoch = (s.process p).epoch) ∨
        ∃ old ∈ (s.process p).frames, request ∈ old.pending)
    (balanced : ∀ p, waits (s'.process p).frames + asks (s.process p).frames =
      waits (s.process p).frames + asks (s'.process p).frames) : RequestInv s' := by
  have round : ∀ p, (s'.process p).round = (s.process p).round := by
    intro p
    rw [ring p]
    rfl
  have epoch : ∀ p, (s'.process p).epoch = (s.process p).epoch := by
    intro p
    rw [ring p]
    rfl
  constructor
  next =>
    intro p frame member request inside
    rw [round, epoch]
    rcases pending p frame member request inside with new | ⟨old, before, inside⟩
    · exact new
    · exact inv.pending p old before request inside
  next =>
    intro p
    have answers := inv.answers p
    have same := balanced p
    rw [unanswered, responses]
    omega
  next =>
    intro x member
    rw [round, round]
    exact inv.unanswered x (unanswered ▸ member)
  next =>
    intro x member
    rw [round]
    exact inv.responses x (responses ▸ member)

theorem RequestInv.update (inv : RequestInv s) {p : Rank n} {frames : List (Frame n)}
    (pending : ∀ frame ∈ frames, ∀ request ∈ frame.pending,
      (request.round = (s.process p).round ∧ request.epoch = (s.process p).epoch) ∨
        ∃ old ∈ (s.process p).frames, request ∈ old.pending)
    (balanced : waits frames + asks (s.process p).frames =
      waits (s.process p).frames + asks frames) :
    RequestInv (s.update p fun process => process.setFrames frames) := by
  apply inv.frames
  case ring =>
    intro q
    rw [TerminationState.update_process]
    split
    case isTrue same => rw [same]; rfl
    case isFalse => rfl
  case unanswered => rfl
  case responses => rfl
  case pending =>
    intro q frame member
    rw [TerminationState.update_process] at member
    split at member
    case isTrue same => rw [same]; exact pending frame member
    case isFalse => exact fun request inside => .inr ⟨frame, member, inside⟩
  case balanced =>
    intro q
    rw [TerminationState.update_process]
    split
    case isTrue same => rw [same]; exact balanced
    case isFalse => omega

theorem RequestInv.call (inv : RequestInv s) {p : Rank n} {operation : Operation n}
    (taken : s.call p operation = some s') : RequestInv s' := by
  unfold TerminationState.call at taken
  split at taken <;> cases taken
  next idle =>
    have empty : (s.process p).frames = [] := List.isEmpty_iff.mp idle.2
    apply inv.update
    · intro frame member request inside
      rw [operation.frames_pending frame member] at inside
      cases inside
    · rw [empty, operation.frames_asks]
      simp

theorem RequestInv.issend (inv : RequestInv s) {p : Rank n} (taken : s.issend p = some s') :
    RequestInv s' := by
  unfold TerminationState.issend at taken
  split at taken <;> cases taken
  next requests rest stack =>
    apply inv.update
    · intro frame member request inside
      rcases List.mem_cons.mp member with first | later
      · subst first
        obtain ⟨_, _, rfl⟩ := List.mem_map.mp inside
        exact .inl ⟨rfl, rfl⟩
      · exact .inr ⟨frame, by simp [stack, later], inside⟩
    · rw [stack]
      simp [Frame.waits, Frame.asks, List.countP_map, Function.comp_def]

theorem RequestInv.sent (inv : RequestInv s) {p : Rank n} (taken : s.sent p = some s') :
    RequestInv s' := by
  unfold TerminationState.sent at taken
  split at taken <;> cases taken
  next rest stack =>
    apply inv.update
    · intro frame member request inside
      exact .inr ⟨frame, by simp [stack, member], inside⟩
    · simp [stack, Frame.waits, Frame.asks]

theorem RequestInv.granted (inv : RequestInv s) {p : Rank n} (taken : s.granted p = some s') :
    RequestInv s' := by
  unfold TerminationState.granted at taken
  split at taken <;> cases taken
  next rest stack =>
    apply inv.update
    · intro frame member request inside
      exact .inr ⟨frame, by simp [stack, member], inside⟩
    · simp [stack, Frame.waits, Frame.asks]

theorem RequestInv.respond (inv : RequestInv s) {index : Nat}
    (taken : s.respond index = some s') : RequestInv s' := by
  obtain ⟨request, found, rfl⟩ := Option.map_eq_some_iff.mp taken
  have member : request ∈ s.unanswered := List.mem_of_getElem? found
  constructor
  next => exact inv.pending
  next =>
    intro p
    have answers := inv.answers p
    have moved := List.countP_eraseIdx_add (fun x => decide (x.dest = p)) s.unanswered found
    simp only [List.countP_append, List.countP_singleton]
    simp only [decide_eq_true_eq] at moved ⊢
    omega
  next =>
    intro x left
    exact inv.unanswered x (List.mem_of_mem_eraseIdx left)
  next =>
    intro x inflight
    rcases List.mem_append.mp inflight with old | new
    · exact inv.responses x old
    · rw [List.mem_singleton.mp new]
      exact inv.unanswered request member

theorem RequestInv.receive (inv : RequestInv s) {p : Rank n} (taken : s.receive p = some s') :
    RequestInv s' := by
  unfold TerminationState.receive at taken
  split at taken
  case h_2 => cases taken
  case h_1 server type rest stack =>
  split at taken <;> cases taken
  next available =>
    have process : ∀ q, (s.update p fun process => process.setFrames rest).process q =
        if q = p then (s.process p).setFrames rest else s.process q :=
      fun q => s.update_process p q _
    have round : ∀ q, ((s.update p fun process => process.setFrames rest).process q).round =
        (s.process q).round := by
      intro q
      rw [process]
      split
      case isTrue same => rw [same]; rfl
      case isFalse => rfl
    constructor
    next =>
      intro q frame member request inside
      rw [process] at member ⊢
      by_cases same : q = p
      · rw [if_pos same] at member ⊢
        exact inv.pending p frame (by rw [stack]; exact List.mem_cons_of_mem _ member) request inside
      · rw [if_neg same] at member ⊢
        exact inv.pending q frame member request inside
    next =>
      intro q
      have answers := inv.answers q
      obtain ⟨x, member, matched, moved⟩ := List.countP_eraseP_add
        (fun x => decide (x.dest = q)) _ s.responses available
      have dest : x.dest = p := (of_decide_eq_true matched).1
      rw [process]
      simp only [dest, decide_eq_true_eq] at moved
      by_cases same : q = p
      · subst same
        rw [stack] at answers
        simp only [if_true, waits_cons, asks_cons, Frame.waits, Frame.asks] at answers moved ⊢
        simp only [Process.setFrames, TerminationState.update]
        omega
      · rw [if_neg (Ne.symm same)] at moved
        rw [if_neg same]
        simp only [TerminationState.update]
        omega
    next =>
      intro x left
      rw [round, round]
      exact inv.unanswered x left
    next =>
      intro x left
      rw [round]
      exact inv.responses x (List.mem_of_mem_eraseP left)

theorem TerminationState.deliver_eq {p : Rank n} {frame index : Nat}
    {handler : List (RemoveNodeStep n)} (taken : s.deliver p frame index handler = some s') :
    ∃ pending request, (s.process p).frames[frame]? = some (.waitSend pending) ∧
      pending[index]? = some request ∧ (s.process request.dest).listening = true ∧
      (s.process request.dest).epoch = request.epoch ∧
      (s.update p fun process => process.setFrames (process.frames.set frame
        (.waitSend (pending.eraseIdx index)))).handle request.dest p request.tag handler =
          some s' := by
  unfold TerminationState.deliver at taken
  split at taken
  case h_2 => cases taken
  case h_1 pending stack =>
  split at taken
  case h_2 => cases taken
  case h_1 request found =>
  split at taken
  case isFalse => cases taken
  case isTrue ready => exact ⟨pending, request, stack, found, ready.1, ready.2, taken⟩

theorem received_frames {frames : List (Frame n)} {frame index : Nat}
    {pending : List (Request n)} {request : Request n}
    (stack : frames[frame]? = some (.waitSend pending)) (found : pending[index]? = some request) :
    waits (frames.set frame (.waitSend (pending.eraseIdx index))) = waits frames ∧
      asks (frames.set frame (.waitSend (pending.eraseIdx index))) +
        (if request.tag.isAccess then 1 else 0) = asks frames ∧
      ∀ x ∈ frames.set frame (.waitSend (pending.eraseIdx index)), ∀ y ∈ x.pending,
        ∃ old ∈ frames, y ∈ old.pending := by
  have fewer := List.countP_eraseIdx_add (fun x : Request n => x.tag.isAccess) pending found
  refine ⟨?_, ?_, ?_⟩
  · have total := List.sum_map_set_add Frame.waits frames
      (.waitSend (pending.eraseIdx index)) stack
    simpa [waits, Frame.waits] using total
  · have total := List.sum_map_set_add Frame.asks frames
      (.waitSend (pending.eraseIdx index)) stack
    simp only [Frame.asks] at total
    unfold asks
    omega
  · intro x member y inside
    rcases List.mem_or_eq_of_mem_set member with old | new
    · exact ⟨x, old, inside⟩
    · subst new
      exact ⟨_, List.mem_of_getElem? stack, List.mem_of_mem_eraseIdx inside⟩

theorem RequestInv.deliver (inv : RequestInv s) {p : Rank n} {frame index : Nat}
    {handler : List (RemoveNodeStep n)} (taken : s.deliver p frame index handler = some s')
    (near : ∀ q, (s.process q).epoch = (s.process p).epoch → (s.process p).frames ≠ [] →
      (s.process q).round = (s.process p).round) : RequestInv s' := by
  obtain ⟨pending, request, stack, found, _, epoch, handled⟩ := TerminationState.deliver_eq taken
  obtain ⟨sameWaits, fewerAsks, kept⟩ := received_frames stack found
  have own := inv.pending p _ (List.mem_of_getElem? stack) request (List.mem_of_getElem? found)
  have process : ∀ q, (s.update p fun process => process.setFrames (process.frames.set frame
      (.waitSend (pending.eraseIdx index)))).process q = if q = p then (s.process p).setFrames
        ((s.process p).frames.set frame (.waitSend (pending.eraseIdx index))) else s.process q :=
    fun q => s.update_process p q _
  cases tag : request.tag with
  | command command =>
    rw [tag] at handled fewerAsks
    have shorter : RequestInv (s.update p fun process => process.setFrames (process.frames.set frame
        (.waitSend (pending.eraseIdx index)))) := by
      apply inv.update
      · intro x member y inside
        exact .inr (kept x member y inside)
      · simp only [Tag.isAccess, Bool.false_eq_true, if_false] at fewerAsks
        omega
    by_cases removal : command = .removeNode
    · subst removal
      cases handled
      obtain ⟨balanced, empty⟩ := handler_frames handler
      apply shorter.update
      · intro x member y inside
        rcases List.mem_append.mp member with new | old
        · rw [empty x new] at inside
          cases inside
        · exact .inr ⟨x, old, inside⟩
      · rw [waits_append, asks_append, balanced]
        omega
    · have done : (s.update p fun process => process.setFrames (process.frames.set frame
          (.waitSend (pending.eraseIdx index)))) = s' := by
        cases command <;> simp only [TerminationState.handle] at handled
        case removeNode => exact absurd rfl removal
        all_goals
          split at handled
          case isTrue => exact Option.some.inj handled
          case isFalse => cases handled
      exact done ▸ shorter
  | access type =>
    rw [tag] at handled fewerAsks
    simp only [TerminationState.handle] at handled
    split at handled
    case isFalse => cases handled
    cases handled
    have round : ∀ q, ((s.update p fun process => process.setFrames (process.frames.set frame
        (.waitSend (pending.eraseIdx index)))).process q).round = (s.process q).round := by
      intro q
      rw [process]
      split
      case isTrue same => rw [same]; rfl
      case isFalse => rfl
    constructor
    next =>
      intro q x member y inside
      rw [process] at member ⊢
      by_cases same : q = p
      · rw [if_pos same] at member ⊢
        obtain ⟨old, before, inside⟩ := kept x member y inside
        exact inv.pending p old before y inside
      · rw [if_neg same] at member ⊢
        exact inv.pending q x member y inside
    next =>
      intro q
      have answers := inv.answers q
      rw [process]
      simp only [List.countP_append, List.countP_singleton, TerminationState.update,
        decide_eq_true_eq]
      simp only [Tag.isAccess, if_true] at fewerAsks
      by_cases same : q = p
      · subst same
        simp only [if_true, Process.setFrames]
        omega
      · rw [if_neg same, if_neg (Ne.symm same)]
        omega
    next =>
      intro x member
      rw [round, round]
      rcases List.mem_append.mp member with old | new
      · exact inv.unanswered x old
      · rw [List.mem_singleton.mp new]
        refine near request.dest (epoch.trans own.2) fun empty => ?_
        rw [empty] at stack
        cases stack
    next =>
      intro x member
      rw [round]
      exact inv.responses x member

-- Steps of the termination algorithm: only processes with nothing in flight change round.
theorem RequestInv.ring (inv : RequestInv s) (unanswered : s'.unanswered = s.unanswered)
    (responses : s'.responses = s.responses)
    (frames : ∀ p, (s'.process p).frames = (s.process p).frames)
    (still : ∀ p, (s'.process p).round ≠ (s.process p).round ∨
        (s'.process p).epoch ≠ (s.process p).epoch → (s.process p).frames = [] ∧
      ∀ x ∈ s.unanswered, x.server ≠ p) : RequestInv s' := by
  have round : ∀ p, (s.process p).frames ≠ [] → (s'.process p).round = (s.process p).round ∧
      (s'.process p).epoch = (s.process p).epoch := by
    intro p busy
    by_contra changed
    exact busy (still p (not_and_or.mp changed)).1
  have busy : ∀ p, (∃ x ∈ s.unanswered, x.dest = p) ∨ (∃ x ∈ s.responses, x.dest = p) →
      (s.process p).frames ≠ [] := by
    intro p inflight empty
    rcases inflight with ⟨x, member, same⟩ | ⟨x, member, same⟩
    · exact (inv.idle empty).1 x member same
    · exact (inv.idle empty).2 x member same
  constructor
  next =>
    intro p frame member request inside
    rw [frames] at member
    rw [(round p (List.ne_nil_of_mem member)).1, (round p (List.ne_nil_of_mem member)).2]
    exact inv.pending p frame member request inside
  next =>
    intro p
    rw [frames, unanswered, responses]
    exact inv.answers p
  next =>
    intro x member
    rw [unanswered] at member
    have server : (s'.process x.server).round = (s.process x.server).round := by
      by_contra changed
      exact (still x.server (.inl changed)).2 x member rfl
    rw [server, (round x.dest (busy _ (.inl ⟨x, member, rfl⟩))).1]
    exact inv.unanswered x member
  next =>
    intro x member
    rw [responses] at member
    rw [(round x.dest (busy _ (.inr ⟨x, member, rfl⟩))).1]
    exact inv.responses x member

end

end Fpmas.Synchro.Hard
