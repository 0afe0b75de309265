import Mathlib.Algebra.Group.Fin.Basic
import Fpmas.Synchro.Hard.TerminationRequests

set_option autoImplicit false

namespace Fpmas.Synchro.Hard

variable {n : Nat}

def Epoch.of (round : Nat) : Epoch :=
  if round % 2 = 0 then .even else .odd

theorem Epoch.of_succ (round : Nat) : Epoch.of (round + 1) = (Epoch.of round).toggle := by
  unfold Epoch.of
  by_cases parity : round % 2 = 0
  · rw [if_pos parity, if_neg (by omega)]
    rfl
  · rw [if_neg parity, if_pos (by omega)]
    rfl

theorem Epoch.of_ne_succ (round : Nat) : Epoch.of (round + 1) ≠ Epoch.of round := by
  rw [Epoch.of_succ]
  cases Epoch.of round <;> simp [Epoch.toggle]

/-- Where the token of the current epoch is: it has left all the ranks above its destination. -/
inductive Wave (s : TerminationState n) : Prop where
  | running (terminating : (s.process 0).terminating = false) (tokens : s.tokens = [])
      (passed : ∀ p, (s.process p).round = (s.process 0).round → (s.process p).passed = false)
  | travelling (first : (s.process 0).passed = true) (t : Rank n)
      (tokens : s.tokens = [{ source := t + 1, dest := t, epoch := Epoch.of (s.process 0).round,
                              color := .white }])
      (above : ∀ p, t < p →
        (s.process p).round = (s.process 0).round ∧ (s.process p).passed = true)
      (below : ∀ p, p ≠ 0 → p ≤ t → (s.process p).round = (s.process 0).round →
        (s.process p).passed = false)

structure RingInv (s : TerminationState n) : Prop where
  epoch : ∀ p, (s.process p).epoch = Epoch.of (s.process p).round
  -- `color` is initially WHITE, and no statement of the code ever sets it to BLACK.
  white : ∀ p, (s.process p).color = .white
  -- Rank 0 may still handle a request once it has sent the token: it has to take it back itself.
  passed : ∀ p, (s.process p).passed = true →
    (s.process p).terminating = true ∧ (p ≠ 0 → (s.process p).frames = [])
  rounds : ∀ p, (s.process p).round = (s.process 0).round ∨
    (s.process p).round + 1 = (s.process 0).round ∧ (s.process p).passed = true
  ends : ∀ p, s.ends.countP (·.dest = p) =
    if (s.process p).round = (s.process 0).round then 0 else 1
  wave : Wave s

section

variable {s s' : TerminationState n}

theorem RingInv.other {p : Rank n} (behind : (s.process p).round + 1 = (s.process 0).round) : p ≠ 0 := by
  rintro rfl
  omega

-- Two processes of one epoch are in the same round as soon as one of them is active.
theorem RingInv.near (inv : RingInv s) {p : Rank n} (q : Rank n)
    (epoch : (s.process q).epoch = (s.process p).epoch) (active : (s.process p).frames ≠ []) :
    (s.process q).round = (s.process p).round := by
  have current : (s.process p).round = (s.process 0).round := by
    rcases inv.rounds p with same | ⟨behind, passed⟩
    · exact same
    · exact absurd ((inv.passed p passed).2 (RingInv.other behind)) active
  rcases inv.rounds q with same | ⟨behind, _⟩
  · exact same.trans current.symm
  · rw [inv.epoch, inv.epoch, current, ← behind] at epoch
    exact absurd epoch.symm (Epoch.of_ne_succ _)

theorem Wave.congr (wave : Wave s) (process : s'.process = s.process)
    (tokens : s'.tokens = s.tokens) : Wave s' := by
  cases wave with
  | running running none idle =>
    exact .running (by rwa [process]) (by rwa [tokens]) (by rwa [process])
  | travelling started t single above below =>
    exact .travelling (by rwa [process]) t (by rwa [process, tokens]) (by rwa [process])
      (by rwa [process])

theorem RingInv.frames (inv : RingInv s)
    (ring : ∀ p, s'.process p = (s.process p).setFrames (s'.process p).frames)
    (tokens : s'.tokens = s.tokens) (ends : s'.ends = s.ends)
    (idle : ∀ p, (s.process p).passed = true → p ≠ 0 → (s'.process p).frames = []) : RingInv s' := by
  have same : ∀ p, (s'.process p).epoch = (s.process p).epoch ∧
      (s'.process p).color = (s.process p).color ∧ (s'.process p).round = (s.process p).round ∧
      (s'.process p).passed = (s.process p).passed ∧
      (s'.process p).terminating = (s.process p).terminating := by
    intro p
    rw [ring p]
    exact ⟨rfl, rfl, rfl, rfl, rfl⟩
  have epoch := fun p => (same p).1
  have color := fun p => (same p).2.1
  have round := fun p => (same p).2.2.1
  have passed := fun p => (same p).2.2.2.1
  have terminating := fun p => (same p).2.2.2.2
  constructor
  case epoch => simpa only [epoch, round] using inv.epoch
  case white => simpa only [color] using inv.white
  case passed =>
    intro p before
    rw [passed] at before
    exact ⟨(terminating p).trans (inv.passed p before).1, idle p before⟩
  case rounds => simpa only [round, passed] using inv.rounds
  case ends => simpa only [round, ends] using inv.ends
  case wave =>
    cases inv.wave with
    | running running none idle =>
      exact .running ((terminating 0).trans running) (tokens.trans none)
        (by simpa only [round, passed] using idle)
    | travelling started t single above below =>
      exact .travelling ((passed 0).trans started) t (by simpa only [round, tokens] using single)
        (by simpa only [round, passed] using above) (by simpa only [round, passed] using below)

def TerminationState.delivered (s : TerminationState n) (p : Rank n) (frame index : Nat) :
    Option (Request n) :=
  match (s.process p).frames[frame]? with
  | some (.waitSend pending) => pending[index]?
  | _ => none

/-- Holds of the steps that leave idle the processes, other than rank 0, that the token has left. -/
def Quiet (s : TerminationState n) : TerminationAction n → Prop
  | .deliver p frame index handler => handler = [] ∨
      ∀ request ∈ s.delivered p frame index, request.dest.val = 0 ∨ (s.process request.dest).passed = false
  | _ => True

theorem RingInv.update (inv : RingInv s) {p : Rank n} {frames : List (Frame n)}
    (idle : (s.process p).passed = true → p ≠ 0 → frames = []) :
    RingInv (s.update p fun process => process.setFrames frames) := by
  apply inv.frames
  case ring =>
    intro q
    rw [TerminationState.update_process]
    split
    case isTrue same => rw [same]; rfl
    case isFalse => rfl
  case tokens => rfl
  case ends => rfl
  case idle =>
    intro q passed other
    rw [TerminationState.update_process]
    split
    case isTrue same => exact idle (same ▸ passed) (same ▸ other)
    case isFalse => exact (inv.passed q passed).2 other

theorem RingInv.active (inv : RingInv s) {p : Rank n} {frame : Frame n} {rest : List (Frame n)}
    (stack : (s.process p).frames = frame :: rest) (other : p ≠ 0) : (s.process p).passed ≠ true := by
  intro passed
  rw [(inv.passed p passed).2 other] at stack
  cases stack

theorem RingInv.call (inv : RingInv s) {p : Rank n} {operation : Operation n}
    (taken : s.call p operation = some s') : RingInv s' := by
  unfold TerminationState.call at taken
  split at taken <;> cases taken
  next idle =>
    apply inv.update
    intro passed _
    rw [(inv.passed p passed).1] at idle
    cases idle.1

theorem RingInv.issend (inv : RingInv s) {p : Rank n} (taken : s.issend p = some s') :
    RingInv s' := by
  unfold TerminationState.issend at taken
  split at taken <;> cases taken
  next requests rest stack =>
    exact inv.update fun passed other => absurd passed (inv.active stack other)

theorem RingInv.sent (inv : RingInv s) {p : Rank n} (taken : s.sent p = some s') :
    RingInv s' := by
  unfold TerminationState.sent at taken
  split at taken <;> cases taken
  next rest stack =>
    exact inv.update fun passed other => absurd passed (inv.active stack other)

theorem RingInv.granted (inv : RingInv s) {p : Rank n} (taken : s.granted p = some s') :
    RingInv s' := by
  unfold TerminationState.granted at taken
  split at taken <;> cases taken
  next rest stack =>
    exact inv.update fun passed other => absurd passed (inv.active stack other)

theorem RingInv.respond (inv : RingInv s) {index : Nat} (taken : s.respond index = some s') :
    RingInv s' := by
  obtain ⟨request, _, rfl⟩ := Option.map_eq_some_iff.mp taken
  exact { inv with wave := inv.wave.congr rfl rfl }

theorem RingInv.receive (inv : RingInv s) {p : Rank n} (taken : s.receive p = some s') :
    RingInv s' := by
  unfold TerminationState.receive at taken
  split at taken
  case h_2 => cases taken
  case h_1 server type rest stack =>
  split at taken <;> cases taken
  have popped : RingInv (s.update p fun process => process.setFrames rest) :=
    inv.update fun passed other => absurd passed (inv.active stack other)
  exact { popped with wave := popped.wave.congr rfl rfl }

theorem RingInv.deliver (inv : RingInv s) {p : Rank n} {frame index : Nat}
    {handler : List (RemoveNodeStep n)} (quiet : Quiet s (.deliver p frame index handler))
    (taken : s.deliver p frame index handler = some s') : RingInv s' := by
  obtain ⟨pending, request, stack, found, _, _, handled⟩ := TerminationState.deliver_eq taken
  have sender : p ≠ 0 → (s.process p).passed ≠ true := by
    intro other passed
    rw [(inv.passed p passed).2 other] at stack
    cases stack
  have shorter : RingInv (s.update p fun process => process.setFrames
      ((s.process p).frames.set frame (.waitSend (pending.eraseIdx index)))) :=
    inv.update fun passed other => absurd passed (sender other)
  have handling : handler = [] ∨ request.dest = 0 ∨ (s.process request.dest).passed = false := by
    rw [← Fin.val_eq_zero_iff]
    refine quiet.imp_right fun idle => idle request ?_
    rw [TerminationState.delivered, stack]
    exact found
  cases tag : request.tag with
  | access type =>
    rw [tag] at handled
    simp only [TerminationState.handle] at handled
    split at handled <;> cases handled
    exact { shorter with wave := shorter.wave.congr rfl rfl }
  | command command =>
    rw [tag] at handled
    cases command <;> simp only [TerminationState.handle] at handled
    case removeNode =>
      cases handled
      apply shorter.update
      intro passed notFirst
      rw [TerminationState.update_process] at passed ⊢
      split at passed
      case isTrue here => exact absurd passed (sender (here ▸ notFirst))
      case isFalse other =>
        rw [if_neg other]
        rcases handling with none | first | idle
        · rw [none]
          exact (inv.passed _ passed).2 notFirst
        · exact absurd first notFirst
        · rw [idle] at passed
          cases passed
    all_goals
      split at handled <;> cases handled
      exact shorter

-- Rank 0 sends the token when it enters.
theorem RingInv.start (inv : RingInv s) (empty : (s.process 0).frames = [])
    (running : (s.process 0).passed ≠ true) :
    RingInv ((s.update 0 fun process =>
      { process with terminating := true, color := .white, passed := true }).sendToken 0
        (Fin.last n) .white) := by
  have process : ∀ q, (s.update 0 fun process =>
      { process with terminating := true, color := .white, passed := true }).process q =
        if q = 0 then { s.process 0 with terminating := true, color := .white, passed := true }
        else s.process q := fun q => s.update_process 0 q _
  have round : ∀ q, ((s.update 0 fun process =>
      { process with terminating := true, color := .white, passed := true }).process q).round =
        (s.process q).round := by
    intro q
    rw [process]
    split
    case isTrue same => rw [same]
    case isFalse => rfl
  constructor <;> simp only [TerminationState.sendToken, round]
  case epoch =>
    intro q
    rw [process]
    split
    case isTrue same => exact same ▸ inv.epoch 0
    case isFalse => exact inv.epoch q
  case white =>
    intro q
    rw [process]
    split
    case isTrue => rfl
    case isFalse => exact inv.white q
  case passed =>
    intro q passed
    rw [process] at passed ⊢
    split at passed
    case isTrue same =>
      rw [if_pos same]
      exact ⟨rfl, fun _ => empty⟩
    case isFalse other =>
      rw [if_neg other]
      exact inv.passed q passed
  case rounds =>
    intro q
    rcases inv.rounds q with same | ⟨behind, passed⟩
    · exact .inl same
    · refine .inr ⟨behind, ?_⟩
      rw [process]
      split
      case isTrue => rfl
      case isFalse => exact passed
  case ends => exact inv.ends
  case wave =>
    cases inv.wave with
    | running _ none fresh =>
      refine .travelling (by simp [process]) (Fin.last n) ?_ (fun q above => absurd above
        (Fin.not_lt.mpr (Fin.le_last q))) ?_
      · have epoch : ((s.update 0 fun process => { process with
            terminating := true, color := .white, passed := true }).process 0).epoch =
              Epoch.of (s.process 0).round := by
          rw [process, if_pos rfl]
          exact inv.epoch 0
        simp only [epoch, round]
        simp [none, TerminationState.update]
      · intro q other _ same
        simp only [round] at same
        simp only [process, if_neg other]
        exact fresh q same
    | travelling passed => exact absurd passed running

-- Another process waits for it.
theorem RingInv.join (inv : RingInv s) {p : Rank n} (other : p ≠ 0)
    (empty : (s.process p).frames = []) :
    RingInv (s.update p fun process => { process with terminating := true }) := by
  have process : ∀ q, (s.update p fun process => { process with terminating := true }).process q =
      if q = p then { s.process p with terminating := true } else s.process q :=
    fun q => s.update_process p q _
  have same : ∀ q,
      ((s.update p fun process => { process with terminating := true }).process q).epoch =
        (s.process q).epoch ∧
      ((s.update p fun process => { process with terminating := true }).process q).color =
        (s.process q).color ∧
      ((s.update p fun process => { process with terminating := true }).process q).round =
        (s.process q).round ∧
      ((s.update p fun process => { process with terminating := true }).process q).passed =
        (s.process q).passed := by
    intro q
    rw [process]
    split
    case isTrue here => subst here; exact ⟨rfl, rfl, rfl, rfl⟩
    case isFalse => exact ⟨rfl, rfl, rfl, rfl⟩
  have first : (s.update p fun process => { process with terminating := true }).process 0 =
      s.process 0 := by
    rw [process, if_neg (Ne.symm other)]
  have round := fun q => (same q).2.2.1
  have flag := fun q => (same q).2.2.2
  constructor
  case epoch => simpa only [round, same] using inv.epoch
  case white => simpa only [same] using inv.white
  case passed =>
    intro q passed
    rw [flag] at passed
    rw [process]
    split
    case isTrue here => exact ⟨rfl, fun _ => empty⟩
    case isFalse => exact inv.passed q passed
  case rounds => simpa only [round, flag] using inv.rounds
  case ends => simpa only [round, TerminationState.update_ends] using inv.ends
  case wave =>
    cases inv.wave with
    | running running none idle =>
      exact .running (by rwa [first]) none (by simpa only [round, flag] using idle)
    | travelling started t single above below =>
      exact .travelling (by rwa [first]) t
        (by simpa only [round, TerminationState.update_tokens] using single)
        (by simpa only [round, flag] using above) (by simpa only [round, flag] using below)

theorem RingInv.enter (inv : RingInv s) {p : Rank n} (taken : s.enter p = some s') :
    RingInv s' := by
  unfold TerminationState.enter at taken
  split at taken
  case isFalse => cases taken
  case isTrue idle =>
  have empty : (s.process p).frames = [] := List.isEmpty_iff.mp idle.2
  have running : (s.process p).passed ≠ true := by
    intro passed
    rw [(inv.passed p passed).1] at idle
    cases idle.1
  split at taken <;> cases taken
  case isTrue first =>
    subst first
    exact inv.start empty running
  case isFalse other => exact inv.join other empty

theorem RingInv.token_found (inv : RingInv s) {p : Rank n} {token : Token n}
    (found : s.tokens.find? (s.tokenFor p) = some token) :
    (s.process p).round = (s.process 0).round ∧ (s.process 0).passed = true ∧
      token.color = .white ∧ s.tokens.eraseP (s.tokenFor p) = [] ∧
      (∀ q, p < q → (s.process q).round = (s.process 0).round ∧ (s.process q).passed = true) ∧
      ∀ q, q ≠ 0 → q ≤ p → (s.process q).round = (s.process 0).round →
        (s.process q).passed = false := by
  cases inv.wave with
  | running _ none =>
    rw [none] at found
    cases found
  | travelling passed t single above below =>
    rw [single, List.find?_singleton] at found
    split at found
    case isFalse => cases found
    case isTrue matched =>
      cases found
      obtain ⟨_, dest, epoch⟩ := of_decide_eq_true matched
      have dest : t = p := dest
      subst dest
      refine ⟨?_, passed, rfl, by simp [single, matched], above, below⟩
      rcases inv.rounds t with same | ⟨behind, _⟩
      · exact same
      · rw [inv.epoch, ← behind] at epoch
        exact absurd epoch (Epoch.of_ne_succ _)

theorem RingInv.token_back (inv : RingInv s) {token : Token n}
    (found : s.tokens.find? (s.tokenFor 0) = some token) (q : Rank n) :
    (s.process q).round = (s.process 0).round ∧ (s.process q).passed = true := by
  obtain ⟨_, passed, _, _, above, _⟩ := inv.token_found found
  by_cases first : q = 0
  · subst first
    exact ⟨rfl, passed⟩
  · exact above q (Fin.pos_iff_ne_zero.mpr first)

theorem TerminationState.token_eq {p : Rank n} (taken : s.token p = some s') :
    (s.process p).terminating = true ∧ (s.process p).frames = [] ∧
      ∃ token, s.tokens.find? (s.tokenFor p) = some token := by
  unfold TerminationState.token at taken
  split at taken
  case isFalse => cases taken
  case isTrue looping =>
    obtain ⟨terminating, empty⟩ := Bool.and_eq_true_iff.mp looping
    obtain ⟨token, found, _⟩ := Option.map_eq_some_iff.mp taken
    exact ⟨terminating, List.isEmpty_iff.mp empty, token, found⟩

-- `color` being WHITE, the token only stops at rank 0 to end the epoch.
theorem RingInv.token_effect (inv : RingInv s) {p : Rank n} (taken : s.token p = some s') :
    (p = 0 ∧ s' = { s.update 0 Process.toggleEpoch with
      tokens := []
      ends := s.ends ++ ((List.finRange (n + 1)).filter (· ≠ 0)).map fun i =>
        { dest := i, epoch := (s.process 0).epoch } }) ∨
    (p ≠ 0 ∧ s' = { s.update p fun process => { process with color := .white, passed := true } with
      tokens := [{ source := p, dest := p - 1, epoch := (s.process p).epoch, color := .white }] }) := by
  obtain ⟨terminating, empty, token, found⟩ := TerminationState.token_eq taken
  obtain ⟨_, _, color, rest, _⟩ := inv.token_found found
  have looping : (s.process p).looping = true := by
    simp [Process.looping, terminating, empty]
  simp only [TerminationState.token, looping, if_true, found, Option.map_some, rest, color,
    inv.white, and_self, reduceCtorEq, if_false, Option.some.injEq] at taken
  by_cases first : p = 0
  · subst first
    left
    rw [if_pos rfl] at taken
    exact ⟨rfl, taken ▸ rfl⟩
  · right
    rw [if_neg first] at taken
    refine ⟨first, taken ▸ ?_⟩
    have epoch : ((TerminationState.update { s with tokens := [] } p fun process =>
        { process with color := .white, passed := true }).process p).epoch =
          (s.process p).epoch := by
      rw [TerminationState.update_process, if_pos rfl]
    simp only [TerminationState.sendToken, epoch]
    simp [TerminationState.update]

-- Rank 0 has the token back: it ends the epoch.
theorem RingInv.endEpoch (inv : RingInv s)
    (back : ∀ q, (s.process q).round = (s.process 0).round ∧ (s.process q).passed = true) :
    RingInv { s.update 0 Process.toggleEpoch with
      tokens := []
      ends := s.ends ++ ((List.finRange (n + 1)).filter (· ≠ 0)).map fun i =>
        { dest := i, epoch := (s.process 0).epoch } } := by
  have process : ∀ q, (s.update 0 Process.toggleEpoch).process q =
      if q = 0 then (s.process 0).toggleEpoch else s.process q :=
    fun q => s.update_process 0 q _
  have round : ∀ q, ((s.update 0 Process.toggleEpoch).process q).round =
      if q = 0 then (s.process 0).round + 1 else (s.process 0).round := by
    intro q
    rw [process]
    split
    case isTrue => rfl
    case isFalse => exact (back q).1
  constructor <;> simp only [round, if_true]
  case epoch =>
    intro q
    rw [process]
    split
    case isTrue =>
      rw [Epoch.of_succ, ← inv.epoch]
      rfl
    case isFalse =>
      rw [inv.epoch, (back q).1]
  case white =>
    intro q
    rw [process]
    split
    case isTrue => exact inv.white 0
    case isFalse => exact inv.white q
  case passed =>
    intro q passed
    rw [process] at passed ⊢
    split at passed
    case isTrue => cases passed
    case isFalse other =>
      rw [if_neg other]
      exact inv.passed q passed
  case rounds =>
    intro q
    by_cases same : q = 0
    · exact .inl (if_pos same)
    · right
      rw [if_neg same, process, if_neg same]
      exact ⟨rfl, (back q).2⟩
  case ends =>
    intro q
    have before := inv.ends q
    rw [if_pos (back q).1] at before
    rw [List.countP_append, before, List.countP_map, Nat.zero_add]
    have same : ((fun x : End n => decide (x.dest = q)) ∘ fun i =>
        ({ dest := i, epoch := (s.process 0).epoch } : End n)) = fun i => i == q := by
      funext i
      rfl
    rw [same, ← List.count_eq_countP']
    by_cases root : q = 0
    · rw [if_pos root, if_pos rfl, List.count_eq_zero]
      simp [root]
    · rw [if_neg root, if_neg (by omega)]
      apply List.count_eq_one_of_mem
      · exact (List.nodup_finRange _).filter _
      · simp [root]
  case wave =>
    refine .running (by simp [process, Process.toggleEpoch]) rfl fun q same => ?_
    simp only [round] at same
    by_cases root : q = 0
    · simp [process, root, Process.toggleEpoch]
    · simp [root] at same

-- Another process sends the token on.
theorem RingInv.pass (inv : RingInv s) {p : Rank n} (other : p ≠ 0)
    (terminating : (s.process p).terminating = true) (empty : (s.process p).frames = [])
    {token : Token n} (found : s.tokens.find? (s.tokenFor p) = some token) :
    RingInv { s.update p fun process => { process with color := .white, passed := true } with
      tokens := [{ source := p, dest := p - 1, epoch := (s.process p).epoch, color := .white }] } := by
  obtain ⟨current, started, _, _, above, below⟩ := inv.token_found found
  have process : ∀ q, (s.update p fun process =>
      { process with color := .white, passed := true }).process q =
        if q = p then { s.process p with color := .white, passed := true } else s.process q :=
    fun q => s.update_process p q _
  have same : ∀ q, ((s.update p fun process =>
        { process with color := .white, passed := true }).process q).round =
          (s.process q).round ∧
      ((s.update p fun process => { process with color := .white, passed := true }).process q).epoch =
          (s.process q).epoch := by
    intro q
    rw [process]
    split
    case isTrue here => subst here; exact ⟨rfl, rfl⟩
    case isFalse => exact ⟨rfl, rfl⟩
  have round := fun q => (same q).1
  have epoch := fun q => (same q).2
  have root : (s.update p fun process =>
      { process with color := .white, passed := true }).process 0 = s.process 0 := by
    rw [process, if_neg (Ne.symm other)]
  constructor <;> simp only [round, epoch]
  case epoch => exact inv.epoch
  case white =>
    intro q
    rw [process]
    split
    case isTrue => rfl
    case isFalse => exact inv.white q
  case passed =>
    intro q passed
    rw [process] at passed ⊢
    split at passed
    case isTrue here =>
      rw [if_pos here]
      exact ⟨terminating, fun _ => empty⟩
    case isFalse there =>
      rw [if_neg there]
      exact inv.passed q passed
  case rounds =>
    intro q
    rcases inv.rounds q with same | ⟨behind, passed⟩
    · exact .inl same
    · refine .inr ⟨behind, ?_⟩
      rw [process]
      split
      case isTrue => rfl
      case isFalse => exact passed
  case ends => exact inv.ends
  case wave =>
    have positive : 0 < p.val := Nat.pos_of_ne_zero fun zero => other (Fin.ext zero)
    have previous : (p - 1).val = p.val - 1 := by rw [Fin.coe_sub_one, if_neg other]
    refine .travelling (by rw [root]; exact started) (p - 1) ?_ ?_ ?_
    · rw [root, ← current, ← inv.epoch, sub_add_cancel]
    · intro q after
      simp only [root, round]
      rw [process]
      split
      case isTrue here => exact ⟨here ▸ current, rfl⟩
      case isFalse there =>
        apply above q
        have := Fin.val_ne_of_ne there
        rw [Fin.lt_def] at after ⊢
        omega
    · intro q notFirst before same
      simp only [root, round] at same
      rw [Fin.le_def] at before
      have there : q ≠ p := fun here => by subst here; omega
      simp only [process, if_neg there]
      exact below q notFirst (Fin.le_def.mpr (by omega)) same

theorem RingInv.token (inv : RingInv s) {p : Rank n} (taken : s.token p = some s') :
    RingInv s' := by
  obtain ⟨terminating, empty, token, found⟩ := TerminationState.token_eq taken
  rcases inv.token_effect taken with ⟨first, result⟩ | ⟨other, result⟩
  · subst first
    exact result ▸ inv.endEpoch (inv.token_back found)
  · exact result ▸ inv.pass other terminating empty found

theorem RingInv.end_found (inv : RingInv s) {p : Rank n} (found : s.ends.any (s.endFor p) = true) :
    (s.process p).round + 1 = (s.process 0).round ∧ (s.process p).passed = true ∧
      ∀ q, (s.ends.eraseP (s.endFor p)).countP (·.dest = q) + (if q = p then 1 else 0) =
        s.ends.countP (·.dest = q) := by
  have moved : ∀ q, (s.ends.eraseP (s.endFor p)).countP (·.dest = q) + (if q = p then 1 else 0) =
      s.ends.countP (·.dest = q) := by
    intro q
    obtain ⟨x, _, matched, count⟩ := List.countP_eraseP_add (fun x => decide (x.dest = q)) _
      s.ends found
    have dest : x.dest = p := (of_decide_eq_true matched).1
    rw [← count]
    simp only [dest, decide_eq_true_eq, eq_comm (a := q)]
  have count := moved p
  rw [if_pos rfl, inv.ends p] at count
  rcases inv.rounds p with same | behind
  · rw [if_pos same] at count
    omega
  · exact ⟨behind.1, behind.2, moved⟩

theorem RingInv.finish (inv : RingInv s) {p : Rank n} (taken : s.finish p = some s') :
    RingInv s' := by
  unfold TerminationState.finish at taken
  split at taken
  case isFalse => cases taken
  case isTrue ready =>
  cases taken
  obtain ⟨_, other, message⟩ := ready
  obtain ⟨behind, _, moved⟩ := inv.end_found message
  have process : ∀ q, (s.update p Process.toggleEpoch).process q =
      if q = p then (s.process p).toggleEpoch else s.process q :=
    fun q => s.update_process p q _
  have root : (s.update p Process.toggleEpoch).process 0 = s.process 0 := by
    rw [process, if_neg (Ne.symm other)]
  have round : ∀ q, ((s.update p Process.toggleEpoch).process q).round =
      if q = p then (s.process 0).round else (s.process q).round := by
    intro q
    rw [process]
    split
    case isTrue => exact behind
    case isFalse => rfl
  constructor
  case epoch =>
    intro q
    rw [process]
    split
    case isTrue =>
      change (s.process p).epoch.toggle = Epoch.of ((s.process p).round + 1)
      rw [Epoch.of_succ, ← inv.epoch]
    case isFalse => exact inv.epoch q
  case white =>
    intro q
    rw [process]
    split
    case isTrue => exact inv.white p
    case isFalse => exact inv.white q
  case passed =>
    intro q passed
    rw [process] at passed ⊢
    split at passed
    case isTrue => cases passed
    case isFalse there =>
      rw [if_neg there]
      exact inv.passed q passed
  case rounds =>
    intro q
    simp only [root, process]
    split
    case isTrue => exact .inl behind
    case isFalse => exact inv.rounds q
  case ends =>
    intro q
    have count := moved q
    rw [inv.ends q] at count
    simp only [root, round]
    by_cases here : q = p
    · subst here
      rw [if_pos rfl, if_neg (by omega)] at count
      rw [if_pos rfl, if_pos rfl]
      omega
    · rw [if_neg here, Nat.add_zero] at count
      rw [if_neg here]
      exact count
  case wave =>
    have fresh : ∀ q, ((s.process q).round = (s.process 0).round → (s.process q).passed = false) →
        ((s.update p Process.toggleEpoch).process q).round = (s.process 0).round →
          ((s.update p Process.toggleEpoch).process q).passed = false := by
      intro q before same
      rw [process] at same ⊢
      split at same
      case isTrue here => rw [if_pos here]; rfl
      case isFalse there => rw [if_neg there]; exact before same
    cases inv.wave with
    | running running none idle =>
      refine .running ?_ none ?_
      · rw [root]
        exact running
      · rw [root]
        exact fun q => fresh q (idle q)
    | travelling started t single above below =>
      refine .travelling (by rwa [root]) t (by rw [root]; exact single) ?_ ?_
      · rw [root]
        intro q after
        have there : q ≠ p := by
          intro here
          subst here
          have := (above q after).1
          omega
        rw [process, if_neg there]
        exact above q after
      · rw [root]
        exact fun q notFirst before => fresh q (below q notFirst before)

/-- Nothing of round `k` is left, and every process has entered `terminate` for it. -/
structure Terminated (s : TerminationState n) (k : Nat) : Prop where
  entered : ∀ q, k < (s.process q).round ∨
    ((s.process q).round = k ∧ (s.process q).terminating = true)
  requests : ∀ q, ∀ frame ∈ (s.process q).frames, ∀ request ∈ frame.pending, request.round ≠ k
  unanswered : ∀ x ∈ s.unanswered, (s.process x.dest).round ≠ k
  responses : ∀ x ∈ s.responses, x.round ≠ k
  handling : ∀ q, (s.process q).round = k → (s.process q).frames = []

structure TerminationInv (s : TerminationState n) : Prop where
  requests : RequestInv s
  ring : RingInv s

-- What is in flight in a round belongs to a process with a non empty call stack.
theorem TerminationInv.terminated (inv : TerminationInv s) {k : Nat}
    (entered : ∀ q, k < (s.process q).round ∨
      ((s.process q).round = k ∧ (s.process q).passed = true))
    (first : (s.process 0).round = k → (s.process 0).frames = []) : Terminated s k := by
  have idle : ∀ q, (s.process q).round = k → (s.process q).frames = [] := by
    intro q same
    rcases entered q with later | ⟨_, passed⟩
    · omega
    · by_cases root : q = 0
      · subst root
        exact first same
      · exact (inv.ring.passed q passed).2 root
  constructor
  case entered =>
    intro q
    rcases entered q with later | ⟨same, passed⟩
    · exact .inl later
    · exact .inr ⟨same, (inv.ring.passed q passed).1⟩
  case requests =>
    intro q frame member request inside old
    have round := (inv.requests.pending q frame member request inside).1
    rw [idle q (round.symm.trans old)] at member
    cases member
  case unanswered =>
    intro x member old
    exact (inv.requests.idle (idle x.dest old)).1 x member rfl
  case responses =>
    intro x member old
    have round := inv.requests.responses x member
    exact (inv.requests.idle (idle x.dest (round.symm.trans old))).2 x member rfl
  case handling => exact idle

theorem TerminationInv.returns (inv : TerminationInv s) {a : TerminationAction n} {p : Rank n}
    (taken : s.next a = some s') (toggled : (s'.process p).epoch ≠ (s.process p).epoch) :
    Terminated s (s.process p).round := by
  have same : ∀ q frames, ((s.update q fun process => process.setFrames frames).process p).epoch =
      (s.process p).epoch := by
    intro q frames
    rw [TerminationState.update_process]
    split
    case isTrue here => rw [here]; rfl
    case isFalse => rfl
  cases a with
  | token q =>
    obtain ⟨_, empty, token, found⟩ := TerminationState.token_eq taken
    rcases inv.ring.token_effect taken with ⟨first, result⟩ | ⟨other, result⟩ <;> subst result
    · subst first
      have back := inv.ring.token_back found
      refine inv.terminated (fun r => ?_) fun _ => empty
      exact .inr ⟨(back r).1.trans (back p).1.symm, (back r).2⟩
    · simp only [TerminationState.update_process] at toggled
      split at toggled
      case isTrue here => exact absurd (here ▸ rfl) toggled
      case isFalse => exact absurd rfl toggled
  | finish q =>
    simp only [TerminationState.next, TerminationState.finish] at taken
    split at taken
    case isFalse => cases taken
    case isTrue ready =>
      cases taken
      obtain ⟨behind, passed, _⟩ := inv.ring.end_found ready.2.2
      simp only [TerminationState.update_process] at toggled
      split at toggled
      case isFalse => exact absurd rfl toggled
      case isTrue here =>
        subst here
        refine inv.terminated (fun r => ?_) fun same => by omega
        rcases inv.ring.rounds r with current | ⟨old, passed⟩
        · left
          omega
        · exact .inr ⟨by omega, passed⟩
  | call q operation =>
    simp only [TerminationState.next, TerminationState.call] at taken
    split at taken <;> cases taken
    exact absurd (same q _) toggled
  | issend q =>
    simp only [TerminationState.next, TerminationState.issend] at taken
    split at taken <;> cases taken
    exact absurd (same q _) toggled
  | sent q =>
    simp only [TerminationState.next, TerminationState.sent] at taken
    split at taken <;> cases taken
    exact absurd (same q _) toggled
  | granted q =>
    simp only [TerminationState.next, TerminationState.granted] at taken
    split at taken <;> cases taken
    exact absurd (same q _) toggled
  | respond index =>
    obtain ⟨_, _, rfl⟩ := Option.map_eq_some_iff.mp taken
    exact absurd rfl toggled
  | receive q =>
    simp only [TerminationState.next, TerminationState.receive] at taken
    split at taken
    case h_2 => cases taken
    case h_1 =>
      split at taken <;> cases taken
      exact absurd (same q _) toggled
  | enter q =>
    simp only [TerminationState.next, TerminationState.enter] at taken
    split at taken
    case isFalse => cases taken
    case isTrue =>
      split at taken <;> cases taken
      all_goals
        simp only [TerminationState.sendToken, TerminationState.update_process] at toggled
        split at toggled
        case isTrue here => exact absurd (here ▸ rfl) toggled
        case isFalse => exact absurd rfl toggled
  | deliver q frame index handler =>
    obtain ⟨pending, request, _, _, _, _, handled⟩ := TerminationState.deliver_eq taken
    have first : ∀ r, ((s.update q fun process => process.setFrames (process.frames.set frame
        (.waitSend (pending.eraseIdx index)))).process r).epoch = (s.process r).epoch := by
      intro r
      rw [TerminationState.update_process]
      split
      case isTrue here => rw [here]; rfl
      case isFalse => rfl
    apply absurd _ toggled
    rw [← first p]
    cases tag : request.tag with
    | access type =>
      rw [tag] at handled
      simp only [TerminationState.handle] at handled
      split at handled <;> cases handled
      rfl
    | command command =>
      rw [tag] at handled
      cases command <;> simp only [TerminationState.handle] at handled
      case removeNode =>
        cases handled
        rw [TerminationState.update_process]
        split
        case isTrue here => rw [here]; rfl
        case isFalse => rfl
      all_goals
        split at handled <;> cases handled
        rfl

theorem TerminationInv.step (inv : TerminationInv s) {a : TerminationAction n}
    (quiet : Quiet s a) (taken : s.next a = some s') : TerminationInv s' := by
  obtain ⟨requests, ring⟩ := inv
  cases a with
  | call p operation => exact ⟨requests.call taken, ring.call taken⟩
  | issend p => exact ⟨requests.issend taken, ring.issend taken⟩
  | sent p => exact ⟨requests.sent taken, ring.sent taken⟩
  | granted p => exact ⟨requests.granted taken, ring.granted taken⟩
  | respond index => exact ⟨requests.respond taken, ring.respond taken⟩
  | receive p => exact ⟨requests.receive taken, ring.receive taken⟩
  | deliver p frame index handler =>
    exact ⟨requests.deliver taken ring.near, ring.deliver quiet taken⟩
  | enter p =>
    refine ⟨?_, ring.enter taken⟩
    simp only [TerminationState.next, TerminationState.enter] at taken
    split at taken
    case isFalse => cases taken
    case isTrue =>
    split at taken <;> cases taken
    all_goals
      apply requests.ring
      · rfl
      · rfl
      · intro q
        simp only [TerminationState.sendToken, TerminationState.update_process]
        split
        case isTrue here => rw [here]
        case isFalse => rfl
      · intro q changed
        simp only [TerminationState.sendToken, TerminationState.update_process] at changed
        split at changed
        case isTrue here => subst here; simp at changed
        case isFalse => simp at changed
  | token p =>
    have kept := ring.token taken
    refine ⟨?_, kept⟩
    obtain ⟨_, empty, token, found⟩ := TerminationState.token_eq taken
    rcases ring.token_effect taken with ⟨first, result⟩ | ⟨other, result⟩ <;> subst result
    · subst first
      have idle : ∀ q, (s.process q).frames = [] := by
        intro q
        by_cases root : q = 0
        · exact root ▸ empty
        · exact (ring.passed q (ring.token_back found q).2).2 root
      apply requests.ring
      · rfl
      · rfl
      · intro q
        simp only [TerminationState.update_process]
        split
        case isTrue here => rw [here]; rfl
        case isFalse => rfl
      · intro q _
        refine ⟨idle q, fun x member => ?_⟩
        exact absurd rfl ((requests.idle (idle x.dest)).1 x member)
    · apply requests.ring
      · rfl
      · rfl
      · intro q
        simp only [TerminationState.update_process]
        split
        case isTrue here => rw [here]
        case isFalse => rfl
      · intro q changed
        simp only [TerminationState.update_process] at changed
        split at changed
        case isTrue here => subst here; simp at changed
        case isFalse => simp at changed
  | finish p =>
    refine ⟨?_, ring.finish taken⟩
    simp only [TerminationState.next, TerminationState.finish] at taken
    split at taken
    case isFalse => cases taken
    case isTrue ready =>
    cases taken
    obtain ⟨behind, passed, _⟩ := ring.end_found ready.2.2
    apply requests.ring
    · rfl
    · rfl
    · intro q
      simp only [TerminationState.update_process]
      split
      case isTrue here => rw [here]; rfl
      case isFalse => rfl
    · intro q changed
      simp only [TerminationState.update_process] at changed
      split at changed
      case isFalse => simp at changed
      case isTrue here =>
        subst here
        refine ⟨(ring.passed q passed).2 (RingInv.other behind), fun x member server => ?_⟩
        have same := requests.unanswered x member
        rw [server] at same
        rcases ring.rounds x.dest with current | ⟨last, idle⟩
        · omega
        · exact (requests.idle ((ring.passed x.dest idle).2 (RingInv.other last))).1 x member rfl

theorem termination_invariant (reached : (termination n).ReachableBy Quiet s) :
    TerminationInv s := by
  refine reached.invariant ?_ fun s a s' _ inv quiet taken => inv.step quiet taken
  rintro s rfl
  refine ⟨⟨?_, ?_, ?_, ?_⟩, ⟨fun _ => rfl, fun _ => rfl, ?_, fun _ => .inl rfl, fun _ => rfl,
    .running rfl rfl fun _ _ => rfl⟩⟩
  all_goals simp [TerminationState.start]

-- Without `Quiet` the colors, always WHITE, do not tell rank 0 that a process has become active
-- again after the token has left it.
theorem termination_safe (reached : (termination n).ReachableBy Quiet s) :
    ∀ a s' p, (termination n).next s a = some s' →
      (s'.process p).epoch ≠ (s.process p).epoch → Terminated s (s.process p).round :=
  fun _ _ _ taken toggled => (termination_invariant reached).returns taken toggled

-- Process `p` asks process `q`, which has already passed the token, to remove a node that has an edge
-- with a node of process `o`.
def prematureRun (o p q : Rank n) : List (TerminationAction n) :=
  [.enter o, .enter q, .token q,
    .call p (.access q .lockShared), .issend p, .deliver p 0 0 [], .respond 0, .sent p, .receive p,
    .call p (.sends [(q, .removeNode)]), .issend p, .deliver p 0 0 [.unlink [o]], .issend q,
    .sent p, .call p (.sends [(q, .unlockShared)]), .issend p, .deliver p 0 0 [], .sent p,
    .enter p, .token p]

theorem termination_unsafe : ¬ ∀ s : TerminationState 2, (termination 2).Reachable s →
    ∀ a s' p, (termination 2).next s a = some s' →
      (s'.process p).epoch ≠ (s.process p).epoch → Terminated s (s.process p).round := by
  intro safe
  have active : (((termination 2).exec .start (prematureRun 0 1 2)).bind fun s =>
      (s.next (.token 0)).map fun s' => ((s'.process 0).epoch, (s.process 0).epoch,
        (s.process 0).round, (s.process 2).round, (s.process 2).frames.isEmpty)) =
          some (.odd, .even, 0, 0, false) := by
    decide
  obtain ⟨s, run, last⟩ := Option.bind_eq_some_iff.mp active
  obtain ⟨s', taken, result⟩ := Option.map_eq_some_iff.mp last
  simp only [Prod.mk.injEq] at result
  obtain ⟨after, before, round, round₂, busy⟩ := result
  have terminated := safe s (TransitionSystem.reachable_exec (prematureRun 0 1 2) (.start rfl) run)
    (.token 0) s' 0 taken (by rw [after, before]; decide)
  rw [round] at terminated
  rw [terminated.handling 2 round₂] at busy
  cases busy

instance (s : TerminationState n) (a : TerminationAction n) : Decidable (Quiet s a) :=
  match a with
  | .deliver _ _ _ _ => inferInstanceAs (Decidable (_ ∨ ∀ request ∈ _, _))
  | .call _ _ => inferInstanceAs (Decidable True)
  | .issend _ => inferInstanceAs (Decidable True)
  | .sent _ => inferInstanceAs (Decidable True)
  | .respond _ => inferInstanceAs (Decidable True)
  | .receive _ => inferInstanceAs (Decidable True)
  | .granted _ => inferInstanceAs (Decidable True)
  | .enter _ => inferInstanceAs (Decidable True)
  | .token _ => inferInstanceAs (Decidable True)
  | .finish _ => inferInstanceAs (Decidable True)

-- Process `p` asks `r`, which has sent the token, to remove a node that has an edge with a node of
-- process `o`.
def servedRun (r o p : Rank n) : List (TerminationAction n) :=
  [.enter r, .enter o,
    .call p (.access r .lockShared), .issend p, .deliver p 0 0 [], .respond 0, .sent p, .receive p,
    .call p (.sends [(r, .removeNode)]), .issend p, .deliver p 0 0 [.unlink [o]], .issend r,
    .sent p, .deliver r 0 0 [], .sent r,
    .call p (.sends [(r, .unlockShared)]), .issend p, .deliver p 0 0 [], .sent p,
    .enter p, .token o, .token p]

theorem termination_safe_served : ∃ s s' : TerminationState 2,
    (termination 2).execBy Quiet .start (servedRun 0 2 1) = some s ∧
      s.next (.token 0) = some s' ∧ (s'.process 0).epoch = .odd ∧
      Terminated s (s.process 0).round := by
  have ring : (((termination 2).execBy Quiet .start (servedRun 0 2 1)).bind fun s =>
      (s.next (.token 0)).map fun s' => ((s'.process 0).epoch, (s.process 0).epoch)) =
        some (.odd, .even) := by
    decide
  obtain ⟨s, run, last⟩ := Option.bind_eq_some_iff.mp ring
  obtain ⟨s', taken, result⟩ := Option.map_eq_some_iff.mp last
  obtain ⟨after, before⟩ := Prod.mk.inj result
  have reached := TransitionSystem.ReachableBy.execBy _ (.start rfl) run
  exact ⟨s, s', run, taken, after,
    termination_safe reached (.token 0) s' 0 taken (by rw [after, before]; decide)⟩

end

end Fpmas.Synchro.Hard
