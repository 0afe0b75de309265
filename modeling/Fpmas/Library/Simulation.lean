import Mathlib.Data.List.Forall2
import Fpmas.Library.TransitionSystem

set_option autoImplicit false

universe u v u' v'

namespace TransitionSystem

variable {σ : Type u} {α : Type v} {τ : Type u'} {β : Type v'}

/-- The runs of `S` whose steps all meet `ok`, with the state that each step is taken in. -/
inductive RunBy (S : TransitionSystem σ α) (ok : σ → α → Prop) : List (σ × α) → σ → Prop where
  | start {s : σ} : S.init s → RunBy S ok [] s
  | step {steps : List (σ × α)} {s s' : σ} {a : α} : RunBy S ok steps s → ok s a →
      S.next s a = some s' → RunBy S ok (steps ++ [(s, a)]) s'

theorem ReachableBy.runBy {S : TransitionSystem σ α} {ok : σ → α → Prop} {s : σ}
    (reached : S.ReachableBy ok s) : ∃ steps, S.RunBy ok steps s := by
  induction reached with
  | start initial => exact ⟨[], .start initial⟩
  | step _ guard taken ih =>
    obtain ⟨steps, run⟩ := ih
    exact ⟨_, .step run guard taken⟩

/-- Each step of `C` that meets `ok` is a step of `A`, which `shows` tells from what `C` does. -/
structure Simulation (C : TransitionSystem σ α) (ok : σ → α → Prop) (A : TransitionSystem τ β)
    (shows : σ → α → β → Prop) (R : τ → σ → Prop) : Prop where
  start : ∀ s, C.init s → ∃ a, A.init a ∧ R a s
  step : ∀ a s action s', R a s → ok s action → C.next s action = some s' →
    ∃ event a', shows s action event ∧ A.next a event = some a' ∧ R a' s'

theorem exec_concat {S : TransitionSystem σ α} {s m s' : σ} {actions : List α} {a : α}
    (reached : S.exec s actions = some m) (taken : S.next m a = some s') :
    S.exec s (actions ++ [a]) = some s' := by
  induction actions generalizing s with
  | nil =>
    cases reached
    show (S.next _ a).bind _ = _
    rw [taken]
    rfl
  | cons first rest ih =>
    obtain ⟨next, step, later⟩ := Option.bind_eq_some_iff.mp reached
    show (S.next s first).bind _ = _
    rw [step]
    exact ih later

theorem Simulation.run {C : TransitionSystem σ α} {ok : σ → α → Prop} {A : TransitionSystem τ β}
    {shows : σ → α → β → Prop} {R : τ → σ → Prop} (simulation : Simulation C ok A shows R)
    {steps : List (σ × α)} {s : σ} (run : C.RunBy ok steps s) :
    ∃ initial events a, A.init initial ∧
      List.Forall₂ (fun step event => shows step.1 step.2 event) steps events ∧
      A.exec initial events = some a ∧ R a s := by
  induction run with
  | start initial =>
    obtain ⟨a, initial', related⟩ := simulation.start _ initial
    exact ⟨a, [], a, initial', .nil, rfl, related⟩
  | @step steps s s' action _ guard taken ih =>
    obtain ⟨initial, events, a, initial', shown, reached, related⟩ := ih
    obtain ⟨event, a', shows', taken', related'⟩ := simulation.step a s action s' related guard taken
    exact ⟨initial, events ++ [event], a', initial', List.rel_append shown (.cons shows' .nil),
      exec_concat reached taken', related'⟩

end TransitionSystem
