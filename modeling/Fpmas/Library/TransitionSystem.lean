import Mathlib.Logic.Basic

set_option autoImplicit false

universe u v

/-- A labelled transition system: every source of nondeterminism is in the label. -/
structure TransitionSystem (σ : Type u) (α : Type v) where
  init : σ → Prop
  next : σ → α → Option σ

namespace TransitionSystem

variable {σ : Type u} {α : Type v}

/-- States of the runs of `S` whose steps all meet `ok` in the state they start from. -/
inductive ReachableBy (S : TransitionSystem σ α) (ok : σ → α → Prop) : σ → Prop where
  | start {s : σ} : S.init s → ReachableBy S ok s
  | step {s s' : σ} {a : α} : ReachableBy S ok s → ok s a → S.next s a = some s' →
      ReachableBy S ok s'

def Reachable (S : TransitionSystem σ α) : σ → Prop :=
  S.ReachableBy fun _ _ => True

def exec (S : TransitionSystem σ α) : σ → List α → Option σ
  | s, [] => some s
  | s, a :: rest => (S.next s a).bind fun s' => S.exec s' rest

-- An invariant of the initial states that every step meeting `ok` keeps.
theorem ReachableBy.invariant {S : TransitionSystem σ α} {ok : σ → α → Prop} {I : σ → Prop}
    (initial : ∀ s, S.init s → I s)
    (kept : ∀ s a s', S.ReachableBy ok s → I s → ok s a → S.next s a = some s' → I s')
    {s : σ} (reached : S.ReachableBy ok s) : I s := by
  induction reached with
  | start h => exact initial _ h
  | step before guard taken ih => exact kept _ _ _ before ih guard taken

theorem ReachableBy.exec {S : TransitionSystem σ α} {ok : σ → α → Prop} {s s' : σ} (actions : List α)
    (reached : S.ReachableBy ok s) (guards : ∀ a ∈ actions, ∀ s, ok s a)
    (taken : S.exec s actions = some s') : S.ReachableBy ok s' := by
  induction actions generalizing s with
  | nil =>
    cases taken
    exact reached
  | cons a rest ih =>
    obtain ⟨middle, first, others⟩ := Option.bind_eq_some_iff.mp taken
    have guard := guards a List.mem_cons_self s
    exact ih (.step reached guard first) (fun b later => guards b (List.mem_cons_of_mem a later)) others

theorem reachable_exec {S : TransitionSystem σ α} {s s' : σ} (actions : List α)
    (reached : S.Reachable s) (taken : S.exec s actions = some s') : S.Reachable s' :=
  ReachableBy.exec actions reached (fun _ _ _ => trivial) taken

-- `exec` as long as the steps meet `ok`.
def execBy (S : TransitionSystem σ α) (ok : σ → α → Prop) [∀ s a, Decidable (ok s a)] :
    σ → List α → Option σ
  | s, [] => some s
  | s, a :: rest => if ok s a then (S.next s a).bind fun s' => S.execBy ok s' rest else none

theorem ReachableBy.execBy {S : TransitionSystem σ α} {ok : σ → α → Prop}
    [∀ s a, Decidable (ok s a)] {s s' : σ} (actions : List α) (reached : S.ReachableBy ok s)
    (taken : S.execBy ok s actions = some s') : S.ReachableBy ok s' := by
  induction actions generalizing s with
  | nil =>
    cases taken
    exact reached
  | cons a rest ih =>
    obtain ⟨guard, taken⟩ := Option.ite_none_right_eq_some.mp taken
    obtain ⟨middle, first, others⟩ := Option.bind_eq_some_iff.mp taken
    exact ih (.step reached guard first) others

end TransitionSystem

-- `step` leads from one state to the other through the labels.
inductive Leads {σ : Type u} {α : Type v} (step : σ → α → σ → Prop) : σ → List α → σ → Prop where
  | nil (s : σ) : Leads step s [] s
  | cons {s m t : σ} {a : α} {rest : List α} : step s a m → Leads step m rest t →
      Leads step s (a :: rest) t
