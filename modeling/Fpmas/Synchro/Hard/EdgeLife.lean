import Mathlib.Logic.Basic

set_option autoImplicit false

namespace Fpmas.Synchro.Hard

/-- One edge, as the processes have it. `near` are the processes that own one of its nodes. -/
@[ext]
structure EdgeLife (P : Type) where
  near : P → Prop
  -- Whether a process has called `unlink` on it.
  removed : Prop
  present : P → Prop
  -- The processes that are in `link`, or in `unlink`.
  linking : P → Prop
  unlinking : P → Prop
  -- The processes that have linked it without owning any of its nodes.
  ghost : P → Prop
  -- The LINK requests, or the UNLINK requests, of the first process that the second one has not received.
  asks : P → P → Prop
  tells : P → P → Prop

namespace EdgeLife

variable {P : Type} {e e' : EdgeLife P}

/-- An edge that is not removed reaches the processes that own one of its nodes, and each of them is told
when it is. -/
structure Ok (e : EdgeLife P) : Prop where
  kept : ∀ q, ¬ e.removed → e.near q → (∃ p, e.asks p q) ∨ e.present q
  gone : ∀ q, e.removed → e.near q → e.present q ∨ (∃ p, e.asks p q) → e.unlinking q ∨ ∃ p, e.tells p q
  told : ∀ p q, e.tells p q → e.removed ∧ e.near q ∧ e.unlinking p
  asked : ∀ p q, e.asks p q → e.near q ∧ ¬ e.present q ∧ e.linking p
  linker : ∀ p q, e.linking p → e.linking q → p = q
  linking : ∀ q, e.linking q → e.present q
  unlinking : ∀ q, e.unlinking q → e.removed ∧ e.present q ∧ e.near q ∧ ¬ e.linking q
  ghost : ∀ q, e.ghost q → e.present q ∧ ¬ e.near q ∧ ¬ e.linking q
  held : ∀ q, e.present q → e.near q ∨ e.ghost q ∨ e.linking q

/-- What a step of the processes does to one edge. -/
inductive Step (e : EdgeLife P) : EdgeLife P → Prop
  | imported (p q : P) (asked : e.asks p q) : Step e { e with
      asks := fun r r' => e.asks r r' ∧ ¬ (r = p ∧ r' = q)
      present := fun r => e.present r ∨ r = q }
  | linked (p : P) (linking : e.linking p) (last : ∀ q, ¬ e.asks p q) : Step e { e with
      linking := fun r => e.linking r ∧ r ≠ p
      ghost := fun r => e.ghost r ∨ r = p ∧ ¬ e.near p }
  | unlink (p : P) (present : e.present p) (ours : ¬ e.ghost p) (idle : ¬ e.linking p ∧ ¬ e.unlinking p) :
      Step e { e with
        removed := True
        unlinking := fun r => e.unlinking r ∨ r = p
        tells := fun r r' => e.tells r r' ∨ r = p ∧ e.near r' ∧ r' ≠ p }
  -- Both nodes are LOCAL: nobody else has to be told.
  | unlinkLocal (p : P) (present : e.present p) (alone : ∀ r, e.near r ↔ r = p)
      (idle : ¬ e.linking p ∧ ¬ e.unlinking p) : Step e { e with
        removed := True
        present := fun r => e.present r ∧ r ≠ p }
  | unlinked (p : P) (unlinking : e.unlinking p) (last : ∀ q, ¬ e.tells p q) : Step e { e with
      present := fun r => e.present r ∧ r ≠ p
      unlinking := fun r => e.unlinking r ∧ r ≠ p }
  | ignored (q : P) (tells : P → P → Prop) (fewer : ∀ r r', tells r r' → e.tells r r')
      (same : ∀ r r', e.tells r r' → r' ≠ q → tells r r') (answered : e.unlinking q) :
      Step e { e with tells }
  | erased (q : P) (tells : P → P → Prop) (fewer : ∀ r r', tells r r' → e.tells r r')
      (same : ∀ r r', e.tells r r' → r' ≠ q → tells r r') (told : ∃ p, e.tells p q)
      (arrived : ∀ p, ¬ e.asks p q) (free : ¬ e.linking q ∧ ¬ e.unlinking q) : Step e { e with
        tells
        present := fun r => e.present r ∧ r ≠ q }
  | swept (p : P) (idle : ¬ e.linking p ∧ ¬ e.unlinking p) : Step e { e with
      present := fun r => e.present r ∧ ¬ (r = p ∧ e.ghost p)
      ghost := fun r => e.ghost r ∧ r ≠ p }

theorem Ok.step (ok : e.Ok) (step : Step e e') : e'.Ok := by
  obtain ⟨kept, gone, told, asked, linker, linking, unlinking, ghost, held⟩ := ok
  cases step with
  | imported p q asks =>
    constructor
    case gone =>
      intro r removed near reached
      by_cases here : r = q
      next =>
        subst here
        exact gone r removed near (.inr ⟨p, asks⟩)
      next => exact gone r removed near (by grind)
    all_goals grind
  | linked p waits last => constructor <;> grind
  | unlink p present ours idle => constructor <;> grind
  | unlinkLocal p present alone idle => constructor <;> grind
  | unlinked p leaves last => constructor <;> grind
  | ignored q tells fewer same answered => constructor <;> grind
  | erased q tells fewer same asks arrived free => constructor <;> grind
  | swept p idle => constructor <;> grind

-- When nobody is in any call, and the edges of nobody are swept, the edge is where its nodes are.
theorem Ok.settled (ok : e.Ok) (linked : ∀ p, ¬ e.linking p) (free : ∀ p, ¬ e.unlinking p)
    (swept : ∀ p, ¬ e.ghost p) (q : P) : e.present q ↔ e.near q ∧ ¬ e.removed := by
  constructor
  · intro present
    have near := (ok.held q present).resolve_right (not_or.mpr ⟨swept q, linked q⟩)
    refine ⟨near, fun removed => ?_⟩
    rcases ok.gone q removed near (.inl present) with here | ⟨p, tells⟩
    next => exact free q here
    next => exact free p (ok.told p q tells).2.2
  · rintro ⟨near, stays⟩
    refine (ok.kept q stays near).resolve_left ?_
    rintro ⟨p, asks⟩
    exact linked p (ok.asked p q asks).2.2

end EdgeLife

end Fpmas.Synchro.Hard
