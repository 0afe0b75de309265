import Fpmas.Library.TransitionSystem
import Fpmas.Synchro.Ghost.Synchronize

set_option autoImplicit false

namespace Fpmas.Synchro.Ghost

open Fpmas.Graph

variable {n : Nat} {T W : Type}

-- What happens next: a call of one process, or a call that all of them make.
inductive GhostAction (n : Nat) (T W : Type) where
  | call (made : GhostCall n T W)
  | synchronize (order : Fin n → HashOrder)
  | distribute (order : Fin n → HashOrder) (partition : Fin n → PartitionMap n)
  | balance (order : Fin n → HashOrder)
      (loadBalancing : (Fin n → DistributedGraph n T W) → Fin n → PartitionMap n)

namespace GhostAction

def next [One W] (light : T → T) (s : GhostSystem n T W) :
    GhostAction n T W → Option (GhostSystem n T W)
  | call made => s.call made
  | synchronize order => s.synchronize light order
  | distribute order partition => s.distribute light order partition
  | balance order loadBalancing => s.balance light order loadBalancing

def Synchronizes : GhostAction n T W → Prop
  | call _ => False
  | synchronize _ => True
  | distribute _ _ => True
  | balance _ _ => True

/-- The synchronizing calls that leave nothing behind of the nodes that have been removed, and that
move no DISTANT node. -/
def Keeps [One W] (light : T → T) (s : GhostSystem n T W) : GhostAction n T W → Prop
  | call _ => True
  | synchronize _ => RemovedOnce s ∧ NoCrossing s
  | distribute order partition => (RemovedOnce s ∧ Forgotten s) ∧
    ∀ s', s.commitLinks light order = some s' → KeepsDistant (fun p => (s' p).view) partition
  | balance order loadBalancing => (RemovedOnce s ∧ Forgotten s) ∧
    ∀ s', s.commitLinks light order = some s' →
      KeepsDistant (fun p => (s' p).view) (loadBalancing s'.graphs)

/-- Runs without removals, in which each process only moves nodes that are LOCAL on it. -/
def Lasting (s : GhostSystem n T W) : GhostAction n T W → Prop
  | call made => ¬ made.Removes
  | synchronize _ => True
  | distribute _ partition => ∀ p id, id ∈ partition p → (s p).view.IsLocal id
  | balance _ loadBalancing =>
    ∀ graphs p id, id ∈ loadBalancing graphs p → ¬ (graphs p).view.IsDistant id

end GhostAction

def ghost (n : Nat) (T W : Type) [One W] (light : T → T) :
    TransitionSystem (GhostSystem n T W) (GhostAction n T W) where
  init s := s = .empty
  next s action := action.next light s

theorem synchronized_empty : Synchronized (.empty : GlobalGraph n T W) (.empty) := by
  have noCore : ∀ p id, ((GhostSystem.empty : GhostSystem n T W) p).view.core id = none :=
    fun _ _ => rfl
  refine ⟨graphInv_empty, ⟨⟨fun _ => rfl, ?_, ?_, ?_, ?_, ?_, fun _ => rfl, fun _ => rfl, ?_, ?_⟩, ?_⟩,
    fun _ => rfl, ?_⟩
  · intro id node inside
    cases inside
  · intro p id core found
    cases (noCore p id).symm.trans found
  · intro k edge inside
    cases inside
  · intro id node inside
    cases inside
  · intro p id fresh
    exact absurd fresh (AList.notMem_empty id)
  · intro id node inside
    cases inside
  · intro k edge inside
    cases inside
  · exact fun _ _ => rfl
  · intro p id core found
    cases (noCore p id).symm.trans found

section

variable [One W] {light : T → T} {G : GlobalGraph n T W} {s t : GhostSystem n T W}

theorem Period.next (period : Period G s) {action : GhostAction n T W}
    (keeps : action.Keeps light s) (taken : action.next light s = some t) :
    ∃ G', Period G' t ∧ (action.Synchronizes → Synchronized G' t) := by
  cases action with
  | call made => exact ⟨_, period.call taken, False.elim⟩
  | synchronize order =>
    obtain ⟨t', result, synced⟩ := period.synchronize light order keeps.1 keeps.2
    cases taken.symm.trans result
    exact ⟨_, synced.period, fun _ => synced⟩
  | distribute order partition =>
    obtain ⟨_, t', _, result, synced, _⟩ := period.distribute light order keeps.1.1 keeps.1.2 keeps.2
    cases taken.symm.trans result
    exact ⟨_, synced.period, fun _ => synced⟩
  | balance order loadBalancing =>
    obtain ⟨t', graphs, result, synced⟩ :=
      period.balance light order keeps.1.1 keeps.1.2 keeps.2
    cases taken.symm.trans result
    exact ⟨_, synced.period, fun _ => synced⟩

theorem reachable_period
    (reached : (ghost n T W light).ReachableBy (fun s a => a.Keeps light s) s) : ∃ G, Period G s := by
  refine reached.invariant (I := fun s => ∃ G, Period G s) ?_ ?_
  · rintro s rfl
    exact ⟨_, synchronized_empty.period⟩
  · rintro s action t _ ⟨G, period⟩ keeps taken
    obtain ⟨G', period', _⟩ := period.next keeps taken
    exact ⟨G', period'⟩

omit [One W] in
theorem sound_of_unremoved {s : GhostSystem n T W}
    (unremoved : ∀ p, (s p).linker.localNodesToRemove = []) :
    RemovedOnce s ∧ NoCrossing s ∧ Forgotten s := by
  have nothing : ∀ p id, id ∉ (s p).linker.localNodesToRemove := by
    intro p id member
    rw [unremoved] at member
    cases member
  refine ⟨⟨fun p => ?_, fun p q id member => absurd member (nothing p id)⟩,
    fun e x y p _ _ _ member => absurd member (nothing p x),
    fun p id removed => removed.elim fun q member => absurd member (nothing q id)⟩
  rw [unremoved]
  exact List.nodup_nil

end

end Fpmas.Synchro.Ghost
