import Fpmas.Graph.RandomLoadBalancing
import Fpmas.Graph.ZoltanHypergraph

set_option autoImplicit false

namespace Fpmas.Graph

open ScheduledLoadBalancing

variable {n : Nat} {T W : Type} [One W] {G : GlobalGraph n T W} {s : Fin n → DistributedGraph n T W}
  {lb : FixedVerticesLoadBalancing n} {epoch : List (EpochJob n)} {nodes : Fin n → NodeMap n}

theorem ScheduledLoadBalancing.KeepsDecisions.distributed (keeps : KeepsDecisions lb epoch nodes)
    (light : T → T) (order : Fin n → HashOrder) (inv : ∀ p, GraphInv (s p))
    (represents : Represents G fun p => (s p).view)
    (tasks : ∀ job ∈ epoch, ∀ p id, .nodeTask id ∈ job p → (s p).view.IsLocal id)
    (entries : ∀ p id, id ∈ balance lb epoch nodes p → (s p).view.IsLocal id) :
    ∃ g, _distribute light order (balance lb epoch nodes) s = some g ∧
      ∀ handled, handled <+: epoch → ∀ p id, id ∈ (balanceJobs lb handled).nodeMap p →
        ∀ q, (g q).view.IsLocal id ↔ q = destination (balanceJobs lb handled).fixedNodes p id := by
  have mapped : ∀ p id, id ∈ balance lb epoch nodes p → ¬ (s p).view.IsDistant id := by
    rintro p id entry ⟨core, found, distant⟩
    obtain ⟨core', found', state⟩ := entries p id entry
    cases found.symm.trans found'
    cases distant.symm.trans state
  obtain ⟨g, result, _, after⟩ := represents._distribute light order inv mapped
  refine ⟨g, result, fun handled before p id partitioned q => ?_⟩
  obtain ⟨job, member, bound⟩ := mem_nodeMap.mp partitioned
  have near := tasks job (before.subset member) p id bound
  obtain ⟨node, inside, rfl⟩ := (represents.isLocal p id).mp near
  rw [after.isLocal q id, ← keeps handled before _ _ partitioned]
  -- The owner follows the entry of the partition of its process.
  unfold GlobalGraph.Owns
  rw [GlobalGraph.distributed_node inside]
  constructor
  next =>
    rintro ⟨_, moved, rfl⟩
    cases moved
    rfl
  next =>
    rintro rfl
    exact ⟨_, rfl, rfl⟩

/-- Each node that is executed in the epoch goes to the process that is drawn for its first job. -/
theorem scheduled_random_distributes (randomRank : Nat → Fin n → Id n → Fin n)
    (draws : Nat → Fin n → HashOrder) (light : T → T) (order : Fin n → HashOrder)
    (inv : ∀ p, GraphInv (s p)) (represents : Represents G fun p => (s p).view)
    (epoch : List (EpochJob n)) (nodes : Fin n → NodeMap n)
    (tasks : ∀ job ∈ epoch, ∀ p id, .nodeTask id ∈ job p → (s p).view.IsLocal id)
    (owned : ∀ p id, id ∈ nodes p → (s p).view.IsLocal id) :
    ∃ g, _distribute light order (balance (RandomLoadBalancing randomRank draws) epoch nodes) s =
        some g ∧
      ∀ handled, handled <+: epoch → ∀ p id,
        id ∈ (balanceJobs (RandomLoadBalancing randomRank draws) handled).nodeMap p →
        ∀ q, (g q).view.IsLocal id ↔
          q = destination (balanceJobs (RandomLoadBalancing randomRank draws) handled).fixedNodes p id := by
  refine RandomLoadBalancing.keepsDecisions.distributed light order inv represents tasks ?_
  intro p id entry
  rcases RandomLoadBalancing.mem_scheduled.mp entry with given | ⟨job, member, bound⟩
  next => exact owned p id given
  next => exact tasks job member p id bound

-- The only node of a job goes from process 0 to process 1.
theorem scheduled_random_distributes_two :
    ∃ s g : Fin 2 → DistributedGraph 2 Unit Nat,
      _distribute id (fun _ => .insertion)
        (balance (RandomLoadBalancing (fun _ _ _ => 1) fun _ _ => .insertion)
          [fun p => if p = 0 then [.nodeTask ⟨0, 0⟩] else []] fun _ => ∅) s = some g ∧
      (s 0).view.IsLocal ⟨0, 0⟩ ∧ (g 1).view.IsLocal ⟨0, 0⟩ ∧ ¬ (g 0).view.IsLocal ⟨0, 0⟩ := by
  obtain ⟨G, s, synced, first, _⟩ := Zoltan.linked_on_two
  have tasks : ∀ job ∈ [fun p : Fin 2 => if p = 0 then [.nodeTask (⟨0, 0⟩ : Id 2)] else []],
      ∀ p id, EpochTask.nodeTask id ∈ job p → (s p).graph.view.IsLocal id := by
    intro job listed p id bound
    rw [List.mem_singleton] at listed
    subst listed
    dsimp only at bound
    split at bound
    next here =>
      cases List.mem_singleton.mp bound
      exact here ▸ first
    next => simp at bound
  obtain ⟨g, result, follows⟩ := scheduled_random_distributes (fun _ _ _ => 1)
    (fun _ _ => .insertion) id (fun _ => .insertion) synced.graph synced.represents
    [fun p => if p = 0 then [.nodeTask ⟨0, 0⟩] else []] (fun _ => ∅) tasks
    (fun _ _ none_ => absurd none_ (by simp))
  have goes := follows _ List.prefix_rfl 0 ⟨0, 0⟩ (by decide)
  exact ⟨_, g, result, first, (goes 1).mpr (by decide), fun here => absurd ((goes 0).mp here) (by decide)⟩

end Fpmas.Graph
