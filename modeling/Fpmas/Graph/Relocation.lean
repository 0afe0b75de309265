import Fpmas.Graph.Redistribution

set_option autoImplicit false

namespace Fpmas.Graph

variable {n : Nat} {T W : Type} {G : GlobalGraph n T W} {partition partition' : Fin n → PartitionMap n}

/-- No process sends a node that is DISTANT on it to another process. -/
def KeepsDistant (v : Fin n → GraphView n T W) (partition : Fin n → PartitionMap n) : Prop :=
  ∀ p id q, (partition p).lookup id = some q → q ≠ p → ¬ (v p).IsDistant id

namespace GlobalGraph

-- The owner of each node has the same entry for it in both partitions.
def SameEntries (G : GlobalGraph n T W) (partition partition' : Fin n → PartitionMap n) : Prop :=
  ∀ p id, G.Owns p id → (partition p).lookup id = (partition' p).lookup id

theorem moves_congr (same : G.SameEntries partition partition') {p q : Fin n} {id : Id n} :
    G.Moves partition p id q ↔ G.Moves partition' p id q := by
  unfold Moves
  refine and_congr_right fun owned => ?_
  rw [same p id owned]

theorem distributed_congr (same : G.SameEntries partition partition') :
    G.distributed partition = G.distributed partition' := by
  have node : (G.distributed partition).node = (G.distributed partition').node := by
    funext id
    cases inside : G.node id with
    | none => simp only [distributed, inside, Option.map_none]
    | some node =>
      rw [distributed_node inside, distributed_node inside, same node.owner id ⟨node, inside, rfl⟩]
  unfold distributed at node ⊢
  rw [GlobalGraph.mk.injEq]
  exact ⟨node, rfl⟩

end GlobalGraph

namespace Relocated

variable {v v₁ v₂ : Fin n → GraphView n T W}

theorem congr (same : G.SameEntries partition partition') (relocated : Relocated G partition v v₁) :
    Relocated G partition' v v₁ := by
  obtain ⟨present, managed, rest⟩ := relocated
  simp only [GlobalGraph.moves_congr same, GlobalGraph.distributed_congr same] at present managed
  exact ⟨present, managed, rest⟩

theorem amend (relocated : Relocated G partition v v₁) {ids : Fin n → Id n → Prop}
    {change : Id n → NodeCore n T W → NodeCore n T W} :
    Relocated G partition v fun p => (v₁ p).amend (ids p) change := by
  refine ⟨fun p id => ?_, relocated.managed, fun p => ?_⟩
  · rw [← relocated.present]
    unfold GraphView.amend
    dsimp only
    split
    · cases (v₁ p).core id <;> simp
    · rfl
  · conv_lhs => rw [relocated.rest p]
    rfl

theorem core_unique {p : Fin n} {id : Id n} {node : GlobalNode n T W}
    (hosts : Hosts (G.distributed partition) v₁) (inside : (G.distributed partition).node id = some node)
    {core : NodeCore n T W} (found : (v₁ p).core id = some core)
    (data : core.data = node.data ∧ core.weight = node.weight) :
    core = { data := node.data, weight := node.weight, location := node.owner
             state := if p = node.owner then .LOCAL else .DISTANT } := by
  by_cases here : p = node.owner
  · subst here
    cases found.symm.trans (hosts.home id node inside)
    rw [if_pos rfl]
  · obtain ⟨node', inside', elsewhere⟩ := hosts.ghost p id core found
    cases inside.symm.trans inside'
    obtain ⟨state, location⟩ := elsewhere here
    rw [if_neg here, ← data.1, ← data.2, ← location, ← state]

-- The nodes that their owners send say all of what each process ends with.
theorem unique (one : Relocated G partition v v₁) (two : Relocated G partition v v₂)
    (represents₁ : Represents (G.distributed partition) v₁)
    (represents₂ : Represents (G.distributed partition) v₂)
    (data₁ : ∀ p id core, (v₁ p).core id = some core → ∃ node,
      (G.distributed partition).node id = some node ∧ core.data = node.data ∧ core.weight = node.weight)
    (data₂ : ∀ p id core, (v₂ p).core id = some core → ∃ node,
      (G.distributed partition).node id = some node ∧ core.data = node.data ∧
        core.weight = node.weight) : v₁ = v₂ := by
  funext p
  have core : (v₁ p).core = (v₂ p).core := by
    funext id
    have both := (one.present p id).trans (two.present p id).symm
    cases found₁ : (v₁ p).core id with
    | none =>
      cases found₂ : (v₂ p).core id with
      | none => rfl
      | some core =>
        obtain ⟨core', found⟩ := both.mpr ⟨core, found₂⟩
        cases found₁.symm.trans found
    | some core₁ =>
      obtain ⟨core₂, found₂⟩ := both.mp ⟨core₁, found₁⟩
      obtain ⟨node, inside, same₁⟩ := data₁ p id core₁ found₁
      obtain ⟨node', inside', same₂⟩ := data₂ p id core₂ found₂
      cases inside.symm.trans inside'
      rw [found₂, core_unique represents₁.toHosts inside found₁ same₁,
        core_unique represents₂.toHosts inside found₂ same₂]
  have edge : (v₁ p).edge = (v₂ p).edge := by
    funext k
    rw [represents₁.edges, represents₂.edges]
  have managed : (v₁ p).managed = (v₂ p).managed := congrFun (one.managed.unique two.managed) p
  rw [one.rest p, two.rest p, core, edge, managed]

end Relocated

end Fpmas.Graph
