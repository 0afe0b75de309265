import Fpmas.Graph.ScheduledLoadBalancing

set_option autoImplicit false

namespace Fpmas.Graph

open ScheduledLoadBalancing

variable {n : Nat}

namespace RandomLoadBalancing

-- `balance`, on one process: `randomRank` is what the generator draws for each node.
def balance (randomRank : Id n → Fin n) (order : HashOrder) (nodes : NodeMap n)
    (fixedVertices : PartitionMap n) : PartitionMap n :=
  -- `insert` has no effect on the fixed vertices.
  (nodes.toList order).foldl
    (fun partition node => UnorderedMap.insertNew partition node.1 (randomRank node.1)) fixedVertices

theorem lookup_balance (randomRank : Id n → Fin n) (order : HashOrder) (nodes : NodeMap n)
    (fixedVertices : PartitionMap n) (id : Id n) :
    (balance randomRank order nodes fixedVertices).lookup id =
      (fixedVertices.lookup id).or (if id ∈ nodes then some (randomRank id) else none) := by
  have all : ∀ (items : List (Id n × Unit)) (partition : PartitionMap n),
      (items.foldl (fun partition node =>
        UnorderedMap.insertNew partition node.1 (randomRank node.1)) partition).lookup id =
      (partition.lookup id).or (if id ∈ items.map Prod.fst then some (randomRank id) else none) := by
    intro items
    induction items with
    | nil => simp
    | cons node rest ih =>
      intro partition
      rw [List.foldl_cons, ih, UnorderedMap.lookup_insertNew]
      by_cases here : id = node.1
      next =>
        subst here
        cases partition.lookup node.1 <;> simp
      next => simp [here]
  have listed : id ∈ (nodes.toList order).map Prod.fst ↔ id ∈ nodes := by
    simp [UnorderedMap.toList, AList.mem_keys, AList.keys, List.keys]
  unfold balance
  rw [all]
  simp only [listed]

theorem mem_balance {randomRank : Id n → Fin n} {order : HashOrder} {nodes : NodeMap n}
    {fixedVertices : PartitionMap n} {id : Id n} :
    id ∈ balance randomRank order nodes fixedVertices ↔ id ∈ fixedVertices ∨ id ∈ nodes := by
  rw [UnorderedMap.mem_iff_lookup, lookup_balance, UnorderedMap.mem_iff_lookup fixedVertices]
  by_cases inside : id ∈ nodes
  next => cases fixedVertices.lookup id <;> simp [inside]
  next => simp [inside]

end RandomLoadBalancing

/-- The balancing of all the processes, call after call. -/
def RandomLoadBalancing (randomRank : Nat → Fin n → Id n → Fin n) (order : Nat → Fin n → HashOrder) :
    FixedVerticesLoadBalancing n where
  balance call nodes fixedVertices p :=
    RandomLoadBalancing.balance (randomRank call p) (order call p) (nodes p) (fixedVertices p)

namespace RandomLoadBalancing

variable {randomRank : Nat → Fin n → Id n → Fin n} {order : Nat → Fin n → HashOrder}
  {epoch : List (EpochJob n)} {nodes : Fin n → NodeMap n} {p q : Fin n} {id : Id n}

theorem fixed_kept {call : Nat} {fixedVertices : Fin n → PartitionMap n}
    (fixed : (fixedVertices p).lookup id = some q) :
    ((RandomLoadBalancing randomRank order).balance call nodes fixedVertices p).lookup id = some q := by
  refine (lookup_balance _ _ _ _ _).trans ?_
  rw [fixed]
  rfl

theorem mem_fixedNodes : id ∈ (balanceJobs (RandomLoadBalancing randomRank order) epoch).fixedNodes p ↔
    id ∈ (balanceJobs (RandomLoadBalancing randomRank order) epoch).nodeMap p := by
  induction epoch using List.reverseRecOn with
  | nil => simp [balanceJobs]
  | append_singleton epoch job ih =>
    rw [balanceJobs_append]
    refine mem_balance.trans ?_
    rw [ih]
    exact or_iff_right_of_imp fun before => mem_foldl_addTask.mpr (.inl before)

theorem fixed_grows {handled : List (EpochJob n)} (before : handled <+: epoch)
    (fixed : ((balanceJobs (RandomLoadBalancing randomRank order) handled).fixedNodes p).lookup id =
      some q) :
    ((balanceJobs (RandomLoadBalancing randomRank order) epoch).fixedNodes p).lookup id = some q := by
  obtain ⟨rest, rfl⟩ := before
  induction rest using List.reverseRecOn with
  | nil =>
    rw [List.append_nil]
    exact fixed
  | append_singleton rest job ih =>
    rw [← List.append_assoc, balanceJobs_append, balanceJob_fixedNodes]
    exact fixed_kept ih

-- No decision is taken back: the nodes that stay on their process are fixed there too.
theorem keepsDecisions : KeepsDecisions (RandomLoadBalancing randomRank order) epoch nodes := by
  intro handled before p id partitioned
  obtain ⟨q, fixed⟩ := (UnorderedMap.mem_iff_lookup _ _).mp (mem_fixedNodes.mpr partitioned)
  have last : (ScheduledLoadBalancing.balance (RandomLoadBalancing randomRank order) epoch nodes
      p).lookup id = some q := fixed_kept (fixed_grows before fixed)
  unfold destination
  rw [last, fixed]

theorem mem_scheduled :
    id ∈ ScheduledLoadBalancing.balance (RandomLoadBalancing randomRank order) epoch nodes p ↔
      id ∈ nodes p ∨ ∃ job ∈ epoch, .nodeTask id ∈ job p := by
  refine mem_balance.trans ?_
  rw [mem_fixedNodes, mem_nodeMap]
  exact Or.comm

end RandomLoadBalancing

end Fpmas.Graph
