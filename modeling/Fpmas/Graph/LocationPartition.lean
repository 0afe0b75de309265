import Fpmas.Graph.GraphRuns

set_option autoImplicit false

namespace Fpmas.Graph

variable {n : Nat} {T W : Type}

/-- The maps of the location manager share the nodes of the graph, by state and object by object. -/
structure Partitioned (s : AddressedGraph n T W) : Prop where
  stored : ∀ id, (∃ node, s.graph.getNode id = some node) ↔
    ∃ address, s.objects.nodes.lookup id = some address
  union : ∀ id address, s.objects.nodes.lookup id = some address ↔
    s.objects.localNodes.lookup id = some address ∨ s.objects.distantNodes.lookup id = some address
  disjoint : ∀ id, id ∈ s.objects.localNodes → id ∉ s.objects.distantNodes
  localState : ∀ id node, s.graph.getNode id = some node →
    (id ∈ s.objects.localNodes ↔ node.state = .LOCAL)
  distantState : ∀ id node, s.graph.getNode id = some node →
    (id ∈ s.objects.distantNodes ↔ node.state = .DISTANT)

namespace AddressedGraph.Valid

variable {p : Fin n} {nodes edges : Id n → Prop} {s : AddressedGraph n T W}

theorem partitioned (valid : Valid p nodes edges s) : Partitioned s := by
  have locals := valid.follow.localNodes
  have distants := valid.follow.distantNodes
  refine ⟨fun id => ?_, fun id address => ?_, fun id => ?_, fun id node at_ => ?_, fun id node at_ => ?_⟩
  · exact valid.inGraph id
  · rw [locals, distants]
    cases state : s.graph.view.state id with
    | none => simp [(valid.follow.nodes id).mpr state]
    | some side => cases side <;> simp
  · rw [UnorderedMap.mem_iff_lookup, UnorderedMap.mem_iff_lookup, locals, distants]
    rintro ⟨_, first⟩ ⟨_, second⟩
    rw [Option.ite_none_right_eq_some] at first second
    cases first.1.symm.trans second.1
  · obtain ⟨state, address, found⟩ := valid.stored at_
    rw [UnorderedMap.mem_iff_lookup, locals, state, found]
    cases node.state <;> simp
  · obtain ⟨state, address, found⟩ := valid.stored at_
    rw [UnorderedMap.mem_iff_lookup, distants, state, found]
    cases node.state <;> simp

end AddressedGraph.Valid

/-- Through every sequence of calls, the local and the distant nodes of a process partition its
nodes. -/
theorem location_partition [One W] {light : T → T} {s : Fin n → AddressedGraph n T W}
    (reached : (graphs n T W light).ReachableBy (fun s a => a.Genuine s) s) (p : Fin n) :
    Partitioned (s p) :=
  (reachable_kept reached p).partitioned

theorem location_partition_ghost : ∃ s, ((graphs 2 Unit Nat id).execBy (fun s a => a.Genuine s)
    AddressedGraph.empty
    [.call 0 .insertion (.buildNode ()), .call 0 .insertion (.buildNode ()),
      .call 0 .insertion (.link ⟨0, 0⟩ ⟨0, 1⟩ 0),
      .distribute (fun _ => .insertion) (fun _ => []) (fun _ => [])
        fun p => if p = 0 then AList.insert ⟨0, 1⟩ 1 ∅ else ∅] = some s ∧
      ⟨0, 1⟩ ∈ (s 0).objects.distantNodes) ∧ ∀ p, Partitioned (s p) := by
  have run : ((graphs 2 Unit Nat id).execBy (fun s a => a.Genuine s) AddressedGraph.empty
      [.call 0 .insertion (.buildNode ()), .call 0 .insertion (.buildNode ()),
        .call 0 .insertion (.link ⟨0, 0⟩ ⟨0, 1⟩ 0),
        .distribute (fun _ => .insertion) (fun _ => []) (fun _ => [])
          fun p => if p = 0 then AList.insert ⟨0, 1⟩ 1 ∅ else ∅]).map
      (fun s => decide (⟨0, 1⟩ ∈ (s 0).objects.distantNodes)) = some true := by decide
  obtain ⟨s, taken, distant⟩ := Option.map_eq_some_iff.mp run
  exact ⟨s, ⟨taken, of_decide_eq_true distant⟩,
    location_partition (TransitionSystem.ReachableBy.execBy _ (.start rfl) taken)⟩

end Fpmas.Graph
