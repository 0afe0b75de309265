import Fpmas.Graph.ImportRefinement

set_option autoImplicit false

namespace Fpmas.Graph

variable {n : Nat} {T W : Type} {g h : DistributedGraph n T W}

namespace DistributedGraph

-- The same nodes, with their lists of edges, and other edges in the graph.
def withEdges (g : DistributedGraph n T W) (edges : UnorderedMap (Id n) (DistributedEdge n W)) :
    DistributedGraph n T W :=
  { g with edges }

theorem setNode_withEdges (id : Id n) (node : DistributedNode n T W)
    (edges : UnorderedMap (Id n) (DistributedEdge n W)) :
    (g.withEdges edges).setNode id node = (g.setNode id node).withEdges edges := rfl

theorem getNode_withEdges (id : Id n) (edges : UnorderedMap (Id n) (DistributedEdge n W)) :
    (g.withEdges edges).getNode id = g.getNode id := rfl

-- Nothing but the erased edge is read in the map of the edges.
theorem eraseEdge_withEdges {edges : UnorderedMap (Id n) (DistributedEdge n W)} {k : Id n}
    (same : edges.lookup k = g.getEdge k) :
    g.eraseEdge k = ((g.withEdges edges).eraseEdge k).map (·.withEdges (g.edges.erase k)) := by
  have found : (g.withEdges edges).getEdge k = g.getEdge k := same
  unfold eraseEdge
  simp only [found, getNode_withEdges, setNode_withEdges, Option.map_bind, Option.map_map,
    Function.comp_def]
  rfl

theorem importEnd_withEdges [One W] (order : HashOrder) (id : Id n) (data : T) (location : Fin n)
    (edges : UnorderedMap (Id n) (DistributedEdge n W)) :
    (g.withEdges edges).importEnd order id data location =
      (g.importEnd order id data location).map (·.withEdges edges) := by
  unfold importEnd
  rw [getNode_withEdges]
  cases at_ : g.getNode id with
  | some node => rfl
  | none =>
    let built : DistributedNode n T W := .build data 1 location
    have placed : (g.insertNode id built).getNode id = some built := by
      rw [getNode_insertNode at_, if_pos rfl]
    have placed' : ((g.withEdges edges).insertNode id built).getNode id = some built := placed
    -- A new node has no edge that would become DISTANT.
    have alone : built.getOutgoingEdges order ++ built.getIncomingEdges order = [] :=
      DistributedNode.no_edges order rfl rfl
    show ((g.withEdges edges).insertNode id built).setDistant order id =
      ((g.insertNode id built).setDistant order id).map _
    unfold setDistant
    rw [placed, placed', Option.bind_some, Option.bind_some, alone]
    rfl

theorem edges_importEnd [One W] {order : HashOrder} {id : Id n} {data : T} {location : Fin n}
    (ran : g.importEnd order id data location = some h) : h.edges = g.edges := by
  have same := importEnd_withEdges (g := g) order id data location g.edges
  rw [show g.withEdges g.edges = g from rfl, ran, Option.map_some, Option.some.injEq] at same
  rw [same]
  rfl

theorem linkOut_withEdges (id : Id n) (layer : LayerId) (k : Id n)
    (edges : UnorderedMap (Id n) (DistributedEdge n W)) :
    (g.withEdges edges).linkOut id layer k = (g.linkOut id layer k).map (·.withEdges edges) := by
  unfold linkOut
  rw [getNode_withEdges, Option.map_map]
  rfl

theorem linkIn_withEdges (id : Id n) (layer : LayerId) (k : Id n)
    (edges : UnorderedMap (Id n) (DistributedEdge n W)) :
    (g.withEdges edges).linkIn id layer k = (g.linkIn id layer k).map (·.withEdges edges) := by
  unfold linkIn
  rw [getNode_withEdges, Option.map_map]
  rfl

theorem edges_linkOut {id : Id n} {layer : LayerId} {k : Id n}
    (ran : g.linkOut id layer k = some h) : h.edges = g.edges := by
  obtain ⟨_, _, rfl⟩ := Option.map_eq_some_iff.mp ran
  rfl

theorem edges_linkIn {id : Id n} {layer : LayerId} {k : Id n}
    (ran : g.linkIn id layer k = some h) : h.edges = g.edges := by
  obtain ⟨_, _, rfl⟩ := Option.map_eq_some_iff.mp ran
  rfl

-- A new edge is imported in the same way, whatever the other edges of the graph.
theorem importEdge_withEdges [One W] {order : HashOrder} {message : EdgeMessage n T W}
    {edges : UnorderedMap (Id n) (DistributedEdge n W)} (fresh : g.getEdge message.id = none)
    (fresh' : edges.lookup message.id = none)
    (ran : (g.withEdges edges).importEdge order message = some h) :
    ∃ e, h.edges = UnorderedMap.insertNew edges message.id e ∧
      g.importEdge order message = some (h.withEdges (UnorderedMap.insertNew g.edges message.id e)) := by
  have absent : (g.withEdges edges).getEdge message.id = none := fresh'
  unfold importEdge at ran ⊢
  rw [absent] at ran
  rw [fresh]
  dsimp only at ran ⊢
  obtain ⟨_, step, ran⟩ := Option.bind_eq_some_iff.mp ran
  rw [importEnd_withEdges] at step
  obtain ⟨g₁, first, rfl⟩ := Option.map_eq_some_iff.mp step
  obtain ⟨_, step, ran⟩ := Option.bind_eq_some_iff.mp ran
  rw [linkOut_withEdges] at step
  obtain ⟨g₂, second, rfl⟩ := Option.map_eq_some_iff.mp step
  obtain ⟨_, step, ran⟩ := Option.bind_eq_some_iff.mp ran
  rw [importEnd_withEdges] at step
  obtain ⟨g₃, third, rfl⟩ := Option.map_eq_some_iff.mp step
  obtain ⟨_, step, ran⟩ := Option.bind_eq_some_iff.mp ran
  rw [linkIn_withEdges] at step
  obtain ⟨g₄, fourth, rfl⟩ := Option.map_eq_some_iff.mp step
  obtain ⟨both, state, rfl⟩ := Option.map_eq_some_iff.mp ran
  have kept : g₄.edges = g.edges :=
    (edges_linkIn fourth).trans ((edges_importEnd third).trans ((edges_linkOut second).trans
      (edges_importEnd first)))
  refine ⟨_, rfl, ?_⟩
  rw [first, Option.bind_some, second, Option.bind_some, third, Option.bind_some, fourth,
    Option.bind_some, show g₄.bothLocal message.source message.target = some both from state,
    Option.map_some, ← kept]
  rfl

end DistributedGraph

theorem GraphInv.withEdges (inv : GraphInv g) {edges : UnorderedMap (Id n) (DistributedEdge n W)}
    (same : ∀ k, edges.lookup k = g.getEdge k) :
    GraphInv (g.withEdges edges) ∧ (g.withEdges edges).view = g.view := by
  have edge : (g.withEdges edges).getEdge = g.getEdge := funext same
  have view : (g.withEdges edges).view = g.view := by
    unfold DistributedGraph.view
    rw [edge]
    rfl
  refine ⟨⟨?_, ?_, ?_, ?_, inv.localNodes, inv.distantNodes⟩, view⟩
  · rw [edge]
    exact inv.source
  · rw [edge]
    exact inv.target
  · rw [edge]
    exact inv.outgoing
  · rw [edge]
    exact inv.incoming

section

variable {k : Id n} {e : DistributedEdge n W}

theorem DistributedGraph.getEdge_insertEdge (half : g.getEdge k = none) (j : Id n) :
    (g.insertEdge k e).getEdge j = if j = k then some e else g.getEdge j := by
  have inserted := UnorderedMap.lookup_insertNew g.edges k j e
  rw [DistributedGraph.getEdge] at half
  rw [half, Option.getD_none] at inserted
  exact inserted

-- An edge is erased while another one, that its nodes list already, is not in the graph yet.
theorem GraphInv.eraseEdge_half (inv : GraphInv (g.insertEdge k e)) (half : g.getEdge k = none)
    {j : Id n} {other : DistributedEdge n W} (found : g.getEdge j = some other) :
    ∃ g', g.eraseEdge j = some g' ∧ g'.getEdge k = none ∧ GraphInv (g'.insertEdge k e) ∧
      (g'.insertEdge k e).view = (g.insertEdge k e).view.eraseEdge j := by
  have apart : j ≠ k := by
    rintro rfl
    cases half.symm.trans found
  have lookup := DistributedGraph.getEdge_insertEdge (e := e) half
  have found' : (g.insertEdge k e).getEdge j = some other := by rw [lookup, if_neg apart, found]
  obtain ⟨h, result, inv', view⟩ := inv.eraseEdge found'
  have erased : g.eraseEdge j = some (h.withEdges (g.edges.erase j)) := by
    have same : (UnorderedMap.insertNew g.edges k e).lookup j = g.getEdge j := found'.trans found.symm
    rw [DistributedGraph.eraseEdge_withEdges same]
    exact congrArg (Option.map _) result
  have gone : ∀ i, (h.withEdges (g.edges.erase j)).getEdge i = if i = j then none else g.getEdge i :=
    fun i => UnorderedMap.lookup_erase' _ _ _
  have half' : (h.withEdges (g.edges.erase j)).getEdge k = none := by
    rw [gone, if_neg (Ne.symm apart), half]
  have edges : ∀ i, ((h.withEdges (g.edges.erase j)).insertEdge k e).getEdge i = h.getEdge i := by
    intro i
    rw [DistributedGraph.getEdge_insertEdge half', gone]
    have after : h.getEdge i = if i = j then none else (g.insertEdge k e).getEdge i := by
      rw [← DistributedGraph.view_edge, view]
      exact Function.update_apply _ _ _ _
    rw [after, lookup]
    by_cases here : i = j
    · subst here
      simp [apart]
    · simp [here]
  obtain ⟨good, same⟩ := inv'.withEdges edges
  exact ⟨_, erased, half', good, same.trans view⟩

theorem GraphInv.importEdge_half [One W] (inv : GraphInv (g.insertEdge k e)) (half : g.getEdge k = none)
    (order : HashOrder) {message : EdgeMessage n T W} (fresh : g.getEdge message.id = none)
    (apart : message.id ≠ k) :
    ∃ g', g.importEdge order message = some g' ∧ g'.getEdge k = none ∧ GraphInv (g'.insertEdge k e) ∧
      (g'.insertEdge k e).view = (g.insertEdge k e).view.importEdge message := by
  have lookup := DistributedGraph.getEdge_insertEdge (e := e) half
  have fresh' : (g.insertEdge k e).getEdge message.id = none := by rw [lookup, if_neg apart, fresh]
  obtain ⟨h, result, inv', view⟩ := inv.importEdge order message
  obtain ⟨imported, edges, ran⟩ := DistributedGraph.importEdge_withEdges fresh fresh' result
  have gained : ∀ i, (h.withEdges (UnorderedMap.insertNew g.edges message.id imported)).getEdge i =
      if i = message.id then some imported else g.getEdge i :=
    DistributedGraph.getEdge_insertEdge fresh
  have half' : (h.withEdges (UnorderedMap.insertNew g.edges message.id imported)).getEdge k = none := by
    rw [gained, if_neg (Ne.symm apart), half]
  have same : ∀ i, ((h.withEdges (UnorderedMap.insertNew g.edges message.id imported)).insertEdge
      k e).getEdge i = h.getEdge i := by
    intro i
    rw [DistributedGraph.getEdge_insertEdge half', gained]
    have after : h.getEdge i =
        if i = message.id then some imported else (g.insertEdge k e).getEdge i := by
      rw [DistributedGraph.getEdge, edges]
      exact DistributedGraph.getEdge_insertEdge (g := g.insertEdge k e) fresh' i
    rw [after, lookup]
    by_cases here : i = k
    · subst here
      simp [Ne.symm apart]
    · simp [here]
  obtain ⟨good, same⟩ := inv'.withEdges same
  exact ⟨_, ran, half', good, same.trans view⟩

end

end Fpmas.Graph
