import Fpmas.Graph.Refinement

set_option autoImplicit false

namespace Fpmas.Graph

variable {n : Nat} {T W : Type} {g : DistributedGraph n T W}

def DistributedEdge.ends (edge : DistributedEdge n W) : LayerId × Id n × Id n :=
  (edge.layer, edge.source, edge.target)

-- Changes that leave the edge lists as they are, except that a new node has empty ones.
theorem GraphInv.recore (inv : GraphInv g) {g' : DistributedGraph n T W}
    (nodes : ∀ id node', g'.getNode id = some node' →
      (∃ node, g.getNode id = some node ∧ node'.incomingEdges = node.incomingEdges ∧
        node'.outgoingEdges = node.outgoingEdges) ∨
      g.getNode id = none ∧ node'.incomingEdges = ∅ ∧ node'.outgoingEdges = ∅)
    (kept : ∀ id node, g.getNode id = some node → ∃ node', g'.getNode id = some node')
    (edges : ∀ k, (g'.getEdge k).map (·.ends) = (g.getEdge k).map (·.ends))
    (localNodes : ∀ id, id ∈ g'.locationManager.localNodes ↔ g'.view.IsLocal id)
    (distantNodes : ∀ id, id ∈ g'.locationManager.distantNodes ↔ g'.view.IsDistant id) :
    GraphInv g' := by
  have before : ∀ {k e'}, g'.getEdge k = some e' → ∃ e, g.getEdge k = some e ∧ e.ends = e'.ends := by
    intro k e' found
    have same := edges k
    rw [found] at same
    exact Option.map_eq_some_iff.mp same.symm
  have after : ∀ {k e}, g.getEdge k = some e → ∃ e', g'.getEdge k = some e' ∧ e'.ends = e.ends := by
    intro k e found
    have same := edges k
    rw [found] at same
    exact Option.map_eq_some_iff.mp same
  have ends : ∀ {e e' : DistributedEdge n W}, e.ends = e'.ends →
      e.layer = e'.layer ∧ e.source = e'.source ∧ e.target = e'.target := by
    intro e e' same
    simpa [DistributedEdge.ends] using same
  refine ⟨?_, ?_, ?_, ?_, localNodes, distantNodes⟩
  · intro k e' found
    obtain ⟨e, found, same⟩ := before found
    obtain ⟨node, at_⟩ := inv.source k e found
    rw [← (ends same).2.1]
    exact kept _ node at_
  · intro k e' found
    obtain ⟨e, found, same⟩ := before found
    obtain ⟨node, at_⟩ := inv.target k e found
    rw [← (ends same).2.2]
    exact kept _ node at_
  · intro id node' at'
    rcases nodes id node' at' with ⟨node, at_, _, outgoing⟩ | ⟨absent, _, outgoing⟩
    · rw [outgoing]
      refine (inv.outgoing id node at_).congr fun k layer => ?_
      constructor
      · rintro ⟨e', found, source, layer⟩
        obtain ⟨e, found, same⟩ := before found
        exact ⟨e, found, (ends same).2.1.trans source, (ends same).1.trans layer⟩
      · rintro ⟨e, found, source, layer⟩
        obtain ⟨e', found, same⟩ := after found
        exact ⟨e', found, (ends same).2.1.trans source, (ends same).1.trans layer⟩
    · rw [outgoing]
      refine EdgeLists.Lists.empty fun k layer => ?_
      rintro ⟨e', found, source, _⟩
      obtain ⟨e, found, same⟩ := before found
      obtain ⟨node, at_⟩ := inv.source k e found
      rw [(ends same).2.1, source, absent] at at_
      cases at_
  · intro id node' at'
    rcases nodes id node' at' with ⟨node, at_, incoming, _⟩ | ⟨absent, incoming, _⟩
    · rw [incoming]
      refine (inv.incoming id node at_).congr fun k layer => ?_
      constructor
      · rintro ⟨e', found, target, layer⟩
        obtain ⟨e, found, same⟩ := before found
        exact ⟨e, found, (ends same).2.2.trans target, (ends same).1.trans layer⟩
      · rintro ⟨e, found, target, layer⟩
        obtain ⟨e', found, same⟩ := after found
        exact ⟨e', found, (ends same).2.2.trans target, (ends same).1.trans layer⟩
    · rw [incoming]
      refine EdgeLists.Lists.empty fun k layer => ?_
      rintro ⟨e', found, target, _⟩
      obtain ⟨e, found, same⟩ := before found
      obtain ⟨node, at_⟩ := inv.target k e found
      rw [(ends same).2.2, target, absent] at at_
      cases at_

theorem GraphInv.setEdgeState (inv : GraphInv g) {k : Id n} (state : LocationState)
    {e : DistributedEdge n W} (found : g.getEdge k = some e) :
    Refines (g.setEdgeState state k) (g.view.setEdgeState k state) := by
  unfold DistributedGraph.setEdgeState
  rw [found, Option.map_some]
  refine ⟨_, rfl, ?_, ?_⟩
  · apply inv.recore
    · exact fun id node at_ => .inl ⟨node, at_, rfl, rfl⟩
    · exact fun id node at_ => ⟨node, at_⟩
    · intro j
      show Option.map _ (AList.lookup j (g.edges.insert k _)) = _
      rw [UnorderedMap.lookup_insert']
      split
      case isTrue same =>
        subst same
        rw [found]
        rfl
      case isFalse => rfl
    · exact inv.localNodes
    · exact inv.distantNodes
  · ext1 <;> try rfl
    funext j
    show AList.lookup j (g.edges.insert k _) = Function.update g.view.edge k _ j
    rw [UnorderedMap.lookup_insert', Function.update_apply, DistributedGraph.view_edge, found]
    rfl

theorem GraphInv.setEdgeStates (inv : GraphInv g) (state : LocationState) {ids : List (Id n)}
    (present : ∀ k ∈ ids, ∃ e, g.getEdge k = some e) :
    Refines (ids.foldlM (fun g k => g.setEdgeState state k) g)
      { g.view with
        edge := fun k => (g.view.edge k).map fun e => if k ∈ ids then { e with state } else e } := by
  have same : ids.foldl (fun v k => GraphView.setEdgeState v k state) g.view =
      { g.view with
        edge := fun k => (g.view.edge k).map fun e => if k ∈ ids then { e with state } else e } := by
    generalize g.view = v
    clear present
    induction ids generalizing v with
    | nil => simp
    | cons j rest ih =>
      rw [List.foldl_cons, ih]
      ext1 <;> try rfl
      funext k
      simp only [GraphView.setEdgeState, Function.update_apply, List.mem_cons]
      by_cases first : k = j
      · subst first
        cases v.edge k <;> simp
      · simp [first]
  rw [← same]
  apply Refines.foldlM (fun v l => ∀ k ∈ l, ∃ e, v.edge k = some e)
  · intro g k rest inv present
    obtain ⟨e, found⟩ := present k List.mem_cons_self
    exact inv.setEdgeState state found
  · intro v k rest present j member
    obtain ⟨e, found⟩ := present j (List.mem_cons_of_mem k member)
    simp only [GraphView.setEdgeState, Function.update_apply]
    split
    case isTrue again =>
      rw [← again, found]
      exact ⟨_, rfl⟩
    case isFalse => exact ⟨e, found⟩
  · exact inv
  · exact present

/-- `g'` is `g` with `node` under `id`, filed in the map of its state. -/
structure Placed (g g' : DistributedGraph n T W) (id : Id n) (node : DistributedNode n T W) :
    Prop where
  nodes : ∀ other, g'.getNode other = if other = id then some node else g.getNode other
  edges : ∀ k, g'.getEdge k = g.getEdge k
  localNodes : ∀ other, other ∈ g'.locationManager.localNodes ↔
    if other = id then node.state = .LOCAL else other ∈ g.locationManager.localNodes
  distantNodes : ∀ other, other ∈ g'.locationManager.distantNodes ↔
    if other = id then node.state = .DISTANT else other ∈ g.locationManager.distantNodes

namespace Placed

variable {g' : DistributedGraph n T W} {id : Id n} {node : DistributedNode n T W}

theorem core (placed : Placed g g' id node) :
    g'.view.core = Function.update g.view.core id (some node.core) := by
  funext other
  rw [DistributedGraph.view_core, placed.nodes, Function.update_apply]
  split <;> rfl

theorem edge (placed : Placed g g' id node) : g'.view.edge = g.view.edge :=
  funext placed.edges

theorem inv (placed : Placed g g' id node) (inv : GraphInv g)
    (lists : (∃ old, g.getNode id = some old ∧ node.incomingEdges = old.incomingEdges ∧
        node.outgoingEdges = old.outgoingEdges) ∨
      g.getNode id = none ∧ node.incomingEdges = ∅ ∧ node.outgoingEdges = ∅) : GraphInv g' := by
  apply inv.recore
  · intro other found at_
    rw [placed.nodes] at at_
    split at at_
    case isTrue same =>
      cases at_
      exact same ▸ lists
    case isFalse => exact .inl ⟨found, at_, rfl, rfl⟩
  · intro other found at_
    rw [placed.nodes]
    split
    · exact ⟨node, rfl⟩
    · exact ⟨found, at_⟩
  · exact fun k => congrArg _ (placed.edges k)
  · intro other
    rw [placed.localNodes, g'.isLocal_iff, placed.nodes]
    split
    · simp
    · rw [inv.localNodes, g.isLocal_iff]
  · intro other
    rw [placed.distantNodes, g'.isDistant_iff, placed.nodes]
    split
    · simp
    · rw [inv.distantNodes, g.isDistant_iff]

end Placed

theorem LocationState.not_local {state : LocationState} : ¬ state = .LOCAL ↔ state = .DISTANT := by
  cases state <;> simp

namespace DistributedGraph

theorem getNode_insertNode {id : Id n} (absent : g.getNode id = none)
    (node : DistributedNode n T W) (other : Id n) :
    (g.insertNode id node).getNode other = if other = id then some node else g.getNode other := by
  have inserted := UnorderedMap.lookup_insertNew g.nodes id other node
  rw [DistributedGraph.getNode] at absent
  rw [absent, Option.getD_none] at inserted
  exact inserted

-- What `setLocal` does to the graph, whatever its maps say of the node before.
theorem setLocal_eq {id : Id n} {node : DistributedNode n T W} (at_ : g.getNode id = some node) :
    ∃ g', g.setLocal id = some g' ∧ Placed g g' id { node with location := g.rank, state := .LOCAL } ∧
      g'.view = { g.view with
        core := g'.view.core
        newLocal := fun other => other = id ∨ g.view.newLocal other } := by
  refine ⟨_, by rw [setLocal, at_, Option.map_some], ?_, ?_⟩
  · constructor
    · exact fun other => getNode_setNode g id other _
    · exact fun k => rfl
    · intro other
      refine (UnorderedMap.mem_insertNew _ _ _ _).trans ?_
      by_cases same : other = id <;> simp [same, setNode]
    · intro other
      refine AList.mem_erase.trans ?_
      by_cases same : other = id <;> simp [same, setNode]
  · ext1 <;> try rfl
    funext other
    exact propext (UnorderedMap.mem_insertNew _ _ _ _)

theorem setDistant_eq (order : HashOrder) {id : Id n} {node : DistributedNode n T W}
    (at_ : g.getNode id = some node) :
    ∃ g', g.setDistant order id =
        (node.getOutgoingEdges order ++ node.getIncomingEdges order).foldlM
          (fun g edge => g.setEdgeState .DISTANT edge) g' ∧
      Placed g g' id { node with state := .DISTANT } ∧ g'.view = { g.view with core := g'.view.core } := by
  let moved := g.setNode id { node with state := .DISTANT }
  refine ⟨{ moved with
    locationManager := { moved.locationManager with
      localNodes := moved.locationManager.localNodes.erase id
      distantNodes := moved.locationManager.distantNodes.insertNew id () } }, ?_, ?_, rfl⟩
  · rw [setDistant, at_, Option.bind_some]
  constructor
  · exact fun other => getNode_setNode g id other _
  · exact fun k => rfl
  · intro other
    refine AList.mem_erase.trans ?_
    by_cases same : other = id <;> simp [same, moved, setNode]
  · intro other
    refine (UnorderedMap.mem_insertNew _ _ _ _).trans ?_
    by_cases same : other = id <;> simp [same, moved, setNode]

end DistributedGraph

theorem GraphInv.setDistant (inv : GraphInv g) (order : HashOrder) {id : Id n}
    {node : DistributedNode n T W} (at_ : g.getNode id = some node) :
    Refines (g.setDistant order id) (g.view.setDistant id) := by
  obtain ⟨g', result, placed, view⟩ := DistributedGraph.setDistant_eq order at_
  have inv' : GraphInv g' := placed.inv inv (.inl ⟨node, at_, rfl, rfl⟩)
  have touching : ∀ k, k ∈ node.getOutgoingEdges order ++ node.getIncomingEdges order ↔
      ∃ e, g.getEdge k = some e ∧ e.Touches id := by
    intro k
    rw [List.mem_append, inv.mem_getOutgoingEdges order at_, inv.mem_getIncomingEdges order at_,
      ← exists_or]
    refine exists_congr fun e => ?_
    rw [← and_or_left]
    rfl
  rw [result]
  obtain ⟨g'', result', inv'', view'⟩ := inv'.setEdgeStates .DISTANT fun k member => by
    obtain ⟨e, found, _⟩ := (touching k).mp member
    exact ⟨e, (placed.edges k).trans found⟩
  refine ⟨g'', result', inv'', view'.trans ?_⟩
  rw [view]
  ext1 <;> try rfl
  case core =>
    show g'.view.core = _
    rw [placed.core]
    simp [GraphView.setDistant, DistributedGraph.view_core, at_, DistributedNode.core]
  case edge =>
    funext k
    show Option.map _ (g.getEdge k) = Option.map _ (g.getEdge k)
    cases found : g.getEdge k with
    | none => rfl
    | some e =>
      rw [Option.map_some, Option.map_some, Option.some.injEq]
      refine if_congr ?_ rfl rfl
      rw [touching, found]
      constructor
      · rintro ⟨e', same, touches⟩
        cases same
        exact touches
      · exact fun touches => ⟨e, rfl, touches⟩

theorem DistributedNode.no_edges {node : DistributedNode n T W} (order : HashOrder)
    (incoming : node.incomingEdges = ∅) (outgoing : node.outgoingEdges = ∅) :
    node.getOutgoingEdges order ++ node.getIncomingEdges order = [] := by
  unfold DistributedNode.getOutgoingEdges DistributedNode.getIncomingEdges
  rw [incoming, outgoing, List.append_eq_nil_iff]
  constructor <;>
    exact List.eq_nil_iff_forall_not_mem.mpr fun k member => by
      obtain ⟨_, inside⟩ := (UnorderedMap.mem_flatten order _ k).mp member
      cases inside

theorem GraphInv.importNode (inv : GraphInv g) (message : NodeMessage n T W) :
    Refines (g.importNode message) (g.view.importNode message) := by
  unfold DistributedGraph.importNode
  cases at_ : g.getNode message.id with
  | none =>
    let built : DistributedNode n T W := .build message.data message.weight g.rank
    obtain ⟨g', result, placed, view⟩ := DistributedGraph.setLocal_eq (g := g.insertNode message.id built)
      (by rw [DistributedGraph.getNode_insertNode at_, if_pos rfl])
    have whole : Placed g g' message.id built := by
      refine ⟨fun other => ?_, placed.edges, placed.localNodes, placed.distantNodes⟩
      rw [placed.nodes, DistributedGraph.getNode_insertNode at_]
      split <;> rfl
    refine ⟨g', result, whole.inv inv (.inr ⟨at_, rfl, rfl⟩), view.trans ?_⟩
    ext1 <;> try rfl
    exact whole.core
  | some node =>
    let updated : DistributedNode n T W :=
      { node with
        data := message.data
        weight := message.weight }
    obtain ⟨g', result, placed, view⟩ := DistributedGraph.setLocal_eq (g := g.setNode message.id updated)
      (by rw [DistributedGraph.getNode_setNode, if_pos rfl])
    have whole : Placed g g' message.id { updated with location := g.rank, state := .LOCAL } := by
      refine ⟨fun other => ?_, placed.edges, placed.localNodes, placed.distantNodes⟩
      rw [placed.nodes, DistributedGraph.getNode_setNode]
      split <;> rfl
    refine ⟨g', result, whole.inv inv (.inl ⟨node, at_, rfl, rfl⟩), view.trans ?_⟩
    ext1 <;> try rfl
    exact whole.core

-- `g'` is `g` with the edge `k`, listed by the nodes at its ends.
structure Attached (g g' : DistributedGraph n T W) (k : Id n) (e : DistributedEdge n W) : Prop where
  nodes : ∀ id, g'.getNode id = (g.getNode id).map fun node =>
    { node with
      outgoingEdges := if id = e.source then node.outgoingEdges.link e.layer k else node.outgoingEdges
      incomingEdges := if id = e.target then node.incomingEdges.link e.layer k else node.incomingEdges }
  edges : ∀ j, g'.getEdge j = if j = k then some e else g.getEdge j
  localNodes : ∀ id, id ∈ g'.locationManager.localNodes ↔ id ∈ g.locationManager.localNodes
  distantNodes : ∀ id, id ∈ g'.locationManager.distantNodes ↔ id ∈ g.locationManager.distantNodes

namespace Attached

variable {g' : DistributedGraph n T W} {k : Id n} {e : DistributedEdge n W}

theorem core (attached : Attached g g' k e) : g'.view.core = g.view.core := by
  funext id
  rw [DistributedGraph.view_core, attached.nodes, Option.map_map]
  rfl

theorem edge (attached : Attached g g' k e) :
    g'.view.edge = Function.update g.view.edge k (some e) := by
  funext j
  rw [DistributedGraph.view_edge, attached.edges, Function.update_apply]
  rfl

theorem inv (attached : Attached g g' k e) (inv : GraphInv g) (fresh : g.getEdge k = none)
    (source : ∃ node, g.getNode e.source = some node)
    (target : ∃ node, g.getNode e.target = some node) : GraphInv g' := by
  have present : ∀ id, (∃ node, g.getNode id = some node) → ∃ node, g'.getNode id = some node := by
    rintro id ⟨node, at_⟩
    exact ⟨_, by rw [attached.nodes, at_, Option.map_some]⟩
  have unlisted : ∀ {j e'}, g.getEdge j = some e' → j ≠ k := by
    rintro j e' found rfl
    cases fresh.symm.trans found
  refine ⟨?_, ?_, ?_, ?_, ?_, ?_⟩
  · intro j e' found
    rw [attached.edges] at found
    split at found
    · cases found
      exact present _ source
    · exact present _ (inv.source j e' found)
  · intro j e' found
    rw [attached.edges] at found
    split at found
    · cases found
      exact present _ target
    · exact present _ (inv.target j e' found)
  · intro id node at_
    rw [attached.nodes] at at_
    obtain ⟨old, before, rfl⟩ := Option.map_eq_some_iff.mp at_
    simp only [attached.edges]
    have lists := inv.outgoing id old before
    by_cases here : id = e.source
    · rw [if_pos here]
      refine (lists.link fun listed => listed.elim fun _ edge => unlisted edge.1 rfl).congr
        fun j layer => ?_
      by_cases same : j = k
      · subst same
        simp [fresh, here, eq_comm]
      · simp [same]
    · rw [if_neg here]
      refine lists.congr fun j layer => ?_
      by_cases same : j = k
      · subst same
        simp [fresh, Ne.symm here]
      · simp [same]
  · intro id node at_
    rw [attached.nodes] at at_
    obtain ⟨old, before, rfl⟩ := Option.map_eq_some_iff.mp at_
    simp only [attached.edges]
    have lists := inv.incoming id old before
    by_cases here : id = e.target
    · rw [if_pos here]
      refine (lists.link fun listed => listed.elim fun _ edge => unlisted edge.1 rfl).congr
        fun j layer => ?_
      by_cases same : j = k
      · subst same
        simp [fresh, here, eq_comm]
      · simp [same]
    · rw [if_neg here]
      refine lists.congr fun j layer => ?_
      by_cases same : j = k
      · subst same
        simp [fresh, Ne.symm here]
      · simp [same]
  · intro id
    rw [attached.localNodes, inv.localNodes]
    unfold GraphView.IsLocal
    rw [attached.core]
  · intro id
    rw [attached.distantNodes, inv.distantNodes]
    unfold GraphView.IsDistant
    rw [attached.core]

end Attached

namespace DistributedGraph

theorem bothLocal_eq {source target : Id n} (atSource : ∃ node, g.getNode source = some node)
    (atTarget : ∃ node, g.getNode target = some node) :
    g.bothLocal source target =
      some (decide (g.view.IsLocal source ∧ g.view.IsLocal target)) := by
  obtain ⟨first, at₁⟩ := atSource
  obtain ⟨second, at₂⟩ := atTarget
  simp [bothLocal, stateOf, at₁, at₂, isLocal_iff]

-- A new node becomes DISTANT, whatever the maps of the graph say of it.
theorem setDistant_new (order : HashOrder) {id : Id n} (absent : g.getNode id = none) (data : T)
    (weight : W) (location : Fin n) :
    ∃ g' node, (g.insertNode id (.build data weight location)).setDistant order id = some g' ∧
      Placed g g' id node ∧ node.core = { data, weight, location, state := .DISTANT } ∧
      (node.incomingEdges = ∅ ∧ node.outgoingEdges = ∅) ∧
      g'.view = { g.view with core := g'.view.core } := by
  let built : DistributedNode n T W := .build data weight location
  obtain ⟨g', result, placed, view⟩ := setDistant_eq (g := g.insertNode id built) order
    (by rw [getNode_insertNode absent, if_pos rfl])
  refine ⟨g', { built with state := .DISTANT }, ?_, ?_, rfl, ⟨rfl, rfl⟩, view⟩
  · refine result.trans ?_
    rw [DistributedNode.no_edges order rfl rfl]
    rfl
  · refine ⟨fun other => ?_, placed.edges, placed.localNodes, placed.distantNodes⟩
    rw [placed.nodes, getNode_insertNode absent]
    split <;> rfl

theorem importEnd_eq [One W] (order : HashOrder) {id : Id n} (data : T) (location : Fin n)
    (absent : g.getNode id = none) :
    ∃ g' node, g.importEnd order id data location = some g' ∧ Placed g g' id node ∧
      node.core = { data, weight := 1, location, state := .DISTANT } ∧
      (node.incomingEdges = ∅ ∧ node.outgoingEdges = ∅) ∧
      g'.view = { g.view with core := g'.view.core } := by
  obtain ⟨g', node, result, placed⟩ := setDistant_new order absent data 1 location
  refine ⟨g', node, ?_, placed⟩
  unfold importEnd
  rw [absent]
  exact result

end DistributedGraph

theorem GraphInv.importEnd [One W] (inv : GraphInv g) (order : HashOrder) (id : Id n) (data : T)
    (location : Fin n) :
    Refines (g.importEnd order id data location) (g.view.importEnd id data location) := by
  cases at_ : g.getNode id with
  | some node =>
    have stays : g.view.importEnd id data location = g.view := by
      simp [GraphView.importEnd, DistributedGraph.view_core, at_]
    rw [stays]
    unfold DistributedGraph.importEnd
    rw [at_]
    exact Refines.some inv
  | none =>
    obtain ⟨g', node, result, placed, core, empty, view⟩ :=
      DistributedGraph.importEnd_eq order data location at_
    refine ⟨g', result, placed.inv inv (.inr ⟨at_, empty.1, empty.2⟩), view.trans ?_⟩
    rw [placed.core, core]
    simp [GraphView.importEnd, DistributedGraph.view_core, at_]

-- `g'` is `g` with an edge that only its source lists.
structure HalfAttached (g g' : DistributedGraph n T W) (k source : Id n) (layer : LayerId) : Prop where
  nodes : ∀ id, g'.getNode id = (g.getNode id).map fun node =>
    if id = source then node.linkOut layer k else node
  edges : ∀ j, g'.getEdge j = g.getEdge j
  localNodes : ∀ id, id ∈ g'.locationManager.localNodes ↔ id ∈ g.locationManager.localNodes
  distantNodes : ∀ id, id ∈ g'.locationManager.distantNodes ↔ id ∈ g.locationManager.distantNodes

namespace DistributedGraph

theorem linkOut_eq {source k : Id n} (layer : LayerId) (present : ∃ node, g.getNode source = some node) :
    ∃ g', g.linkOut source layer k = some g' ∧ HalfAttached g g' k source layer ∧
      g'.view = { g.view with core := g'.view.core } := by
  obtain ⟨node, at_⟩ := present
  refine ⟨g.setNode source (node.linkOut layer k), ?_, ?_, rfl⟩
  · rw [linkOut, at_, Option.map_some]
  · refine ⟨fun id => ?_, fun j => rfl, fun id => .rfl, fun id => .rfl⟩
    rw [getNode_setNode]
    by_cases here : id = source
    · rw [here, at_]
      simp
    · simp [here]

-- `link` and `importEdge` end in the same way.
theorem attach {g₃ h : DistributedGraph n T W} {k source target : Id n} {layer : LayerId}
    (half : HalfAttached h g₃ k source layer) (fresh : h.getEdge k = none)
    (atSource : ∃ node, h.getNode source = some node)
    (atTarget : ∃ node, h.getNode target = some node) :
    ∃ g₄, g₃.linkIn target layer k = some g₄ ∧
      g₄.bothLocal source target = some (decide (h.view.IsLocal source ∧ h.view.IsLocal target)) ∧
      ∀ weight state, let e := { layer, weight, source, target, state }
        Attached h (g₄.insertEdge k e) k e ∧
        (g₄.insertEdge k e).view =
          { g₃.view with
            core := (g₄.insertEdge k e).view.core
            edge := (g₄.insertEdge k e).view.edge } := by
  obtain ⟨t, atTarget'⟩ := atTarget
  obtain ⟨s, atSource'⟩ := atSource
  have target₃ := half.nodes target
  rw [atTarget', Option.map_some] at target₃
  have nodes₄ : ∀ id, (g₃.setNode target
      ((if target = source then t.linkOut layer k else t).linkIn layer k)).getNode id =
      (h.getNode id).map fun node =>
        { node with
          outgoingEdges := if id = source then node.outgoingEdges.link layer k else node.outgoingEdges
          incomingEdges := if id = target then node.incomingEdges.link layer k
            else node.incomingEdges } := by
    intro id
    rw [getNode_setNode, half.nodes]
    by_cases here : id = target
    · subst here
      rw [atTarget', Option.map_some, if_pos rfl]
      by_cases loop : id = source <;>
        simp [loop, DistributedNode.linkIn, DistributedNode.linkOut]
    · rw [if_neg here]
      congr 1
      funext node
      rw [if_neg here]
      by_cases there : id = source <;> simp [there, DistributedNode.linkOut]
  refine ⟨g₃.setNode target ((if target = source then t.linkOut layer k else t).linkIn layer k), ?_, ?_,
    fun weight state => ⟨?_, rfl⟩⟩
  · rw [linkIn, target₃, Option.map_some]
  · simp only [bothLocal, stateOf, nodes₄, atSource', atTarget', Option.map_some, Option.bind_some,
      isLocal_iff, Option.some.injEq, exists_eq_left']
  · refine ⟨nodes₄, fun j => ?_, half.localNodes, half.distantNodes⟩
    refine (UnorderedMap.lookup_insertNew _ _ _ _).trans ?_
    have absent : g₃.edges.lookup k = none := (half.edges k).trans fresh
    have rest : g₃.edges.lookup j = h.getEdge j := half.edges j
    simp [setNode, absent, rest]

-- The two ends are looked at one after the other, with the edge listed in between.
theorem importEnd_linkOut [One W] {g₁ g₂ : DistributedGraph n T W} (order : HashOrder)
    {source k : Id n} {layer : LayerId} (half : HalfAttached g₁ g₂ k source layer)
    (rest : g₂.view = { g₁.view with core := g₂.view.core })
    (atSource : ∃ node, g₁.getNode source = some node) (target : Id n) (data : T) (location : Fin n)
    {h : DistributedGraph n T W} (imported : g₁.importEnd order target data location = some h) :
    ∃ g₃, g₂.importEnd order target data location = some g₃ ∧ HalfAttached h g₃ k source layer ∧
      g₃.view = { h.view with core := g₃.view.core } := by
  cases atTarget : g₁.getNode target with
  | some node =>
    have same : g₁ = h := by
      rw [importEnd, atTarget] at imported
      exact Option.some.inj imported
    subst same
    refine ⟨g₂, ?_, half, rest⟩
    rw [importEnd, half.nodes, atTarget]
    rfl
  | none =>
    have apart : target ≠ source := by
      rintro rfl
      obtain ⟨node, at_⟩ := atSource
      cases atTarget.symm.trans at_
    obtain ⟨h', node, result', placed, core, empty, view⟩ :=
      importEnd_eq order data location atTarget
    cases imported.symm.trans result'
    obtain ⟨g₃, node', result₃, placed₃, core₃, empty₃, view₃⟩ :=
      importEnd_eq (g := g₂) order data location (by rw [half.nodes, atTarget]; rfl)
    have same : node' = node := by
      rcases node with ⟨_, _, _, _, _, _⟩
      rcases node' with ⟨_, _, _, _, _, _⟩
      simp only [DistributedNode.core] at core core₃ empty empty₃
      cases core
      cases core₃
      rw [empty.1, empty.2, empty₃.1, empty₃.2]
    subst same
    refine ⟨g₃, result₃, ⟨fun id => ?_, fun j => ?_, fun id => ?_, fun id => ?_⟩, ?_⟩
    · rw [placed₃.nodes, placed.nodes, half.nodes]
      by_cases here : id = target
      · simp [here, apart]
      · simp [here]
    · rw [placed₃.edges, placed.edges, half.edges]
    · rw [placed₃.localNodes, placed.localNodes, half.localNodes]
    · rw [placed₃.distantNodes, placed.distantNodes, half.distantNodes]
    · rw [view₃, view, rest]

end DistributedGraph

theorem GraphView.importEnd_present [One W] (v : GraphView n T W) (id : Id n) (data : T)
    (location : Fin n) : ∃ core, (v.importEnd id data location).core id = some core := by
  unfold importEnd
  split
  case h_1 core present => exact ⟨core, present⟩
  case h_2 => exact ⟨_, Function.update_self _ _ _⟩

theorem GraphView.importEnd_keeps [One W] {v : GraphView n T W} {other : Id n}
    {core : NodeCore n T W} (present : v.core other = some core) (id : Id n) (data : T)
    (location : Fin n) : (v.importEnd id data location).core other = some core := by
  unfold importEnd
  split
  case h_1 => exact present
  case h_2 absent =>
    have different : other ≠ id := by
      rintro rfl
      cases absent.symm.trans present
    exact (Function.update_of_ne different _ _).trans present

@[simp] theorem GraphView.importEnd_edge [One W] (v : GraphView n T W) (id : Id n) (data : T)
    (location : Fin n) : (v.importEnd id data location).edge = v.edge := by
  unfold importEnd
  split <;> rfl

theorem GraphInv.importEdge [One W] (inv : GraphInv g) (order : HashOrder) (message : EdgeMessage n T W) :
    Refines (g.importEdge order message) (g.view.importEdge message) := by
  unfold DistributedGraph.importEdge GraphView.importEdge
  rw [DistributedGraph.view_edge]
  cases found : g.getEdge message.id with
  | some edge =>
    dsimp only
    rw [DistributedGraph.bothLocal_eq (inv.source _ _ found) (inv.target _ _ found), Option.bind_some]
    by_cases both : g.view.IsLocal edge.source ∧ g.view.IsLocal edge.target
    · rw [if_pos both, if_pos (decide_eq_true both)]
      exact inv.setEdgeState .LOCAL found
    · rw [if_neg both, if_neg (by simpa using both)]
      exact Refines.some inv
  | none =>
    dsimp only
    -- `h` is the graph with both ends, before the edge enters the lists of any of them.
    obtain ⟨g₁, result₁, inv₁, view₁⟩ := inv.importEnd order message.source message.sourceData
      message.sourceLocation
    obtain ⟨h, result₂, invH, viewH⟩ := inv₁.importEnd order message.target message.targetData
      message.targetLocation
    rw [← view₁, ← viewH]
    have fresh : h.getEdge message.id = none := by
      rw [← DistributedGraph.view_edge, viewH, GraphView.importEnd_edge, view₁,
        GraphView.importEnd_edge]
      exact found
    obtain ⟨sourceCore, sourceView⟩ := g.view.importEnd_present message.source message.sourceData
      message.sourceLocation
    rw [← view₁] at sourceView
    obtain ⟨source₁, atSource₁, _⟩ := DistributedGraph.getNode_of_view rfl sourceView
    have sourceKept := GraphView.importEnd_keeps sourceView message.target message.targetData
      message.targetLocation
    obtain ⟨source, atSource, _⟩ := DistributedGraph.getNode_of_view viewH sourceKept
    obtain ⟨targetCore, targetView⟩ := g₁.view.importEnd_present message.target message.targetData
      message.targetLocation
    obtain ⟨target, atTarget, _⟩ := DistributedGraph.getNode_of_view viewH targetView
    obtain ⟨g₂, step₂, half₂, rest₂⟩ := DistributedGraph.linkOut_eq (k := message.id) message.layer
      ⟨source₁, atSource₁⟩
    obtain ⟨g₃, step₃, half₃, rest₃⟩ := DistributedGraph.importEnd_linkOut order half₂ rest₂
      ⟨source₁, atSource₁⟩ message.target message.targetData message.targetLocation result₂
    obtain ⟨g₄, step₄, both, attached⟩ := DistributedGraph.attach half₃ fresh ⟨source, atSource⟩
      ⟨target, atTarget⟩
    rw [result₁, Option.bind_some, step₂, Option.bind_some, step₃, Option.bind_some, step₄,
      Option.bind_some, both, Option.map_some]
    have state : (if decide (h.view.IsLocal message.source ∧ h.view.IsLocal message.target) = true
        then LocationState.LOCAL else .DISTANT) = h.view.edgeState message.source message.target := by
      unfold GraphView.edgeState
      simp only [decide_eq_true_eq]
    rw [state]
    obtain ⟨joined, view⟩ := attached message.weight
      (h.view.edgeState message.source message.target)
    refine ⟨_, rfl, joined.inv invH fresh ⟨source, atSource⟩ ⟨target, atTarget⟩, ?_⟩
    rw [view, joined.core, joined.edge, rest₃]

theorem GraphInv.buildNode [One W] (inv : GraphInv g) (data : T) (fresh : g.getNode g.nodeId = none) :
    Refines (g.buildNode data) (g.view.buildNode data) := by
  let counted := { g with nodeId := g.nodeId.next }
  let built : DistributedNode n T W := .build data 1 g.rank
  have absent : counted.getNode g.nodeId = none := fresh
  obtain ⟨g', result, placed, view⟩ := DistributedGraph.setLocal_eq (g := counted.insertNode g.nodeId built)
    (by rw [DistributedGraph.getNode_insertNode absent, if_pos rfl])
  have whole : Placed g g' g.nodeId built := by
    refine ⟨fun other => ?_, placed.edges, placed.localNodes, placed.distantNodes⟩
    rw [placed.nodes, DistributedGraph.getNode_insertNode absent]
    split <;> rfl
  have inv' : GraphInv g' := whole.inv inv (.inr ⟨fresh, rfl, rfl⟩)
  have managed : g'.view.managed = g.view.managed := by rw [view]; rfl
  have rank : g'.rank = g.rank := congrArg GraphView.rank view
  have newLocal : g'.view.newLocal = (g.view.buildNode data).newLocal := by rw [view]; rfl
  have nodeId : g'.view.nodeId = g.nodeId.next := by rw [view]; rfl
  have edgeId : g'.view.edgeId = g.edgeId := by rw [view]; rfl
  refine ⟨{ g' with
    locationManager := { g'.locationManager with
      managedNodesLocations := g'.locationManager.managedNodesLocations.insert g.nodeId g'.rank } },
    ?_, ?_, ?_⟩
  · unfold DistributedGraph.buildNode
    exact congrArg (Option.map _) result
  · exact ⟨inv'.source, inv'.target, inv'.outgoing, inv'.incoming, inv'.localNodes, inv'.distantNodes⟩
  · ext1
    case rank => exact rank
    case core => exact whole.core
    case edge => exact whole.edge
    case managed =>
      funext id
      show AList.lookup id (g'.locationManager.managedNodesLocations.insert g.nodeId g'.rank) =
        Function.update g.view.managed g.nodeId (some g.rank) id
      rw [UnorderedMap.lookup_insert', Function.update_apply, rank, ← managed]
      rfl
    case newLocal => exact newLocal
    case nodeId => exact nodeId
    case edgeId => exact edgeId

theorem GraphInv.buildEdge [One W] (inv : GraphInv g) {source target : Id n} (layer : LayerId)
    (fresh : g.getEdge g.edgeId = none) (atSource : ∃ node, g.getNode source = some node)
    (atTarget : ∃ node, g.getNode target = some node) :
    let e := { layer, weight := 1, source, target, state := g.view.edgeState source target }
    ∃ g', g.buildEdge source target layer = some (g', e) ∧ GraphInv (g'.insertEdge g.edgeId e) ∧
      (g'.insertEdge g.edgeId e).view =
        { g.view with
          edge := Function.update g.view.edge g.edgeId (some e)
          edgeId := g.edgeId.next } := by
  let counted := { g with edgeId := g.edgeId.next }
  have invC : GraphInv counted :=
    ⟨inv.source, inv.target, inv.outgoing, inv.incoming, inv.localNodes, inv.distantNodes⟩
  obtain ⟨g₁, step₁, half, rest⟩ := DistributedGraph.linkOut_eq (g := counted) (k := g.edgeId) layer
    atSource
  obtain ⟨g₂, step₂, both, attached⟩ := DistributedGraph.attach half fresh atSource atTarget
  have state : (if decide (counted.view.IsLocal source ∧ counted.view.IsLocal target) = true
      then LocationState.LOCAL else .DISTANT) = g.view.edgeState source target := by
    unfold GraphView.edgeState
    simp only [decide_eq_true_eq]
    rfl
  obtain ⟨joined, view⟩ := attached 1 (g.view.edgeState source target)
  refine ⟨g₂, ?_, joined.inv invC fresh atSource atTarget, ?_⟩
  · unfold DistributedGraph.buildEdge
    dsimp only
    rw [step₁, Option.bind_some, step₂, Option.bind_some, both, Option.map_some, state]
  · rw [view, joined.core, joined.edge, rest]
    rfl

theorem GraphInv.setNode (inv : GraphInv g) {id : Id n} {old : DistributedNode n T W}
    (node : DistributedNode n T W)
    (at_ : g.getNode id = some old) (state : node.state = old.state)
    (incoming : node.incomingEdges = old.incomingEdges)
    (outgoing : node.outgoingEdges = old.outgoingEdges) :
    GraphInv (g.setNode id node) ∧
      (g.setNode id node).view =
        { g.view with core := Function.update g.view.core id (some node.core) } := by
  have placed : Placed g (g.setNode id node) id node := by
    refine ⟨fun other => DistributedGraph.getNode_setNode g id other _, fun k => rfl, fun other => ?_,
      fun other => ?_⟩
    · by_cases same : other = id
      · subst same
        simp [DistributedGraph.setNode, inv.localNodes, g.isLocal_iff, at_, state]
      · rw [if_neg same]
        rfl
    · by_cases same : other = id
      · subst same
        simp [DistributedGraph.setNode, inv.distantNodes, g.isDistant_iff, at_, state]
      · rw [if_neg same]
        rfl
  refine ⟨placed.inv inv (.inl ⟨old, at_, incoming, outgoing⟩), ?_⟩
  ext1 <;> try rfl
  exact placed.core

theorem GraphView.foldl_amend {change : Id n → NodeCore n T W → NodeCore n T W}
    (again : ∀ id core, change id (change id core) = change id core) (v : GraphView n T W)
    (ids : List (Id n)) :
    ids.foldl (fun v id => v.amend (· = id) change) v = v.amend (· ∈ ids) change := by
  induction ids generalizing v with
  | nil => simp [GraphView.amend]
  | cons first rest ih =>
    rw [List.foldl_cons, ih]
    ext1 <;> try rfl
    funext id
    simp only [GraphView.amend, List.mem_cons]
    by_cases same : id = first
    · subst same
      cases v.core id <;> simp [again]
    · simp [same]

theorem GraphView.amend_isDistant {change : Id n → NodeCore n T W → NodeCore n T W}
    (state : ∀ id core, (change id core).state = core.state) {v : GraphView n T W} {id : Id n}
    (distant : v.IsDistant id) (ids : Id n → Prop) : (v.amend ids change).IsDistant id := by
  obtain ⟨core, found, before⟩ := distant
  simp only [GraphView.IsDistant, GraphView.amend]
  split
  · exact ⟨change id core, by rw [found, Option.map_some], (state id core).trans before⟩
  · exact ⟨core, found, before⟩

-- A loop that writes to some of the DISTANT nodes.
theorem GraphInv.amend (inv : GraphInv g) {α : Type} {items : List α}
    {f : DistributedGraph n T W → α → Option (DistributedGraph n T W)} (key : α → Id n)
    {change : Id n → NodeCore n T W → NodeCore n T W}
    (state : ∀ id core, (change id core).state = core.state)
    (again : ∀ id core, change id (change id core) = change id core)
    {managed : Id n → Option (Fin n)} (told : g.view.managed = managed)
    (step : ∀ g x node, GraphInv g → g.view.managed = managed → x ∈ items →
      g.view.IsDistant (key x) → g.getNode (key x) = some node →
      ∃ node', f g x = some (g.setNode (key x) node') ∧ node'.core = change (key x) node.core ∧
        node'.incomingEdges = node.incomingEdges ∧ node'.outgoingEdges = node.outgoingEdges)
    (distant : ∀ x ∈ items, g.view.IsDistant (key x)) :
    Refines (items.foldlM f g) (g.view.amend (· ∈ items.map key) change) := by
  rw [← GraphView.foldl_amend again, List.foldl_map]
  apply Refines.foldlM
    (fun v l => v.managed = managed ∧ ∀ x ∈ l, x ∈ items ∧ v.IsDistant (key x))
  · rintro g x rest inv ⟨told, distant⟩
    obtain ⟨listed, isDistant⟩ := distant x List.mem_cons_self
    obtain ⟨node, at_, _⟩ := (g.isDistant_iff (key x)).mp isDistant
    obtain ⟨node', result, core, incoming, outgoing⟩ := step g x node inv told listed isDistant at_
    have kept : node'.state = node.state := (congrArg NodeCore.state core).trans (state _ _)
    obtain ⟨inv', view⟩ := inv.setNode node' at_ kept incoming outgoing
    refine ⟨_, result, inv', view.trans ?_⟩
    ext1 <;> try rfl
    funext other
    simp only [GraphView.amend, Function.update_apply]
    split
    case isTrue same => rw [same, DistributedGraph.view_core, at_, Option.map_some, Option.map_some, core]
    case isFalse => rfl
  · rintro v x rest ⟨told, distant⟩
    refine ⟨told, fun y member => ?_⟩
    obtain ⟨listed, isDistant⟩ := distant y (List.mem_cons_of_mem x member)
    exact ⟨listed, GraphView.amend_isDistant state isDistant _⟩
  · exact inv
  · exact ⟨told, fun x member => ⟨member, distant x member⟩⟩

end Fpmas.Graph
