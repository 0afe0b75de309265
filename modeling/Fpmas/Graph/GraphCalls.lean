import Fpmas.Graph.Breakpoint
import Fpmas.Graph.ClearRefinement
import Fpmas.Graph.NodeObjects

set_option autoImplicit false

namespace Fpmas.Graph

/-- A call that changes the graph of one process. -/
inductive GraphCall (n : Nat) (T W : Type) where
  | buildNode (data : T)
  | importNode (node : NodeMessage n T W)
  | insertDistant (node : NodeMessage n T W)
  | importEdge (edge : EdgeMessage n T W)
  | link (source target : Id n) (layer : LayerId)
  -- The linker is told first, then the edge is erased.
  | unlink (edge : Id n)
  | eraseEdge (edge : Id n)
  | eraseNode (node : Id n)
  | clear
  | clearDistantNodes
  | setData (node : Id n) (data : T) (weight : W)

variable {n : Nat} {T W : Type}

namespace GraphCall

def nodes : GraphCall n T W → List (Id n)
  | importNode node => [node.id]
  | insertDistant node => [node.id]
  | importEdge edge => [edge.source, edge.target]
  | _ => []

def edges : GraphCall n T W → List (Id n)
  | importEdge edge => [edge.id]
  | _ => []

end GraphCall

namespace DistributedGraph

variable (g : DistributedGraph n T W) (order : HashOrder)

def link [One W] (source target : Id n) (layer : LayerId) : Option (DistributedGraph n T W) :=
  (g.buildEdge source target layer).map fun built => built.1.insertEdge g.edgeId built.2

def clear : Option (DistributedGraph n T W) :=
  (g.eraseEdges ((g.edges.toList order).map Prod.fst)).bind fun g =>
  ((g.nodes.toList order).map Prod.fst).foldlM
    (fun (g : DistributedGraph n T W) id => g.eraseNode order id) g

-- `node->data() = data; node->setWeight(weight)`.
def setData (id : Id n) (data : T) (weight : W) : Option (DistributedGraph n T W) :=
  (g.getNode id).map fun node => g.setNode id { node with data, weight }

def call [One W] : GraphCall n T W → Option (DistributedGraph n T W)
  | .buildNode data => g.buildNode data
  | .importNode node => g.importNode node
  | .insertDistant node => g.insertDistant order node
  | .importEdge edge => g.importEdge order edge
  | .link source target layer => g.link source target layer
  | .unlink edge => g.eraseEdge edge
  | .eraseEdge edge => g.eraseEdge edge
  | .eraseNode node => g.eraseNode order node
  | .clear => g.clear order
  | .clearDistantNodes => g.clearDistantNodes order
  | .setData node data weight => g.setData node data weight

end DistributedGraph

-- The graph of one process and the objects that its nodes are.
structure AddressedGraph (n : Nat) (T W : Type) where
  graph : DistributedGraph n T W
  objects : NodeObjects n

namespace AddressedGraph

variable (s : AddressedGraph n T W) (order : HashOrder)

def empty (rank : Fin n) : AddressedGraph n T W where
  graph := .empty rank
  objects := .empty

def buildNode [One W] (data : T) : Option (AddressedGraph n T W) :=
  (s.graph.buildNode data).map fun graph =>
  { graph, objects := s.objects.buildNode s.graph.nodeId }

def importNode (node : NodeMessage n T W) : Option (AddressedGraph n T W) :=
  (s.graph.importNode node).map fun graph =>
  { graph, objects := s.objects.importNode node.id }

def insertDistant (node : NodeMessage n T W) : Option (AddressedGraph n T W) :=
  (s.graph.insertDistant order node).map fun graph =>
  { graph, objects := s.objects.insertDistant node.id }

def importEdge [One W] (edge : EdgeMessage n T W) : Option (AddressedGraph n T W) :=
  (s.graph.importEdge order edge).map fun graph =>
  { graph
    objects :=
      if edge.id ∈ s.graph.edges then s.objects
      else (s.objects.insertDistant edge.source).insertDistant edge.target }

def setDistant (id : Id n) : Option (AddressedGraph n T W) :=
  (s.objects.nodes.lookup id).bind fun address =>
  (s.graph.setDistant order id).map fun graph =>
  { graph, objects := s.objects.setDistant id address }

def eraseNode (id : Id n) : Option (AddressedGraph n T W) :=
  (s.graph.getNode id).bind fun node =>
  (s.graph.eraseNode order id).map fun graph =>
  { graph, objects := s.objects.erase id node.state }

def clear : Option (AddressedGraph n T W) :=
  (s.graph.eraseEdges ((s.graph.edges.toList order).map Prod.fst)).bind fun graph =>
  ((graph.nodes.toList order).map Prod.fst).foldlM
    (fun (s : AddressedGraph n T W) id => s.eraseNode order id) { s with graph }

def clearNode (id : Id n) : Option (AddressedGraph n T W) :=
  (s.graph.getNode id).bind fun node =>
  (s.graph.neighborStates order node).bind fun neighbors =>
  if neighbors.all (·.2 ≠ .LOCAL) then s.eraseNode order id
  else
    (s.graph.eraseEdges (order.of ((neighbors.filter (·.2 ≠ .LOCAL)).map Prod.fst).dedup)).map
      fun graph => { s with graph }

def clearNodes (ids : List (Id n)) : Option (AddressedGraph n T W) :=
  ids.foldlM (fun s id => s.clearNode order id) s

def clearDistantNodes : Option (AddressedGraph n T W) :=
  s.clearNodes order ((s.graph.locationManager.distantNodes.toList order).map Prod.fst)

def keep (result : Option (DistributedGraph n T W)) : Option (AddressedGraph n T W) :=
  result.map fun graph => { s with graph }

def call [One W] : GraphCall n T W → Option (AddressedGraph n T W)
  | .buildNode data => s.buildNode data
  | .importNode node => s.importNode node
  | .insertDistant node => s.insertDistant order node
  | .importEdge edge => s.importEdge order edge
  | .link source target layer => s.keep (s.graph.link source target layer)
  | .unlink edge => s.keep (s.graph.eraseEdge edge)
  | .eraseEdge edge => s.keep (s.graph.eraseEdge edge)
  | .eraseNode node => s.eraseNode order node
  | .clear => s.clear order
  | .clearDistantNodes => s.clearDistantNodes order
  | .setData node data weight => s.keep (s.graph.setData node data weight)

def calls [One W] (made : List (GraphCall n T W)) : Option (AddressedGraph n T W) :=
  made.foldlM (fun s made => s.call order made) s

end AddressedGraph

theorem DistributedGraph.buildEdge_ends [One W] {g : DistributedGraph n T W} {source target : Id n}
    {layer : LayerId} {built : DistributedGraph n T W × DistributedEdge n W}
    (taken : g.buildEdge source target layer = some built) :
    (∃ node, g.getNode source = some node) ∧ ∃ node, g.getNode target = some node := by
  obtain ⟨first, linked, later⟩ := Option.bind_eq_some_iff.mp taken
  obtain ⟨atSource, foundSource, rfl⟩ := Option.map_eq_some_iff.mp linked
  obtain ⟨_, linked', _⟩ := Option.bind_eq_some_iff.mp later
  obtain ⟨atTarget, foundTarget, _⟩ := Option.map_eq_some_iff.mp linked'
  refine ⟨⟨atSource, foundSource⟩, ?_⟩
  rw [DistributedGraph.getNode_setNode] at foundTarget
  split at foundTarget
  case isTrue same => exact ⟨atSource, same ▸ foundSource⟩
  case isFalse => exact ⟨atTarget, foundTarget⟩

namespace AddressedGraph

variable {s t : AddressedGraph n T W} {order : HashOrder}

theorem importNode_graph {node : NodeMessage n T W} (taken : s.importNode node = some t) :
    s.graph.importNode node = some t.graph := by
  obtain ⟨g, made, rfl⟩ := Option.map_eq_some_iff.mp taken
  exact made

theorem importEdge_graph [One W] {edge : EdgeMessage n T W} (taken : s.importEdge order edge = some t) :
    s.graph.importEdge order edge = some t.graph := by
  obtain ⟨g, made, rfl⟩ := Option.map_eq_some_iff.mp taken
  exact made

theorem setDistant_graph {id : Id n} (taken : s.setDistant order id = some t) :
    s.graph.setDistant order id = some t.graph := by
  obtain ⟨_, _, step⟩ := Option.bind_eq_some_iff.mp taken
  obtain ⟨g, made, rfl⟩ := Option.map_eq_some_iff.mp step
  exact made

theorem eraseNode_graph {id : Id n} (taken : s.eraseNode order id = some t) :
    s.graph.eraseNode order id = some t.graph := by
  obtain ⟨_, _, step⟩ := Option.bind_eq_some_iff.mp taken
  obtain ⟨g, made, rfl⟩ := Option.map_eq_some_iff.mp step
  exact made

theorem clear_graph (taken : s.clear order = some t) : s.graph.clear order = some t.graph := by
  obtain ⟨g, unlinked, erased⟩ := Option.bind_eq_some_iff.mp taken
  refine Option.bind_eq_some_iff.mpr ⟨g, unlinked, ?_⟩
  exact List.foldlM_view AddressedGraph.graph (fun _ _ _ step => eraseNode_graph step) erased

theorem clearNode_graph {id : Id n} (taken : s.clearNode order id = some t) :
    s.graph.clearNode order id = some t.graph := by
  obtain ⟨node, at_, step⟩ := Option.bind_eq_some_iff.mp taken
  obtain ⟨neighbors, read, step⟩ := Option.bind_eq_some_iff.mp step
  refine Option.bind_eq_some_iff.mpr ⟨node, at_, Option.bind_eq_some_iff.mpr ⟨neighbors, read, ?_⟩⟩
  split at step
  case isTrue alone =>
    rw [if_pos alone]
    exact eraseNode_graph step
  case isFalse attached =>
    rw [if_neg attached]
    obtain ⟨g, made, rfl⟩ := Option.map_eq_some_iff.mp step
    exact made

theorem clearNodes_graph {ids : List (Id n)} (taken : s.clearNodes order ids = some t) :
    s.graph.clearNodes order ids = some t.graph :=
  List.foldlM_view AddressedGraph.graph (fun _ _ _ step => clearNode_graph step) taken

theorem call_graph [One W] {made : GraphCall n T W} (taken : s.call order made = some t) :
    s.graph.call order made = some t.graph := by
  cases made with
  | eraseNode node => exact eraseNode_graph taken
  | clear => exact clear_graph taken
  | clearDistantNodes => exact clearNodes_graph taken
  | _ =>
    obtain ⟨g, made, rfl⟩ := Option.map_eq_some_iff.mp taken
    exact made

end AddressedGraph

-- On which side a node is, if it is in the graph.
def GraphView.state (v : GraphView n T W) (id : Id n) : Option LocationState :=
  (v.core id).map (·.state)

theorem GraphView.isLocal_iff_state {v : GraphView n T W} {id : Id n} :
    v.IsLocal id ↔ v.state id = some .LOCAL := by
  unfold IsLocal state
  rw [Option.map_eq_some_iff]

theorem GraphView.state_update {v v' : GraphView n T W} {id : Id n} {core : Option (NodeCore n T W)}
    (changed : v'.core = Function.update v.core id core) :
    v'.state = Function.update v.state id (core.map (·.state)) := by
  funext other
  unfold GraphView.state
  rw [changed, Function.update_apply, Function.update_apply]
  split <;> rfl

-- `v'` holds no more than `v`, some of `nodes` and `edges`, and what it has created itself.
structure GraphView.Extends (v v' : GraphView n T W) (nodes edges : Id n → Prop) : Prop where
  rank : v'.rank = v.rank
  nodeRank : v'.nodeId.rank = v.nodeId.rank
  nodeId : v.nodeId.id ≤ v'.nodeId.id
  edgeRank : v'.edgeId.rank = v.edgeId.rank
  edgeId : v.edgeId.id ≤ v'.edgeId.id
  node : ∀ id core, v'.core id = some core → (∃ before, v.core id = some before) ∨ nodes id ∨
    id.rank = v.nodeId.rank ∧ id.id < v'.nodeId.id
  edge : ∀ k e, v'.edge k = some e → (∃ before, v.edge k = some before) ∨ edges k ∨
    k.rank = v.edgeId.rank ∧ k.id < v'.edgeId.id

namespace GraphView.Extends

variable {v v' : GraphView n T W} {nodes edges : Id n → Prop}

theorem shrink (rank : v'.rank = v.rank) (nodeId : v'.nodeId = v.nodeId) (edgeId : v'.edgeId = v.edgeId)
    (node : ∀ id core, v'.core id = some core → ∃ before, v.core id = some before)
    (edge : ∀ k e, v'.edge k = some e → ∃ before, v.edge k = some before) :
    v.Extends v' nodes edges where
  rank
  nodeRank := by rw [nodeId]
  nodeId := by rw [nodeId]
  edgeRank := by rw [edgeId]
  edgeId := by rw [edgeId]
  node id core found := .inl (node id core found)
  edge k e found := .inl (edge k e found)

theorem importEnd [One W] {id : Id n} (listed : nodes id) (data : T) (location : Fin n) :
    v.Extends (v.importEnd id data location) nodes edges := by
  unfold GraphView.importEnd
  cases at_ : v.core id with
  | some core => exact shrink rfl rfl rfl (fun _ core found => ⟨core, found⟩) fun _ e found => ⟨e, found⟩
  | none =>
    refine ⟨rfl, rfl, le_rfl, rfl, le_rfl, fun other core found => ?_, fun k e found => .inl ⟨e, found⟩⟩
    by_cases same : other = id
    · exact .inr (.inl (same ▸ listed))
    · exact .inl ⟨core, (Function.update_of_ne same _ _).symm.trans found⟩

theorem trans {v'' : GraphView n T W} (first : v.Extends v' nodes edges)
    (second : v'.Extends v'' nodes edges) : v.Extends v'' nodes edges where
  rank := second.rank.trans first.rank
  nodeRank := second.nodeRank.trans first.nodeRank
  nodeId := first.nodeId.trans second.nodeId
  edgeRank := second.edgeRank.trans first.edgeRank
  edgeId := first.edgeId.trans second.edgeId
  node id core found := by
    rcases second.node id core found with ⟨before, found⟩ | new | ⟨rank, new⟩
    · exact (first.node id before found).imp_right fun made =>
        made.imp_right fun own => ⟨own.1, own.2.trans_le second.nodeId⟩
    · exact .inr (.inl new)
    · exact .inr (.inr ⟨rank.trans first.nodeRank, new⟩)
  edge k e found := by
    rcases second.edge k e found with ⟨before, found⟩ | new | ⟨rank, new⟩
    · exact (first.edge k before found).imp_right fun made =>
        made.imp_right fun own => ⟨own.1, own.2.trans_le second.edgeId⟩
    · exact .inr (.inl new)
    · exact .inr (.inr ⟨rank.trans first.edgeRank, new⟩)

theorem importEdge [One W] {message : EdgeMessage n T W} (source : nodes message.source)
    (target : nodes message.target) (listed : edges message.id) :
    v.Extends (v.importEdge message) nodes edges := by
  unfold GraphView.importEdge
  cases found : v.edge message.id with
  | none =>
    refine ((importEnd source _ _).trans (importEnd target _ _)).trans
      ⟨rfl, rfl, le_rfl, rfl, le_rfl, fun id core at_ => .inl ⟨core, at_⟩, fun k e stored => ?_⟩
    by_cases same : k = message.id
    · exact .inr (.inl (same ▸ listed))
    · exact .inl ⟨e, (Function.update_of_ne same _ _).symm.trans stored⟩
  | some edge =>
    dsimp only
    split
    · refine shrink rfl rfl rfl (fun _ core at_ => ⟨core, at_⟩) fun k e stored => ?_
      by_cases same : k = message.id
      · exact ⟨edge, same ▸ found⟩
      · exact ⟨e, (Function.update_of_ne same _ _).symm.trans stored⟩
    · exact shrink rfl rfl rfl (fun _ core at_ => ⟨core, at_⟩) fun _ e stored => ⟨e, stored⟩

end GraphView.Extends

/-- The graph of process `p`: what it holds has been created there, or is one of the `nodes` and
`edges` that the processes have created before. -/
structure WellFormed (p : Fin n) (nodes edges : Id n → Prop) (g : DistributedGraph n T W) : Prop where
  inv : GraphInv g
  rank : g.rank = p
  nodeRank : g.nodeId.rank = p
  edgeRank : g.edgeId.rank = p
  node : ∀ id core, g.view.core id = some core → nodes id ∨ id.rank = p ∧ id.id < g.nodeId.id
  edge : ∀ k e, g.view.edge k = some e → edges k ∨ k.rank = p ∧ k.id < g.edgeId.id
  nodesIssued : ∀ id, nodes id → id.rank = p → id.id < g.nodeId.id
  edgesIssued : ∀ k, edges k → k.rank = p → k.id < g.edgeId.id

namespace WellFormed

variable {p : Fin n} {nodes edges : Id n → Prop} {g g' : DistributedGraph n T W}

theorem freshNode (wf : WellFormed p nodes edges g) : g.getNode g.nodeId = none := by
  cases at_ : g.getNode g.nodeId with
  | none => rfl
  | some node =>
    have found : g.view.core g.nodeId = some node.core := by
      rw [DistributedGraph.view_core, at_, Option.map_some]
    rcases wf.node _ _ found with issued | ⟨_, issued⟩
    · exact absurd (wf.nodesIssued _ issued wf.nodeRank) (lt_irrefl _)
    · exact absurd issued (lt_irrefl _)

theorem freshEdge (wf : WellFormed p nodes edges g) : g.getEdge g.edgeId = none := by
  cases found : g.getEdge g.edgeId with
  | none => rfl
  | some e =>
    rcases wf.edge _ _ found with issued | ⟨_, issued⟩
    · exact absurd (wf.edgesIssued _ issued wf.edgeRank) (lt_irrefl _)
    · exact absurd issued (lt_irrefl _)

theorem extend (wf : WellFormed p nodes edges g) (inv : GraphInv g')
    (extends_ : g.view.Extends g'.view nodes edges) : WellFormed p nodes edges g' where
  inv
  rank := extends_.rank.trans wf.rank
  nodeRank := extends_.nodeRank.trans wf.nodeRank
  edgeRank := extends_.edgeRank.trans wf.edgeRank
  node id core found := by
    rcases extends_.node id core found with ⟨before, found⟩ | new | ⟨rank, new⟩
    · exact (wf.node id before found).imp_right fun own => ⟨own.1, own.2.trans_le extends_.nodeId⟩
    · exact .inl new
    · exact .inr ⟨rank.trans wf.nodeRank, new⟩
  edge k e found := by
    rcases extends_.edge k e found with ⟨before, found⟩ | new | ⟨rank, new⟩
    · exact (wf.edge k before found).imp_right fun own => ⟨own.1, own.2.trans_le extends_.edgeId⟩
    · exact .inl new
    · exact .inr ⟨rank.trans wf.edgeRank, new⟩
  nodesIssued id issued rank := (wf.nodesIssued id issued rank).trans_le extends_.nodeId
  edgesIssued k issued rank := (wf.edgesIssued k issued rank).trans_le extends_.edgeId

theorem of_refines (wf : WellFormed p nodes edges g) {result : Option (DistributedGraph n T W)}
    {v : GraphView n T W} (refines : Refines result v) (taken : result = some g')
    (extends_ : g.view.Extends v nodes edges) : WellFormed p nodes edges g' ∧ g'.view = v := by
  obtain ⟨_, result, inv, view⟩ := refines
  cases taken.symm.trans result
  exact ⟨wf.extend inv (view ▸ extends_), view⟩

variable (order : HashOrder)

theorem buildNode [One W] (wf : WellFormed p nodes edges g) {data : T}
    (taken : g.buildNode data = some g') :
    WellFormed p nodes edges g' ∧ g'.view = g.view.buildNode data := by
  refine wf.of_refines (wf.inv.buildNode data wf.freshNode) taken
    ⟨rfl, rfl, Nat.le_succ _, rfl, le_rfl, fun id core found => ?_, fun k e found => .inl ⟨e, found⟩⟩
  by_cases same : id = g.nodeId
  · exact .inr (.inr ⟨congrArg _ same, by rw [same]; exact Nat.lt_succ_self _⟩)
  · exact .inl ⟨core, (Function.update_of_ne same _ _).symm.trans found⟩

theorem importNode (wf : WellFormed p nodes edges g) {node : NodeMessage n T W} (listed : nodes node.id)
    (taken : g.importNode node = some g') :
    WellFormed p nodes edges g' ∧ g'.view = g.view.importNode node := by
  refine wf.of_refines (wf.inv.importNode node) taken
    ⟨rfl, rfl, le_rfl, rfl, le_rfl, fun id core found => ?_, fun k e found => .inl ⟨e, found⟩⟩
  by_cases same : id = node.id
  · exact .inr (.inl (same ▸ listed))
  · exact .inl ⟨core, (Function.update_of_ne same _ _).symm.trans found⟩

theorem insertDistant (wf : WellFormed p nodes edges g) {node : NodeMessage n T W}
    (listed : nodes node.id) (taken : g.insertDistant order node = some g') :
    WellFormed p nodes edges g' ∧ g'.view =
      if g.view.core node.id = none then
        { g.view with
          core := Function.update g.view.core node.id (some
            { data := node.data, weight := node.weight, location := g.rank, state := .DISTANT }) }
      else g.view := by
  cases at_ : g.getNode node.id with
  | none =>
    have absent : g.view.core node.id = none := by rw [DistributedGraph.view_core, at_, Option.map_none]
    rw [if_pos absent]
    refine wf.of_refines (wf.inv.insertDistant order at_) taken
      ⟨rfl, rfl, le_rfl, rfl, le_rfl, fun id core found => ?_, fun k e found => .inl ⟨e, found⟩⟩
    by_cases same : id = node.id
    · exact .inr (.inl (same ▸ listed))
    · exact .inl ⟨core, (Function.update_of_ne same _ _).symm.trans found⟩
  | some found =>
    have present : g.view.core node.id ≠ none := by
      rw [DistributedGraph.view_core, at_, Option.map_some]
      exact Option.some_ne_none _
    rw [if_neg present]
    unfold DistributedGraph.insertDistant at taken
    rw [at_] at taken
    cases taken
    exact ⟨wf, rfl⟩

theorem importEdge [One W] (wf : WellFormed p nodes edges g) {message : EdgeMessage n T W}
    (source : nodes message.source) (target : nodes message.target) (listed : edges message.id)
    (taken : g.importEdge order message = some g') :
    WellFormed p nodes edges g' ∧ g'.view = g.view.importEdge message :=
  wf.of_refines (wf.inv.importEdge order message) taken (.importEdge source target listed)

theorem link [One W] (wf : WellFormed p nodes edges g) {source target : Id n} {layer : LayerId}
    (taken : g.link source target layer = some g') :
    WellFormed p nodes edges g' ∧ g'.view.core = g.view.core := by
  obtain ⟨built, step, rfl⟩ := Option.map_eq_some_iff.mp taken
  obtain ⟨atSource, atTarget⟩ := DistributedGraph.buildEdge_ends step
  obtain ⟨g', built', inv, view⟩ := wf.inv.buildEdge layer wf.freshEdge atSource atTarget
  cases step.symm.trans built'
  refine ⟨wf.extend inv (view ▸ ⟨rfl, rfl, le_rfl, rfl, Nat.le_succ _, fun id core found => .inl ⟨core, found⟩,
    fun k e found => ?_⟩), by rw [view]⟩
  by_cases same : k = g.edgeId
  · exact .inr (.inr ⟨congrArg _ same, by rw [same]; exact Nat.lt_succ_self _⟩)
  · exact .inl ⟨e, (Function.update_of_ne same _ _).symm.trans found⟩

theorem eraseEdge (wf : WellFormed p nodes edges g) {k : Id n} (taken : g.eraseEdge k = some g') :
    WellFormed p nodes edges g' ∧ g'.view = g.view.eraseEdge k := by
  obtain ⟨e, found, _⟩ := Option.bind_eq_some_iff.mp taken
  refine wf.of_refines (wf.inv.eraseEdge found) taken
    (.shrink rfl rfl rfl (fun _ core at_ => ⟨core, at_⟩) fun j e' stored => ?_)
  by_cases same : j = k
  · exact ⟨e, same ▸ found⟩
  · exact ⟨e', (Function.update_of_ne same _ _).symm.trans stored⟩

theorem eraseEdges (wf : WellFormed p nodes edges g) {ids : List (Id n)}
    (taken : g.eraseEdges ids = some g') :
    WellFormed p nodes edges g' ∧ g'.view.core = g.view.core := by
  refine List.foldlM_kept (P := fun h => WellFormed p nodes edges h ∧ h.view.core = g.view.core)
    (fun _ _ _ _ kept step => ?_) ⟨wf, rfl⟩ taken
  obtain ⟨wf', view⟩ := kept.1.eraseEdge step
  exact ⟨wf', by rw [view]; exact kept.2⟩

theorem eraseNode (wf : WellFormed p nodes edges g) {id : Id n} (taken : g.eraseNode order id = some g') :
    WellFormed p nodes edges g' ∧ g'.view = g.view.eraseNode id := by
  obtain ⟨node, at_, _⟩ := Option.bind_eq_some_iff.mp taken
  refine wf.of_refines (wf.inv.eraseNode order at_) taken
    (.shrink rfl rfl rfl (fun other core found => ?_) fun j e' stored => ?_)
  · rw [GraphView.eraseNode_core] at found
    split at found
    · cases found
    · exact ⟨core, found⟩
  · exact ⟨e', (GraphView.eraseNode_edge.mp stored).1⟩

theorem setDistant (wf : WellFormed p nodes edges g) {id : Id n} (taken : g.setDistant order id = some g') :
    WellFormed p nodes edges g' ∧ g'.view = g.view.setDistant id := by
  obtain ⟨node, at_, _⟩ := Option.bind_eq_some_iff.mp taken
  refine wf.of_refines (wf.inv.setDistant order at_) taken
    (.shrink rfl rfl rfl (fun other core found => ?_) fun j e stored => ?_)
  · by_cases same : other = id
    · exact ⟨node.core, by rw [same, DistributedGraph.view_core, at_, Option.map_some]⟩
    · exact ⟨core, (Function.update_of_ne same _ _).symm.trans found⟩
  · obtain ⟨before, stored, _⟩ := Option.map_eq_some_iff.mp stored
    exact ⟨before, stored⟩

theorem setNode (wf : WellFormed p nodes edges g) {id : Id n} {node : DistributedNode n T W}
    (updated : DistributedNode n T W) (at_ : g.getNode id = some node) (state : updated.state = node.state)
    (incoming : updated.incomingEdges = node.incomingEdges)
    (outgoing : updated.outgoingEdges = node.outgoingEdges) :
    WellFormed p nodes edges (g.setNode id updated) ∧
      (g.setNode id updated).view.state = g.view.state := by
  obtain ⟨inv, view⟩ := wf.inv.setNode updated at_ state incoming outgoing
  have before : g.view.core id = some node.core := by
    rw [DistributedGraph.view_core, at_, Option.map_some]
  refine ⟨?_, ?_⟩
  · refine wf.extend inv (view ▸ .shrink rfl rfl rfl (fun other core found => ?_) fun _ e found => ⟨e, found⟩)
    by_cases same : other = id
    · exact ⟨node.core, same ▸ before⟩
    · exact ⟨core, (Function.update_of_ne same _ _).symm.trans found⟩
  · have side : g.view.state id = some node.state := by
      unfold GraphView.state
      rw [before]
      rfl
    rw [view, GraphView.state_update (v := g.view) rfl]
    show Function.update g.view.state id (some updated.state) = _
    rw [state, ← side, Function.update_eq_self]

theorem setData (wf : WellFormed p nodes edges g) {id : Id n} {data : T} {weight : W}
    (taken : g.setData id data weight = some g') :
    WellFormed p nodes edges g' ∧ g'.view.state = g.view.state := by
  obtain ⟨node, at_, rfl⟩ := Option.map_eq_some_iff.mp taken
  exact wf.setNode _ at_ rfl rfl rfl

theorem clearNode (wf : WellFormed p nodes edges g) {id : Id n} (taken : g.clearNode order id = some g') :
    WellFormed p nodes edges g' ∧ g'.view = g.view.clearNode id := by
  obtain ⟨node, at_, _⟩ := Option.bind_eq_some_iff.mp taken
  refine wf.of_refines (wf.inv.clearNode order at_) taken ?_
  unfold GraphView.clearNode
  split
  · refine .shrink rfl rfl rfl (fun other core found => ?_) fun j e stored => ?_
    · rw [GraphView.eraseNode_core] at found
      split at found
      · cases found
      · exact ⟨core, found⟩
    · exact ⟨e, (GraphView.eraseNode_edge.mp stored).1⟩
  · exact .shrink rfl rfl rfl (fun _ core found => ⟨core, found⟩)
      fun _ e stored => ⟨e, (GraphView.eraseEdges_edge.mp stored).1⟩

theorem clear (wf : WellFormed p nodes edges g) (taken : g.clear order = some g') :
    WellFormed p nodes edges g' := by
  obtain ⟨middle, unlinked, erased⟩ := Option.bind_eq_some_iff.mp taken
  exact List.foldlM_kept (fun _ _ _ _ kept step => (kept.eraseNode order step).1)
    (wf.eraseEdges unlinked).1 erased

theorem clearNodes (wf : WellFormed p nodes edges g) {ids : List (Id n)}
    (taken : g.clearNodes order ids = some g') : WellFormed p nodes edges g' :=
  List.foldlM_kept (fun _ _ _ _ kept step => (kept.clearNode order step).1) wf taken

theorem call [One W] (wf : WellFormed p nodes edges g) {made : GraphCall n T W}
    (fromNodes : ∀ id ∈ made.nodes, nodes id) (fromEdges : ∀ k ∈ made.edges, edges k)
    (taken : g.call order made = some g') : WellFormed p nodes edges g' := by
  cases made with
  | buildNode data => exact (wf.buildNode taken).1
  | importNode node => exact (wf.importNode (fromNodes _ List.mem_cons_self) taken).1
  | insertDistant node => exact (wf.insertDistant order (fromNodes _ List.mem_cons_self) taken).1
  | importEdge edge =>
    exact (wf.importEdge order (fromNodes _ List.mem_cons_self)
      (fromNodes _ (List.mem_cons_of_mem _ List.mem_cons_self)) (fromEdges _ List.mem_cons_self) taken).1
  | link source target layer => exact (wf.link taken).1
  | unlink edge => exact (wf.eraseEdge taken).1
  | eraseEdge edge => exact (wf.eraseEdge taken).1
  | eraseNode node => exact (wf.eraseNode order taken).1
  | clear => exact wf.clear order taken
  | clearDistantNodes => exact wf.clearNodes order taken
  | setData node data weight => exact (wf.setData taken).1

end WellFormed

theorem NodeObjects.Follow.importEnd [One W] {o : NodeObjects n} {v : GraphView n T W} (follow : o.Follow v.state)
    (id : Id n) (data : T) (location : Fin n) :
    (o.insertDistant id).Follow (v.importEnd id data location).state := by
  have placed := follow.insertDistant id
  unfold GraphView.importEnd
  cases at_ : v.core id with
  | some core =>
    rw [if_neg (by unfold GraphView.state; rw [at_]; simp)] at placed
    exact placed
  | none =>
    rw [if_pos (by unfold GraphView.state; rw [at_]; rfl)] at placed
    rw [GraphView.state_update (v := v) rfl]
    exact placed

namespace AddressedGraph

variable (order : HashOrder)

/-- The objects follow the graph. -/
structure Valid (p : Fin n) (nodes edges : Id n → Prop) (s : AddressedGraph n T W) : Prop where
  wf : WellFormed p nodes edges s.graph
  follow : s.objects.Follow s.graph.view.state

namespace Valid

variable {p : Fin n} {nodes edges : Id n → Prop} {s t : AddressedGraph n T W}

theorem stored (valid : Valid p nodes edges s) {id : Id n} {node : DistributedNode n T W}
    (at_ : s.graph.getNode id = some node) :
    s.graph.view.state id = some node.state ∧ ∃ address, s.objects.nodes.lookup id = some address := by
  have state : s.graph.view.state id = some node.state := by
    unfold GraphView.state
    rw [DistributedGraph.view_core, at_]
    rfl
  refine ⟨state, Option.ne_none_iff_exists'.mp fun none_ => ?_⟩
  cases state.symm.trans ((valid.follow.nodes id).mp none_)

theorem inGraph (valid : Valid p nodes edges s) (id : Id n) :
    (∃ node, s.graph.getNode id = some node) ↔ ∃ address, s.objects.nodes.lookup id = some address := by
  constructor
  · rintro ⟨node, at_⟩
    exact (valid.stored at_).2
  · rintro ⟨address, found⟩
    refine Option.ne_none_iff_exists'.mp fun none_ => ?_
    have absent : s.graph.view.state id = none := by
      unfold GraphView.state
      rw [DistributedGraph.view_core, none_]
      rfl
    cases found.symm.trans ((valid.follow.nodes id).mpr absent)

theorem keep (valid : Valid p nodes edges s) {result : Option (DistributedGraph n T W)}
    (kept : ∀ g, result = some g → WellFormed p nodes edges g ∧ g.view.state = s.graph.view.state)
    (taken : s.keep result = some t) : Valid p nodes edges t := by
  obtain ⟨g, made, rfl⟩ := Option.map_eq_some_iff.mp taken
  obtain ⟨wf, state⟩ := kept g made
  exact ⟨wf, state ▸ valid.follow⟩

theorem buildNode [One W] (valid : Valid p nodes edges s) {data : T}
    (taken : s.buildNode data = some t) : Valid p nodes edges t := by
  obtain ⟨g, made, rfl⟩ := Option.map_eq_some_iff.mp taken
  obtain ⟨wf, view⟩ := valid.wf.buildNode made
  refine ⟨wf, ?_⟩
  have fresh : s.graph.view.state s.graph.nodeId = none := by
    show (s.graph.view.core s.graph.nodeId).map _ = none
    rw [DistributedGraph.view_core, valid.wf.freshNode]
    rfl
  rw [view, GraphView.state_update (v := s.graph.view) rfl]
  exact valid.follow.buildNode fresh

theorem importNode (valid : Valid p nodes edges s) {node : NodeMessage n T W} (listed : nodes node.id)
    (taken : s.importNode node = some t) : Valid p nodes edges t := by
  obtain ⟨g, made, rfl⟩ := Option.map_eq_some_iff.mp taken
  obtain ⟨wf, view⟩ := valid.wf.importNode listed made
  refine ⟨wf, ?_⟩
  rw [view, GraphView.state_update (v := s.graph.view) rfl]
  exact valid.follow.importNode

theorem insertDistant (valid : Valid p nodes edges s) {node : NodeMessage n T W}
    (listed : nodes node.id) (taken : s.insertDistant order node = some t) : Valid p nodes edges t := by
  obtain ⟨g, made, rfl⟩ := Option.map_eq_some_iff.mp taken
  obtain ⟨wf, view⟩ := valid.wf.insertDistant order listed made
  refine ⟨wf, ?_⟩
  have placed := valid.follow.insertDistant node.id
  rw [view]
  by_cases absent : s.graph.view.core node.id = none
  · rw [if_pos (by unfold GraphView.state; rw [absent]; rfl)] at placed
    rw [if_pos absent, GraphView.state_update (v := s.graph.view) rfl]
    exact placed
  · rw [if_neg (by unfold GraphView.state; rw [Option.map_eq_none_iff]; exact absent)] at placed
    rw [if_neg absent]
    exact placed

theorem importEdge [One W] (valid : Valid p nodes edges s) {message : EdgeMessage n T W}
    (source : nodes message.source) (target : nodes message.target) (listed : edges message.id)
    (taken : s.importEdge order message = some t) : Valid p nodes edges t := by
  obtain ⟨g, made, rfl⟩ := Option.map_eq_some_iff.mp taken
  obtain ⟨wf, view⟩ := valid.wf.importEdge order source target listed made
  refine ⟨wf, ?_⟩
  rw [view]
  unfold GraphView.importEdge
  cases found : s.graph.view.edge message.id with
  | none =>
    rw [if_neg (AList.lookup_eq_none.mp found)]
    exact (valid.follow.importEnd _ _ _).importEnd _ _ _
  | some edge =>
    rw [if_pos ((UnorderedMap.mem_iff_lookup _ _).mpr ⟨edge, found⟩)]
    dsimp only
    split <;> exact valid.follow

theorem setDistant (valid : Valid p nodes edges s) {id : Id n} (taken : s.setDistant order id = some t) :
    Valid p nodes edges t := by
  obtain ⟨address, at_, step⟩ := Option.bind_eq_some_iff.mp taken
  obtain ⟨g, made, rfl⟩ := Option.map_eq_some_iff.mp step
  obtain ⟨wf, view⟩ := valid.wf.setDistant order made
  refine ⟨wf, ?_⟩
  have found : (s.graph.view.core id).map (fun core => core.state) ≠ none := fun none_ => by
    cases at_.symm.trans ((valid.follow.nodes id).mpr none_)
  obtain ⟨core, present⟩ := Option.ne_none_iff_exists'.mp (mt Option.map_eq_none_iff.mpr found)
  rw [view, GraphView.state_update (v := s.graph.view) rfl, present]
  exact valid.follow.setDistant at_

theorem eraseNode (valid : Valid p nodes edges s) {id : Id n} (taken : s.eraseNode order id = some t) :
    Valid p nodes edges t := by
  obtain ⟨node, at_, step⟩ := Option.bind_eq_some_iff.mp taken
  obtain ⟨g, made, rfl⟩ := Option.map_eq_some_iff.mp step
  obtain ⟨wf, view⟩ := valid.wf.eraseNode order made
  refine ⟨wf, ?_⟩
  have found : s.graph.view.state id = some node.state := by
    unfold GraphView.state
    rw [DistributedGraph.view_core, at_]
    rfl
  rw [view, GraphView.state_update (v := s.graph.view) rfl]
  exact valid.follow.erase found

theorem clearNode (valid : Valid p nodes edges s) {id : Id n} (taken : s.clearNode order id = some t) :
    Valid p nodes edges t := by
  obtain ⟨node, at_, step⟩ := Option.bind_eq_some_iff.mp taken
  obtain ⟨neighbors, read, step⟩ := Option.bind_eq_some_iff.mp step
  split at step
  · exact valid.eraseNode order step
  · obtain ⟨g, made, rfl⟩ := Option.map_eq_some_iff.mp step
    obtain ⟨wf, core⟩ := valid.wf.eraseEdges made
    refine ⟨wf, ?_⟩
    unfold GraphView.state
    rw [core]
    exact valid.follow

theorem clear (valid : Valid p nodes edges s) (taken : s.clear order = some t) :
    Valid p nodes edges t := by
  obtain ⟨g, unlinked, erased⟩ := Option.bind_eq_some_iff.mp taken
  obtain ⟨wf, core⟩ := valid.wf.eraseEdges unlinked
  refine List.foldlM_kept (fun _ _ _ _ kept step => kept.eraseNode order step) ⟨wf, ?_⟩ erased
  unfold GraphView.state
  rw [core]
  exact valid.follow

theorem clearNodes (valid : Valid p nodes edges s) {ids : List (Id n)}
    (taken : s.clearNodes order ids = some t) : Valid p nodes edges t :=
  List.foldlM_kept (fun _ _ _ _ kept step => kept.clearNode order step) valid taken

theorem call [One W] (valid : Valid p nodes edges s) {made : GraphCall n T W}
    (fromNodes : ∀ id ∈ made.nodes, nodes id) (fromEdges : ∀ k ∈ made.edges, edges k)
    (taken : s.call order made = some t) : Valid p nodes edges t := by
  cases made with
  | buildNode data => exact valid.buildNode taken
  | importNode node => exact valid.importNode (fromNodes _ List.mem_cons_self) taken
  | insertDistant node => exact valid.insertDistant order (fromNodes _ List.mem_cons_self) taken
  | importEdge edge =>
    exact valid.importEdge order (fromNodes _ List.mem_cons_self)
      (fromNodes _ (List.mem_cons_of_mem _ List.mem_cons_self)) (fromEdges _ List.mem_cons_self) taken
  | link source target layer =>
    refine valid.keep (fun g made => ?_) taken
    obtain ⟨wf, core⟩ := valid.wf.link made
    exact ⟨wf, by unfold GraphView.state; rw [core]⟩
  | unlink edge => 
    refine valid.keep (fun g made => ?_) taken
    obtain ⟨wf, view⟩ := valid.wf.eraseEdge made
    exact ⟨wf, by rw [view]; rfl⟩
  | eraseEdge edge => 
    refine valid.keep (fun g made => ?_) taken
    obtain ⟨wf, view⟩ := valid.wf.eraseEdge made
    exact ⟨wf, by rw [view]; rfl⟩
  | eraseNode node => exact valid.eraseNode order taken
  | clear => exact valid.clear order taken
  | clearDistantNodes => exact valid.clearNodes order taken
  | setData node data weight => exact valid.keep (fun g made => valid.wf.setData made) taken

theorem calls [One W] (valid : Valid p nodes edges s) {steps : List (GraphCall n T W)}
    (fromNodes : ∀ made ∈ steps, ∀ id ∈ made.nodes, nodes id)
    (fromEdges : ∀ made ∈ steps, ∀ k ∈ made.edges, edges k)
    (taken : s.calls order steps = some t) : Valid p nodes edges t :=
  List.foldlM_kept (fun _ made _ inside kept step =>
    kept.call order (fromNodes made inside) (fromEdges made inside) step) valid taken

end Valid

end AddressedGraph

end Fpmas.Graph
