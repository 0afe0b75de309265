import Fpmas.Graph.Import
import Fpmas.Graph.LocationAgreement

set_option autoImplicit false

namespace Fpmas.Graph

-- A node in a json dump, with its location.
structure NodeDump (n : Nat) (T W : Type) where
  node : NodeMessage n T W
  location : Fin n

structure EdgeDump (n : Nat) (W : Type) where
  id : Id n
  layer : LayerId
  weight : W
  src : Id n
  tgt : Id n

-- What `to_json` writes of the graph of one process.
structure GraphDump (n : Nat) (T W : Type) where
  -- The key is created by the first `push_back`.
  graph : Option (List (NodeDump n T W) × List (EdgeDump n W))
  edgeId : Id n
  nodeId : Id n
  locManager : List (Id n × Fin n)

variable {n : Nat} {T W : Type}

-- The edge with the temporary source and target nodes that `from_json` builds.
def EdgeDump.message [Inhabited T] (edge : EdgeDump n W) (rank : Fin n) : EdgeMessage n T W where
  id := edge.id
  layer := edge.layer
  weight := edge.weight
  source := edge.src
  sourceData := default
  sourceLocation := rank
  target := edge.tgt
  targetData := default
  targetLocation := rank

namespace DistributedGraph

variable (g : DistributedGraph n T W) (order : HashOrder)

def toJson : GraphDump n T W :=
  let nodes := (g.nodes.toList order).map fun entry =>
    { node := { id := entry.1, data := entry.2.data, weight := entry.2.weight }
      location := entry.2.location }
  let edges := (g.edges.toList order).map fun entry =>
    { id := entry.1, layer := entry.2.layer, weight := entry.2.weight
      src := entry.2.source, tgt := entry.2.target }
  { graph := if nodes.isEmpty && edges.isEmpty then none else some (nodes, edges)
    edgeId := g.edgeId
    nodeId := g.nodeId
    locManager := g.locationManager.managedNodesLocations.toList order }

def insertDistant (node : NodeMessage n T W) : Option (DistributedGraph n T W) :=
  match g.getNode node.id with
  | none => (g.insertNode node.id (.build node.data node.weight g.rank)).setDistant order node.id
  | some _ => some g

def loadNode (dump : NodeDump n T W) : Option (DistributedGraph n T W) :=
  (if dump.location = g.rank then g.importNode dump.node
    else g.insertDistant order dump.node).bind fun g =>
  g.setLocation dump.node.id dump.location

-- Both ends are asserted to be in the graph.
def loadEdge [One W] [Inhabited T] (dump : EdgeDump n W) : Option (DistributedGraph n T W) :=
  if dump.src ∈ g.nodes ∧ dump.tgt ∈ g.nodes then g.importEdge order (dump.message g.rank) else none

def fromJson [One W] [Inhabited T] (dump : GraphDump n T W) : Option (DistributedGraph n T W) :=
  -- `operator[]` of a constant json object asserts that it has the key.
  dump.graph.bind fun parts =>
  (parts.1.foldlM (fun (g : DistributedGraph n T W) node => g.loadNode order node) g).bind fun g =>
  (parts.2.foldlM (fun (g : DistributedGraph n T W) edge => g.loadEdge order edge) g).map fun g =>
  dump.locManager.foldl (fun (g : DistributedGraph n T W) item => g.addManagedNode item.1 item.2)
    { g with
      nodeId := dump.nodeId
      edgeId := dump.edgeId }

end DistributedGraph

def NodeDump.core (dump : NodeDump n T W) (rank : Fin n) : NodeCore n T W where
  data := dump.node.data
  weight := dump.node.weight
  location := dump.location
  state := if dump.location = rank then .LOCAL else .DISTANT

namespace GraphView

variable (v : GraphView n T W)

def loadNode (dump : NodeDump n T W) : GraphView n T W :=
  { v with
    core := Function.update v.core dump.node.id (some (dump.core v.rank))
    newLocal := fun id => id = dump.node.id ∧ dump.location = v.rank ∨ v.newLocal id }

-- A node is loaded as LOCAL when it was on the process, and an edge when both its ends are.
def loaded : GraphView n T W :=
  let nodes : GraphView n T W :=
    { v with core := fun id => (v.core id).map fun core =>
      { core with state := if core.location = v.rank then .LOCAL else .DISTANT } }
  { nodes with
    edge := fun k => (v.edge k).map fun e => { e with state := nodes.edgeState e.source e.target }
    newLocal := nodes.IsLocal }

theorem loaded_isLocal (id : Id n) :
    v.loaded.IsLocal id ↔ ∃ core, v.core id = some core ∧ core.location = v.rank := by
  constructor
  · rintro ⟨core, found, state⟩
    obtain ⟨before, stored, rfl⟩ := Option.map_eq_some_iff.mp found
    refine ⟨before, stored, ?_⟩
    by_contra away
    rw [if_neg away] at state
    cases state
  · rintro ⟨core, found, here⟩
    refine ⟨{ core with state := .LOCAL }, ?_, rfl⟩
    show (v.core id).map _ = _
    rw [found, Option.map_some, if_pos here]

-- The nodes of the dumps are there, and those that are LOCAL are new LOCAL nodes.
structure NodesLoaded (v v' : GraphView n T W) (dumps : List (NodeDump n T W)) : Prop where
  inside : ∀ dump ∈ dumps, v'.core dump.node.id = some (dump.core v.rank)
  outside : ∀ id, id ∉ dumps.map (·.node.id) → v'.core id = v.core id
  newLocal : ∀ id, v'.newLocal id ↔
    (∃ dump ∈ dumps, dump.node.id = id ∧ dump.location = v.rank) ∨ v.newLocal id
  rest : v' = { v with
    core := v'.core
    newLocal := v'.newLocal }

variable {v}

theorem loadNodes {dumps : List (NodeDump n T W)} (once : (dumps.map (·.node.id)).Nodup) :
    NodesLoaded v (dumps.foldl loadNode v) dumps := by
  induction dumps generalizing v with
  | nil => exact ⟨by simp, fun _ _ => rfl, by simp, rfl⟩
  | cons first rest ih =>
    rw [List.map_cons, List.nodup_cons] at once
    rw [List.foldl_cons]
    have later := ih (v := v.loadNode first) once.2
    refine ⟨fun dump member => ?_, fun id outside => ?_, fun id => ?_, ?_⟩
    · rcases List.mem_cons.mp member with rfl | member
      · rw [later.outside _ once.1]
        exact Function.update_self _ _ _
      · exact later.inside dump member
    · rw [List.map_cons, List.mem_cons, not_or] at outside
      rw [later.outside id outside.2]
      exact Function.update_of_ne outside.1 _ _
    · rw [later.newLocal]
      constructor
      · rintro (⟨dump, member, same, here⟩ | ⟨rfl, here⟩ | before)
        · exact .inl ⟨dump, List.mem_cons_of_mem first member, same, here⟩
        · exact .inl ⟨first, List.mem_cons_self, rfl, here⟩
        · exact .inr before
      · rintro (⟨dump, member, same, here⟩ | before)
        · rcases List.mem_cons.mp member with rfl | member
          · exact .inr (.inl ⟨same.symm, here⟩)
          · exact .inl ⟨dump, member, same, here⟩
        · exact .inr (.inr before)
    · rw [later.rest]
      rfl

end GraphView

section

variable {g : DistributedGraph n T W} (inv : GraphInv g) (order : HashOrder)

include inv

theorem GraphInv.setLocation {id : Id n} {core : NodeCore n T W} (found : g.view.core id = some core)
    (location : Fin n) :
    Refines (g.setLocation id location)
      { g.view with core := Function.update g.view.core id (some { core with location }) } := by
  obtain ⟨node, at_, rfl⟩ := DistributedGraph.getNode_of_view rfl found
  obtain ⟨inv', view⟩ := inv.setNode { node with location } at_ rfl rfl rfl
  exact ⟨_, by rw [DistributedGraph.setLocation, at_, Option.map_some], inv', view⟩

theorem GraphInv.insertDistant {node : NodeMessage n T W} (absent : g.getNode node.id = none) :
    Refines (g.insertDistant order node)
      { g.view with
        core := Function.update g.view.core node.id (some
          { data := node.data, weight := node.weight, location := g.rank, state := .DISTANT }) } := by
  obtain ⟨g', built, result, placed, core, empty, view⟩ :=
    DistributedGraph.setDistant_new order absent node.data node.weight g.rank
  refine ⟨g', ?_, placed.inv inv (.inr ⟨absent, empty⟩), ?_⟩
  · unfold DistributedGraph.insertDistant
    rw [absent]
    exact result
  · rw [view, placed.core, core]

theorem GraphInv.loadNode {dump : NodeDump n T W} (absent : g.view.core dump.node.id = none) :
    Refines (g.loadNode order dump) (g.view.loadNode dump) := by
  have missing : g.getNode dump.node.id = none := Option.map_eq_none_iff.mp absent
  unfold DistributedGraph.loadNode
  by_cases here : dump.location = g.rank
  · rw [if_pos here]
    refine (inv.importNode dump.node).bind fun g' inv' view => ?_
    have found : g'.view.core dump.node.id = some
        { data := dump.node.data, weight := dump.node.weight, location := g.rank, state := .LOCAL } := by
      rw [view]
      exact Function.update_self _ _ _
    obtain ⟨g'', result, inv'', view'⟩ := inv'.setLocation found dump.location
    refine ⟨g'', result, inv'', view'.trans ?_⟩
    rw [view]
    simp [GraphView.loadNode, GraphView.importNode, NodeDump.core, here]
  · rw [if_neg here]
    refine (inv.insertDistant order missing).bind fun g' inv' view => ?_
    have found : g'.view.core dump.node.id = some
        { data := dump.node.data, weight := dump.node.weight, location := g.rank, state := .DISTANT } := by
      rw [view]
      exact Function.update_self _ _ _
    obtain ⟨g'', result, inv'', view'⟩ := inv'.setLocation found dump.location
    refine ⟨g'', result, inv'', view'.trans ?_⟩
    rw [view]
    simp [GraphView.loadNode, NodeDump.core, here]

theorem GraphInv.loadNodes {dumps : List (NodeDump n T W)} (once : (dumps.map (·.node.id)).Nodup)
    (absent : ∀ dump ∈ dumps, g.view.core dump.node.id = none) :
    Refines (dumps.foldlM (fun g dump => g.loadNode order dump) g)
      (dumps.foldl GraphView.loadNode g.view) := by
  apply Refines.foldlM (fun v l => (l.map (·.node.id)).Nodup ∧ ∀ dump ∈ l, v.core dump.node.id = none)
  · rintro g dump rest inv ⟨_, absent⟩
    exact inv.loadNode order (absent dump List.mem_cons_self)
  · rintro v dump rest ⟨once, absent⟩
    rw [List.map_cons, List.nodup_cons] at once
    refine ⟨once.2, fun other member => ?_⟩
    have different : other.node.id ≠ dump.node.id := fun same =>
      once.1 (same ▸ List.mem_map_of_mem member)
    exact (Function.update_of_ne different _ _).trans (absent other (List.mem_cons_of_mem dump member))
  · exact inv
  · exact ⟨once, absent⟩

theorem GraphInv.loadEdges [One W] [Inhabited T] (dumps : List (EdgeDump n W))
    (once : (dumps.map (·.id)).Nodup) (absent : ∀ dump ∈ dumps, g.view.edge dump.id = none)
    (ends : ∀ dump ∈ dumps, ∃ source target, g.view.core dump.src = some source ∧
      g.view.core dump.tgt = some target) :
    Refines (dumps.foldlM (fun g dump => g.loadEdge order dump) g)
      { g.view with edge := fun k =>
        ((dumps.find? (·.id = k)).map fun dump =>
          { layer := dump.layer, weight := dump.weight, source := dump.src, target := dump.tgt
            state := g.view.edgeState dump.src dump.tgt }).or (g.view.edge k) } := by
  induction dumps generalizing g with
  | nil => exact ⟨g, rfl, inv, rfl⟩
  | cons first rest ih =>
    rw [List.map_cons, List.nodup_cons] at once
    obtain ⟨source, target, atSource, atTarget⟩ := ends first List.mem_cons_self
    have fresh := absent first List.mem_cons_self
    have present : ∀ id core, g.view.core id = some core → id ∈ g.nodes := by
      intro id core found
      obtain ⟨node, at_, _⟩ := DistributedGraph.getNode_of_view rfl found
      exact (UnorderedMap.mem_iff_lookup _ _).mpr ⟨node, at_⟩
    have asserted : first.src ∈ g.nodes ∧ first.tgt ∈ g.nodes :=
      ⟨present _ _ atSource, present _ _ atTarget⟩
    rw [List.foldlM_cons, DistributedGraph.loadEdge, if_pos asserted]
    refine (inv.importEdge order (first.message g.rank)).bind fun g' inv' view => ?_
    have loaded : g'.view = { g.view with edge := Function.update g.view.edge first.id (some
        { layer := first.layer, weight := first.weight, source := first.src, target := first.tgt
          state := g.view.edgeState first.src first.tgt }) } := by
      rw [view]
      simp only [GraphView.importEdge, EdgeDump.message, fresh, GraphView.importEnd, atSource, atTarget]
    obtain ⟨g'', result, inv'', view'⟩ := ih inv' once.2
      (fun dump member => by
        have different : dump.id ≠ first.id := fun same =>
          once.1 (same ▸ List.mem_map_of_mem member)
        rw [loaded]
        exact (Function.update_of_ne different _ _).trans
          (absent dump (List.mem_cons_of_mem first member)))
      (fun dump member => by
        rw [loaded]
        exact ends dump (List.mem_cons_of_mem first member))
    refine ⟨g'', result, inv'', view'.trans ?_⟩
    rw [loaded]
    ext1 <;> try rfl
    funext k
    dsimp only
    by_cases here : first.id = k
    · subst here
      have other : rest.find? (fun dump => decide (dump.id = first.id)) = none := by
        rw [List.find?_eq_none]
        intro dump member same
        exact once.1 (of_decide_eq_true same ▸ List.mem_map_of_mem member)
      rw [other, List.find?_cons_of_pos (by simp)]
      simp [Function.update_self]
    · rw [List.find?_cons_of_neg (by simpa using here), Function.update_of_ne (Ne.symm here)]
      rfl

omit inv in
-- A graph without nodes is dumped without its key, and its dump cannot be loaded.
theorem GraphInv.fromJson_empty [One W] [Inhabited T] (inv : GraphInv g)
    (none_ : ∀ id, g.view.core id = none) (dump : HashOrder) (h : DistributedGraph n T W) :
    h.fromJson order (g.toJson dump) = none := by
  have noNode : g.nodes.toList dump = [] := by
    rw [List.eq_nil_iff_forall_not_mem]
    rintro ⟨id, node⟩ member
    have at_ : g.getNode id = some node := (UnorderedMap.mem_toList dump _).mp member
    have absent := none_ id
    rw [DistributedGraph.view_core, at_] at absent
    cases absent
  have noEdge : g.edges.toList dump = [] := by
    rw [List.eq_nil_iff_forall_not_mem]
    rintro ⟨k, e⟩ member
    obtain ⟨source, at_⟩ := inv.source k e ((UnorderedMap.mem_toList dump _).mp member)
    have absent := none_ e.source
    rw [DistributedGraph.view_core, at_] at absent
    cases absent
  have key : (g.toJson dump).graph = none := by
    simp only [DistributedGraph.toJson, noNode, noEdge, List.map_nil, List.isEmpty_nil, Bool.and_self,
      if_true]
  unfold DistributedGraph.fromJson
  rw [key]
  rfl

omit inv in
theorem DistributedGraph.addManagedNodes (items : List (Id n × Fin n)) :
    items.foldl (fun (g : DistributedGraph n T W) item => g.addManagedNode item.1 item.2) g =
      g.withManaged (items.foldl (fun m item => m.insert item.1 item.2)
        g.locationManager.managedNodesLocations) := by
  induction items generalizing g with
  | nil => rfl
  | cons item rest ih =>
    rw [List.foldl_cons, ih]
    rfl

end

-- The nodes and the edges of a graph, each once.
structure Dumped (g : DistributedGraph n T W) (nodes : List (NodeDump n T W))
    (edges : List (EdgeDump n W)) : Prop where
  onceNodes : (nodes.map (·.node.id)).Nodup
  onceEdges : (edges.map (·.id)).Nodup
  node : ∀ dump, dump ∈ nodes ↔ ∃ node, g.getNode dump.node.id = some node ∧
    dump.node.data = node.data ∧ dump.node.weight = node.weight ∧ dump.location = node.location
  edge : ∀ dump, dump ∈ edges ↔ ∃ e, g.getEdge dump.id = some e ∧
    dump.layer = e.layer ∧ dump.weight = e.weight ∧ dump.src = e.source ∧ dump.tgt = e.target

theorem DistributedGraph.toJson_dumped (g : DistributedGraph n T W) {id : Id n} {core : NodeCore n T W}
    (found : g.view.core id = some core) (order : HashOrder) :
    ∃ nodes edges, (g.toJson order).graph = some (nodes, edges) ∧ Dumped g nodes edges := by
  let nodes := (g.nodes.toList order).map fun entry =>
    ({ node := { id := entry.1, data := entry.2.data, weight := entry.2.weight }
       location := entry.2.location } : NodeDump n T W)
  let edges := (g.edges.toList order).map fun entry =>
    ({ id := entry.1, layer := entry.2.layer, weight := entry.2.weight
       src := entry.2.source, tgt := entry.2.target } : EdgeDump n W)
  have dumped : Dumped g nodes edges := by
    constructor
    case onceNodes =>
      have ids : nodes.map (·.node.id) = (g.nodes.toList order).map Prod.fst := by
        simp [nodes, Function.comp_def]
      exact ids ▸ UnorderedMap.nodup_toList order _
    case onceEdges =>
      have ids : edges.map (·.id) = (g.edges.toList order).map Prod.fst := by
        simp [edges, Function.comp_def]
      exact ids ▸ UnorderedMap.nodup_toList order _
    case node =>
      intro dump
      simp only [nodes, List.mem_map]
      constructor
      · rintro ⟨⟨id, node⟩, member, rfl⟩
        exact ⟨node, (UnorderedMap.mem_toList order _).mp member, rfl, rfl, rfl⟩
      · obtain ⟨⟨id, data, weight⟩, location⟩ := dump
        rintro ⟨node, stored, rfl, rfl, rfl⟩
        exact ⟨(id, node), (UnorderedMap.mem_toList order _).mpr stored, rfl⟩
    case edge =>
      intro dump
      simp only [edges, List.mem_map]
      constructor
      · rintro ⟨⟨k, e⟩, member, rfl⟩
        exact ⟨e, (UnorderedMap.mem_toList order _).mp member, rfl, rfl, rfl, rfl⟩
      · obtain ⟨k, layer, weight, src, tgt⟩ := dump
        rintro ⟨e, stored, rfl, rfl, rfl, rfl⟩
        exact ⟨(k, e), (UnorderedMap.mem_toList order _).mpr stored, rfl⟩
  refine ⟨nodes, edges, ?_, dumped⟩
  obtain ⟨node, at_, _⟩ := DistributedGraph.getNode_of_view rfl found
  have member := (dumped.node ⟨⟨id, node.data, node.weight⟩, node.location⟩).mpr
    ⟨node, at_, rfl, rfl, rfl⟩
  have nonempty : nodes.isEmpty = false := List.isEmpty_eq_false_iff_exists_mem.mpr ⟨_, member⟩
  show (if nodes.isEmpty && edges.isEmpty then none else some (nodes, edges)) = _
  rw [nonempty]
  rfl

namespace Dumped

variable {g : DistributedGraph n T W} {nodes : List (NodeDump n T W)} {edges : List (EdgeDump n W)}
  (dumped : Dumped g nodes edges)

include dumped

theorem core {v : GraphView n T W}
    (loaded : GraphView.NodesLoaded (DistributedGraph.empty g.rank).view v nodes) :
    v.core = g.view.loaded.core := by
  funext id
  show _ = (g.view.core id).map _
  rw [DistributedGraph.view_core g]
  cases at_ : g.getNode id with
  | none =>
    refine loaded.outside id fun member => ?_
    obtain ⟨dump, inside, rfl⟩ := List.mem_map.mp member
    obtain ⟨node, stored, _⟩ := (dumped.node dump).mp inside
    cases at_.symm.trans stored
  | some node =>
    have member := (dumped.node ⟨⟨id, node.data, node.weight⟩, node.location⟩).mpr
      ⟨node, at_, rfl, rfl, rfl⟩
    exact loaded.inside _ member

theorem newLocal {v : GraphView n T W}
    (loaded : GraphView.NodesLoaded (DistributedGraph.empty g.rank).view v nodes) (id : Id n) :
    v.newLocal id ↔ g.view.loaded.IsLocal id := by
  rw [loaded.newLocal, GraphView.loaded_isLocal]
  constructor
  · rintro (⟨dump, member, rfl, here⟩ | fresh)
    · obtain ⟨node, stored, _, _, location⟩ := (dumped.node dump).mp member
      refine ⟨node.core, ?_, location.symm.trans here⟩
      rw [DistributedGraph.view_core, stored, Option.map_some]
    · exact absurd fresh (AList.notMem_empty id)
  · rintro ⟨core, stored, here⟩
    obtain ⟨node, at_, rfl⟩ := DistributedGraph.getNode_of_view rfl stored
    exact .inl ⟨⟨⟨id, node.data, node.weight⟩, node.location⟩,
      (dumped.node _).mpr ⟨node, at_, rfl, rfl, rfl⟩, rfl, here⟩

theorem find_edge (k : Id n) : edges.find? (·.id = k) = (g.getEdge k).map fun e =>
    { id := k, layer := e.layer, weight := e.weight, src := e.source, tgt := e.target } := by
  cases stored : g.getEdge k with
  | none =>
    rw [Option.map_none, List.find?_eq_none]
    intro dump member same
    obtain ⟨e, inside, _⟩ := (dumped.edge dump).mp member
    rw [of_decide_eq_true same] at inside
    cases stored.symm.trans inside
  | some e =>
    have member := (dumped.edge ⟨k, e.layer, e.weight, e.source, e.target⟩).mpr
      ⟨e, stored, rfl, rfl, rfl, rfl⟩
    obtain ⟨dump, listed⟩ : ∃ dump, edges.find? (·.id = k) = some dump := by
      rw [← Option.isSome_iff_exists, List.find?_isSome]
      exact ⟨_, member, decide_eq_true rfl⟩
    have same := of_decide_eq_true (List.find?_some (p := fun edge : EdgeDump n W => edge.id = k) listed)
    rw [listed, Option.map_some]
    exact congrArg some (List.inj_on_of_nodup_map dumped.onceEdges (List.mem_of_find?_eq_some listed)
      member same)

end Dumped

section

variable {g : DistributedGraph n T W}

-- What is loaded from the dump of a graph that has a node.
theorem GraphInv.fromJson_toJson [One W] [Inhabited T] (inv : GraphInv g) (order : HashOrder)
    {id : Id n} {core : NodeCore n T W} (found : g.view.core id = some core) (dump : HashOrder) :
    Refines ((DistributedGraph.empty g.rank).fromJson order (g.toJson dump)) g.view.loaded := by
  obtain ⟨nodes, edges, key, dumped⟩ := g.toJson_dumped found dump
  let start : DistributedGraph n T W := .empty g.rank
  obtain ⟨g₁, result₁, inv₁, view₁⟩ := (graphInv_empty g.rank : GraphInv start).loadNodes order
    dumped.onceNodes fun _ _ => rfl
  have loaded : GraphView.NodesLoaded (DistributedGraph.empty g.rank).view g₁.view nodes :=
    view₁ ▸ GraphView.loadNodes dumped.onceNodes
  have core₁ := dumped.core loaded
  have isLocal₁ : ∀ id, g₁.view.IsLocal id ↔ g.view.loaded.IsLocal id := by
    intro id
    unfold GraphView.IsLocal
    rw [core₁]
  have edge₁ : ∀ k, g₁.view.edge k = none := by
    intro k
    rw [loaded.rest]
    rfl
  obtain ⟨g₂, result₂, inv₂, view₂⟩ := inv₁.loadEdges order edges dumped.onceEdges
    (fun edge _ => edge₁ edge.id) (fun edge member => by
      obtain ⟨e, stored, _, _, src, tgt⟩ := (dumped.edge edge).mp member
      obtain ⟨source, atSource⟩ := inv.source _ e stored
      obtain ⟨target, atTarget⟩ := inv.target _ e stored
      rw [core₁, src, tgt]
      show ∃ source target, (g.view.core e.source).map _ = some source ∧
        (g.view.core e.target).map _ = some target
      rw [DistributedGraph.view_core, DistributedGraph.view_core, atSource, atTarget]
      exact ⟨_, _, rfl, rfl⟩)
  let last : DistributedGraph n T W :=
    { g₂ with
      nodeId := g.nodeId
      edgeId := g.edgeId }
  have managed₂ : g₂.locationManager.managedNodesLocations.lookup = fun _ => none := by
    show g₂.view.managed = _
    rw [view₂]
    show g₁.view.managed = _
    rw [loaded.rest]
    rfl
  have result : (DistributedGraph.empty g.rank).fromJson order (g.toJson dump) =
      some (last.withManaged ((g.locationManager.managedNodesLocations.toList dump).foldl
        (fun m item => m.insert item.1 item.2) last.locationManager.managedNodesLocations)) := by
    unfold DistributedGraph.fromJson
    rw [key, Option.bind_some, result₁, Option.bind_some, result₂, Option.map_some,
      DistributedGraph.addManagedNodes]
    rfl
  refine ⟨_, result, GraphInv.withManaged ?_ _, ?_⟩
  · exact ⟨inv₂.source, inv₂.target, inv₂.outgoing, inv₂.incoming, inv₂.localNodes, inv₂.distantNodes⟩
  · ext1
    case rank =>
      show g₂.view.rank = g.rank
      rw [view₂]
      show g₁.view.rank = g.rank
      rw [loaded.rest]
      rfl
    case core =>
      show g₂.view.core = g.view.loaded.core
      rw [view₂]
      exact core₁
    case edge =>
      funext k
      show g₂.view.edge k = (g.getEdge k).map _
      rw [view₂]
      dsimp only
      rw [edge₁, Option.or_none, dumped.find_edge, Option.map_map]
      refine Option.map_congr fun e _ => ?_
      show DistributedEdge.mk _ _ _ _ _ = _
      rw [GraphView.edgeState_congr isLocal₁]
      rfl
    case managed =>
      funext id
      ext location
      refine (UnorderedMap.lookup_foldl_insert (UnorderedMap.nodup_toList dump _) _ id location).trans ?_
      rw [UnorderedMap.mem_toList, show last.locationManager.managedNodesLocations.lookup id = none from
        congrFun managed₂ id]
      exact or_iff_left fun absurd_ => nomatch absurd_.2
    case newLocal =>
      funext id
      show g₂.view.newLocal id = g.view.loaded.IsLocal id
      rw [view₂]
      exact propext (dumped.newLocal loaded id)
    case nodeId => rfl
    case edgeId => rfl

end

end Fpmas.Graph
