import Mathlib.Logic.Function.Basic
import Fpmas.Graph.DistributedGraph

set_option autoImplicit false

namespace Fpmas.Graph

-- What a node is, apart from its edge lists.
structure NodeCore (n : Nat) (T W : Type) where
  data : T
  weight : W
  location : Fin n
  state : LocationState

/-- What the graph of one process contains, whatever the order of its lists and maps. -/
@[ext]
structure GraphView (n : Nat) (T W : Type) where
  rank : Fin n
  core : Id n → Option (NodeCore n T W)
  edge : Id n → Option (DistributedEdge n W)
  managed : Id n → Option (Fin n)
  newLocal : Id n → Prop
  nodeId : Id n
  edgeId : Id n

variable {n : Nat} {T W : Type}

namespace DistributedEdge

def Touches (edge : DistributedEdge n W) (id : Id n) : Prop :=
  edge.source = id ∨ edge.target = id

instance (edge : DistributedEdge n W) (id : Id n) : Decidable (edge.Touches id) :=
  inferInstanceAs (Decidable (_ ∨ _))

end DistributedEdge

def DistributedNode.core (node : DistributedNode n T W) : NodeCore n T W where
  data := node.data
  weight := node.weight
  location := node.location
  state := node.state

def DistributedGraph.view (g : DistributedGraph n T W) : GraphView n T W where
  rank := g.rank
  core id := (g.getNode id).map (·.core)
  edge := g.getEdge
  managed := g.locationManager.managedNodesLocations.lookup
  newLocal id := id ∈ g.locationManager.newLocalNodes
  nodeId := g.nodeId
  edgeId := g.edgeId

namespace GraphView

variable (v : GraphView n T W)

def IsLocal (id : Id n) : Prop := ∃ core, v.core id = some core ∧ core.state = .LOCAL
def IsDistant (id : Id n) : Prop := ∃ core, v.core id = some core ∧ core.state = .DISTANT

instance (id : Id n) : Decidable (v.IsLocal id) :=
  match h : v.core id with
  | none => isFalse fun ⟨_, found, _⟩ => nomatch h.symm.trans found
  | some core =>
    if state : core.state = .LOCAL then isTrue ⟨core, h, state⟩
    else isFalse fun ⟨_, found, isLocal⟩ => by
      cases h.symm.trans found
      exact state isLocal

def edgeState (source target : Id n) : LocationState :=
  if v.IsLocal source ∧ v.IsLocal target then .LOCAL else .DISTANT

def eraseEdge (id : Id n) : GraphView n T W :=
  { v with edge := Function.update v.edge id none }

/-- The edges that satisfy `gone` leave the graph. -/
noncomputable def eraseEdges (gone : Id n → Prop) : GraphView n T W :=
  open Classical in { v with edge := fun id => if gone id then none else v.edge id }

def touching (id : Id n) (edge : Id n) : Prop :=
  ∃ e, v.edge edge = some e ∧ e.Touches id

noncomputable def eraseNode (id : Id n) : GraphView n T W :=
  { v.eraseEdges (v.touching id) with core := Function.update v.core id none }

noncomputable def eraseNodes (ids : Id n → Prop) : GraphView n T W :=
  open Classical in
  { v.eraseEdges fun k => ∃ e, v.edge k = some e ∧ (ids e.source ∨ ids e.target) with
    core := fun id => if ids id then none else v.core id }

def setDistant (id : Id n) : GraphView n T W :=
  { v with
    core := Function.update v.core id ((v.core id).map fun core => { core with state := .DISTANT })
    edge := fun k => (v.edge k).map fun edge =>
      if edge.Touches id then { edge with state := .DISTANT } else edge }

def setEdgeState (id : Id n) (state : LocationState) : GraphView n T W :=
  { v with edge := Function.update v.edge id ((v.edge id).map fun edge => { edge with state }) }

/-- The content of some of the nodes changes. -/
noncomputable def amend (ids : Id n → Prop) (change : Id n → NodeCore n T W → NodeCore n T W) :
    GraphView n T W :=
  open Classical in
  { v with core := fun id => if ids id then (v.core id).map (change id) else v.core id }

noncomputable def locate (ids : Id n → Prop) (location : Id n → Fin n) : GraphView n T W :=
  v.amend ids fun id core => { core with location := location id }

def importNode (message : NodeMessage n T W) : GraphView n T W :=
  { v with
    core := Function.update v.core message.id
      (some { data := message.data, weight := message.weight, location := v.rank, state := .LOCAL })
    newLocal := fun other => other = message.id ∨ v.newLocal other }

def importEnd [One W] (id : Id n) (data : T) (location : Fin n) : GraphView n T W :=
  match v.core id with
  | some _ => v
  | none =>
    { v with
      core := Function.update v.core id (some { data, weight := 1, location, state := .DISTANT }) }

def importEdge [One W] (message : EdgeMessage n T W) : GraphView n T W :=
  match v.edge message.id with
  | none =>
    let v := v.importEnd message.source message.sourceData message.sourceLocation
    let v := v.importEnd message.target message.targetData message.targetLocation
    { v with
      edge := Function.update v.edge message.id (some
        { layer := message.layer, weight := message.weight, source := message.source,
          target := message.target, state := v.edgeState message.source message.target }) }
  | some edge =>
    if v.IsLocal edge.source ∧ v.IsLocal edge.target then v.setEdgeState message.id .LOCAL else v

def buildNode [One W] (data : T) : GraphView n T W :=
  { v with
    core := Function.update v.core v.nodeId
      (some { data, weight := 1, location := v.rank, state := .LOCAL })
    managed := Function.update v.managed v.nodeId (some v.rank)
    newLocal := fun other => other = v.nodeId ∨ v.newLocal other
    nodeId := v.nodeId.next }

/-- `edge` joins `id` to a node that is not LOCAL. -/
def Obsolete (id : Id n) (edge : Id n) : Prop :=
  ∃ e, v.edge edge = some e ∧
    (e.target = id ∧ ¬ v.IsLocal e.source ∨ e.source = id ∧ ¬ v.IsLocal e.target)

/-- `id` has no LOCAL neighbor. -/
def Isolated (id : Id n) : Prop :=
  ∀ k e, v.edge k = some e → (e.target = id → ¬ v.IsLocal e.source) ∧
    (e.source = id → ¬ v.IsLocal e.target)

noncomputable def clearNode (id : Id n) : GraphView n T W :=
  open Classical in if v.Isolated id then v.eraseNode id else v.eraseEdges (v.Obsolete id)

variable {v}

theorem eraseEdges_edge {gone : Id n → Prop} {k : Id n} {e : DistributedEdge n W} :
    (v.eraseEdges gone).edge k = some e ↔ v.edge k = some e ∧ ¬ gone k := by
  unfold eraseEdges
  by_cases left : gone k <;> simp [left]

theorem eraseEdges_eraseEdges (gone gone' : Id n → Prop) :
    (v.eraseEdges gone).eraseEdges gone' = v.eraseEdges fun k => gone k ∨ gone' k := by
  ext1 <;> try rfl
  funext k
  simp only [eraseEdges]
  by_cases left : gone k <;> by_cases left' : gone' k <;> simp [left, left']

theorem eraseNode_edge {id k : Id n} {e : DistributedEdge n W} :
    (v.eraseNode id).edge k = some e ↔ v.edge k = some e ∧ ¬ e.Touches id := by
  refine eraseEdges_edge.trans (and_congr_right fun found => not_congr ?_)
  constructor
  · rintro ⟨e', found', touches⟩
    cases found.symm.trans found'
    exact touches
  · exact fun touches => ⟨e, found, touches⟩

theorem eraseNode_core (id other : Id n) :
    (v.eraseNode id).core other = if other = id then none else v.core other :=
  Function.update_apply _ _ _ _

theorem eraseNodes_edge {ids : Id n → Prop} {k : Id n} {e : DistributedEdge n W} :
    (v.eraseNodes ids).edge k = some e ↔ v.edge k = some e ∧ ¬ ids e.source ∧ ¬ ids e.target := by
  let gone (k : Id n) := ∃ e, v.edge k = some e ∧ (ids e.source ∨ ids e.target)
  have erased : (v.eraseEdges gone).edge k = some e ↔ v.edge k = some e ∧ ¬gone k := eraseEdges_edge
  refine erased.trans (and_congr_right fun found => ?_)
  rw [← not_or]
  refine not_congr ⟨?_, fun gone => ⟨e, found, gone⟩⟩
  rintro ⟨e', found', gone⟩
  cases found.symm.trans found'
  exact gone

theorem eraseNodes_core {ids : Id n → Prop} {id : Id n} {core : NodeCore n T W} :
    (v.eraseNodes ids).core id = some core ↔ v.core id = some core ∧ ¬ ids id := by
  unfold eraseNodes
  by_cases gone : ids id <;> simp [gone]

theorem foldl_eraseNode (v : GraphView n T W) (ids : List (Id n)) :
    ids.foldl eraseNode v = v.eraseNodes (· ∈ ids) := by
  induction ids generalizing v with
  | nil => simp [eraseNodes, eraseEdges]
  | cons id rest ih =>
    rw [List.foldl_cons, ih]
    ext1 <;> try rfl
    case core =>
      funext other
      ext core
      rw [eraseNodes_core, eraseNodes_core, eraseNode, List.mem_cons]
      by_cases same : other = id
      · simp [same]
      · simp [same]
    case edge =>
      funext k
      ext e
      rw [eraseNodes_edge, eraseNodes_edge, eraseNode_edge]
      simp only [DistributedEdge.Touches, List.mem_cons]
      tauto

end GraphView

end Fpmas.Graph
