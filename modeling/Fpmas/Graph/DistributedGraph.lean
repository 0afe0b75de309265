import Mathlib.Algebra.Group.Nat.Defs
import Fpmas.Graph.Elements

set_option autoImplicit false

namespace Fpmas.Graph

-- Node pointers by id. The pointer is the id itself, so the map only stores keys.
abbrev NodeMap (n : Nat) := UnorderedMap (Id n) Unit

structure LocationManager (n : Nat) where
  managedNodesLocations : UnorderedMap (Id n) (Fin n)
  localNodes : NodeMap n
  distantNodes : NodeMap n
  newLocalNodes : NodeMap n

/-- The part of the distributed graph that one process stores. -/
structure DistributedGraph (n : Nat) (T W : Type) where
  rank : Fin n
  nodes : UnorderedMap (Id n) (DistributedNode n T W)
  edges : UnorderedMap (Id n) (DistributedEdge n W)
  locationManager : LocationManager n
  nodeId : Id n
  edgeId : Id n

-- `adl_serializer<NodePtrWrapper<T>>`.
structure NodeMessage (n : Nat) (T W : Type) where
  id : Id n
  data : T
  weight : W

-- `adl_serializer<EdgePtrWrapper<T>>` with light serialization of the source and target nodes.
structure EdgeMessage (n : Nat) (T W : Type) where
  id : Id n
  layer : LayerId
  weight : W
  source : Id n
  sourceData : T
  sourceLocation : Fin n
  target : Id n
  targetData : T
  targetLocation : Fin n

variable {n : Nat} {T W : Type}

def LocationManager.remove (manager : LocationManager n) (id : Id n) (state : LocationState) :
    LocationManager n :=
  match state with
  | .LOCAL => { manager with localNodes := manager.localNodes.erase id }
  | .DISTANT => { manager with distantNodes := manager.distantNodes.erase id }

namespace DistributedGraph

variable (g : DistributedGraph n T W) (order : HashOrder)

def empty (rank : Fin n) : DistributedGraph n T W where
  rank
  nodes := ∅
  edges := ∅
  locationManager :=
    { managedNodesLocations := ∅, localNodes := ∅, distantNodes := ∅, newLocalNodes := ∅ }
  nodeId := ⟨rank, 0⟩
  edgeId := ⟨rank, 0⟩

def getNode (id : Id n) : Option (DistributedNode n T W) := g.nodes.lookup id
def getEdge (id : Id n) : Option (DistributedEdge n W) := g.edges.lookup id

def setNode (id : Id n) (node : DistributedNode n T W) : DistributedGraph n T W :=
  { g with nodes := g.nodes.insert id node }

def insertNode (id : Id n) (node : DistributedNode n T W) : DistributedGraph n T W :=
  { g with nodes := g.nodes.insertNew id node }

def insertEdge (id : Id n) (edge : DistributedEdge n W) : DistributedGraph n T W :=
  { g with edges := g.edges.insertNew id edge }

def eraseEdge (id : Id n) : Option (DistributedGraph n T W) :=
  (g.getEdge id).bind fun edge =>
  (g.getNode edge.source).bind fun source =>
  (source.unlinkOut edge.layer id).bind fun source =>
  let g := g.setNode edge.source source
  (g.getNode edge.target).bind fun target =>
  (target.unlinkIn edge.layer id).map fun target =>
  let g := g.setNode edge.target target
  { g with edges := g.edges.erase id }

def eraseEdges (ids : List (Id n)) : Option (DistributedGraph n T W) :=
  ids.foldlM eraseEdge g

-- `erase(NodeType*)`, with the callback that removes the node from the location manager.
def eraseNode (id : Id n) : Option (DistributedGraph n T W) :=
  (g.getNode id).bind fun node =>
  (g.eraseEdges (node.getIncomingEdges order)).bind fun g =>
  (g.getNode id).bind fun node =>
  (g.eraseEdges (node.getOutgoingEdges order)).bind fun g =>
  (g.getNode id).map fun node =>
  { g with
    nodes := g.nodes.erase id
    locationManager := g.locationManager.remove id node.state }

def setEdgeState (state : LocationState) (id : Id n) : Option (DistributedGraph n T W) :=
  (g.getEdge id).map fun edge => { g with edges := g.edges.insert id { edge with state } }

def setLocal (id : Id n) : Option (DistributedGraph n T W) :=
  (g.getNode id).map fun node =>
  let g := g.setNode id { node with location := g.rank, state := .LOCAL }
  { g with
    locationManager := { g.locationManager with
      localNodes := g.locationManager.localNodes.insertNew id ()
      distantNodes := g.locationManager.distantNodes.erase id
      newLocalNodes := g.locationManager.newLocalNodes.insertNew id () } }

def setDistant (id : Id n) : Option (DistributedGraph n T W) :=
  (g.getNode id).bind fun node =>
  let g := g.setNode id { node with state := .DISTANT }
  let g := { g with
    locationManager := { g.locationManager with
      localNodes := g.locationManager.localNodes.erase id
      distantNodes := g.locationManager.distantNodes.insertNew id () } }
  (node.getOutgoingEdges order ++ node.getIncomingEdges order).foldlM
    (fun g edge => g.setEdgeState .DISTANT edge) g

def linkOut (id : Id n) (layer : LayerId) (edge : Id n) : Option (DistributedGraph n T W) :=
  (g.getNode id).map fun node => g.setNode id (node.linkOut layer edge)

def linkIn (id : Id n) (layer : LayerId) (edge : Id n) : Option (DistributedGraph n T W) :=
  (g.getNode id).map fun node => g.setNode id (node.linkIn layer edge)

def stateOf (id : Id n) : Option LocationState :=
  (g.getNode id).map (·.state)

def bothLocal (source target : Id n) : Option Bool :=
  (g.stateOf source).bind fun first =>
  (g.stateOf target).map fun second => decide (first = .LOCAL ∧ second = .LOCAL)

def setLocation (id : Id n) (location : Fin n) : Option (DistributedGraph n T W) :=
  (g.getNode id).map fun node => g.setNode id { node with location }

def importNode (message : NodeMessage n T W) : Option (DistributedGraph n T W) :=
  match g.getNode message.id with
  | none => (g.insertNode message.id (.build message.data message.weight g.rank)).setLocal message.id
  | some node =>
    (g.setNode message.id { node with data := message.data, weight := message.weight }).setLocal
      message.id

-- The branches of `importEdge` for one end of a new edge: a node that is not in the graph is built from
-- the message, as a DISTANT node.
def importEnd [One W] (id : Id n) (data : T) (location : Fin n) : Option (DistributedGraph n T W) :=
  match g.getNode id with
  | some _ => some g
  | none => (g.insertNode id (.build data 1 location)).setDistant order id

def importEdge [One W] (message : EdgeMessage n T W) : Option (DistributedGraph n T W) :=
  match g.getEdge message.id with
  | none =>
    (g.importEnd order message.source message.sourceData message.sourceLocation).bind fun g =>
    (g.linkOut message.source message.layer message.id).bind fun g =>
    (g.importEnd order message.target message.targetData message.targetLocation).bind fun g =>
    (g.linkIn message.target message.layer message.id).bind fun g =>
    (g.bothLocal message.source message.target).map fun bothLocal =>
    g.insertEdge message.id
      { layer := message.layer, weight := message.weight, source := message.source,
        target := message.target, state := if bothLocal then .LOCAL else .DISTANT }
  | some edge =>
    (g.bothLocal edge.source edge.target).bind fun bothLocal =>
    if bothLocal then g.setEdgeState .LOCAL message.id else some g

def buildNode [One W] (data : T) : Option (DistributedGraph n T W) :=
  let id := g.nodeId
  let g := { g with nodeId := g.nodeId.next }
  ((g.insertNode id (.build data 1 g.rank)).setLocal id).map fun g =>
  { g with
    locationManager := { g.locationManager with
      managedNodesLocations := g.locationManager.managedNodesLocations.insert id g.rank } }

-- `link`, up to the call of the linker: the edge is not in the map of the edges yet.
def buildEdge [One W] (source target : Id n) (layer : LayerId) :
    Option (DistributedGraph n T W × DistributedEdge n W) :=
  let id := g.edgeId
  let g := { g with edgeId := g.edgeId.next }
  (g.linkOut source layer id).bind fun g =>
  (g.linkIn target layer id).bind fun g =>
  (g.bothLocal source target).map fun bothLocal =>
  (g, { layer, weight := 1, source, target, state := if bothLocal then .LOCAL else .DISTANT })

-- The edges of a node, with the state of the node at their other end.
def neighborStates (node : DistributedNode n T W) : Option (List (Id n × LocationState)) :=
  ((node.getIncomingEdges order).mapM fun id =>
    (g.getEdge id).bind fun edge => (g.stateOf edge.source).map fun state => (id, state)).bind
      fun incoming =>
  ((node.getOutgoingEdges order).mapM fun id =>
    (g.getEdge id).bind fun edge => (g.stateOf edge.target).map fun state => (id, state)).map
      fun outgoing => incoming ++ outgoing

def clearNode (id : Id n) : Option (DistributedGraph n T W) :=
  (g.getNode id).bind fun node =>
  (g.neighborStates order node).bind fun neighbors =>
  if neighbors.all (·.2 ≠ .LOCAL) then g.eraseNode order id
  else
    -- A set of edges: the two ends of a loop give the same edge.
    g.eraseEdges (order.of ((neighbors.filter (·.2 ≠ .LOCAL)).map Prod.fst).dedup)

def clearNodes (ids : List (Id n)) : Option (DistributedGraph n T W) :=
  ids.foldlM (fun g id => g.clearNode order id) g

-- A copy of the map of the DISTANT nodes is iterated, as in the code.
def clearDistantNodes : Option (DistributedGraph n T W) :=
  g.clearNodes order ((g.locationManager.distantNodes.toList order).map Prod.fst)

def nodeMessage (id : Id n) : Option (NodeMessage n T W) :=
  (g.getNode id).map fun node => { id, data := node.data, weight := node.weight }

-- `light` is what the user's light serialization keeps of the data of a node.
def edgeMessage (light : T → T) (id : Id n) : Option (EdgeMessage n T W) :=
  (g.getEdge id).bind fun edge =>
  (g.getNode edge.source).bind fun source =>
  (g.getNode edge.target).map fun target =>
  { id, layer := edge.layer, weight := edge.weight,
    source := edge.source, sourceData := light source.data, sourceLocation := source.location,
    target := edge.target, targetData := light target.data, targetLocation := target.location }

end DistributedGraph

end Fpmas.Graph
