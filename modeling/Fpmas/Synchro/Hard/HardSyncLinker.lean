import Fpmas.Graph.Distribute
import Fpmas.Graph.GlobalGraph
import Fpmas.Library.TransitionSystem

set_option autoImplicit false

namespace Fpmas.Synchro.Hard

open Fpmas.Graph

inductive LinkMessage (n : Nat) (T W : Type) where
  | link (edge : EdgeMessage n T W)
  | unlink (edge : Id n)
  | removeNode (node : Id n)

-- A request initiated by `Issend` and not received yet.
structure LinkRequest (n : Nat) (T W : Type) where
  dest : Fin n
  message : LinkMessage n T W

-- The calls of the linker that a process is in. A request that is not received yet stays in the frame of
-- the call that waits for it.
inductive LinkFrame (n : Nat) (T W : Type) where
  -- `LinkClient::link`: the edge is in the lists of its nodes, but not in the graph yet.
  | link (id : Id n) (edge : DistributedEdge n W) (sends : List (LinkRequest n T W))
  | unlink (id : Id n) (sends : List (LinkRequest n T W))
  | removeNode (id : Id n) (sends : List (LinkRequest n T W))
  -- `removeNode` waits for the mutex of the node.
  | lockShared (id : Id n)
  -- The loops of `removeNode` on the edges of a LOCAL node: the second one, on the incoming edges,
  -- copies them once the first one has ended.
  | unlinkEdges (id : Id n) (edges : List (Id n)) (incoming : Bool)

def LinkFrame.sends {n : Nat} {T W : Type} : LinkFrame n T W → List (LinkRequest n T W)
  | link _ _ sends => sends
  | unlink _ sends => sends
  | removeNode _ sends => sends
  | lockShared _ => []
  | unlinkEdges _ _ _ => []

def LinkFrame.received {n : Nat} {T W : Type} (index : Nat) : LinkFrame n T W → LinkFrame n T W
  | link id edge sends => link id edge (sends.eraseIdx index)
  | unlink id sends => unlink id (sends.eraseIdx index)
  | removeNode id sends => removeNode id (sends.eraseIdx index)
  | lockShared id => lockShared id
  | unlinkEdges id edges incoming => unlinkEdges id edges incoming

structure LinkServer (n : Nat) where
  lockedUnlinkEdges : List (Id n)
  lockedRemoveNodes : List (Id n)

namespace LinkServer

variable {n : Nat} (server : LinkServer n) (id : Id n)

def empty : LinkServer n where
  lockedUnlinkEdges := []
  lockedRemoveNodes := []

def lockUnlink : LinkServer n :=
  { server with lockedUnlinkEdges := server.lockedUnlinkEdges.insert id }

def isLockedUnlink : Bool := server.lockedUnlinkEdges.contains id

def unlockUnlink : LinkServer n :=
  { server with lockedUnlinkEdges := server.lockedUnlinkEdges.filter (· ≠ id) }

def lockRemoveNode : LinkServer n :=
  { server with lockedRemoveNodes := server.lockedRemoveNodes.insert id }

def isLockedRemoveNode : Bool := server.lockedRemoveNodes.contains id

def unlockRemoveNode : LinkServer n :=
  { server with lockedRemoveNodes := server.lockedRemoveNodes.filter (· ≠ id) }

variable {server id}

theorem isLockedUnlink_iff : server.isLockedUnlink id = true ↔ id ∈ server.lockedUnlinkEdges :=
  List.contains_iff_mem

end LinkServer

-- The graph of one process, with its `HardSyncLinker` and its `LinkServer`.
structure HardProcess (n : Nat) (T W : Type) where
  graph : DistributedGraph n T W
  ghostEdges : List (Id n)
  nodesToRemove : List (Id n)
  server : LinkServer n
  stack : List (LinkFrame n T W)
  -- Whether the process is in `terminate`, called by `HardSyncLinker::synchronize`.
  synchronizing : Bool

namespace HardProcess

variable {n : Nat} {T W : Type} (s : HardProcess n T W) (order : HashOrder)

def empty (rank : Fin n) : HardProcess n T W where
  graph := .empty rank
  ghostEdges := []
  nodesToRemove := []
  server := .empty
  stack := []
  synchronizing := false

def running : Bool := s.stack.isEmpty && !s.synchronizing

-- A process handles requests in the waits of its calls, and in `terminate`. When it is in no call of the
-- linker, its user may be in a call of a mutex, that waits in the same way.
def listening : Bool :=
  match s.stack with
  | .unlinkEdges _ _ _ :: _ => false
  | _ => true

def buildNode [One W] (data : T) : Option (HardProcess n T W) :=
  (s.graph.buildNode data).map fun graph => { s with graph }

def linkRequests (light : T → T) (graph : DistributedGraph n T W) (id : Id n)
    (edge : DistributedEdge n W) : Option (List (LinkRequest n T W)) :=
  (graph.getNode edge.source).bind fun src =>
  (graph.getNode edge.target).map fun tgt =>
  let message : LinkMessage n T W := .link
    { id, layer := edge.layer, weight := edge.weight,
      source := edge.source, sourceData := light src.data, sourceLocation := src.location,
      target := edge.target, targetData := light tgt.data, targetLocation := tgt.location }
  if src.location ≠ tgt.location then
    (if src.state = .DISTANT then [{ dest := src.location, message }] else []) ++
      if tgt.state = .DISTANT then [{ dest := tgt.location, message }] else []
  -- Both nodes are on the same process: one request is enough.
  else [{ dest := src.location, message }]

def link [One W] (light : T → T) (source target : Id n) (layer : LayerId) :
    Option (HardProcess n T W) :=
  let id := s.graph.edgeId
  (s.graph.buildEdge source target layer).bind fun built =>
  if built.2.state = .DISTANT then
    (linkRequests light built.1 id built.2).map fun sends =>
    { s with graph := built.1, stack := .link id built.2 sends :: s.stack }
  else some { s with graph := built.1.insertEdge id built.2 }

def linked (id : Id n) (edge : DistributedEdge n W) : Option (HardProcess n T W) :=
  (s.graph.getNode edge.source).bind fun src =>
  (s.graph.getNode edge.target).map fun tgt =>
  { s with
    graph := s.graph.insertEdge id edge
    ghostEdges :=
      if src.state = .DISTANT ∧ tgt.state = .DISTANT then s.ghostEdges ++ [id] else s.ghostEdges }

def unlinkRequests (id : Id n) (edge : DistributedEdge n W) : Option (List (LinkRequest n T W)) :=
  (s.graph.getNode edge.source).bind fun src =>
  (s.graph.getNode edge.target).map fun tgt =>
  (if src.state = .DISTANT then [{ dest := src.location, message := .unlink id }] else []) ++
    if tgt.state = .DISTANT then [{ dest := tgt.location, message := .unlink id }] else []

-- The end of `unlink`. Nothing is left of an edge that has been erased meanwhile.
def unlinked (id : Id n) : Option (HardProcess n T W) :=
  (s.graph.eraseEdge id).map fun graph =>
  { s with graph, server := s.server.unlockUnlink id }

def unlink (id : Id n) : Option (HardProcess n T W) :=
  (s.graph.getEdge id).bind fun edge =>
  let s := { s with server := s.server.lockUnlink id }
  if edge.state = .DISTANT then
    (s.unlinkRequests id edge).map fun sends => { s with stack := .unlink id sends :: s.stack }
  else s.unlinked id

def removeNode (id : Id n) : Option (HardProcess n T W) :=
  (s.graph.getNode id).map fun _ => { s with stack := .lockShared id :: s.stack }

-- The mutex of the node is locked.
def removeLocked (id : Id n) : Option (HardProcess n T W) :=
  (s.graph.getNode id).map fun node =>
  match node.state with
  | .DISTANT => { s with
      stack := .removeNode id [{ dest := node.location, message := .removeNode id }] :: s.stack }
  | .LOCAL => { s with
      server := s.server.lockRemoveNode id
      stack := .unlinkEdges id (node.getOutgoingEdges order) false :: s.stack }

def registerNodeToRemove (id : Id n) : HardProcess n T W :=
  { s with nodesToRemove := s.nodesToRemove ++ [id] }

-- The innermost call goes on, once the requests it waits for are received.
def resume : Option (HardProcess n T W) :=
  match s.stack with
  | .link id edge [] :: stack => { s with stack }.linked id edge
  | .unlink id [] :: stack => { s with stack }.unlinked id
  | .removeNode id [] :: stack => some ({ s with stack }.registerNodeToRemove id)
  | .lockShared id :: stack => { s with stack }.removeLocked order id
  | .unlinkEdges id (edge :: edges) incoming :: stack =>
    { s with stack := .unlinkEdges id edges incoming :: stack }.unlink edge
  | .unlinkEdges id [] false :: stack => (s.graph.getNode id).map fun node =>
    { s with stack := .unlinkEdges id (node.getIncomingEdges order) true :: stack }
  | .unlinkEdges id [] true :: stack =>
    some ({ s with stack, server := s.server.unlockRemoveNode id }.registerNodeToRemove id)
  | _ => none

-- `LinkServer::handleIncomingRequests`, for one request.
def handle [One W] : LinkMessage n T W → Option (HardProcess n T W)
  | .link edge => (s.graph.importEdge order edge).map fun graph => { s with graph }
  | .unlink id =>
    if s.server.isLockedUnlink id then some s
    else (s.graph.getEdge id).elim (some s) fun edge =>
      if s.server.isLockedRemoveNode edge.source || s.server.isLockedRemoveNode edge.target then some s
      else (s.graph.eraseEdge id).map fun graph => { s with graph }
  | .removeNode id => s.removeNode id

-- `HardSyncLinker::synchronize`, up to `terminate`.
def synchronize : Option (HardProcess n T W) :=
  (s.graph.eraseEdges s.ghostEdges).map fun graph =>
  { s with graph, ghostEdges := [], synchronizing := true }

-- The end of `HardSyncLinker::synchronize`.
def terminated : Option (HardProcess n T W) :=
  (s.nodesToRemove.foldlM (fun (g : DistributedGraph n T W) id => g.eraseNode order id) s.graph).map
    fun graph => { s with graph, nodesToRemove := [], synchronizing := false }

end HardProcess

-- All the processes.
structure HardSystem (n : Nat) (T W : Type) where
  process : Fin n → HardProcess n T W
  -- Not in the code: the edges that have been linked, and those on which `unlink` has been called.
  linked : Id n → Option (GlobalEdge n W)
  unlinked : List (Id n)

namespace HardSystem

variable {n : Nat} {T W : Type} (s : HardSystem n T W)

def empty : HardSystem n T W where
  process := HardProcess.empty
  linked _ := none
  unlinked := []

def setProcess (p : Fin n) (process : HardProcess n T W) : HardSystem n T W :=
  { s with process := Function.update s.process p process }

def graphs : Fin n → DistributedGraph n T W := fun p => (s.process p).graph

def call (p : Fin n) (step : HardProcess n T W → Option (HardProcess n T W)) :
    Option (HardSystem n T W) :=
  if (s.process p).running then (step (s.process p)).map (s.setProcess p) else none

def link [One W] (light : T → T) (p : Fin n) (source target : Id n) (layer : LayerId) :
    Option (HardSystem n T W) :=
  (s.call p fun process => process.link light source target layer).map fun t =>
  { t with
    linked := Function.update s.linked (s.process p).graph.edgeId
      (some { layer, weight := 1, source, target }) }

def unlink (p : Fin n) (id : Id n) : Option (HardSystem n T W) :=
  (s.call p fun process => process.unlink id).map fun t => { t with unlinked := id :: s.unlinked }

def handle [One W] (p : Fin n) (frame index : Nat) (order : HashOrder) : Option (HardSystem n T W) :=
  ((s.process p).stack[frame]?).bind fun call =>
  (call.sends[index]?).bind fun request =>
  if (s.process request.dest).listening then
    let sent := s.setProcess p { s.process p with
      stack := (s.process p).stack.modify frame (·.received index) }
    ((sent.process request.dest).handle order request.message).map (sent.setProcess request.dest)
  else none

def resume (p : Fin n) (order : HashOrder) : Option (HardSystem n T W) :=
  ((s.process p).resume order).map (s.setProcess p)

-- All the processes are in `terminate`, so that nobody waits for a request: the termination of the
-- servers lets them out.
def ended : Bool := (List.finRange n).all fun p =>
  (s.process p).synchronizing && (s.process p).stack.isEmpty

def leave (order : Fin n → HashOrder) : Option (HardSystem n T W) :=
  if s.ended then
    (collect fun p => (s.process p).terminated (order p)).map fun process => { s with process }
  else none

def withGraphs (graphs : Fin n → DistributedGraph n T W) : HardSystem n T W :=
  { s with process := fun p => { s.process p with graph := graphs p } }

def synchronize (order : Fin n → HashOrder) : Option (HardSystem n T W) :=
  (s.leave order).bind fun s =>
  (collect fun p => (s.process p).graph.clearDistantNodes (order p)).map s.withGraphs

def distribute [One W] (light : T → T) (order : Fin n → HashOrder)
    (partition : Fin n → PartitionMap n) : Option (HardSystem n T W) :=
  (s.leave order).bind fun s => (_distribute light order partition s.graphs).map s.withGraphs

end HardSystem

inductive HardAction (n : Nat) (T : Type) where
  | buildNode (p : Fin n) (data : T)
  | link (p : Fin n) (source target : Id n) (layer : LayerId)
  | unlink (p : Fin n) (edge : Id n)
  | removeNode (p : Fin n) (node : Id n)
  | resume (p : Fin n) (order : HashOrder)
  | handle (p : Fin n) (frame index : Nat) (order : HashOrder)
  | enter (p : Fin n)
  | synchronize (order : Fin n → HashOrder)
  | distribute (order : Fin n → HashOrder) (partition : Fin n → PartitionMap n)

def HardAction.next {n : Nat} {T W : Type} [One W] (light : T → T) (s : HardSystem n T W) :
    HardAction n T → Option (HardSystem n T W)
  | buildNode p data => s.call p fun process => process.buildNode data
  | link p source target layer => s.link light p source target layer
  | unlink p edge => s.unlink p edge
  | removeNode p node => s.call p fun process => process.removeNode node
  | resume p order => s.resume p order
  | handle p frame index order => s.handle p frame index order
  | enter p => s.call p fun process => process.synchronize
  | synchronize order => s.synchronize order
  | distribute order partition => s.distribute light order partition

-- `HardSyncMode`, without its mutexes.
def hard (n : Nat) (T W : Type) [One W] (light : T → T) :
    TransitionSystem (HardSystem n T W) (HardAction n T) where
  init s := s = .empty
  next s action := action.next light s

end Fpmas.Synchro.Hard
