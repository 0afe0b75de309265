import Fpmas.Graph.Distribute

set_option autoImplicit false

namespace Fpmas.Synchro.Ghost

open Fpmas.Graph

variable {n : Nat} {T W : Type}

structure NodeUpdatePack (n : Nat) (T W : Type) where
  id : Id n
  updatedData : T
  updatedWeight : W

structure GhostSyncLinker (n : Nat) where
  linkBuffer : List (Id n)
  unlinkMigration : UnorderedMap (Fin n) (List (Id n))
  removeNodeBuffer : UnorderedMap (Fin n) (List (Id n))
  localNodesToRemove : List (Id n)

-- The graph of one process, with its linker.
structure GhostProcess (n : Nat) (T W : Type) where
  graph : DistributedGraph n T W
  linker : GhostSyncLinker n

abbrev GhostSystem (n : Nat) (T W : Type) := Fin n → GhostProcess n T W

namespace GhostSyncLinker

def empty : GhostSyncLinker n where
  linkBuffer := []
  unlinkMigration := ∅
  removeNodeBuffer := ∅
  localNodesToRemove := []

def link (linker : GhostSyncLinker n) (edge : Id n) (state : LocationState) : GhostSyncLinker n :=
  if state = .DISTANT then { linker with linkBuffer := linker.linkBuffer ++ [edge] } else linker

end GhostSyncLinker

namespace GhostProcess

variable (s : GhostProcess n T W) (order : HashOrder)

def empty (rank : Fin n) : GhostProcess n T W where
  graph := .empty rank
  linker := .empty

def buildNode [One W] (data : T) : Option (GhostProcess n T W) :=
  (s.graph.buildNode data).map fun graph => { s with graph }

def setData (id : Id n) (data : T) (weight : W) : Option (GhostProcess n T W) :=
  (s.graph.getNode id).map fun node =>
  { s with graph := s.graph.setNode id { node with data, weight } }

def link [One W] (source target : Id n) (layer : LayerId) : Option (GhostProcess n T W) :=
  let id := s.graph.edgeId
  (s.graph.buildEdge source target layer).map fun built =>
  { linker := s.linker.link id built.2.state, graph := built.1.insertEdge id built.2 }

-- `GhostSyncLinker::unlink`.
def bufferUnlink (id : Id n) : Option (GhostSyncLinker n) :=
  (s.graph.getEdge id).bind fun edge =>
  if edge.state = .DISTANT then
    (s.graph.getNode edge.source).bind fun src =>
    (s.graph.getNode edge.target).map fun tgt =>
    let migration := s.linker.unlinkMigration
    let migration := if src.state = .DISTANT then migration.push src.location id else migration
    let migration := if tgt.state = .DISTANT then migration.push tgt.location id else migration
    { s.linker with
      linkBuffer := s.linker.linkBuffer.filter (· ≠ id)
      unlinkMigration := migration }
  else some s.linker

def unlink (id : Id n) : Option (GhostProcess n T W) :=
  (s.bufferUnlink id).bind fun linker =>
  (s.graph.eraseEdge id).map fun graph => { graph, linker }

-- The edges that leave the node are unlinked, then those that enter it.
def unlinkNode (id : Id n) : Option (GhostProcess n T W) :=
  (s.graph.getNode id).bind fun node =>
  ((node.getOutgoingEdges order).foldlM unlink s).bind fun s =>
  (s.graph.getNode id).bind fun node =>
  (node.getIncomingEdges order).foldlM unlink s

def removeNode (id : Id n) : Option (GhostProcess n T W) :=
  (s.graph.getNode id).bind fun node =>
  let requested : Option (GhostProcess n T W) :=
    match node.state with
    | .DISTANT => some { s with
        linker := { s.linker with
          removeNodeBuffer := s.linker.removeNodeBuffer.push node.location id } }
    | .LOCAL => s.unlinkNode order id
  requested.map fun s =>
  { s with linker := { s.linker with localNodesToRemove := s.linker.localNodesToRemove ++ [id] } }

-- The links to migrate, and the edges that the process has to clear afterwards.
abbrev LinkExports (n : Nat) (T W : Type) :=
  UnorderedMap (Fin n) (List (EdgeMessage n T W)) × List (Id n)

def exportLink (light : T → T) (exports : LinkExports n T W) (id : Id n) :
    Option (LinkExports n T W) :=
  (s.graph.getEdge id).bind fun edge =>
  (s.graph.getNode edge.source).bind fun src =>
  (s.graph.getNode edge.target).bind fun tgt =>
  (s.graph.edgeMessage light id).map fun message =>
  let migration := exports.1
  let migration := if src.state = .DISTANT then migration.push src.location message else migration
  let migration := if tgt.state = .DISTANT then migration.push tgt.location message else migration
  (migration,
    if src.state = .DISTANT ∧ tgt.state = .DISTANT then exports.2 ++ [id] else exports.2)

def exportLinks (light : T → T) : Option (LinkExports n T W) :=
  s.linker.linkBuffer.foldlM (s.exportLink light) (∅, [])

def importLinks [One W] (links : UnorderedMap (Fin n) (List (EdgeMessage n T W))) :
    Option (GhostProcess n T W) :=
  (s.graph.importEdges order links).map fun graph =>
  { graph, linker := { s.linker with linkBuffer := [] } }

def importRemovals (removals : UnorderedMap (Fin n) (List (Id n))) : Option (GhostProcess n T W) :=
  (removals.flatten order).foldlM (fun s id => s.unlinkNode order id)
    { s with linker := { s.linker with removeNodeBuffer := removals } }

def importUnlinks (unlinks : UnorderedMap (Fin n) (List (Id n))) : Option (GhostProcess n T W) :=
  ((unlinks.flatten order).foldlM
    (fun g id => if id ∈ g.edges then g.eraseEdge id else some g) s.graph).map fun graph =>
  { graph, linker := { s.linker with unlinkMigration := ∅ } }

def clearEdges (edgesToClear : List (Id n)) : Option (GhostProcess n T W) :=
  (s.graph.eraseEdges edgesToClear).map fun graph => { s with graph }

def eraseNodes : Option (GhostProcess n T W) :=
  ((s.linker.removeNodeBuffer.flatten order).mapM fun id => (s.graph.getNode id).map fun _ => id).bind
    fun removals =>
  ((s.linker.localNodesToRemove ++ removals).foldlM
    (fun (g : DistributedGraph n T W) id => g.eraseNode order id) s.graph).map fun graph =>
  { graph, linker := { s.linker with
    removeNodeBuffer := ∅
    localNodesToRemove := [] } }

end GhostProcess

namespace GhostSystem

variable [One W] (light : T → T) (order : Fin n → HashOrder)

def empty : GhostSystem n T W := GhostProcess.empty

-- `GhostSyncLinker::synchronize`, called by all the processes.
def commitLinks (s : GhostSystem n T W) : Option (GhostSystem n T W) :=
  (collect fun p => (s p).exportLinks light).bind fun links =>
  (collect fun p => (s p).importLinks (order p) (migrate (fun q => (links q).1) p)).bind fun s =>
  (collect fun p => (s p).importRemovals (order p)
    (migrate (fun q => (s q).linker.removeNodeBuffer) p)).bind fun s =>
  collect fun p =>
    ((s p).importUnlinks (order p) (migrate (fun q => (s q).linker.unlinkMigration) p)).bind fun s =>
    (s.clearEdges (links p).2).bind fun s =>
    s.eraseNodes (order p)

end GhostSystem

section

variable (g : DistributedGraph n T W) (order : HashOrder)

def exportRequests : Option (UnorderedMap (Fin n) (List (Id n))) :=
  ((g.distantIds order).mapM fun id => (g.getNode id).map fun node => (node.location, id)).map
    (UnorderedMap.pushAll ∅)

def exportData (requests : UnorderedMap (Fin n) (List (Id n))) :
    Option (UnorderedMap (Fin n) (List (NodeUpdatePack n T W))) :=
  ((requests.messages order).mapM fun message => (g.getNode message.2).map fun node =>
    (message.1, ({ id := message.2, updatedData := node.data, updatedWeight := node.weight } :
      NodeUpdatePack n T W))).map (UnorderedMap.pushAll ∅)

def importData (updates : UnorderedMap (Fin n) (List (NodeUpdatePack n T W))) :
    Option (DistributedGraph n T W) :=
  (updates.flatten order).foldlM
    (fun g pack => (g.getNode pack.id).map fun node =>
      g.setNode pack.id { node with data := pack.updatedData, weight := pack.updatedWeight }) g

end

-- `GhostDataSync::synchronize`, called by all the processes.
def synchronizeData (order : Fin n → HashOrder) (s : Fin n → DistributedGraph n T W) :
    Option (Fin n → DistributedGraph n T W) :=
  (collect fun p => exportRequests (s p) (order p)).bind fun requests =>
  (collect fun p => exportData (s p) (order p) (migrate requests p)).bind fun updates =>
  collect fun p => importData (s p) (order p) (migrate updates p)

namespace GhostSystem

variable [One W] (light : T → T) (order : Fin n → HashOrder) (s : GhostSystem n T W)

def graphs : Fin n → DistributedGraph n T W := fun p => (s p).graph

def withGraphs (graphs : Fin n → DistributedGraph n T W) : GhostSystem n T W :=
  fun p => { s p with graph := graphs p }

def distribute (partition : Fin n → PartitionMap n) : Option (GhostSystem n T W) :=
  (s.commitLinks light order).bind fun s =>
  (_distribute light order partition s.graphs).bind fun graphs =>
  (synchronizeData order graphs).map fun graphs => s.withGraphs graphs

-- `loadBalancing` reads the graphs of all the processes, and gives its partition to each.
def balance (loadBalancing : (Fin n → DistributedGraph n T W) → Fin n → PartitionMap n) :
    Option (GhostSystem n T W) :=
  (s.commitLinks light order).bind fun s =>
  (_distribute light order (loadBalancing s.graphs) s.graphs).bind fun graphs =>
  (synchronizeData order graphs).map fun graphs => s.withGraphs graphs

-- The part of `synchronize` that comes before the exchange of the data.
def commit : Option (GhostSystem n T W) :=
  (s.commitLinks light order).bind fun s =>
  (collect fun p => (s p).graph.clearDistantNodes (order p)).map fun graphs => s.withGraphs graphs

def synchronize : Option (GhostSystem n T W) :=
  (s.commit light order).bind fun s =>
  (synchronizeData order s.graphs).map fun graphs => s.withGraphs graphs

end GhostSystem

end Fpmas.Synchro.Ghost
