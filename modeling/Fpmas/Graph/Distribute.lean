import Fpmas.Graph.LocationManager

set_option autoImplicit false

namespace Fpmas.Graph

-- Where a process sends some of the nodes.
abbrev PartitionMap (n : Nat) := UnorderedMap (Id n) (Fin n)

variable {n : Nat} {T W : Type}

namespace DistributedGraph

variable (g : DistributedGraph n T W) (order : HashOrder)

-- The entries of the partition that move a node of the graph, with the node's new process.
def exportedNodes (partition : PartitionMap n) : List (Id n × Fin n) :=
  (partition.toList order).filter fun item => item.1 ∈ g.nodes ∧ item.2 ≠ g.rank

def nodeExportMap (exported : List (Id n × Fin n)) :
    Option (UnorderedMap (Fin n) (List (NodeMessage n T W))) :=
  (exported.mapM fun item => (g.nodeMessage item.1).map fun message => (item.2, message)).map
    (UnorderedMap.pushAll ∅)

def edgeIdsToExport (exported : List (Id n × Fin n)) : Option (UnorderedMap (Fin n) (List (Id n))) :=
  (exported.mapM fun item => (g.getNode item.1).map fun node =>
    (node.getIncomingEdges order ++ node.getOutgoingEdges order).map fun edge => (item.2, edge)).map
    fun lists => UnorderedMap.pushAll ∅ lists.flatten

def edgeExportMap (light : T → T) (exported : List (Id n × Fin n)) :
    Option (UnorderedMap (Fin n) (List (EdgeMessage n T W))) :=
  (g.edgeIdsToExport order exported).bind fun ids =>
  -- `edge_ids_to_export` holds sets: each edge is exported once to each process.
  let once := (ids.toList order).flatMap fun entry =>
    (order.of entry.2.dedup).map fun edge => (entry.1, edge)
  (once.mapM fun item => (g.edgeMessage light item.2).map fun message => (item.1, message)).map
    (UnorderedMap.pushAll ∅)

def importNodes (nodes : UnorderedMap (Fin n) (List (NodeMessage n T W))) :
    Option (DistributedGraph n T W) :=
  (nodes.flatten order).foldlM (fun g message => g.importNode message) g

def importEdges [One W] (edges : UnorderedMap (Fin n) (List (EdgeMessage n T W))) :
    Option (DistributedGraph n T W) :=
  (edges.flatten order).foldlM (fun g message => g.importEdge order message) g

def setDistantNodes (exported : List (Id n × Fin n)) : Option (DistributedGraph n T W) :=
  (exported.map Prod.fst).foldlM (fun g id => g.setDistant order id) g

end DistributedGraph

-- `_distribute`, called by all the processes.
def _distribute [One W] (light : T → T) (order : Fin n → HashOrder) (partition : Fin n → PartitionMap n)
    (s : Fin n → DistributedGraph n T W) : Option (Fin n → DistributedGraph n T W) :=
  let exported := fun p => (s p).exportedNodes (order p) (partition p)
  (collect fun p => (s p).nodeExportMap (exported p)).bind fun nodes =>
  (collect fun p => (s p).edgeExportMap (order p) light (exported p)).bind fun edges =>
  (collect fun p =>
    ((s p).importNodes (order p) (migrate nodes p)).bind fun g =>
    (g.importEdges (order p) (migrate edges p)).bind fun g =>
    g.setDistantNodes (order p) (exported p)).bind fun s =>
  (updateLocations order s).bind fun s =>
  collect fun p => (s p).clearNodes (order p) ((exported p).map Prod.fst)

end Fpmas.Graph
