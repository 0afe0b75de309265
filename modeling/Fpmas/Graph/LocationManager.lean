import Fpmas.Graph.DistributedGraph

set_option autoImplicit false

namespace Fpmas.Graph

variable {n : Nat} {T W : Type}

namespace DistributedGraph

variable (g : DistributedGraph n T W) (order : HashOrder)

def addManagedNode (id : Id n) (location : Fin n) : DistributedGraph n T W :=
  { g with
    locationManager := { g.locationManager with
      managedNodesLocations := g.locationManager.managedNodesLocations.insert id location } }

-- `managed_nodes_locations[id]`.
def managedLocation (id : Id n) : DistributedGraph n T W × Fin n :=
  match g.locationManager.managedNodesLocations.lookup id with
  | some location => (g, location)
  -- `operator[]` stores a null rank for a node that it does not find.
  | none =>
    let first : Fin n := ⟨0, Nat.zero_lt_of_lt g.rank.isLt⟩
    (g.addManagedNode id first, first)

def newLocalIds : List (Id n) := (g.locationManager.newLocalNodes.toList order).map Prod.fst

def distantIds : List (Id n) := (g.locationManager.distantNodes.toList order).map Prod.fst

-- The new LOCAL nodes of other origins are reported to their origins.
def exportUpdatedLocations : UnorderedMap (Fin n) (List (Id n)) × DistributedGraph n T W :=
  (g.newLocalIds order).foldl
    (fun (exported, g) id =>
      if id.rank ≠ g.rank then (exported.push id.rank id, g) else (exported, g.addManagedNode id g.rank))
    (∅, g)

def importUpdatedLocations (imported : UnorderedMap (Fin n) (List (Id n))) :
    Option (DistributedGraph n T W) :=
  let g := (imported.messages order).foldl (fun g message => g.addManagedNode message.2 message.1) g
  ((g.distantIds order).filter (·.rank = g.rank)).foldlM
    (fun g id =>
      let (g, location) := g.managedLocation id
      g.setLocation id location) g

def exportLocationRequests : UnorderedMap (Fin n) (List (Id n)) :=
  UnorderedMap.pushAll ∅
    (((g.distantIds order).filter (·.rank ≠ g.rank)).map fun id => (id.rank, id))

def exportLocations (requests : UnorderedMap (Fin n) (List (Id n))) :
    UnorderedMap (Fin n) (List (Id n × Fin n)) × DistributedGraph n T W :=
  (requests.messages order).foldl
    (fun (exported, g) message =>
      let (g, location) := g.managedLocation message.2
      (exported.push message.1 (message.2, location), g))
    (∅, g)

def importLocations (locations : UnorderedMap (Fin n) (List (Id n × Fin n))) :
    Option (DistributedGraph n T W) :=
  ((locations.messages order).foldlM
    (fun g message =>
      -- `distant_nodes.at` throws when the node is not there.
      if message.2.1 ∈ g.locationManager.distantNodes then g.setLocation message.2.1 message.2.2
      else none) g).map
    fun g => { g with locationManager := { g.locationManager with newLocalNodes := ∅ } }

end DistributedGraph

def updateLocations (order : Fin n → HashOrder) (s : Fin n → DistributedGraph n T W) :
    Option (Fin n → DistributedGraph n T W) :=
  let exported := fun p => (s p).exportUpdatedLocations (order p)
  (collect fun p => (exported p).2.importUpdatedLocations (order p)
    (migrate (fun q => (exported q).1) p)).bind fun s =>
  let requests := fun p => (s p).exportLocationRequests (order p)
  let responses := fun p => (s p).exportLocations (order p) (migrate requests p)
  collect fun p => (responses p).2.importLocations (order p) (migrate (fun q => (responses q).1) p)

end Fpmas.Graph
