import Fpmas.Communication.TypedMpi
import Fpmas.Graph.Distribute
import Fpmas.Library.Records

set_option autoImplicit false

namespace Fpmas.Graph.Zoltan

open Fpmas.Communication

variable {n : Nat} {T W : Type}

-- How the machine lays out an `unsigned long` over two zoltan ids, which are `unsigned int`.
abbrev WordLayout := UInt64 ≃ UInt32 × UInt32

-- `NUM_GID_ENTRIES`: one entry for the rank, two for the local id.
def numGidEntries : Nat := 3

-- What the query functions know of the nodes to balance.
structure ZoltanData (n : Nat) where
  nodeMap : NodeMap n
  distributedNodeIds : Finset (Id n)
  -- Filled by `obj_list` and by `num_edges_multi_fn`.
  nodes : List (Id n)
  edges : List (List (Id n))

def ZoltanData.empty : ZoltanData n where
  nodeMap := ∅
  distributedNodeIds := ∅
  nodes := []
  edges := []

section

variable (layout : WordLayout)

-- The entries that `write_zoltan_id` writes.
def writeZoltanId (id : Id n) : List UInt32 :=
  let words := layout (UInt64.ofNat id.id)
  [UInt32.ofNat id.rank, words.1, words.2]

-- An id that tells no process is not one of the graph.
def readZoltanId (entries : List UInt32) : Option (Id n) :=
  (entries[0]?).bind fun rank => (entries[1]?).bind fun first => (entries[2]?).bind fun second =>
  if known : rank.toNat < n then
    some { rank := ⟨rank.toNat, known⟩, id := (layout.symm (first, second)).toNat }
  else none

-- The arrays that Zoltan passes to the query functions of one process.
structure QueryArrays (n : Nat) (W : Type) where
  numObj : Nat
  globalIds : Buffer UInt32
  objWgts : Buffer W
  numEdges : Buffer Nat
  nborGlobalId : Buffer UInt32
  nborProcs : Buffer (Fin n)
  ewgts : Buffer W
  numFixedObj : Nat
  fixedGids : Buffer UInt32
  fixedParts : Buffer (Fin n)

structure Unset (n : Nat) (W : Type) where
  entry : Nat → UInt32
  weight : Nat → W
  count : Nat → Nat
  process : Nat → Fin n

def allocate {α : Type} (unset : Nat → α) (size : Nat) : Buffer α := (List.range size).map unset

variable (unset : Unset n W) (order : HashOrder) (g : DistributedGraph n T W)

def numObj (data : ZoltanData n) : Nat := data.nodeMap.entries.length

def objList (data : ZoltanData n) (globalIds : Buffer UInt32) (objWgts : Buffer W) :
    Option (ZoltanData n × Buffer UInt32 × Buffer W) :=
  let ids := (data.nodeMap.toList order).map Prod.fst
  (ids.mapM fun id => (g.getNode id).map (·.weight)).bind fun weights =>
  (Buffer.writeRecords globalIds numGidEntries (ids.map (writeZoltanId layout))).bind fun globalIds =>
  (Buffer.fill objWgts weights).map fun objWgts =>
  ({ data with nodes := data.nodes ++ ids }, globalIds, objWgts)

def balancedEdges (balanced : Finset (Id n)) (id : Id n) : Option (List (Id n)) :=
  (g.getNode id).bind fun node =>
  ((node.getOutgoingEdges order).mapM fun k => (g.getEdge k).map fun edge => (k, edge.target)).map
    fun edges => (edges.filter fun edge => edge.2 ∈ balanced).map Prod.fst

def numEdgesMulti (numObj : Nat) (data : ZoltanData n) (numEdges : Buffer Nat) :
    Option (ZoltanData n × Buffer Nat) :=
  let edges := (data.edges ++ List.replicate numObj []).take numObj
  ((List.range numObj).mapM fun i =>
    (data.nodes[i]?).bind (balancedEdges order g data.distributedNodeIds)).bind fun found =>
  (Buffer.fill numEdges (found.map (·.length))).map fun numEdges =>
  ({ data with edges := List.zipWith (· ++ ·) edges found }, numEdges)

def neighbor (k : Id n) : Option (Id n × Fin n × W) :=
  (g.getEdge k).bind fun edge =>
  (g.getNode edge.target).map fun target => (edge.target, target.location, edge.weight)

def edgeListMulti (numObj : Nat) (data : ZoltanData n) (nborGlobalId : Buffer UInt32)
    (nborProcs : Buffer (Fin n)) (ewgts : Buffer W) :
    Option (Buffer UInt32 × Buffer (Fin n) × Buffer W) :=
  ((List.range numObj).mapM fun i => data.edges[i]?).bind fun edges =>
  (edges.flatten.mapM (neighbor g)).bind fun neighbors =>
  (Buffer.writeRecords nborGlobalId numGidEntries
    (neighbors.map fun neighbor => writeZoltanId layout neighbor.1)).bind fun nborGlobalId =>
  (Buffer.fill nborProcs (neighbors.map (·.2.1))).bind fun nborProcs =>
  (Buffer.fill ewgts (neighbors.map (·.2.2))).map fun ewgts =>
  (nborGlobalId, nborProcs, ewgts)

def numFixedObj (fixedVertices : PartitionMap n) : Nat := fixedVertices.entries.length

def fixedObjList (fixedVertices : PartitionMap n) (fixedGids : Buffer UInt32)
    (fixedParts : Buffer (Fin n)) : Option (Buffer UInt32 × Buffer (Fin n)) :=
  let fixed := fixedVertices.toList order
  (Buffer.writeRecords fixedGids numGidEntries
    (fixed.map fun vertex => writeZoltanId layout vertex.1)).bind fun fixedGids =>
  (Buffer.fill fixedParts (fixed.map (·.2))).map fun fixedParts => (fixedGids, fixedParts)

-- Zoltan calls the query functions of a process, each time with arrays of the sizes that the process has
-- told before.
def queries (fixedVertices : PartitionMap n) (data : ZoltanData n) :
    Option (ZoltanData n × QueryArrays n W) :=
  let size := numObj data
  (objList layout order g data (allocate unset.entry (size * numGidEntries))
    (allocate unset.weight size)).bind fun objects =>
  (numEdgesMulti order g size objects.1 (allocate unset.count size)).bind fun counted =>
  let total := counted.2.sum
  (edgeListMulti layout g size counted.1 (allocate unset.entry (total * numGidEntries))
    (allocate unset.process total) (allocate unset.weight total)).bind fun edges =>
  let fixedSize := numFixedObj fixedVertices
  (fixedObjList layout order fixedVertices (allocate unset.entry (fixedSize * numGidEntries))
    (allocate unset.process fixedSize)).map fun fixed =>
  (counted.1,
    { numObj := size
      globalIds := objects.2.1
      objWgts := objects.2.2
      numEdges := counted.2
      nborGlobalId := edges.1
      nborProcs := edges.2.1
      ewgts := edges.2.2
      numFixedObj := fixedSize
      fixedGids := fixed.1
      fixedParts := fixed.2 })

/-- What one process has of the hypergraph to partition. -/
structure Hypergraph (n : Nat) (W : Type) where
  objects : List (Id n × W)
  -- The neighbors of each object, with their processes and the weights of the edges.
  neighbors : List (List (Id n × Fin n × W))
  fixed : List (Id n × Fin n)

def QueryArrays.read (arrays : QueryArrays n W) : Option (Hypergraph n W) :=
  let ids := Buffer.readRecords (readZoltanId (n := n) layout) numGidEntries
  (ids arrays.numObj arrays.globalIds).bind fun objects =>
  (Buffer.readRecords List.head? 1 arrays.numObj arrays.objWgts).bind fun objWgts =>
  (Buffer.readRecords List.head? 1 arrays.numObj arrays.numEdges).bind fun numEdges =>
  let total := numEdges.sum
  (ids total arrays.nborGlobalId).bind fun neighbors =>
  (Buffer.readRecords List.head? 1 total arrays.nborProcs).bind fun nborProcs =>
  (Buffer.readRecords List.head? 1 total arrays.ewgts).bind fun ewgts =>
  (ids arrays.numFixedObj arrays.fixedGids).bind fun fixed =>
  (Buffer.readRecords List.head? 1 arrays.numFixedObj arrays.fixedParts).map fun fixedParts =>
  { objects := objects.zip objWgts
    neighbors := numEdges.splitLengths (neighbors.zip (nborProcs.zip ewgts))
    fixed := fixed.zip fixedParts }

-- `LB_Partition`, once it has called the query functions. The algorithm of the library, `partition`,
-- tells the objects that each process has to export.
def lbPartition (partition : (Fin n → Hypergraph n W) → Fin n → List (Id n × Fin n))
    (arrays : Fin n → QueryArrays n W) : Option (Fin n → Buffer UInt32 × List (Fin n)) :=
  (collect fun p => (arrays p).read layout).map fun hypergraphs p =>
  let exports := partition hypergraphs p
  ((exports.map fun item => writeZoltanId layout item.1).flatten, exports.map (·.2))

def importPartition (exports : Buffer UInt32 × List (Fin n)) : Option (PartitionMap n) :=
  (Buffer.readRecords (readZoltanId layout) numGidEntries exports.2.length exports.1).map fun ids =>
  (ids.zip exports.2).foldl (fun partition item => partition.insert item.1 item.2) ∅

end

structure ZoltanLoadBalancing (n : Nat) where
  zoltanData : ZoltanData n
  fixedVertices : PartitionMap n

def ZoltanLoadBalancing.initial : ZoltanLoadBalancing n where
  zoltanData := .empty
  fixedVertices := ∅

/-- What the processes call `balance` with, and what their machines and the library do then. -/
structure BalanceCall (n : Nat) (T W : Type) where
  graphs : Fin n → DistributedGraph n T W
  nodes : Fin n → NodeMap n
  fixedVertices : Fin n → PartitionMap n
  order : Fin n → HashOrder
  unset : Fin n → Unset n W
  sendHeap : Fin n → Heap
  recvHeap : Fin n → Heap
  partition : (Fin n → Hypergraph n W) → Fin n → List (Id n × Fin n)

def insertIds (order : HashOrder) (nodes : NodeMap n) (ids : Finset (Id n)) : Finset (Id n) :=
  (nodes.toList order).foldl (fun ids node => insert node.1 ids) ids

def concatSet (s₁ s₂ : Finset (Id n)) : Finset (Id n) := s₁ ∪ s₂

def ZoltanData.clear (data : ZoltanData n) : ZoltanData n :=
  { data with nodeMap := ∅, distributedNodeIds := ∅, nodes := [], edges := [] }

section

variable (json : JsonType (Finset (Id n))) (layout : WordLayout)

-- `balance`, called by all the processes.
def balance (s : Fin n → ZoltanLoadBalancing n) (call : BalanceCall n T W) :
    Option ((Fin n → ZoltanLoadBalancing n) × (Fin n → PartitionMap n)) :=
  (TypedMpi.allReduce json call.sendHeap call.recvHeap concatSet fun p =>
    insertIds (call.order p) (call.nodes p) (s p).zoltanData.distributedNodeIds).bind fun ids =>
  (collect fun p => queries layout (call.unset p) (call.order p) (call.graphs p) (call.fixedVertices p)
    { (s p).zoltanData with nodeMap := call.nodes p, distributedNodeIds := ids p }).bind fun answers =>
  (lbPartition layout call.partition fun p => (answers p).2).bind fun exports =>
  (collect fun p => importPartition layout (exports p)).map fun partitions =>
  (fun p => { zoltanData := (answers p).1.clear, fixedVertices := call.fixedVertices p }, partitions)

def balances : (Fin n → ZoltanLoadBalancing n) → List (BalanceCall n T W) →
    Option (List (Fin n → PartitionMap n))
  | _, [] => some []
  | s, call :: calls =>
    (balance json layout s call).bind fun result =>
    (balances result.1 calls).map (result.2 :: ·)

end

section

variable {layout : WordLayout}

-- The ids that zoltan ids can tell.
def Representable (id : Id n) : Prop := id.id < 2 ^ 64

theorem readZoltanId_write (ranks : n ≤ 2 ^ 31) {id : Id n} (representable : Representable id) :
    readZoltanId layout (writeZoltanId layout id) = some id := by
  have below := id.rank.isLt
  have rank : (UInt32.ofNat id.rank).toNat = id.rank := by
    rw [UInt32.toNat_ofNat', Nat.mod_eq_of_lt (by omega)]
  have counter : (UInt64.ofNat id.id).toNat = id.id := by
    rw [UInt64.toNat_ofNat', Nat.mod_eq_of_lt representable]
  unfold readZoltanId writeZoltanId
  simp only [List.getElem?_cons_zero, List.getElem?_cons_succ, Option.bind_some, rank, dif_pos below,
    Prod.mk.eta, Equiv.symm_apply_apply, counter]

theorem writeZoltanId_length (id : Id n) : (writeZoltanId layout id).length = numGidEntries := rfl

theorem allocate_length {α : Type} (unset : Nat → α) (size : Nat) : (allocate unset size).length = size := by
  rw [allocate, List.length_map, List.length_range]

theorem written_ids (buffer : Buffer UInt32) (ids : List (Id n))
    (room : buffer.length = ids.length * numGidEntries) :
    Buffer.writeRecords buffer numGidEntries (ids.map (writeZoltanId layout)) =
      some (ids.map (writeZoltanId layout)).flatten := by
  refine Buffer.writeRecords_eq (fun record written => ?_) (by rw [room, List.length_map])
  obtain ⟨id, _, rfl⟩ := List.mem_map.mp written
  exact writeZoltanId_length id

variable (layout) in
theorem read_ids (ranks : n ≤ 2 ^ 31) (ids : List (Id n)) (representable : ∀ id ∈ ids, Representable id) :
    Buffer.readRecords (readZoltanId layout) numGidEntries ids.length
      (ids.map (writeZoltanId layout)).flatten = some ids :=
  Buffer.readRecords_flatten ids (fun id _ => writeZoltanId_length id)
    fun id listed => readZoltanId_write ranks (representable id listed)

end

section

variable (order : HashOrder) (g : DistributedGraph n T W) (balanced : Finset (Id n)) (nodes : NodeMap n)
  (fixed : PartitionMap n)

def describe : Option (Hypergraph n W) :=
  let ids := (nodes.toList order).map Prod.fst
  (ids.mapM fun id => (g.getNode id).map (·.weight)).bind fun weights =>
  (ids.mapM (balancedEdges order g balanced)).bind fun edges =>
  (edges.mapM fun list : List (Id n) => list.mapM (neighbor g)).map fun neighbors =>
  { objects := ids.zip weights
    neighbors
    fixed := fixed.toList order }

def asked : ZoltanData n :=
  { ZoltanData.empty with nodeMap := nodes, distributedNodeIds := balanced }

variable {order g balanced nodes fixed} {layout : WordLayout}

variable (order) in
theorem length_toList {V : Type} (m : UnorderedMap (Id n) V) :
    (m.toList order).length = m.entries.length := by
  rw [UnorderedMap.toList, List.length_map, (order.perm _).length_eq]

variable (balanced layout) in
theorem objList_eq {weights : List W} {globalIds : Buffer UInt32} {objWgts : Buffer W}
    (weighed : ((nodes.toList order).map Prod.fst).mapM (fun id => (g.getNode id).map (·.weight)) =
      some weights)
    (ids : globalIds.length = nodes.entries.length * numGidEntries)
    (size : objWgts.length = nodes.entries.length) :
    objList layout order g (asked balanced nodes) globalIds objWgts =
      some ({ asked balanced nodes with nodes := (nodes.toList order).map Prod.fst },
        (((nodes.toList order).map Prod.fst).map (writeZoltanId layout)).flatten, weights) := by
  have listed : ((nodes.toList order).map Prod.fst).length = nodes.entries.length := by
    rw [List.length_map, length_toList]
  have each := (List.mapM_forall₂.mp weighed).length_eq
  unfold objList
  simp only [asked] at *
  rw [weighed, Option.bind_some, written_ids globalIds _ (by rw [ids, listed]), Option.bind_some,
    Buffer.fill_eq (by rw [size, ← listed, each]), Option.map_some]
  rfl

theorem numEdgesMulti_eq (data : ZoltanData n) {edges : List (List (Id n))} {numEdges : Buffer Nat}
    (fresh : data.edges = [])
    (found : data.nodes.mapM (balancedEdges order g data.distributedNodeIds) = some edges)
    (size : numEdges.length = data.nodes.length) :
    numEdgesMulti order g data.nodes.length data numEdges =
      some ({ data with edges }, edges.map List.length) := by
  have each := (List.mapM_forall₂.mp found).length_eq
  have pushed : List.zipWith (· ++ ·) (List.replicate data.nodes.length []) edges = edges := by
    rw [each, ← List.map_const', List.zipWith_map_left, List.zipWith_self]
    simp
  unfold numEdgesMulti
  rw [List.mapM_range, found, Option.bind_some, Buffer.fill_eq (by rw [size, List.length_map, each]),
    Option.map_some, fresh, List.nil_append, List.take_replicate, Nat.min_self, pushed]

variable (layout) in
theorem edgeListMulti_eq (data : ZoltanData n) {neighbors : List (List (Id n × Fin n × W))}
    {nborGlobalId : Buffer UInt32} {nborProcs : Buffer (Fin n)} {ewgts : Buffer W}
    (found : data.edges.mapM (fun list : List (Id n) => list.mapM (neighbor g)) = some neighbors)
    (ids : nborGlobalId.length = neighbors.flatten.length * numGidEntries)
    (procs : nborProcs.length = neighbors.flatten.length)
    (weights : ewgts.length = neighbors.flatten.length) :
    edgeListMulti layout g data.edges.length data nborGlobalId nborProcs ewgts =
      some (((neighbors.flatten.map Prod.fst).map (writeZoltanId layout)).flatten,
        neighbors.flatten.map (·.2.1), neighbors.flatten.map (·.2.2)) := by
  have all : (List.range data.edges.length).mapM (fun i => data.edges[i]?) = some data.edges := by
    have read := List.mapM_range some data.edges
    simp only [Option.bind_fun_some] at read
    rw [read]
    exact List.mapM_self fun _ _ => rfl
  have listed : data.edges.flatten.mapM (neighbor g) = some neighbors.flatten := by
    rw [List.mapM_flatten, found, Option.map_some]
  have targets : (neighbors.flatten.map fun neighbor => writeZoltanId layout neighbor.1) =
      (neighbors.flatten.map Prod.fst).map (writeZoltanId layout) := by
    rw [List.map_map]
    rfl
  unfold edgeListMulti
  rw [all, Option.bind_some, listed, Option.bind_some, targets,
    written_ids nborGlobalId _ (by rw [ids, List.length_map]), Option.bind_some,
    Buffer.fill_eq (by rw [procs, List.length_map]), Option.bind_some,
    Buffer.fill_eq (by rw [weights, List.length_map]), Option.map_some]

variable (order fixed layout) in
theorem fixedObjList_eq {fixedGids : Buffer UInt32} {fixedParts : Buffer (Fin n)}
    (ids : fixedGids.length = fixed.entries.length * numGidEntries)
    (parts : fixedParts.length = fixed.entries.length) :
    fixedObjList layout order fixed fixedGids fixedParts =
      some ((((fixed.toList order).map Prod.fst).map (writeZoltanId layout)).flatten,
        (fixed.toList order).map Prod.snd) := by
  have listed := length_toList order fixed
  have vertices : ((fixed.toList order).map fun vertex => writeZoltanId layout vertex.1) =
      ((fixed.toList order).map Prod.fst).map (writeZoltanId layout) := by
    rw [List.map_map]
    rfl
  unfold fixedObjList
  dsimp only
  rw [vertices, written_ids fixedGids _ (by rw [ids, List.length_map, listed]), Option.bind_some,
    Buffer.fill_eq (by rw [parts, List.length_map, listed]), Option.map_some]

theorem queries_read (ranks : n ≤ 2 ^ 31) {unset : Unset n W} {H : Hypergraph n W}
    (told : describe order g balanced nodes fixed = some H)
    (objects : ∀ id ∈ nodes, Representable id)
    (targets : ∀ list ∈ H.neighbors, ∀ neighbor ∈ list, Representable neighbor.1)
    (vertices : ∀ id ∈ fixed, Representable id) :
    ∃ answer, queries layout unset order g fixed (asked balanced nodes) = some answer ∧
      answer.2.read layout = some H := by
  unfold describe at told
  obtain ⟨weights, weighed, told⟩ := Option.bind_eq_some_iff.mp told
  obtain ⟨edges, found, told⟩ := Option.bind_eq_some_iff.mp told
  obtain ⟨neighbors, reached, told⟩ := Option.map_eq_some_iff.mp told
  subst told
  have listed : ((nodes.toList order).map Prod.fst).length = nodes.entries.length := by
    rw [List.length_map, length_toList]
  have weightCount := (List.mapM_forall₂.mp weighed).length_eq
  have edgeCount := (List.mapM_forall₂.mp found).length_eq
  have lengths := List.lengths_mapM reached
  have total : (edges.map List.length).sum = neighbors.flatten.length := by
    rw [← lengths, List.length_flatten]
  -- Each function fills the arrays of the sizes told before.
  have asObjects := objList_eq balanced layout weighed
    (allocate_length unset.entry (nodes.entries.length * numGidEntries))
    (allocate_length unset.weight nodes.entries.length)
  have asCounts := numEdgesMulti_eq
    { asked balanced nodes with nodes := (nodes.toList order).map Prod.fst } rfl found
    (allocate_length unset.count _)
  have asEdges := edgeListMulti_eq layout
    { asked balanced nodes with nodes := (nodes.toList order).map Prod.fst, edges } reached
    (allocate_length unset.entry _) (allocate_length unset.process _) (allocate_length unset.weight _)
  have asFixed := fixedObjList_eq order fixed layout
    (allocate_length unset.entry _) (allocate_length unset.process _)
  dsimp only at asObjects asCounts asEdges
  rw [listed] at asCounts
  rw [edgeCount.symm.trans listed] at asEdges
  have answer : queries layout unset order g fixed (asked balanced nodes) = some
      ({ asked balanced nodes with nodes := (nodes.toList order).map Prod.fst, edges },
        { numObj := nodes.entries.length
          globalIds := (((nodes.toList order).map Prod.fst).map (writeZoltanId layout)).flatten
          objWgts := weights
          numEdges := edges.map List.length
          nborGlobalId := ((neighbors.flatten.map Prod.fst).map (writeZoltanId layout)).flatten
          nborProcs := neighbors.flatten.map (·.2.1)
          ewgts := neighbors.flatten.map (·.2.2)
          numFixedObj := fixed.entries.length
          fixedGids := (((fixed.toList order).map Prod.fst).map (writeZoltanId layout)).flatten
          fixedParts := (fixed.toList order).map Prod.snd }) := by
    unfold queries
    dsimp only [numObj, numFixedObj]
    rw [show (asked balanced nodes).nodeMap = nodes from rfl, asObjects, Option.bind_some, asCounts,
      Option.bind_some, total, asEdges, Option.bind_some, asFixed, Option.map_some]
    rfl
  refine ⟨_, answer, ?_⟩
  have names := read_ids layout ranks ((nodes.toList order).map Prod.fst) fun id member => by
    obtain ⟨⟨_, _⟩, entry, rfl⟩ := List.mem_map.mp member
    exact objects _ (AList.lookup_isSome.mp
      (Option.isSome_of_eq_some ((UnorderedMap.mem_toList order nodes).mp entry)))
  have ends := read_ids layout ranks (neighbors.flatten.map Prod.fst) fun id member => by
    obtain ⟨neighbor, entry, rfl⟩ := List.mem_map.mp member
    obtain ⟨list, inside, entry⟩ := List.mem_flatten.mp entry
    exact targets list inside neighbor entry
  have fixedNames := read_ids layout ranks ((fixed.toList order).map Prod.fst)
    fun id member => by
      obtain ⟨⟨_, _⟩, entry, rfl⟩ := List.mem_map.mp member
      exact vertices _ (AList.lookup_isSome.mp
        (Option.isSome_of_eq_some ((UnorderedMap.mem_toList order fixed).mp entry)))
  have asWeights := Buffer.readRecords_items weights
  have asCounted := Buffer.readRecords_items (edges.map List.length)
  have asProcs := Buffer.readRecords_items (neighbors.flatten.map (·.2.1))
  have asEwgts := Buffer.readRecords_items (neighbors.flatten.map (·.2.2))
  have asParts := Buffer.readRecords_items ((fixed.toList order).map Prod.snd)
  rw [← weightCount, listed] at asWeights
  rw [List.length_map, ← edgeCount, listed] at asCounted
  rw [List.length_map] at asProcs asEwgts ends
  rw [List.length_map, length_toList] at asParts fixedNames
  rw [listed] at names
  unfold QueryArrays.read
  dsimp only
  rw [names, Option.bind_some, asWeights, Option.bind_some, asCounted, Option.bind_some, total, ends,
    Option.bind_some, asProcs, Option.bind_some, asEwgts, Option.bind_some, fixedNames, Option.bind_some,
    asParts, Option.map_some]
  have whole : (neighbors.flatten.map Prod.fst).zip
      ((neighbors.flatten.map (·.2.1)).zip (neighbors.flatten.map (·.2.2))) = neighbors.flatten := by
    rw [List.zip_map', List.zip_map', List.map_id'' fun _ => rfl]
  have pairs : ((fixed.toList order).map Prod.fst).zip ((fixed.toList order).map Prod.snd) =
      fixed.toList order := by
    rw [List.zip_map', List.map_id'' fun _ => rfl]
  rw [whole, pairs, ← lengths, List.splitLengths_flatten]

end

end Fpmas.Graph.Zoltan
