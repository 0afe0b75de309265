import Mathlib.Tactic.FinCases
import Fpmas.Graph.DistributedIdJson
import Fpmas.Graph.ZoltanLoadBalancing
import Fpmas.Synchro.Ghost.PartitionEntries

set_option autoImplicit false

namespace Fpmas.Graph.Zoltan

open Fpmas.Communication

variable {n : Nat} {T W : Type}

def Balanced (nodes : Fin n → NodeMap n) (id : Id n) : Prop := ∃ p, id ∈ nodes p

-- The edge `k` goes from `id` to a balanced node.
def Joins (G : GlobalGraph n T W) (nodes : Fin n → NodeMap n) (id k : Id n) : Prop :=
  ∃ edge, G.edge k = some edge ∧ edge.source = id ∧ Balanced nodes edge.target

def endOf (G : GlobalGraph n T W) (k : Id n) : Option (Id n × Fin n × W) :=
  (G.edge k).bind fun edge =>
  (G.node edge.target).map fun target => (edge.target, target.owner, edge.weight)

/-- What the process `p` has of the hypergraph of the balanced nodes. -/
structure Describes (G : GlobalGraph n T W) (nodes : Fin n → NodeMap n) (fixed : PartitionMap n)
    (p : Fin n) (H : Hypergraph n W) : Prop where
  objects : ∀ id w, (id, w) ∈ H.objects ↔
    id ∈ nodes p ∧ ∃ node, G.node id = some node ∧ node.weight = w
  once : (H.objects.map Prod.fst).Nodup
  neighbors : List.Forall₂ (fun object list => ∃ edges : List (Id n), edges.Nodup ∧
    (∀ k, k ∈ edges ↔ Joins G nodes object.1 k) ∧ edges.mapM (endOf G) = some list) H.objects H.neighbors
  fixed : ∀ id q, (id, q) ∈ H.fixed ↔ fixed.lookup id = some q
  fixedOnce : (H.fixed.map Prod.fst).Nodup

theorem mem_keys (order : HashOrder) {nodes : NodeMap n} {id : Id n} :
    id ∈ (nodes.toList order).map Prod.fst ↔ id ∈ nodes := by
  rw [List.mem_map]
  constructor
  next =>
    rintro ⟨⟨_, _⟩, entry, rfl⟩
    exact AList.lookup_isSome.mp
      (Option.isSome_of_eq_some ((UnorderedMap.mem_toList order nodes).mp entry))
  next =>
    intro member
    obtain ⟨value, found⟩ := Option.isSome_iff_exists.mp (AList.lookup_isSome.mpr member)
    exact ⟨(id, value), (UnorderedMap.mem_toList order nodes).mpr found, rfl⟩

section

variable {G : GlobalGraph n T W} {graphs : Fin n → DistributedGraph n T W} {nodes : Fin n → NodeMap n}
  {balanced : Finset (Id n)} {fixed : PartitionMap n} {order : HashOrder} {p : Fin n}
  (represents : Represents G fun p => (graphs p).view)
  (inv : GraphInv (graphs p))

include represents

theorem home_node {id : Id n} (owns : G.Owns p id) :
    ∃ node found, G.node id = some node ∧ (graphs p).getNode id = some found ∧
      found.weight = node.weight := by
  obtain ⟨node, inside, rfl⟩ := owns
  obtain ⟨found, at_, core⟩ := DistributedGraph.getNode_of_view rfl (represents.home id node inside)
  refine ⟨node, found, inside, at_, ?_⟩
  exact congrArg NodeCore.weight core

include inv

theorem edge_end {id k : Id n} {edge : DistributedEdge n W}
    (found : (graphs p).getEdge k = some edge) (leaves : edge.source = id) :
    ∃ target, neighbor (graphs p) k = some target ∧ endOf G k = some target := by
  have stored := (represents.edges p k).symm.trans found
  obtain ⟨whole, inside, _, rfl⟩ := GlobalGraph.edgeAt_eq_some.mp stored
  obtain ⟨node, at_⟩ := inv.target k _ found
  have core : (graphs p).view.core whole.target = some node.core := by
    show ((graphs p).getNode whole.target).map _ = _
    rw [show (graphs p).getNode whole.target = some node from at_]
    rfl
  obtain ⟨target, there, elsewhere⟩ := represents.ghost p whole.target node.core core
  have located : node.location = target.owner := by
    by_cases here : p = target.owner
    next =>
      have home := represents.home whole.target target there
      rw [← here] at home
      exact here ▸ congrArg NodeCore.location (Option.some.inj (core.symm.trans home))
    next => exact (elsewhere here).2
  refine ⟨(whole.target, target.owner, whole.weight), ?_, ?_⟩
  next =>
    unfold neighbor
    rw [found, Option.bind_some, show (graphs p).getNode _ = some node from at_, Option.map_some, located]
    rfl
  next =>
    unfold endOf
    rw [inside, Option.bind_some, there, Option.map_some]

variable (order) in
theorem balancedEdges_some (all : ∀ id, id ∈ balanced ↔ Balanced nodes id) {id : Id n}
    (owns : G.Owns p id) :
    ∃ edges ends, balancedEdges order (graphs p) balanced id = some edges ∧ edges.Nodup ∧
      (∀ k, k ∈ edges ↔ Joins G nodes id k) ∧
      edges.mapM (neighbor (graphs p)) = some ends ∧ edges.mapM (endOf G) = some ends := by
  obtain ⟨_, node, _, at_, _⟩ := home_node represents owns
  let target := fun k => (((graphs p).getEdge k).map (·.target)).getD id
  have outgoing : (node.getOutgoingEdges order).mapM
      (fun k => ((graphs p).getEdge k).map fun edge => (k, edge.target)) =
        some ((node.getOutgoingEdges order).map fun k => (k, target k)) :=
    List.mapM_each fun k member => by
      obtain ⟨edge, found, _⟩ := (inv.mem_getOutgoingEdges order at_ k).mp member
      simp only [target, found, Option.map_some, Option.getD_some]
  have edges : balancedEdges order (graphs p) balanced id =
      some ((node.getOutgoingEdges order).filter fun k => target k ∈ balanced) := by
    unfold balancedEdges
    rw [at_, Option.bind_some, outgoing, Option.map_some, List.filter_map, List.map_map]
    exact congrArg some (List.map_id'' (fun _ => rfl) _)
  have member : ∀ k, k ∈ (node.getOutgoingEdges order).filter (fun k => target k ∈ balanced) ↔
      Joins G nodes id k := by
    intro k
    rw [List.mem_filter, decide_eq_true_eq, inv.mem_getOutgoingEdges order at_, all]
    constructor
    next =>
      rintro ⟨⟨edge, found, leaves⟩, inside⟩
      obtain ⟨whole, there, _, rfl⟩ :=
        GlobalGraph.edgeAt_eq_some.mp ((represents.edges p k).symm.trans found)
      simp only [target, found, Option.map_some, Option.getD_some] at inside
      exact ⟨whole, there, leaves, inside⟩
    next =>
      rintro ⟨whole, there, leaves, inside⟩
      have found : (graphs p).getEdge k = some (whole.stored (G.stateAt p whole)) :=
        (represents.edges p k).trans
          (GlobalGraph.edgeAt_eq_some.mpr ⟨whole, there, .inl (leaves ▸ owns), rfl⟩)
      refine ⟨⟨_, found, leaves⟩, ?_⟩
      simp only [target, found, Option.map_some, Option.getD_some]
      exact inside
  -- Each edge has the same end on the process and in the whole graph.
  have ends : ∀ k ∈ (node.getOutgoingEdges order).filter (fun k => target k ∈ balanced),
      ∃ target, neighbor (graphs p) k = some target ∧ endOf G k = some target := by
    intro k listed
    obtain ⟨edge, found, leaves⟩ := (inv.mem_getOutgoingEdges order at_ k).mp (List.mem_filter.mp listed).1
    exact edge_end represents inv found leaves
  obtain ⟨images, read, _⟩ := List.mapM_some fun k listed => (ends k listed).imp fun _ both => both.1
  refine ⟨_, images, edges, (inv.nodup_getOutgoingEdges order at_).filter _, member, read, ?_⟩
  rw [← read]
  refine List.mapM_same fun k listed => ?_
  obtain ⟨_, here, there⟩ := ends k listed
  exact there.trans here.symm

variable (fixed order) in
theorem describe_some (all : ∀ id, id ∈ balanced ↔ Balanced nodes id)
    (owned : ∀ id ∈ nodes p, G.Owns p id) :
    ∃ H, describe order (graphs p) balanced (nodes p) fixed = some H ∧
      Describes G nodes fixed p H := by
  have mine : ∀ id ∈ ((nodes p).toList order).map Prod.fst, G.Owns p id :=
    fun id listed => owned id ((mem_keys order).mp listed)
  obtain ⟨weights, weighed, _⟩ := List.mapM_some
    (f := fun id => ((graphs p).getNode id).map (·.weight)) fun id listed => by
      obtain ⟨_, found, _, at_, _⟩ := home_node represents (mine id listed)
      exact ⟨found.weight, by rw [at_]; rfl⟩
  obtain ⟨edges, counted, member⟩ := List.mapM_some (f := balancedEdges order (graphs p) balanced)
    fun id listed => by
      obtain ⟨edges, _, found, _⟩ := balancedEdges_some order represents inv all (mine id listed)
      exact ⟨edges, found⟩
  obtain ⟨neighbors, reached, _⟩ := List.mapM_some
    (f := fun list : List (Id n) => list.mapM (neighbor (graphs p))) (l := edges) fun list listed => by
      obtain ⟨id, listed, found⟩ := (member list).mp listed
      obtain ⟨_, ends, found', _, _, read, _⟩ :=
        balancedEdges_some order represents inv all (mine id listed)
      cases found.symm.trans found'
      exact ⟨ends, read⟩
  have weightCount := (List.mapM_forall₂.mp weighed).length_eq
  have names : ((((nodes p).toList order).map Prod.fst).zip weights).map Prod.fst =
      ((nodes p).toList order).map Prod.fst := List.map_fst_zip weightCount.le
  have told : describe order (graphs p) balanced (nodes p) fixed = some
      { objects := (((nodes p).toList order).map Prod.fst).zip weights
        neighbors
        fixed := fixed.toList order } := by
    unfold describe
    dsimp only
    rw [weighed, Option.bind_some, counted, Option.bind_some, reached, Option.map_some]
  have weight : ∀ id w, (id, w) ∈ (((nodes p).toList order).map Prod.fst).zip weights →
      id ∈ nodes p ∧ ∃ node, G.node id = some node ∧ node.weight = w := by
    intro id w entry
    have listed := (List.of_mem_zip entry).1
    have read := List.forall₂_zip (List.mapM_forall₂.mp weighed) entry
    obtain ⟨node, found, there, at_, same⟩ := home_node represents (mine id listed)
    rw [at_, Option.map_some, Option.some.injEq] at read
    exact ⟨(mem_keys order).mp listed, node, there, same.symm.trans read⟩
  have objects : ∀ id w, (id, w) ∈ (((nodes p).toList order).map Prod.fst).zip weights ↔
      id ∈ nodes p ∧ ∃ node, G.node id = some node ∧ node.weight = w := by
    intro id w
    refine ⟨weight id w, ?_⟩
    rintro ⟨member, node, there, rfl⟩
    have listed := (mem_keys order).mpr member
    rw [← names] at listed
    obtain ⟨⟨_, w'⟩, entry, rfl⟩ := List.mem_map.mp listed
    obtain ⟨_, node', there', rfl⟩ := weight _ _ entry
    cases there.symm.trans there'
    exact entry
  have ends : List.Forall₂ (fun id list => ∃ edges : List (Id n), edges.Nodup ∧
      (∀ k, k ∈ edges ↔ Joins G nodes id k) ∧ edges.mapM (endOf G) = some list)
      (((nodes p).toList order).map Prod.fst) neighbors := by
    refine (List.mapM_forall₂.mp counted).chain (List.mapM_forall₂.mp reached)
      fun id listed list ends found read => ?_
    obtain ⟨_, _, found', once, member, read', there⟩ :=
      balancedEdges_some order represents inv all (mine id listed)
    cases found.symm.trans found'
    cases read.symm.trans read'
    exact ⟨list, once, member, there⟩
  rw [← names, List.forall₂_map_left_iff] at ends
  exact ⟨_, told, {
    objects
    once := by
      rw [names]
      exact UnorderedMap.nodup_toList order (nodes p)
    neighbors := ends
    fixed := fun id q => UnorderedMap.mem_toList order fixed
    fixedOnce := UnorderedMap.nodup_toList order fixed }⟩

end

/-- A call for nodes that the processes own, in graphs that store `G`. -/
structure BalanceCall.Consistent (call : BalanceCall n T W) (json : JsonType (Finset (Id n)))
    (G : GlobalGraph n T W) : Prop where
  represents : Represents G fun p => (call.graphs p).view
  inv : ∀ p, GraphInv (call.graphs p)
  owned : ∀ p, ∀ id ∈ call.nodes p, G.Owns p id
  nodeIds : ∀ p, ∀ id ∈ call.nodes p, Representable id
  fixedIds : ∀ p, ∀ id ∈ call.fixedVertices p, Representable id
  -- The counts that MPI takes are `int` numbers.
  sendable : ∑ p, (json.dump (insertIds (call.order p) (call.nodes p) ∅)).length ≤ intMax
  -- The library exports objects of the process, each of them once.
  exports : ∀ H p, ∀ item ∈ call.partition H p, item.1 ∈ (H p).objects.map Prod.fst
  exportsOnce : ∀ H, (∀ p, ((H p).objects.map Prod.fst).Nodup) →
    ∀ p, ((call.partition H p).map Prod.fst).Nodup

theorem mem_insertIds {order : HashOrder} {nodes : NodeMap n} {ids : Finset (Id n)} {id : Id n} :
    id ∈ insertIds order nodes ids ↔ id ∈ nodes ∨ id ∈ ids := by
  have inserted : ∀ (l : List (Id n × Unit)) (ids : Finset (Id n)),
      id ∈ l.foldl (fun ids node => insert node.1 ids) ids ↔ id ∈ l.map Prod.fst ∨ id ∈ ids := by
    intro l
    induction l with
    | nil => simp
    | cons item rest ih =>
      intro ids
      rw [List.foldl_cons, ih, Finset.mem_insert, List.map_cons, List.mem_cons]
      tauto
  unfold insertIds
  rw [inserted, mem_keys]

theorem mem_accumulate [NeZero n] {data : Fin n → Finset (Id n)} {id : Id n} :
    id ∈ TypedMpi.accumulate concatSet data ↔ ∃ p, id ∈ data p := by
  have joined : ∀ (l : List (Finset (Id n))) (ids : Finset (Id n)),
      id ∈ l.foldl concatSet ids ↔ id ∈ ids ∨ ∃ other ∈ l, id ∈ other := by
    intro l
    induction l with
    | nil => simp
    | cons first rest ih =>
      intro ids
      rw [List.foldl_cons, ih, concatSet, Finset.mem_union]
      simp only [List.mem_cons, exists_eq_or_imp]
      tauto
  have first := TypedMpi.head?_ofFn data
  unfold TypedMpi.accumulate
  rw [joined]
  constructor
  next =>
    rintro (here | ⟨other, listed, inside⟩)
    next => exact ⟨0, here⟩
    next =>
      obtain ⟨p, rfl⟩ := (List.mem_ofFn' _ _).mp (List.mem_of_mem_tail listed)
      exact ⟨p, inside⟩
  next =>
    rintro ⟨p, inside⟩
    have listed := (List.mem_ofFn' data (data p)).mpr ⟨p, rfl⟩
    rw [← List.cons_head?_tail first, List.mem_cons] at listed
    rcases listed with same | later
    next => exact .inl (same ▸ inside)
    next => exact .inr ⟨data p, later, inside⟩

theorem importPartition_eq {layout : WordLayout} (ranks : n ≤ 2 ^ 31) {exports : List (Id n × Fin n)}
    (representable : ∀ item ∈ exports, Representable item.1) :
    importPartition layout ((exports.map fun item => writeZoltanId layout item.1).flatten,
      exports.map (·.2)) = some (exports.foldl (fun partition item => partition.insert item.1 item.2) ∅) := by
  have ids := read_ids layout ranks (exports.map Prod.fst) fun id member => by
    obtain ⟨item, listed, rfl⟩ := List.mem_map.mp member
    exact representable item listed
  rw [List.map_map, List.length_map] at ids
  unfold importPartition
  dsimp only
  rw [List.length_map, show (fun item : Id n × Fin n => writeZoltanId layout item.1) =
    writeZoltanId layout ∘ Prod.fst from rfl, ids, Option.map_some, List.zip_map',
    List.map_id'' fun _ => rfl]

theorem neighbor_object {G : GlobalGraph n T W} {nodes : Fin n → NodeMap n}
    {fixed : Fin n → PartitionMap n} {H : Fin n → Hypergraph n W}
    (describes : ∀ p, Describes G nodes (fixed p) p (H p)) (owned : ∀ p, ∀ id ∈ nodes p, G.Owns p id)
    {p : Fin n} {list : List (Id n × Fin n × W)} (listed : list ∈ (H p).neighbors)
    {neighbor : Id n × Fin n × W} (member : neighbor ∈ list) :
    neighbor.1 ∈ (H neighbor.2.1).objects.map Prod.fst := by
  obtain ⟨_, _, _, _, joins, read⟩ := (describes p).neighbors.source listed
  obtain ⟨k, inside, reached⟩ := (List.mapM_forall₂.mp read).source member
  obtain ⟨edge, found, _, q, balanced⟩ := (joins k).mp inside
  obtain ⟨target, there, rfl⟩ := owned q edge.target balanced
  unfold endOf at reached
  rw [found, Option.bind_some, there, Option.map_some, Option.some.injEq] at reached
  subst reached
  exact List.mem_map.mpr
    ⟨(edge.target, target.weight), ((describes _).objects _ _).mpr ⟨balanced, target, there, rfl⟩, rfl⟩

section

variable {json : JsonType (Finset (Id n))} (layout : WordLayout) (lawful : json.Lawful) (ranks : n ≤ 2 ^ 31)
  {call : BalanceCall n T W}
include lawful ranks

theorem balance_describes [NeZero n] {s : Fin n → ZoltanLoadBalancing n}
    (cleared : ∀ p, (s p).zoltanData = .empty) {G : GlobalGraph n T W}
    (consistent : call.Consistent json G) :
    ∃ s' partitions H, balance json layout s call = some (s', partitions) ∧
      (∀ p, (s' p).zoltanData = .empty) ∧
      (∀ p, Describes G call.nodes (call.fixedVertices p) p (H p)) ∧
      ∀ p id q, (partitions p).lookup id = some q ↔ (id, q) ∈ call.partition H p := by
  let ids := fun p => insertIds (call.order p) (call.nodes p) ∅
  have reduced : TypedMpi.allReduce json call.sendHeap call.recvHeap concatSet ids =
      some fun _ => TypedMpi.accumulate concatSet ids :=
    TypedMpi.allReduce_delivers lawful consistent.sendable call.sendHeap call.recvHeap concatSet
  have all : ∀ id, id ∈ TypedMpi.accumulate concatSet ids ↔ Balanced call.nodes id := by
    intro id
    rw [mem_accumulate]
    exact exists_congr fun p => by simp [ids, mem_insertIds]
  choose H told describes using fun p => describe_some (call.fixedVertices p)
    (call.order p) consistent.represents (consistent.inv p) all (consistent.owned p)
  have answers : ∀ p, ∃ answer, queries layout (call.unset p) (call.order p) (call.graphs p)
      (call.fixedVertices p) (asked (TypedMpi.accumulate concatSet ids) (call.nodes p)) = some answer ∧
        answer.2.read layout = some (H p) := by
    intro p
    refine queries_read ranks (told p) (consistent.nodeIds p) ?_ (consistent.fixedIds p)
    intro list listed neighbor member
    have object := neighbor_object describes consistent.owned listed member
    obtain ⟨⟨id, w⟩, entry, same⟩ := List.mem_map.mp object
    exact same ▸ consistent.nodeIds _ id (((describes _).objects id w).mp entry).1
  choose answer asked_ read using answers
  have queried : (collect fun p => queries layout (call.unset p) (call.order p) (call.graphs p)
      (call.fixedVertices p) (asked (TypedMpi.accumulate concatSet ids) (call.nodes p))) = some answer :=
    collect_eq_some.mpr asked_
  have partitioned : lbPartition layout call.partition (fun p => (answer p).2) = some fun p =>
      (((call.partition H p).map fun item => writeZoltanId layout item.1).flatten,
        (call.partition H p).map (·.2)) := by
    unfold lbPartition
    rw [collect_eq_some.mpr read, Option.map_some]
  have imported : (collect fun p => importPartition layout
      (((call.partition H p).map fun item => writeZoltanId layout item.1).flatten,
        (call.partition H p).map (·.2))) = some fun p =>
          (call.partition H p).foldl (fun partition item => partition.insert item.1 item.2) ∅ := by
    refine collect_eq_some.mpr fun p => importPartition_eq ranks fun item listed => ?_
    obtain ⟨⟨id, w⟩, entry, same⟩ := List.mem_map.mp (consistent.exports H p item listed)
    exact same ▸ consistent.nodeIds p id (((describes p).objects id w).mp entry).1
  have result : balance json layout s call = some
      (fun p => { zoltanData := .empty, fixedVertices := call.fixedVertices p },
        fun p => (call.partition H p).foldl (fun partition item => partition.insert item.1 item.2) ∅) := by
    unfold balance
    simp only [cleared]
    rw [show (fun p => insertIds (call.order p) (call.nodes p) (ZoltanData.empty (n := n)).distributedNodeIds) =
      ids from rfl, reduced, Option.bind_some]
    show Option.bind (collect fun p => queries layout (call.unset p) (call.order p) (call.graphs p)
      (call.fixedVertices p) (asked (TypedMpi.accumulate concatSet ids) (call.nodes p))) _ = _
    rw [queried, Option.bind_some, partitioned, Option.bind_some, imported, Option.map_some]
    rfl
  refine ⟨_, _, H, result, fun _ => rfl, describes, fun p id q => ?_⟩
  rw [UnorderedMap.lookup_foldl_insert (consistent.exportsOnce H (fun p => (describes p).once) p)]
  exact ⟨fun stored => stored.resolve_right fun old => (by cases old.2), .inl⟩

/-- In each of several calls, the library partitions the graph of the balanced nodes, whatever the
previous calls were about. -/
theorem zoltan_balances [NeZero n] {calls : List (BalanceCall n T W)}
    (consistent : ∀ call ∈ calls, ∃ G, call.Consistent json G) :
    ∃ partitions, balances json layout (fun _ => .initial) calls = some partitions ∧
      List.Forall₂ (fun call partitions => ∀ G, call.Consistent json G →
        ∃ H, (∀ p, Describes G call.nodes (call.fixedVertices p) p (H p)) ∧
          (∀ p, ∀ list ∈ (H p).neighbors, ∀ neighbor ∈ list,
            neighbor.1 ∈ (H neighbor.2.1).objects.map Prod.fst) ∧
          ∀ p id q, (partitions p).lookup id = some q ↔ (id, q) ∈ call.partition H p)
        calls partitions := by
  suffices ∀ s : Fin n → ZoltanLoadBalancing n, (∀ p, (s p).zoltanData = .empty) →
      ∃ partitions, balances json layout s calls = some partitions ∧ List.Forall₂ _ calls partitions from
    this _ fun _ => rfl
  induction calls with
  | nil => exact fun _ _ => ⟨[], rfl, .nil⟩
  | cons call calls ih =>
    intro s cleared
    obtain ⟨G, first⟩ := consistent call List.mem_cons_self
    obtain ⟨s', result, _, done, cleared', _, _⟩ :=
      balance_describes layout lawful ranks cleared first
    obtain ⟨partitions, later, each⟩ :=
      ih (fun other member => consistent other (List.mem_cons_of_mem call member)) s' cleared'
    refine ⟨result :: partitions, ?_, .cons (fun G' again => ?_) each⟩
    next =>
      unfold balances
      rw [done, Option.bind_some, later, Option.map_some]
    next =>
      obtain ⟨_, result', H, done', _, describes, imported⟩ :=
        balance_describes layout lawful ranks cleared again
      cases done.symm.trans done'
      exact ⟨H, describes, fun p list listed neighbor member =>
        neighbor_object describes again.owned listed member, imported⟩

end

def littleEndian : WordLayout where
  toFun word := (UInt32.ofNat word.toNat, UInt32.ofNat (word.toNat / 2 ^ 32))
  invFun words := UInt64.ofNat (words.1.toNat + words.2.toNat * 2 ^ 32)
  left_inv word := by
    have below := word.toNat_lt
    apply UInt64.toNat_inj.mp
    simp only [UInt32.toNat_ofNat', UInt64.toNat_ofNat']
    omega
  right_inv words := by
    have first := words.1.toNat_lt
    have second := words.2.toNat_lt
    refine Prod.ext (UInt32.toNat_inj.mp ?_) (UInt32.toNat_inj.mp ?_)
    next =>
      simp only [UInt32.toNat_ofNat', UInt64.toNat_ofNat']
      omega
    next =>
      simp only [UInt32.toNat_ofNat', UInt64.toNat_ofNat']
      omega

open Fpmas.Synchro.Ghost

theorem linked_on_two : ∃ (G : GlobalGraph 2 Unit Nat) (s : GhostSystem 2 Unit Nat), Synchronized G s ∧
    (s 0).view.IsLocal ⟨0, 0⟩ ∧ (s 1).view.IsLocal ⟨0, 1⟩ := by
  have run : (((ghost 2 Unit Nat id).exec .empty (linkedRun 0 () ())).bind fun s =>
      (s.distribute id (fun _ => .insertion) (sendOnly 0 ⟨0, 1⟩ 1)).map fun t =>
        [(s 0).view.state ⟨0, 1⟩, (t 0).view.state ⟨0, 0⟩, (t 1).view.state ⟨0, 1⟩]) =
      some [some .LOCAL, some .LOCAL, some .LOCAL] := by
    decide +kernel
  obtain ⟨s, built, rest⟩ := Option.bind_eq_some_iff.mp run
  obtain ⟨t, moved, result⟩ := Option.map_eq_some_iff.mp rest
  simp only [List.cons.injEq, and_true] at result
  obtain ⟨second, stays, arrives⟩ := result
  obtain ⟨_, G, synced⟩ := linked_separated built second moved
  exact ⟨G, t, synced, GraphView.isLocal_iff_state.mpr stays,
    GraphView.isLocal_iff_state.mpr arrives⟩

def oneEach (creator p : Fin n) : NodeMap n := (∅ : NodeMap n).insert ⟨creator, p⟩ ()

def gatherAll (q : Fin n) (H : Fin n → Hypergraph n W) (p : Fin n) : List (Id n × Fin n) :=
  if p = q then [] else (H p).objects.map fun object => (object.1, q)

def gatherCall (s : GhostSystem n T W) (weight : W) (creator q : Fin n) : BalanceCall n T W where
  graphs p := (s p).graph
  nodes := oneEach creator
  fixedVertices _ := ∅
  order _ := .insertion
  unset := fun _ => ⟨fun _ => 7, fun _ => weight, fun _ => 7, fun _ => q⟩
  sendHeap _ _ := 7
  recvHeap _ _ := 7
  partition := gatherAll q

theorem mem_oneEach {creator p : Fin n} {id : Id n} : id ∈ oneEach creator p ↔ id = ⟨creator, p⟩ := by
  unfold oneEach
  rw [AList.mem_insert]
  exact or_iff_left (AList.notMem_empty id)

theorem insertIds_oneEach (creator p : Fin n) :
    insertIds .insertion (oneEach creator p) ∅ = {(⟨creator, p⟩ : Id n)} := by
  ext id
  rw [mem_insertIds, mem_oneEach, Finset.mem_singleton]
  exact or_iff_left (Finset.notMem_empty id)

theorem gather_consistent {G : GlobalGraph 2 Unit Nat} {s : GhostSystem 2 Unit Nat} (synced : Synchronized G s)
    (first : (s 0).view.IsLocal ⟨0, 0⟩) (second : (s 1).view.IsLocal ⟨0, 1⟩) (q : Fin 2) :
    (gatherCall s 0 0 q).Consistent DistributedIdJson.idSet G where
  represents := synced.represents
  inv := synced.graph
  owned p id member := by
    rw [gatherCall, mem_oneEach] at member
    subst member
    refine (synced.represents.isLocal p _).mp ?_
    fin_cases p
    next => exact first
    next => exact second
  nodeIds p id member := by
    rw [gatherCall, mem_oneEach] at member
    subst member
    have below := p.isLt
    show p.val < 2 ^ 64
    omega
  fixedIds p id member := absurd member (AList.notMem_empty id)
  sendable := by
    have text : ∀ p : Fin 2,
        (DistributedIdJson.idSet.dump (insertIds .insertion (oneEach 0 p) ∅)).length ≤ 10 := by
      intro p
      rw [insertIds_oneEach]
      show (91 :: DistributedIdJson.dumpIds (DistributedIdJson.sorted _)).length ≤ 10
      rw [DistributedIdJson.sorted_singleton]
      revert p
      decide +kernel
    exact (Finset.sum_le_sum fun p _ => text p).trans (by decide)
  exports H p item listed := by
    rw [gatherCall] at listed
    dsimp only [gatherAll] at listed
    split at listed
    next => cases listed
    next =>
      obtain ⟨object, inside, rfl⟩ := List.mem_map.mp listed
      exact List.mem_map_of_mem inside
  exportsOnce H distinct p := by
    rw [gatherCall]
    dsimp only [gatherAll]
    split
    next => exact List.nodup_nil
    next =>
      rw [List.map_map]
      exact distinct p

theorem zoltan_balances_two : ∃ (s : GhostSystem 2 Unit Nat) (to1 to0 : Fin 2 → PartitionMap 2),
    balances DistributedIdJson.idSet littleEndian (fun _ => .initial)
        [gatherCall s 0 0 1, gatherCall s 0 0 0] = some [to1, to0] ∧
      (to1 0).lookup ⟨0, 0⟩ = some 1 ∧ (to0 1).lookup ⟨0, 1⟩ = some 0 := by
  obtain ⟨G, s, synced, first, second⟩ := linked_on_two
  have consistent := gather_consistent synced first second
  have both : ∀ call ∈ [gatherCall s 0 0 1, gatherCall s 0 0 0],
      ∃ G, call.Consistent DistributedIdJson.idSet G := by
    intro call listed
    rcases List.mem_pair.mp listed with rfl | rfl
    next => exact ⟨G, consistent 1⟩
    next => exact ⟨G, consistent 0⟩
  obtain ⟨partitions, result, each⟩ :=
    zoltan_balances littleEndian DistributedIdJson.idSet_lawful (by decide) both
  obtain ⟨to1, _, there, others, rfl⟩ := List.forall₂_cons_left_iff.mp each
  obtain ⟨to0, _, here, none_, rfl⟩ := List.forall₂_cons_left_iff.mp others
  cases none_
  refine ⟨s, to1, to0, result, ?_, ?_⟩
  next =>
    obtain ⟨H, describes, _, exported⟩ := there G (consistent 1)
    obtain ⟨node, inside, _⟩ := (synced.represents.isLocal 0 _).mp first
    have object := ((describes 0).objects ⟨0, 0⟩ node.weight).mpr ⟨mem_oneEach.mpr rfl, node, inside, rfl⟩
    refine (exported 0 _ 1).mpr ?_
    show _ ∈ gatherAll 1 H 0
    rw [gatherAll, if_neg (by decide)]
    exact List.mem_map.mpr ⟨_, object, rfl⟩
  next =>
    obtain ⟨H, describes, _, exported⟩ := here G (consistent 0)
    obtain ⟨node, inside, _⟩ := (synced.represents.isLocal 1 _).mp second
    have object := ((describes 1).objects ⟨0, 1⟩ node.weight).mpr ⟨mem_oneEach.mpr rfl, node, inside, rfl⟩
    refine (exported 1 _ 0).mpr ?_
    show _ ∈ gatherAll 0 H 1
    rw [gatherAll, if_neg (by decide)]
    exact List.mem_map.mpr ⟨_, object, rfl⟩

end Fpmas.Graph.Zoltan
