import Fpmas.Graph.ClearRefinement
import Fpmas.Graph.Distribute
import Fpmas.Graph.GlobalGraph
import Fpmas.Graph.Import
import Fpmas.Graph.LocationAgreement

set_option autoImplicit false

namespace Fpmas.Graph

variable {n : Nat} {T W : Type}

namespace GlobalGraph

variable (G : GlobalGraph n T W) (partition : Fin n → PartitionMap n)

def Moves (p : Fin n) (id : Id n) (q : Fin n) : Prop :=
  G.Owns p id ∧ (partition p).lookup id = some q ∧ q ≠ p

def distributed : GlobalGraph n T W where
  node id := (G.node id).map fun node =>
    { node with owner := ((partition node.owner).lookup id).getD node.owner }
  edge := G.edge

variable {G partition}

theorem distributed_node {id : Id n} {node : GlobalNode n T W} (inside : G.node id = some node) :
    (G.distributed partition).node id =
      some { node with owner := ((partition node.owner).lookup id).getD node.owner } := by
  simp only [distributed, inside, Option.map_some]

theorem moves_unique {p p' q q' : Fin n} {id : Id n} (first : G.Moves partition p id q)
    (second : G.Moves partition p' id q') : p = p' ∧ q = q' := by
  have same := owns_unique first.1 second.1
  subst same
  have dest := first.2.1.symm.trans second.2.1
  cases dest
  exact ⟨rfl, rfl⟩

theorem owns_distributed (q : Fin n) (id : Id n) :
    (G.distributed partition).Owns q id ↔
      (∃ p, G.Moves partition p id q) ∨ G.Owns q id ∧ ∀ r, ¬ G.Moves partition q id r := by
  constructor
  · rintro ⟨node', found, owner⟩
    obtain ⟨node, inside, rfl⟩ := Option.map_eq_some_iff.mp found
    have owned : G.Owns node.owner id := ⟨node, inside, rfl⟩
    dsimp only at owner
    cases entry : (partition node.owner).lookup id with
    | none =>
      rw [entry, Option.getD_none] at owner
      subst owner
      refine .inr ⟨owned, fun r moves => ?_⟩
      cases entry.symm.trans moves.2.1
    | some dest =>
      rw [entry, Option.getD_some] at owner
      subst owner
      by_cases stays : dest = node.owner
      · refine .inr ⟨stays ▸ owned, fun r moves => ?_⟩
        rw [stays] at moves entry
        exact moves.2.2 (Option.some.inj (moves.2.1.symm.trans entry))
      · exact .inl ⟨node.owner, owned, entry, stays⟩
  · rintro (⟨p, owned, entry, _⟩ | ⟨owned, stays⟩)
    · obtain ⟨node, inside, rfl⟩ := owned
      exact ⟨_, distributed_node inside, by rw [entry, Option.getD_some]⟩
    · obtain ⟨node, inside, rfl⟩ := owned
      refine ⟨_, distributed_node inside, ?_⟩
      dsimp only
      cases entry : (partition node.owner).lookup id with
      | none => rfl
      | some dest =>
        rw [Option.getD_some]
        by_contra leaves
        exact stays dest ⟨⟨node, inside, rfl⟩, entry, leaves⟩

end GlobalGraph

section

variable {G : GlobalGraph n T W} {partition : Fin n → PartitionMap n} {v : Fin n → GraphView n T W}
  (hosts : Hosts G v) {p : Fin n} {g : DistributedGraph n T W} (view : g.view = v p)
  -- The partition of a process sends none of the DISTANT nodes that it has to another process.
  (mapped : ∀ id q, (partition p).lookup id = some q → q ≠ p → ¬ (v p).IsDistant id)
  (order : HashOrder)

include hosts view mapped

theorem mem_exportedNodes (id : Id n) (q : Fin n) :
    (id, q) ∈ g.exportedNodes order (partition p) ↔ G.Moves partition p id q := by
  have rank : g.rank = p := (congrArg GraphView.rank view).trans (hosts.rank p)
  unfold DistributedGraph.exportedNodes GlobalGraph.Moves
  rw [List.mem_filter, UnorderedMap.mem_toList, decide_eq_true_eq, rank, ← hosts.isLocal, ← view]
  constructor
  · rintro ⟨entry, present, other⟩
    obtain ⟨node, at_⟩ := (UnorderedMap.mem_iff_lookup _ _).mp present
    refine ⟨(g.isLocal_iff id).mpr ⟨node, at_, ?_⟩, entry, other⟩
    have notDistant := mapped id q entry other
    rw [← view, g.isDistant_iff] at notDistant
    cases state : node.state with
    | LOCAL => rfl
    | DISTANT => exact absurd ⟨node, at_, state⟩ notDistant
  · rintro ⟨isLocal, entry, other⟩
    obtain ⟨node, at_, _⟩ := (g.isLocal_iff id).mp isLocal
    exact ⟨entry, (UnorderedMap.mem_iff_lookup _ _).mpr ⟨node, at_⟩, other⟩

omit hosts view mapped in
theorem nodup_exportedNodes (partition : PartitionMap n) :
    ((g.exportedNodes order partition).map Prod.fst).Nodup :=
  (UnorderedMap.nodup_toList order partition).sublist (List.filter_sublist.map Prod.fst)

theorem exported_ids (id : Id n) : id ∈ (g.exportedNodes order (partition p)).map Prod.fst ↔
    ∃ q, G.Moves partition p id q := by
  rw [List.mem_map]
  constructor
  · rintro ⟨⟨_, q⟩, member, rfl⟩
    exact ⟨q, (mem_exportedNodes hosts view mapped order _ q).mp member⟩
  · rintro ⟨q, moves⟩
    exact ⟨(id, q), (mem_exportedNodes hosts view mapped order id q).mpr moves, rfl⟩

theorem nodeExportMap_spec :
    ∃ nodes, g.nodeExportMap (g.exportedNodes order (partition p)) = some nodes ∧
      ∀ q message, message ∈ nodes.valuesAt q ↔ ∃ node, G.Moves partition p message.id q ∧
        G.node message.id = some node ∧ message.data = node.data ∧ message.weight = node.weight := by
  have content : ∀ id q, G.Moves partition p id q → ∃ node found, G.node id = some node ∧
      g.getNode id = some found ∧ found.data = node.data ∧ found.weight = node.weight := by
    rintro id q ⟨⟨node, inside, rfl⟩, _⟩
    obtain ⟨found, at_, core⟩ := DistributedGraph.getNode_of_view view (hosts.home id node inside)
    exact ⟨node, found, inside, at_, congrArg NodeCore.data core, congrArg NodeCore.weight core⟩
  obtain ⟨nodes, result, member⟩ := UnorderedMap.pushAll_mapM
    (f := fun item : Id n × Fin n => (g.nodeMessage item.1).map fun message => (item.2, message))
    (l := g.exportedNodes order (partition p)) fun item listed => by
      obtain ⟨node, found, inside, at_, _⟩ := content item.1 item.2
        ((mem_exportedNodes hosts view mapped order item.1 item.2).mp listed)
      exact ⟨_, by rw [DistributedGraph.nodeMessage, at_, Option.map_some, Option.map_some]⟩
  refine ⟨nodes, result, fun q message => (member q message).trans ?_⟩
  constructor
  · rintro ⟨⟨id, dest⟩, listed, sent⟩
    have moves := (mem_exportedNodes hosts view mapped order id dest).mp listed
    obtain ⟨node, found, inside, at_, data, weight⟩ := content id dest moves
    simp only [DistributedGraph.nodeMessage, at_, Option.map_some, Option.some.injEq,
      Prod.mk.injEq] at sent
    obtain ⟨rfl, rfl⟩ := sent
    exact ⟨node, moves, inside, data, weight⟩
  · rintro ⟨node, moves, inside, data, weight⟩
    obtain ⟨node', found, inside', at_, data', weight'⟩ := content message.id q moves
    cases inside.symm.trans inside'
    refine ⟨(message.id, q), (mem_exportedNodes hosts view mapped order _ q).mpr moves, ?_⟩
    simp only [DistributedGraph.nodeMessage, at_, Option.map_some, Option.some.injEq,
      Prod.mk.injEq, true_and]
    rw [data', weight', ← data, ← weight]

theorem edgeIdsToExport_spec (inv : GraphInv g) (edges : ∀ k, (v p).edge k = G.edgeAt p k) :
    ∃ ids, g.edgeIdsToExport order (g.exportedNodes order (partition p)) = some ids ∧
      ∀ q k, k ∈ ids.valuesAt q ↔
        ∃ edge id, G.edge k = some edge ∧ edge.Touches id ∧ G.Moves partition p id q := by
  have present : ∀ id q, G.Moves partition p id q → ∃ node, g.getNode id = some node := by
    rintro id q ⟨⟨node, inside, rfl⟩, _⟩
    obtain ⟨found, at_, _⟩ := DistributedGraph.getNode_of_view view (hosts.home id node inside)
    exact ⟨found, at_⟩
  have stored : ∀ k e, g.getEdge k = some e ↔ G.edgeAt p k = some e := by
    intro k e
    rw [← edges, ← view]
    rfl
  let incident (item : Id n × Fin n) := (g.getNode item.1).map fun node =>
    (node.getIncomingEdges order ++ node.getOutgoingEdges order).map fun edge => (item.2, edge)
  obtain ⟨lists, result, member⟩ := List.mapM_some (f := incident)
    (l := g.exportedNodes order (partition p)) fun item listed => by
      obtain ⟨node, at_⟩ := present item.1 item.2
        ((mem_exportedNodes hosts view mapped order item.1 item.2).mp listed)
      exact ⟨_, by simp only [incident, at_, Option.map_some]; rfl⟩
  refine ⟨UnorderedMap.pushAll ∅ lists.flatten, ?_, fun q k => ?_⟩
  · unfold DistributedGraph.edgeIdsToExport
    rw [result, Option.map_some]
  rw [UnorderedMap.mem_pushAll, UnorderedMap.valuesAt_empty, List.mem_flatten]
  simp only [List.not_mem_nil, false_or]
  constructor
  · rintro ⟨list, inside, listed⟩
    obtain ⟨⟨id, dest⟩, exported, sent⟩ := (member list).mp inside
    have moves := (mem_exportedNodes hosts view mapped order id dest).mp exported
    obtain ⟨node, at_⟩ := present id dest moves
    simp only [incident, at_, Option.map_some, Option.some.injEq] at sent
    subst sent
    simp only [List.mem_map, List.mem_append, Prod.mk.injEq] at listed
    obtain ⟨_, incoming | outgoing, rfl, rfl⟩ := listed
    · obtain ⟨e, found, target⟩ := (inv.mem_getIncomingEdges order at_ _).mp incoming
      obtain ⟨edge, inside, _, rfl⟩ := GlobalGraph.edgeAt_eq_some.mp ((stored _ e).mp found)
      exact ⟨edge, id, inside, .inr target, moves⟩
    · obtain ⟨e, found, source⟩ := (inv.mem_getOutgoingEdges order at_ _).mp outgoing
      obtain ⟨edge, inside, _, rfl⟩ := GlobalGraph.edgeAt_eq_some.mp ((stored _ e).mp found)
      exact ⟨edge, id, inside, .inl source, moves⟩
  · rintro ⟨edge, id, inside, touches, moves⟩
    obtain ⟨node, at_⟩ := present id q moves
    have owned : G.Owns p edge.source ∨ G.Owns p edge.target := by
      rcases touches with rfl | rfl
      · exact .inl moves.1
      · exact .inr moves.1
    have found := (stored k _).mpr (GlobalGraph.edgeAt_eq_some.mpr ⟨edge, inside, owned, rfl⟩)
    refine ⟨_, (member _).mpr ⟨(id, q), (mem_exportedNodes hosts view mapped order id q).mpr moves,
      by simp only [incident, at_, Option.map_some]; rfl⟩, ?_⟩
    simp only [List.mem_map, List.mem_append, Prod.mk.injEq]
    refine ⟨k, ?_, trivial, rfl⟩
    rcases touches with source | target
    · exact .inr ((inv.mem_getOutgoingEdges order at_ k).mpr ⟨_, found, source⟩)
    · exact .inl ((inv.mem_getIncomingEdges order at_ k).mpr ⟨_, found, target⟩)

def EdgeMessage.Carries (message : EdgeMessage n T W) (edge : GlobalEdge n W) : Prop :=
  message.layer = edge.layer ∧ message.weight = edge.weight ∧ message.source = edge.source ∧
    message.target = edge.target

theorem edgeExportMap_spec (light : T → T) (inv : GraphInv g)
    (edges : ∀ k, (v p).edge k = G.edgeAt p k) :
    ∃ exports, g.edgeExportMap order light (g.exportedNodes order (partition p)) = some exports ∧
      (∀ q message, message ∈ exports.valuesAt q → ∃ edge id, G.edge message.id = some edge ∧
        edge.Touches id ∧ G.Moves partition p id q ∧ message.Carries edge) ∧
      ∀ q k edge id, G.edge k = some edge → edge.Touches id → G.Moves partition p id q →
        ∃ message ∈ exports.valuesAt q, message.id = k := by
  obtain ⟨ids, result, listed⟩ := edgeIdsToExport_spec hosts view mapped order inv edges
  have sent : ∀ q k, k ∈ ids.valuesAt q → ∃ edge id message, G.edge k = some edge ∧
      edge.Touches id ∧ G.Moves partition p id q ∧ g.edgeMessage light k = some message ∧
      message.id = k ∧ message.Carries edge := by
    intro q k member
    obtain ⟨edge, id, inside, touches, moves⟩ := (listed q k).mp member
    have owned : G.Owns p edge.source ∨ G.Owns p edge.target := by
      rcases touches with rfl | rfl
      · exact .inl moves.1
      · exact .inr moves.1
    have found : g.getEdge k = some (edge.stored (G.stateAt p edge)) := by
      rw [← DistributedGraph.view_edge, view, edges]
      exact GlobalGraph.edgeAt_eq_some.mpr ⟨edge, inside, owned, rfl⟩
    obtain ⟨source, atSource⟩ := inv.source _ _ found
    obtain ⟨target, atTarget⟩ := inv.target _ _ found
    have built : ∃ message, g.edgeMessage light k = some message ∧ message.id = k ∧
        message.Carries edge := by
      rw [DistributedGraph.edgeMessage, found, Option.bind_some, atSource, Option.bind_some, atTarget,
        Option.map_some]
      exact ⟨_, rfl, rfl, rfl, rfl, rfl, rfl⟩
    obtain ⟨message, result, same, carries⟩ := built
    exact ⟨edge, id, message, inside, touches, moves, result, same, carries⟩
  let once := (ids.toList order).flatMap fun entry =>
    (order.of entry.2.dedup).map fun edge => (entry.1, edge)
  have mem_once : ∀ q k, (q, k) ∈ once ↔ k ∈ ids.valuesAt q := by
    intro q k
    rw [← UnorderedMap.mem_messages order, UnorderedMap.messages, List.mem_flatMap, List.mem_flatMap]
    simp only [List.mem_map, HashOrder.mem_of, List.mem_dedup]
  obtain ⟨exports, result', member⟩ := UnorderedMap.pushAll_mapM
    (f := fun item : Fin n × Id n => (g.edgeMessage light item.2).map fun message => (item.1, message))
    (l := once) fun item inside => by
      obtain ⟨_, _, message, _, _, _, sent, _⟩ := sent item.1 item.2 ((mem_once _ _).mp inside)
      exact ⟨_, by rw [sent, Option.map_some]⟩
  refine ⟨exports, ?_, fun q message inside => ?_, fun q k edge id inside touches moves => ?_⟩
  · unfold DistributedGraph.edgeExportMap
    rw [result, Option.bind_some]
    exact result'
  · obtain ⟨⟨dest, k⟩, item, found⟩ := (member q message).mp inside
    obtain ⟨message', built, same⟩ := Option.map_eq_some_iff.mp found
    obtain ⟨rfl, rfl⟩ := Prod.mk.inj same
    obtain ⟨edge, id, message'', inside, touches, moves, sent, rfl, carries⟩ :=
      sent dest k ((mem_once dest k).mp item)
    cases built.symm.trans sent
    exact ⟨edge, id, inside, touches, moves, carries⟩
  · have item := (listed q k).mpr ⟨edge, id, inside, touches, moves⟩
    obtain ⟨_, _, message, _, _, _, sent, same, _⟩ := sent q k item
    refine ⟨message, (member q message).mpr ⟨(q, k), (mem_once q k).mpr item, ?_⟩, same⟩
    rw [sent, Option.map_some]

end

end Fpmas.Graph
