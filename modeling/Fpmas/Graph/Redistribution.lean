import Fpmas.Graph.DistributePhases

set_option autoImplicit false

namespace Fpmas.Graph

variable {n : Nat} {T W : Type}

-- `v` without the nodes that the process has got since the last update of the locations.
def GraphView.forget (v : GraphView n T W) : GraphView n T W :=
  { v with newLocal := fun _ => False }

-- `g` with no new LOCAL node: nothing but the update of the locations reads them.
def DistributedGraph.forget (g : DistributedGraph n T W) : DistributedGraph n T W :=
  { g with locationManager := { g.locationManager with newLocalNodes := ∅ } }

theorem DistributedGraph.view_forget (g : DistributedGraph n T W) : g.forget.view = g.view.forget := by
  have forgotten : (fun id => id ∈ (∅ : NodeMap n)) = fun _ => False := by
    funext id
    simp
  unfold GraphView.forget
  rw [← forgotten]
  rfl

theorem GraphInv.forget {g : DistributedGraph n T W} (inv : GraphInv g) : GraphInv g.forget :=
  ⟨inv.source, inv.target, inv.outgoing, inv.incoming, inv.localNodes, inv.distantNodes⟩

theorem Represents.forget {G : GlobalGraph n T W} {v : Fin n → GraphView n T W}
    (represents : Represents G v) : Represents G fun p => (v p).forget where
  rank := represents.rank
  home := represents.home
  ghost := represents.ghost
  closed := represents.closed
  managed := represents.managed
  newLocal _ _ fresh := fresh.elim
  nodeId := represents.nodeId
  edgeId := represents.edgeId
  nodesIssued := represents.nodesIssued
  edgesIssued := represents.edgesIssued
  edges := represents.edges

/-- What a process has once it has imported its new nodes and marked the ones that leave. -/
structure Settled (G : GlobalGraph n T W) (partition : Fin n → PartitionMap n) (q : Fin n)
    (v v' : GraphView n T W) : Prop where
  isLocal : ∀ id, v'.IsLocal id ↔ (G.distributed partition).Owns q id
  home : ∀ id node, G.node id = some node → (G.distributed partition).Owns q id →
    v'.core id = some { data := node.data, weight := node.weight, location := q, state := .LOCAL }
  known : ∀ id core, v'.core id = some core → ∃ node, G.node id = some node
  exported : ∀ id r, G.Moves partition q id r → ∃ core, v'.core id = some core
  kept : ∀ id core, v.core id = some core → ∃ core', v'.core id = some core'
  gained : ∀ id core, v'.core id = some core → (∃ core', v.core id = some core') ∨
    (G.distributed partition).Owns q id ∨
    ∃ k e, (G.distributed partition).edgeAt q k = some e ∧ e.Touches id
  edge : ∀ k e, v'.edge k = some e ↔ ∃ edge, G.edge k = some edge ∧
    ((G.Owns q edge.source ∨ G.Owns q edge.target) ∨
      (G.distributed partition).Owns q edge.source ∨ (G.distributed partition).Owns q edge.target) ∧
    e = edge.stored ((G.distributed partition).stateAt q edge)
  newLocal : ∀ id, v'.newLocal id ↔ (∃ p, G.Moves partition p id q) ∨ v.newLocal id
  rest : v' = { v with
    core := v'.core
    edge := v'.edge
    newLocal := v'.newLocal }

section

variable {G : GlobalGraph n T W} {partition : Fin n → PartitionMap n}

open GlobalGraph

section

variable {q : Fin n} {v imported linked marked : GraphView n T W} {nodes : List (NodeMessage n T W)}
  {edges : List (EdgeMessage n T W)} {ids : List (Id n)} {content : Id n → Option (NodeCore n T W)}
  {stored : Id n → Option (DistributedEdge n W)}

-- The messages of the nodes that move to the process, and of their edges, and the three phases that
-- import them and mark the nodes that move elsewhere.
variable (G partition q v imported linked marked nodes edges ids content stored) in
structure Exchanged : Prop where
  arrived : ∀ message, message ∈ nodes ↔ ∃ p node, G.Moves partition p message.id q ∧
    G.node message.id = some node ∧ message.data = node.data ∧ message.weight = node.weight
  contents : ∀ id node, G.node id = some node → content id = some
    { data := node.data, weight := node.weight, location := q, state := .LOCAL }
  importNodes : GraphView.NodesImported v imported nodes content
  carried : ∀ message ∈ edges, ∃ edge id p, G.edge message.id = some edge ∧ edge.Touches id ∧
    G.Moves partition p id q ∧ message.Carries edge
  complete : ∀ k edge id p, G.edge k = some edge → edge.Touches id → G.Moves partition p id q →
    ∃ message ∈ edges, message.id = k
  stores : ∀ k edge, G.edge k = some edge →
    stored k = some (edge.stored (imported.edgeState edge.source edge.target))
  importEdges : GraphView.EdgesImported imported linked edges stored
  leaving : ∀ id, id ∈ ids ↔ ∃ r, G.Moves partition q id r
  setDistantNodes : GraphView.NodesExported linked marked (· ∈ ids)

namespace Exchanged

variable (exchanged : Exchanged G partition q v imported linked marked nodes edges ids content stored)
include exchanged

theorem gets (id : Id n) : id ∈ nodes.map (·.id) ↔ ∃ p, G.Moves partition p id q := by
  rw [List.mem_map]
  constructor
  · rintro ⟨message, member, rfl⟩
    obtain ⟨p, _, moves, _⟩ := (exchanged.arrived message).mp member
    exact ⟨p, moves⟩
  · rintro ⟨p, moves⟩
    obtain ⟨node, inside, _⟩ := moves.1
    exact ⟨⟨id, node.data, node.weight⟩,
      (exchanged.arrived _).mpr ⟨p, node, moves, inside, rfl, rfl⟩, rfl⟩

theorem stays {id : Id n} (gained : ∃ p, G.Moves partition p id q) : id ∉ ids := by
  obtain ⟨p, moves⟩ := gained
  intro leaves
  obtain ⟨r, moves'⟩ := (exchanged.leaving id).mp leaves
  obtain ⟨rfl, rfl⟩ := moves_unique moves moves'
  exact moves.2.2 rfl

theorem owns_marked (id : Id n) : ((∃ p, G.Moves partition p id q) ∨ G.Owns q id) ∧ id ∉ ids ↔
    (G.distributed partition).Owns q id := by
  rw [owns_distributed]
  constructor
  · rintro ⟨gained | owned, remains⟩
    · exact .inl gained
    · exact .inr ⟨owned, fun r moves => remains ((exchanged.leaving id).mpr ⟨r, moves⟩)⟩
  · rintro (gained | ⟨owned, kept⟩)
    · exact ⟨.inl gained, exchanged.stays gained⟩
    · refine ⟨.inr owned, fun leaves => ?_⟩
      obtain ⟨r, moves⟩ := (exchanged.leaving id).mp leaves
      exact kept r moves

theorem gains {k : Id n} {edge : GlobalEdge n W} (inside : G.edge k = some edge) :
    k ∈ edges.map (·.id) ↔
      (∃ p, G.Moves partition p edge.source q) ∨ ∃ p, G.Moves partition p edge.target q := by
  rw [List.mem_map]
  constructor
  · rintro ⟨message, member, rfl⟩
    obtain ⟨edge', id, p, inside', rfl | rfl, moves, _⟩ := exchanged.carried message member
    · cases inside.symm.trans inside'
      exact .inl ⟨p, moves⟩
    · cases inside.symm.trans inside'
      exact .inr ⟨p, moves⟩
  · rintro (⟨p, moves⟩ | ⟨p, moves⟩)
    · exact exchanged.complete k edge _ p inside (.inl rfl) moves
    · exact exchanged.complete k edge _ p inside (.inr rfl) moves

theorem core_imported {id : Id n} {node : GlobalNode n T W} {p : Fin n}
    (moves : G.Moves partition p id q) (inside : G.node id = some node) : imported.core id = some
      { data := node.data, weight := node.weight, location := q, state := .LOCAL } := by
  rw [exchanged.importNodes.core, if_pos ((exchanged.gets id).mpr ⟨p, moves⟩),
    exchanged.contents id node inside]

theorem isLocal_kept (id : Id n) : marked.IsLocal id ↔ imported.IsLocal id ∧ id ∉ ids := by
  rw [← exchanged.importEdges.isLocal]
  by_cases leaves : id ∈ ids
  · simp only [leaves, not_true_eq_false, and_false, iff_false]
    rintro ⟨core, found, state⟩
    rw [exchanged.setDistantNodes.inside id leaves] at found
    obtain ⟨_, _, rfl⟩ := Option.map_eq_some_iff.mp found
    cases state
  · unfold GraphView.IsLocal
    rw [exchanged.setDistantNodes.outside id leaves]
    simp [leaves]

theorem present_marked (id : Id n) :
    (∃ core, marked.core id = some core) ↔ ∃ core, linked.core id = some core := by
  by_cases leaves : id ∈ ids
  · rw [exchanged.setDistantNodes.inside id leaves]
    cases linked.core id <;> simp
  · rw [exchanged.setDistantNodes.outside id leaves]

-- A process has a node after the imports because it had it, got it, or got an edge of it.
theorem gained {id : Id n} {core : NodeCore n T W} (found : linked.core id = some core) :
    (∃ core', v.core id = some core') ∨ (∃ p, G.Moves partition p id q) ∨
      ∃ k edge other p, G.edge k = some edge ∧ edge.Touches id ∧ edge.Touches other ∧
        G.Moves partition p other q := by
  rcases exchanged.importEdges.ghost id core found with before | ⟨_, message, member, ends⟩
  · rw [exchanged.importNodes.core] at before
    split at before
    case isTrue arrives => exact .inr (.inl ((exchanged.gets id).mp arrives))
    case isFalse => exact .inl ⟨core, before⟩
  · obtain ⟨edge, other, p, inside, touches, moves, _, _, source, target⟩ :=
      exchanged.carried message member
    refine .inr (.inr ⟨message.id, edge, other, p, inside, ?_, touches, moves⟩)
    rcases ends with ⟨rfl, _⟩ | ⟨rfl, _⟩
    · exact .inl source.symm
    · exact .inr target.symm

section

variable (isLocal : ∀ id, v.IsLocal id ↔ G.Owns q id)
include isLocal

theorem isLocal_imported (id : Id n) :
    imported.IsLocal id ↔ (∃ p, G.Moves partition p id q) ∨ G.Owns q id := by
  rw [← isLocal, ← exchanged.gets]
  unfold GraphView.IsLocal
  rw [exchanged.importNodes.core]
  split
  case isTrue inside =>
    obtain ⟨p, moves⟩ := (exchanged.gets id).mp inside
    obtain ⟨node, found, _⟩ := moves.1
    simp [inside, exchanged.contents id node found]
  case isFalse outside => simp [outside]

theorem isLocal_marked (id : Id n) : marked.IsLocal id ↔ (G.distributed partition).Owns q id := by
  rw [exchanged.isLocal_kept, exchanged.isLocal_imported isLocal, exchanged.owns_marked]

variable (at_ : ∀ k, v.edge k = G.edgeAt q k)
include at_

omit isLocal in
theorem edge_linked (k : Id n) (e : DistributedEdge n W) : linked.edge k = some e ↔ ∃ edge,
    G.edge k = some edge ∧ ((G.Owns q edge.source ∨ G.Owns q edge.target) ∨ k ∈ edges.map (·.id)) ∧
      e = edge.stored (if k ∈ edges.map (·.id) then imported.edgeState edge.source edge.target
        else G.stateAt q edge) := by
  have same : imported.edge = v.edge := by rw [exchanged.importNodes.rest]
  rw [exchanged.importEdges.edge, same, at_]
  by_cases gained : k ∈ edges.map (·.id)
  · simp only [gained, if_true, or_true, true_and]
    obtain ⟨message, member, rfl⟩ := List.mem_map.mp gained
    obtain ⟨edge, _, _, inside, _⟩ := exchanged.carried message member
    rw [exchanged.stores _ edge inside]
    constructor
    · intro same
      cases same
      exact ⟨edge, inside, rfl⟩
    · rintro ⟨edge', inside', rfl⟩
      cases inside.symm.trans inside'
      rfl
  · simp only [gained, if_false, or_false]
    exact edgeAt_eq_some

theorem state_marked {k : Id n} {edge : GlobalEdge n W} (inside : G.edge k = some edge)
    {e : DistributedEdge n W} (found : linked.edge k = some e) :
    marked.edge k = some (edge.stored ((G.distributed partition).stateAt q edge)) := by
  obtain ⟨edge', inside', _, rfl⟩ := (exchanged.edge_linked at_ k e).mp found
  cases inside.symm.trans inside'
  obtain ⟨touched, untouched⟩ := exchanged.setDistantNodes.edge k _ found
  unfold GlobalGraph.stateAt
  simp only [← exchanged.isLocal_marked isLocal, exchanged.isLocal_kept]
  by_cases leaves : edge.source ∈ ids ∨ edge.target ∈ ids
  · have distant : ¬ ((imported.IsLocal edge.source ∧ edge.source ∉ ids) ∧
        imported.IsLocal edge.target ∧ edge.target ∉ ids) := by tauto
    rw [touched leaves, if_neg distant]
    rfl
  · rw [untouched leaves]
    congr 2
    split
    · unfold GraphView.edgeState
      refine if_congr ?_ rfl rfl
      tauto
    case isFalse kept =>
      rw [exchanged.gains inside, not_or] at kept
      unfold GlobalGraph.stateAt
      refine if_congr ?_ rfl rfl
      rw [exchanged.isLocal_imported isLocal, exchanged.isLocal_imported isLocal]
      tauto

theorem edge_marked (k : Id n) (e : DistributedEdge n W) : marked.edge k = some e ↔ ∃ edge,
    G.edge k = some edge ∧
      ((G.Owns q edge.source ∨ G.Owns q edge.target) ∨ (G.distributed partition).Owns q edge.source ∨
        (G.distributed partition).Owns q edge.target) ∧
      e = edge.stored ((G.distributed partition).stateAt q edge) := by
  constructor
  · intro found
    cases before : linked.edge k with
    | none =>
      rw [exchanged.setDistantNodes.absent k before] at found
      cases found
    | some e' =>
      obtain ⟨edge, inside, present, _⟩ := (exchanged.edge_linked at_ k e').mp before
      refine ⟨edge, inside, ?_, ?_⟩
      · rw [exchanged.gains inside] at present
        rw [owns_distributed, owns_distributed]
        tauto
      · rw [exchanged.state_marked isLocal at_ inside before] at found
        exact (Option.some.inj found).symm
  · rintro ⟨edge, inside, present, rfl⟩
    refine exchanged.state_marked isLocal at_ inside
      ((exchanged.edge_linked at_ k _).mpr ⟨edge, inside, ?_, rfl⟩)
    rw [exchanged.gains inside]
    rw [owns_distributed, owns_distributed] at present
    tauto

end

end Exchanged

theorem Represents.settled {v : Fin n → GraphView n T W}
    (represents : Represents G fun p => (v p).forget)
    (exchanged : Exchanged G partition q (v q) imported linked marked nodes edges ids content stored) :
    Settled G partition q (v q) marked := by
  have isLocal : ∀ id, (v q).IsLocal id ↔ G.Owns q id := represents.isLocal q
  have at_ : ∀ k, (v q).edge k = G.edgeAt q k := represents.edges q
  -- A node of the process, in the graph, before or after it has moved there.
  have home : ∀ id node, G.node id = some node → (∃ p, G.Moves partition p id q) ∨ G.Owns q id →
      linked.core id = some
        { data := node.data, weight := node.weight, location := q, state := .LOCAL } := by
    intro id node inside near
    apply exchanged.importEdges.kept
    by_cases gained : ∃ p, G.Moves partition p id q
    · obtain ⟨p, moves⟩ := gained
      exact exchanged.core_imported moves inside
    · obtain ⟨node', inside', rfl⟩ := near.resolve_left gained
      cases inside.symm.trans inside'
      rw [exchanged.importNodes.core, if_neg (gained ∘ (exchanged.gets id).mp)]
      exact represents.home id node inside
  refine ⟨exchanged.isLocal_marked isLocal, fun id node inside owns => ?_, fun id core found => ?_,
    fun id r moves => ?_, fun id core found => ?_, fun id core found => ?_,
    exchanged.edge_marked isLocal at_, fun id => ?_, ?_⟩
  case refine_1 =>
    obtain ⟨near, remains⟩ := (exchanged.owns_marked id).mpr owns
    rw [exchanged.setDistantNodes.outside id remains]
    exact home id node inside near
  case refine_2 =>
    obtain ⟨core', before⟩ := (exchanged.present_marked id).mp ⟨core, found⟩
    rcases exchanged.gained before with ⟨core, known⟩ | ⟨p, moves⟩ | ⟨k, edge, _, _, inside, touches, _⟩
    · obtain ⟨node, inside, _⟩ := represents.ghost q id core known
      exact ⟨node, inside⟩
    · obtain ⟨node, inside, _⟩ := moves.1
      exact ⟨node, inside⟩
    · have closed := represents.closed k edge inside
      rcases touches with rfl | rfl
      · exact closed.1
      · exact closed.2
  case refine_3 =>
    obtain ⟨node, inside, owner⟩ := moves.1
    rw [exchanged.setDistantNodes.inside id ((exchanged.leaving id).mpr ⟨r, moves⟩),
      home id node inside (.inr moves.1)]
    exact ⟨_, rfl⟩
  case refine_4 =>
    rw [exchanged.present_marked]
    by_cases arrives : ∃ p, G.Moves partition p id q
    · obtain ⟨p, moves⟩ := arrives
      obtain ⟨node, inside, _⟩ := moves.1
      exact ⟨_, home id node inside (.inl ⟨p, moves⟩)⟩
    · have present : imported.core id = some core := by
        rw [exchanged.importNodes.core, if_neg (arrives ∘ (exchanged.gets id).mp), found]
      exact ⟨core, exchanged.importEdges.kept id core present⟩
  case refine_5 =>
    obtain ⟨core', before⟩ := (exchanged.present_marked id).mp ⟨core, found⟩
    rcases exchanged.gained before with before | moves | ⟨k, edge, other, p, inside, touches, joins, moves⟩
    · exact .inl before
    · exact .inr (.inl ((owns_distributed q id).mpr (.inl moves)))
    · have owns : (G.distributed partition).Owns q other := (owns_distributed q other).mpr (.inl ⟨p, moves⟩)
      have near : (G.distributed partition).Owns q edge.source ∨
          (G.distributed partition).Owns q edge.target := by
        rcases joins with rfl | rfl
        · exact .inl owns
        · exact .inr owns
      exact .inr (.inr ⟨k, _, edgeAt_eq_some.mpr ⟨edge, inside, near, rfl⟩, touches⟩)
  case refine_6 =>
    rw [exchanged.setDistantNodes.rest, exchanged.importEdges.rest]
    dsimp only
    rw [exchanged.importNodes.newLocal, exchanged.gets]
  case refine_7 =>
    rw [exchanged.setDistantNodes.rest, exchanged.importEdges.rest, exchanged.importNodes.rest]

end

-- The part of `_distribute` before the locations are updated.
theorem Represents.exchange [One W] (light : T → T) (order : Fin n → HashOrder)
    {s : Fin n → DistributedGraph n T W} (inv : ∀ p, GraphInv (s p))
    (represents : Represents G fun p => (s p).view.forget)
    (mapped : ∀ p id q, (partition p).lookup id = some q → q ≠ p → ¬ (s p).view.IsDistant id) :
    let exported := fun p => (s p).exportedNodes (order p) (partition p)
    ∃ nodes edges marked, (collect fun p => (s p).nodeExportMap (exported p)) = some nodes ∧
      (collect fun p => (s p).edgeExportMap (order p) light (exported p)) = some edges ∧
      (collect fun p => ((s p).importNodes (order p) (migrate nodes p)).bind fun g =>
        (g.importEdges (order p) (migrate edges p)).bind fun g =>
        g.setDistantNodes (order p) (exported p)) = some marked ∧
      ∀ p, GraphInv (marked p) ∧ Settled G partition p (s p).view (marked p).view := by
  intro exported
  have hosts := represents.toHosts
  -- The new LOCAL nodes have no part in the exports.
  have view := fun p => (s p).view_forget
  have leaving : ∀ p id, id ∈ (exported p).map Prod.fst ↔ ∃ r, G.Moves partition p id r :=
    fun p id => exported_ids hosts (view p) (mapped p) (order p) id
  obtain ⟨nodes, nodesResult, sentNodes⟩ := collect_some fun p =>
    nodeExportMap_spec hosts (view p) (mapped p) (order p)
  obtain ⟨edges, edgesResult, sentEdges⟩ := collect_some fun p =>
    edgeExportMap_spec hosts (view p) (mapped p) (order p) light (inv p).forget (represents.edges p)
  have each : ∀ p, ∃ left, (((s p).importNodes (order p) (migrate nodes p)).bind fun g =>
      (g.importEdges (order p) (migrate edges p)).bind fun g =>
      g.setDistantNodes (order p) (exported p)) = some left ∧
      (GraphInv left ∧ Settled G partition p (s p).view left.view) := by
    intro q
    let nodeMessages := (migrate nodes q).flatten (order q)
    let edgeMessages := (migrate edges q).flatten (order q)
    let ids := (exported q).map Prod.fst
    have arrived : ∀ message, message ∈ nodeMessages ↔ ∃ p node, G.Moves partition p message.id q ∧
        G.node message.id = some node ∧ message.data = node.data ∧ message.weight = node.weight := by
      intro message
      rw [UnorderedMap.mem_flatten]
      exact exists_congr fun p => by rw [valuesAt_migrate, sentNodes]
    have carried : ∀ message ∈ edgeMessages, ∃ edge id p, G.edge message.id = some edge ∧
        edge.Touches id ∧ G.Moves partition p id q ∧ message.Carries edge := by
      intro message member
      obtain ⟨p, member⟩ := (UnorderedMap.mem_flatten _ _ _).mp member
      rw [valuesAt_migrate] at member
      obtain ⟨edge, id, inside, touches, moves, carries⟩ := (sentEdges p).1 q message member
      exact ⟨edge, id, p, inside, touches, moves, carries⟩
    have complete : ∀ k edge id p, G.edge k = some edge → edge.Touches id →
        G.Moves partition p id q → ∃ message ∈ edgeMessages, message.id = k := by
      intro k edge id p inside touches moves
      obtain ⟨message, member, same⟩ := (sentEdges p).2 q k edge id inside touches moves
      refine ⟨message, (UnorderedMap.mem_flatten _ _ _).mpr ⟨p, ?_⟩, same⟩
      rw [valuesAt_migrate]
      exact member
    have rank : (s q).view.rank = q := represents.rank q
    let content (id : Id n) : Option (NodeCore n T W) := (G.node id).map fun node =>
      { data := node.data, weight := node.weight, location := q, state := .LOCAL }
    have imported := GraphView.importNodes (v := (s q).view) content nodeMessages
      fun message member => by
        obtain ⟨_, node, _, inside, data, weight⟩ := (arrived message).mp member
        simp only [content, inside, Option.map_some, rank, data, weight]
    obtain ⟨received, result₁, inv₁, view₁⟩ := (inv q).importNodes nodeMessages
    rw [← view₁] at imported
    let stored (k : Id n) : Option (DistributedEdge n W) := (G.edge k).map fun edge =>
      edge.stored (received.view.edgeState edge.source edge.target)
    have isLocal : ∀ id, G.Owns q id → received.view.IsLocal id := by
      intro id owned
      obtain ⟨node, inside, owner⟩ := owned
      unfold GraphView.IsLocal
      rw [imported.core]
      split
      · simp [content, inside]
      · exact (represents.isLocal q id).mpr ⟨node, inside, owner⟩
    have linked := GraphView.importEdges (v := received.view) stored edgeMessages
      (fun message member => by
        obtain ⟨edge, _, _, inside, _, _, layer, weight, source, target⟩ := carried message member
        simp only [stored, inside, Option.map_some, layer, weight, source, target, GlobalEdge.stored])
      (fun message member e found => by
        obtain ⟨edge, _, _, inside, _, _, layer, weight, source, target⟩ := carried message member
        rw [imported.rest] at found
        obtain ⟨edge', inside', _, rfl⟩ :=
          GlobalGraph.edgeAt_eq_some.mp ((represents.edges q message.id).symm.trans found)
        cases inside.symm.trans inside'
        refine ⟨by rw [layer, source, target]; rfl, weight.symm, fun state => ?_⟩
        dsimp only [GlobalEdge.stored, GlobalGraph.stateAt] at state ⊢
        by_contra outside
        rw [if_neg fun both => outside ⟨isLocal _ both.1, isLocal _ both.2⟩] at state
        cases state)
    obtain ⟨joined, result₂, inv₂, view₂⟩ := inv₁.importEdges (order q) edgeMessages
    rw [← view₂] at linked
    have marked := GraphView.setDistantNodes (v := joined.view) ids
    obtain ⟨left, result₃, inv₃, view₃⟩ := inv₂.setDistantNodes (order q) fun id leaves => by
      obtain ⟨r, moves⟩ := (leaving q id).mp leaves
      obtain ⟨core, found, _⟩ := isLocal id moves.1
      exact ⟨core, linked.kept id core found⟩
    rw [← view₃] at marked
    refine ⟨left, ?_, inv₃, represents.settled ⟨arrived, ?_, imported,
      carried, complete, ?_, linked, leaving q, marked⟩⟩
    · unfold DistributedGraph.importNodes
      rw [result₁, Option.bind_some]
      unfold DistributedGraph.importEdges
      rw [result₂, Option.bind_some]
      exact result₃
    · intro id node inside
      simp only [content, inside, Option.map_some]
    · intro k edge inside
      simp only [stored, inside, Option.map_some]
  obtain ⟨marked, result, good⟩ := collect_some each
  exact ⟨nodes, edges, marked, nodesResult, edgesResult, result, good⟩

def GlobalGraph.locationOf (G : GlobalGraph n T W) (id : Id n) : Fin n :=
  ((G.node id).map (·.owner)).getD id.rank

theorem GlobalGraph.locationOf_eq {node : GlobalNode n T W} {id : Id n}
    (inside : G.node id = some node) : G.locationOf id = node.owner := by
  rw [locationOf, inside, Option.map_some, Option.getD_some]

theorem GlobalGraph.owns_locationOf {q : Fin n} {id : Id n} (owned : G.Owns q id) :
    G.locationOf id = q := by
  obtain ⟨node, inside, rfl⟩ := owned
  exact locationOf_eq inside

-- The new LOCAL nodes of a process are nodes that it has created, or that it keeps.
def Announced (G : GlobalGraph n T W) (partition : Fin n → PartitionMap n)
    (v : Fin n → GraphView n T W) : Prop :=
  ∀ p id, (v p).newLocal id → (id.rank = p ∧ ∀ node, G.node id = some node → node.owner = p) ∨
    G.Owns p id ∧ ∀ r, ¬ G.Moves partition p id r

theorem Announced.owner {v : Fin n → GraphView n T W} (announced : Announced G partition v) {p : Fin n}
    {id : Id n} {node : GlobalNode n T W} (fresh : (v p).newLocal id) (inside : G.node id = some node) :
    node.owner = p := by
  rcases announced p id fresh with ⟨_, owner⟩ | ⟨⟨node', inside', owner⟩, _⟩
  next => exact owner node inside
  next =>
    cases inside.symm.trans inside'
    exact owner

-- Every node is told to its origin, or its origin knows where it still is.
theorem Represents.known {s marked : Fin n → DistributedGraph n T W}
    (represents : Represents G fun p => (s p).view.forget)
    (announced : Announced G partition fun p => (s p).view)
    (settled : ∀ p, Settled G partition p (s p).view (marked p).view) {id : Id n} {node : GlobalNode n T W}
    (inside : G.node id = some node) : Known marked (G.distributed partition).locationOf id := by
  have owned : (G.distributed partition).Owns ((G.distributed partition).locationOf id) id :=
    ⟨_, distributed_node inside, (locationOf_eq (distributed_node inside)).symm⟩
  rcases (owns_distributed _ id).mp owned with gained | ⟨before, kept⟩
  · exact .inl (((settled _).newLocal id).mpr (.inl gained))
  · by_cases fresh : (s id.rank).view.newLocal id
    · -- A node built since the last update is still where it was built.
      have home := announced.owner fresh inside
      obtain ⟨node', inside', owner⟩ := before
      cases inside.symm.trans inside'
      left
      rw [← owner, home]
      exact ((settled _).newLocal id).mpr (.inr fresh)
    · right
      obtain ⟨node', inside', owner⟩ := before
      cases inside.symm.trans inside'
      constructor
      · rw [(settled id.rank).rest, ← owner]
        exact represents.managed id node inside
      · rw [(settled id.rank).newLocal]
        rintro (⟨p, moves⟩ | again)
        · obtain ⟨node', inside', rfl⟩ := moves.1
          cases inside.symm.trans inside'
          rw [owner] at moves
          exact kept _ moves
        · exact fresh again

/-- Which nodes each process is left with, and what it knows of those that it has created. -/
structure Relocated (G : GlobalGraph n T W) (partition : Fin n → PartitionMap n)
    (v v' : Fin n → GraphView n T W) : Prop where
  present : ∀ p id, (∃ core, (v' p).core id = some core) ↔ (G.distributed partition).Owns p id ∨
    (∃ k e, (G.distributed partition).edgeAt p k = some e ∧ e.Touches id) ∨
    (∃ core, (v p).core id = some core) ∧ ∀ r, ¬ G.Moves partition p id r
  managed : LocationsUpdated (fun q id => (∃ p, G.Moves partition p id q) ∨ (v q).newLocal id)
    (fun p => (v p).managed) (G.distributed partition).locationOf (fun p => (v' p).managed)
  rest : ∀ p, v' p = { v p with
    core := (v' p).core
    edge := (v' p).edge
    managed := (v' p).managed
    newLocal := fun _ => False }

/-- A process that has exchanged its nodes for `marked`, learns where the DISTANT ones are in `told`, and is
left with `v'` once it has cleared the nodes that have moved. -/
structure Tidied (G : GlobalGraph n T W) (partition : Fin n → PartitionMap n) (p : Fin n)
    (managed : Id n → Option (Fin n)) (v marked told v' : GraphView n T W) : Prop where
  settled : Settled G partition p v marked
  located : told = { marked.locate marked.IsDistant (G.distributed partition).locationOf with
    managed
    newLocal := fun _ => False }
  cleared : GraphView.Cleared told v' fun id => ∃ r, G.Moves partition p id r

namespace Tidied

section Locate

variable {p : Fin n} {managed : Id n → Option (Fin n)} {v marked told : GraphView n T W}
  (settled : Settled G partition p v marked)
  (located : told = { marked.locate marked.IsDistant (G.distributed partition).locationOf with
    managed
    newLocal := fun _ => False })

include located

theorem core_told (id : Id n) : (told.core id = marked.core id ∧ ¬ marked.IsDistant id) ∨
    ∃ core, marked.core id = some core ∧ core.state = .DISTANT ∧
      told.core id = some { core with location := (G.distributed partition).locationOf id } := by
  rw [located]
  by_cases distant : marked.IsDistant id
  · obtain ⟨core, found, state⟩ := distant
    refine .inr ⟨core, found, state, ?_⟩
    simp only [GraphView.locate, GraphView.amend]
    rw [if_pos ⟨core, found, state⟩, found, Option.map_some]
  · refine .inl ⟨?_, distant⟩
    simp only [GraphView.locate, GraphView.amend]
    rw [if_neg distant]

theorem present_told (id : Id n) : (∃ core, told.core id = some core) ↔ ∃ core, marked.core id = some core := by
  rcases core_told located id with ⟨same, _⟩ | ⟨core, found, _, after⟩
  · rw [same]
  · rw [found, after]
    simp

include settled

theorem isLocal_told (id : Id n) : told.IsLocal id ↔ (G.distributed partition).Owns p id := by
  rw [← settled.isLocal]
  rcases core_told located id with ⟨same, _⟩ | ⟨core, found, state, after⟩
  · unfold GraphView.IsLocal
    rw [same]
  · unfold GraphView.IsLocal
    rw [found, after]
    simp [state]

theorem leaves {id : Id n} {r : Fin n} (moves : G.Moves partition p id r) :
    (∃ core, told.core id = some core) ∧ ¬ told.IsLocal id := by
  constructor
  · exact (present_told located id).mpr (settled.exported id r moves)
  · rw [isLocal_told settled located]
    intro owned
    have destination := (owns_distributed r id).mpr (.inl ⟨p, moves⟩)
    exact moves.2.2 (owns_unique destination owned)

end Locate

variable {p : Fin n} {managed : Id n → Option (Fin n)} {v marked told v' : GraphView n T W}

theorem rest (tidied : Tidied G partition p managed v marked told v') : v' = { v with
    core := v'.core
    edge := v'.edge
    managed
    newLocal := fun _ => False } := by
  rw [tidied.cleared.rest, tidied.located, tidied.settled.rest]
  rfl

theorem edges (tidied : Tidied G partition p managed v marked told v') (k : Id n) :
    v'.edge k = (G.distributed partition).edgeAt p k := by
  have edge_told : told.edge = marked.edge := by
    rw [tidied.located]
    rfl
  ext e
  rw [tidied.cleared.edge, edge_told, tidied.settled.edge, edgeAt_eq_some]
  simp only [GraphView.Unowned, isLocal_told tidied.settled tidied.located]
  constructor
  · rintro ⟨⟨edge, inside, owned, rfl⟩, kept⟩
    refine ⟨edge, inside, ?_, rfl⟩
    by_contra gone
    rw [not_or] at gone
    refine kept ⟨?_, gone⟩
    have left : ∀ id, G.Owns p id → ¬ (G.distributed partition).Owns p id →
        ∃ r, G.Moves partition p id r := by
      intro id owned lost
      by_contra stays
      exact lost ((owns_distributed p id).mpr (.inr ⟨owned, fun r moves => stays ⟨r, moves⟩⟩))
    rcases owned with (source | target) | (source | target)
    · exact .inl (left _ source gone.1)
    · exact .inr (left _ target gone.2)
    · exact absurd source gone.1
    · exact absurd target gone.2
  · rintro ⟨edge, inside, owned, rfl⟩
    refine ⟨⟨edge, inside, .inr owned, rfl⟩, ?_⟩
    rintro ⟨_, source, target⟩
    exact owned.elim source target

theorem home (tidied : Tidied G partition p managed v marked told v') {id : Id n} {node : GlobalNode n T W}
    (inside : G.node id = some node) (owned : (G.distributed partition).Owns p id) :
    v'.core id = some { data := node.data, weight := node.weight, location := p, state := .LOCAL } := by
  have home := tidied.settled.home id node inside owned
  rcases tidied.cleared.core id with kept | ⟨⟨r, moves⟩, _⟩
  · rw [kept]
    rcases core_told tidied.located id with ⟨same, _⟩ | ⟨core, found, state, _⟩
    · exact same.trans home
    · rw [home] at found
      cases found
      cases state
  · exact absurd ((isLocal_told tidied.settled tidied.located id).mpr owned)
      (leaves tidied.settled tidied.located moves).2

theorem ghost (tidied : Tidied G partition p managed v marked told v') {id : Id n} {core : NodeCore n T W}
    (found : v'.core id = some core) : ∃ node, (G.distributed partition).node id = some node ∧
      (p ≠ node.owner → core.state = .DISTANT ∧ core.location = node.owner) := by
  have before : told.core id = some core := by
    rcases tidied.cleared.core id with kept | ⟨_, gone⟩
    · rw [← kept, found]
    · rw [found] at gone
      cases gone
  rcases core_told tidied.located id with ⟨same, notDistant⟩ | ⟨core', found', state, after⟩
  · rw [same] at before
    obtain ⟨node, inside⟩ := tidied.settled.known id core before
    refine ⟨_, distributed_node inside, fun away => ?_⟩
    exfalso
    have isLocal : marked.IsLocal id := by
      refine ⟨core, before, ?_⟩
      by_contra state
      exact notDistant ⟨core, before, LocationState.not_local.mp state⟩
    obtain ⟨node', inside', owner⟩ := (tidied.settled.isLocal id).mp isLocal
    cases inside'.symm.trans (distributed_node inside)
    exact away owner.symm
  · obtain ⟨node, inside⟩ := tidied.settled.known id core' found'
    refine ⟨_, distributed_node inside, fun _ => ?_⟩
    rw [after] at before
    cases before
    exact ⟨state, locationOf_eq (distributed_node inside)⟩

-- A node that leaves is only kept for the edges that join it to a LOCAL node.
theorem kept_joined (tidied : Tidied G partition p managed v marked told v') {id : Id n}
    {core : NodeCore n T W} (found : v'.core id = some core) (moves : ∃ r, G.Moves partition p id r) :
    ∃ k e, (G.distributed partition).edgeAt p k = some e ∧ e.Touches id := by
  have attached : ¬ told.Isolated id := fun alone => by
    cases found.symm.trans (tidied.cleared.isolated id moves alone)
  unfold GraphView.Isolated at attached
  simp only [not_forall] at attached
  obtain ⟨k, e, stored, joins⟩ := attached
  have touches : e.Touches id ∧ ¬ told.Unowned e := by
    unfold DistributedEdge.Touches GraphView.Unowned
    tauto
  refine ⟨k, e, ?_, touches.1⟩
  rw [← tidied.edges, tidied.cleared.edge]
  exact ⟨stored, fun gone => touches.2 gone.2⟩

theorem present (tidied : Tidied G partition p managed v marked told v')
    (ends : ∀ k e, v'.edge k = some e → ∀ id, e.Touches id → ∃ core, v'.core id = some core)
    (id : Id n) : (∃ core, v'.core id = some core) ↔ (G.distributed partition).Owns p id ∨
      (∃ k e, (G.distributed partition).edgeAt p k = some e ∧ e.Touches id) ∨
      (∃ core, v.core id = some core) ∧ ∀ r, ¬ G.Moves partition p id r := by
  constructor
  · rintro ⟨core, found⟩
    by_cases leaves : ∃ r, G.Moves partition p id r
    · exact .inr (.inl (tidied.kept_joined found leaves))
    · have before : told.core id = some core := by
        rcases tidied.cleared.core id with kept | ⟨moves, _⟩
        · rw [← kept, found]
        · exact absurd moves leaves
      obtain ⟨core, before'⟩ := (present_told tidied.located id).mp ⟨core, before⟩
      rcases tidied.settled.gained id core before' with before | owns | joined
      · exact .inr (.inr ⟨before, fun r moves => leaves ⟨r, moves⟩⟩)
      · exact .inl owns
      · exact .inr (.inl joined)
  · rintro (owns | ⟨k, e, stored, touches⟩ | ⟨⟨core, found⟩, stays⟩)
    · have owned := owns
      obtain ⟨_, moved, _⟩ := owned
      obtain ⟨node, inside, _⟩ := Option.map_eq_some_iff.mp moved
      exact ⟨_, tidied.home inside owns⟩
    · exact ends k e ((tidied.edges k).trans stored) id touches
    · obtain ⟨core', after⟩ := (present_told tidied.located id).mpr (tidied.settled.kept id core found)
      refine ⟨core', ?_⟩
      rcases tidied.cleared.core id with kept | ⟨⟨r, moves⟩, _⟩
      · rw [kept, after]
      · exact absurd moves (stays r)

end Tidied

theorem Represents.tidied {v marked told v' : Fin n → GraphView n T W} {managed : Fin n → Id n → Option (Fin n)}
    (represents : Represents G fun p => (v p).forget)
    (tidied : ∀ p, Tidied G partition p (managed p) (v p) (marked p) (told p) (v' p))
    (learned : ∀ id node, G.node id = some node →
      managed id.rank id = some ((G.distributed partition).locationOf id)) :
    Represents (G.distributed partition) v' := by
  have rest := fun p => (tidied p).rest
  refine ⟨⟨?_, ?_, ?_, ?_, ?_, ?_, ?_, ?_, ?_, ?_⟩, fun p => (tidied p).edges⟩
  · intro p
    rw [rest]
    exact represents.rank p
  · intro id node' inside'
    have owned : (G.distributed partition).Owns node'.owner id := ⟨node', inside', rfl⟩
    obtain ⟨node, inside, same⟩ := Option.map_eq_some_iff.mp inside'
    rw [(tidied node'.owner).home inside owned, ← same]
  · exact fun p id core found => (tidied p).ghost found
  · intro k edge inside
    obtain ⟨⟨source, atSource⟩, target, atTarget⟩ := represents.closed k edge inside
    exact ⟨⟨_, distributed_node atSource⟩, _, distributed_node atTarget⟩
  · intro id node' inside'
    obtain ⟨node, inside, _⟩ := Option.map_eq_some_iff.mp inside'
    rw [rest]
    exact (learned id node inside).trans (congrArg some (locationOf_eq inside'))
  · intro p id member
    rw [rest] at member
    exact member.elim
  · intro p
    rw [rest]
    exact represents.nodeId p
  · intro p
    rw [rest]
    exact represents.edgeId p
  · intro id node' inside'
    obtain ⟨node, inside, _⟩ := Option.map_eq_some_iff.mp inside'
    rw [rest]
    exact represents.nodesIssued id node inside
  · intro k edge inside
    rw [rest]
    exact represents.edgesIssued k edge inside

theorem Represents.relocate_announced [One W] (light : T → T) (order : Fin n → HashOrder)
    {s : Fin n → DistributedGraph n T W} (inv : ∀ p, GraphInv (s p))
    (represents : Represents G fun p => (s p).view.forget)
    (announced : Announced G partition fun p => (s p).view)
    (mapped : ∀ p id q, (partition p).lookup id = some q → q ≠ p → ¬ (s p).view.IsDistant id) :
    ∃ s', _distribute light order partition s = some s' ∧ (∀ p, GraphInv (s' p)) ∧
      (Represents (G.distributed partition) fun p => (s' p).view) ∧
      Relocated G partition (fun p => (s p).view) fun p => (s' p).view := by
  obtain ⟨nodes, edges, marked, nodesResult, edgesResult, exchanged, good⟩ :=
    represents.exchange light order inv mapped
  have settled := fun p => (good p).2
  have leaving : ∀ p id, id ∈ ((s p).exportedNodes (order p) (partition p)).map Prod.fst ↔
      ∃ r, G.Moves partition p id r :=
    fun p id => exported_ids represents.toHosts (s p).view_forget (mapped p) (order p) id
  have ranks : ∀ p, (marked p).rank = p := fun p =>
    (congrArg GraphView.rank (settled p).rest).trans (represents.rank p)
  have known : ∀ id node, G.node id = some node → Known marked (G.distributed partition).locationOf id :=
    fun id node inside => represents.known announced settled inside
  obtain ⟨told, managed, updatedResult, invs, updated⟩ := updateLocations_spec order
    (fun p => (good p).1) ranks
    (fun q id here away => by
      rcases ((settled q).newLocal id).mp here with gained | fresh
      · exact owns_locationOf ((owns_distributed q id).mpr (.inl gained))
      · rcases announced q id fresh with ⟨origin, _⟩ | kept
        · exact absurd origin.symm away
        · exact owns_locationOf ((owns_distributed q id).mpr (.inr kept)))
    (fun p id distant => by
      obtain ⟨core, found, _⟩ := distant
      obtain ⟨node, inside⟩ := (settled p).known id core found
      exact known id node inside)
  have located := fun p => (invs p).2
  have each : ∀ p, ∃ g, (told p).clearNodes (order p)
      (((s p).exportedNodes (order p) (partition p)).map Prod.fst) = some g ∧ (GraphInv g ∧
      GraphView.Cleared (told p).view g.view fun id => ∃ r, G.Moves partition p id r) := by
    intro p
    have remain : ∀ id ∈ ((s p).exportedNodes (order p) (partition p)).map Prod.fst,
        (∃ core, (told p).view.core id = some core) ∧ ¬ (told p).view.IsLocal id := by
      intro id member
      obtain ⟨r, moves⟩ := (leaving p id).mp member
      exact Tidied.leaves (settled p) (located p) moves
    obtain ⟨g, result, inv', view⟩ := (invs p).1.clearNodes (order p)
      (nodup_exportedNodes (order p) (partition p)) fun id member => (remain id member).1
    refine ⟨g, result, inv', ?_⟩
    have cleared := GraphView.clearNodes _ fun id member => (remain id member).2
    rw [← view] at cleared
    have same : (fun id => id ∈ ((s p).exportedNodes (order p) (partition p)).map Prod.fst) =
        fun id => ∃ r, G.Moves partition p id r := funext fun id => propext (leaving p id)
    exact same ▸ cleared
  obtain ⟨s', result', good'⟩ := collect_some each
  have tidied : ∀ p, Tidied G partition p (managed p) (s p).view (marked p).view (told p).view (s' p).view :=
    fun p => ⟨settled p, located p, (good' p).2⟩
  have represents' := represents.tidied tidied fun id node inside =>
    updated.known (known id node inside)
  have learned : ∀ p, (s' p).view.managed = managed p :=
    fun p => congrArg GraphView.managed (tidied p).rest
  refine ⟨s', ?_, fun p => (good' p).1, represents', fun p id => ?_, ?_, fun p => ?_⟩
  · unfold Graph._distribute
    dsimp only
    rw [nodesResult, Option.bind_some, edgesResult, Option.bind_some, exchanged, Option.bind_some, updatedResult,
      Option.bind_some]
    exact result'
  · refine (tidied p).present (fun k e stored id touches => ?_) id
    have end_ : ∃ node, (s' p).getNode id = some node := by
      rcases touches with rfl | rfl
      · exact (good' p).1.source k e stored
      · exact (good' p).1.target k e stored
    obtain ⟨node, at_⟩ := end_
    exact ⟨node.core, by rw [DistributedGraph.view_core, at_, Option.map_some]⟩
  · have fresh : (fun q => (marked q).view.newLocal) =
        fun q id => (∃ p, G.Moves partition p id q) ∨ (s q).view.newLocal id :=
      funext fun q => funext fun id => propext ((settled q).newLocal id)
    have before : (fun p => (marked p).view.managed) = fun p => (s p).view.managed :=
      funext fun p => by rw [(settled p).rest]
    rw [fresh, before] at updated
    rw [funext learned]
    exact updated
  · rw [learned]
    exact (tidied p).rest

theorem Represents.relocate [One W] (light : T → T) (order : Fin n → HashOrder)
    {s : Fin n → DistributedGraph n T W} (inv : ∀ p, GraphInv (s p))
    (represents : Represents G fun p => (s p).view)
    (mapped : ∀ p id q, (partition p).lookup id = some q → q ≠ p → ¬ (s p).view.IsDistant id) :
    ∃ s', _distribute light order partition s = some s' ∧ (∀ p, GraphInv (s' p)) ∧
      (Represents (G.distributed partition) fun p => (s' p).view) ∧
      Relocated G partition (fun p => (s p).view) fun p => (s' p).view :=
  represents.forget.relocate_announced light order inv
    (fun p id fresh => .inl (represents.newLocal p id fresh)) mapped

/-- `_distribute` moves the nodes, and nothing else. -/
theorem Represents._distribute [One W] (light : T → T) (order : Fin n → HashOrder)
    {s : Fin n → DistributedGraph n T W} (inv : ∀ p, GraphInv (s p))
    (represents : Represents G fun p => (s p).view)
    (mapped : ∀ p id, id ∈ partition p → ¬ (s p).view.IsDistant id) :
    ∃ s', _distribute light order partition s = some s' ∧ (∀ p, GraphInv (s' p)) ∧
      Represents (G.distributed partition) fun p => (s' p).view := by
  obtain ⟨s', result, inv', represents', _⟩ := represents.relocate light order inv fun p id q entry _ =>
    mapped p id ((UnorderedMap.mem_iff_lookup _ _).mpr ⟨q, entry⟩)
  exact ⟨s', result, inv', represents'⟩

end

end Fpmas.Graph
