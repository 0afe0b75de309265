import Fpmas.Graph.GraphRuns
import Fpmas.Synchro.Ghost.Migration

set_option autoImplicit false

namespace Fpmas.Graph

variable {n : Nat} {T W : Type}

namespace GraphView

variable {v v' : GraphView n T W}

theorem isLocal_of_core {id : Id n} (same : v'.core id = v.core id) : v'.IsLocal id ↔ v.IsLocal id := by
  unfold IsLocal
  rw [same]

theorem importNode_isLocal (message : NodeMessage n T W) (id : Id n) :
    (v.importNode message).IsLocal id ↔ id = message.id ∨ v.IsLocal id := by
  unfold IsLocal importNode
  dsimp only
  rw [Function.update_apply]
  by_cases same : id = message.id
  · simp [same]
  · simp [same]

theorem foldl_importNode_isLocal (messages : List (NodeMessage n T W)) (id : Id n) :
    (messages.foldl importNode v).IsLocal id ↔ id ∈ messages.map (·.id) ∨ v.IsLocal id := by
  induction messages generalizing v with
  | nil => simp
  | cons message rest ih =>
    rw [List.foldl_cons, ih, importNode_isLocal, List.map_cons, List.mem_cons]
    tauto

variable [One W]

theorem importEdge_isLocal (message : EdgeMessage n T W) (id : Id n) :
    (v.importEdge message).IsLocal id ↔ v.IsLocal id := by
  unfold importEdge
  split
  case h_1 => exact (importEnd_isLocal _ _ _ _).trans (importEnd_isLocal _ _ _ _)
  case h_2 => split <;> rfl

theorem foldl_importEdge_isLocal (messages : List (EdgeMessage n T W)) (id : Id n) :
    (messages.foldl (fun v message => v.importEdge message) v).IsLocal id ↔ v.IsLocal id := by
  induction messages generalizing v with
  | nil => rfl
  | cons message rest ih => rw [List.foldl_cons, ih, importEdge_isLocal]

end GraphView

section

variable {nodes edges : Id n → Prop} {g g' : DistributedGraph n T W} {order : HashOrder} {p : Fin n}

theorem WellFormed.setDistantNodes (wf : WellFormed p nodes edges g)
    {exported : List (Id n × Fin n)} (taken : g.setDistantNodes order exported = some g') :
    WellFormed p nodes edges g' ∧ ∀ id, id ∉ exported.map Prod.fst → g.view.IsLocal id →
      g'.view.IsLocal id := by
  refine List.foldlM_kept (P := fun h => WellFormed p nodes edges h ∧
    ∀ id, id ∉ exported.map Prod.fst → g.view.IsLocal id → h.view.IsLocal id)
    (fun h other h' listed before step => ?_) ⟨wf, fun _ _ near => near⟩ taken
  obtain ⟨wf', view⟩ := before.1.setDistant order step
  refine ⟨wf', fun id kept near => ?_⟩
  have away : id ≠ other := by
    rintro rfl
    exact kept listed
  rw [view]
  exact (GraphView.isLocal_of_core (Function.update_of_ne away _ _)).mpr (before.2 id kept near)

theorem WellFormed.clearNodes_isLocal (wf : WellFormed p nodes edges g) {ids : List (Id n)}
    (taken : g.clearNodes order ids = some g') {id : Id n} (kept : id ∉ ids)
    (near : g.view.IsLocal id) : WellFormed p nodes edges g' ∧ g'.view.IsLocal id := by
  refine List.foldlM_kept (P := fun h => WellFormed p nodes edges h ∧ h.view.IsLocal id)
    (fun h other h' listed before step => ?_) ⟨wf, near⟩ taken
  obtain ⟨wf', view⟩ := before.1.clearNode order step
  have away : id ≠ other := by
    rintro rfl
    exact kept listed
  refine ⟨wf', ?_⟩
  rw [view]
  unfold GraphView.clearNode
  split
  · refine (GraphView.isLocal_of_core ?_).mpr before.2
    rw [GraphView.eraseNode_core, if_neg away]
  · exact before.2

theorem Represents.wellFormed {G : GlobalGraph n T W} {s : Fin n → DistributedGraph n T W}
    (represents : Represents G fun p => (s p).view) (inv : ∀ p, GraphInv (s p)) (p : Fin n) :
    WellFormed p (fun id => ∃ node, G.node id = some node) (fun k => ∃ edge, G.edge k = some edge)
      (s p) := by
  have hosts := represents.toHosts
  refine ⟨inv p, hosts.rank p, hosts.nodeId p, hosts.edgeId p, ?_, ?_, ?_, ?_⟩
  · intro id core found
    obtain ⟨node, inside, _⟩ := hosts.ghost p id core found
    exact .inl ⟨node, inside⟩
  · intro k e found
    obtain ⟨edge, inside, _⟩ := GlobalGraph.edgeAt_eq_some.mp ((represents.edges p k).symm.trans found)
    exact .inl ⟨edge, inside⟩
  · rintro id ⟨node, inside⟩ rfl
    exact hosts.nodesIssued id node inside
  · rintro k ⟨edge, inside⟩ rfl
    exact hosts.edgesIssued k edge inside

-- A node that is sent to a process that does not send it on is LOCAL there, whoever sends it.
theorem isLocal_of_exported [One W] {light : T → T} {order : Fin n → HashOrder}
    {partition : Fin n → PartitionMap n} {s t : Fin n → DistributedGraph n T W}
    (wf : ∀ p, WellFormed p nodes edges (s p))
    (fromNodes : ∀ p id node, (s p).getNode id = some node → nodes id)
    (fromEdges : ∀ p k e, (s p).getEdge k = some e → edges k)
    (taken : _distribute light order partition s = some t) {p q : Fin n} {id : Id n}
    (present : id ∈ (s p).nodes) (entry : (partition p).lookup id = some q) (away : q ≠ p)
    (stays : ∀ r, (partition q).lookup id = some r → r = q) :
    WellFormed q nodes edges (t q) ∧ (t q).view.IsLocal id := by
  obtain ⟨sentNodes, packedNodes, taken⟩ := Option.bind_eq_some_iff.mp taken
  obtain ⟨sentEdges, packedEdges, taken⟩ := Option.bind_eq_some_iff.mp taken
  obtain ⟨moved, imported, taken⟩ := Option.bind_eq_some_iff.mp taken
  obtain ⟨located, updated, cleared⟩ := Option.bind_eq_some_iff.mp taken
  rw [collect_eq_some] at packedNodes packedEdges imported cleared
  have kept : id ∉ ((s q).exportedNodes (order q) (partition q)).map Prod.fst := by
    rw [List.mem_map]
    rintro ⟨⟨_, r⟩, listed, rfl⟩
    unfold DistributedGraph.exportedNodes at listed
    rw [List.mem_filter, UnorderedMap.mem_toList, decide_eq_true_eq] at listed
    exact listed.2.2 ((stays r listed.1).trans (wf q).rank.symm)
  have arrives : ∃ message ∈ (migrate sentNodes q).flatten (order q), message.id = id := by
    have listed : (id, q) ∈ (s p).exportedNodes (order p) (partition p) := by
      unfold DistributedGraph.exportedNodes
      rw [List.mem_filter, UnorderedMap.mem_toList, decide_eq_true_eq, (wf p).rank]
      exact ⟨entry, present, away⟩
    obtain ⟨list, read, _⟩ := Option.map_eq_some_iff.mp (packedNodes p)
    obtain ⟨messages, result, member⟩ := UnorderedMap.pushAll_mapM (List.each_some read)
    cases (packedNodes p).symm.trans result
    obtain ⟨_, packed⟩ := List.each_some read _ listed
    obtain ⟨message, built, rfl⟩ := Option.map_eq_some_iff.mp packed
    obtain ⟨node, _, rfl⟩ := Option.map_eq_some_iff.mp built
    exact ⟨_, mem_flatten_migrate.mpr ⟨p, (member q _).mpr ⟨(id, q), listed, packed⟩⟩, rfl⟩
  have arrived : ∀ p, ∃ exported, WellFormed p nodes edges exported ∧
      exported.setDistantNodes (order p) ((s p).exportedNodes (order p) (partition p)) = some (moved p) ∧
      (p = q → exported.view.IsLocal id) := by
    intro p
    obtain ⟨first, importedNodes, rest⟩ := Option.bind_eq_some_iff.mp (imported p)
    obtain ⟨second, importedEdges, exported⟩ := Option.bind_eq_some_iff.mp rest
    have withNodes : WellFormed p nodes edges first :=
      List.foldlM_kept (fun _ message _ inside kept step => by
        obtain ⟨q, sent⟩ := mem_flatten_migrate.mp inside
        obtain ⟨node, at_⟩ := nodeExportMap_from (packedNodes q) sent
        exact (kept.importNode (fromNodes q _ node at_) step).1) (wf p) importedNodes
    have withEdges : WellFormed p nodes edges second :=
      List.foldlM_kept (fun _ message _ inside kept step => by
        obtain ⟨q, sent⟩ := mem_flatten_migrate.mp inside
        obtain ⟨⟨e, found⟩, ⟨source, atSource⟩, target, atTarget⟩ := edgeExportMap_from (packedEdges q) sent
        exact (kept.importEdge (order p) (fromNodes q _ source atSource) (fromNodes q _ target atTarget)
          (fromEdges q _ e found) step).1) withNodes importedEdges
    refine ⟨second, withEdges, exported, ?_⟩
    rintro rfl
    obtain ⟨_, result₁, _, view₁⟩ := (wf p).inv.importNodes ((migrate sentNodes p).flatten (order p))
    cases importedNodes.symm.trans result₁
    obtain ⟨_, result₂, _, view₂⟩ := withNodes.inv.importEdges (order p)
      ((migrate sentEdges p).flatten (order p))
    cases importedEdges.symm.trans result₂
    rw [view₂, GraphView.foldl_importEdge_isLocal, view₁, GraphView.foldl_importNode_isLocal]
    exact .inl (List.mem_map.mpr arrives)
  have marked : ∀ p, Settling p nodes edges (moved p).view.state (moved p) := by
    intro p
    obtain ⟨exported, wf', result, _⟩ := arrived p
    exact ⟨(wf'.setDistantNodes result).1, rfl⟩
  have settled := Settling.updateLocations marked updated
  have near : (located q).view.IsLocal id := by
    rw [GraphView.isLocal_iff_state, (settled q).state, ← GraphView.isLocal_iff_state]
    obtain ⟨exported, wf', result, gained⟩ := arrived q
    exact (wf'.setDistantNodes result).2 id kept (gained rfl)
  exact (settled q).wf.clearNodes_isLocal (cleared q) kept near

end

end Fpmas.Graph

namespace Fpmas.Synchro.Ghost

open Fpmas.Graph

variable {n : Nat} {T W : Type} {G : GlobalGraph n T W} {s s' t : GhostSystem n T W}

section

variable [One W] {light : T → T}

omit [One W] in
-- A commit does nothing when the linkers have nothing to commit.
theorem Committed.idle (committed : Committed G s s') (period : Period G s)
    (idle : ∀ p, (s p).linker = .empty) (p : Fin n) : (s' p).view = (s p).view := by
  have represents := period.represents idle
  have unasked : (fun id => ∃ q, Requested G s q id) = fun _ => False := by
    funext id
    refine eq_false ?_
    rintro ⟨q, _, r, _, member⟩
    rw [idle] at member
    cases member
  have kept : ∀ id, ¬ Erased G s p id := by
    rintro id (mine | asked)
    · rw [idle] at mine
      cases mine
    · exact cast (congrFun unasked id) ⟨p, asked⟩
  have core : (s' p).view.core = (s p).view.core := by
    funext id
    ext core
    constructor
    · intro found
      rcases committed.ghost p id core found with before | ⟨q, k, _, waits, _⟩
      · exact before
      · rw [idle] at waits
        cases waits
    · exact fun found => committed.kept p id core found (kept id)
  have edge : (s' p).view.edge = (s p).view.edge := by
    funext k
    ext e
    have before : (s p).view.edge k = G.edgeAt p k := represents.edges p k
    rw [committed.edge, unasked, GlobalGraph.detach_none, before]
    exact and_iff_left ⟨kept _, kept _⟩
  rw [committed.rest p, core, edge]

omit [One W] in
theorem removed_idle (idle : ∀ p, (s p).linker = .empty) (id : Id n) : ¬ Removed s id := by
  rintro ⟨p, member⟩
  rw [idle] at member
  cases member

omit [One W] in
theorem sound_idle (idle : ∀ p, (s p).linker = .empty) : RemovedOnce s ∧ Forgotten s := by
  obtain ⟨once, _, forgotten⟩ := sound_of_unremoved (s := s) fun p => by
    rw [idle]
    rfl
  exact ⟨once, forgotten⟩

omit [One W] in
-- The partitions of the LOCAL nodes alone say all that the owners of the nodes ask for.
theorem sameEntries {partition own : Fin n → PartitionMap n} (hosts : Hosts G fun p => (s p).view)
    (restricted : ∀ p id q, (own p).lookup id = some q ↔
      (partition p).lookup id = some q ∧ (s p).view.IsLocal id) : G.SameEntries own partition := by
  intro p id owned
  ext q
  rw [restricted]
  exact and_iff_left ((hosts.isLocal p id).mpr owned)

variable (light) in
theorem Period.distribute_idle (period : Period G s) (idle : ∀ p, (s p).linker = .empty)
    (order : Fin n → HashOrder) {partition : Fin n → PartitionMap n}
    (keeps : KeepsDistant (fun p => (s p).view) partition) :
    ∃ t, s.distribute light order partition = some t ∧ Synchronized (G.distributed partition) t ∧
      Relocated G partition (fun p => (s p).view) fun p => (t p).view := by
  obtain ⟨once, forgotten⟩ := sound_idle idle
  have unchanged : ∀ s', Committed G s s' → (fun p => (s' p).view) = fun p => (s p).view :=
    fun s' committed => funext (committed.idle period idle)
  obtain ⟨s', t, committed, result, synced, relocated⟩ :=
    period.distribute light order once forgotten fun s' linked => by
      obtain ⟨_, linked', committed⟩ := (period.commitLinks light order).1 once
      cases linked.symm.trans linked'
      rw [unchanged s' committed]
      exact keeps
  rw [GlobalGraph.removeNodes_none (removed_idle idle)] at synced relocated
  rw [unchanged s' committed] at relocated
  exact ⟨t, result, synced, relocated⟩

omit [One W] in
-- Where the node is LOCAL after the call, if its owner alone moves it.
theorem owner_entry {own partition : Fin n → PartitionMap n} (hosts : Hosts G fun p => (s p).view)
    (same : G.SameEntries own partition) {q : Fin n} {id : Id n}
    (owned : (G.distributed own).Owns q id) :
    ∃ o, (s o).view.IsLocal id ∧ ((partition o).lookup id).getD o = q := by
  obtain ⟨_, found, owner⟩ := owned
  obtain ⟨node, inside, rfl⟩ := Option.map_eq_some_iff.mp found
  have mine : G.Owns node.owner id := ⟨node, inside, rfl⟩
  exact ⟨node.owner, (hosts.isLocal _ id).mpr mine, by rw [← same _ _ mine]; exact owner⟩

omit [One W] in
theorem synchronizeData_isLocal {order : Fin n → HashOrder} {g g' : Fin n → DistributedGraph n T W}
    {nodes edges : Id n → Prop} {q : Fin n} (wf : WellFormed q nodes edges (g q))
    (taken : synchronizeData order g = some g') {id : Id n} (near : (g q).view.IsLocal id) :
    (g' q).view.IsLocal id := by
  obtain ⟨requests, _, taken⟩ := Option.bind_eq_some_iff.mp taken
  obtain ⟨updates, _, imported⟩ := Option.bind_eq_some_iff.mp taken
  have both : WellFormed q nodes edges (g' q) ∧ (g' q).view.state = (g q).view.state := by
    refine List.foldlM_kept (P := fun h => WellFormed q nodes edges h ∧ h.view.state = (g q).view.state)
      (fun h pack h' _ before step => ?_) ⟨wf, rfl⟩ (collect_eq_some.mp imported q)
    obtain ⟨wf', state⟩ := before.1.setData step
    exact ⟨wf', state.trans before.2⟩
  rw [GraphView.isLocal_iff_state] at near ⊢
  rw [both.2]
  exact near

theorem Period.isLocal_of_exported (period : Period G s) (idle : ∀ p, (s p).linker = .empty)
    {order : Fin n → HashOrder} {partition : Fin n → PartitionMap n}
    (taken : s.distribute light order partition = some t) {p q : Fin n} {id : Id n}
    (entry : (partition p).lookup id = some q) (away : q ≠ p) (present : (s p).view.IsDistant id)
    (stays : ∀ r, (partition q).lookup id = some r → r = q) : (t q).view.IsLocal id := by
  obtain ⟨s', linked, taken⟩ := Option.bind_eq_some_iff.mp taken
  obtain ⟨g, moved, taken⟩ := Option.bind_eq_some_iff.mp taken
  obtain ⟨g', exchanged, rfl⟩ := Option.map_eq_some_iff.mp taken
  obtain ⟨_, linked', committed⟩ := (period.commitLinks light order).1 (sound_idle idle).1
  cases linked.symm.trans linked'
  have view := committed.idle period idle
  have represents : Represents G fun p => (s' p).view := by
    rw [funext view]
    exact period.represents idle
  have wf := represents.wellFormed committed.graph
  have inside : id ∈ (s' p).graph.nodes := by
    rw [← view p] at present
    obtain ⟨node, at_, _⟩ := ((s' p).graph.isDistant_iff id).mp present
    exact (UnorderedMap.mem_iff_lookup _ _).mpr ⟨node, at_⟩
  have fromNodes : ∀ p id node, (s' p).graph.getNode id = some node → ∃ node, G.node id = some node := by
    intro p id node at_
    have found : (s' p).view.core id = some node.core := by
      rw [GhostProcess.view, DistributedGraph.view_core, at_, Option.map_some]
    obtain ⟨node', inside, _⟩ := represents.ghost p id _ found
    exact ⟨node', inside⟩
  have fromEdges : ∀ p k e, (s' p).graph.getEdge k = some e → ∃ edge, G.edge k = some edge := by
    intro p k e found
    obtain ⟨edge, inside, _⟩ :=
      GlobalGraph.edgeAt_eq_some.mp ((represents.edges p k).symm.trans found)
    exact ⟨edge, inside⟩
  obtain ⟨wf', near⟩ :=
    Graph.isLocal_of_exported wf fromNodes fromEdges moved inside entry away stays
  exact synchronizeData_isLocal wf' exchanged near

/-- The entries of nodes that are not LOCAL change nothing as long as they send no DISTANT node to
another process, and when they do, only where the node is LOCAL anyway or is sent on. -/
theorem distribute_ignores_entries
    (reached : (ghost n T W light).ReachableBy (fun s a => a.Keeps light s) s)
    (idle : ∀ p, (s p).linker = .empty) (order order' : Fin n → HashOrder)
    {partition own : Fin n → PartitionMap n}
    (restricted : ∀ p id q, (own p).lookup id = some q ↔
      (partition p).lookup id = some q ∧ (s p).view.IsLocal id) :
    (KeepsDistant (fun p => (s p).view) partition →
      ∃ t t', s.distribute light order partition = some t ∧ s.distribute light order' own = some t' ∧
        ∀ p, (t p).view = (t' p).view ∧ (t p).linker = (t' p).linker) ∧
    ∀ t t', s.distribute light order partition = some t → s.distribute light order' own = some t' →
      (∀ p, (t p).view = (t' p).view) → ∀ p id q, (partition p).lookup id = some q → q ≠ p →
        (s p).view.IsDistant id →
        (∃ o, (s o).view.IsLocal id ∧ ((partition o).lookup id).getD o = q) ∨
          ∃ r, (partition q).lookup id = some r ∧ r ≠ q := by
  obtain ⟨G, period⟩ := reachable_period reached
  have hosts := period.running.hosts
  have same := sameEntries hosts restricted
  have ownKeeps : KeepsDistant (fun p => (s p).view) own := by
    rintro p id q entry _ ⟨core, found, state⟩
    obtain ⟨core', found', state'⟩ := ((restricted p id q).mp entry).2
    cases found.symm.trans found'
    cases state.symm.trans state'
  obtain ⟨t', result', synced', relocated'⟩ :=
    period.distribute_idle light idle order' ownKeeps
  constructor
  · intro keeps
    obtain ⟨t, result, synced, relocated⟩ :=
      period.distribute_idle light idle order keeps
    rw [GlobalGraph.distributed_congr same] at synced'
    have views := relocated.unique (relocated'.congr same) synced.represents synced'.represents
      synced.data synced'.data
    refine ⟨t, t', result, result', fun p => ⟨congrFun views p, ?_⟩⟩
    rw [synced.linker, synced'.linker]
  · intro t u taken taken' agree p id q entry away distant
    cases taken'.symm.trans result'
    by_contra neither
    rw [not_or] at neither
    have stays : ∀ r, (partition q).lookup id = some r → r = q := by
      intro r onward
      by_contra other
      exact neither.2 ⟨r, onward, other⟩
    have near := period.isLocal_of_exported idle taken entry away distant stays
    rw [agree q] at near
    exact neither.1 (owner_entry hosts same ((synced'.represents.toHosts.isLocal q id).mp near))

end

theorem linked_apart : ∃ s t t' : GhostSystem 3 Nat Nat,
    (ghost 3 Nat Nat id).ReachableBy (fun s a => a.Keeps id s) s ∧ (∀ p, (s p).linker = .empty) ∧
    (s 0).view.IsLocal ⟨0, 0⟩ ∧ (s 1).view.IsDistant ⟨0, 0⟩ ∧
    s.distribute id (fun _ => .insertion) (sendOnly 1 ⟨0, 0⟩ 2) = some t ∧
    s.distribute id (fun _ => .insertion) (fun _ => ∅) = some t' ∧
    (t 2).view.IsLocal ⟨0, 0⟩ ∧ (t' 2).view.core ⟨0, 0⟩ = none := by
  have run : (((ghost 3 Nat Nat id).exec .empty (linkedRun 0 5 6)).bind fun s =>
      (s.distribute id (fun _ => .insertion) (sendOnly 0 ⟨0, 1⟩ 1)).bind fun t =>
      (t.distribute id (fun _ => .insertion) (sendOnly 1 ⟨0, 0⟩ 2)).bind fun u =>
      (t.distribute id (fun _ => .insertion) fun _ => ∅).map fun u' =>
        [(s 0).view.state ⟨0, 1⟩, (t 0).view.state ⟨0, 0⟩, (t 1).view.state ⟨0, 0⟩,
          (u 2).view.state ⟨0, 0⟩, (u' 2).view.state ⟨0, 0⟩]) =
      some [some .LOCAL, some .LOCAL, some .DISTANT, some .LOCAL, none] := by
    decide +kernel
  obtain ⟨s, built, rest⟩ := Option.bind_eq_some_iff.mp run
  obtain ⟨t, moved, rest⟩ := Option.bind_eq_some_iff.mp rest
  obtain ⟨u, sent, rest⟩ := Option.bind_eq_some_iff.mp rest
  obtain ⟨u', kept, result⟩ := Option.map_eq_some_iff.mp rest
  simp only [List.cons.injEq, and_true] at result
  obtain ⟨second, first, ghost_, gained, absent⟩ := result
  obtain ⟨lasting, G, synced⟩ := linked_separated built second moved
  refine ⟨t, u, u', (lasting_keeps lasting).1, synced.linker,
    GraphView.isLocal_iff_state.mpr first, ?_, sent, kept, GraphView.isLocal_iff_state.mpr gained,
    Option.map_eq_none_iff.mp absent⟩
  obtain ⟨core, found, state⟩ := Option.map_eq_some_iff.mp ghost_
  exact ⟨core, found, state⟩

theorem distribute_ignores_entries_ghost : ∃ s t t' : GhostSystem 3 Nat Nat,
    (s 1).view.IsDistant ⟨0, 0⟩ ∧
    s.distribute id (fun _ => .insertion) (sendOnly 1 ⟨0, 0⟩ 1) = some t ∧
    s.distribute id (fun _ => .insertion) (fun _ => ∅) = some t' ∧ ∀ p, (t p).view = (t' p).view := by
  obtain ⟨s, _, _, reached, idle, near, ghost_, _⟩ := linked_apart
  obtain ⟨G, period⟩ := reachable_period reached
  have restricted : ∀ p id q, (∅ : PartitionMap 3).lookup id = some q ↔
      (sendOnly 1 ⟨0, 0⟩ 1 p).lookup id = some q ∧ (s p).view.IsLocal id := by
    intro p id q
    refine iff_of_false (by simp) ?_
    rintro ⟨entry, here⟩
    obtain ⟨rfl, rfl⟩ := mem_sendOnly ((UnorderedMap.mem_iff_lookup _ _).mpr ⟨q, entry⟩)
    have elsewhere := GlobalGraph.owns_unique ((period.running.hosts.isLocal _ _).mp here)
      ((period.running.hosts.isLocal _ _).mp near)
    exact absurd elsewhere (by decide)
  have keeps : KeepsDistant (fun p => (s p).view) (sendOnly 1 ⟨0, 0⟩ 1) := by
    intro p id q entry away
    obtain ⟨rfl, rfl⟩ := mem_sendOnly ((UnorderedMap.mem_iff_lookup _ _).mpr ⟨q, entry⟩)
    rw [sendOnly, if_pos rfl, AList.lookup_insert] at entry
    exact absurd (Option.some.inj entry).symm away
  obtain ⟨t, t', result, result', same⟩ := (distribute_ignores_entries reached idle
    (fun _ => .insertion) (fun _ => .insertion) restricted).1 keeps
  exact ⟨s, t, t', ghost_, result, result', fun p => (same p).1⟩

-- Process 1 sends its copy of a node of process 0 to process 2: it is LOCAL on two of them.
theorem distant_entry_followed : ∃ s t t' : GhostSystem 3 Nat Nat,
    (ghost 3 Nat Nat id).ReachableBy (fun s a => a.Keeps id s) s ∧ (∀ p, (s p).linker = .empty) ∧
    (∀ p id, id ∈ sendOnly 1 ⟨0, 0⟩ 2 p → ¬ (s p).view.IsLocal id) ∧
    s.distribute id (fun _ => .insertion) (sendOnly 1 ⟨0, 0⟩ 2) = some t ∧
    s.distribute id (fun _ => .insertion) (fun _ => ∅) = some t' ∧ (t 2).view ≠ (t' 2).view := by
  obtain ⟨s, t, t', reached, idle, near, _, sent, kept, gained, absent⟩ := linked_apart
  obtain ⟨G, period⟩ := reachable_period reached
  refine ⟨s, t, t', reached, idle, fun p id member here => ?_, sent, kept, fun same => ?_⟩
  · obtain ⟨rfl, rfl⟩ := mem_sendOnly member
    have elsewhere := GlobalGraph.owns_unique ((period.running.hosts.isLocal _ _).mp here)
      ((period.running.hosts.isLocal _ _).mp near)
    exact absurd elsewhere (by decide)
  · rw [same] at gained
    obtain ⟨core, found, _⟩ := gained
    cases absent.symm.trans found

end Fpmas.Synchro.Ghost
