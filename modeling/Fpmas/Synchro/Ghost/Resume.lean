import Fpmas.Graph.StaleReports
import Fpmas.Synchro.Ghost.PartitionEntries
import Fpmas.Synchro.Ghost.SettledRuns

set_option autoImplicit false

namespace Fpmas.Graph

variable {n : Nat} {T W : Type} {G : GlobalGraph n T W} {partition : Fin n → PartitionMap n}

-- The graph that is loaded from the dump of a settled one has lost nothing but the list of the nodes that
-- its process has just got: all the LOCAL ones are listed.
theorem GraphView.Settled.loaded_eq {v : GraphView n T W} (settled : v.Settled) :
    v.loaded = { v with newLocal := v.IsLocal } := by
  obtain ⟨core, edge⟩ := GraphView.settled_iff.mpr settled
  have isLocal : v.loaded.newLocal = v.IsLocal := by
    funext id
    show (∃ c, v.loaded.core id = some c ∧ c.state = .LOCAL) = v.IsLocal id
    rw [core]
    rfl
  rw [← isLocal, ← core, ← edge]
  rfl

end Fpmas.Graph

namespace Fpmas.Synchro.Ghost

open Fpmas.Graph

variable {n : Nat} {T W : Type}

-- Each process dumps its graph, and an empty graph of the same rank is loaded from the dump.
def GhostSystem.restore [One W] [Inhabited T] (s : GhostSystem n T W) (dump load : Fin n → HashOrder) :
    Option (GhostSystem n T W) :=
  (collect fun p => (DistributedGraph.empty p).fromJson (load p) ((s p).graph.toJson (dump p))).map
    fun graphs p => { graph := graphs p, linker := .empty }

structure SameGraph (g g' : DistributedGraph n T W) : Prop where
  nodes : g'.view.core = g.view.core
  edges : g'.view.edge = g.view.edge
  managed : g'.view.managed = g.view.managed

/-- A system that is restored before `distribute` ends as the one that has not been stopped. -/
def Resumes [One W] [Inhabited T] (light : T → T) (dump load order order' : Fin n → HashOrder)
    (partition : Fin n → PartitionMap n) (s : GhostSystem n T W) : Prop :=
  ∃ t h t', s.distribute light order partition = some t ∧ s.restore dump load = some h ∧
    h.distribute light order' partition = some t' ∧ ∀ p, SameGraph (t p).graph (t' p).graph

section

variable [One W] {light : T → T} {order : Fin n → HashOrder} {G : GlobalGraph n T W}
  {partition : Fin n → PartitionMap n}

theorem migrate_empty {V : Type} (p : Fin n) :
    migrate (fun _ => (∅ : UnorderedMap (Fin n) (List V))) p = ∅ := by
  have none_ : (migrate (fun _ => (∅ : UnorderedMap (Fin n) (List V))) p).entries = [] := by
    rw [migrate]
    refine List.filterMap_eq_nil_iff.mpr fun q _ => rfl
  exact AList.ext none_

theorem flatten_empty {V : Type} (order : HashOrder) :
    UnorderedMap.flatten order (∅ : UnorderedMap (Fin n) (List V)) = [] := by
  refine List.eq_nil_iff_forall_not_mem.mpr fun v member => ?_
  obtain ⟨p, inside⟩ := (UnorderedMap.mem_flatten order _ v).mp member
  rw [UnorderedMap.valuesAt_empty] at inside
  cases inside

omit [One W] in
theorem relinked {s : GhostProcess n T W} (idle : s.linker = .empty) :
    some { s with linker := .empty } = some s := by rw [← idle]

theorem importLinks_idle {s : GhostProcess n T W} (idle : s.linker = .empty) (order : HashOrder) :
    s.importLinks order ∅ = some s := by
  rw [GhostProcess.importLinks, DistributedGraph.importEdges, flatten_empty, idle]
  exact relinked idle

omit [One W] in
theorem importRemovals_idle {s : GhostProcess n T W} (idle : s.linker = .empty) (order : HashOrder) :
    s.importRemovals order ∅ = some s := by
  rw [GhostProcess.importRemovals, flatten_empty, idle]
  exact relinked idle

omit [One W] in
theorem importUnlinks_idle {s : GhostProcess n T W} (idle : s.linker = .empty) (order : HashOrder) :
    s.importUnlinks order ∅ = some s := by
  rw [GhostProcess.importUnlinks, flatten_empty, idle]
  exact relinked idle

omit [One W] in
theorem eraseNodes_idle {s : GhostProcess n T W} (idle : s.linker = .empty) (order : HashOrder) :
    s.eraseNodes order = some s := by
  rw [GhostProcess.eraseNodes, idle,
    show (GhostSyncLinker.empty : GhostSyncLinker n).removeNodeBuffer = ∅ from rfl, flatten_empty]
  exact relinked idle

theorem commitLinks_idle {s : GhostSystem n T W} (idle : ∀ p, (s p).linker = .empty) :
    s.commitLinks light order = some s := by
  have exported : (collect fun p => (s p).exportLinks light) = some fun _ => (∅, []) := by
    rw [collect_eq_some]
    intro p
    rw [GhostProcess.exportLinks, idle]
    rfl
  have nothing {V : Type} (sent : Fin n → UnorderedMap (Fin n) (List V)) (empty : ∀ q, sent q = ∅)
      (p : Fin n) : migrate sent p = ∅ := by
    rw [funext empty]
    exact migrate_empty p
  have unrequested := nothing (fun q => (s q).linker.removeNodeBuffer) fun q => by
    rw [idle]
    rfl
  have kept := nothing (fun q => (s q).linker.unlinkMigration) fun q => by
    rw [idle]
    rfl
  unfold GhostSystem.commitLinks
  rw [exported, Option.bind_some]
  dsimp only
  simp only [migrate_empty]
  rw [collect_eq_some.mpr fun p => importLinks_idle (idle p) (order p), Option.bind_some]
  simp only [unrequested]
  rw [collect_eq_some.mpr fun p => importRemovals_idle (idle p) (order p), Option.bind_some]
  rw [collect_eq_some]
  intro p
  rw [kept, importUnlinks_idle (idle p), Option.bind_some]
  exact eraseNodes_idle (idle p) (order p)

theorem distribute_committed {s : GhostSystem n T W} (idle : ∀ p, (s p).linker = .empty) :
    s.distribute light order partition = (_distribute light order partition s.graphs).bind fun g =>
      (synchronizeData order g).map fun g => s.withGraphs g := by
  unfold GhostSystem.distribute
  rw [commitLinks_idle idle, Option.bind_some]

-- Every process has a node: a dump without nodes has no key to load them from.
def HasNodes (s : GhostSystem n T W) : Prop := ∀ p, ∃ id node, (s p).graph.getNode id = some node

/-- What a system is restored to: all its LOCAL nodes have just been loaded. -/
structure Restored (s h : GhostSystem n T W) : Prop where
  graph : ∀ p, GraphInv (h p).graph
  linker : ∀ p, (h p).linker = .empty
  view : ∀ p, (h p).view = { (s p).view with newLocal := (s p).view.IsLocal }

omit [One W] in
theorem Restored.forget {s h : GhostSystem n T W} (restored : Restored s h) :
    (fun p => (h.graphs p).view.forget) = fun p => (s p).view.forget := by
  funext p
  show (h p).view.forget = _
  rw [restored.view]
  rfl

omit [One W] in
theorem Restored.keepsDistant {s h : GhostSystem n T W} (restored : Restored s h)
    (keeps : KeepsDistant (fun p => (s p).view) partition) :
    KeepsDistant (fun p => (h.graphs p).view) partition := by
  rintro p id q entry away ⟨c, found, state⟩
  refine keeps p id q entry away ⟨c, ?_, state⟩
  rw [← found]
  show _ = (h p).view.core id
  rw [restored.view]

section Restore

variable [Inhabited T] {s : GhostSystem n T W} {dump load : Fin n → HashOrder}
  (whole : ∀ p, SettledGraph (s p).graph) (rank : ∀ p, (s p).graph.rank = p)

include whole rank

variable (dump load) in
theorem restored (nodes : HasNodes s) : ∃ h, s.restore dump load = some h ∧ Restored s h := by
  obtain ⟨graphs, result, good⟩ := collect_some fun p => by
    obtain ⟨id, node, at_⟩ := nodes p
    have found : (s p).graph.view.core id = some node.core := by
      rw [DistributedGraph.view_core, at_, Option.map_some]
    have loaded := (whole p).inv.fromJson_toJson (load p) found (dump p)
    rw [rank p] at loaded
    exact loaded
  refine ⟨fun p => { graph := graphs p, linker := .empty }, ?_, fun p => (good p).1, fun p => rfl,
    fun p => ?_⟩
  · rw [GhostSystem.restore, result, Option.map_some]
  · exact (good p).2.trans (whole p).settled.loaded_eq

omit rank in
theorem hasNodes_of_restore {h : GhostSystem n T W} (ran : s.restore dump load = some h) :
    HasNodes s := by
  obtain ⟨graphs, loaded, _⟩ := Option.map_eq_some_iff.mp ran
  intro p
  by_contra none_
  have noCore : ∀ id, (s p).graph.view.core id = none := by
    intro id
    rw [DistributedGraph.view_core, Option.map_eq_none_iff]
    by_contra present
    exact none_ ⟨id, Option.ne_none_iff_exists'.mp present⟩
  cases (collect_eq_some.mp loaded p).symm.trans
    ((whole p).inv.fromJson_empty (load p) noCore (dump p) _)

end Restore

variable (light order) in
theorem redistribute {g : Fin n → DistributedGraph n T W} (inv : ∀ p, GraphInv (g p))
    (represents : Represents G fun p => (g p).view.forget)
    (announced : Announced G partition fun p => (g p).view)
    (mapped : KeepsDistant (fun p => (g p).view) partition) :
    ∃ g₁ g', _distribute light order partition g = some g₁ ∧ synchronizeData order g₁ = some g' ∧
      (Represents (G.distributed partition) fun p => (g' p).view) ∧
      Relocated G partition (fun p => (g p).view) (fun p => (g' p).view) ∧
      ∀ p id core, (g' p).view.core id = some core → ∃ node,
        (G.distributed partition).node id = some node ∧ core.data = node.data ∧
          core.weight = node.weight := by
  obtain ⟨g₁, moved, inv₁, represents₁, relocated⟩ :=
    represents.relocate_announced light order inv announced mapped
  obtain ⟨g', exchanged, _, represents', data⟩ := synchronizeData_represents order inv₁ represents₁
  obtain ⟨_, exchanged', good⟩ := synchronizeData_spec order inv₁ represents₁.toHosts
  cases exchanged.symm.trans exchanged'
  have view : (fun p => (g' p).view) = fun p =>
      (g₁ p).view.amend (g₁ p).view.IsDistant (refreshed _) := funext fun p => (good p).2
  exact ⟨g₁, g', moved, exchanged, represents', view ▸ relocated.amend, data⟩

section Resume

variable [Inhabited T] {s : GhostSystem n T W}

omit [One W] [Inhabited T] in
theorem sameGraphs {v v' w w' : Fin n → GraphView n T W}
    (represents : Represents (G.distributed partition) w)
    (represents' : Represents (G.distributed partition) w')
    (relocated : Relocated G partition v w) (relocated' : Relocated G partition v' w')
    (core : ∀ p, (v' p).core = (v p).core) (managed : ∀ p, (v' p).managed = (v p).managed)
    (fresh : ∀ p id, (v p).newLocal id → ∃ node, G.node id = some node)
    (fresh' : ∀ p id, (v' p).newLocal id → ∃ node, G.node id = some node)
    (data : ∀ p id core, (w p).core id = some core → ∃ node,
      (G.distributed partition).node id = some node ∧ core.data = node.data ∧ core.weight = node.weight)
    (data' : ∀ p id core, (w' p).core id = some core → ∃ node,
      (G.distributed partition).node id = some node ∧ core.data = node.data ∧ core.weight = node.weight)
    (p : Fin n) :
    (w' p).core = (w p).core ∧ (w' p).edge = (w p).edge ∧ (w' p).managed = (w p).managed := by
  have moved : ∀ q r id, G.Moves partition q id r → ∃ node, G.node id = some node := by
    rintro q r id ⟨⟨node, inside, _⟩, _⟩
    exact ⟨node, inside⟩
  refine ⟨funext fun id => ?_, funext fun k => ?_, funext fun id => ?_⟩
  · have both : (∃ c, (w' p).core id = some c) ↔ ∃ c, (w p).core id = some c := by
      rw [relocated'.present, relocated.present, core]
    cases found : (w p).core id with
    | none =>
      cases found' : (w' p).core id with
      | none => rfl
      | some c =>
        obtain ⟨c', present⟩ := both.mp ⟨c, found'⟩
        cases found.symm.trans present
    | some c =>
      obtain ⟨c', found'⟩ := both.mpr ⟨c, found⟩
      obtain ⟨node, inside, same⟩ := data p id c found
      obtain ⟨node', inside', same'⟩ := data' p id c' found'
      cases inside.symm.trans inside'
      rw [found', Relocated.core_unique represents.toHosts inside found same,
        Relocated.core_unique represents'.toHosts inside found' same']
  · rw [represents.edges, represents'.edges]
  · by_cases known : id.rank = p ∧ ∃ node, G.node id = some node
    · obtain ⟨rfl, node, inside⟩ := known
      have moved : (G.distributed partition).node id = _ := GlobalGraph.distributed_node inside
      rw [represents.managed id _ moved, represents'.managed id _ moved]
    · -- Nobody has told anything about the node.
      rw [relocated.managed.kept p id, relocated'.managed.kept p id, managed]
      · rintro ⟨mine, q, ⟨r, moves⟩ | told⟩
        · exact known ⟨mine, moved _ _ _ moves⟩
        · exact known ⟨mine, fresh' q id told⟩
      · rintro ⟨mine, q, ⟨r, moves⟩ | told⟩
        · exact known ⟨mine, moved _ _ _ moves⟩
        · exact known ⟨mine, fresh q id told⟩

variable (period : Period G s) (whole : ∀ p, SettledGraph (s p).graph)
  (idle : ∀ p, (s p).linker = .empty)
  (mapped : ∀ p id, id ∈ partition p → (s p).view.IsLocal id)

omit [One W] [Inhabited T] in
include mapped in
theorem keepsDistant_of_local : KeepsDistant (fun p => (s p).view) partition := by
  rintro p id q entry _ ⟨c, found, state⟩
  obtain ⟨c', found', state'⟩ := mapped p id ((UnorderedMap.mem_iff_lookup _ _).mpr ⟨q, entry⟩)
  cases found.symm.trans found'
  cases state.symm.trans state'

include period whole idle mapped

theorem resumes_of_home (nodes : HasNodes s)
    (fresh : ∀ p id, (s p).view.newLocal id → (s p).view.IsLocal id)
    (home : ∀ p id q, (partition p).lookup id = some q → q ≠ p → id.rank = p)
    (dump load order order' : Fin n → HashOrder) :
    Resumes light dump load order order' partition s := by
  have represents := period.represents idle
  have keeps := keepsDistant_of_local mapped
  obtain ⟨t, result, synced, relocated⟩ := period.distribute_idle light idle order keeps
  have rank : ∀ p, (s p).graph.rank = p := represents.rank
  obtain ⟨h, restore, restored⟩ := restored dump load whole rank nodes
  have view := restored.view
  have owned : ∀ p id, (h p).view.newLocal id → G.Owns p id := by
    intro p id told
    rw [view] at told
    exact (represents.isLocal p id).mp told
  have announced : Announced G partition fun p => (h.graphs p).view := by
    intro p id told
    by_cases origin : id.rank = p
    · refine .inl ⟨origin, fun node inside => ?_⟩
      obtain ⟨node', inside', owner⟩ := owned p id told
      cases inside.symm.trans inside'
      exact owner
    · exact .inr ⟨owned p id told, fun r moves => origin (home p id r moves.2.1 moves.2.2)⟩
  have core : ∀ p, (h p).view.core = (s p).view.core := fun p => by rw [view]
  have managed : ∀ p, (h p).view.managed = (s p).view.managed := fun p => by rw [view]
  obtain ⟨g₁, g', moved, exchanged, represents', relocated', data'⟩ :=
    redistribute light order' (g := h.graphs) restored.graph
      (restored.forget ▸ represents.forget) announced (restored.keepsDistant keeps)
  refine ⟨t, h, h.withGraphs g', result, restore, ?_, fun p => ?_⟩
  · rw [distribute_committed restored.linker, moved, Option.bind_some, exchanged, Option.map_some]
  · obtain ⟨nodes, edges, managed⟩ := sameGraphs synced.represents represents' relocated relocated' core
      managed
      (fun q id told => by
        obtain ⟨node, inside, _⟩ := (represents.isLocal q id).mp (fresh q id told)
        exact ⟨node, inside⟩)
      (fun q id told => by
        obtain ⟨node, inside, _⟩ := owned q id told
        exact ⟨node, inside⟩) synced.data data' p
    exact ⟨nodes, edges, managed⟩

end Resume

end

end Fpmas.Synchro.Ghost
