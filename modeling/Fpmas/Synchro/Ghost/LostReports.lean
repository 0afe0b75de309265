import Mathlib.Tactic.FinCases
import Fpmas.Synchro.Ghost.Migration
import Fpmas.Synchro.Ghost.Resume

set_option autoImplicit false

namespace Fpmas.Synchro.Ghost

open Fpmas.Graph

variable {n : Nat} {T W : Type}

theorem synchronizeData_keeps {α : Type} (f : DistributedGraph n T W → α)
    (unread : ∀ g id node, f (g.setNode id node) = f g) {order : Fin n → HashOrder}
    {g g' : Fin n → DistributedGraph n T W} (ran : synchronizeData order g = some g') (p : Fin n) :
    f (g' p) = f (g p) := by
  obtain ⟨requests, _, ran⟩ := Option.bind_eq_some_iff.mp ran
  obtain ⟨updates, _, ran⟩ := Option.bind_eq_some_iff.mp ran
  refine List.foldlM_kept (P := fun h => f h = f (g p)) (fun h pack t _ same step => ?_) rfl
    (collect_eq_some.mp ran p)
  obtain ⟨node, _, rfl⟩ := Option.map_eq_some_iff.mp step
  rw [unread, same]

section

variable [One W] {light : T → T}

theorem _distribute_newLocal {order : Fin n → HashOrder} {partition : Fin n → PartitionMap n}
    {g g' : Fin n → DistributedGraph n T W} (ran : _distribute light order partition g = some g')
    (p : Fin n) (id : Id n) : ¬ (g' p).view.newLocal id := by
  obtain ⟨nodes, _, ran⟩ := Option.bind_eq_some_iff.mp ran
  obtain ⟨edges, _, ran⟩ := Option.bind_eq_some_iff.mp ran
  obtain ⟨s₃, _, ran⟩ := Option.bind_eq_some_iff.mp ran
  obtain ⟨s₄, updated, ran⟩ := Option.bind_eq_some_iff.mp ran
  obtain ⟨s₅, _, answered⟩ := Option.bind_eq_some_iff.mp updated
  rw [(DistributedGraph.clearNodes_keepsReports (collect_eq_some.mp ran p)).newLocal]
  exact DistributedGraph.importLocations_newLocal (collect_eq_some.mp answered p) id

-- A distribution that moves no node only updates the locations.
theorem _distribute_nowhere (order : Fin n → HashOrder) (g : Fin n → DistributedGraph n T W) :
    _distribute light order (fun _ => ∅) g = updateLocations order g := by
  have nobody : ∀ p, (g p).exportedNodes (order p) (∅ : PartitionMap n) = [] := by
    intro p
    refine List.eq_nil_iff_forall_not_mem.mpr fun item member => ?_
    have inside := (UnorderedMap.mem_toList (order p) _).mp (List.mem_filter.mp member).1
    cases inside
  have nodes : (collect fun p => (g p).nodeExportMap []) = some fun _ => ∅ :=
    collect_eq_some.mpr fun p => rfl
  have edges : (collect fun p => (g p).edgeExportMap (order p) light []) = some fun _ => ∅ := by
    refine collect_eq_some.mpr fun p => ?_
    have none_ : (g p).edgeIdsToExport (order p) [] = some ∅ := rfl
    have nothing : UnorderedMap.toList (order p) (∅ : UnorderedMap (Fin n) (List (Id n))) = [] := by
      refine List.eq_nil_iff_forall_not_mem.mpr fun item member => ?_
      cases (UnorderedMap.mem_toList (order p) _).mp member
    rw [DistributedGraph.edgeExportMap, none_, Option.bind_some, nothing]
    rfl
  unfold _distribute
  simp only [nobody]
  rw [nodes, Option.bind_some, edges, Option.bind_some]
  simp only [migrate_empty, DistributedGraph.importNodes, DistributedGraph.importEdges, flatten_empty,
    DistributedGraph.setDistantNodes, DistributedGraph.clearNodes, List.map_nil, List.foldlM_nil]
  have stays : (collect fun p => (pure (g p) : Option _).bind fun h => (pure h : Option _).bind pure) =
      some g := collect_eq_some.mpr fun p => rfl
  rw [stays, Option.bind_some]
  cases updateLocations order g with
  | none => rfl
  | some g' =>
    rw [Option.bind_some]
    exact collect_eq_some.mpr fun p => rfl

section Failures

variable [Inhabited T] {G : GlobalGraph n T W} {s : GhostSystem n T W}
  {partition : Fin n → PartitionMap n} (period : Period G s) (whole : ∀ p, SettledGraph (s p).graph)

include period whole

-- A moved node is reported twice: by its new process, and by the one that believes it to be new.
theorem not_resumes_of_away (idle : ∀ p, (s p).linker = .empty)
    (mapped : ∀ p id, id ∈ partition p → (s p).view.IsLocal id) {p q : Fin n} {id : Id n}
    (entry : (partition p).lookup id = some q) (moves : q ≠ p) (away : id.rank ≠ p) :
    ∃ order' : Fin n → HashOrder, ∀ dump load order,
      ¬ Resumes light dump load order order' partition s := by
  obtain ⟨order', stale⟩ := updateLocations_stale (T := T) (W := W) q away
  refine ⟨order', fun dump load order resumes => ?_⟩
  obtain ⟨t, h, t', result, restore, ran, same⟩ := resumes
  have represents := period.represents idle
  have rank : ∀ p, (s p).graph.rank = p := represents.rank
  have keeps := keepsDistant_of_local mapped
  obtain ⟨h', restore', restored⟩ := restored dump load whole rank
    (hasNodes_of_restore whole restore)
  cases restore.symm.trans restore'
  obtain ⟨nodes, edges, s₃, exportedNodes, exportedEdges, exchanged, settled⟩ :=
    Represents.exchange (s := h.graphs) light order' restored.graph
      (restored.forget ▸ represents.forget) (restored.keepsDistant keeps)
  rw [distribute_committed restored.linker, _distribute] at ran
  rw [exportedNodes, Option.bind_some, exportedEdges, Option.bind_some, exchanged,
    Option.bind_some] at ran
  obtain ⟨g', moved, ran⟩ := Option.bind_eq_some_iff.mp ran
  obtain ⟨s₄, updated, cleared⟩ := Option.bind_eq_some_iff.mp moved
  obtain ⟨g'', sent, rfl⟩ := Option.map_eq_some_iff.mp ran
  have near : (s p).view.IsLocal id := mapped p id ((UnorderedMap.mem_iff_lookup _ _).mpr ⟨q, entry⟩)
  obtain ⟨node, inside, rfl⟩ := (represents.isLocal p id).mp near
  have fresh : ∀ r, (s₃ r).view.newLocal id ↔ r = node.owner ∨ r = q := by
    intro r
    have all : (h.graphs r).view.newLocal = (s r).view.IsLocal :=
      congrArg GraphView.newLocal (restored.view r)
    rw [(settled r).2.newLocal, all, represents.isLocal]
    constructor
    · rintro (⟨_, ⟨node', inside', rfl⟩, entry', _⟩ | ⟨node', inside', owner⟩)
      · cases inside.symm.trans inside'
        exact .inr (Option.some.inj (entry'.symm.trans entry))
      · cases inside.symm.trans inside'
        exact .inl owner.symm
    · rintro (rfl | rfl)
      · exact .inr ⟨node, inside, rfl⟩
      · exact .inl ⟨node.owner, ⟨node, inside, rfl⟩, entry, moves⟩
  have rank₃ : ∀ p, (s₃ p).rank = p := by
    intro p
    have kept : (s₃ p).view.rank = (h p).view.rank := by rw [(settled p).2.rest]; rfl
    exact kept.trans ((congrArg GraphView.rank (restored.view p)).trans (rank p))
  have learned : (g'' id.rank).view.managed id = some node.owner := by
    rw [synchronizeData_keeps (fun g => g.view.managed) (fun _ _ _ => rfl) sent,
      (DistributedGraph.clearNodes_keepsReports (collect_eq_some.mp cleared id.rank)).managed]
    exact stale s₃ s₄ rank₃ fresh updated
  -- The system that has not been stopped knows where the node has gone.
  obtain ⟨_, result', synced, _⟩ := period.distribute_idle light idle order keeps
  cases result.symm.trans result'
  have right : (t id.rank).view.managed id = some q := by
    have gone : (G.distributed partition).node id = _ := GlobalGraph.distributed_node inside
    rw [entry] at gone
    exact synced.represents.managed id _ gone
  have agree : (g'' id.rank).view.managed = (t id.rank).view.managed := (same id.rank).managed
  rw [agree, right] at learned
  exact moves (Option.some.inj learned)

-- A link that waits is not in the dump: its edge does not reach the owner of its other node.
theorem not_resumes_of_waiting (unremoved : ∀ p, (s p).linker.localNodesToRemove = []) {p : Fin n}
    {k : Id n} (waits : k ∈ (s p).linker.linkBuffer) (dump load order order' : Fin n → HashOrder) :
    ¬ Resumes light dump load order order' (fun _ => ∅) s := by
  rintro ⟨t, h, t', result, restore, ran, same⟩
  have rank : ∀ p, (s p).graph.rank = p := period.running.hosts.rank
  obtain ⟨h', restore', restored⟩ := restored dump load whole rank
    (hasNodes_of_restore whole restore)
  cases restore.symm.trans restore'
  obtain ⟨edge, inside, apart, only⟩ := period.running.buffered p k waits
  obtain ⟨⟨source, atSource⟩, target, atTarget⟩ := period.running.hosts.closed k edge inside
  obtain ⟨o, away, owned⟩ : ∃ o, o ≠ p ∧ (G.Owns o edge.source ∨ G.Owns o edge.target) := by
    by_cases mine : G.Owns p edge.source
    · refine ⟨target.owner, fun here => apart ⟨mine, target, atTarget, here⟩, .inr ⟨target, atTarget, rfl⟩⟩
    · exact ⟨source.owner, fun here => mine ⟨source, atSource, here⟩, .inl ⟨source, atSource, rfl⟩⟩
  obtain ⟨once, _, forgotten⟩ := sound_of_unremoved unremoved
  have mapped : ∀ p id, id ∈ (∅ : PartitionMap n) → (s p).view.IsLocal id :=
    fun p id member => absurd member (AList.notMem_empty id)
  obtain ⟨_, _, _, result', synced, _⟩ := period.distribute light order once forgotten fun s' linked =>
    period.keepsDistant light order once mapped linked
  cases result.symm.trans result'
  have kept : ∀ id, ¬ Removed s id := by
    rintro id ⟨p, member⟩
    rw [unremoved] at member
    cases member
  rw [GlobalGraph.removeNodes_none kept] at synced
  have stays : ∀ id, G.Owns o id → (G.distributed fun _ => ∅).Owns o id := fun id owned =>
    (GlobalGraph.owns_distributed o id).mpr (.inr ⟨owned, fun r moves => nomatch moves.2.1⟩)
  have there : (t o).view.edge k ≠ none := by
    have stored : (t o).view.edge k = (G.distributed fun _ => ∅).edgeAt o k :=
      synced.represents.edges o k
    have ours : (G.distributed fun _ => ∅).edgeAt o k = some _ := GlobalGraph.edgeAt_eq_some.mpr
      ⟨edge, inside, owned.imp (stays edge.source) (stays edge.target), rfl⟩
    rw [stored, ours]
    exact Option.some_ne_none _
  have missing : (t' o).view.edge k = none := by
    rw [distribute_committed restored.linker, _distribute_nowhere] at ran
    obtain ⟨g₁, updated, ran⟩ := Option.bind_eq_some_iff.mp ran
    obtain ⟨g₂, sent, rfl⟩ := Option.map_eq_some_iff.mp ran
    have edges : (g₂ o).edges = (h o).graph.edges :=
      (synchronizeData_keeps DistributedGraph.edges (fun _ _ _ => rfl) sent o).trans
        (updateLocations_edges updated o)
    have before : (h o).view.edge k = (s o).view.edge k := by rw [restored.view]
    have atO : (s o).view.edge k = none := (only o).trans (if_neg away)
    exact (congrArg (fun edges => edges.lookup k) edges).trans (before.trans atO)
  exact there ((congrFun (same o).edges k).symm.trans missing)

end Failures

-- The calls that add nodes and edges, and those that move nodes from one process to another.
def GhostAction.Builds (s : GhostSystem n T W) : GhostAction n T W → Prop
  | call (.buildNode _ _) => True
  | call (.link _ _ _ _) => True
  | call _ => False
  | synchronize _ => True
  | distribute _ partition => ∀ p id, id ∈ partition p → (s p).view.IsLocal id
  | balance _ _ => False

omit [One W] in
theorem GhostAction.Builds.lasting {s : GhostSystem n T W} {action : GhostAction n T W}
    (builds : action.Builds s) : action.Lasting s := by
  cases action with
  | call made =>
    cases made with
    | buildNode p data => exact not_false
    | link p source target layer => exact not_false
    | setData p id data weight => exact builds.elim
    | unlink p edge => exact builds.elim
    | removeNode p order id => exact builds.elim
  | synchronize order => trivial
  | distribute order partition => exact builds
  | balance order loadBalancing => exact builds.elim

/-- The linker of a process has nothing but links, and the nodes to report are still there. -/
structure Growing (s : GhostProcess n T W) : Prop where
  linker : s.linker = { GhostSyncLinker.empty with linkBuffer := s.linker.linkBuffer }
  fresh : ∀ id, s.view.newLocal id → s.view.IsLocal id

namespace Growing

variable {s t : GhostProcess n T W}

theorem buildNode (growing : Growing s) (inv : GraphInv s.graph) {data : T}
    (fresh : s.graph.getNode s.graph.nodeId = none) (taken : s.buildNode data = some t) :
    Growing t := by
  obtain ⟨g, built, rfl⟩ := Option.map_eq_some_iff.mp taken
  obtain ⟨_, result, _, view⟩ := inv.buildNode data fresh
  cases built.symm.trans result
  refine ⟨growing.linker, fun id told => ?_⟩
  show g.view.IsLocal id
  have told' : g.view.newLocal id := told
  rw [view] at told' ⊢
  by_cases built : id = s.graph.view.nodeId
  · subst built
    exact ⟨_, Function.update_self _ _ _, rfl⟩
  · obtain ⟨c, found, state⟩ := growing.fresh id (told'.resolve_left built)
    exact ⟨c, (Function.update_of_ne built _ _).trans found, state⟩

theorem link (growing : Growing s) (inv : GraphInv s.graph) {source target : Id n} {layer : LayerId}
    (fresh : s.graph.getEdge s.graph.edgeId = none) (taken : s.link source target layer = some t) :
    Growing t := by
  obtain ⟨⟨g, e⟩, built, rfl⟩ := Option.map_eq_some_iff.mp taken
  obtain ⟨atSource, atTarget⟩ := DistributedGraph.buildEdge_ends built
  obtain ⟨_, built', _, view⟩ := inv.buildEdge layer fresh atSource atTarget
  cases built.symm.trans built'
  refine ⟨?_, fun id told => ?_⟩
  · unfold GhostSyncLinker.link
    dsimp only
    split
    · rw [growing.linker]
    · exact growing.linker
  · have same := congrArg GraphView.newLocal view
    obtain ⟨c, found, state⟩ := growing.fresh id ((congrFun same id).mp told)
    exact ⟨c, (congrFun (congrArg GraphView.core view) id).trans found, state⟩

end Growing

omit [One W] in
theorem Growing.unremoved {s : GhostSystem n T W} (growing : ∀ p, Growing (s p)) (p : Fin n) :
    (s p).linker.localNodesToRemove = [] := by
  rw [(growing p).linker]
  rfl

-- `synchronize` reports no node: those of its period are left to the next distribution.
theorem Growing.synchronize {G : GlobalGraph n T W} {s t : GhostSystem n T W} (period : Period G s)
    (growing : ∀ p, Growing (s p)) {order : Fin n → HashOrder}
    (taken : s.synchronize light order = some t) (p : Fin n) : Growing (t p) := by
  obtain ⟨once, apart, _⟩ := sound_of_unremoved (Growing.unremoved growing)
  obtain ⟨_, result, synced⟩ := period.synchronize light order once apart
  cases taken.symm.trans result
  refine ⟨by rw [synced.linker], fun id told => ?_⟩
  have kept : ¬ Removed s id := by
    rintro ⟨q, member⟩
    rw [Growing.unremoved growing] at member
    cases member
  obtain ⟨middle, committed, ran⟩ := Option.bind_eq_some_iff.mp taken
  obtain ⟨g', exchanged, rfl⟩ := Option.map_eq_some_iff.mp ran
  obtain ⟨s', linked, ran⟩ := Option.bind_eq_some_iff.mp committed
  obtain ⟨g, cleared, rfl⟩ := Option.map_eq_some_iff.mp ran
  obtain ⟨_, linked', committed⟩ := (period.commitLinks light order).1 once
  cases linked.symm.trans linked'
  have same : (g' p).view.newLocal = (s p).view.newLocal := by
    calc (g' p).view.newLocal
      _ = (g p).view.newLocal :=
        synchronizeData_keeps (fun g => g.view.newLocal) (fun _ _ _ => rfl) exchanged p
      _ = (s' p).view.newLocal :=
        (DistributedGraph.clearNodes_keepsReports (collect_eq_some.mp cleared p)).newLocal
      _ = (s p).view.newLocal := by rw [committed.rest]
  have before := (growing p).fresh id ((congrFun same id).mp told)
  have owned := (period.running.hosts.isLocal p id).mp before
  exact (synced.represents.isLocal p id).mpr (GlobalGraph.owns_removeNodes.mpr ⟨owned, kept⟩)

theorem Growing.next {G : GlobalGraph n T W} {s t : GhostSystem n T W} (period : Period G s)
    (growing : ∀ p, Growing (s p)) {action : GhostAction n T W} (builds : action.Builds s)
    (taken : action.next light s = some t) (p : Fin n) : Growing (t p) := by
  have freshNode : ∀ q, (s q).graph.getNode (s q).graph.nodeId = none := fun q =>
    Option.map_eq_none_iff.mp (period.running.hosts.node_fresh q q).2
  have freshEdge : ∀ q, (s q).graph.getEdge (s q).graph.edgeId = none := fun q =>
    (period.running.edge_fresh q q).2
  cases action with
  | call made =>
    obtain ⟨process, step, rfl⟩ := Option.map_eq_some_iff.mp taken
    have changed : Growing process := by
      cases made with
      | buildNode q data => exact (growing q).buildNode (period.running.graph q) (freshNode q) step
      | link q source target layer =>
        exact (growing q).link (period.running.graph q) (freshEdge q) step
      | setData q id data weight => exact builds.elim
      | unlink q edge => exact builds.elim
      | removeNode q order id => exact builds.elim
    by_cases same : p = made.process
    · subst same
      rw [update_at]
      exact changed
    · rw [Function.update_of_ne same]
      exact growing p
  | synchronize order => exact Growing.synchronize period growing taken p
  | distribute order partition =>
    obtain ⟨once, _, forgotten⟩ := sound_of_unremoved (Growing.unremoved growing)
    obtain ⟨_, _, _, result, synced, _⟩ := period.distribute light order once forgotten fun s' linked =>
      period.keepsDistant light order once builds linked
    cases taken.symm.trans result
    refine ⟨by rw [synced.linker], fun id told => ?_⟩
    obtain ⟨s', _, ran⟩ := Option.bind_eq_some_iff.mp taken
    obtain ⟨g, moved, ran⟩ := Option.bind_eq_some_iff.mp ran
    obtain ⟨g', exchanged, rfl⟩ := Option.map_eq_some_iff.mp ran
    have same := synchronizeData_keeps (fun g => g.view.newLocal) (fun _ _ _ => rfl) exchanged p
    exact absurd ((congrFun same id).mp told) (_distribute_newLocal moved p id)
  | balance order loadBalancing => exact builds.elim

theorem growing_of_reachable {s : GhostSystem n T W}
    (reached : (ghost n T W light).ReachableBy (fun s a => a.Builds s) s) :
    (ghost n T W light).ReachableBy (fun s a => a.Lasting s) s ∧ ∀ p, Growing (s p) := by
  induction reached with
  | start initial =>
    refine ⟨.start initial, fun p => ?_⟩
    cases initial
    exact ⟨rfl, fun id told => absurd told (AList.notMem_empty id)⟩
  | @step s t action _ builds taken ih =>
    obtain ⟨lasting, growing⟩ := ih
    obtain ⟨G, period⟩ := reachable_period (lasting_keeps lasting).1
    exact ⟨.step lasting builds.lasting taken, Growing.next period growing builds taken⟩

/-- The states and the partitions for which a resumed system ends as one that has not been stopped: all
the links are committed, and the nodes that move leave the processes that have created them. -/
theorem resumes_iff [Inhabited T] {s : GhostSystem n T W}
    (reached : (ghost n T W light).ReachableBy (fun s a => a.Builds s) s) :
    ((∀ partition : Fin n → PartitionMap n, (∀ p id, id ∈ partition p → (s p).view.IsLocal id) →
        ∀ dump load order order', Resumes light dump load order order' partition s) ↔
      HasNodes s ∧ (∀ p, (s p).linker = .empty) ∧ ∀ p id, (s p).view.IsLocal id → id.rank = p) ∧
    ((∀ p, (s p).linker = .empty) → ∀ partition : Fin n → PartitionMap n,
      (∀ p id, id ∈ partition p → (s p).view.IsLocal id) →
      ((∀ dump load order order', Resumes light dump load order order' partition s) ↔
        HasNodes s ∧ ∀ p id q, (partition p).lookup id = some q → q ≠ p → id.rank = p)) := by
  obtain ⟨lasting, growing⟩ := growing_of_reachable reached
  have keeps := (lasting_keeps lasting).1
  obtain ⟨G, period⟩ := reachable_period keeps
  have whole : ∀ p, SettledGraph (s p).graph := reachable_settled keeps
  have rank : ∀ p, (s p).graph.rank = p := period.running.hosts.rank
  have nodes : ∀ partition, (∀ dump load order order',
      Resumes light dump load order order' partition s) → HasNodes s := by
    intro partition resumes
    obtain ⟨_, _, _, _, restore, _⟩ := resumes (fun _ => .insertion) (fun _ => .insertion)
      (fun _ => .insertion) fun _ => .insertion
    exact hasNodes_of_restore whole restore
  have moved : (∀ p, (s p).linker = .empty) → ∀ partition : Fin n → PartitionMap n,
      (∀ p id, id ∈ partition p → (s p).view.IsLocal id) →
      ((∀ dump load order order', Resumes light dump load order order' partition s) ↔
        HasNodes s ∧ ∀ p id q, (partition p).lookup id = some q → q ≠ p → id.rank = p) := by
    intro idle partition mapped
    constructor
    · intro resumes
      refine ⟨nodes partition resumes, fun p id q entry moves => ?_⟩
      by_contra away
      obtain ⟨order', fails⟩ := not_resumes_of_away period whole idle mapped entry moves away
      exact fails _ _ _ (resumes (fun _ => .insertion) (fun _ => .insertion) (fun _ => .insertion) order')
    · rintro ⟨nodes, home⟩ dump load order order'
      exact resumes_of_home period whole idle mapped nodes (fun p => (growing p).fresh) home _ _ _ _
  refine ⟨⟨fun resumes => ?_, ?_⟩, moved⟩
  · have nowhere := resumes (fun _ => ∅) fun p id member => absurd member (AList.notMem_empty id)
    have idle : ∀ p, (s p).linker = .empty := by
      intro p
      cases waiting : (s p).linker.linkBuffer with
      | nil =>
        rw [(growing p).linker, waiting]
        rfl
      | cons k rest =>
        have waits : k ∈ (s p).linker.linkBuffer := waiting ▸ List.mem_cons_self
        exact absurd (nowhere (fun _ => .insertion) (fun _ => .insertion) (fun _ => .insertion)
            fun _ => .insertion)
          (not_resumes_of_waiting period whole (Growing.unremoved growing) waits _ _ _ _)
    refine ⟨nodes _ nowhere, idle, fun p id near => ?_⟩
    by_contra away
    -- The node could be sent back to the process that has created it.
    have mapped : ∀ q other, other ∈ sendOnly p id id.rank q → (s q).view.IsLocal other := by
      intro q other member
      obtain ⟨rfl, rfl⟩ := mem_sendOnly member
      exact near
    have entry : (sendOnly p id id.rank p).lookup id = some id.rank := by
      rw [sendOnly, if_pos rfl]
      exact AList.lookup_insert _
    exact away (((moved idle _ mapped).mp (resumes _ mapped)).2 p id id.rank entry away)
  · rintro ⟨nodes, idle, home⟩ partition mapped
    refine (moved idle partition mapped).mpr ⟨nodes, fun p id q entry _ => ?_⟩
    exact home p id (mapped p id ((UnorderedMap.mem_iff_lookup _ _).mpr ⟨q, entry⟩))

end

def threeNodes (p q : Fin n) : List (GhostAction n Unit Nat) :=
  [.call (.buildNode p ()), .call (.buildNode p ()), .call (.buildNode q ())]

theorem threeNodes_reached {s : GhostSystem 2 Unit Nat}
    (built : (ghost 2 Unit Nat id).exec .empty (threeNodes 0 1) = some s) :
    (ghost 2 Unit Nat id).ReachableBy (fun s a => a.Builds s) s := by
  refine .exec _ (.start rfl) (fun action member s => ?_) built
  simp only [threeNodes, List.mem_cons, List.not_mem_nil, or_false] at member
  rcases member with rfl | rfl | rfl <;> exact trivial

theorem resumes_iff_moved : ∃ s t : GhostSystem 2 Unit Nat,
    (ghost 2 Unit Nat id).exec .empty (threeNodes 0 1) = some s ∧
    (∀ dump load order order', Resumes id dump load order order' (sendOnly 0 ⟨0, 0⟩ 1) s) ∧
    s.distribute id (fun _ => .insertion) (sendOnly 0 ⟨0, 0⟩ 1) = some t ∧
    (t 1).view.IsLocal ⟨0, 0⟩ := by
  have run : (((ghost 2 Unit Nat id).exec .empty (threeNodes 0 1)).bind fun s =>
      (s.distribute id (fun _ => .insertion) (sendOnly 0 ⟨0, 0⟩ 1)).map fun t =>
        [(s 0).view.state ⟨0, 0⟩, (s 1).view.state ⟨1, 0⟩, (t 1).view.state ⟨0, 0⟩]) =
      some [some .LOCAL, some .LOCAL, some .LOCAL] := by
    decide +kernel
  obtain ⟨s, built, rest⟩ := Option.bind_eq_some_iff.mp run
  obtain ⟨t, moved, result⟩ := Option.map_eq_some_iff.mp rest
  simp only [List.cons.injEq, and_true] at result
  obtain ⟨first, second, gained⟩ := result
  have idle : ∀ p, (s p).linker = .empty := by
    intro p
    cases built
    fin_cases p <;> rfl
  have nodes : HasNodes s := by
    intro p
    fin_cases p
    · obtain ⟨core, found, _⟩ := GraphView.isLocal_iff_state.mpr first
      obtain ⟨node, at_, _⟩ := DistributedGraph.getNode_of_view (g := (s 0).graph) rfl found
      exact ⟨_, node, at_⟩
    · obtain ⟨core, found, _⟩ := GraphView.isLocal_iff_state.mpr second
      obtain ⟨node, at_, _⟩ := DistributedGraph.getNode_of_view (g := (s 1).graph) rfl found
      exact ⟨_, node, at_⟩
  refine ⟨s, t, built, ?_, moved, GraphView.isLocal_iff_state.mpr gained⟩
  refine ((resumes_iff (threeNodes_reached built)).2 idle _ fun p id member => ?_).mpr
    ⟨nodes, fun p id q entry _ => ?_⟩
  · obtain ⟨rfl, rfl⟩ := mem_sendOnly member
    exact GraphView.isLocal_iff_state.mpr first
  · obtain ⟨rfl, rfl⟩ := mem_sendOnly ((UnorderedMap.mem_iff_lookup _ _).mpr ⟨q, entry⟩)
    rfl

-- A node of process 0 is on process 1 when the system is restored, and then comes back: process 0, where
-- it is, goes on believing that it is on process 1.
theorem moved_back_lost : ∃ s t u h v : GhostSystem 2 Unit Nat,
    (ghost 2 Unit Nat id).exec .empty (threeNodes 0 1) = some s ∧
    (∀ p id, id ∈ sendOnly 0 ⟨0, 0⟩ 1 p → (s p).view.IsLocal id) ∧
    s.distribute id (fun _ => .insertion) (sendOnly 0 ⟨0, 0⟩ 1) = some t ∧
    (∀ p id, id ∈ sendOnly 1 ⟨0, 0⟩ 0 p → (t p).view.IsLocal id) ∧
    t.distribute id (fun _ => .insertion) (sendOnly 1 ⟨0, 0⟩ 0) = some u ∧
    t.restore (fun _ => .insertion) (fun _ => .insertion) = some h ∧
    h.distribute id (fun _ => .insertion) (sendOnly 1 ⟨0, 0⟩ 0) = some v ∧
    (u 0).view.IsLocal ⟨0, 0⟩ ∧ (u 0).view.managed ⟨0, 0⟩ = some 0 ∧
    (v 0).view.IsLocal ⟨0, 0⟩ ∧ (v 0).view.managed ⟨0, 0⟩ = some 1 ∧
    ¬ Resumes id (fun _ => .insertion) (fun _ => .insertion) (fun _ => .insertion) (fun _ => .insertion)
      (sendOnly 1 ⟨0, 0⟩ 0) t := by
  have run : (((ghost 2 Unit Nat id).exec .empty (threeNodes 0 1)).bind fun s =>
      (s.distribute id (fun _ => .insertion) (sendOnly 0 ⟨0, 0⟩ 1)).bind fun t =>
      (t.distribute id (fun _ => .insertion) (sendOnly 1 ⟨0, 0⟩ 0)).bind fun u =>
      (t.restore (fun _ => .insertion) (fun _ => .insertion)).bind fun h =>
      (h.distribute id (fun _ => .insertion) (sendOnly 1 ⟨0, 0⟩ 0)).map fun v =>
        ([(s 0).view.state ⟨0, 0⟩, (t 1).view.state ⟨0, 0⟩, (u 0).view.state ⟨0, 0⟩,
          (v 0).view.state ⟨0, 0⟩], (u 0).view.managed ⟨0, 0⟩, (v 0).view.managed ⟨0, 0⟩)) =
      some ([some .LOCAL, some .LOCAL, some .LOCAL, some .LOCAL], some 0, some 1) := by
    decide +kernel
  obtain ⟨s, built, rest⟩ := Option.bind_eq_some_iff.mp run
  obtain ⟨t, moved, rest⟩ := Option.bind_eq_some_iff.mp rest
  obtain ⟨u, back, rest⟩ := Option.bind_eq_some_iff.mp rest
  obtain ⟨h, restore, rest⟩ := Option.bind_eq_some_iff.mp rest
  obtain ⟨v, resumed, result⟩ := Option.map_eq_some_iff.mp rest
  simp only [Prod.mk.injEq, List.cons.injEq, and_true] at result
  obtain ⟨⟨first, gained, here, here'⟩, right, wrong⟩ := result
  refine ⟨s, t, u, h, v, built, fun p id member => ?_, moved, fun p id member => ?_, back, restore,
    resumed, GraphView.isLocal_iff_state.mpr here, right, GraphView.isLocal_iff_state.mpr here', wrong, ?_⟩
  · obtain ⟨rfl, rfl⟩ := mem_sendOnly member
    exact GraphView.isLocal_iff_state.mpr first
  · obtain ⟨rfl, rfl⟩ := mem_sendOnly member
    exact GraphView.isLocal_iff_state.mpr gained
  · rintro ⟨u', h', v', back', restore', resumed', same⟩
    cases back.symm.trans back'
    cases restore.symm.trans restore'
    cases resumed.symm.trans resumed'
    have agree := congrFun (same 0).managed ⟨0, 0⟩
    cases wrong.symm.trans (agree.trans right)

end Fpmas.Synchro.Ghost
