import Fpmas.Synchro.Ghost.LinkCommit

set_option autoImplicit false

namespace Fpmas.Synchro.Ghost

open Fpmas.Graph

variable {n : Nat} {T W : Type} [One W] {light : T → T} {s : GhostSystem n T W}

omit [One W] in
theorem local_node {G : GlobalGraph n T W} {g : Fin n → DistributedGraph n T W}
    (represents : Represents G fun p => (g p).view) {p : Fin n} {id : Id n}
    {node : GlobalNode n T W} (inside : G.node id = some node) (owner : node.owner = p) :
    ∃ found, (g p).getNode id = some found ∧ found.state = .LOCAL ∧ found.data = node.data ∧
      found.weight = node.weight ∧ found.location = p := by
  subst owner
  obtain ⟨found, at_, core⟩ := DistributedGraph.getNode_of_view rfl (represents.home id node inside)
  exact ⟨found, at_, congrArg NodeCore.state core, congrArg NodeCore.data core,
    congrArg NodeCore.weight core, congrArg NodeCore.location core⟩

/-- The graph of the processes after `_distribute`, in terms of the graph before. -/
structure DistributedTo (partition : Fin n → PartitionMap n) (s g : Fin n → DistributedGraph n T W) :
    Prop where
  graph : ∀ p, GraphInv (g p)
  node : ∀ p id node, (s p).getNode id = some node → node.state = .LOCAL →
    let target := ((partition p).lookup id).getD p
    (∃ node', (g target).getNode id = some node' ∧ node'.state = .LOCAL ∧ node'.data = node.data ∧
      node'.weight = node.weight) ∧ ∀ q, (g q).view.IsLocal id → q = target
  noNode : ∀ q id, (g q).view.IsLocal id → ∃ p, (s p).view.IsLocal id
  edge : ∀ q k e, (g q).getEdge k = some e ↔ ∃ p e', (s p).getEdge k = some e' ∧
    ((g q).view.IsLocal e'.source ∨ (g q).view.IsLocal e'.target) ∧
    e = { e' with state := (g q).view.edgeState e'.source e'.target }

theorem distribution_preserves
    (reached : (ghost n T W light).ReachableBy (fun s a => a.Lasting s) s)
    (idle : ∀ p, (s p).linker = .empty) {partition : Fin n → PartitionMap n}
    (mapped : ∀ p id, id ∈ partition p → (s p).view.IsLocal id) (order : Fin n → HashOrder) :
    ∃ g, _distribute light order partition s.graphs = some g ∧ DistributedTo partition s.graphs g := by
  obtain ⟨G, period⟩ := reachable_period (lasting_keeps reached).1
  have before := period.represents idle
  obtain ⟨g, result, inv, after⟩ := Represents._distribute (G := G) (s := s.graphs) light order
    period.running.graph before fun p id member => by
      rintro ⟨core, found, state⟩
      obtain ⟨core', found', state'⟩ := mapped p id member
      cases (show (s p).view.core id = some core from found).symm.trans found'
      cases state.symm.trans state'
  refine ⟨g, result, inv, fun p id node at_ state => ?_, fun q id near => ?_, fun q k e => ?_⟩
  · have near : (s p).view.IsLocal id :=
      (DistributedGraph.isLocal_iff _ _).mpr ⟨node, at_, state⟩
    obtain ⟨found, inside, rfl⟩ := (before.isLocal p id).mp near
    obtain ⟨node'', at_', _, data, weight, _⟩ := local_node (g := s.graphs) before inside rfl
    cases at_.symm.trans at_'
    have moved : (G.distributed partition).node id = _ := GlobalGraph.distributed_node inside
    obtain ⟨node', here, local_, data', weight', _⟩ := local_node after moved rfl
    refine ⟨⟨node', here, local_, data'.trans data.symm, weight'.trans weight.symm⟩, fun q other => ?_⟩
    obtain ⟨found', inside', rfl⟩ := (after.isLocal q id).mp other
    cases moved.symm.trans inside'
    rfl
  · obtain ⟨node', inside', _⟩ := (after.isLocal q id).mp near
    obtain ⟨node, inside, _⟩ := Option.map_eq_some_iff.mp inside'
    exact ⟨node.owner, (before.isLocal _ id).mpr ⟨node, inside, rfl⟩⟩
  · have state : ∀ edge : GlobalEdge n W, (G.distributed partition).stateAt q edge =
        (g q).view.edgeState edge.source edge.target := by
      intro edge
      unfold GlobalGraph.stateAt GraphView.edgeState
      simp only [after.isLocal q]
    rw [show (g q).getEdge k = (G.distributed partition).edgeAt q k from after.edges q k,
      GlobalGraph.edgeAt_eq_some]
    constructor
    · rintro ⟨edge, inside, near, rfl⟩
      obtain ⟨⟨source, atSource⟩, _⟩ := before.closed k edge inside
      refine ⟨source.owner, edge.stored (G.stateAt source.owner edge), ?_, ?_, ?_⟩
      · exact (before.edges _ k).trans (GlobalGraph.edgeAt_eq_some.mpr
          ⟨edge, inside, .inl ⟨source, atSource, rfl⟩, rfl⟩)
      · exact near.imp (after.isLocal q _).mpr (after.isLocal q _).mpr
      · rw [state]
        rfl
    · rintro ⟨p, e', stored, near, rfl⟩
      obtain ⟨edge, inside, _, rfl⟩ := GlobalGraph.edgeAt_eq_some.mp
        ((before.edges p k).symm.trans stored)
      refine ⟨edge, inside, near.imp (after.isLocal q _).mp (after.isLocal q _).mp, ?_⟩
      rw [state]
      rfl

theorem distribution_preserves_linked : ∃ s g : GhostSystem 3 Nat Nat,
    (s 0).view.state ⟨0, 1⟩ = some .DISTANT ∧ (s 1).view.state ⟨0, 1⟩ = some .LOCAL ∧
    ((s 1).graph.getEdge ⟨0, 0⟩).isSome ∧
    _distribute id (fun _ => .insertion) (sendOnly 1 ⟨0, 1⟩ 2) s.graphs = some g.graphs ∧
    DistributedTo (sendOnly 1 ⟨0, 1⟩ 2) s.graphs g.graphs ∧
    ((g 2).graph.getEdge ⟨0, 0⟩).map (·.state) = some .DISTANT := by
  have run : (((ghost 3 Nat Nat id).exec .empty (linkedRun 0 5 6)).bind fun s =>
      (s.distribute id (fun _ => .insertion) (sendOnly 0 ⟨0, 1⟩ 1)).bind fun t =>
      (_distribute id (fun _ => .insertion) (sendOnly 1 ⟨0, 1⟩ 2) t.graphs).map fun g =>
        ([(s 0).view.state ⟨0, 1⟩, (t 0).view.state ⟨0, 1⟩, (t 1).view.state ⟨0, 1⟩,
            ((g 2).getEdge ⟨0, 0⟩).map (·.state)], ((t 1).graph.getEdge ⟨0, 0⟩).isSome)) =
      some ([some .LOCAL, some .DISTANT, some .LOCAL, some .DISTANT], true) := by
    decide +kernel
  obtain ⟨s, built, rest⟩ := Option.bind_eq_some_iff.mp run
  obtain ⟨t, moved, rest⟩ := Option.bind_eq_some_iff.mp rest
  obtain ⟨g, distributed, result⟩ := Option.map_eq_some_iff.mp rest
  simp only [Prod.mk.injEq, List.cons.injEq, and_true] at result
  obtain ⟨⟨second, ghost_, near, edge⟩, stored⟩ := result
  obtain ⟨reached, G, synced⟩ := linked_separated built second moved
  obtain ⟨g', done, preserved⟩ :=
    distribution_preserves reached synced.linker (sendOnly_local near) fun _ => .insertion
  cases distributed.symm.trans done
  exact ⟨t, t.withGraphs g, ghost_, near, stored, distributed, preserved, edge⟩

theorem locations_agree
    (reached : (ghost n T W light).ReachableBy (fun s a => a.Lasting s) s)
    {partition : Fin n → PartitionMap n}
    (mapped : ∀ p id, id ∈ partition p → (s p).view.IsLocal id) (order : Fin n → HashOrder) :
    ∃ t, s.distribute light order partition = some t ∧
      (∀ p id node, (t p).graph.getNode id = some node → node.state = .DISTANT →
        (t node.location).view.IsLocal id) ∧
      ∀ p id, (t p).view.IsLocal id →
        (t id.rank).graph.locationManager.managedNodesLocations.lookup id = some p := by
  obtain ⟨keeps, nothing⟩ := lasting_keeps reached
  obtain ⟨G, period⟩ := reachable_period keeps
  obtain ⟨once, _, forgotten⟩ := sound_of_unremoved nothing
  obtain ⟨_, t, _, result, synced, _⟩ := period.distribute light order once forgotten fun s' linked =>
    period.keepsDistant light order once mapped linked
  have represents := synced.represents
  refine ⟨t, result, fun p id node at_ state => ?_, fun p id near => ?_⟩
  · have found : (t p).view.core id = some node.core := by
      rw [GhostProcess.view, DistributedGraph.view_core, at_]
      rfl
    exact (represents.isLocal _ id).mpr (represents.owner_of_ghost found state).1
  · obtain ⟨node, inside, rfl⟩ := (represents.isLocal p id).mp near
    exact represents.managed id node inside

theorem locations_agree_linked : ∃ s t : GhostSystem 3 Nat Nat,
    (s 0).view.state ⟨0, 1⟩ = some .DISTANT ∧ (s 1).view.state ⟨0, 1⟩ = some .LOCAL ∧
    s.distribute id (fun _ => .insertion) (sendOnly 1 ⟨0, 1⟩ 2) = some t ∧
    ((t 0).graph.getNode ⟨0, 1⟩).map (fun node => (node.state, node.location)) =
      some (.DISTANT, 2) ∧
    (∀ p id node, (t p).graph.getNode id = some node → node.state = .DISTANT →
      (t node.location).view.IsLocal id) ∧
    ∀ p id, (t p).view.IsLocal id →
      (t id.rank).graph.locationManager.managedNodesLocations.lookup id = some p := by
  have run : (((ghost 3 Nat Nat id).exec .empty (linkedRun 0 5 6)).bind fun s =>
      (s.distribute id (fun _ => .insertion) (sendOnly 0 ⟨0, 1⟩ 1)).bind fun t =>
      (t.distribute id (fun _ => .insertion) (sendOnly 1 ⟨0, 1⟩ 2)).map fun u =>
        ([(s 0).view.state ⟨0, 1⟩, (t 0).view.state ⟨0, 1⟩, (t 1).view.state ⟨0, 1⟩],
          ((u 0).graph.getNode ⟨0, 1⟩).map fun node => (node.state, node.location))) =
      some ([some .LOCAL, some .DISTANT, some .LOCAL], some (.DISTANT, 2)) := by
    decide +kernel
  obtain ⟨s, built, rest⟩ := Option.bind_eq_some_iff.mp run
  obtain ⟨t, moved, rest⟩ := Option.bind_eq_some_iff.mp rest
  obtain ⟨u, distributed, result⟩ := Option.map_eq_some_iff.mp rest
  simp only [Prod.mk.injEq, List.cons.injEq, and_true] at result
  obtain ⟨⟨second, ghost_, near⟩, left⟩ := result
  obtain ⟨t', done, agreed⟩ := locations_agree (linked_separated built second moved).1
    (sendOnly_local near) fun _ => .insertion
  cases distributed.symm.trans done
  exact ⟨t, u, ghost_, near, distributed, left, agreed⟩

theorem requests_answered
    (reached : (ghost n T W light).ReachableBy (fun s a => a.Keeps light s) s)
    {action : GhostAction n T W} (keeps : action.Keeps light s) (synchronizes : action.Synchronizes) :
    ∃ t, action.next light s = some t ∧ ∀ p id node, (t p).graph.getNode id = some node →
      node.state = .DISTANT → ∃ owned, (t node.location).graph.getNode id = some owned ∧
        owned.state = .LOCAL ∧ node.data = owned.data ∧ node.weight = owned.weight := by
  obtain ⟨G, period⟩ := reachable_period reached
  have answers : ∀ {H : GlobalGraph n T W} {t : GhostSystem n T W}, Synchronized H t →
      ∀ p id node, (t p).graph.getNode id = some node → node.state = .DISTANT →
        ∃ owned, (t node.location).graph.getNode id = some owned ∧ owned.state = .LOCAL ∧
          node.data = owned.data ∧ node.weight = owned.weight := by
    intro H t synced p id node at_ state
    have found : (t p).view.core id = some node.core := by
      rw [GhostProcess.view, DistributedGraph.view_core, at_]
      rfl
    obtain ⟨global, inside, owner⟩ := (synced.represents.owner_of_ghost found state).1
    obtain ⟨owned, at', local_, data', weight', _⟩ := local_node
      (g := fun p => (t p).graph) synced.represents inside owner
    obtain ⟨global', inside', data, weight⟩ := synced.data p id _ found
    cases inside.symm.trans inside'
    exact ⟨owned, at', local_, data.trans data'.symm, weight.trans weight'.symm⟩
  cases action with
  | call made => exact synchronizes.elim
  | synchronize order =>
    obtain ⟨t, result, synced⟩ := period.synchronize light order keeps.1 keeps.2
    exact ⟨t, result, answers synced⟩
  | distribute order partition =>
    obtain ⟨_, t, _, result, synced, _⟩ := period.distribute light order keeps.1.1 keeps.1.2 keeps.2
    exact ⟨t, result, answers synced⟩
  | balance order loadBalancing =>
    obtain ⟨t, _, result, synced⟩ := period.balance light order keeps.1.1 keeps.1.2 keeps.2
    exact ⟨t, result, answers synced⟩

theorem requests_answered_removal : ∃ s t : GhostSystem 2 Nat Nat, Removed s ⟨0, 2⟩ ∧
    (s 1).view.state ⟨0, 2⟩ = some .DISTANT ∧ s.synchronize id (fun _ => .insertion) = some t ∧
    (t 1).view.state ⟨0, 0⟩ = some .DISTANT ∧
    ∀ p id node, (t p).graph.getNode id = some node → node.state = .DISTANT →
      ∃ owned, (t node.location).graph.getNode id = some owned ∧ owned.state = .LOCAL ∧
        node.data = owned.data ∧ node.weight = owned.weight := by
  obtain ⟨s, t, reached, once, apart, synchronized, removed, _, ghost_, _, _, left⟩ := removed_from_afar
  have keeps : GhostAction.Keeps id s (.synchronize fun _ => .insertion) := ⟨once, apart⟩
  obtain ⟨t', result, answered⟩ := requests_answered reached keeps trivial
  cases synchronized.symm.trans result
  exact ⟨s, t, removed, ghost_, synchronized, left, answered⟩

def forgottenGhostRun (p q : Fin n) : List (GhostAction n Nat Nat) :=
  separated p q 5 6 ++ [.call (.removeNode p .insertion ⟨p, 0⟩)]

theorem request_unanswered : ∃ s t g, (ghost 2 Nat Nat id).Reachable s ∧
    s.commitLinks id (fun _ => .insertion) = some t ∧
    _distribute id (fun _ => .insertion) (fun _ => ∅) t.graphs = some g ∧
    ((g 1).getNode ⟨0, 0⟩).map (fun node => (node.state, node.location)) = some (.DISTANT, 0) ∧
    (g 0).getNode ⟨0, 0⟩ = none ∧ synchronizeData (fun _ => .insertion) g = none := by
  have run : (((ghost 2 Nat Nat id).exec .empty (forgottenGhostRun 0 1)).bind fun s =>
      (s.commitLinks id fun _ => .insertion).bind fun t =>
      (_distribute id (fun _ => .insertion) (fun _ => ∅) t.graphs).map fun g =>
        (((g 1).getNode ⟨0, 0⟩).map fun node => (node.state, node.location),
          ((g 0).getNode ⟨0, 0⟩).isSome, (synchronizeData (fun _ => .insertion) g).isSome)) =
      some (some (.DISTANT, 0), false, false) := by
    decide +kernel
  obtain ⟨s, taken, rest⟩ := Option.bind_eq_some_iff.mp run
  obtain ⟨t, linked, rest⟩ := Option.bind_eq_some_iff.mp rest
  obtain ⟨g, moved, result⟩ := Option.map_eq_some_iff.mp rest
  simp only [Prod.mk.injEq] at result
  obtain ⟨ghost_, lost, throws⟩ := result
  exact ⟨s, t, g, TransitionSystem.reachable_exec _ (.start rfl) taken, linked, moved, ghost_,
    Option.not_isSome_iff_eq_none.mp (Bool.eq_false_iff.mp lost),
    Option.not_isSome_iff_eq_none.mp (Bool.eq_false_iff.mp throws)⟩

end Fpmas.Synchro.Ghost
