import Fpmas.Library.Simulation
import Fpmas.Synchro.Ghost.PartitionEntries
import Fpmas.Synchro.SharedGraph

set_option autoImplicit false

namespace Fpmas.Synchro.Ghost

open Fpmas.Graph

variable {n : Nat} {T W : Type} [One W]

-- What an action of the processes is for the users, who see one graph.
def GhostAction.Shows (s : GhostSystem n T W) : GhostAction n T W → GraphEvent n T W → Prop
  | call (.buildNode p data), event => event = .buildNode p (s p).graph.nodeId data
  | call (.setData p id data weight), event => event = .setData p id data weight
  | call (.link p source target layer), event =>
    event = .link (s p).graph.edgeId { layer, weight := 1, source, target }
  | call (.unlink _ edge), event => event = .unlink edge
  | call (.removeNode _ _ id), event => event = .removeNode id
  | synchronize _, event => event = .nothing
  | distribute _ partition, event => event = .distribute partition
  | balance _ loadBalancing, event => ∃ graphs, event = .distribute (loadBalancing graphs)

/-- The users see `A`: it has lost the nodes that the processes are still to erase. -/
def Implements (A : GlobalGraph n T W) (s : GhostSystem n T W) : Prop :=
  ∃ G, Period G s ∧ A = G.removeNodes (Removed s)

section

variable {G : GlobalGraph n T W} {s t : GhostSystem n T W} {light : T → T}

omit [One W] in
theorem Synchronized.nothing_removed (synced : Synchronized G s) (id : Id n) : ¬ Removed s id := by
  rintro ⟨p, member⟩
  rw [synced.linker p] at member
  cases member

omit [One W] in
theorem Synchronized.implements (synced : Synchronized G s) : Implements G s :=
  ⟨G, synced.period, (GlobalGraph.removeNodes_none synced.nothing_removed).symm⟩

omit [One W] in
theorem Period.stored (period : Period G s) {p : Fin n} {k : Id n} {e : DistributedEdge n W}
    {edge : GlobalEdge n W} (found : (s p).view.edge k = some e) (inside : G.edge k = some edge) :
    ∃ state, e = edge.stored state := by
  have run := period.running
  by_cases pending : ∃ q, k ∈ (s q).linker.linkBuffer
  · obtain ⟨q, waits⟩ := pending
    obtain ⟨edge', inside', _, only⟩ := run.buffered q k waits
    cases inside.symm.trans inside'
    have here := (only p).symm.trans found
    split at here
    · exact ⟨_, (Option.some.inj here).symm⟩
    · cases here
  · have here := (run.committed k edge inside (fun q waits => pending ⟨q, waits⟩) p not_false).symm.trans found
    obtain ⟨edge', inside', _, same⟩ := GlobalGraph.edgeAt_eq_some.mp here
    cases inside.symm.trans inside'
    exact ⟨_, same⟩

theorem Period.removed_kept (period : Period G s) {made : GhostCall n T W} (keeps : ¬ made.Removes)
    (taken : s.call made = some t) : Removed t = Removed s := by
  funext id
  unfold Removed
  simp only [(period.call_edgeId keeps taken _).2]

theorem Period.removed_added (period : Period G s) {p : Fin n} {order : HashOrder} {id : Id n}
    (taken : s.call (.removeNode p order id) = some t) :
    Removed t = fun x => Removed s x ∨ x = id := by
  obtain ⟨y, applied, rfl⟩ := Option.map_eq_some_iff.mp taken
  have listed : y.linker.localNodesToRemove = (s p).linker.localNodesToRemove ++ [id] := by
    obtain ⟨node, at_, result⟩ := Option.bind_eq_some_iff.mp applied
    obtain ⟨z, requested, rfl⟩ := Option.map_eq_some_iff.mp result
    cases state : node.state with
    | DISTANT =>
      rw [state] at requested
      cases requested
      rfl
    | LOCAL =>
      rw [state] at requested
      have found : (s p).view.core id = some node.core := by
        rw [GhostProcess.view, DistributedGraph.view_core,
          show (s p).graph.getNode id = some node from at_]
        rfl
      obtain ⟨z', unlinks, _, unlinked⟩ :=
        period.running.unlinkNode order found fun _ _ _ _ => not_false
      cases unlinks.symm.trans requested
      exact congrArg (· ++ [id]) unlinked.localNodesToRemove
  funext x
  refine propext ⟨?_, ?_⟩
  · rintro ⟨q, member⟩
    rw [Function.update_apply] at member
    split at member
    case isTrue here =>
      rw [listed] at member
      rcases List.mem_append.mp member with old | new
      · exact .inl ⟨p, old⟩
      · exact .inr (List.mem_singleton.mp new)
    case isFalse => exact .inl ⟨q, member⟩
  · rintro (⟨q, member⟩ | rfl)
    · refine ⟨q, ?_⟩
      rw [Function.update_apply]
      split
      case isTrue here =>
        subst here
        rw [listed]
        exact List.mem_append_left _ member
      case isFalse => exact member
    · refine ⟨p, ?_⟩
      rw [show (Function.update s (GhostCall.process (T := T) (.removeNode p order x)) y) p = y from
        update_at s p y, listed]
      exact List.mem_append_right _ (List.mem_singleton_self x)

omit [One W] in
theorem Period.removed_built (period : Period G s) {id : Id n} (removed : Removed s id) :
    (G.node id).isSome := by
  obtain ⟨p, member⟩ := removed
  obtain ⟨node, inside⟩ := period.node member
  rw [inside]
  rfl

theorem Period.linked_ends (period : Period G s) {p : Fin n} {source target : Id n} {layer : LayerId}
    (taken : s.call (.link p source target layer) = some t) :
    (G.node source).isSome ∧ (G.node target).isSome := by
  obtain ⟨y, applied, rfl⟩ := Option.map_eq_some_iff.mp taken
  obtain ⟨⟨_, atSource⟩, _, atTarget⟩ := link_present applied
  obtain ⟨_, source_, _⟩ := period.running.hosts.ghost p _ _ atSource
  obtain ⟨_, target_, _⟩ := period.running.hosts.ghost p _ _ atTarget
  rw [source_, target_]
  exact ⟨rfl, rfl⟩

theorem Period.shown_call (period : Period G s) {made : GhostCall n T W}
    (taken : s.call made = some t) : ∃ event A, GhostAction.Shows s (.call made) event ∧
      (G.removeNodes (Removed s)).next event = some A ∧ Implements A t := by
  have after := period.call taken
  cases made with
  | buildNode p data =>
    have absent : G.node (s p).view.nodeId = none := (period.running.hosts.node_fresh p p).1
    have new : ¬ Removed s (s p).view.nodeId := by
      intro removed
      have built := period.removed_built removed
      rw [absent] at built
      cases built
    refine ⟨_, _, rfl, if_neg ?_, _, after, ?_⟩
    · rw [show (s p).graph.nodeId = (s p).view.nodeId from rfl, GlobalGraph.isSome_removeNodes, absent]
      simp
    · rw [period.removed_kept (by exact not_false) taken]
      exact (GlobalGraph.removeNodes_buildNode new).symm
  | setData p id data weight =>
    refine ⟨_, _, rfl, rfl, _, after, ?_⟩
    rw [period.removed_kept (by exact not_false) taken]
    exact GlobalGraph.removeNodes_setData.symm
  | link p source target layer =>
    have absent : G.edge (s p).view.edgeId = none := (period.running.edge_fresh p p).1
    have ends := period.linked_ends taken
    have kept := period.removed_kept (by exact not_false) taken
    have fresh : ¬ ((G.removeNodes (Removed s)).edge (s p).graph.edgeId).isSome := by
      rw [Option.isSome_iff_exists]
      rintro ⟨edge, inside⟩
      cases absent.symm.trans (GlobalGraph.removeNodes_edge.mp inside).1
    by_cases removed : Removed s source ∨ Removed s target
    · -- The edge leaves with the node.
      refine ⟨_, _, rfl, (if_neg fresh).trans (if_neg ?_), _, after, ?_⟩
      · rintro ⟨atSource, atTarget⟩
        exact removed.elim (GlobalGraph.isSome_removeNodes.mp atSource).2
          (GlobalGraph.isSome_removeNodes.mp atTarget).2
      · rw [kept]
        exact (GlobalGraph.removeNodes_link_of_removed absent removed).symm
    · rw [not_or] at removed
      refine ⟨_, _, rfl, (if_neg fresh).trans (if_pos ?_), _, after, ?_⟩
      · exact ⟨GlobalGraph.isSome_removeNodes.mpr ⟨ends.1, removed.1⟩,
          GlobalGraph.isSome_removeNodes.mpr ⟨ends.2, removed.2⟩⟩
      · rw [kept]
        exact (GlobalGraph.removeNodes_link removed.1 removed.2).symm
  | unlink p k =>
    refine ⟨_, _, rfl, rfl, _, after, ?_⟩
    rw [period.removed_kept (by exact not_false) taken]
    exact GlobalGraph.removeNodes_unlink.symm
  | removeNode p order id =>
    refine ⟨_, _, rfl, rfl, _, after, ?_⟩
    rw [period.removed_added taken, GlobalGraph.removeNodes_removeNodes]
    refine (GlobalGraph.removeNodes_without ?_).symm
    rintro k edge inside ⟨_, e, found, touches⟩
    obtain ⟨state, rfl⟩ := period.stored found inside
    exact touches.imp .inr .inr

theorem Period.shown (period : Period G s) {action : GhostAction n T W} (keeps : action.Keeps light s)
    (taken : action.next light s = some t) : ∃ event A, action.Shows s event ∧
      (G.removeNodes (Removed s)).next event = some A ∧ Implements A t ∧
      (action.Synchronizes → Synchronized A t) := by
  cases action with
  | call made =>
    obtain ⟨event, A, shows, step, related⟩ := period.shown_call taken
    exact ⟨event, A, shows, step, related, False.elim⟩
  | synchronize order =>
    obtain ⟨t', result, synced⟩ := period.synchronize light order keeps.1 keeps.2
    cases taken.symm.trans result
    exact ⟨_, _, rfl, rfl, synced.implements, fun _ => synced⟩
  | distribute order partition =>
    obtain ⟨_, t', _, result, synced, _⟩ := period.distribute light order keeps.1.1 keeps.1.2 keeps.2
    cases taken.symm.trans result
    exact ⟨_, _, rfl, rfl, synced.implements, fun _ => synced⟩
  | balance order loadBalancing =>
    obtain ⟨t', graphs, result, synced⟩ :=
      period.balance light order keeps.1.1 keeps.1.2 keeps.2
    cases taken.symm.trans result
    exact ⟨_, _, ⟨graphs, rfl⟩, rfl, synced.implements, fun _ => synced⟩

theorem ghost_simulation : TransitionSystem.Simulation (ghost n T W light) (fun s a => a.Keeps light s)
    (sharedGraph n T W) GhostAction.Shows Implements where
  start := by
    rintro s rfl
    exact ⟨_, rfl, synchronized_empty.implements⟩
  step := by
    rintro A s action t ⟨G, period, rfl⟩ keeps taken
    obtain ⟨event, A, shows, step, related, _⟩ := period.shown keeps taken
    exact ⟨event, A, shows, step, related⟩

omit [One W] in
theorem Implements.stores {A : GlobalGraph n T W} (implements : Implements A s) :
    Stores A (fun p => (s p).view) (Removed s) := by
  obtain ⟨G, period, rfl⟩ := implements
  have hosts := period.running.hosts
  refine ⟨fun p id => ?_, fun id node inside => ?_, fun p id core found kept => ?_,
    fun p k e edge found inside => ?_, fun p => ⟨?_, ?_⟩⟩
  · rw [hosts.isLocal p id, GlobalGraph.owns_removeNodes]
  · exact hosts.home id node (GlobalGraph.removeNodes_node.mp inside).1
  · exact GlobalGraph.owns_removeNodes.mpr ⟨hosts.location found, kept⟩
  · exact period.stored found (GlobalGraph.removeNodes_edge.mp inside).1
  · refine Option.eq_none_iff_forall_ne_some.mpr fun node inside => ?_
    cases (period.running.hosts.node_fresh p p).1.symm.trans (GlobalGraph.removeNodes_node.mp inside).1
  · refine Option.eq_none_iff_forall_ne_some.mpr fun edge inside => ?_
    cases (period.running.edge_fresh p p).1.symm.trans (GlobalGraph.removeNodes_edge.mp inside).1

/-- The processes keep one graph. Its users see each of their calls at once, and the calls that
synchronize the processes only bring them the graph. -/
theorem ghost_refines_sharedGraph {steps : List (GhostSystem n T W × GhostAction n T W)}
    (run : (ghost n T W light).RunBy (fun s a => a.Keeps light s) steps s) :
    ∃ events A, List.Forall₂ (fun step event => step.2.Shows step.1 event) steps events ∧
      (sharedGraph n T W).exec .empty events = some A ∧ Stores A (fun p => (s p).view) (Removed s) ∧
      ∀ last ∈ steps.getLast?, last.2.Synchronizes → Synchronized A s := by
  cases run with
  | start initial =>
    obtain rfl : s = .empty := initial
    refine ⟨[], _, .nil, rfl, synchronized_empty.implements.stores, fun last member => ?_⟩
    cases member
  | @step before m _ action run keeps taken =>
    obtain ⟨initial, events, _, rfl, shown, reached, G, period, rfl⟩ := ghost_simulation.run run
    obtain ⟨event, A, shows, step, implements, synced⟩ := period.shown keeps taken
    refine ⟨events ++ [event], A, List.rel_append shown (.cons shows .nil),
      TransitionSystem.exec_concat reached step, implements.stores, fun last member => ?_⟩
    rw [List.getLast?_concat] at member
    cases member
    exact synced

theorem ghost_refines_sharedGraph_removal : ∃ (s t : GhostSystem 2 Nat Nat) (events : _) (A : _),
    Removed s ⟨0, 2⟩ ∧ s.synchronize id (fun _ => .insertion) = some t ∧
    (sharedGraph 2 Nat Nat).exec .empty events = some A ∧ Synchronized A t := by
  obtain ⟨s, t, reached, once, apart, synchronized, removed, _⟩ := removed_from_afar
  have keeps : GhostAction.Keeps id s (.synchronize fun _ => .insertion) := ⟨once, apart⟩
  obtain ⟨steps, run⟩ := reached.runBy
  obtain ⟨events, A, _, seen, _, last⟩ := ghost_refines_sharedGraph (.step run keeps synchronized)
  rw [List.getLast?_concat] at last
  exact ⟨s, t, events, A, removed, synchronized, seen, last _ rfl trivial⟩

end

end Fpmas.Synchro.Ghost
