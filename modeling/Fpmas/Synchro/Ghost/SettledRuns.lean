import Fpmas.Graph.GraphRuns
import Fpmas.Graph.JsonRoundTrip
import Fpmas.Synchro.Ghost.Runs

set_option autoImplicit false

namespace Fpmas.Graph

variable {n : Nat} {T W : Type}

namespace GraphView.Settled

variable {v v' : GraphView n T W}

theorem shrink (settled : v.Settled) (rank : v'.rank = v.rank) (core : v'.core = v.core)
    (edge : ∀ k e, v'.edge k = some e → v.edge k = some e) : v'.Settled := by
  have isLocal : ∀ id, v'.IsLocal id ↔ v.IsLocal id := by
    intro id
    unfold IsLocal
    rw [core]
  refine ⟨fun id c found => ?_, fun k e found => ?_⟩
  · rw [rank]
    exact settled.located id c (by rw [← core]; exact found)
  · rw [edgeState_congr isLocal]
    exact settled.joined k e (edge k e found)

theorem addEdge (settled : v.Settled) {k : Id n} {e : DistributedEdge n W}
    (state : e.state = v.edgeState e.source e.target) (edge : v'.edge = Function.update v.edge k (some e))
    (rank : v'.rank = v.rank) (core : v'.core = v.core) : v'.Settled := by
  have isLocal : ∀ id, v'.IsLocal id ↔ v.IsLocal id := by
    intro id
    unfold IsLocal
    rw [core]
  refine ⟨fun id c found => ?_, fun j e' found => ?_⟩
  · rw [rank]
    exact settled.located id c (by rw [← core]; exact found)
  · rw [edgeState_congr isLocal]
    rw [edge, Function.update_apply] at found
    split at found
    · cases found
      exact state
    · exact settled.joined j e' found

theorem setCore (settled : v.Settled) {id : Id n} {core : NodeCore n T W}
    (located : core.state = .LOCAL ↔ core.location = v.rank)
    (changed : v'.core = Function.update v.core id (some core)) (rank : v'.rank = v.rank)
    (edge : v'.edge = v.edge)
    (same : (∃ before, v.core id = some before ∧ before.state = core.state) ∨
      ∀ k e, v.edge k = some e → ¬ e.Touches id) : v'.Settled := by
  have elsewhere : ∀ other, other ≠ id → (v'.IsLocal other ↔ v.IsLocal other) := by
    intro other differs
    unfold IsLocal
    rw [changed, Function.update_of_ne differs]
  refine ⟨fun other c found => ?_, fun k e found => ?_⟩
  · rw [changed, Function.update_apply] at found
    rw [rank]
    split at found
    · cases found
      exact located
    · exact settled.located other c found
  · rw [edge] at found
    rw [settled.joined k e found]
    have isLocal : ∀ other, (other = e.source ∨ other = e.target) → (v'.IsLocal other ↔ v.IsLocal other) := by
      intro other isEnd
      by_cases here : other = id
      · subst here
        rcases same with ⟨before, found', state⟩ | untouched
        · unfold IsLocal
          rw [changed, Function.update_self, found']
          simp [state]
        · exact absurd (isEnd.imp Eq.symm Eq.symm) (untouched k e found)
      · exact elsewhere other here
    unfold edgeState
    simp only [isLocal _ (.inl rfl), isLocal _ (.inr rfl)]

end GraphView.Settled

end Fpmas.Graph

namespace Fpmas.Synchro.Ghost

open Fpmas.Graph

variable {n : Nat} {T W : Type}

-- The graph of a process whose nodes and edges are settled.
structure SettledGraph (g : DistributedGraph n T W) : Prop where
  inv : GraphInv g
  settled : g.view.Settled

namespace SettledGraph

variable {g g' : DistributedGraph n T W} {s t : GhostProcess n T W}

theorem eraseEdge (whole : SettledGraph g) {k : Id n} (taken : g.eraseEdge k = some g') :
    SettledGraph g' := by
  obtain ⟨e, found, _⟩ := Option.bind_eq_some_iff.mp taken
  obtain ⟨_, result, inv, view⟩ := whole.inv.eraseEdge found
  cases taken.symm.trans result
  refine ⟨inv, ?_⟩
  rw [view]
  refine whole.settled.shrink rfl rfl fun j e' stored => ?_
  by_cases same : j = k
  · subst same
    cases stored.symm.trans (Function.update_self _ _ _)
  · exact (Function.update_of_ne same _ _).symm.trans stored

theorem unlink (whole : SettledGraph s.graph) {k : Id n} (taken : s.unlink k = some t) :
    SettledGraph t.graph := by
  obtain ⟨_, _, erased⟩ := Option.bind_eq_some_iff.mp taken
  obtain ⟨_, step, rfl⟩ := Option.map_eq_some_iff.mp erased
  exact whole.eraseEdge step

theorem unlinkNode (whole : SettledGraph s.graph) {order : HashOrder} {id : Id n}
    (taken : s.unlinkNode order id = some t) : SettledGraph t.graph := by
  obtain ⟨_, _, taken⟩ := Option.bind_eq_some_iff.mp taken
  obtain ⟨middle, first, taken⟩ := Option.bind_eq_some_iff.mp taken
  obtain ⟨_, _, second⟩ := Option.bind_eq_some_iff.mp taken
  have between : SettledGraph middle.graph :=
    List.foldlM_kept (P := fun s : GhostProcess n T W => SettledGraph s.graph)
      (fun _ _ _ _ kept step => kept.unlink step) whole first
  exact List.foldlM_kept (P := fun s : GhostProcess n T W => SettledGraph s.graph)
    (fun _ _ _ _ kept step => kept.unlink step) between second

theorem removeNode (whole : SettledGraph s.graph) {order : HashOrder} {id : Id n}
    (taken : s.removeNode order id = some t) : SettledGraph t.graph := by
  obtain ⟨node, _, taken⟩ := Option.bind_eq_some_iff.mp taken
  obtain ⟨unlinked, step, rfl⟩ := Option.map_eq_some_iff.mp taken
  cases state : node.state with
  | LOCAL =>
    rw [state] at step
    have unlinkedAll : SettledGraph unlinked.graph := whole.unlinkNode step
    exact unlinkedAll
  | DISTANT =>
    rw [state] at step
    cases step
    exact whole

theorem setData (whole : SettledGraph s.graph) {id : Id n} {data : T} {weight : W}
    (taken : s.setData id data weight = some t) : SettledGraph t.graph := by
  obtain ⟨node, at_, rfl⟩ := Option.map_eq_some_iff.mp taken
  have found : s.graph.view.core id = some node.core := by
    rw [DistributedGraph.view_core, at_, Option.map_some]
  let updated : DistributedNode n T W :=
    { node with
      data
      weight }
  have before := whole.settled.located id node.core found
  have located : updated.core.state = .LOCAL ↔ updated.core.location = s.graph.view.rank := before
  obtain ⟨inv, view⟩ := whole.inv.setNode updated at_ rfl rfl rfl
  refine ⟨inv, ?_⟩
  show (s.graph.setNode id updated).view.Settled
  rw [view]
  exact whole.settled.setCore located rfl rfl rfl (.inl ⟨_, found, rfl⟩)

theorem buildNode [One W] (whole : SettledGraph s.graph) {data : T}
    (fresh : s.graph.getNode s.graph.nodeId = none) (taken : s.buildNode data = some t) :
    SettledGraph t.graph := by
  obtain ⟨g, built, rfl⟩ := Option.map_eq_some_iff.mp taken
  obtain ⟨_, result, inv, view⟩ := whole.inv.buildNode data fresh
  cases built.symm.trans result
  refine ⟨inv, ?_⟩
  show g.view.Settled
  rw [view]
  refine whole.settled.setCore (iff_of_true rfl rfl) rfl rfl rfl (.inr fun k e found touches => ?_)
  obtain ⟨source, atSource⟩ := whole.inv.source k e found
  obtain ⟨target, atTarget⟩ := whole.inv.target k e found
  rcases touches with same | same
  · cases fresh.symm.trans (same ▸ atSource)
  · cases fresh.symm.trans (same ▸ atTarget)

theorem link [One W] (whole : SettledGraph s.graph) {source target : Id n} {layer : LayerId}
    (fresh : s.graph.getEdge s.graph.edgeId = none) (taken : s.link source target layer = some t) :
    SettledGraph t.graph := by
  obtain ⟨⟨g, e⟩, built, rfl⟩ := Option.map_eq_some_iff.mp taken
  obtain ⟨atSource, atTarget⟩ := DistributedGraph.buildEdge_ends built
  obtain ⟨_, built', inv, view⟩ := whole.inv.buildEdge layer fresh atSource atTarget
  cases built.symm.trans built'
  refine ⟨inv, ?_⟩
  rw [view]
  exact whole.settled.addEdge rfl rfl rfl rfl

theorem call [One W] {G : GlobalGraph n T W} {s : GhostSystem n T W} (period : Period G s)
    (whole : ∀ p, SettledGraph (s p).graph) {made : GhostCall n T W} {t : GhostSystem n T W}
    (taken : s.call made = some t) (p : Fin n) : SettledGraph (t p).graph := by
  obtain ⟨process, step, rfl⟩ := Option.map_eq_some_iff.mp taken
  have freshNode : ∀ q, (s q).graph.getNode (s q).graph.nodeId = none := fun q =>
    Option.map_eq_none_iff.mp (period.running.hosts.node_fresh q q).2
  have freshEdge : ∀ q, (s q).graph.getEdge (s q).graph.edgeId = none := fun q =>
    (period.running.edge_fresh q q).2
  have changed : SettledGraph process.graph := by
    cases made with
    | buildNode q data => exact (whole q).buildNode (freshNode q) step
    | setData q node data weight => exact (whole q).setData step
    | link q source target layer => exact (whole q).link (freshEdge q) step
    | unlink q edge => exact (whole q).unlink step
    | removeNode q order node => exact (whole q).removeNode step
  by_cases same : p = made.process
  · subst same
    rw [Function.update_self]
    exact changed
  · rw [Function.update_of_ne same]
    exact whole p

end SettledGraph

theorem Synchronized.settledGraph {G : GlobalGraph n T W} {s : GhostSystem n T W}
    (synced : Synchronized G s) (p : Fin n) : SettledGraph (s p).graph := by
  have hosts := synced.represents.toHosts
  have rank : (s p).graph.view.rank = p := hosts.rank p
  refine ⟨synced.graph p, fun id core found => ?_, fun k e found => ?_⟩
  · obtain ⟨node, inside, elsewhere⟩ := hosts.ghost p id core found
    rw [rank]
    by_cases here : p = node.owner
    · subst here
      cases found.symm.trans (hosts.home id node inside)
      exact iff_of_true rfl rfl
    · obtain ⟨state, location⟩ := elsewhere here
      rw [state, location]
      exact iff_of_false (fun absurd_ => nomatch absurd_) (Ne.symm here)
  · obtain ⟨edge, _, _, rfl⟩ := GlobalGraph.edgeAt_eq_some.mp ((synced.represents.edges p k).symm.trans found)
    have owns : ∀ id, (s p).graph.view.IsLocal id ↔ G.Owns p id := hosts.isLocal p
    show G.stateAt p edge = GraphView.edgeState _ edge.source edge.target
    unfold GraphView.edgeState GlobalGraph.stateAt
    simp only [owns]

theorem reachable_settled [One W] {light : T → T} {s : GhostSystem n T W}
    (reached : (ghost n T W light).ReachableBy (fun s a => a.Keeps light s) s) (p : Fin n) :
    SettledGraph (s p).graph := by
  have whole : (∃ G, Period G s) ∧ ∀ p, SettledGraph (s p).graph := by
    refine reached.invariant (I := fun s => (∃ G, Period G s) ∧ ∀ p, SettledGraph (s p).graph) ?_ ?_
    · rintro s rfl
      exact ⟨⟨_, synchronized_empty.period⟩, synchronized_empty.settledGraph⟩
    · rintro s action t _ ⟨⟨G, period⟩, whole⟩ keeps taken
      obtain ⟨G', period', synced⟩ := period.next keeps taken
      refine ⟨⟨G', period'⟩, ?_⟩
      cases action with
      | call made => exact SettledGraph.call period whole taken
      | _ => exact (synced trivial).settledGraph
  exact whole.2 p

/-- A process gets its graph back from its dump if it has a node, unless it is left in the middle of an
import. -/
theorem json_round_trip_iff [One W] [Inhabited T] (light : T → T) (order dump : HashOrder) (p : Fin n) :
    (∀ s, (graphs n T W light).ReachableBy (fun s a => a.Genuine s) s →
      (RoundTrips order dump (s p).graph ↔
        (∃ id node, (s p).graph.getNode id = some node) ∧ (s p).graph.view.Settled)) ∧
    ∀ s, (ghost n T W light).ReachableBy (fun s a => a.Keeps light s) s →
      (RoundTrips order dump (s p).graph ↔ ∃ id node, (s p).graph.getNode id = some node) := by
  constructor
  · exact fun s reached => (reachable_kept reached p).wf.inv.round_trips_iff order dump
  · intro s reached
    have whole := reachable_settled reached p
    exact (whole.inv.round_trips_iff order dump).trans (and_iff_left whole.settled)

theorem loop_round_trips : ∃ s, (ghost 1 Unit Nat id).exec .empty
    [.call (.buildNode 0 ()), .call (.link 0 ⟨0, 0⟩ ⟨0, 0⟩ 0)] = some s ∧
      RoundTrips .insertion .insertion (s 0).graph := by
  have run : ((ghost 1 Unit Nat id).exec .empty
      [.call (.buildNode 0 ()), .call (.link 0 ⟨0, 0⟩ ⟨0, 0⟩ 0)]).map (fun s =>
        ((s 0).graph.getNode ⟨0, 0⟩).isSome) = some true := by decide
  obtain ⟨s, taken, present⟩ := Option.map_eq_some_iff.mp run
  obtain ⟨node, at_⟩ := Option.isSome_iff_exists.mp present
  have reached : (ghost 1 Unit Nat id).ReachableBy (fun s a => a.Keeps id s) s :=
    TransitionSystem.ReachableBy.exec _ (.start rfl) (by simp [GhostAction.Keeps]) taken
  exact ⟨s, taken, ((json_round_trip_iff id .insertion .insertion 0).2 s reached).mpr ⟨_, node, at_⟩⟩

theorem empty_graph_lost : ∃ s, (graphs 1 Unit Nat id).ReachableBy (fun s a => a.Genuine s) s ∧
    ¬ RoundTrips .insertion .insertion (s 0).graph := by
  refine ⟨AddressedGraph.empty, .start rfl, fun ⟨h, loaded, _⟩ => ?_⟩
  have fails : (DistributedGraph.empty 0 : DistributedGraph 1 Unit Nat).fromJson .insertion
      ((DistributedGraph.empty 0).toJson .insertion) = none := rfl
  cases loaded.symm.trans fails

end Fpmas.Synchro.Ghost
