import Fpmas.Graph.Breakpoint

set_option autoImplicit false

namespace Fpmas.Graph

variable {n : Nat} {T W : Type}

/-- The LOCAL nodes are those that are located on the process, and the LOCAL edges those that join
two of them. -/
structure GraphView.Settled (v : GraphView n T W) : Prop where
  located : ∀ id core, v.core id = some core → (core.state = .LOCAL ↔ core.location = v.rank)
  joined : ∀ k e, v.edge k = some e → e.state = v.edgeState e.source e.target

/-- The process gets its nodes, edges, counters and managed locations back from its dump. -/
def RoundTrips [One W] [Inhabited T] (order dump : HashOrder) (g : DistributedGraph n T W) : Prop :=
  ∃ h, (DistributedGraph.empty g.rank).fromJson order (g.toJson dump) = some h ∧
    h.view.core = g.view.core ∧ h.view.edge = g.view.edge ∧ h.nodeId = g.nodeId ∧
    h.edgeId = g.edgeId ∧
    h.locationManager.managedNodesLocations.lookup = g.locationManager.managedNodesLocations.lookup

namespace GraphView

variable {v : GraphView n T W}

theorem settled_iff : v.loaded.core = v.core ∧ v.loaded.edge = v.edge ↔ v.Settled := by
  have nodes : v.loaded.core = v.core → ∀ k e, v.edge k = some e →
      (v.loaded.edge k = some e ↔ e.state = v.edgeState e.source e.target) := by
    intro core k e found
    have same : ∀ id, v.loaded.IsLocal id ↔ v.IsLocal id := by
      intro id
      unfold IsLocal
      rw [core]
    have read : v.loaded.edge k = some { e with state := v.edgeState e.source e.target } := by
      show (v.edge k).map _ = _
      rw [found, ← edgeState_congr same]
      rfl
    rw [read, Option.some.injEq]
    constructor
    · exact fun whole => congrArg DistributedEdge.state whole.symm
    · exact fun state => by rw [← state]
  constructor
  · rintro ⟨core, edge⟩
    refine ⟨fun id before found => ?_, fun k e found => ?_⟩
    · have read : v.loaded.core id = some { before with
          state := if before.location = v.rank then LocationState.LOCAL else .DISTANT } := by
        show (v.core id).map _ = _
        rw [found]
        rfl
      have state : (if before.location = v.rank then LocationState.LOCAL else .DISTANT) = before.state :=
        congrArg NodeCore.state (Option.some.inj (read.symm.trans ((congrFun core id).trans found)))
      rw [← state]
      by_cases here : before.location = v.rank
      · rw [if_pos here]
        exact iff_of_true rfl here
      · rw [if_neg here]
        exact iff_of_false (fun absurd_ => nomatch absurd_) here
    · exact (nodes core k e found).mp ((congrFun edge k).trans found)
  · intro settled
    have core : v.loaded.core = v.core := by
      funext id
      show (v.core id).map _ = v.core id
      cases found : v.core id with
      | none => rfl
      | some before =>
        have side := settled.located id before found
        obtain ⟨data, weight, location, state⟩ := before
        rw [Option.map_some]
        by_cases here : location = v.rank
        · rw [if_pos here, show state = .LOCAL from side.mpr here]
        · rw [if_neg here, show state = .DISTANT from LocationState.not_local.mp (mt side.mp here)]
    refine ⟨core, funext fun k => ?_⟩
    cases found : v.edge k with
    | none =>
      show (v.edge k).map _ = none
      rw [found]
      rfl
    | some e => exact (nodes core k e found).mpr (settled.joined k e found)

end GraphView

/-- The dump of a graph without nodes has no key to load them from. -/
theorem GraphInv.round_trips_iff [One W] [Inhabited T] {g : DistributedGraph n T W} (inv : GraphInv g)
    (order dump : HashOrder) :
    RoundTrips order dump g ↔ (∃ id node, g.getNode id = some node) ∧ g.view.Settled := by
  constructor
  · rintro ⟨h, loaded, core, edge, _⟩
    have some_ : ∃ id node, g.getNode id = some node := by
      by_contra none_
      have noCore : ∀ id, g.view.core id = none := by
        intro id
        rw [DistributedGraph.view_core, Option.map_eq_none_iff]
        by_contra present
        exact none_ ⟨id, Option.ne_none_iff_exists'.mp present⟩
      cases loaded.symm.trans (inv.fromJson_empty order noCore dump _)
    refine ⟨some_, GraphView.settled_iff.mp ?_⟩
    obtain ⟨id, node, at_⟩ := some_
    have found : g.view.core id = some node.core := by
      rw [DistributedGraph.view_core, at_, Option.map_some]
    obtain ⟨h', loaded', _, view⟩ := inv.fromJson_toJson order found dump
    cases loaded.symm.trans loaded'
    rw [← view]
    exact ⟨core, edge⟩
  · rintro ⟨⟨id, node, at_⟩, settled⟩
    have found : g.view.core id = some node.core := by
      rw [DistributedGraph.view_core, at_, Option.map_some]
    obtain ⟨core, edge⟩ := GraphView.settled_iff.mpr settled
    obtain ⟨h, loaded, _, view⟩ := inv.fromJson_toJson order found dump
    refine ⟨h, loaded, ?_, ?_, ?_, ?_, ?_⟩
    · rw [view, core]
    · rw [view, edge]
    · exact congrArg GraphView.nodeId view
    · exact congrArg GraphView.edgeId view
    · exact congrArg GraphView.managed view

end Fpmas.Graph
