import Fpmas.Graph.GraphRuns
import Fpmas.Graph.LocationAgreement

set_option autoImplicit false

namespace Fpmas.Graph

variable {n : Nat} {T W : Type} {g g' : DistributedGraph n T W}

def GraphView.Joined (v : GraphView n T W) (id : Id n) : Prop :=
  ∃ k e, v.edge k = some e ∧
    (e.target = id ∧ v.IsLocal e.source ∨ e.source = id ∧ v.IsLocal e.target)

theorem GraphView.not_isolated {v : GraphView n T W} {id : Id n} : ¬ v.Isolated id ↔ v.Joined id := by
  unfold Isolated Joined
  simp only [not_forall]
  refine exists_congr fun k => exists_congr fun e => ?_
  constructor
  · rintro ⟨found, joins⟩
    exact ⟨found, by tauto⟩
  · rintro ⟨found, joins⟩
    exact ⟨found, by tauto⟩

-- An order in which the DISTANT nodes may be visited.
structure Visits (g : DistributedGraph n T W) (ids : List (Id n)) : Prop where
  once : ids.Nodup
  distant : ∀ id, id ∈ ids ↔ g.view.IsDistant id

structure DistantCleared (g g' : DistributedGraph n T W) : Prop where
  inv : GraphInv g'
  node : ∀ id core, g'.view.core id = some core ↔
    g.view.core id = some core ∧ (core.state = .LOCAL ∨ g.view.Joined id)
  edge : ∀ k e, g'.view.edge k = some e ↔
    g.view.edge k = some e ∧ (g.view.IsLocal e.source ∨ g.view.IsLocal e.target)
  rest : g'.view = { g.view with
    core := g'.view.core
    edge := g'.view.edge }

theorem GraphView.not_isLocal_of_isDistant {v : GraphView n T W} {id : Id n} (distant : v.IsDistant id) :
    ¬ v.IsLocal id := by
  obtain ⟨core, found, state⟩ := distant
  rintro ⟨core', found', state'⟩
  cases found.symm.trans found'
  cases state.symm.trans state'

-- The nodes are in the graph when their turn comes, since only their own turn erases them.
theorem GraphInv.clearVisited (inv : GraphInv g) (order : HashOrder) {ids : List (Id n)}
    (visits : Visits g ids) {before after : List (Id n)} (split : ids = before ++ after) :
    ∃ g', g.clearNodes order before = some g' ∧ GraphInv g' ∧
      g.view.Cleared g'.view (· ∈ before) ∧ ∀ id ∈ after, ∃ node, g'.getNode id = some node := by
  have distant : ∀ id, id ∈ before ∨ id ∈ after → g.view.IsDistant id := fun id member =>
    (visits.distant id).mp (split ▸ List.mem_append.mpr member)
  have once := split ▸ visits.once
  obtain ⟨g', result, inv', view⟩ := inv.clearNodes order (List.Nodup.of_append_left once)
    fun id member => by
      obtain ⟨core, found, _⟩ := distant id (.inl member)
      exact ⟨core, found⟩
  have cleared : g.view.Cleared g'.view (· ∈ before) := by
    rw [view]
    exact GraphView.clearNodes before fun id member =>
      GraphView.not_isLocal_of_isDistant (distant id (.inl member))
  refine ⟨g', result, inv', cleared, fun id member => ?_⟩
  obtain ⟨core, found, _⟩ := distant id (.inr member)
  have same : g'.view.core id = g.view.core id := by
    rcases cleared.core id with same | ⟨earlier, _⟩
    · exact same
    · exact absurd member (List.disjoint_of_nodup_append once earlier)
  obtain ⟨node, at_, _⟩ := DistributedGraph.getNode_of_view rfl (same.trans found)
  exact ⟨node, at_⟩

theorem GraphInv.distantCleared (inv : GraphInv g) (inv' : GraphInv g') {ids : List (Id n)}
    (visits : Visits g ids) (cleared : g.view.Cleared g'.view (· ∈ ids)) : DistantCleared g g' := by
  refine ⟨inv', fun id core => ?_, fun k e => ?_, cleared.rest⟩
  · constructor
    · intro found
      have before : g.view.core id = some core := by
        rcases cleared.core id with same | ⟨_, gone⟩
        · exact same.symm.trans found
        · cases found.symm.trans gone
      refine ⟨before, ?_⟩
      cases state : core.state with
      | LOCAL => exact .inl rfl
      | DISTANT =>
        right
        rw [← GraphView.not_isolated]
        intro alone
        have member := (visits.distant id).mpr ⟨core, before, state⟩
        cases found.symm.trans (cleared.isolated id member alone)
    · rintro ⟨found, near | joined⟩
      · rcases cleared.core id with same | ⟨member, _⟩
        · exact same.trans found
        · exact absurd ⟨core, found, near⟩
            (GraphView.not_isLocal_of_isDistant ((visits.distant id).mp member))
      · exact (cleared.attached id (GraphView.not_isolated.mpr joined)).trans found
  · rw [cleared.edge]
    refine and_congr_right fun found => ?_
    -- A node that is not LOCAL is one of those that are visited.
    have listed : ¬ g.view.IsLocal e.source → e.source ∈ ids := by
      intro away
      obtain ⟨node, at_⟩ := inv.source k e found
      rw [visits.distant]
      refine ⟨node.core, by rw [DistributedGraph.view_core, at_, Option.map_some], ?_⟩
      rw [← LocationState.not_local]
      intro near
      exact away ⟨node.core, by rw [DistributedGraph.view_core, at_, Option.map_some], near⟩
    unfold GraphView.Unowned
    tauto

theorem DistantCleared.view_unique {g₁ g₂ : DistributedGraph n T W} (one : DistantCleared g g₁)
    (two : DistantCleared g g₂) : g₁.view = g₂.view := by
  have core : g₁.view.core = g₂.view.core := by
    funext id
    ext core
    rw [one.node, two.node]
  have edge : g₁.view.edge = g₂.view.edge := by
    funext k
    ext e
    rw [one.edge, two.edge]
  rw [one.rest, two.rest, core, edge]

/-- What is left of a graph does not depend on the order in which its DISTANT nodes are cleared. -/
theorem clearing_exact [One W] (light : T → T) :
    (∀ s, (graphs n T W light).ReachableBy (fun s a => a.Genuine s) s →
      ∀ p, GraphInv (s p).graph) ∧
    ∀ g : DistributedGraph n T W, GraphInv g →
      (∀ order, ∃ ids, Visits g ids ∧ g.clearDistantNodes order = g.clearNodes order ids) ∧
      (∀ order ids, Visits g ids →
        (∃ g', g.clearNodes order ids = some g' ∧ DistantCleared g g') ∧
        ∀ before id after, ids = before ++ id :: after →
          ∃ g', g.clearNodes order before = some g' ∧ ∃ node, g'.getNode id = some node) ∧
      ∀ order order' ids ids' g₁ g₂, Visits g ids → Visits g ids' →
        g.clearNodes order ids = some g₁ → g.clearNodes order' ids' = some g₂ → g₁.view = g₂.view := by
  refine ⟨fun s reached p => (reachable_kept reached p).wf.inv, fun g inv => ?_⟩
  have clears : ∀ order ids, Visits g ids →
      ∃ g', g.clearNodes order ids = some g' ∧ DistantCleared g g' := by
    intro order ids visits
    obtain ⟨g', result, inv', cleared, _⟩ := inv.clearVisited order visits (List.append_nil ids).symm
    exact ⟨g', result, inv.distantCleared inv' visits cleared⟩
  refine ⟨fun order => ?_, fun order ids visits => ⟨clears order ids visits, ?_⟩, ?_⟩
  · exact ⟨g.distantIds order, ⟨g.nodup_distantIds order, inv.mem_distantIds order⟩, rfl⟩
  · intro before id after split
    obtain ⟨g', result, _, _, present⟩ := inv.clearVisited order visits split
    exact ⟨g', result, present id List.mem_cons_self⟩
  · intro order order' ids ids' g₁ g₂ visits visits' first second
    obtain ⟨_, result, one⟩ := clears order ids visits
    cases first.symm.trans result
    obtain ⟨_, result', two⟩ := clears order' ids' visits'
    cases second.symm.trans result'
    exact one.view_unique two

-- Process 1 has the source of an edge to its node, and a DISTANT node without edges.
theorem clearing_exact_ghosts : ∃ s, (graphs 2 Unit Nat id).execBy (fun s a => a.Genuine s)
    AddressedGraph.empty
    [.call 0 .insertion (.buildNode ()), .call 0 .insertion (.buildNode ()),
      .call 0 .insertion (.buildNode ()), .call 0 .insertion (.link ⟨0, 0⟩ ⟨0, 1⟩ 0),
      .distribute (fun _ => .insertion) (fun _ => []) (fun _ => [])
        (fun p => if p = 0 then AList.insert ⟨0, 1⟩ 1 ∅ else ∅),
      .call 1 .insertion (.insertDistant ⟨⟨0, 2⟩, (), 1⟩)] = some s ∧
    (s 1).graph.view.state ⟨0, 2⟩ = some .DISTANT ∧
    ∃ g, (s 1).graph.clearDistantNodes .insertion = some g ∧ DistantCleared (s 1).graph g ∧
      g.view.state ⟨0, 0⟩ = some .DISTANT ∧ g.view.state ⟨0, 2⟩ = none := by
  have run : ((graphs 2 Unit Nat id).execBy (fun s a => a.Genuine s) AddressedGraph.empty
      [.call 0 .insertion (.buildNode ()), .call 0 .insertion (.buildNode ()),
        .call 0 .insertion (.buildNode ()), .call 0 .insertion (.link ⟨0, 0⟩ ⟨0, 1⟩ 0),
        .distribute (fun _ => .insertion) (fun _ => []) (fun _ => [])
          (fun p => if p = 0 then AList.insert ⟨0, 1⟩ 1 ∅ else ∅),
        .call 1 .insertion (.insertDistant ⟨⟨0, 2⟩, (), 1⟩)]).bind (fun s =>
      ((s 1).graph.clearDistantNodes .insertion).map fun g =>
        [(s 1).graph.view.state ⟨0, 2⟩, g.view.state ⟨0, 0⟩, g.view.state ⟨0, 2⟩]) =
      some [some .DISTANT, some .DISTANT, none] := by decide +kernel
  obtain ⟨s, taken, rest⟩ := Option.bind_eq_some_iff.mp run
  obtain ⟨g, cleared, result⟩ := Option.map_eq_some_iff.mp rest
  simp only [List.cons.injEq, and_true] at result
  obtain ⟨before, kept, gone⟩ := result
  have inv := (clearing_exact id).1 s (TransitionSystem.ReachableBy.execBy _ (.start rfl) taken) 1
  obtain ⟨ordered, each, _⟩ := (clearing_exact (W := Nat) id).2 (s 1).graph inv
  obtain ⟨ids, visits, same⟩ := ordered .insertion
  obtain ⟨⟨g', result, exact⟩, _⟩ := each .insertion ids visits
  cases (cleared.symm.trans same).trans result
  exact ⟨s, taken, before, g, cleared, exact, kept, gone⟩

end Fpmas.Graph
