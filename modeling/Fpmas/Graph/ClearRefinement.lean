import Fpmas.Graph.Refinement

set_option autoImplicit false

namespace Fpmas.Graph

variable {n : Nat} {T W : Type} {g : DistributedGraph n T W}

theorem GraphInv.neighborStates (inv : GraphInv g) (order : HashOrder) {id : Id n}
    {node : DistributedNode n T W} (at_ : g.getNode id = some node) :
    ∃ neighbors, g.neighborStates order node = some neighbors ∧
      ∀ k state, (k, state) ∈ neighbors ↔ ∃ e, g.getEdge k = some e ∧
        (e.target = id ∧ g.stateOf e.source = some state ∨
          e.source = id ∧ g.stateOf e.target = some state) := by
  have known : ∀ other, (∃ found, g.getNode other = some found) →
      ∃ state, g.stateOf other = some state := by
    rintro other ⟨found, at_⟩
    exact ⟨found.state, by rw [DistributedGraph.stateOf, at_, Option.map_some]⟩
  let through (ends : DistributedEdge n W → Id n) (k : Id n) : Option (Id n × LocationState) :=
    (g.getEdge k).bind fun edge => (g.stateOf (ends edge)).map fun state => (k, state)
  have image : ∀ ends k y, through ends k = some y ↔
      ∃ e, g.getEdge k = some e ∧ ∃ state, g.stateOf (ends e) = some state ∧ (k, state) = y := by
    intro ends k y
    simp only [through, Option.bind_eq_some_iff, Option.map_eq_some_iff]
  obtain ⟨incoming, result₁, member₁⟩ := List.mapM_some (f := through (·.source))
    (l := node.getIncomingEdges order) fun k inside => by
      obtain ⟨e, found, _⟩ := (inv.mem_getIncomingEdges order at_ k).mp inside
      obtain ⟨state, is⟩ := known _ (inv.source k e found)
      exact ⟨(k, state), (image _ _ _).mpr ⟨e, found, state, is, rfl⟩⟩
  obtain ⟨outgoing, result₂, member₂⟩ := List.mapM_some (f := through (·.target))
    (l := node.getOutgoingEdges order) fun k inside => by
      obtain ⟨e, found, _⟩ := (inv.mem_getOutgoingEdges order at_ k).mp inside
      obtain ⟨state, is⟩ := known _ (inv.target k e found)
      exact ⟨(k, state), (image _ _ _).mpr ⟨e, found, state, is, rfl⟩⟩
  refine ⟨incoming ++ outgoing, ?_, fun k state => ?_⟩
  · unfold DistributedGraph.neighborStates
    rw [result₁, Option.bind_some, result₂, Option.map_some]
  · rw [List.mem_append, member₁, member₂]
    constructor
    · rintro (⟨j, inside, found⟩ | ⟨j, inside, found⟩)
      · obtain ⟨e, found, state', is, same⟩ := (image _ _ _).mp found
        cases same
        obtain ⟨e', found', target⟩ := (inv.mem_getIncomingEdges order at_ k).mp inside
        cases found.symm.trans found'
        exact ⟨e, found, .inl ⟨target, is⟩⟩
      · obtain ⟨e, found, state', is, same⟩ := (image _ _ _).mp found
        cases same
        obtain ⟨e', found', source⟩ := (inv.mem_getOutgoingEdges order at_ k).mp inside
        cases found.symm.trans found'
        exact ⟨e, found, .inr ⟨source, is⟩⟩
    · rintro ⟨e, found, ⟨target, is⟩ | ⟨source, is⟩⟩
      · exact .inl ⟨k, (inv.mem_getIncomingEdges order at_ k).mpr ⟨e, found, target⟩,
          (image _ _ _).mpr ⟨e, found, state, is, rfl⟩⟩
      · exact .inr ⟨k, (inv.mem_getOutgoingEdges order at_ k).mpr ⟨e, found, source⟩,
          (image _ _ _).mpr ⟨e, found, state, is, rfl⟩⟩

theorem DistributedGraph.stateOf_local (id : Id n) :
    g.stateOf id = some .LOCAL ↔ g.view.IsLocal id := by
  rw [g.isLocal_iff, stateOf, Option.map_eq_some_iff]

theorem GraphInv.clearNode (inv : GraphInv g) (order : HashOrder) {id : Id n}
    {node : DistributedNode n T W} (at_ : g.getNode id = some node) :
    Refines (g.clearNode order id) (g.view.clearNode id) := by
  obtain ⟨neighbors, result, member⟩ := inv.neighborStates order at_
  have obsolete : ∀ k, (∃ state, (k, state) ∈ neighbors ∧ state ≠ .LOCAL) ↔ g.view.Obsolete id k := by
    have other : ∀ end_, (∃ found, g.getNode end_ = some found) →
        ((∃ state, g.stateOf end_ = some state ∧ state ≠ .LOCAL) ↔ ¬ g.view.IsLocal end_) := by
      rintro end_ ⟨found, here⟩
      rw [← DistributedGraph.stateOf_local, DistributedGraph.stateOf, here]
      simp
    intro k
    unfold GraphView.Obsolete
    constructor
    · rintro ⟨state, inside, notLocal⟩
      obtain ⟨e, found, ⟨target, is⟩ | ⟨source, is⟩⟩ := (member k state).mp inside
      · exact ⟨e, found, .inl ⟨target, (other _ (inv.source k e found)).mp ⟨state, is, notLocal⟩⟩⟩
      · exact ⟨e, found, .inr ⟨source, (other _ (inv.target k e found)).mp ⟨state, is, notLocal⟩⟩⟩
    · rintro ⟨e, found, ⟨target, notLocal⟩ | ⟨source, notLocal⟩⟩
      · obtain ⟨state, is, differs⟩ := (other _ (inv.source k e found)).mpr notLocal
        exact ⟨state, (member k state).mpr ⟨e, found, .inl ⟨target, is⟩⟩, differs⟩
      · obtain ⟨state, is, differs⟩ := (other _ (inv.target k e found)).mpr notLocal
        exact ⟨state, (member k state).mpr ⟨e, found, .inr ⟨source, is⟩⟩, differs⟩
  have isolated : (neighbors.all (·.2 ≠ .LOCAL) = true) ↔ g.view.Isolated id := by
    rw [List.all_eq_true]
    unfold GraphView.Isolated
    constructor
    · intro all k e found
      constructor
      · intro target isLocal
        have inside := (member k .LOCAL).mpr
          ⟨e, found, .inl ⟨target, (DistributedGraph.stateOf_local _).mpr isLocal⟩⟩
        simpa using all _ inside
      · intro source isLocal
        have inside := (member k .LOCAL).mpr
          ⟨e, found, .inr ⟨source, (DistributedGraph.stateOf_local _).mpr isLocal⟩⟩
        simpa using all _ inside
    · rintro alone ⟨k, state⟩ inside
      obtain ⟨e, found, ⟨target, is⟩ | ⟨source, is⟩⟩ := (member k state).mp inside
      · refine decide_eq_true fun (isLocal : state = .LOCAL) => ?_
        exact (alone k e found).1 target ((DistributedGraph.stateOf_local _).mp (isLocal ▸ is))
      · refine decide_eq_true fun (isLocal : state = .LOCAL) => ?_
        exact (alone k e found).2 source ((DistributedGraph.stateOf_local _).mp (isLocal ▸ is))
  unfold DistributedGraph.clearNode GraphView.clearNode
  rw [at_, Option.bind_some, result, Option.bind_some]
  by_cases alone : g.view.Isolated id
  · rw [if_pos alone, if_pos (isolated.mpr alone)]
    exact inv.eraseNode order at_
  · rw [if_neg alone, if_neg (mt isolated.mp alone)]
    have listed : ∀ k, k ∈ order.of ((neighbors.filter (·.2 ≠ .LOCAL)).map Prod.fst).dedup ↔
        g.view.Obsolete id k := by
      intro k
      rw [HashOrder.mem_of, List.mem_dedup, ← obsolete]
      simp
    rw [show g.view.Obsolete id = (· ∈ order.of ((neighbors.filter (·.2 ≠ .LOCAL)).map Prod.fst).dedup)
      from funext fun k => propext (listed k).symm]
    apply inv.eraseEdges
    · rw [HashOrder.nodup_of]
      exact List.nodup_dedup _
    · intro k inside
      obtain ⟨e, found, _⟩ := (listed k).mp inside
      exact ⟨e, found⟩

namespace GraphView

variable {v : GraphView n T W}

def Unowned (v : GraphView n T W) (e : DistributedEdge n W) : Prop :=
  ¬ v.IsLocal e.source ∧ ¬ v.IsLocal e.target

theorem clearNode_edge {id : Id n} (notLocal : ¬ v.IsLocal id) {k : Id n} {e : DistributedEdge n W} :
    (v.clearNode id).edge k = some e ↔
      v.edge k = some e ∧ ¬ (e.Touches id ∧ v.Unowned e) := by
  unfold clearNode
  by_cases alone : v.Isolated id
  · rw [if_pos alone, eraseNode_edge]
    refine and_congr_right fun found => not_congr ?_
    constructor
    · intro touches
      refine ⟨touches, ?_⟩
      rcases touches with rfl | rfl
      · exact ⟨notLocal, (alone k e found).2 rfl⟩
      · exact ⟨(alone k e found).1 rfl, notLocal⟩
    · exact And.left
  · rw [if_neg alone, eraseEdges_edge]
    refine and_congr_right fun found => not_congr ?_
    constructor
    · rintro ⟨e', found', ⟨rfl, unowned⟩ | ⟨rfl, unowned⟩⟩
      · cases found.symm.trans found'
        exact ⟨.inr rfl, unowned, notLocal⟩
      · cases found.symm.trans found'
        exact ⟨.inl rfl, notLocal, unowned⟩
    · rintro ⟨source | target, unowned⟩
      · exact ⟨e, found, .inr ⟨source, unowned.2⟩⟩
      · exact ⟨e, found, .inl ⟨target, unowned.1⟩⟩

theorem clearNode_core (id other : Id n) :
    (v.clearNode id).core other = v.core other ∨
      other = id ∧ v.Isolated id ∧ (v.clearNode id).core other = none := by
  unfold clearNode
  by_cases alone : v.Isolated id
  · rw [if_pos alone]
    by_cases same : other = id
    · exact .inr ⟨same, alone, by rw [same]; exact Function.update_self _ _ _⟩
    · exact .inl (Function.update_of_ne same _ _)
  · rw [if_neg alone]
    exact .inl rfl

theorem clearNode_isLocal {id : Id n} (notLocal : ¬ v.IsLocal id) (other : Id n) :
    (v.clearNode id).IsLocal other ↔ v.IsLocal other := by
  rcases v.clearNode_core id other with same | ⟨rfl, _, gone⟩
  · unfold IsLocal
    rw [same]
  · constructor
    · rintro ⟨core, found, _⟩
      cases gone.symm.trans found
    · exact fun isLocal => absurd isLocal notLocal

/-- What is left once the nodes `ids`, none of which is LOCAL, have been cleared. -/
structure Cleared (v v' : GraphView n T W) (ids : Id n → Prop) : Prop where
  edge : ∀ k e, v'.edge k = some e ↔
    v.edge k = some e ∧ ¬ ((ids e.source ∨ ids e.target) ∧ v.Unowned e)
  core : ∀ id, v'.core id = v.core id ∨ ids id ∧ v'.core id = none
  isolated : ∀ id, ids id → v.Isolated id → v'.core id = none
  attached : ∀ id, ¬ v.Isolated id → v'.core id = v.core id
  rest : v' = { v with
    core := v'.core
    edge := v'.edge }

-- The edges that reach a LOCAL node are never cleared, so a node is erased whenever it has none.
theorem clearNodes (ids : List (Id n)) (notLocal : ∀ id ∈ ids, ¬ v.IsLocal id) :
    Cleared v (ids.foldl clearNode v) (· ∈ ids) := by
  induction ids generalizing v with
  | nil => exact ⟨by simp, fun id => .inl rfl, by simp, fun id _ => rfl, rfl⟩
  | cons id rest ih =>
    rw [List.foldl_cons]
    have first := notLocal id List.mem_cons_self
    have stays := fun other => clearNode_isLocal first other
    have later := ih (v := v.clearNode id) fun other inside => by
      rw [stays]
      exact notLocal other (List.mem_cons_of_mem id inside)
    have unowned : ∀ e, (v.clearNode id).Unowned e ↔ v.Unowned e := by
      intro e
      unfold Unowned
      rw [stays, stays]
    have isolated : ∀ other, (v.clearNode id).Isolated other ↔ v.Isolated other := by
      intro other
      unfold Isolated
      simp only [clearNode_edge first, stays]
      constructor
      · intro alone k e found
        constructor
        · intro target isLocal
          exact (alone k e ⟨found, fun touched => touched.2.1 isLocal⟩).1 target isLocal
        · intro source isLocal
          exact (alone k e ⟨found, fun touched => touched.2.2 isLocal⟩).2 source isLocal
      · exact fun alone k e found => alone k e found.1
    refine ⟨fun k e => ?_, fun other => ?_, fun other => ?_, fun other attached => ?_, ?_⟩
    · rw [later.edge, clearNode_edge first, unowned]
      simp only [List.mem_cons, DistributedEdge.Touches]
      tauto
    · rcases later.core other with same | ⟨inside, gone⟩
      · rcases v.clearNode_core id other with same' | ⟨rfl, _, gone⟩
        · exact .inl (same.trans same')
        · exact .inr ⟨List.mem_cons_self, same.trans gone⟩
      · exact .inr ⟨List.mem_cons_of_mem id inside, gone⟩
    · intro inside alone
      rcases List.mem_cons.mp inside with rfl | inside
      · have gone : (v.clearNode other).core other = none := by
          unfold clearNode
          rw [if_pos alone]
          exact Function.update_self _ _ _
        rcases later.core other with same | ⟨_, gone'⟩
        · exact same.trans gone
        · exact gone'
      · exact later.isolated other inside ((isolated other).mpr alone)
    · rw [later.attached other (mt (isolated other).mp attached)]
      rcases v.clearNode_core id other with same | ⟨rfl, alone, _⟩
      · exact same
      · exact absurd alone attached
    · rw [later.rest]
      unfold clearNode
      split <;> rfl

end GraphView

theorem GraphInv.clearNodes (inv : GraphInv g) (order : HashOrder) {ids : List (Id n)}
    (once : ids.Nodup) (present : ∀ id ∈ ids, ∃ core, g.view.core id = some core) :
    Refines (g.clearNodes order ids) (ids.foldl GraphView.clearNode g.view) := by
  apply Refines.foldlM
    (fun v l => l.Nodup ∧ ∀ id ∈ l, ∃ core, v.core id = some core)
  · rintro g id rest inv ⟨_, present⟩
    obtain ⟨core, found⟩ := present id List.mem_cons_self
    obtain ⟨node, at_, _⟩ := DistributedGraph.getNode_of_view rfl found
    exact inv.clearNode order at_
  · rintro v id rest ⟨once, present⟩
    rw [List.nodup_cons] at once
    refine ⟨once.2, fun other inside => ?_⟩
    rcases v.clearNode_core id other with same | ⟨rfl, _, _⟩
    · rw [same]
      exact present other (List.mem_cons_of_mem id inside)
    · exact absurd inside once.1
  · exact inv
  · exact ⟨once, present⟩

end Fpmas.Graph
