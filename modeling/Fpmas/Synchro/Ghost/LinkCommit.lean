import Fpmas.Synchro.Ghost.LastingRuns

set_option autoImplicit false

namespace Fpmas.Synchro.Ghost

open Fpmas.Graph

variable {n : Nat} {T W : Type}

def GhostSystem.calls [One W] (s : GhostSystem n T W) (made : List (GhostCall n T W)) :
    Option (GhostSystem n T W) :=
  made.foldlM GhostSystem.call s

def LinkedBy [One W] (s : GhostSystem n T W) (made : List (GhostCall n T W)) (k : Id n)
    (edge : GlobalEdge n W) : Prop :=
  ∃ before p after m, made = before ++ .link p edge.source edge.target edge.layer :: after ∧
    s.calls before = some m ∧ k = (m p).graph.edgeId ∧ edge.weight = 1

def UnlinkedBy (made : List (GhostCall n T W)) (k : Id n) : Prop :=
  ∃ p, .unlink p k ∈ made

section

variable [One W] {G : GlobalGraph n T W} {s t : GhostSystem n T W}

theorem calls_cons {first : GhostCall n T W} {rest : List (GhostCall n T W)} :
    s.calls (first :: rest) = some t ↔ ∃ m, s.call first = some m ∧ m.calls rest = some t := by
  unfold GhostSystem.calls
  rw [List.foldlM_cons]
  exact Option.bind_eq_some_iff

theorem linkedBy_cons {first : GhostCall n T W} {rest : List (GhostCall n T W)} {k : Id n}
    {edge : GlobalEdge n W} : LinkedBy s (first :: rest) k edge ↔
      (∃ p, first = .link p edge.source edge.target edge.layer ∧ k = (s p).graph.edgeId ∧
        edge.weight = 1) ∨ ∃ m, s.call first = some m ∧ LinkedBy m rest k edge := by
  constructor
  · rintro ⟨before, p, after, m, split, reached, id, weight⟩
    cases before with
    | nil =>
      obtain ⟨rfl, rfl⟩ := List.cons.inj split
      cases reached
      exact .inl ⟨p, rfl, id, weight⟩
    | cons head tail =>
      obtain ⟨rfl, rfl⟩ := List.cons.inj split
      obtain ⟨m', step, later⟩ := calls_cons.mp reached
      exact .inr ⟨m', step, tail, p, after, m, rfl, later, id, weight⟩
  · rintro (⟨p, rfl, id, weight⟩ | ⟨m', step, before, p, after, m, rfl, reached, id, weight⟩)
    · exact ⟨[], p, rest, s, rfl, rfl, id, weight⟩
    · exact ⟨first :: before, p, after, m, rfl, calls_cons.mpr ⟨m', step, reached⟩, id, weight⟩

omit [One W] in
-- The edges that are known somewhere have ids that their processes have used.
theorem Period.issued (period : Period G s) {p : Fin n} {k : Id n} {e : DistributedEdge n W}
    (found : (s p).view.edge k = some e) : k.id < (s k.rank).view.edgeId.id := by
  have run := period.running
  cases inside : G.edge k with
  | some edge => exact run.hosts.edgesIssued k edge inside
  | none =>
    obtain ⟨_, q, told⟩ := run.stale p k e found inside not_false
    exact (run.unlinked q p k told).2.2

-- A new edge takes an id that no process has used.
theorem Period.linkedBy_fresh (period : Period G s) {made : List (GhostCall n T W)}
    (keeps : ∀ c ∈ made, ¬ c.Removes) {k : Id n} {edge : GlobalEdge n W}
    (linked : LinkedBy s made k edge) : (s k.rank).view.edgeId.id ≤ k.id := by
  induction made generalizing G s with
  | nil =>
    obtain ⟨before, p, after, m, split, _⟩ := linked
    cases before <;> cases split
  | cons first rest ih =>
    rcases linkedBy_cons.mp linked with ⟨p, rfl, rfl, _⟩ | ⟨m, step, later⟩
    · have rank : (s p).graph.edgeId.rank = p := period.running.hosts.edgeId p
      rw [rank]
      exact Nat.le_refl _
    · have first' := keeps first List.mem_cons_self
      have bound := ih (period.call step) (fun c member => keeps c (List.mem_cons_of_mem first member))
        later
      exact Nat.le_trans (period.call_edgeId first' step k.rank).1 bound

theorem owns_graph {made : GhostCall n T W} (fresh : ∀ p, G.node (s p).view.nodeId = none)
    {id : Id n} {node : GlobalNode n T W} (inside : G.node id = some node) :
    ∃ node', (made.graph s G).node id = some node' ∧ node'.owner = node.owner := by
  cases made with
  | buildNode p data =>
    refine ⟨node, ?_, rfl⟩
    refine (GlobalGraph.buildNode_node _ _ _ _).trans ((if_neg ?_).trans inside)
    rintro rfl
    cases (fresh p).symm.trans inside
  | setData p id' data weight =>
    refine ⟨_, congrArg (Option.map _) inside, ?_⟩
    dsimp only
    split <;> rfl
  | link p source target layer => exact ⟨node, inside, rfl⟩
  | unlink p k => exact ⟨node, inside, rfl⟩
  | removeNode p order id' => exact ⟨node, inside, rfl⟩

theorem Period.calls (period : Period G s) {made : List (GhostCall n T W)}
    (keeps : ∀ c ∈ made, ¬ c.Removes) (result : s.calls made = some t) :
    ∃ G', Period G' t ∧
      (∀ p, (t p).linker.localNodesToRemove = (s p).linker.localNodesToRemove) ∧
      (∀ id node, G.node id = some node →
        ∃ node', G'.node id = some node' ∧ node'.owner = node.owner) ∧
      (∀ k, UnlinkedBy made k → G'.edge k = none) ∧
      (∀ k edge, LinkedBy s made k edge → ¬ UnlinkedBy made k → G'.edge k = some edge) ∧
      (∀ k, (∀ edge, ¬ LinkedBy s made k edge) → ¬ UnlinkedBy made k → G'.edge k = G.edge k) := by
  induction made generalizing G s with
  | nil =>
    cases result
    refine ⟨G, period, fun _ => rfl, fun id node inside => ⟨node, inside, rfl⟩, ?_, ?_, fun _ _ _ => rfl⟩
    · rintro k ⟨p, member⟩
      cases member
    · rintro k edge ⟨before, p, after, m, split, _⟩
      cases before <;> cases split
  | cons first rest ih =>
    obtain ⟨m, step, later⟩ := calls_cons.mp result
    have keepsFirst := keeps first List.mem_cons_self
    have keepsRest := fun c member => keeps c (List.mem_cons_of_mem first member)
    have next := period.call step
    have counted := fun p => (period.call_edgeId keepsFirst step p).1
    obtain ⟨G', period', removed, nodes, unlinked, linked, unchanged⟩ := ih next keepsRest later
    have unlinkedRest : ∀ k, UnlinkedBy rest k → UnlinkedBy (first :: rest) k :=
      fun k linked => linked.imp fun _ member => List.mem_cons_of_mem first member
    have used : ∀ k edge, k.id < (m k.rank).view.edgeId.id → ¬ LinkedBy m rest k edge :=
      fun k edge issued relinked =>
        absurd (next.linkedBy_fresh keepsRest relinked) (Nat.not_le_of_lt issued)
    refine ⟨G', period', fun p => ?_, fun id node inside => ?_, fun k gone => ?_,
      fun k edge made kept => ?_, fun k unmade kept => ?_⟩
    · rw [removed, (period.call_edgeId keepsFirst step p).2]
    · obtain ⟨node', inside', owner⟩ := owns_graph
        (fun p => (period.running.hosts.node_fresh p p).1) (s := s) inside
      obtain ⟨node'', inside'', owner'⟩ := nodes id node' inside'
      exact ⟨node'', inside'', owner'.trans owner⟩
    · by_cases again : UnlinkedBy rest k
      · exact unlinked k again
      obtain ⟨p, member⟩ := gone
      rcases List.mem_cons.mp member with rfl | inside
      · -- The id of the edge is never used again.
        obtain ⟨_, applied, _⟩ := Option.map_eq_some_iff.mp step
        obtain ⟨_, buffered, _⟩ := Option.bind_eq_some_iff.mp applied
        obtain ⟨e, found, _⟩ := Option.bind_eq_some_iff.mp buffered
        have issued := period.issued (p := p) (k := k) (e := e) found
        rw [unchanged k (fun edge => used k edge (Nat.lt_of_lt_of_le issued (counted k.rank))) again]
        exact (GlobalGraph.unlink_edge k k).trans (if_pos rfl)
      · exact absurd ⟨p, inside⟩ again
    · rcases linkedBy_cons.mp made with ⟨p, rfl, rfl, weight⟩ | ⟨m', step', rest'⟩
      · obtain ⟨y, applied, rfl⟩ := Option.map_eq_some_iff.mp step
        have edgeId : y.view.edgeId = (s p).view.edgeId.next := by
          rcases (period.apply_keeps keepsFirst applied).2 with ⟨_, other⟩ | next
          · exact absurd rfl (other p edge.source edge.target edge.layer)
          · exact next
        have rank : (s p).graph.edgeId.rank = p := period.running.hosts.edgeId p
        rw [unchanged _ (fun edge' => used _ edge' ?_) fun again => kept (unlinkedRest _ again)]
        · refine (GlobalGraph.link_edge _ _ _).trans ((if_pos rfl).trans ?_)
          rw [← weight]
        · rw [rank, GhostCall.process, update_at, edgeId]
          exact Nat.lt_succ_self _
      · cases step.symm.trans step'
        exact linked k edge rest' fun again => kept (unlinkedRest k again)
    · rw [unchanged k (fun edge later => unmade edge (linkedBy_cons.mpr (.inr ⟨m, step, later⟩)))
        fun again => kept (unlinkedRest k again)]
      cases first with
      | buildNode p data => rfl
      | setData p id data weight => rfl
      | link p source target layer =>
        refine (GlobalGraph.link_edge _ _ _).trans (if_neg ?_)
        rintro rfl
        exact unmade { layer, weight := 1, source, target } (linkedBy_cons.mpr (.inl ⟨p, rfl, rfl, rfl⟩))
      | unlink p k' =>
        refine (GlobalGraph.unlink_edge _ _).trans (if_neg ?_)
        rintro rfl
        exact kept ⟨p, List.mem_cons_self⟩
      | removeNode p order id => exact absurd trivial keepsFirst

omit [One W] in
-- Between a synchronization and the first call, the processes have exactly the edges of their nodes.
theorem Period.represents (period : Period G s) (idle : ∀ p, (s p).linker = .empty) :
    Represents G fun p => (s p).view := by
  have run := period.running
  refine ⟨run.hosts, fun p k => ?_⟩
  cases inside : G.edge k with
  | some edge =>
    refine run.committed k edge inside (fun q member => ?_) p not_false
    rw [idle] at member
    cases member
  | none =>
    have absent : G.edgeAt p k = none := by
      unfold GlobalGraph.edgeAt
      rw [inside, Option.bind_none]
    rw [absent]
    cases found : (s p).view.edge k with
    | none => rfl
    | some e =>
      obtain ⟨_, q, told⟩ := run.stale p k e found inside not_false
      rw [idle] at told
      cases told

-- The edge as a process has it, when it owns one of its ends.
def committedEdge (s : GhostProcess n T W) (edge : GlobalEdge n W) : Option (DistributedEdge n W) :=
  if s.view.IsLocal edge.source ∨ s.view.IsLocal edge.target then
    some (edge.stored (s.view.edgeState edge.source edge.target))
  else none

omit [One W] in
theorem Represents.committedEdge {G : GlobalGraph n T W} {s : GhostSystem n T W}
    (represents : Represents G fun p => (s p).view) {k : Id n} {edge : GlobalEdge n W}
    (inside : G.edge k = some edge) (p : Fin n) :
    (s p).graph.getEdge k = Ghost.committedEdge (s p) edge := by
  have local_ := fun id => represents.isLocal p id
  refine (represents.edges p k).trans ?_
  unfold GlobalGraph.edgeAt Ghost.committedEdge GlobalGraph.stateAt GraphView.edgeState
  simp only [inside, Option.bind_some, local_]

variable {light : T → T}

theorem links_committed (reached : (ghost n T W light).ReachableBy (fun s a => a.Keeps light s) s)
    (idle : ∀ p, (s p).linker = .empty) {made : List (GhostCall n T W)}
    (keeps : ∀ c ∈ made, ¬ c.Removes) {m : GhostSystem n T W} (result : s.calls made = some m)
    (order : Fin n → HashOrder) :
    ∃ t, m.synchronize light order = some t ∧ (∀ p, GraphInv (t p).graph) ∧
      (∀ k edge, LinkedBy s made k edge → ¬ UnlinkedBy made k →
        ∀ p, (t p).graph.getEdge k = committedEdge (t p) edge) ∧
      (∀ k, UnlinkedBy made k → ∀ p, (t p).graph.getEdge k = none) ∧
      (∀ k, (∀ edge, ¬ LinkedBy s made k edge) → ¬ UnlinkedBy made k →
        ∀ p, (t p).graph.getEdge k = (s p).graph.getEdge k) := by
  obtain ⟨G, period⟩ := reachable_period reached
  have before := period.represents idle
  obtain ⟨G', period', removed, nodes, unlinked, linked, unchanged⟩ := period.calls keeps result
  have nothing : ∀ p, (m p).linker.localNodesToRemove = [] := by
    intro p
    rw [removed, idle]
    rfl
  obtain ⟨once, apart, _⟩ := sound_of_unremoved nothing
  obtain ⟨t, synced, after⟩ := period'.synchronize light order once apart
  have kept : ∀ id, ¬ Removed m id := by
    rintro id ⟨p, member⟩
    rw [nothing] at member
    cases member
  have same : G'.removeNodes (Removed m) = G' := GlobalGraph.removeNodes_none kept
  rw [same] at after
  have represents := after.represents
  refine ⟨t, synced, after.graph, fun k edge made' kept' => ?_, fun k gone p => ?_,
    fun k unmade kept' p => ?_⟩
  · exact Represents.committedEdge represents (linked k edge made' kept')
  · refine (represents.edges p k).trans ?_
    unfold GlobalGraph.edgeAt
    rw [unlinked k gone, Option.bind_none]
  · refine (represents.edges p k).trans (Eq.trans ?_ (before.edges p k).symm)
    rw [GlobalGraph.edgeAt, unchanged k unmade kept']
    unfold GlobalGraph.edgeAt
    cases inside : G.edge k with
    | none => rfl
    | some edge =>
      obtain ⟨⟨source, atSource⟩, target, atTarget⟩ := before.closed k edge inside
      have owns : ∀ {id node}, G.node id = some node → (G'.Owns p id ↔ G.Owns p id) := by
        intro id node inside
        obtain ⟨node', inside', owner⟩ := nodes id node inside
        simp only [GlobalGraph.Owns, inside, inside', Option.some.injEq, exists_eq_left', owner]
      simp only [Option.bind_some, GlobalGraph.stateAt, owns atSource, owns atTarget]

theorem links_committed_separated : ∃ s m t : GhostSystem 2 Nat Nat,
    (s 0).view.state ⟨0, 1⟩ = some .DISTANT ∧ (s 1).view.state ⟨0, 0⟩ = some .DISTANT ∧
    ((s 1).graph.getEdge ⟨0, 0⟩).isSome ∧
    s.calls [.link 0 ⟨0, 0⟩ ⟨0, 1⟩ 1, .link 1 ⟨0, 1⟩ ⟨0, 0⟩ 2, .unlink 1 ⟨0, 0⟩] = some m ∧
    m.synchronize id (fun _ => .insertion) = some t ∧ (∀ p, GraphInv (t p).graph) ∧
    (∀ p, (t p).graph.getEdge ⟨0, 1⟩ =
      committedEdge (t p) { layer := 1, weight := 1, source := ⟨0, 0⟩, target := ⟨0, 1⟩ }) ∧
    (∀ p, (t p).graph.getEdge ⟨1, 0⟩ =
      committedEdge (t p) { layer := 2, weight := 1, source := ⟨0, 1⟩, target := ⟨0, 0⟩ }) ∧
    (∀ p, (t p).graph.getEdge ⟨0, 0⟩ = none) ∧
    (t 0).view.IsLocal ⟨0, 0⟩ ∧ (t 1).view.IsLocal ⟨0, 1⟩ := by
  have run : (((ghost 2 Nat Nat id).exec .empty (linkedRun 0 5 6)).bind fun s =>
      (s.distribute id (fun _ => .insertion) (sendOnly 0 ⟨0, 1⟩ 1)).bind fun t =>
      (t.call (.link 0 ⟨0, 0⟩ ⟨0, 1⟩ 1)).bind fun u =>
      (t.calls [.link 0 ⟨0, 0⟩ ⟨0, 1⟩ 1, .link 1 ⟨0, 1⟩ ⟨0, 0⟩ 2, .unlink 1 ⟨0, 0⟩]).bind fun v =>
      (v.synchronize id fun _ => .insertion).map fun w =>
        ([(s 0).view.state ⟨0, 1⟩, (t 0).view.state ⟨0, 1⟩, (t 1).view.state ⟨0, 0⟩,
            (w 0).view.state ⟨0, 0⟩, (w 1).view.state ⟨0, 1⟩],
          ((t 1).graph.getEdge ⟨0, 0⟩).isSome, (t 0).graph.edgeId, (u 1).graph.edgeId)) =
      some ([some .LOCAL, some .DISTANT, some .DISTANT, some .LOCAL, some .LOCAL], true, ⟨0, 1⟩,
        ⟨1, 0⟩) := by
    decide +kernel
  obtain ⟨s, built, rest⟩ := Option.bind_eq_some_iff.mp run
  obtain ⟨t, moved, rest⟩ := Option.bind_eq_some_iff.mp rest
  obtain ⟨u, first, rest⟩ := Option.bind_eq_some_iff.mp rest
  obtain ⟨v, made, rest⟩ := Option.bind_eq_some_iff.mp rest
  obtain ⟨w, synchronized, result⟩ := Option.map_eq_some_iff.mp rest
  simp only [Prod.mk.injEq, List.cons.injEq, and_true] at result
  obtain ⟨⟨second, ghost₀, ghost₁, near₀, near₁⟩, stored, id₀, id₁⟩ := result
  obtain ⟨lasting, G, synced⟩ := linked_separated built second moved
  obtain ⟨w', result, inv, linked, unlinked, _⟩ := links_committed (lasting_keeps lasting).1
    synced.linker (by simp [GhostCall.Removes]) made fun _ => .insertion
  cases synchronized.symm.trans result
  have kept : ∀ k, k ≠ ⟨0, 0⟩ → ¬ UnlinkedBy (T := Nat) (W := Nat) (n := 2)
      [.link 0 ⟨0, 0⟩ ⟨0, 1⟩ 1, .link 1 ⟨0, 1⟩ ⟨0, 0⟩ 2, .unlink 1 ⟨0, 0⟩] k := by
    rintro k other ⟨p, member⟩
    simp only [List.mem_cons, List.not_mem_nil, or_false, reduceCtorEq, false_or,
      GhostCall.unlink.injEq] at member
    exact other member.2
  refine ⟨t, v, w, ghost₀, ghost₁, stored, made, synchronized, inv, ?_, ?_, ?_,
    GraphView.isLocal_iff_state.mpr near₀, GraphView.isLocal_iff_state.mpr near₁⟩
  · exact linked _ _ ⟨[], 0, _, t, rfl, rfl, id₀.symm, rfl⟩ (kept _ (by decide))
  · refine linked _ _ ⟨[.link 0 ⟨0, 0⟩ ⟨0, 1⟩ 1], 1, _, u, rfl, ?_, id₁.symm, rfl⟩ (kept _ (by decide))
    exact calls_cons.mpr ⟨u, first, rfl⟩
  · exact unlinked _ ⟨1, by simp⟩

end

end Fpmas.Synchro.Ghost
