import Fpmas.Synchro.Ghost.CommitRemovals

set_option autoImplicit false

namespace Fpmas.Synchro.Ghost

open Fpmas.Graph

variable {n : Nat} {T W : Type}

/-- A node that leaves a process leaves it once. -/
structure RemovedOnce (s : GhostSystem n T W) : Prop where
  each : ∀ p, (s p).linker.localNodesToRemove.Nodup
  apart : ∀ p q id, id ∈ (s p).linker.localNodesToRemove → id ∈ (s q).linker.localNodesToRemove →
    p = q

-- Another process asks the owner `p` of the node for its removal.
def Requested (G : GlobalGraph n T W) (s : GhostSystem n T W) (p : Fin n) (id : Id n) : Prop :=
  G.Owns p id ∧ ∃ q, q ≠ p ∧ id ∈ (s q).linker.localNodesToRemove

def Erased (G : GlobalGraph n T W) (s : GhostSystem n T W) (p : Fin n) (id : Id n) : Prop :=
  id ∈ (s p).linker.localNodesToRemove ∨ Requested G s p id

theorem Removals.mem_requests {G : GlobalGraph n T W} {s : GhostSystem n T W}
    (removals : Removals G s) {order : Fin n → HashOrder} {p : Fin n} {id : Id n} :
    id ∈ requests order s p ↔ Requested G s p id := by
  rw [Ghost.mem_requests]
  simp only [removals.requested]
  constructor
  · rintro ⟨q, member⟩
    split at member
    case isTrue => cases member
    case isFalse other =>
      obtain ⟨removed, owned⟩ := List.mem_filter.mp member
      exact ⟨of_decide_eq_true owned, q, Ne.symm other, removed⟩
  · rintro ⟨owned, q, other, removed⟩
    refine ⟨q, ?_⟩
    rw [if_neg (Ne.symm other)]
    exact List.mem_filter.mpr ⟨removed, decide_eq_true owned⟩

-- The nodes that the processes erase are distinct exactly when nobody else removes them too.
theorem Period.removedOnce {G : GlobalGraph n T W} {s : GhostSystem n T W} (period : Period G s)
    (order : Fin n → HashOrder) :
    (∀ p, ((s p).linker.localNodesToRemove ++ requests order s p).Nodup) ↔ RemovedOnce s := by
  have removals := period.removals
  constructor
  · intro once
    refine ⟨fun p => (List.nodup_append.mp (once p)).1, fun p q id mine yours => ?_⟩
    by_contra other
    obtain ⟨node, inside⟩ := period.node mine
    have owned : G.Owns node.owner id := ⟨node, inside, rfl⟩
    have local_ : ∀ r r', id ∈ (s r).linker.localNodesToRemove →
        id ∈ (s r').linker.localNodesToRemove → r ≠ r' → r = node.owner → False := by
      intro r r' here there apart owner
      subst owner
      have asked : id ∈ requests order s node.owner :=
        removals.mem_requests.mpr ⟨owned, r', Ne.symm apart, there⟩
      exact (List.nodup_append.mp (once node.owner)).2.2 id here id asked rfl
    by_cases first : p = node.owner
    · exact local_ p q mine yours other first
    by_cases second : q = node.owner
    · exact local_ q p yours mine (Ne.symm other) second
    -- Two processes ask the owner for the removal of the node.
    have asks : ∀ r, r ≠ node.owner → id ∈ (s r).linker.localNodesToRemove →
        id ∈ (migrate (fun q => (s q).linker.removeNodeBuffer) node.owner).valuesAt r := by
      intro r away removed
      rw [valuesAt_migrate, removals.requested, if_neg (Ne.symm away)]
      exact List.mem_filter.mpr ⟨removed, decide_eq_true owned⟩
    exact other (UnorderedMap.apart_of_nodup_flatten (List.nodup_append.mp (once node.owner)).2.1
      (asks p first mine) (asks q second yours))
  · intro once p
    rw [List.nodup_append]
    refine ⟨once.each p, ?_, ?_⟩
    · apply UnorderedMap.nodup_flatten
      · intro q
        rw [valuesAt_migrate, removals.requested]
        split
        · exact List.nodup_nil
        · exact (once.each q).filter _
      · intro q r id left right
        rw [valuesAt_migrate, removals.requested] at left right
        split at left
        · cases left
        split at right
        · cases right
        exact once.apart q r id (List.mem_filter.mp left).1 (List.mem_filter.mp right).1
    · intro id mine id' asked same
      subst same
      obtain ⟨_, q, other, yours⟩ := removals.mem_requests.mp asked
      exact other (once.apart q p id yours mine)

section

variable {G : GlobalGraph n T W} {s : GhostSystem n T W}

open GlobalGraph

-- Once the unlinks have been imported and the edges of other processes cleared, a process has exactly the
-- edges of its own nodes.
theorem Running.settle {toClear : Fin n → List (Id n)}
    (run : Running G (fun p k => k ∈ toClear p) s) (order : HashOrder)
    (imported : ∀ q, (s q).linker.linkBuffer = []) {p : Fin n} (once : (toClear p).Nodup) :
    ∃ y z, (s p).importUnlinks order (migrate (fun q => (s q).linker.unlinkMigration) p) = some y ∧
      y.clearEdges (toClear p) = some z ∧ GraphInv z.graph ∧
      z.view = { (s p).view with edge := G.edgeAt p } ∧
      z.linker = { (s p).linker with unlinkMigration := ∅ } := by
  let unlinks := (migrate (fun q => (s q).linker.unlinkMigration) p).flatten order
  have told : ∀ k, k ∈ unlinks ↔ ∃ q, k ∈ (s q).linker.unlinkMigration.valuesAt p := by
    intro k
    rw [UnorderedMap.mem_flatten]
    exact exists_congr fun q => by rw [valuesAt_migrate]
  obtain ⟨g, erased, inv, view⟩ := (run.graph p).erasePresent unlinks
  have left : ∀ k e, g.getEdge k = some e ↔ (s p).view.edge k = some e ∧ k ∉ unlinks := by
    intro k e
    rw [← DistributedGraph.view_edge, view]
    exact GraphView.eraseEdges_edge
  have present : ∀ k ∈ toClear p, ∃ e, g.getEdge k = some e := by
    intro k clear
    obtain ⟨e, found, _⟩ := run.cleared p k clear
    refine ⟨e, (left k e).mpr ⟨found, fun member => ?_⟩⟩
    obtain ⟨q, pending⟩ := (told k).mp member
    exact (run.unlinked q p k pending).2.1 clear
  obtain ⟨h, cleared, inv', view'⟩ := inv.eraseEdges once present
  refine ⟨{ graph := g, linker := { (s p).linker with unlinkMigration := ∅ } },
    { graph := h, linker := { (s p).linker with unlinkMigration := ∅ } }, ?_, ?_, inv', ?_, rfl⟩
  · unfold GhostProcess.importUnlinks
    rw [erased, Option.map_some]
  · unfold GhostProcess.clearEdges
    rw [cleared, Option.map_some]
  · show h.view = _
    rw [view', view]
    ext1 <;> try rfl
    funext k
    ext e
    rw [GraphView.eraseEdges_edge, GraphView.eraseEdges_edge]
    constructor
    · rintro ⟨⟨found, silent⟩, kept⟩
      cases inside : G.edge k with
      | some edge =>
        exact (run.committed k edge inside (by simp [imported]) p kept).symm.trans found
      | none =>
        obtain ⟨_, q, pending⟩ := run.stale p k e found inside kept
        exact absurd ((told k).mpr ⟨q, pending⟩) silent
    · intro found
      obtain ⟨edge, inside, owned, _⟩ := edgeAt_eq_some.mp found
      have kept : k ∉ toClear p := by
        intro clear
        obtain ⟨e', _, source, target, same⟩ := run.cleared p k clear
        rw [same edge inside] at source target
        exact owned.elim source target
      refine ⟨⟨(run.committed k edge inside (by simp [imported]) p kept).trans found, ?_⟩, kept⟩
      intro member
      obtain ⟨q, pending⟩ := (told k).mp member
      cases inside.symm.trans (run.unlinked q p k pending).1

end

theorem eraseNodes_spec {s : GhostProcess n T W} (inv : GraphInv s.graph) (order : HashOrder)
    (present : ∀ id, id ∈ s.linker.localNodesToRemove ∨ id ∈ s.linker.removeNodeBuffer.flatten order →
      ∃ core, s.view.core id = some core) :
    ((s.linker.localNodesToRemove ++ s.linker.removeNodeBuffer.flatten order).Nodup →
      ∃ y, s.eraseNodes order = some y ∧ GraphInv y.graph ∧
        y.view = s.view.eraseNodes (fun id => id ∈ s.linker.localNodesToRemove ∨
          id ∈ s.linker.removeNodeBuffer.flatten order) ∧
        y.linker = { s.linker with removeNodeBuffer := ∅, localNodesToRemove := [] }) ∧
    (∀ y, s.eraseNodes order = some y →
      (s.linker.localNodesToRemove ++ s.linker.removeNodeBuffer.flatten order).Nodup) := by
  have read : ((s.linker.removeNodeBuffer.flatten order).mapM fun id =>
      (s.graph.getNode id).map fun _ => id) = some (s.linker.removeNodeBuffer.flatten order) := by
    apply List.mapM_self
    intro id member
    obtain ⟨core, found⟩ := present id (.inr member)
    obtain ⟨node, at_, _⟩ := DistributedGraph.getNode_of_view (g := s.graph) rfl found
    rw [at_, Option.map_some]
  unfold GhostProcess.eraseNodes
  rw [read, Option.bind_some]
  constructor
  · intro once
    obtain ⟨g, erased, inv', view⟩ := inv.eraseNodes order once fun id member =>
      present id (List.mem_append.mp member)
    refine ⟨_, by rw [erased, Option.map_some], inv', ?_, rfl⟩
    simp only [List.mem_append] at view
    exact view
  · intro y result
    obtain ⟨g, erased, _⟩ := Option.map_eq_some_iff.mp result
    exact (inv.eraseNodes_once erased).1

/-- What `GhostSyncLinker::synchronize` leaves on the processes. -/
structure Committed (G : GlobalGraph n T W) (s s' : GhostSystem n T W) : Prop where
  graph : ∀ p, GraphInv (s' p).graph
  linker : ∀ p, (s' p).linker = .empty
  kept : ∀ p id core, (s p).view.core id = some core → ¬ Erased G s p id →
    (s' p).view.core id = some core
  gone : ∀ p id, Erased G s p id → (s' p).view.core id = none
  ghost : ∀ p id core, (s' p).view.core id = some core → (s p).view.core id = some core ∨
    ∃ q k edge, k ∈ (s q).linker.linkBuffer ∧ G.edge k = some edge ∧ edge.Touches id ∧
      (G.Owns p edge.source ∨ G.Owns p edge.target)
  host : ∀ p id core, (s' p).view.core id = some core → ∃ node, G.node id = some node ∧
    (p ≠ node.owner → core.state = .DISTANT ∧ core.location = node.owner)
  edge : ∀ p k e, (s' p).view.edge k = some e ↔
    (G.detach fun id => ∃ q, Requested G s q id).edgeAt p k = some e ∧
      ¬ Erased G s p e.source ∧ ¬ Erased G s p e.target
  rest : ∀ p, (s' p).view = { (s p).view with
    core := (s' p).view.core
    edge := (s' p).view.edge }

theorem Period.commitLinks [One W] {G : GlobalGraph n T W} {s : GhostSystem n T W}
    (period : Period G s) (light : T → T) (order : Fin n → HashOrder) :
    (RemovedOnce s → ∃ s', s.commitLinks light order = some s' ∧ Committed G s s') ∧
    (∀ s', s.commitLinks light order = some s' → RemovedOnce s) := by
  have removals := period.removals
  obtain ⟨links, s₁, exported, linked, first⟩ := period.running.importLinks light order
  have asked : ∀ p, requests order s₁ p = requests order s p := by
    intro p
    unfold requests
    simp only [first.linker]
  obtain ⟨s₂, unlinked, second⟩ := first.running.importRemovals order
    (fun q => by rw [first.linker])
    (fun p id member => by
      rw [asked] at member
      exact (removals.mem_requests.mp member).1)
  have run := second.running
  have detached : (fun id => ∃ p ∈ Finset.univ, id ∈ requests order s₁ p) =
      fun id => ∃ q, Requested G s q id := by
    funext id
    simp only [Finset.mem_univ, true_and, asked, removals.mem_requests]
  rw [detached] at run
  have settled := fun p => run.settle (order p) second.linkBuffer (p := p) (first.once p)
  choose y z imported cleared inv view linker using settled
  have listed : ∀ p, (z p).linker.localNodesToRemove = (s p).linker.localNodesToRemove ∧
      (z p).linker.removeNodeBuffer.flatten (order p) = requests order s p := by
    intro p
    rw [linker, second.localNodesToRemove, first.linker]
    refine ⟨rfl, ?_⟩
    rw [second.removeNodeBuffer p (Finset.mem_univ p)]
    exact asked p
  have core₂ : ∀ p, (z p).view.core = (s₁ p).view.core := by
    intro p
    obtain ⟨gone, same⟩ := second.view p
    rw [view, same]
    rfl
  have present : ∀ p id, id ∈ (z p).linker.localNodesToRemove ∨
      id ∈ (z p).linker.removeNodeBuffer.flatten (order p) → ∃ core, (z p).view.core id = some core := by
    intro p id member
    rw [(listed p).1, (listed p).2, removals.mem_requests] at member
    rw [core₂]
    rcases member with removed | ⟨⟨node, inside, owner⟩, _⟩
    · obtain ⟨core, found⟩ := removals.present p id removed
      exact ⟨core, first.core p id core found⟩
    · exact ⟨_, owner ▸ first.running.hosts.home id node inside⟩
  have erase := fun p => eraseNodes_spec (inv p) (order p) (present p)
  simp only [(listed _).1, (listed _).2] at erase
  have last : ∀ p s', ((s₂ p).importUnlinks (order p)
      (migrate (fun q => (s₂ q).linker.unlinkMigration) p)).bind (fun x =>
        (x.clearEdges (links p).2).bind fun x => x.eraseNodes (order p)) = some s' ↔
      (z p).eraseNodes (order p) = some s' := by
    intro p s'
    rw [imported, Option.bind_some, cleared, Option.bind_some]
  unfold GhostSystem.commitLinks
  rw [exported, Option.bind_some, linked, Option.bind_some, unlinked, Option.bind_some]
  constructor
  · intro once
    have nodup := (period.removedOnce order).mpr once
    obtain ⟨s', result, good⟩ := collect_some fun p => (erase p).1 (nodup p)
    have left : ∀ p, (s' p).view = (z p).view.eraseNodes (Erased G s p) := by
      intro p
      have same : (fun id => id ∈ (s p).linker.localNodesToRemove ∨ id ∈ requests order s p) =
          Erased G s p := by
        funext id
        rw [removals.mem_requests]
        rfl
      rw [(good p).2.1, same]
    have core : ∀ p id core, (s' p).view.core id = some core ↔
        (s₁ p).view.core id = some core ∧ ¬ Erased G s p id := by
      intro p id core
      rw [left, GraphView.eraseNodes_core, core₂]
    refine ⟨s', ?_, fun p => (good p).1, fun p => ?_, fun p id c found alive => ?_, fun p id erased => ?_,
      fun p id c found => ?_, fun p id c found => ?_, fun p k e => ?_, fun p => ?_⟩
    · exact collect_eq_some.mpr fun p => (last p _).mpr (collect_eq_some.mp result p)
    · rw [(good p).2.2, linker]
      simp only [second.linkBuffer]
      rfl
    · exact (core p id c).mpr ⟨first.core p id c found, alive⟩
    · rw [Option.eq_none_iff_forall_ne_some]
      exact fun c found => ((core p id c).mp found).2 erased
    · exact first.ghost p id c ((core p id c).mp found).1
    · exact first.running.hosts.ghost p id c ((core p id c).mp found).1
    · rw [left, GraphView.eraseNodes_edge, view]
    · obtain ⟨gone, same⟩ := second.view p
      rw [left, view, same, first.rest]
      rfl
  · intro s' result
    refine (period.removedOnce order).mp fun p => ?_
    exact (erase p).2 _ ((last p _).mp (collect_eq_some.mp result p))

end Fpmas.Synchro.Ghost
