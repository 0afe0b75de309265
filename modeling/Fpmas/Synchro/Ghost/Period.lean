import Fpmas.Graph.ImportRefinement
import Fpmas.Synchro.Ghost.GhostMode
import Fpmas.Synchro.HostSteps

set_option autoImplicit false

namespace Fpmas.Synchro.Ghost

open Fpmas.Graph

variable {n : Nat} {T W : Type}

namespace GhostProcess

def view (s : GhostProcess n T W) : GraphView n T W := s.graph.view

end GhostProcess

/-- What holds between two synchronizations, while `G` is the graph that the users have asked for.
`extra` are the edges that a process still has to clear. -/
structure Running (G : GlobalGraph n T W) (extra : Fin n → Id n → Prop) (s : GhostSystem n T W) :
    Prop where
  graph : ∀ p, GraphInv (s p).graph
  hosts : Hosts G fun p => (s p).view
  agree : ∀ p q k e e', (s p).view.edge k = some e → (s q).view.edge k = some e' → e.ends = e'.ends
  -- Nobody but the process that has linked it has an edge that is not committed yet.
  buffered : ∀ p k, k ∈ (s p).linker.linkBuffer → ∃ edge, G.edge k = some edge ∧
    ¬ (G.Owns p edge.source ∧ G.Owns p edge.target) ∧
    ∀ q, (s q).view.edge k = if q = p then some (edge.stored .DISTANT) else none
  once : ∀ p, (s p).linker.linkBuffer.Nodup
  committed : ∀ k edge, G.edge k = some edge → (∀ p, k ∉ (s p).linker.linkBuffer) →
    ∀ p, ¬ extra p k → (s p).view.edge k = G.edgeAt p k
  cleared : ∀ p k, extra p k → ∃ e, (s p).view.edge k = some e ∧ ¬ G.Owns p e.source ∧
    ¬ G.Owns p e.target ∧ ∀ edge, G.edge k = some edge → e = edge.stored .DISTANT
  -- A process is told of each edge that another one has unlinked.
  stale : ∀ p k e, (s p).view.edge k = some e → G.edge k = none → ¬ extra p k →
    (G.Owns p e.source ∨ G.Owns p e.target) ∧ ∃ q, k ∈ (s q).linker.unlinkMigration.valuesAt p
  unlinked : ∀ q p k, k ∈ (s q).linker.unlinkMigration.valuesAt p →
    G.edge k = none ∧ ¬ extra p k ∧ k.id < (s k.rank).view.edgeId.id

theorem bufferUnlink_spec {s : GhostProcess n T W} (inv : GraphInv s.graph) {k : Id n}
    {e : DistributedEdge n W} (found : s.view.edge k = some e) :
    ∃ linker, s.bufferUnlink k = some linker ∧
      linker.linkBuffer =
        (if e.state = .DISTANT then s.linker.linkBuffer.filter (· ≠ k) else s.linker.linkBuffer) ∧
      (∀ q j, j ∈ linker.unlinkMigration.valuesAt q ↔ j ∈ s.linker.unlinkMigration.valuesAt q ∨
        j = k ∧ e.state = .DISTANT ∧ ∃ x core, (e.source = x ∨ e.target = x) ∧
          s.view.core x = some core ∧ core.state = .DISTANT ∧ core.location = q) ∧
      linker.removeNodeBuffer = s.linker.removeNodeBuffer ∧
      linker.localNodesToRemove = s.linker.localNodesToRemove := by
  have found' : s.graph.getEdge k = some e := found
  obtain ⟨src, atSource⟩ := inv.source k e found
  obtain ⟨tgt, atTarget⟩ := inv.target k e found
  unfold GhostProcess.bufferUnlink
  rw [found', Option.bind_some]
  cases state : e.state with
  | LOCAL => exact ⟨s.linker, rfl, rfl, by simp, rfl, rfl⟩
  | DISTANT =>
    rw [if_pos rfl, atSource, Option.bind_some, atTarget, Option.map_some]
    refine ⟨_, rfl, rfl, fun q j => ?_, rfl, rfl⟩
    have pushed : ∀ (m : UnorderedMap (Fin n) (List (Id n))) (node : DistributedNode n T W),
        j ∈ (if node.state = .DISTANT then m.push node.location k else m).valuesAt q ↔
          j ∈ m.valuesAt q ∨ j = k ∧ node.state = .DISTANT ∧ node.location = q := by
      intro m node
      split
      case isTrue distant =>
        rw [UnorderedMap.valuesAt_push]
        split
        case isTrue here =>
          rw [List.mem_append, List.mem_singleton]
          simp [distant, here]
        case isFalse away => simp [Ne.symm away]
      case isFalse near => simp [near]
    dsimp only
    rw [pushed, pushed, or_assoc]
    refine or_congr_right ?_
    have core : ∀ x core, s.view.core x = some core ↔ ∃ node, s.graph.getNode x = some node ∧
        node.core = core := fun x core => Option.map_eq_some_iff
    simp only [core, true_and]
    constructor
    · rintro (⟨rfl, distant, location⟩ | ⟨rfl, distant, location⟩)
      · exact ⟨rfl, e.source, src.core, .inl rfl, ⟨src, atSource, rfl⟩, distant, location⟩
      · exact ⟨rfl, e.target, tgt.core, .inr rfl, ⟨tgt, atTarget, rfl⟩, distant, location⟩
    · rintro ⟨rfl, x, core, rfl | rfl, ⟨node, at_, rfl⟩, distant, location⟩
      · cases atSource.symm.trans at_
        exact .inl ⟨rfl, distant, location⟩
      · cases atTarget.symm.trans at_
        exact .inr ⟨rfl, distant, location⟩

structure Unlinked (s s' : GhostProcess n T W) (k : Id n) (e : DistributedEdge n W) : Prop where
  graph : GraphInv s'.graph
  view : s'.view = s.view.eraseEdge k
  linkBuffer : s'.linker.linkBuffer =
    (if e.state = .DISTANT then s.linker.linkBuffer.filter (· ≠ k) else s.linker.linkBuffer)
  unlinkMigration : ∀ q j, j ∈ s'.linker.unlinkMigration.valuesAt q ↔
    j ∈ s.linker.unlinkMigration.valuesAt q ∨
    j = k ∧ e.state = .DISTANT ∧ ∃ x core, (e.source = x ∨ e.target = x) ∧
      s.view.core x = some core ∧ core.state = .DISTANT ∧ core.location = q
  removeNodeBuffer : s'.linker.removeNodeBuffer = s.linker.removeNodeBuffer
  localNodesToRemove : s'.linker.localNodesToRemove = s.linker.localNodesToRemove

theorem unlink_spec {s : GhostProcess n T W} (inv : GraphInv s.graph) {k : Id n}
    {e : DistributedEdge n W} (found : s.view.edge k = some e) :
    ∃ s', s.unlink k = some s' ∧ Unlinked s s' k e := by
  obtain ⟨linker, result, buffer, migration, removals, nodes⟩ := bufferUnlink_spec inv found
  obtain ⟨graph, erased, inv', view⟩ := inv.eraseEdge found
  refine ⟨{ graph, linker }, ?_, inv', view, buffer, migration, removals, nodes⟩
  unfold GhostProcess.unlink
  rw [result, Option.bind_some, erased, Option.map_some]

section

variable {G : GlobalGraph n T W} {extra : Fin n → Id n → Prop} {s : GhostSystem n T W}

open GlobalGraph

theorem update_field {α : Type} (f : GhostProcess n T W → α) {p : Fin n} {y : GhostProcess n T W}
    (same : f y = f (s p)) (q : Fin n) : f (Function.update s p y q) = f (s q) := by
  rw [Function.update_apply]
  split
  case isTrue here => rw [here, same]
  case isFalse => rfl

theorem views_update {p : Fin n} (y : GhostProcess n T W) :
    Function.update (fun q => (s q).view) p y.view = fun q => (Function.update s p y q).view :=
  (Function.comp_update GhostProcess.view s p y).symm

namespace Unlinked

variable {p : Fin n} {k : Id n} {e : DistributedEdge n W} {y : GhostProcess n T W}
  (unlinked : Unlinked (s p) y k e)
include unlinked

theorem field {α : Type} (f : GraphView n T W → α) (unchanged : ∀ v : GraphView n T W, f (v.eraseEdge k) = f v)
    (q : Fin n) : f (Function.update s p y q).view = f (s q).view :=
  update_field (fun t => f t.view) (by rw [unlinked.view, unchanged]) q

theorem edge (q : Fin n) (j : Id n) : (Function.update s p y q).view.edge j =
    if q = p ∧ j = k then none else (s q).view.edge j := by
  by_cases same : q = p
  · subst same
    rw [Function.update_self, unlinked.view]
    simp only [GraphView.eraseEdge, Function.update_apply, true_and]
  · rw [Function.update_of_ne same, if_neg fun both => same both.1]

theorem before {q : Fin n} {j : Id n} {e' : DistributedEdge n W}
    (found : (Function.update s p y q).view.edge j = some e') :
    (s q).view.edge j = some e' ∧ ¬ (q = p ∧ j = k) := by
  rw [unlinked.edge] at found
  split at found
  · cases found
  · exact ⟨found, ‹_›⟩

theorem buffer (q : Fin n) :
    (Function.update s p y q).linker.linkBuffer.Sublist (s q).linker.linkBuffer := by
  by_cases same : q = p
  · rw [same, Function.update_self, unlinked.linkBuffer]
    split
    · exact List.filter_sublist
    · exact List.Sublist.refl _
  · rw [Function.update_of_ne same]

theorem unbuffered {q : Fin n} {j : Id n} (other : j ≠ k) (member : j ∈ (s q).linker.linkBuffer) :
    j ∈ (Function.update s p y q).linker.linkBuffer := by
  by_cases same : q = p
  · subst same
    rw [Function.update_self, unlinked.linkBuffer]
    split
    · exact List.mem_filter.mpr ⟨member, decide_eq_true other⟩
    · exact member
  · rw [Function.update_of_ne same]
    exact member

theorem migration (q r : Fin n) (j : Id n) :
    j ∈ (Function.update s p y q).linker.unlinkMigration.valuesAt r ↔
      j ∈ (s q).linker.unlinkMigration.valuesAt r ∨ q = p ∧ j = k ∧ e.state = .DISTANT ∧
        ∃ x core, (e.source = x ∨ e.target = x) ∧ (s p).view.core x = some core ∧
          core.state = .DISTANT ∧ core.location = r := by
  by_cases same : q = p
  · subst same
    rw [Function.update_self, unlinked.unlinkMigration]
    simp
  · rw [Function.update_of_ne same]
    simp [same]

end Unlinked

section

variable {p : Fin n} {k : Id n} {e : DistributedEdge n W} (run : Running G extra s)
  (found : (s p).view.edge k = some e) (kept : ¬ extra p k) {edge : GlobalEdge n W}
  (inside : G.edge k = some edge)
include run found kept inside

theorem Running.state : e = edge.stored (G.stateAt p edge) := by
  by_cases pending : ∃ q, k ∈ (s q).linker.linkBuffer
  · obtain ⟨q, member⟩ := pending
    obtain ⟨edge', inside', apart, only⟩ := run.buffered q k member
    cases inside.symm.trans inside'
    rw [only] at found
    split at found
    case isTrue same =>
      subst same
      cases found
      unfold GlobalGraph.stateAt
      rw [if_neg apart]
    case isFalse => cases found
  · rw [run.committed k edge inside (fun q member => pending ⟨q, member⟩) p kept] at found
    obtain ⟨edge', inside', _, rfl⟩ := GlobalGraph.edgeAt_eq_some.mp found
    cases inside.symm.trans inside'
    rfl

-- The process knows where the others that have the edge are.
theorem Running.told {q : Fin n} (other : q ≠ p) {e' : DistributedEdge n W}
    (found' : (s q).view.edge k = some e') (unextra : ¬ extra q k) :
    (G.Owns q e'.source ∨ G.Owns q e'.target) ∧ e.state = .DISTANT ∧ ∃ x core,
      (e.source = x ∨ e.target = x) ∧ (s p).view.core x = some core ∧ core.state = .DISTANT ∧
        core.location = q := by
  have committed : ∀ r, k ∉ (s r).linker.linkBuffer := by
    intro r member
    obtain ⟨_, _, _, only⟩ := run.buffered r k member
    have atP := (only p).symm.trans found
    have atQ := (only q).symm.trans found'
    split at atP
    · split at atQ
      · exact other (‹q = r›.trans ‹p = r›.symm)
      · cases atQ
    · cases atP
  rw [run.committed k edge inside committed q unextra] at found'
  obtain ⟨edge', inside', owned, rfl⟩ := GlobalGraph.edgeAt_eq_some.mp found'
  cases inside.symm.trans inside'
  refine ⟨owned, ?_⟩
  have mine := run.state found kept inside
  have told : ∀ x, edge.Touches x → G.Owns q x → e.state = .DISTANT ∧ ∃ x core,
      (e.source = x ∨ e.target = x) ∧ (s p).view.core x = some core ∧ core.state = .DISTANT ∧
      core.location = q := by
    intro x touches owns
    have touches' : e.source = x ∨ e.target = x := by
      rw [mine]
      exact touches
    have present : ∃ core, (s p).view.core x = some core := by
      rcases touches' with rfl | rfl
      · obtain ⟨node, at_⟩ := (run.graph p).source k e found
        exact ⟨node.core, by rw [GhostProcess.view, DistributedGraph.view_core, at_]; rfl⟩
      · obtain ⟨node, at_⟩ := (run.graph p).target k e found
        exact ⟨node.core, by rw [GhostProcess.view, DistributedGraph.view_core, at_]; rfl⟩
    obtain ⟨core, present⟩ := present
    have ghost := run.hosts.ghost_of_owner owns other present
    refine ⟨?_, x, core, touches', present, ghost.1, ghost.2⟩
    rw [mine]
    unfold GlobalGraph.stateAt
    have foreign : ¬ (G.Owns p edge.source ∧ G.Owns p edge.target) := by
      rintro ⟨source, target⟩
      rcases touches with rfl | rfl
      · exact other (owns_unique owns source)
      · exact other (owns_unique owns target)
    rw [if_neg foreign]
    rfl
  rcases owned with source | target
  · exact told edge.source (.inl rfl) source
  · exact told edge.target (.inr rfl) target

end

-- An edge with a DISTANT node is not one of those that the process has to clear.
theorem Running.not_cleared (run : Running G extra s) {p q : Fin n} {k : Id n} {e : DistributedEdge n W}
    (found : (s p).view.edge k = some e) {x : Id n} {core : NodeCore n T W}
    (touches : e.source = x ∨ e.target = x) (present : (s p).view.core x = some core)
    (distant : core.state = .DISTANT) (there : core.location = q) : ¬ extra q k := by
  intro again
  obtain ⟨e', found', source, target, _⟩ := run.cleared q k again
  have ends := run.agree p q k e e' found found'
  have owner := (run.hosts.owner_of_ghost present distant).1
  rw [there] at owner
  unfold DistributedEdge.ends at ends
  rw [Prod.mk.injEq, Prod.mk.injEq] at ends
  rcases touches with rfl | rfl
  · exact source (ends.2.1 ▸ owner)
  · exact target (ends.2.2 ▸ owner)

theorem Running.issued (run : Running G extra s) {p : Fin n} {k : Id n} {e : DistributedEdge n W}
    (found : (s p).view.edge k = some e) (kept : ¬ extra p k) : k.id < (s k.rank).view.edgeId.id := by
  cases inside : G.edge k with
  | some edge => exact run.hosts.edgesIssued k edge inside
  | none =>
    obtain ⟨_, r, member⟩ := run.stale p k e found inside kept
    exact (run.unlinked r p k member).2.2

theorem Running.unlink (run : Running G extra s) {p : Fin n} {k : Id n} {e : DistributedEdge n W}
    (found : (s p).view.edge k = some e) (kept : ¬ extra p k) {y : GhostProcess n T W}
    (unlinked : Unlinked (s p) y k e) : Running (G.unlink k) extra (Function.update s p y) := by
  have field := fun {α : Type} => unlinked.field (s := s) (α := α)
  have gone : (G.unlink k).edge k = none := Function.update_self _ _ _
  have stays : ∀ j, j ≠ k → (G.unlink k).edge j = G.edge j := fun j other => Function.update_of_ne other _ _
  refine ⟨?_, ?_, ?_, ?_, ?_, ?_, ?_, ?_, ?_⟩
  · exact (Function.forall_update_iff s fun _ t => GraphInv t.graph).mpr
      ⟨unlinked.graph, fun q _ => run.graph q⟩
  · refine run.hosts.withEdges (field GraphView.core fun _ => rfl) (field GraphView.rank fun _ => rfl)
      (field GraphView.managed fun _ => rfl) (field GraphView.newLocal fun _ => rfl)
      (field GraphView.nodeId fun _ => rfl) ?_ ?_ ?_
    · intro q
      rw [field GraphView.edgeId fun _ => rfl]
      exact run.hosts.edgeId q
    · exact fun j edge inside => run.hosts.closed j edge (unlink_some.mp inside).2
    · intro j edge inside
      rw [field GraphView.edgeId fun _ => rfl]
      exact run.hosts.edgesIssued j edge (unlink_some.mp inside).2
  · exact fun q r j e e' one two =>
      run.agree q r j e e' (unlinked.before one).1 (unlinked.before two).1
  · intro q j member
    obtain ⟨edge', inside, apart, only⟩ := run.buffered q j ((unlinked.buffer q).subset member)
    have other : j ≠ k := by
      rintro rfl
      rw [only] at found
      split at found
      case isTrue same =>
        subst same
        cases found
        rw [Function.update_self, unlinked.linkBuffer,
          if_pos (show (edge'.stored .DISTANT).state = LocationState.DISTANT from rfl)] at member
        exact of_decide_eq_true (List.mem_filter.mp member).2 rfl
      case isFalse => cases found
    refine ⟨edge', (stays j other).trans inside, apart, fun r => ?_⟩
    rw [unlinked.edge, if_neg fun both => other both.2]
    exact only r
  · exact fun q => (run.once q).sublist (unlinked.buffer q)
  · intro j edge' inside absent q unextra
    obtain ⟨other, inside⟩ := unlink_some.mp inside
    rw [unlinked.edge, if_neg fun both => other both.2, run.committed j edge' inside
      (fun q member => absent q (unlinked.unbuffered other member)) q unextra]
    unfold GlobalGraph.edgeAt
    rw [stays j other]
    rfl
  · intro q j member
    obtain ⟨e', found', source, target, same⟩ := run.cleared q j member
    refine ⟨e', ?_, source, target, fun edge' inside => same edge' (unlink_some.mp inside).2⟩
    rw [unlinked.edge, if_neg, found']
    rintro ⟨rfl, rfl⟩
    exact kept member
  · intro q j e' found' lost unextra
    obtain ⟨found', elsewhere⟩ := unlinked.before found'
    cases inside : G.edge j with
    | none =>
      obtain ⟨owned, r, member⟩ := run.stale q j e' found' inside unextra
      exact ⟨owned, r, (unlinked.migration r q j).mpr (.inl member)⟩
    | some edge' =>
      -- `k` is the only edge that has left.
      obtain rfl : j = k := by
        by_contra other
        rw [← stays j other, lost] at inside
        cases inside
      have other : q ≠ p := fun same => elsewhere ⟨same, rfl⟩
      obtain ⟨owned, told⟩ := run.told found kept inside other found' unextra
      exact ⟨owned, p, (unlinked.migration p q j).mpr (.inr ⟨rfl, rfl, told⟩)⟩
  · intro q r j member
    rw [field GraphView.edgeId fun _ => rfl]
    rcases (unlinked.migration q r j).mp member with
      old | ⟨rfl, rfl, _, x, core', touches, present, distant, there⟩
    · obtain ⟨lost, unextra, issued⟩ := run.unlinked q r j old
      refine ⟨?_, unextra, issued⟩
      rw [unlink_edge, lost, ite_self]
    · exact ⟨gone, run.not_cleared found touches present distant there, run.issued found kept⟩

-- An id that `p` has not given yet is the id of no edge.
theorem Running.edge_fresh (run : Running G (fun _ _ => False) s) (p q : Fin n) :
    G.edge (s p).view.edgeId = none ∧ (s q).view.edge (s p).view.edgeId = none := by
  have rank : (s p).view.edgeId.rank = p := run.hosts.edgeId p
  have unissued : ¬ (s p).view.edgeId.id < (s (s p).view.edgeId.rank).view.edgeId.id := by
    rw [rank]
    exact Nat.lt_irrefl _
  have absent : G.edge (s p).view.edgeId = none := by
    cases inside : G.edge (s p).view.edgeId with
    | none => rfl
    | some edge => exact absurd (run.hosts.edgesIssued _ edge inside) unissued
  refine ⟨absent, ?_⟩
  cases found : (s q).view.edge (s p).view.edgeId with
  | none => rfl
  | some e =>
    obtain ⟨_, r, member⟩ := run.stale q _ e found absent not_false
    exact absurd (run.unlinked r q _ member).2.2 unissued

theorem Running.unbuffered (run : Running G (fun _ _ => False) s) (p q : Fin n) :
    (s p).view.edgeId ∉ (s q).linker.linkBuffer := by
  intro member
  obtain ⟨_, inside, _⟩ := run.buffered q _ member
  cases (run.edge_fresh p q).1.symm.trans inside

theorem Running.edgeState (run : Running G extra s) (p : Fin n) (edge : GlobalEdge n W) :
    (s p).view.edgeState edge.source edge.target = G.stateAt p edge := by
  unfold GraphView.edgeState GlobalGraph.stateAt
  simp only [run.hosts.isLocal p]

structure Linked [One W] (s s' : GhostProcess n T W) (edge : GlobalEdge n W) : Prop where
  graph : GraphInv s'.graph
  view : s'.view =
    { s.view with
      edge := Function.update s.view.edge s.view.edgeId
        (some (edge.stored (s.view.edgeState edge.source edge.target)))
      edgeId := s.view.edgeId.next }
  linker : s'.linker = s.linker.link s.view.edgeId (s.view.edgeState edge.source edge.target)

theorem link_spec [One W] {s : GhostProcess n T W} (inv : GraphInv s.graph) {source target : Id n}
    (layer : LayerId) (fresh : s.view.edge s.view.edgeId = none)
    (atSource : ∃ core, s.view.core source = some core)
    (atTarget : ∃ core, s.view.core target = some core) :
    ∃ s', s.link source target layer = some s' ∧
      Linked s s' { layer, weight := 1, source, target } := by
  obtain ⟨src, found⟩ := atSource
  obtain ⟨src, atSource, _⟩ := DistributedGraph.getNode_of_view rfl found
  obtain ⟨tgt, found⟩ := atTarget
  obtain ⟨tgt, atTarget, _⟩ := DistributedGraph.getNode_of_view rfl found
  obtain ⟨g, built, inv', view⟩ := inv.buildEdge layer fresh ⟨src, atSource⟩ ⟨tgt, atTarget⟩
  let e : DistributedEdge n W :=
    { layer, weight := 1, source, target, state := s.graph.view.edgeState source target }
  refine ⟨{ linker := s.linker.link s.graph.edgeId e.state, graph := g.insertEdge s.graph.edgeId e },
    ?_, inv', view, rfl⟩
  unfold GhostProcess.link
  rw [built, Option.map_some]

namespace Linked

variable [One W] {p : Fin n} {y : GhostProcess n T W} {edge : GlobalEdge n W}
  (linked : Linked (s p) y edge)
include linked

theorem field {α : Type} (f : GraphView n T W → α)
    (unchanged : ∀ v edge edgeId, f { v with edge, edgeId } = f v) (q : Fin n) :
    f (Function.update s p y q).view = f (s q).view :=
  update_field (fun t => f t.view) (by rw [linked.view, unchanged]) q

theorem migration (q : Fin n) :
    (Function.update s p y q).linker.unlinkMigration = (s q).linker.unlinkMigration := by
  refine update_field (fun t => t.linker.unlinkMigration) ?_ q
  rw [linked.linker]
  unfold GhostSyncLinker.link
  split <;> rfl

variable (run : Running G (fun _ _ => False) s)
include run

theorem edgeIds (q : Fin n) : (Function.update s p y q).view.edgeId.rank = q ∧
    (s q).view.edgeId.id ≤ (Function.update s p y q).view.edgeId.id := by
  by_cases same : q = p
  · subst same
    rw [Function.update_self, linked.view]
    exact ⟨run.hosts.edgeId q, Nat.le_succ _⟩
  · rw [Function.update_of_ne same]
    exact ⟨run.hosts.edgeId q, Nat.le_refl _⟩

theorem edges (q : Fin n) (j : Id n) : (Function.update s p y q).view.edge j =
    if q = p ∧ j = (s p).view.edgeId then some (edge.stored (G.stateAt p edge))
    else (s q).view.edge j := by
  by_cases same : q = p
  · subst same
    rw [Function.update_self, linked.view, run.edgeState]
    simp only [Function.update_apply, true_and]
  · rw [Function.update_of_ne same, if_neg fun both => same both.1]

theorem before {q : Fin n} {j : Id n} {e : DistributedEdge n W}
    (found : (Function.update s p y q).view.edge j = some e) (other : j ≠ (s p).view.edgeId) :
    (s q).view.edge j = some e := by
  rw [linked.edges run, if_neg fun both => other both.2] at found
  exact found

theorem only {q : Fin n} {e : DistributedEdge n W}
    (found : (Function.update s p y q).view.edge (s p).view.edgeId = some e) :
    q = p ∧ e = edge.stored (G.stateAt p edge) := by
  rw [linked.edges run] at found
  split at found
  case isTrue both =>
    cases found
    exact ⟨both.1, rfl⟩
  case isFalse => cases (run.edge_fresh p q).2.symm.trans found

theorem buffer (q : Fin n) (j : Id n) : j ∈ (Function.update s p y q).linker.linkBuffer ↔
    j ∈ (s q).linker.linkBuffer ∨ q = p ∧ j = (s p).view.edgeId ∧ G.stateAt p edge = .DISTANT := by
  by_cases same : q = p
  · subst same
    rw [Function.update_self, linked.linker, run.edgeState]
    unfold GhostSyncLinker.link
    split <;> simp [*]
  · rw [Function.update_of_ne same]
    simp [same]

theorem once (q : Fin n) : (Function.update s p y q).linker.linkBuffer.Nodup := by
  by_cases same : q = p
  · rw [same, Function.update_self, linked.linker]
    unfold GhostSyncLinker.link
    split
    · refine List.nodup_append.mpr ⟨run.once p, List.nodup_singleton _, ?_⟩
      rintro a member b single rfl
      rw [List.mem_singleton] at single
      exact run.unbuffered p p (single ▸ member)
    · exact run.once p
  · rw [Function.update_of_ne same]
    exact run.once q

-- An edge that its process does not buffer has both its nodes there.
theorem committed (absent : (s p).view.edgeId ∉ (Function.update s p y p).linker.linkBuffer) (q : Fin n) :
    (Function.update s p y q).view.edge (s p).view.edgeId =
      (G.link (s p).view.edgeId edge).edgeAt q (s p).view.edgeId := by
  have added : (G.link (s p).view.edgeId edge).edge (s p).view.edgeId = some edge :=
    Function.update_self _ _ _
  have both : G.Owns p edge.source ∧ G.Owns p edge.target := by
    by_contra apart
    exact absent ((linked.buffer run p _).mpr (.inr ⟨rfl, rfl, if_neg apart⟩))
  rw [linked.edges run]
  by_cases here : q = p
  · subst here
    rw [if_pos ⟨rfl, rfl⟩]
    exact (GlobalGraph.edgeAt_eq_some.mpr ⟨edge, added, .inl both.1, rfl⟩).symm
  · rw [if_neg fun both => here both.1, (run.edge_fresh p q).2]
    symm
    rw [Option.eq_none_iff_forall_ne_some]
    intro e found
    obtain ⟨edge', inside', owned, _⟩ := GlobalGraph.edgeAt_eq_some.mp found
    cases added.symm.trans inside'
    rcases owned with source | target
    · exact here (owns_unique source both.1)
    · exact here (owns_unique target both.2)

theorem hosts (atSource : ∃ core, (s p).view.core edge.source = some core)
    (atTarget : ∃ core, (s p).view.core edge.target = some core) :
    Hosts (G.link (s p).view.edgeId edge) fun q => (Function.update s p y q).view := by
  have known : ∀ x, (∃ core, (s p).view.core x = some core) → ∃ node, G.node x = some node := by
    rintro x ⟨core, found⟩
    obtain ⟨node, inside, _⟩ := run.hosts.ghost p x core found
    exact ⟨node, inside⟩
  rw [← views_update]
  exact run.hosts.link (known _ atSource) (known _ atTarget) (by rw [linked.view])

end Linked

theorem Running.link [One W] (run : Running G (fun _ _ => False) s) {p : Fin n} {y : GhostProcess n T W}
    {edge : GlobalEdge n W} (linked : Linked (s p) y edge)
    (atSource : ∃ core, (s p).view.core edge.source = some core)
    (atTarget : ∃ core, (s p).view.core edge.target = some core) :
    Running (G.link (s p).view.edgeId edge) (fun _ _ => False) (Function.update s p y) := by
  have stays : ∀ j, j ≠ (s p).view.edgeId → (G.link (s p).view.edgeId edge).edge j = G.edge j :=
    fun j other => Function.update_of_ne other _ _
  have added : (G.link (s p).view.edgeId edge).edge (s p).view.edgeId = some edge :=
    Function.update_self _ _ _
  refine ⟨?_, linked.hosts run atSource atTarget, ?_, ?_, linked.once run, ?_, ?_, ?_, ?_⟩
  · exact (Function.forall_update_iff s fun _ t => GraphInv t.graph).mpr
      ⟨linked.graph, fun q _ => run.graph q⟩
  · intro q r j e e' one two
    by_cases same : j = (s p).view.edgeId
    · subst same
      rw [(linked.only run one).2, (linked.only run two).2]
    · exact run.agree q r j e e' (linked.before run one same) (linked.before run two same)
  · intro q j member
    rcases (linked.buffer run q j).mp member with old | ⟨rfl, rfl, distant⟩
    · have other : j ≠ (s p).view.edgeId := by
        rintro rfl
        exact run.unbuffered p q old
      obtain ⟨edge', inside, apart, copies⟩ := run.buffered q j old
      refine ⟨edge', (stays j other).trans inside, apart, fun r => ?_⟩
      rw [linked.edges run, if_neg fun both => other both.2]
      exact copies r
    · refine ⟨edge, added, fun both => ?_, fun r => ?_⟩
      · have near : G.stateAt q edge = .LOCAL := if_pos both
        rw [near] at distant
        cases distant
      · rw [linked.edges run, distant]
        by_cases here : r = q
        · simp [here]
        · simp [here, (run.edge_fresh q r).2]
  · intro j e inside absent q _
    by_cases same : j = (s p).view.edgeId
    · subst same
      exact linked.committed run (absent p) q
    · rw [linked.edges run, if_neg fun both => same both.2]
      rw [run.committed j e ((stays j same).symm.trans inside)
        (fun r member => absent r ((linked.buffer run r j).mpr (.inl member))) q not_false]
      unfold GlobalGraph.edgeAt
      rw [stays j same]
      rfl
  · exact fun q j impossible => impossible.elim
  · intro q j e found lost _
    have other : j ≠ (s p).view.edgeId := by
      rintro rfl
      cases added.symm.trans lost
    rw [stays j other] at lost
    simp only [linked.migration]
    exact run.stale q j e (linked.before run found other) lost not_false
  · intro q r j member
    rw [linked.migration] at member
    obtain ⟨lost, _, issued⟩ := run.unlinked q r j member
    have other : j ≠ (s p).view.edgeId := by
      rintro rfl
      have rank : (s p).view.edgeId.rank = p := run.hosts.edgeId p
      rw [rank] at issued
      exact Nat.lt_irrefl _ issued
    exact ⟨(stays j other).trans lost, not_false, Nat.lt_of_lt_of_le issued (linked.edgeIds run _).2⟩

-- Steps that change no edge, and no owner of the nodes that there are.
theorem Running.renode (run : Running G (fun _ _ => False) s) {G' : GlobalGraph n T W}
    {t : GhostSystem n T W} (graph : ∀ p, GraphInv (t p).graph)
    (hosts : Hosts G' fun p => (t p).view) (edges : ∀ p, (t p).view.edge = (s p).view.edge)
    (edgeId : ∀ p, (t p).view.edgeId = (s p).view.edgeId) (linker : ∀ p, (t p).linker = (s p).linker)
    (edge : G'.edge = G.edge)
    (owns : ∀ q x node, G.node x = some node → (G'.Owns q x ↔ G.Owns q x)) :
    Running G' (fun _ _ => False) t := by
  have ends : ∀ k e, G.edge k = some e → ∀ q, (G'.Owns q e.source ↔ G.Owns q e.source) ∧
      (G'.Owns q e.target ↔ G.Owns q e.target) := by
    intro k e inside q
    obtain ⟨⟨source, atSource⟩, target, atTarget⟩ := run.hosts.closed k e inside
    exact ⟨owns q _ source atSource, owns q _ target atTarget⟩
  have same : ∀ q k, G'.edgeAt q k = G.edgeAt q k := by
    intro q k
    unfold GlobalGraph.edgeAt GlobalGraph.stateAt
    rw [edge]
    cases inside : G.edge k with
    | none => rfl
    | some e => simp only [Option.bind_some, (ends k e inside q).1, (ends k e inside q).2]
  refine ⟨graph, hosts, ?_, ?_, ?_, ?_, ?_, ?_, ?_⟩
  · intro p q k e e' one two
    rw [edges] at one two
    exact run.agree p q k e e' one two
  · intro p k member
    rw [linker] at member
    obtain ⟨e, inside, apart, only⟩ := run.buffered p k member
    refine ⟨e, edge ▸ inside, ?_, fun q => (congrFun (edges q) k).trans (only q)⟩
    rw [(ends k e inside p).1, (ends k e inside p).2]
    exact apart
  · intro p
    rw [linker]
    exact run.once p
  · intro k e inside absent p _
    rw [edges, same]
    exact run.committed k e (edge ▸ inside) (fun q member => absent q (by rw [linker]; exact member)) p
      not_false
  · exact fun _ _ impossible => impossible.elim
  · intro p k e found lost _
    rw [edges] at found
    obtain ⟨owned, q, member⟩ := run.stale p k e found (edge ▸ lost) not_false
    obtain ⟨src, atSource⟩ := (run.graph p).source k e found
    obtain ⟨tgt, atTarget⟩ := (run.graph p).target k e found
    have known : ∀ x node, (s p).graph.getNode x = some node → ∃ node, G.node x = some node := by
      intro x node at_
      obtain ⟨found, inside, _⟩ := run.hosts.ghost p x node.core
        (by rw [GhostProcess.view, DistributedGraph.view_core, at_]; rfl)
      exact ⟨found, inside⟩
    obtain ⟨source, insideSource⟩ := known _ _ atSource
    obtain ⟨target, insideTarget⟩ := known _ _ atTarget
    rw [owns p _ source insideSource, owns p _ target insideTarget]
    exact ⟨owned, q, by rw [linker]; exact member⟩
  · intro q p k member
    rw [linker] at member
    obtain ⟨lost, _, issued⟩ := run.unlinked q p k member
    rw [edgeId]
    exact ⟨edge ▸ lost, not_false, issued⟩

theorem Running.buildNode [One W] (run : Running G (fun _ _ => False) s) {p : Fin n} {data : T}
    {y : GhostProcess n T W} (inv : GraphInv y.graph) (view : y.view = (s p).view.buildNode data)
    (linker : y.linker = (s p).linker) :
    Running (G.buildNode p (s p).view.nodeId data) (fun _ _ => False) (Function.update s p y) := by
  have keep : ∀ {α : Type} (f : GraphView n T W → α), f ((s p).view.buildNode data) = f (s p).view →
      ∀ q, f (Function.update s p y q).view = f (s q).view := fun f unchanged =>
    update_field (fun t => f t.view) (by rw [view, unchanged])
  refine run.renode ?_ ?_ (keep GraphView.edge rfl) (keep GraphView.edgeId rfl)
    (update_field GhostProcess.linker linker) rfl fun q x node inside =>
      buildNode_owns (run.hosts.node_fresh p p).1 inside
  · exact (Function.forall_update_iff s fun _ t => GraphInv t.graph).mpr ⟨inv, fun q _ => run.graph q⟩
  · have built := run.hosts.buildNode p data
    rw [← view] at built
    exact views_update y ▸ built

theorem Running.setData (run : Running G (fun _ _ => False) s) {p : Fin n} {id : Id n} {data : T}
    {weight : W} {y : GhostProcess n T W} {old : NodeCore n T W} (inv : GraphInv y.graph)
    (found : (s p).view.core id = some old)
    (view : y.view = { (s p).view with
      core := Function.update (s p).view.core id (some { old with data, weight }) })
    (linker : y.linker = (s p).linker) :
    Running (G.setData p id data weight) (fun _ _ => False) (Function.update s p y) := by
  have keep : ∀ {α : Type} (f : GraphView n T W → α), (∀ v core, f { v with core } = f v) →
      ∀ q, f (Function.update s p y q).view = f (s q).view := fun f unchanged =>
    update_field (fun t => f t.view) (by rw [view, unchanged])
  refine run.renode ?_ ?_ (keep GraphView.edge fun _ _ => rfl) (keep GraphView.edgeId fun _ _ => rfl)
    (update_field GhostProcess.linker linker) rfl fun q x node inside => setData_owns
  · exact (Function.forall_update_iff s fun _ t => GraphInv t.graph).mpr ⟨inv, fun q _ => run.graph q⟩
  · have written := run.hosts.setData data weight found
    rw [← view] at written
    exact views_update y ▸ written

end

end Fpmas.Synchro.Ghost
