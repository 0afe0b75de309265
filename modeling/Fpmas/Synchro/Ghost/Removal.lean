import Fpmas.Synchro.Ghost.Period

set_option autoImplicit false

namespace Fpmas.Graph.GlobalGraph

variable {n : Nat} {T W : Type} (G : GlobalGraph n T W)

noncomputable def without (gone : Id n → Prop) : GlobalGraph n T W :=
  open Classical in { G with edge := fun k => if gone k then none else G.edge k }

variable {G}

theorem without_edge {gone : Id n → Prop} {k : Id n} {edge : GlobalEdge n W} :
    (G.without gone).edge k = some edge ↔ G.edge k = some edge ∧ ¬ gone k := by
  unfold without
  by_cases left : gone k <;> simp [left]

theorem unlink_without (k : Id n) (gone : Id n → Prop) :
    (G.unlink k).without gone = G.without fun j => j = k ∨ gone j := by
  unfold unlink without
  congr 1
  funext j
  by_cases same : j = k <;> by_cases left : gone j <;> simp [same, left]

theorem without_without (gone gone' : Id n → Prop) :
    (G.without gone).without gone' = G.without fun k => gone k ∨ gone' k := by
  unfold without
  congr 1
  funext k
  by_cases left : gone k <;> by_cases left' : gone' k <;> simp [left, left']

theorem without_none : G.without (fun _ => False) = G := by
  simp [without]

end Fpmas.Graph.GlobalGraph

namespace Fpmas.Synchro.Ghost

open Fpmas.Graph

variable {n : Nat} {T W : Type}

-- What the unlinks of the edges in `gone` do to their process, apart from the pending unlinks.
structure AllUnlinked (s s' : GhostProcess n T W) (gone : Id n → Prop) : Prop where
  view : s'.view = s.view.eraseEdges gone
  linkBuffer : ∀ k, k ∈ s'.linker.linkBuffer ↔ k ∈ s.linker.linkBuffer ∧ ¬ gone k
  removeNodeBuffer : s'.linker.removeNodeBuffer = s.linker.removeNodeBuffer
  localNodesToRemove : s'.linker.localNodesToRemove = s.linker.localNodesToRemove

theorem AllUnlinked.trans {s s' s'' : GhostProcess n T W} {gone gone' : Id n → Prop}
    (first : AllUnlinked s s' gone) (second : AllUnlinked s' s'' gone') :
    AllUnlinked s s'' fun k => gone k ∨ gone' k := by
  refine ⟨?_, fun k => ?_, ?_, ?_⟩
  · rw [second.view, first.view, GraphView.eraseEdges_eraseEdges]
  · rw [second.linkBuffer, first.linkBuffer, not_or, and_assoc]
  · rw [second.removeNodeBuffer, first.removeNodeBuffer]
  · rw [second.localNodesToRemove, first.localNodesToRemove]

theorem AllUnlinked.congr {s s' : GhostProcess n T W} {gone gone' : Id n → Prop}
    (unlinked : AllUnlinked s s' gone) (same : ∀ k, gone' k ↔ gone k) : AllUnlinked s s' gone' := by
  have equal : gone' = gone := funext fun k => propext (same k)
  exact equal ▸ unlinked

section

variable {G : GlobalGraph n T W} {extra : Fin n → Id n → Prop} {s : GhostSystem n T W}

open GlobalGraph

theorem Running.unlinkOne (run : Running G extra s) {p : Fin n} {k : Id n} {e : DistributedEdge n W}
    (found : (s p).view.edge k = some e) (kept : ¬ extra p k) :
    ∃ y, (s p).unlink k = some y ∧ Running (G.unlink k) extra (Function.update s p y) ∧
      AllUnlinked (s p) y (· = k) := by
  obtain ⟨y, result, unlinked⟩ := unlink_spec (run.graph p) found
  refine ⟨y, result, run.unlink found kept unlinked, ?_, fun j => ?_, unlinked.removeNodeBuffer,
    unlinked.localNodesToRemove⟩
  · rw [unlinked.view]
    ext1 <;> try rfl
    funext j
    by_cases same : j = k <;> simp [GraphView.eraseEdge, GraphView.eraseEdges, same]
  · rw [unlinked.linkBuffer]
    split
    · simp
    case isFalse near =>
      refine ⟨fun member => ⟨member, ?_⟩, And.left⟩
      rintro rfl
      obtain ⟨edge, _, _, only⟩ := run.buffered p j member
      rw [only, if_pos rfl] at found
      cases found
      exact near rfl

theorem Running.unlinkAll {p : Fin n} {ids : List (Id n)} (once : ids.Nodup)
    (run : Running G extra s) (present : ∀ k ∈ ids, ∃ e, (s p).view.edge k = some e)
    (kept : ∀ k ∈ ids, ¬ extra p k) :
    ∃ y, ids.foldlM GhostProcess.unlink (s p) = some y ∧
      Running (G.without (· ∈ ids)) extra (Function.update s p y) ∧ AllUnlinked (s p) y (· ∈ ids) := by
  induction ids generalizing G s with
  | nil =>
    refine ⟨s p, rfl, ?_, ?_, by simp, rfl, rfl⟩
    · rw [Function.update_eq_self]
      simpa [without_none] using run
    · simp [GraphView.eraseEdges]
  | cons k rest ih =>
    rw [List.nodup_cons] at once
    obtain ⟨e, found⟩ := present k List.mem_cons_self
    obtain ⟨y, result, run', first⟩ := run.unlinkOne found (kept k List.mem_cons_self)
    have here : (Function.update s p y) p = y := Function.update_self _ _ _
    obtain ⟨z, result', run'', later⟩ := ih once.2 run'
      (fun j member => by
        obtain ⟨e', found'⟩ := present j (List.mem_cons_of_mem k member)
        refine ⟨e', ?_⟩
        rw [here, first.view, GraphView.eraseEdges_edge]
        exact ⟨found', fun same => once.1 (same ▸ member)⟩)
      (fun j member => kept j (List.mem_cons_of_mem k member))
    rw [here] at result' later
    rw [Function.update_idem, unlink_without] at run''
    refine ⟨z, ?_, ?_, ?_⟩
    · rw [List.foldlM_cons, result]
      exact result'
    · simpa only [List.mem_cons] using run''
    · exact (first.trans later).congr fun j => List.mem_cons

theorem Running.unlinkNode (run : Running G extra s) (order : HashOrder) {p : Fin n} {id : Id n}
    {core : NodeCore n T W} (present : (s p).view.core id = some core)
    (kept : ∀ k e, (s p).view.edge k = some e → e.Touches id → ¬ extra p k) :
    ∃ y, (s p).unlinkNode order id = some y ∧
      Running (G.without ((s p).view.touching id)) extra (Function.update s p y) ∧
      AllUnlinked (s p) y ((s p).view.touching id) := by
  obtain ⟨node, at_, _⟩ := DistributedGraph.getNode_of_view rfl present
  have out := fun k => (run.graph p).mem_getOutgoingEdges order at_ k
  obtain ⟨y, result, run', first⟩ := run.unlinkAll (p := p)
    ((run.graph p).nodup_getOutgoingEdges order at_)
    (fun k member => by
      obtain ⟨e, found, _⟩ := (out k).mp member
      exact ⟨e, found⟩)
    (fun k member => by
      obtain ⟨e, found, source⟩ := (out k).mp member
      exact kept k e found (.inl source))
  have here : (Function.update s p y) p = y := Function.update_self _ _ _
  have invY : GraphInv y.graph := here ▸ run'.graph p
  obtain ⟨node', at', _⟩ := DistributedGraph.getNode_of_view (g := y.graph) (v := y.view) rfl
    (by rw [first.view]; exact present)
  have into : ∀ k, k ∈ node'.getIncomingEdges order ↔
      ∃ e, (s p).view.edge k = some e ∧ e.target = id ∧ k ∉ node.getOutgoingEdges order := by
    intro k
    rw [invY.mem_getIncomingEdges order at' k]
    have found : ∀ e, y.graph.getEdge k = some e ↔
        (s p).view.edge k = some e ∧ k ∉ node.getOutgoingEdges order := by
      intro e
      have same := congrFun (congrArg GraphView.edge first.view) k
      rw [show y.graph.getEdge k = y.view.edge k from rfl, same, GraphView.eraseEdges_edge]
    simp only [found]
    tauto
  obtain ⟨z, result', run'', second⟩ := run'.unlinkAll (p := p)
    (invY.nodup_getIncomingEdges order at')
    (fun k member => by
      obtain ⟨e, found, _, fresh⟩ := (into k).mp member
      rw [here, first.view]
      exact ⟨e, GraphView.eraseEdges_edge.mpr ⟨found, fresh⟩⟩)
    (fun k member => by
      obtain ⟨e, found, target, _⟩ := (into k).mp member
      exact kept k e found (.inr target))
  rw [here] at result' second
  rw [Function.update_idem, without_without] at run''
  have touching : ∀ k, (s p).view.touching id k ↔
      k ∈ node.getOutgoingEdges order ∨ k ∈ node'.getIncomingEdges order := by
    intro k
    rw [into, out]
    unfold GraphView.touching DistributedEdge.Touches
    constructor
    · rintro ⟨e, found, source | target⟩
      · exact .inl ⟨e, found, source⟩
      · by_cases again : ∃ e, (s p).graph.getEdge k = some e ∧ e.source = id
        · exact .inl again
        · exact .inr ⟨e, found, target, again⟩
    · rintro (⟨e, found, source⟩ | ⟨e, found, target, _⟩)
      · exact ⟨e, found, .inl source⟩
      · exact ⟨e, found, .inr target⟩
  have same : (s p).view.touching id = fun k =>
      k ∈ node.getOutgoingEdges order ∨ k ∈ node'.getIncomingEdges order :=
    funext fun k => propext (touching k)
  refine ⟨z, ?_, ?_, ?_⟩
  · unfold GhostProcess.unlinkNode
    rw [at_, Option.bind_some, result, Option.bind_some, at', Option.bind_some]
    exact result'
  · rw [same]
    exact run''
  · rw [same]
    exact first.trans second

end

end Fpmas.Synchro.Ghost
