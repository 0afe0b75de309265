import Fpmas.Synchro.Ghost.CommitLinks

set_option autoImplicit false

namespace Fpmas.Graph.GlobalGraph

variable {n : Nat} {T W : Type} (G : GlobalGraph n T W)

noncomputable def detach (ids : Id n → Prop) : GlobalGraph n T W :=
  G.without fun k => ∃ edge, G.edge k = some edge ∧ (ids edge.source ∨ ids edge.target)

variable {G}

theorem detach_edge {ids : Id n → Prop} {k : Id n} {edge : GlobalEdge n W} :
    (G.detach ids).edge k = some edge ↔
      G.edge k = some edge ∧ ¬ ids edge.source ∧ ¬ ids edge.target := by
  refine without_edge.trans (and_congr_right fun inside => ?_)
  rw [← not_or]
  refine not_congr ⟨?_, fun gone => ⟨edge, inside, gone⟩⟩
  rintro ⟨edge', inside', gone⟩
  cases inside.symm.trans inside'
  exact gone

theorem without_congr {gone gone' : Id n → Prop}
    (same : ∀ k edge, G.edge k = some edge → (gone k ↔ gone' k)) : G.without gone = G.without gone' := by
  have edges : (G.without gone).edge = (G.without gone').edge := by
    funext k
    ext edge
    rw [without_edge, without_edge]
    exact and_congr_right fun inside => not_congr (same k edge inside)
  exact congrArg (fun edge => { G with edge }) edges

theorem detach_detach (ids ids' : Id n → Prop) :
    (G.detach ids).detach ids' = G.detach fun x => ids x ∨ ids' x := by
  unfold detach
  rw [without_without]
  refine without_congr fun k edge inside => ?_
  have kept : ∀ edge', (G.detach ids).edge k = some edge' ↔
      G.edge k = some edge' ∧ ¬ ids edge'.source ∧ ¬ ids edge'.target := fun _ => detach_edge
  unfold detach at kept
  simp only [kept, inside, Option.some.injEq, exists_eq_left', and_assoc]
  tauto

theorem detach_none : G.detach (fun _ => False) = G := by
  unfold detach
  simp only [or_self, and_false, exists_false, without_none]

end Fpmas.Graph.GlobalGraph

namespace Fpmas.Synchro.Ghost

open Fpmas.Graph

variable {n : Nat} {T W : Type} {G : GlobalGraph n T W} {extra : Fin n → Id n → Prop}
  {s : GhostSystem n T W}

-- The owner of a node has all its edges once the links have been imported.
theorem Running.unlinkOwned (run : Running G extra s) (order : HashOrder)
    (imported : ∀ q, (s q).linker.linkBuffer = []) {p : Fin n} {id : Id n} (owned : G.Owns p id) :
    ∃ y, (s p).unlinkNode order id = some y ∧
      Running (G.detach (· = id)) extra (Function.update s p y) ∧
      AllUnlinked (s p) y ((s p).view.touching id) := by
  obtain ⟨core, present, _⟩ := (run.hosts.isLocal p id).mpr owned
  obtain ⟨y, result, run', unlinked⟩ := run.unlinkNode order present fun k e found touches clear => by
    obtain ⟨e', found', source, target, _⟩ := run.cleared p k clear
    cases found.symm.trans found'
    rcases touches with rfl | rfl
    · exact source owned
    · exact target owned
  refine ⟨y, result, ?_, unlinked⟩
  have same : G.without ((s p).view.touching id) = G.detach (· = id) := by
    refine GlobalGraph.without_congr fun k edge inside => ?_
    have mine : ∀ e, (s p).view.edge k = some e → e.source = edge.source ∧ e.target = edge.target := by
      intro e found
      by_cases clear : extra p k
      · obtain ⟨e', found', _, _, same⟩ := run.cleared p k clear
        cases found.symm.trans found'
        rw [same edge inside]
        exact ⟨rfl, rfl⟩
      · rw [run.committed k edge inside (by simp [imported]) p clear] at found
        obtain ⟨edge', inside', _, rfl⟩ := GlobalGraph.edgeAt_eq_some.mp found
        cases inside.symm.trans inside'
        exact ⟨rfl, rfl⟩
    constructor
    · rintro ⟨e, found, touches⟩
      obtain ⟨source, target⟩ := mine e found
      refine ⟨edge, inside, ?_⟩
      rw [← source, ← target]
      exact touches
    · rintro ⟨edge', inside', touches⟩
      cases inside.symm.trans inside'
      have near : G.Owns p edge.source ∨ G.Owns p edge.target := by
        rcases touches with same | same
        · exact .inl (same ▸ owned)
        · exact .inr (same ▸ owned)
      have kept : ¬ extra p k := by
        intro clear
        obtain ⟨e, _, source, target, same⟩ := run.cleared p k clear
        rw [same edge inside] at source target
        exact near.elim source target
      refine ⟨_, (run.committed k edge inside (by simp [imported]) p kept).trans
        (GlobalGraph.edgeAt_eq_some.mpr ⟨edge, inside, near, rfl⟩), touches⟩
  exact same ▸ run'

theorem Running.unlinkRequested (order : HashOrder) {p : Fin n} {ids : List (Id n)}
    (run : Running G extra s) (imported : ∀ q, (s q).linker.linkBuffer = [])
    (owned : ∀ id ∈ ids, G.Owns p id) :
    ∃ y, ids.foldlM (fun s id => s.unlinkNode order id) (s p) = some y ∧
      Running (G.detach (· ∈ ids)) extra (Function.update s p y) ∧
      ∃ gone, AllUnlinked (s p) y gone := by
  induction ids generalizing G s with
  | nil =>
    refine ⟨s p, rfl, ?_, fun _ => False, ?_, by simp, rfl, rfl⟩
    · rw [Function.update_eq_self]
      simpa [GlobalGraph.detach_none] using run
    · simp [GraphView.eraseEdges]
  | cons id rest ih =>
    obtain ⟨y, result, run', first⟩ := run.unlinkOwned order imported (owned id List.mem_cons_self)
    have here : (Function.update s p y) p = y := Function.update_self _ _ _
    have empty : ∀ q, (Function.update s p y q).linker.linkBuffer = [] := by
      intro q
      rw [update_field (·.linker.linkBuffer), imported]
      rw [imported, List.eq_nil_iff_forall_not_mem]
      intro k member
      have before := ((first.linkBuffer k).mp member).1
      rw [imported] at before
      cases before
    obtain ⟨z, result', run'', gone, later⟩ := ih run' empty
      fun x member => owned x (List.mem_cons_of_mem id member)
    rw [here] at result' later
    rw [Function.update_idem, GlobalGraph.detach_detach] at run''
    refine ⟨z, ?_, ?_, _, first.trans later⟩
    · rw [List.foldlM_cons, result]
      exact result'
    · simpa only [List.mem_cons] using run''

-- The removals that the processes ask their owners for.
def requests (order : Fin n → HashOrder) (s : GhostSystem n T W) (p : Fin n) : List (Id n) :=
  (migrate (fun q => (s q).linker.removeNodeBuffer) p).flatten (order p)

theorem mem_requests {order : Fin n → HashOrder} {p : Fin n} {id : Id n} :
    id ∈ requests order s p ↔ ∃ q, id ∈ (s q).linker.removeNodeBuffer.valuesAt p := by
  unfold requests
  rw [UnorderedMap.mem_flatten]
  exact exists_congr fun q => by rw [valuesAt_migrate]

-- What the processes in `done` have once they have unlinked the nodes whose removal they receive.
structure RemovalsImported (G : GlobalGraph n T W) (extra : Fin n → Id n → Prop)
    (order : Fin n → HashOrder) (s s' : GhostSystem n T W) (done : Finset (Fin n)) : Prop where
  running : Running (G.detach fun id => ∃ p ∈ done, id ∈ requests order s p) extra s'
  linkBuffer : ∀ p, (s' p).linker.linkBuffer = []
  removeNodeBuffer : ∀ p ∈ done,
    (s' p).linker.removeNodeBuffer = migrate (fun q => (s q).linker.removeNodeBuffer) p
  localNodesToRemove : ∀ p, (s' p).linker.localNodesToRemove = (s p).linker.localNodesToRemove
  view : ∀ p, ∃ gone, (s' p).view = (s p).view.eraseEdges gone

theorem Running.importRemovals (run : Running G extra s) (order : Fin n → HashOrder)
    (imported : ∀ q, (s q).linker.linkBuffer = [])
    (owned : ∀ p, ∀ id ∈ requests order s p, G.Owns p id) :
    ∃ s', (collect fun p => (s p).importRemovals (order p)
        (migrate (fun q => (s q).linker.removeNodeBuffer) p)) = some s' ∧
      RemovalsImported G extra order s s' Finset.univ := by
  refine collect_sequential (f := fun p x => x.importRemovals (order p)
    (migrate (fun q => (s q).linker.removeNodeBuffer) p))
    (fun done t => RemovalsImported G extra order s t done) ?_ ?_
  · intro done p t fresh before
    let x : GhostProcess n T W :=
      { t p with linker := { (t p).linker with
        removeNodeBuffer := migrate (fun q => (s q).linker.removeNodeBuffer) p } }
    have received : Running (G.detach fun id => ∃ q ∈ done, id ∈ requests order s q) extra
        (Function.update t p x) :=
      before.running.congr (update_field (·.graph) rfl) (update_field (·.linker.linkBuffer) rfl)
        (update_field (·.linker.unlinkMigration) rfl)
    obtain ⟨y, result, run', gone, unlinked⟩ := received.unlinkRequested (order p) (p := p)
      (fun q => by
        rw [update_field (·.linker.linkBuffer) (show x.linker.linkBuffer = _ from rfl)]
        exact before.linkBuffer q)
      (fun id member => owned p id member)
    rw [update_at] at result unlinked
    rw [Function.update_idem, GlobalGraph.detach_detach] at run'
    refine ⟨y, result, ?_, fun q => ?_, fun q member => ?_, fun q => ?_, fun q => ?_⟩
    · refine (congrArg (fun H => Running H extra (Function.update t p y)) ?_).mp run'
      congr 1
      funext id
      simp only [Finset.mem_insert, exists_eq_or_imp]
      exact propext or_comm
    · rw [Function.update_apply]
      split
      case isTrue =>
        rw [List.eq_nil_iff_forall_not_mem]
        intro k member
        have pending : k ∈ (t p).linker.linkBuffer := ((unlinked.linkBuffer k).mp member).1
        rw [before.linkBuffer] at pending
        cases pending
      case isFalse => exact before.linkBuffer q
    · rw [Function.update_apply]
      split
      case isTrue same =>
        rw [unlinked.removeNodeBuffer, same]
      case isFalse other =>
        exact before.removeNodeBuffer q (Finset.mem_of_mem_insert_of_ne member other)
    · rw [update_field (·.linker.localNodesToRemove) unlinked.localNodesToRemove]
      exact before.localNodesToRemove q
    · rw [Function.update_apply]
      split
      case isTrue same =>
        subst same
        obtain ⟨first, view⟩ := before.view q
        refine ⟨fun k => first k ∨ gone k, ?_⟩
        rw [unlinked.view, show x.view = (t q).view from rfl, view]
        exact GraphView.eraseEdges_eraseEdges first gone
      case isFalse => exact before.view q
  · refine ⟨?_, imported, by simp, fun _ => rfl, fun p => ⟨fun _ => False, ?_⟩⟩
    · simpa [GlobalGraph.detach_none] using run
    · simp [GraphView.eraseEdges]

end Fpmas.Synchro.Ghost
