import Fpmas.Synchro.Ghost.Removal

set_option autoImplicit false

namespace Fpmas.Synchro.Ghost

open Fpmas.Graph

variable {n : Nat} {T W : Type}

-- The calls that the user of one process makes between two synchronizations.
inductive GhostCall (n : Nat) (T W : Type) where
  | buildNode (process : Fin n) (data : T)
  | setData (process : Fin n) (node : Id n) (data : T) (weight : W)
  | link (process : Fin n) (source target : Id n) (layer : LayerId)
  | unlink (process : Fin n) (edge : Id n)
  | removeNode (process : Fin n) (order : HashOrder) (node : Id n)

namespace GhostCall

def process : GhostCall n T W → Fin n
  | buildNode p _ => p
  | setData p _ _ _ => p
  | link p _ _ _ => p
  | unlink p _ => p
  | removeNode p _ _ => p

def apply [One W] (call : GhostCall n T W) (s : GhostProcess n T W) : Option (GhostProcess n T W) :=
  match call with
  | buildNode _ data => s.buildNode data
  | setData _ node data weight => s.setData node data weight
  | link _ source target layer => s.link source target layer
  | unlink _ edge => s.unlink edge
  | removeNode _ order node => s.removeNode order node

noncomputable def graph [One W] (call : GhostCall n T W) (s : GhostSystem n T W)
    (G : GlobalGraph n T W) : GlobalGraph n T W :=
  match call with
  | buildNode p data => G.buildNode p (s p).view.nodeId data
  | setData p node data weight => G.setData p node data weight
  | link p source target layer => G.link (s p).view.edgeId { layer, weight := 1, source, target }
  | unlink _ edge => G.unlink edge
  | removeNode p _ node => G.without fun k => G.Owns p node ∧ (s p).view.touching node k

end GhostCall

def GhostCall.Removes : GhostCall n T W → Prop
  | .removeNode _ _ _ => True
  | _ => False

def GhostSystem.call [One W] (s : GhostSystem n T W) (call : GhostCall n T W) :
    Option (GhostSystem n T W) :=
  (call.apply (s call.process)).map fun y => Function.update s call.process y

/-- What the linkers know of the nodes that the users have removed. -/
structure Removals (G : GlobalGraph n T W) (s : GhostSystem n T W) : Prop where
  requested : ∀ p q, (s p).linker.removeNodeBuffer.valuesAt q =
    if q = p then [] else (s p).linker.localNodesToRemove.filter (G.Owns q ·)
  present : ∀ p id, id ∈ (s p).linker.localNodesToRemove → ∃ core, (s p).view.core id = some core
  -- A node that its owner has removed keeps the links that are made to it afterwards.
  detached : ∀ p id, id ∈ (s p).linker.localNodesToRemove → G.Owns p id →
    ∀ k edge, G.edge k = some edge → edge.Touches id →
      (∃ q, k ∈ (s q).linker.linkBuffer) ∨ G.Owns p edge.source ∧ G.Owns p edge.target

/-- What holds at any time between two synchronizations. -/
structure Period (G : GlobalGraph n T W) (s : GhostSystem n T W) : Prop where
  running : Running G (fun _ _ => False) s
  removals : Removals G s

section

variable {G : GlobalGraph n T W} {s : GhostSystem n T W}

theorem Period.node (period : Period G s) {p : Fin n} {id : Id n}
    (removed : id ∈ (s p).linker.localNodesToRemove) : ∃ node, G.node id = some node := by
  obtain ⟨core, found⟩ := period.removals.present p id removed
  obtain ⟨node, inside, _⟩ := period.running.hosts.ghost p id core found
  exact ⟨node, inside⟩

theorem Period.keep (period : Period G s) {G' : GlobalGraph n T W} {t : GhostSystem n T W}
    (running : Running G' (fun _ _ => False) t)
    (removed : ∀ p, (t p).linker.localNodesToRemove = (s p).linker.localNodesToRemove)
    (buffer : ∀ p, (t p).linker.removeNodeBuffer = (s p).linker.removeNodeBuffer)
    (owns : ∀ q x node, G.node x = some node → (G'.Owns q x ↔ G.Owns q x))
    (present : ∀ p id core, (s p).view.core id = some core →
      ∃ core, (t p).view.core id = some core)
    (edges : ∀ k edge, G'.edge k = some edge →
      G.edge k = some edge ∧ (∀ q, k ∈ (s q).linker.linkBuffer → k ∈ (t q).linker.linkBuffer) ∨
      (∃ q, k ∈ (t q).linker.linkBuffer) ∨ ∃ q, G'.Owns q edge.source ∧ G'.Owns q edge.target) :
    Period G' t := by
  refine ⟨running, fun p q => ?_, fun p id member => ?_, fun p id member owned k edge inside touches => ?_⟩
  · rw [buffer, removed, period.removals.requested]
    split
    · rfl
    · refine List.filter_congr fun id member => ?_
      obtain ⟨node, inside⟩ := period.node member
      exact decide_eq_decide.mpr (owns q id node inside).symm
  · rw [removed] at member
    obtain ⟨core, found⟩ := period.removals.present p id member
    exact present p id core found
  · rw [removed] at member
    obtain ⟨node, insideNode⟩ := period.node member
    rcases edges k edge inside with ⟨old, pending⟩ | pending | ⟨q, source, target⟩
    · obtain ⟨⟨source, atSource⟩, target, atTarget⟩ := period.running.hosts.closed k edge old
      rcases period.removals.detached p id member ((owns p id node insideNode).mp owned) k edge old
        touches with ⟨q, waits⟩ | both
      · exact .inl ⟨q, pending q waits⟩
      · exact .inr ⟨(owns p _ source atSource).mpr both.1, (owns p _ target atTarget).mpr both.2⟩
    · exact .inl pending
    · have same : q = p := by
        rcases touches with rfl | rfl
        · exact GlobalGraph.owns_unique source owned
        · exact GlobalGraph.owns_unique target owned
      subst same
      exact .inr ⟨source, target⟩

end

theorem Running.nodeId_absent {G : GlobalGraph n T W} {extra : Fin n → Id n → Prop}
    {s : GhostSystem n T W} (run : Running G extra s) (p : Fin n) :
    (s p).graph.getNode (s p).graph.nodeId = none := by
  have absent := (run.hosts.node_fresh p p).2
  rw [GhostProcess.view, DistributedGraph.view_core, Option.map_eq_none_iff] at absent
  exact absent

theorem update_at (s : GhostSystem n T W) (p : Fin n) (y : GhostProcess n T W) :
    (Function.update s p y) p = y := Function.update_self _ _ _

section

variable [One W] {G : GlobalGraph n T W} {s : GhostSystem n T W}

theorem Period.buildNode (period : Period G s) {p : Fin n} {data : T} {y : GhostProcess n T W}
    (result : (s p).buildNode data = some y) :
    Period (G.buildNode p (s p).view.nodeId data) (Function.update s p y) := by
  have run := period.running
  have fresh := run.hosts.node_fresh p
  obtain ⟨g, built, inv, view⟩ := (run.graph p).buildNode data (run.nodeId_absent p)
  have same : y = { s p with graph := g } := by
    unfold GhostProcess.buildNode at result
    rw [built, Option.map_some] at result
    exact (Option.some.inj result).symm
  subst same
  refine period.keep (run.buildNode (y := { s p with graph := g }) inv view rfl)
    (update_field (·.linker.localNodesToRemove) rfl) (update_field (·.linker.removeNodeBuffer) rfl)
    (fun q x node inside => GlobalGraph.buildNode_owns (fresh p).1 inside) ?_ ?_
  · intro q id core found
    rw [Function.update_apply]
    split
    case isTrue here =>
      subst here
      refine ⟨core, ?_⟩
      rw [GhostProcess.view, view]
      refine (Function.update_of_ne ?_ _ _).trans found
      rintro rfl
      cases (fresh q).2.symm.trans found
    case isFalse => exact ⟨core, found⟩
  · intro k edge inside
    refine .inl ⟨inside, fun q member => ?_⟩
    rw [update_field (·.linker.linkBuffer) (by rfl)]
    exact member

omit [One W] in
theorem Period.setData (period : Period G s) {p : Fin n} {id : Id n} {data : T} {weight : W}
    {y : GhostProcess n T W} (result : (s p).setData id data weight = some y) :
    Period (G.setData p id data weight) (Function.update s p y) := by
  have run := period.running
  obtain ⟨node, at_, same⟩ := Option.map_eq_some_iff.mp result
  subst same
  obtain ⟨inv, view⟩ := (run.graph p).setNode { node with data, weight } at_ rfl rfl rfl
  have found : (s p).view.core id = some node.core := by
    show ((s p).graph.getNode id).map _ = _
    rw [at_]
    rfl
  refine period.keep (run.setData (y := { s p with graph := _ }) inv found view rfl)
    (update_field (·.linker.localNodesToRemove) rfl) (update_field (·.linker.removeNodeBuffer) rfl)
    (fun q x node inside => GlobalGraph.setData_owns) ?_ ?_
  · intro q x core present
    rw [Function.update_apply]
    split
    case isTrue here =>
      subst here
      rw [GhostProcess.view, view]
      simp only [Function.update_apply]
      split
      · exact ⟨_, rfl⟩
      · exact ⟨core, present⟩
    case isFalse => exact ⟨core, present⟩
  · intro k edge inside
    refine .inl ⟨inside, fun q member => ?_⟩
    rw [update_field (·.linker.linkBuffer) (by rfl)]
    exact member

theorem link_present {s y : GhostProcess n T W} {source target : Id n} {layer : LayerId}
    (result : s.link source target layer = some y) :
    (∃ core, s.view.core source = some core) ∧ ∃ core, s.view.core target = some core := by
  have core : ∀ {id node}, s.graph.getNode id = some node → ∃ core, s.view.core id = some core := by
    intro id node at_
    refine ⟨node.core, ?_⟩
    show (s.graph.getNode id).map _ = _
    rw [at_]
    rfl
  obtain ⟨⟨g₂, e⟩, built, _⟩ := Option.map_eq_some_iff.mp result
  obtain ⟨g₁, out, built⟩ := Option.bind_eq_some_iff.mp built
  obtain ⟨g₂, into, _⟩ := Option.bind_eq_some_iff.mp built
  obtain ⟨src, atSource, same⟩ := Option.map_eq_some_iff.mp out
  obtain ⟨tgt, atTarget, _⟩ := Option.map_eq_some_iff.mp into
  have atSource' : s.graph.getNode source = some src := atSource
  refine ⟨core atSource', ?_⟩
  rw [← same, DistributedGraph.getNode_setNode] at atTarget
  split at atTarget
  case isTrue loop =>
    rw [loop]
    exact core atSource'
  case isFalse =>
    have atTarget' : s.graph.getNode target = some tgt := atTarget
    exact core atTarget'

theorem Period.link (period : Period G s) {p : Fin n} {source target : Id n} {layer : LayerId}
    {y : GhostProcess n T W} (result : (s p).link source target layer = some y) :
    Period (G.link (s p).view.edgeId { layer, weight := 1, source, target })
      (Function.update s p y) := by
  have run := period.running
  obtain ⟨atSource, atTarget⟩ := link_present result
  obtain ⟨y', result', linked⟩ := link_spec (run.graph p) layer (run.edge_fresh p p).2 atSource atTarget
  cases result.symm.trans result'
  have linker : ∀ {α : Type} (f : GhostSyncLinker n → α),
      (∀ linker edge state, f (linker.link edge state) = f linker) →
      ∀ q, f (Function.update s p y q).linker = f (s q).linker := by
    intro α f same
    refine update_field (fun x => f x.linker) ?_
    rw [linked.linker, same]
  have keeps : ∀ (linker : GhostSyncLinker n) edge state, (linker.link edge state).localNodesToRemove =
      linker.localNodesToRemove ∧ (linker.link edge state).removeNodeBuffer = linker.removeNodeBuffer := by
    intro linker edge state
    unfold GhostSyncLinker.link
    split <;> exact ⟨rfl, rfl⟩
  refine period.keep (run.link linked atSource atTarget)
    (linker _ fun _ _ _ => (keeps _ _ _).1) (linker _ fun _ _ _ => (keeps _ _ _).2)
    (fun _ _ _ _ => .rfl) ?_ ?_
  · intro q id core found
    rw [Function.update_apply]
    split
    case isTrue here =>
      subst here
      rw [linked.view]
      exact ⟨core, found⟩
    case isFalse => exact ⟨core, found⟩
  · intro k edge inside
    rw [GlobalGraph.link_edge] at inside
    split at inside
    case isTrue same =>
      cases inside
      subst same
      right
      by_cases near : G.Owns p source ∧ G.Owns p target
      · exact .inr ⟨p, near⟩
      · refine .inl ⟨p, ?_⟩
        rw [update_at, linked.linker]
        unfold GhostSyncLinker.link GraphView.edgeState
        simp only [run.hosts.isLocal p, if_neg near, if_true, List.mem_append, List.mem_singleton,
          or_true]
    case isFalse =>
      refine .inl ⟨inside, fun q member => ?_⟩
      rw [Function.update_apply]
      split
      case isTrue here =>
        subst here
        rw [linked.linker]
        unfold GhostSyncLinker.link
        split
        · exact List.mem_append_left _ member
        · exact member
      case isFalse => exact member

omit [One W] in
theorem Period.unlink (period : Period G s) {p : Fin n} {k : Id n} {y : GhostProcess n T W}
    (result : (s p).unlink k = some y) : Period (G.unlink k) (Function.update s p y) := by
  obtain ⟨_, buffered, _⟩ := Option.bind_eq_some_iff.mp result
  obtain ⟨e, found, _⟩ := Option.bind_eq_some_iff.mp buffered
  obtain ⟨y', result', run', unlinked⟩ := period.running.unlinkOne (e := e) found not_false
  cases result.symm.trans result'
  refine period.keep run' (update_field (·.linker.localNodesToRemove) unlinked.localNodesToRemove)
    (update_field (·.linker.removeNodeBuffer) unlinked.removeNodeBuffer) (fun _ _ _ _ => .rfl) ?_ ?_
  · intro q id core present
    rw [Function.update_apply]
    split
    case isTrue here =>
      subst here
      rw [unlinked.view]
      exact ⟨core, present⟩
    case isFalse => exact ⟨core, present⟩
  · intro j edge inside
    rw [GlobalGraph.unlink_edge, Option.ite_none_left_eq_some] at inside
    obtain ⟨other, inside⟩ := inside
    refine .inl ⟨inside, fun q member => ?_⟩
    rw [Function.update_apply]
    split
    case isTrue here =>
      subst here
      exact (unlinked.linkBuffer j).mpr ⟨member, other⟩
    case isFalse => exact member

end

section

variable {G : GlobalGraph n T W} {s : GhostSystem n T W}

theorem Running.congr {extra : Fin n → Id n → Prop} (run : Running G extra s) {t : GhostSystem n T W}
    (graph : ∀ p, (t p).graph = (s p).graph)
    (linkBuffer : ∀ p, (t p).linker.linkBuffer = (s p).linker.linkBuffer)
    (unlinkMigration : ∀ p, (t p).linker.unlinkMigration = (s p).linker.unlinkMigration) :
    Running G extra t := by
  have view : ∀ p, (t p).view = (s p).view := fun p => congrArg DistributedGraph.view (graph p)
  constructor
  · exact fun p => graph p ▸ run.graph p
  · simpa only [view] using run.hosts
  · simpa only [view] using run.agree
  · simpa only [view, linkBuffer] using run.buffered
  · simpa only [linkBuffer] using run.once
  · simpa only [view, linkBuffer] using run.committed
  · simpa only [view] using run.cleared
  · simpa only [view, unlinkMigration] using run.stale
  · simpa only [view, unlinkMigration] using run.unlinked

section

variable {p : Fin n} {id : Id n} {y : GhostProcess n T W}

-- `removeNode` lists its node on its process, whoever owns it.
theorem mem_listed
    (listed : y.linker.localNodesToRemove = (s p).linker.localNodesToRemove ++ [id]) {q : Fin n}
    {x : Id n} : x ∈ (Function.update s p y q).linker.localNodesToRemove ↔
      x ∈ (s q).linker.localNodesToRemove ∨ q = p ∧ x = id := by
  by_cases here : q = p
  · subst here
    rw [update_at, listed]
    simp
  · rw [Function.update_of_ne here]
    simp [here]

theorem Removals.present_listed (removals : Removals G s) {core : NodeCore n T W}
    (listed : y.linker.localNodesToRemove = (s p).linker.localNodesToRemove ++ [id])
    (same : y.view.core = (s p).view.core) (found : (s p).view.core id = some core) (q : Fin n) (x : Id n)
    (member : x ∈ (Function.update s p y q).linker.localNodesToRemove) :
    ∃ core, (Function.update s p y q).view.core x = some core := by
  rw [update_field (·.view.core) same]
  rcases (mem_listed listed).mp member with old | ⟨rfl, rfl⟩
  · exact removals.present q x old
  · exact ⟨core, found⟩

-- The node of another process: its owner is to be asked.
theorem Period.removeDistant (period : Period G s) {owner : Fin n} (owned : G.Owns owner id)
    (away : owner ≠ p) {core : NodeCore n T W} (found : (s p).view.core id = some core)
    (asked : y = { s p with linker := { (s p).linker with
      removeNodeBuffer := (s p).linker.removeNodeBuffer.push owner id
      localNodesToRemove := (s p).linker.localNodesToRemove ++ [id] } }) :
    Period G (Function.update s p y) := by
  have listed : y.linker.localNodesToRemove = (s p).linker.localNodesToRemove ++ [id] := by
    rw [asked]
  have view : y.view = (s p).view := by
    rw [asked]
    rfl
  have buffer : ∀ q, (Function.update s p y q).linker.linkBuffer = (s q).linker.linkBuffer :=
    update_field (·.linker.linkBuffer) (by rw [asked])
  constructor
  case running =>
    exact period.running.congr (update_field (·.graph) (by rw [asked])) buffer
      (update_field (·.linker.unlinkMigration) (by rw [asked]))
  case removals =>
    refine ⟨fun q r => ?_, period.removals.present_listed listed (congrArg GraphView.core view) found,
      fun q x member mine k edge inside touches => ?_⟩
    · by_cases here : q = p
      · subst here
        rw [update_at, asked]
        dsimp only
        rw [UnorderedMap.valuesAt_push, period.removals.requested, List.filter_append]
        by_cases target : r = owner
        · subst target
          simp [away, owned]
        · by_cases self : r = q
          · subst self
            simp [target]
          · have other : ¬ G.Owns r id := fun mine => target (GlobalGraph.owns_unique mine owned)
            simp [target, self, other]
      · rw [Function.update_of_ne here]
        exact period.removals.requested q r
    · have old : x ∈ (s q).linker.localNodesToRemove := by
        rcases (mem_listed listed).mp member with old | ⟨rfl, rfl⟩
        · exact old
        · exact absurd (GlobalGraph.owns_unique owned mine) away
      exact (period.removals.detached q x old mine k edge inside touches).imp_left
        fun ⟨r, pending⟩ => ⟨r, (buffer r).symm ▸ pending⟩

-- The node of the process: its edges are unlinked at once.
theorem Period.removeLocal (period : Period G s) (owned : G.Owns p id) {core : NodeCore n T W}
    (found : (s p).view.core id = some core) {z : GhostProcess n T W}
    (running : Running (G.without ((s p).view.touching id)) (fun _ _ => False) (Function.update s p z))
    (effect : AllUnlinked (s p) z ((s p).view.touching id))
    (unlinked : y = { z with linker := { z.linker with
      localNodesToRemove := z.linker.localNodesToRemove ++ [id] } }) :
    Period (G.without ((s p).view.touching id)) (Function.update s p y) := by
  have listed : y.linker.localNodesToRemove = (s p).linker.localNodesToRemove ++ [id] := by
    rw [unlinked, ← effect.localNodesToRemove]
  have core' : y.view.core = (s p).view.core := by
    rw [unlinked]
    show z.view.core = _
    rw [effect.view]
    rfl
  have waits : ∀ q k, k ∈ (s q).linker.linkBuffer → ¬ (s p).view.touching id k →
      k ∈ (Function.update s p y q).linker.linkBuffer := by
    intro q k pending kept
    by_cases here : q = p
    · subst here
      rw [update_at, unlinked]
      exact (effect.linkBuffer k).mpr ⟨pending, kept⟩
    · rwa [Function.update_of_ne here]
  constructor
  case running =>
    rw [unlinked]
    refine running.congr (fun q => ?_) (fun q => ?_) (fun q => ?_) <;>
      (rw [Function.update_apply, Function.update_apply]; split <;> rfl)
  case removals =>
    refine ⟨fun q r => ?_, period.removals.present_listed listed core' found,
      fun q x member mine k edge inside touches => ?_⟩
    · by_cases here : q = p
      · subst here
        rw [update_at, listed, unlinked]
        show z.linker.removeNodeBuffer.valuesAt r = _
        rw [effect.removeNodeBuffer, period.removals.requested, List.filter_append]
        by_cases self : r = q
        · simp [self]
        · have other : ¬ (G.without ((s q).view.touching id)).Owns r id := fun mine =>
            self (GlobalGraph.owns_unique (G := G) mine owned)
          simp [self, other]
          rfl
      · rw [Function.update_of_ne here]
        exact period.removals.requested q r
    · obtain ⟨before, kept⟩ := GlobalGraph.without_edge.mp inside
      have waiting : (∃ r, k ∈ (s r).linker.linkBuffer) →
          ∃ r, k ∈ (Function.update s p y r).linker.linkBuffer :=
        fun ⟨r, pending⟩ => ⟨r, waits r k pending kept⟩
      rcases (mem_listed listed).mp member with old | ⟨rfl, rfl⟩
      · exact (period.removals.detached q x old mine k edge before touches).imp_left waiting
      · left
        apply waiting
        -- An edge of the node that is not pending is stored by its owner.
        by_contra absent
        have stored := period.running.committed k edge before (fun r pending => absent ⟨r, pending⟩) q
          not_false
        have end_ : G.Owns q edge.source ∨ G.Owns q edge.target := by
          rcases touches with rfl | rfl
          · exact .inl owned
          · exact .inr owned
        rw [GlobalGraph.edgeAt_eq_some.mpr ⟨edge, before, end_, rfl⟩] at stored
        exact kept ⟨_, stored, touches⟩

theorem Period.removeNode (period : Period G s) {order : HashOrder}
    (result : (s p).removeNode order id = some y) :
    Period (G.without fun k => G.Owns p id ∧ (s p).view.touching id k) (Function.update s p y) := by
  have run := period.running
  obtain ⟨node, at_, result⟩ := Option.bind_eq_some_iff.mp result
  have found : (s p).view.core id = some node.core := by
    show ((s p).graph.getNode id).map _ = _
    rw [at_]
    rfl
  cases state : node.state with
  | DISTANT =>
    obtain ⟨owned, away⟩ := run.hosts.owner_of_ghost found state
    have nothing : (fun k => G.Owns p id ∧ (s p).view.touching id k) = fun _ => False := by
      funext k
      exact propext ⟨fun both => away (GlobalGraph.owns_unique owned both.1), False.elim⟩
    rw [state] at result
    rw [nothing, GlobalGraph.without_none]
    exact period.removeDistant owned away found (Option.some.inj result).symm
  | LOCAL =>
    have owned : G.Owns p id := (run.hosts.isLocal p id).mp ⟨node.core, found, state⟩
    have touching : (fun k => G.Owns p id ∧ (s p).view.touching id k) = (s p).view.touching id := by
      funext k
      simp [owned]
    obtain ⟨z, unlinked, running, effect⟩ := run.unlinkNode order found fun _ _ _ _ => not_false
    rw [state] at result
    dsimp only at result
    rw [unlinked, Option.map_some] at result
    rw [touching]
    exact period.removeLocal owned found running effect (Option.some.inj result).symm

end

end

section

variable [One W] {G : GlobalGraph n T W} {s : GhostSystem n T W}

theorem Period.call (period : Period G s) {call : GhostCall n T W} {t : GhostSystem n T W}
    (result : s.call call = some t) : Period (call.graph s G) t := by
  obtain ⟨y, applied, rfl⟩ := Option.map_eq_some_iff.mp result
  cases call with
  | buildNode p data => exact period.buildNode applied
  | setData p node data weight => exact period.setData applied
  | link p source target layer => exact period.link applied
  | unlink p edge => exact period.unlink applied
  | removeNode p order node => exact period.removeNode applied

end

end Fpmas.Synchro.Ghost
