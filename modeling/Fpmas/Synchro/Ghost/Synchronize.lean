import Fpmas.Graph.Relocation
import Fpmas.Synchro.Ghost.Commit
import Fpmas.Synchro.Ghost.DataSync

set_option autoImplicit false

namespace Fpmas.Graph

variable {n : Nat} {T W : Type}

def DistributedEdge.Joins (edge : DistributedEdge n W) (x y : Id n) : Prop :=
  edge.source = x ∧ edge.target = y ∨ edge.source = y ∧ edge.target = x

namespace GlobalGraph

variable (G : GlobalGraph n T W)

noncomputable def removeNodes (ids : Id n → Prop) : GlobalGraph n T W :=
  open Classical in { G.detach ids with node := fun id => if ids id then none else G.node id }

variable {G}

theorem removeNodes_node {ids : Id n → Prop} {id : Id n} {node : GlobalNode n T W} :
    (G.removeNodes ids).node id = some node ↔ G.node id = some node ∧ ¬ ids id := by
  unfold removeNodes
  by_cases gone : ids id <;> simp [gone]

theorem removeNodes_edge {ids : Id n → Prop} {k : Id n} {edge : GlobalEdge n W} :
    (G.removeNodes ids).edge k = some edge ↔
      G.edge k = some edge ∧ ¬ ids edge.source ∧ ¬ ids edge.target :=
  detach_edge

theorem removeNodes_none {ids : Id n → Prop} (nothing : ∀ id, ¬ ids id) : G.removeNodes ids = G := by
  have none_ : ids = fun _ => False := funext fun id => eq_false (nothing id)
  subst none_
  unfold removeNodes
  simp only [if_false]
  rw [detach_none]

theorem owns_removeNodes {ids : Id n → Prop} {p : Fin n} {id : Id n} :
    (G.removeNodes ids).Owns p id ↔ G.Owns p id ∧ ¬ ids id := by
  unfold Owns
  simp only [removeNodes_node]
  constructor
  · rintro ⟨node, ⟨inside, kept⟩, owner⟩
    exact ⟨⟨node, inside, owner⟩, kept⟩
  · rintro ⟨⟨node, inside, owner⟩, kept⟩
    exact ⟨node, ⟨inside, kept⟩, owner⟩

end GlobalGraph

end Fpmas.Graph

namespace Fpmas.Synchro.Ghost

open Fpmas.Graph

variable {n : Nat} {T W : Type}

section

variable (s : GhostSystem n T W)

-- Some process has removed the node since the last synchronization.
def Removed (id : Id n) : Prop := ∃ p, id ∈ (s p).linker.localNodesToRemove

def PendingLink (e : DistributedEdge n W) : Prop :=
  ∃ q k, k ∈ (s q).linker.linkBuffer ∧ (s q).graph.getEdge k = some e

/-- No pending link joins a node that its own process removes to a node that nobody removes, on
another process. -/
def NoCrossing : Prop :=
  ∀ e x y p, PendingLink s e → e.Joins x y → (s p).view.IsLocal x →
    x ∈ (s p).linker.localNodesToRemove → (s p).view.IsLocal y ∨ Removed s y

/-- A removed node is only on its own process and on the one that has removed it, and no pending
link brings it to another one. -/
def Forgotten : Prop :=
  ∀ p id, Removed s id → id ∉ (s p).linker.localNodesToRemove → ¬ (s p).view.IsLocal id →
    (s p).graph.getNode id = none ∧ ∀ e, PendingLink s e → e.Touches id →
      ¬ (s p).view.IsLocal e.source ∧ ¬ (s p).view.IsLocal e.target

end

/-- The state of the processes when a synchronizing call returns. -/
structure Synchronized (G : GlobalGraph n T W) (s : GhostSystem n T W) : Prop where
  graph : ∀ p, GraphInv (s p).graph
  represents : Represents G fun p => (s p).view
  linker : ∀ p, (s p).linker = .empty
  data : ∀ p id core, (s p).view.core id = some core → ∃ node, G.node id = some node ∧
    core.data = node.data ∧ core.weight = node.weight

section

variable {G : GlobalGraph n T W} {s s' : GhostSystem n T W}

open GlobalGraph

theorem Removed.erased {p : Fin n} {id : Id n} (removed : Removed s id)
    (owned : G.Owns p id) : Erased G s p id := by
  obtain ⟨q, member⟩ := removed
  by_cases same : q = p
  · exact .inl (same ▸ member)
  · exact .inr ⟨owned, q, same, member⟩

theorem Erased.removed {p : Fin n} {id : Id n} (erased : Erased G s p id) : Removed s id := by
  rcases erased with mine | ⟨_, q, _, member⟩
  · exact ⟨p, mine⟩
  · exact ⟨q, member⟩

theorem Period.pendingLink (period : Period G s) {q : Fin n} {k : Id n} {edge : GlobalEdge n W}
    (member : k ∈ (s q).linker.linkBuffer) (inside : G.edge k = some edge) :
    PendingLink s (edge.stored .DISTANT) := by
  obtain ⟨edge', inside', _, only⟩ := period.running.buffered q k member
  cases inside.symm.trans inside'
  exact ⟨q, k, member, (only q).trans (if_pos rfl)⟩

theorem Period.removedByOwner (period : Period G s) {id : Id n} (removed : Removed s id)
    (unasked : ¬ ∃ q, Requested G s q id) :
    ∃ p, G.Owns p id ∧ id ∈ (s p).linker.localNodesToRemove := by
  obtain ⟨q, member⟩ := removed
  obtain ⟨node, inside⟩ := period.node member
  have owned : G.Owns node.owner id := ⟨node, inside, rfl⟩
  by_cases same : q = node.owner
  · exact ⟨node.owner, owned, same ▸ member⟩
  · exact absurd ⟨node.owner, owned, q, same, member⟩ unasked

theorem Committed.isLocal (committed : Committed G s s') (period : Period G s) {p : Fin n}
    {id : Id n} : (s' p).view.IsLocal id ↔ (G.removeNodes (Removed s)).Owns p id := by
  rw [owns_removeNodes]
  constructor
  · rintro ⟨core, found, state⟩
    obtain ⟨node, inside, away⟩ := committed.host p id core found
    have owned : G.Owns p id := by
      refine ⟨node, inside, ?_⟩
      by_contra other
      rw [(away (Ne.symm other)).1] at state
      cases state
    refine ⟨owned, fun removed => ?_⟩
    cases (committed.gone p id (removed.erased owned)).symm.trans found
  · rintro ⟨⟨node, inside, rfl⟩, kept⟩
    exact ⟨_, committed.kept _ id _ (period.running.hosts.home id node inside)
      fun erased => kept erased.removed, rfl⟩

-- Without crossing links, the edges that are left are those of the nodes that are left.
theorem Committed.edges (committed : Committed G s s') (period : Period G s)
    (apart : NoCrossing s) (p : Fin n) (k : Id n) :
    (s' p).view.edge k = (G.removeNodes (Removed s)).edgeAt p k := by
  have left : ∀ edge, G.edge k = some edge → ∀ x y, (edge.stored .DISTANT).Joins x y →
      (¬ ∃ q, Requested G s q x) → (G.Owns p x ∨ G.Owns p y) → ¬ Erased G s p x → ¬ Erased G s p y →
      ¬ Removed s x := by
    intro edge inside x y joins unasked near keptX keptY removed
    obtain ⟨o, owned, member⟩ := period.removedByOwner removed unasked
    have away : o ≠ p := by
      rintro rfl
      exact keptX (.inl member)
    have other : G.Owns p y := near.resolve_left fun mine => away (owns_unique owned mine)
    have touches : edge.Touches x := by
      rcases joins with ⟨rfl, _⟩ | ⟨_, rfl⟩
      · exact .inl rfl
      · exact .inr rfl
    rcases period.removals.detached o x member owned k edge inside touches with ⟨q, pending⟩ | both
    · rcases apart _ x y o (period.pendingLink pending inside) joins
        ((period.running.hosts.isLocal o x).mpr owned) member with near | gone
      · exact away (owns_unique ((period.running.hosts.isLocal o y).mp near) other)
      · exact keptY (gone.erased other)
    · have mine : G.Owns o y := by
        rcases joins with ⟨_, rfl⟩ | ⟨rfl, _⟩
        · exact both.2
        · exact both.1
      exact away (owns_unique mine other)
  have state : ∀ edge, ¬ Removed s edge.source → ¬ Removed s edge.target →
      (G.removeNodes (Removed s)).stateAt p edge = G.stateAt p edge := by
    intro edge source target
    unfold GlobalGraph.stateAt
    simp only [owns_removeNodes, source, target, not_false_eq_true, and_true]
  ext e
  rw [committed.edge, edgeAt_eq_some, edgeAt_eq_some]
  constructor
  · rintro ⟨⟨edge, inside, near, rfl⟩, keptSource, keptTarget⟩
    obtain ⟨inside, unaskedSource, unaskedTarget⟩ := detach_edge.mp inside
    have source := left edge inside edge.source edge.target (.inl ⟨rfl, rfl⟩) unaskedSource near
      keptSource keptTarget
    have target := left edge inside edge.target edge.source (.inr ⟨rfl, rfl⟩) unaskedTarget near.symm
      keptTarget keptSource
    refine ⟨edge, removeNodes_edge.mpr ⟨inside, source, target⟩, ?_, ?_⟩
    · rw [owns_removeNodes, owns_removeNodes]
      exact near.imp (⟨·, source⟩) (⟨·, target⟩)
    · rw [state edge source target]
      rfl
  · rintro ⟨edge, inside, near, rfl⟩
    obtain ⟨inside, source, target⟩ := removeNodes_edge.mp inside
    rw [owns_removeNodes, owns_removeNodes] at near
    refine ⟨⟨edge, ?_, near.imp And.left And.left, ?_⟩, fun erased => source erased.removed,
      fun erased => target erased.removed⟩
    · refine detach_edge.mpr ⟨inside, ?_, ?_⟩
      · exact fun requested => requested.elim fun _ asked => source (Erased.removed (.inr asked))
      · exact fun requested => requested.elim fun _ asked => target (Erased.removed (.inr asked))
    · rw [state edge source target]
      rfl

theorem Committed.represents (committed : Committed G s s') (period : Period G s)
    {v : Fin n → GraphView n T W}
    (core : ∀ p id, (v p).core id = (s' p).view.core id ∨
      ¬ (s' p).view.IsLocal id ∧ (v p).core id = none)
    (clean : ∀ p id, Removed s id → (v p).core id = none)
    (edge : ∀ p k, (v p).edge k = (G.removeNodes (Removed s)).edgeAt p k)
    (rest : ∀ p, v p = { (s' p).view with
      core := (v p).core
      edge := (v p).edge }) : Represents (G.removeNodes (Removed s)) v := by
  have hosts := period.running.hosts
  have field : ∀ {α : Type} (f : GraphView n T W → α),
      (∀ v core edge, f { v with core, edge } = f v) → ∀ q, f (v q) = f (s q).view := by
    intro α f same q
    rw [rest, same, committed.rest, same]
  refine ⟨⟨?_, ?_, ?_, ?_, ?_, ?_, ?_, ?_, ?_, ?_⟩, edge⟩
  · intro p
    rw [field GraphView.rank fun _ _ _ => rfl]
    exact hosts.rank p
  · intro id node inside
    obtain ⟨inside, kept⟩ := removeNodes_node.mp inside
    have home := committed.kept _ id _ (hosts.home id node inside) fun erased => kept erased.removed
    rcases core node.owner id with same | ⟨away, _⟩
    · exact same.trans home
    · exact absurd ⟨_, home, rfl⟩ away
  · intro p id c found
    rcases core p id with same | ⟨_, gone⟩
    · obtain ⟨node, inside, away⟩ := committed.host p id c (same.symm.trans found)
      refine ⟨node, removeNodes_node.mpr ⟨inside, fun removed => ?_⟩, away⟩
      cases (clean p id removed).symm.trans found
    · cases gone.symm.trans found
  · intro k edge inside
    obtain ⟨inside, source, target⟩ := removeNodes_edge.mp inside
    obtain ⟨⟨src, atSource⟩, tgt, atTarget⟩ := hosts.closed k edge inside
    exact ⟨⟨src, removeNodes_node.mpr ⟨atSource, source⟩⟩, tgt,
      removeNodes_node.mpr ⟨atTarget, target⟩⟩
  · intro id node inside
    rw [field GraphView.managed fun _ _ _ => rfl]
    exact hosts.managed id node (removeNodes_node.mp inside).1
  · intro p id fresh
    rw [field GraphView.newLocal fun _ _ _ => rfl] at fresh
    obtain ⟨rank, owner⟩ := hosts.newLocal p id fresh
    exact ⟨rank, fun node inside => owner node (removeNodes_node.mp inside).1⟩
  · intro p
    rw [field GraphView.nodeId fun _ _ _ => rfl]
    exact hosts.nodeId p
  · intro p
    rw [field GraphView.edgeId fun _ _ _ => rfl]
    exact hosts.edgeId p
  · intro id node inside
    rw [field GraphView.nodeId fun _ _ _ => rfl]
    exact hosts.nodesIssued id node (removeNodes_node.mp inside).1
  · intro k edge inside
    rw [field GraphView.edgeId fun _ _ _ => rfl]
    exact hosts.edgesIssued k edge (removeNodes_edge.mp inside).1

theorem Forgotten.noCrossing (forgotten : Forgotten s) (once : RemovedOnce s) (period : Period G s) :
    NoCrossing s := by
  intro e x y p pending joins near member
  have hosts := period.running.hosts
  obtain ⟨q, k, waits, found⟩ := pending
  obtain ⟨edge, inside, _, only⟩ := period.running.buffered q k waits
  cases found.symm.trans ((only q).trans (if_pos rfl))
  have insideY : ∃ node, G.node y = some node := by
    obtain ⟨source, target⟩ := hosts.closed k edge inside
    rcases joins with ⟨_, rfl⟩ | ⟨rfl, _⟩
    · exact target
    · exact source
  obtain ⟨node, insideY⟩ := insideY
  have owned : (s node.owner).view.IsLocal y := (hosts.isLocal _ _).mpr ⟨node, insideY, rfl⟩
  by_cases same : node.owner = p
  · exact .inl (same ▸ owned)
  have away : ¬ (s node.owner).view.IsLocal x := fun here =>
    same (owns_unique ((hosts.isLocal _ _).mp here) ((hosts.isLocal _ _).mp near))
  have touches : (edge.stored .DISTANT).Touches x := by
    rcases joins with ⟨rfl, _⟩ | ⟨_, rfl⟩
    · exact .inl rfl
    · exact .inr rfl
  have far := (forgotten node.owner x ⟨p, member⟩ (fun mine => same (once.apart _ _ x mine member))
    away).2 _ ⟨q, k, waits, found⟩ touches
  rcases joins with ⟨_, rfl⟩ | ⟨rfl, _⟩
  · exact absurd owned far.2
  · exact absurd owned far.1

theorem Synchronized.period (synced : Synchronized G s) : Period G s := by
  have nothing : ∀ p, (s p).linker.linkBuffer = [] ∧ (s p).linker.unlinkMigration = ∅ ∧
      (s p).linker.removeNodeBuffer = ∅ ∧ (s p).linker.localNodesToRemove = [] := by
    intro p
    rw [synced.linker]
    exact ⟨rfl, rfl, rfl, rfl⟩
  have edges := synced.represents.edges
  refine ⟨⟨synced.graph, synced.represents.toHosts, ?_, ?_, ?_, ?_, ?_, ?_, ?_⟩, ⟨?_, ?_, ?_⟩⟩
  · intro p q k e e' one two
    obtain ⟨edge, inside, _, rfl⟩ := edgeAt_eq_some.mp ((edges p k).symm.trans one)
    obtain ⟨edge', inside', _, rfl⟩ := edgeAt_eq_some.mp ((edges q k).symm.trans two)
    cases inside.symm.trans inside'
    rfl
  · intro p k member
    rw [(nothing p).1] at member
    cases member
  · intro p
    rw [(nothing p).1]
    exact List.nodup_nil
  · exact fun k edge _ _ p _ => edges p k
  · exact fun _ _ absurd => absurd.elim
  · intro p k e found lost _
    obtain ⟨edge, inside, _⟩ := edgeAt_eq_some.mp ((edges p k).symm.trans found)
    cases lost.symm.trans inside
  · intro q p k pending
    rw [(nothing q).2.1] at pending
    cases pending
  · intro p q
    rw [(nothing p).2.2.1, (nothing p).2.2.2]
    simp
  · intro p id member
    rw [(nothing p).2.2.2] at member
    cases member
  · intro p id member
    rw [(nothing p).2.2.2] at member
    cases member

variable [One W] (light : T → T) (order : Fin n → HashOrder)

omit [One W] in
theorem synchronized_of_represents {t : GhostSystem n T W} {g : Fin n → DistributedGraph n T W}
    (inv : ∀ p, GraphInv (g p)) (represents : Represents G fun p => (g p).view)
    (linker : ∀ p, (t p).linker = .empty) :
    ∃ g', synchronizeData order g = some g' ∧ Synchronized G (t.withGraphs g') := by
  obtain ⟨g', result, inv', represents', data⟩ := synchronizeData_represents order inv represents
  exact ⟨g', result, inv', represents', linker, data⟩

omit [One W] in
theorem Committed.clear (committed : Committed G s s') :
    ∃ g, (collect fun p => (s' p).graph.clearDistantNodes (order p)) = some g ∧
      ∀ p, GraphInv (g p) ∧ GraphView.Cleared (s' p).view (g p).view (s' p).view.IsDistant :=
  collect_some fun p => (committed.graph p).clearDistantNodes (order p)

theorem Period.synchronize (period : Period G s) (once : RemovedOnce s) (apart : NoCrossing s) :
    ∃ t, s.synchronize light order = some t ∧ Synchronized (G.removeNodes (Removed s)) t := by
  obtain ⟨s', result, committed⟩ := (period.commitLinks light order).1 once
  obtain ⟨g, clear, good⟩ := committed.clear order
  have cleared := fun p => (good p).2
  have edges := committed.edges period apart
  have represents : Represents (G.removeNodes (Removed s)) fun p => (g p).view := by
    refine committed.represents period (fun p id => ?_) (fun p id removed => ?_) (fun p k => ?_)
      fun p => (cleared p).rest
    · rcases (cleared p).core id with same | ⟨⟨c, found, state⟩, gone⟩
      · exact .inl same
      · refine .inr ⟨?_, gone⟩
        rintro ⟨c', found', state'⟩
        cases found.symm.trans found'
        cases state.symm.trans state'
    · -- A removed node has no edge left, so that the process that still has it clears it.
      cases present : (s' p).view.core id with
      | none =>
        rcases (cleared p).core id with same | ⟨_, gone⟩
        · exact same.trans present
        · exact gone
      | some c =>
        have distant : (s' p).view.IsDistant id := by
          refine ⟨c, present, ?_⟩
          rw [← LocationState.not_local]
          intro near
          exact (owns_removeNodes.mp ((committed.isLocal period).mp ⟨c, present, near⟩)).2 removed
        refine (cleared p).isolated id distant fun k e found => ?_
        obtain ⟨edge, inside, _, rfl⟩ := edgeAt_eq_some.mp ((edges p k).symm.trans found)
        obtain ⟨_, source, target⟩ := removeNodes_edge.mp inside
        have touched : edge.source ≠ id ∧ edge.target ≠ id := by
          constructor
          · rintro rfl
            exact source removed
          · rintro rfl
            exact target removed
        exact ⟨fun same => absurd same touched.2, fun same => absurd same touched.1⟩
    · ext e
      rw [(cleared p).edge, edges]
      refine and_iff_left_of_imp fun found => ?_
      rintro ⟨_, source, target⟩
      rw [committed.isLocal period] at source target
      obtain ⟨edge, _, near, rfl⟩ := edgeAt_eq_some.mp found
      exact near.elim source target
  obtain ⟨g', exchanged, synced⟩ := synchronized_of_represents order (t := s'.withGraphs g)
    (fun p => (good p).1) represents committed.linker
  refine ⟨_, ?_, synced⟩
  unfold GhostSystem.synchronize GhostSystem.commit
  rw [result, Option.bind_some, clear, Option.map_some, Option.bind_some]
  show (synchronizeData order g).map _ = _
  rw [exchanged]
  rfl

-- A process asks for the data of a node that its owner has erased.
theorem Period.synchronize_only (period : Period G s) {t : GhostSystem n T W}
    (result : s.synchronize light order = some t) : RemovedOnce s ∧ NoCrossing s := by
  obtain ⟨u, commit, exchanged⟩ := Option.bind_eq_some_iff.mp result
  obtain ⟨s', linked, clear⟩ := Option.bind_eq_some_iff.mp commit
  have once := (period.commitLinks light order).2 s' linked
  refine ⟨once, ?_⟩
  obtain ⟨s'', linked', committed⟩ := (period.commitLinks light order).1 once
  cases linked.symm.trans linked'
  obtain ⟨g, clear', good⟩ := committed.clear order
  rw [clear', Option.map_some, Option.some.injEq] at clear
  subst clear
  intro e x y p pending joins near member
  have hosts := period.running.hosts
  obtain ⟨q, k, waits, found⟩ := pending
  obtain ⟨edge, inside, _, only⟩ := period.running.buffered q k waits
  cases found.symm.trans ((only q).trans (if_pos rfl))
  by_contra crossing
  rw [not_or] at crossing
  obtain ⟨away, stays⟩ := crossing
  have ownedX : G.Owns p x := (hosts.isLocal p x).mp near
  obtain ⟨node, insideY⟩ : ∃ node, G.node y = some node := by
    obtain ⟨source, target⟩ := hosts.closed k edge inside
    rcases joins with ⟨_, rfl⟩ | ⟨rfl, _⟩
    · exact target
    · exact source
  let r := node.owner
  have ownedY : G.Owns r y := ⟨node, insideY, rfl⟩
  have other : r ≠ p := fun same => away ((hosts.isLocal p y).mpr (same ▸ ownedY))
  have unasked : ¬ ∃ q, Requested G s q x := by
    rintro ⟨o, owned, q', apart, member'⟩
    exact apart ((once.apart q' p x member' member).trans (owns_unique ownedX owned))
  have keptX : ¬ Erased G s r x := by
    rintro (mine | asked)
    · exact other (once.apart r p x mine member)
    · exact unasked ⟨r, asked⟩
  have keptY : ¬ Erased G s r y := fun erased => stays erased.removed
  have unaskedY : ¬ ∃ q, Requested G s q y := fun requested =>
    requested.elim fun _ asked => stays (Erased.removed (.inr asked))
  -- The owner of `y` keeps the edge, hence a ghost of `x`.
  obtain ⟨e', stored, joins'⟩ : ∃ e', (s' r).view.edge k = some e' ∧ e'.Joins x y := by
    refine ⟨edge.stored ((G.detach fun id => ∃ q, Requested G s q id).stateAt r edge),
      (committed.edge r k _).mpr ?_, joins⟩
    rw [edgeAt_eq_some]
    rcases joins with ⟨rfl, rfl⟩ | ⟨rfl, rfl⟩
    · exact ⟨⟨edge, detach_edge.mpr ⟨inside, unasked, unaskedY⟩, .inr ownedY, rfl⟩, keptX, keptY⟩
    · exact ⟨⟨edge, detach_edge.mpr ⟨inside, unaskedY, unasked⟩, .inl ownedY, rfl⟩, keptY, keptX⟩
  have ghost : ∃ c, (s' r).view.core x = some c := by
    have invR := committed.graph r
    rcases joins' with ⟨rfl, _⟩ | ⟨_, rfl⟩
    · obtain ⟨found, at_⟩ := invR.source k e' stored
      exact ⟨found.core, by rw [GhostProcess.view, DistributedGraph.view_core, at_]; rfl⟩
    · obtain ⟨found, at_⟩ := invR.target k e' stored
      exact ⟨found.core, by rw [GhostProcess.view, DistributedGraph.view_core, at_]; rfl⟩
  obtain ⟨c, present⟩ := ghost
  obtain ⟨nodeX, insideX, host⟩ := committed.host r x c present
  obtain ⟨nodeX', insideX', owner⟩ := ownedX
  cases insideX.symm.trans insideX'
  subst owner
  obtain ⟨state, location⟩ := host other
  have nearY : (s' r).view.IsLocal y := (committed.isLocal period).mpr
    (owns_removeNodes.mpr ⟨ownedY, stays⟩)
  have attached : ¬ (s' r).view.Isolated x := by
    intro alone
    rcases joins' with ⟨rfl, rfl⟩ | ⟨rfl, rfl⟩
    · exact (alone k e' stored).2 rfl nearY
    · exact (alone k e' stored).1 rfl nearY
  have left : (g r).view.core x = some c := ((good r).2.attached x attached).trans present
  have lost : (g c.location).getNode x = none := by
    rw [location]
    have gone := committed.gone nodeX.owner x (.inl member)
    have after : (g nodeX.owner).view.core x = none := by
      rcases (good nodeX.owner).2.core x with same | ⟨_, gone'⟩
      · exact same.trans gone
      · exact gone'
    rw [DistributedGraph.view_core, Option.map_eq_none_iff] at after
    exact after
  have throws := synchronizeData_throws (s := g) order (fun p => (good p).1) left state lost
  obtain ⟨g', exchanged, _⟩ := Option.map_eq_some_iff.mp exchanged
  cases (show synchronizeData order g = some g' from exchanged).symm.trans throws

omit [One W] in
-- The linkers forget the removed nodes: what is left can be distributed.
theorem Committed.forgotten (committed : Committed G s s') (period : Period G s)
    (once : RemovedOnce s) (forgotten : Forgotten s) :
    Represents (G.removeNodes (Removed s)) fun p => (s' p).view := by
  refine committed.represents period (fun p id => .inl rfl) (fun p id removed => ?_)
    (committed.edges period (forgotten.noCrossing once period)) fun p => rfl
  by_cases erased : Erased G s p id
  · exact committed.gone p id erased
  have hosts := period.running.hosts
  have away : ¬ (s p).view.IsLocal id := fun near =>
    erased (removed.erased ((hosts.isLocal p id).mp near))
  obtain ⟨absent, far⟩ := forgotten p id removed (fun mine => erased (.inl mine)) away
  rw [Option.eq_none_iff_forall_ne_some]
  intro c found
  rcases committed.ghost p id c found with before | ⟨q, k, edge, waits, inside, touches, near⟩
  · obtain ⟨node, at_, _⟩ := DistributedGraph.getNode_of_view (g := (s p).graph) rfl before
    cases absent.symm.trans at_
  · have apart := far _ (period.pendingLink waits inside) touches
    rcases near with near | near
    · exact apart.1 ((hosts.isLocal p _).mpr near)
    · exact apart.2 ((hosts.isLocal p _).mpr near)

theorem Period.keepsDistant (period : Period G s) (once : RemovedOnce s)
    {partition : Fin n → PartitionMap n}
    (mapped : ∀ p id, id ∈ partition p → (s p).view.IsLocal id) (linked : s.commitLinks light order = some s') :
    KeepsDistant (fun p => (s' p).view) partition := by
  obtain ⟨s'', linked', committed⟩ := (period.commitLinks light order).1 once
  cases linked.symm.trans linked'
  rintro p id q entry _ ⟨c, found, state⟩
  have owned := (period.running.hosts.isLocal p id).mp
    (mapped p id ((UnorderedMap.mem_iff_lookup _ _).mpr ⟨q, entry⟩))
  by_cases removed : Removed s id
  · cases (committed.gone p id (removed.erased owned)).symm.trans found
  · obtain ⟨c', found', state'⟩ := (committed.isLocal period).mpr
      (owns_removeNodes.mpr ⟨owned, removed⟩)
    cases found'.symm.trans found
    cases state'.symm.trans state

theorem Committed.relocate (committed : Committed G s s') (period : Period G s)
    (once : RemovedOnce s) (forgotten : Forgotten s) {partition : Fin n → PartitionMap n}
    (keeps : KeepsDistant (fun p => (s' p).view) partition) :
    ∃ g g', _distribute light order partition s'.graphs = some g ∧
      synchronizeData order g = some g' ∧
      Synchronized ((G.removeNodes (Removed s)).distributed partition) (s'.withGraphs g') ∧
      Relocated (G.removeNodes (Removed s)) partition (fun p => (s' p).view) fun p => (g' p).view := by
  have represents := committed.forgotten period once forgotten
  obtain ⟨g, moved, inv, represents', relocated⟩ :=
    represents.relocate light order (s := s'.graphs) committed.graph keeps
  obtain ⟨g', exchanged, synced⟩ := synchronized_of_represents order (t := s') inv represents'
    committed.linker
  obtain ⟨_, exchanged', good⟩ := synchronizeData_spec order inv represents'.toHosts
  cases exchanged.symm.trans exchanged'
  have view : (fun p => (g' p).view) = fun p =>
      (g p).view.amend (g p).view.IsDistant (refreshed _) := funext fun p => (good p).2
  exact ⟨g, g', moved, exchanged, synced, view ▸ relocated.amend⟩

theorem Period.distribute (period : Period G s) (once : RemovedOnce s) (forgotten : Forgotten s)
    {partition : Fin n → PartitionMap n}
    (keeps : ∀ s', s.commitLinks light order = some s' →
      KeepsDistant (fun p => (s' p).view) partition) :
    ∃ s' t, Committed G s s' ∧ s.distribute light order partition = some t ∧
      Synchronized ((G.removeNodes (Removed s)).distributed partition) t ∧
      Relocated (G.removeNodes (Removed s)) partition (fun p => (s' p).view) fun p => (t p).view := by
  obtain ⟨s', linked, committed⟩ := (period.commitLinks light order).1 once
  obtain ⟨g, g', moved, exchanged, synced, relocated⟩ :=
    committed.relocate light order period once forgotten (keeps s' linked)
  refine ⟨s', _, committed, ?_, synced, relocated⟩
  unfold GhostSystem.distribute
  rw [linked, Option.bind_some, moved, Option.bind_some, exchanged, Option.map_some]

theorem Period.balance (period : Period G s) (once : RemovedOnce s) (forgotten : Forgotten s)
    {loadBalancing : (Fin n → DistributedGraph n T W) → Fin n → PartitionMap n}
    (keeps : ∀ s', s.commitLinks light order = some s' →
      KeepsDistant (fun p => (s' p).view) (loadBalancing s'.graphs)) :
    ∃ t graphs, s.balance light order loadBalancing = some t ∧
      Synchronized ((G.removeNodes (Removed s)).distributed (loadBalancing graphs)) t := by
  obtain ⟨s', linked, committed⟩ := (period.commitLinks light order).1 once
  obtain ⟨g, g', moved, exchanged, synced, _⟩ :=
    committed.relocate light order period once forgotten (keeps s' linked)
  refine ⟨_, s'.graphs, ?_, synced⟩
  unfold GhostSystem.balance
  rw [linked, Option.bind_some, moved, Option.bind_some, exchanged, Option.map_some]

end

end Fpmas.Synchro.Ghost
