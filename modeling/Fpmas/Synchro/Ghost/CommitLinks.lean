import Fpmas.Graph.Import
import Fpmas.Graph.DistributePhases
import Fpmas.Synchro.Ghost.Calls

set_option autoImplicit false

namespace Fpmas.Synchro.Ghost

open Fpmas.Graph

variable {n : Nat} {T W : Type}

-- The process sends the message for the edge `k` of its buffer to `q`, where one of its ends is.
def Sends (light : T → T) (s : GhostProcess n T W) (k : Id n) (q : Fin n) (m : EdgeMessage n T W) :
    Prop :=
  s.graph.edgeMessage light k = some m ∧ ∃ e, s.view.edge k = some e ∧ ∃ x core,
    (e.source = x ∨ e.target = x) ∧ s.view.core x = some core ∧ core.state = .DISTANT ∧
    core.location = q

theorem exportLink_spec (light : T → T) {s : GhostProcess n T W} (inv : GraphInv s.graph) {k : Id n}
    {e : DistributedEdge n W} (found : s.view.edge k = some e)
    (exports : GhostProcess.LinkExports n T W) :
    ∃ exports', s.exportLink light exports k = some exports' ∧
      (∀ q m, m ∈ exports'.1.valuesAt q ↔ m ∈ exports.1.valuesAt q ∨ Sends light s k q m) ∧
      (s.view.IsDistant e.source ∧ s.view.IsDistant e.target → exports'.2 = exports.2 ++ [k]) ∧
      (¬ (s.view.IsDistant e.source ∧ s.view.IsDistant e.target) → exports'.2 = exports.2) := by
  have found' : s.graph.getEdge k = some e := found
  obtain ⟨src, atSource⟩ := inv.source k e found
  obtain ⟨tgt, atTarget⟩ := inv.target k e found
  obtain ⟨m, built⟩ : ∃ m, s.graph.edgeMessage light k = some m := by
    unfold DistributedGraph.edgeMessage
    rw [found', Option.bind_some, atSource, Option.bind_some, atTarget, Option.map_some]
    exact ⟨_, rfl⟩
  have pushed : ∀ (migration : UnorderedMap (Fin n) (List (EdgeMessage n T W)))
      (node : DistributedNode n T W) q m', m' ∈ (if node.state = .DISTANT then
        migration.push node.location m else migration).valuesAt q ↔
      m' ∈ migration.valuesAt q ∨ m' = m ∧ node.state = .DISTANT ∧ node.location = q := by
    intro migration node q m'
    split
    case isTrue distant =>
      rw [UnorderedMap.valuesAt_push]
      split
      case isTrue here =>
        rw [List.mem_append, List.mem_singleton]
        simp [distant, here]
      case isFalse away => simp [Ne.symm away]
    case isFalse near => simp [near]
  have core : ∀ x core, s.view.core x = some core ↔ ∃ node, s.graph.getNode x = some node ∧
      node.core = core := fun x core => Option.map_eq_some_iff
  have sends : ∀ q m', Sends light s k q m' ↔
      m' = m ∧ src.state = .DISTANT ∧ src.location = q ∨
      m' = m ∧ tgt.state = .DISTANT ∧ tgt.location = q := by
    intro q m'
    unfold Sends
    rw [built, found]
    simp only [Option.some.injEq, exists_eq_left', core]
    constructor
    · rintro ⟨rfl, x, c, rfl | rfl, ⟨node, at_, rfl⟩, distant, location⟩
      · cases atSource.symm.trans at_
        exact .inl ⟨rfl, distant, location⟩
      · cases atTarget.symm.trans at_
        exact .inr ⟨rfl, distant, location⟩
    · rintro (⟨rfl, distant, location⟩ | ⟨rfl, distant, location⟩)
      · exact ⟨rfl, e.source, src.core, .inl rfl, ⟨src, atSource, rfl⟩, distant, location⟩
      · exact ⟨rfl, e.target, tgt.core, .inr rfl, ⟨tgt, atTarget, rfl⟩, distant, location⟩
  have far : (s.view.IsDistant e.source ∧ s.view.IsDistant e.target) ↔
      src.state = .DISTANT ∧ tgt.state = .DISTANT := by
    rw [GhostProcess.view, DistributedGraph.isDistant_iff, DistributedGraph.isDistant_iff]
    simp [atSource, atTarget]
  unfold GhostProcess.exportLink
  rw [found', Option.bind_some, atSource, Option.bind_some, atTarget, Option.bind_some, built,
    Option.map_some, far]
  refine ⟨_, rfl, fun q m' => ?_, fun both => if_pos both, fun near => if_neg near⟩
  dsimp only
  rw [pushed, pushed, sends, or_assoc]

theorem exportLinks_spec (light : T → T) {s : GhostProcess n T W} (inv : GraphInv s.graph)
    (stored : ∀ k ∈ s.linker.linkBuffer, ∃ e, s.view.edge k = some e) :
    ∃ exports, s.exportLinks light = some exports ∧
      (∀ q m, m ∈ exports.1.valuesAt q ↔ ∃ k ∈ s.linker.linkBuffer, Sends light s k q m) ∧
      exports.2.Sublist s.linker.linkBuffer ∧
      ∀ k, k ∈ exports.2 ↔ k ∈ s.linker.linkBuffer ∧ ∃ e, s.view.edge k = some e ∧
        s.view.IsDistant e.source ∧ s.view.IsDistant e.target := by
  unfold GhostProcess.exportLinks
  generalize s.linker.linkBuffer = ids at stored
  have loop : ∀ exports : GhostProcess.LinkExports n T W,
      ∃ exports', ids.foldlM (s.exportLink light) exports = some exports' ∧
      (∀ q m, m ∈ exports'.1.valuesAt q ↔
        m ∈ exports.1.valuesAt q ∨ ∃ k ∈ ids, Sends light s k q m) ∧
      ∃ more, exports'.2 = exports.2 ++ more ∧ more.Sublist ids ∧
      ∀ k, k ∈ more ↔ k ∈ ids ∧ ∃ e, s.view.edge k = some e ∧
        s.view.IsDistant e.source ∧ s.view.IsDistant e.target := by
    induction ids with
    | nil =>
      intro exports
      exact ⟨exports, rfl, by simp, [], by simp, List.Sublist.refl _, by simp⟩
    | cons k rest ih =>
      intro exports
      obtain ⟨e, found⟩ := stored k List.mem_cons_self
      obtain ⟨next, step, sent, far, near⟩ := exportLink_spec light inv found exports
      obtain ⟨exports', result, member, more, clear, sub, listed⟩ :=
        ih (fun j inside => stored j (List.mem_cons_of_mem k inside)) next
      refine ⟨exports', ?_, fun q m' => ?_, ?_⟩
      · rw [List.foldlM_cons, step]
        exact result
      · rw [member, sent]
        simp only [List.mem_cons, exists_eq_or_imp]
        exact or_assoc
      · by_cases both : s.view.IsDistant e.source ∧ s.view.IsDistant e.target
        · refine ⟨k :: more, ?_, sub.cons_cons k, fun j => ?_⟩
          · rw [clear, far both, List.append_assoc]
            rfl
          · rw [List.mem_cons, List.mem_cons, listed]
            constructor
            · rintro (rfl | ⟨inside, found⟩)
              · exact ⟨.inl rfl, e, found, both⟩
              · exact ⟨.inr inside, found⟩
            · rintro ⟨rfl | inside, found⟩
              · exact .inl rfl
              · exact .inr ⟨inside, found⟩
        · refine ⟨more, ?_, sub.cons k, fun j => ?_⟩
          · rw [clear, near both]
          · rw [List.mem_cons, listed]
            constructor
            · exact fun both => ⟨.inr both.1, both.2⟩
            · rintro ⟨rfl | inside, e', found', distant⟩
              · cases found.symm.trans found'
                exact absurd distant both
              · exact ⟨inside, e', found', distant⟩
  obtain ⟨exports, result, member, more, clear, sub, listed⟩ := loop (∅, [])
  rw [List.nil_append] at clear
  subst clear
  exact ⟨exports, result, fun q m => (member q m).trans (by simp), sub, listed⟩

section

variable {G : GlobalGraph n T W} {s : GhostSystem n T W}

open GlobalGraph

-- What the processes have once the pending links have been imported.
structure LinksImported (G : GlobalGraph n T W) (s s' : GhostSystem n T W)
    (toClear : Fin n → List (Id n)) : Prop where
  running : Running G (fun p k => k ∈ toClear p) s'
  linker : ∀ p, (s' p).linker = { (s p).linker with linkBuffer := [] }
  once : ∀ p, (toClear p).Nodup
  core : ∀ p id core, (s p).view.core id = some core → (s' p).view.core id = some core
  ghost : ∀ p id core, (s' p).view.core id = some core → (s p).view.core id = some core ∨
    ∃ q k edge, k ∈ (s q).linker.linkBuffer ∧ G.edge k = some edge ∧ edge.Touches id ∧
      (G.Owns p edge.source ∨ G.Owns p edge.target)
  rest : ∀ p, (s' p).view = { (s p).view with
    core := (s' p).view.core
    edge := (s' p).view.edge }

theorem Running.sends (run : Running G (fun _ _ => False) s) (light : T → T) {p q : Fin n} {k : Id n}
    {edge : GlobalEdge n W} (member : k ∈ (s p).linker.linkBuffer) (inside : G.edge k = some edge) :
    (∀ m, Sends light (s p) k q m → m.id = k ∧ m.Carries edge ∧ q ≠ p ∧
      (G.Owns q edge.source ∨ G.Owns q edge.target) ∧ G.Owns m.sourceLocation edge.source ∧
      G.Owns m.targetLocation edge.target) ∧
    (q ≠ p → G.Owns q edge.source ∨ G.Owns q edge.target → ∃ m, Sends light (s p) k q m) := by
  obtain ⟨edge', inside', _, only⟩ := run.buffered p k member
  cases inside.symm.trans inside'
  have found : (s p).view.edge k = some (edge.stored .DISTANT) := (only p).trans (if_pos rfl)
  have found' : (s p).graph.getEdge k = some (edge.stored .DISTANT) := found
  obtain ⟨src, atSource⟩ := (run.graph p).source k _ found
  obtain ⟨tgt, atTarget⟩ := (run.graph p).target k _ found
  have core : ∀ {x node}, (s p).graph.getNode x = some node → (s p).view.core x = some node.core := by
    intro x node at_
    show ((s p).graph.getNode x).map _ = _
    rw [at_]
    rfl
  have built : ∃ m, (s p).graph.edgeMessage light k = some m ∧ m.id = k ∧ m.Carries edge ∧
      m.sourceLocation = src.core.location ∧ m.targetLocation = tgt.core.location := by
    unfold DistributedGraph.edgeMessage
    rw [found', Option.bind_some, atSource, Option.bind_some, atTarget, Option.map_some]
    exact ⟨_, rfl, rfl, ⟨rfl, rfl, rfl, rfl⟩, rfl, rfl⟩
  obtain ⟨m, built, id, carries, sourceLocation, targetLocation⟩ := built
  constructor
  · rintro m' ⟨built', e, at_, x, c, touches, present, distant, location⟩
    cases built.symm.trans built'
    cases found.symm.trans at_
    have owner := run.hosts.owner_of_ghost present distant
    rw [location] at owner
    refine ⟨id, carries, owner.2, ?_, ?_, ?_⟩
    · rcases touches with rfl | rfl
      · exact .inl owner.1
      · exact .inr owner.1
    · rw [sourceLocation]
      exact run.hosts.location (core atSource)
    · rw [targetLocation]
      exact run.hosts.location (core atTarget)
  · intro away owned
    refine ⟨m, built, _, found, ?_⟩
    rcases owned with owned | owned
    · have ghost := run.hosts.ghost_of_owner owned away (core atSource)
      exact ⟨_, _, .inl rfl, core atSource, ghost⟩
    · have ghost := run.hosts.ghost_of_owner owned away (core atTarget)
      exact ⟨_, _, .inr rfl, core atTarget, ghost⟩

-- The edges of the buffers of the other processes that join a node of `q`.
def Gets (G : GlobalGraph n T W) (s : GhostSystem n T W) (q : Fin n) (k : Id n) : Prop :=
  ∃ p edge, k ∈ (s p).linker.linkBuffer ∧ q ≠ p ∧ G.edge k = some edge ∧
    (G.Owns q edge.source ∨ G.Owns q edge.target)

structure Receives (G : GlobalGraph n T W) (s : GhostSystem n T W) (q : Fin n) (y : GhostProcess n T W) :
    Prop where
  linker : y.linker = { (s q).linker with linkBuffer := [] }
  graph : GraphInv y.graph
  got : ∀ k, Gets G s q k → y.view.edge k = G.edgeAt q k
  kept : ∀ k, ¬ Gets G s q k → y.view.edge k = (s q).view.edge k
  core : ∀ id core, (s q).view.core id = some core → y.view.core id = some core
  ghost : ∀ id core, y.view.core id = some core → (s q).view.core id = some core ∨
    core.state = .DISTANT ∧ ∃ p k edge, k ∈ (s p).linker.linkBuffer ∧ G.edge k = some edge ∧
      edge.Touches id ∧ (G.Owns q edge.source ∨ G.Owns q edge.target) ∧ G.Owns core.location id
  rest : y.view = { (s q).view with
    core := y.view.core
    edge := y.view.edge }

theorem Running.buffer_owner (run : Running G (fun _ _ => False) s) {p q : Fin n} {k : Id n}
    (mine : k ∈ (s p).linker.linkBuffer) (yours : k ∈ (s q).linker.linkBuffer) : p = q := by
  obtain ⟨_, _, _, only⟩ := run.buffered p k mine
  obtain ⟨_, _, _, only'⟩ := run.buffered q k yours
  have found := (only q).symm.trans ((only' q).trans (if_pos rfl))
  split at found
  case isTrue same => exact same.symm
  case isFalse => cases found

theorem Running.receives [One W] (run : Running G (fun _ _ => False) s) (light : T → T)
    (order : Fin n → HashOrder) {links : Fin n → GhostProcess.LinkExports n T W}
    (sent : ∀ p q m, m ∈ (links p).1.valuesAt q ↔
      ∃ k ∈ (s p).linker.linkBuffer, Sends light (s p) k q m) (q : Fin n) :
    ∃ y, (s q).importLinks (order q) (migrate (fun r => (links r).1) q) = some y ∧
      Receives G s q y := by
  let messages := (migrate (fun r => (links r).1) q).flatten (order q)
  have received : ∀ m, m ∈ messages ↔
      ∃ p, ∃ k ∈ (s p).linker.linkBuffer, Sends light (s p) k q m := by
    intro m
    rw [UnorderedMap.mem_flatten]
    exact exists_congr fun p => by rw [valuesAt_migrate, sent p]
  have about : ∀ m ∈ messages, ∃ p edge, m.id ∈ (s p).linker.linkBuffer ∧ q ≠ p ∧
      G.edge m.id = some edge ∧ m.Carries edge ∧ (G.Owns q edge.source ∨ G.Owns q edge.target) ∧
      G.Owns m.sourceLocation edge.source ∧ G.Owns m.targetLocation edge.target := by
    intro m member
    obtain ⟨p, k, buffered, sends⟩ := (received m).mp member
    obtain ⟨edge, inside, _⟩ := run.buffered p k buffered
    obtain ⟨rfl, carries, away, owned, source, target⟩ :=
      (run.sends light (q := q) buffered inside).1 m sends
    exact ⟨p, edge, buffered, away, inside, carries, owned, source, target⟩
  have gets : ∀ k, k ∈ messages.map (·.id) ↔ Gets G s q k := by
    intro k
    rw [List.mem_map]
    constructor
    · rintro ⟨m, member, rfl⟩
      obtain ⟨p, edge, buffered, away, inside, _, owned, _⟩ := about m member
      exact ⟨p, edge, buffered, away, inside, owned⟩
    · rintro ⟨p, edge, buffered, away, inside, owned⟩
      obtain ⟨m, sends⟩ := (run.sends light (q := q) buffered inside).2 away owned
      exact ⟨m, (received m).mpr ⟨p, k, buffered, sends⟩,
        ((run.sends light (q := q) buffered inside).1 m sends).1⟩
  have state : ∀ edge : GlobalEdge n W,
      G.stateAt q edge = (s q).view.edgeState edge.source edge.target := by
    intro edge
    unfold GlobalGraph.stateAt GraphView.edgeState
    simp only [run.hosts.isLocal q]
  have imported := GraphView.importEdges (v := (s q).view) (fun k => G.edgeAt q k) messages
    (fun m member => by
      obtain ⟨_, edge, _, _, inside, ⟨layer, weight, source, target⟩, owned, _⟩ := about m member
      refine edgeAt_eq_some.mpr ⟨edge, inside, owned, ?_⟩
      rw [layer, weight, source, target, state]
      rfl)
    (fun m member e found => by
      obtain ⟨p, _, buffered, away, _⟩ := about m member
      obtain ⟨_, _, _, only⟩ := run.buffered p m.id buffered
      rw [only, if_neg away] at found
      cases found)
  obtain ⟨g, result, inv, view⟩ := (run.graph q).importEdges (order q) messages
  rw [show (s q).graph.view = (s q).view from rfl] at view
  rw [← view] at imported
  refine ⟨{ graph := g, linker := { (s q).linker with linkBuffer := [] } }, ?_, rfl, inv,
    fun k got => ?_, fun k lost => ?_, imported.kept, fun id core after => ?_, imported.rest⟩
  · unfold GhostProcess.importLinks DistributedGraph.importEdges
    rw [result, Option.map_some]
  · exact (imported.edge k).trans (if_pos ((gets k).mpr got))
  · exact (imported.edge k).trans (if_neg fun member => lost ((gets k).mp member))
  · rcases imported.ghost id core after with before | ⟨distant, m, member, ends⟩
    · exact .inl before
    · obtain ⟨p, edge, buffered, _, inside, ⟨_, _, source, target⟩, owned, atSource, atTarget⟩ :=
        about m member
      refine .inr ⟨distant, p, m.id, edge, buffered, inside, ?_⟩
      rcases ends with ⟨rfl, location⟩ | ⟨rfl, location⟩
      · rw [location, source]
        exact ⟨.inl rfl, owned, atSource⟩
      · rw [location, target]
        exact ⟨.inr rfl, owned, atTarget⟩

section

variable {s' : GhostSystem n T W} (received : ∀ q, Receives G s q (s' q))
include received

theorem field_received {α : Type} (f : GraphView n T W → α)
    (same : ∀ v core edge, f { v with core, edge } = f v) (q : Fin n) : f (s' q).view = f (s q).view := by
  rw [(received q).rest, same]

theorem Running.hosts_received (run : Running G (fun _ _ => False) s) : Hosts G fun p => (s' p).view := by
  have field := fun {α : Type} => field_received (α := α) received
  refine ⟨?_, ?_, ?_, run.hosts.closed, ?_, ?_, ?_, ?_, ?_, ?_⟩
  · intro p
    rw [field GraphView.rank fun _ _ _ => rfl]
    exact run.hosts.rank p
  · exact fun id node inside => (received node.owner).core id _ (run.hosts.home id node inside)
  · intro p id c found
    rcases (received p).ghost id c found with same | ⟨distant, _, _, _, _, _, _, _, location⟩
    · exact run.hosts.ghost p id c same
    · obtain ⟨node, inside, owner⟩ := location
      exact ⟨node, inside, fun _ => ⟨distant, owner.symm⟩⟩
  · intro id node inside
    rw [field GraphView.managed fun _ _ _ => rfl]
    exact run.hosts.managed id node inside
  · intro p id fresh
    rw [field GraphView.newLocal fun _ _ _ => rfl] at fresh
    exact run.hosts.newLocal p id fresh
  · intro p
    rw [field GraphView.nodeId fun _ _ _ => rfl]
    exact run.hosts.nodeId p
  · intro p
    rw [field GraphView.edgeId fun _ _ _ => rfl]
    exact run.hosts.edgeId p
  · intro id node inside
    rw [field GraphView.nodeId fun _ _ _ => rfl]
    exact run.hosts.nodesIssued id node inside
  · intro k edge inside
    rw [field GraphView.edgeId fun _ _ _ => rfl]
    exact run.hosts.edgesIssued k edge inside

variable {toClear : Fin n → List (Id n)}
  (listed : ∀ p k, k ∈ toClear p ↔ k ∈ (s p).linker.linkBuffer ∧ ∃ e, (s p).view.edge k = some e ∧
    (s p).view.IsDistant e.source ∧ (s p).view.IsDistant e.target)
include listed

theorem Running.committed_received (run : Running G (fun _ _ => False) s) {k : Id n}
    {edge : GlobalEdge n W} (inside : G.edge k = some edge) {q : Fin n} (unclear : k ∉ toClear q) :
    (s' q).view.edge k = G.edgeAt q k := by
  by_cases got : Gets G s q k
  · exact (received q).got k got
  · rw [(received q).kept k got]
    by_cases pending : ∃ p, k ∈ (s p).linker.linkBuffer
    · obtain ⟨p, buffered⟩ := pending
      obtain ⟨edge', inside', apart, only⟩ := run.buffered p k buffered
      cases inside.symm.trans inside'
      rw [only]
      by_cases here : q = p
      · subst here
        have stored : (s q).view.edge k = some (edge.stored .DISTANT) := (only q).trans (if_pos rfl)
        rw [if_pos rfl]
        have owned : G.Owns q edge.source ∨ G.Owns q edge.target := by
          by_contra foreign
          rw [not_or] at foreign
          refine unclear ((listed q k).mpr ⟨buffered, _, stored, ?_⟩)
          have distant : ∀ x, (∃ node, (s q).graph.getNode x = some node) → ¬ G.Owns q x →
              (s q).view.IsDistant x := by
            rintro x ⟨node, at_⟩ other
            rw [← run.hosts.isLocal, GhostProcess.view, DistributedGraph.isLocal_iff] at other
            rw [GhostProcess.view, DistributedGraph.isDistant_iff]
            refine ⟨node, at_, ?_⟩
            rw [← LocationState.not_local]
            exact fun near => other ⟨node, at_, near⟩
          exact ⟨distant _ ((run.graph q).source k _ stored) foreign.1,
            distant _ ((run.graph q).target k _ stored) foreign.2⟩
        rw [edgeAt_eq_some.mpr ⟨edge, inside, owned, rfl⟩]
        unfold GlobalGraph.stateAt
        rw [if_neg apart]
      · rw [if_neg here]
        symm
        rw [Option.eq_none_iff_forall_ne_some]
        intro e found
        obtain ⟨edge', inside', owned, _⟩ := edgeAt_eq_some.mp found
        cases inside.symm.trans inside'
        exact got ⟨p, edge, buffered, here, inside, owned⟩
    · exact run.committed k edge inside (fun p buffered => pending ⟨p, buffered⟩) q not_false

theorem Running.unowned_received (run : Running G (fun _ _ => False) s) {p : Fin n} {k : Id n}
    (clear : k ∈ toClear p) : ∃ edge, G.edge k = some edge ∧
      (s' p).view.edge k = some (edge.stored .DISTANT) ∧ ¬ G.Owns p edge.source ∧
      ¬ G.Owns p edge.target := by
  obtain ⟨buffered, e, found, source, target⟩ := (listed p k).mp clear
  obtain ⟨edge, inside, _, only⟩ := run.buffered p k buffered
  have stored : (s p).view.edge k = some (edge.stored .DISTANT) := (only p).trans (if_pos rfl)
  cases stored.symm.trans found
  have lost : ¬ Gets G s p k := by
    rintro ⟨r, _, buffered', away, _⟩
    exact away (run.buffer_owner buffered buffered')
  have distant : ∀ x, (s p).view.IsDistant x → ¬ G.Owns p x := by
    rintro x distant ⟨node', insideNode', rfl⟩
    obtain ⟨node, insideNode, away⟩ := run.hosts.isDistant distant
    cases insideNode.symm.trans insideNode'
    exact away rfl
  exact ⟨edge, inside, ((received p).kept k lost).trans stored, distant _ source, distant _ target⟩

theorem Running.ends_received (run : Running G (fun _ _ => False) s) {q : Fin n} {k : Id n}
    {e : DistributedEdge n W} (found : (s' q).view.edge k = some e) {edge : GlobalEdge n W}
    (inside : G.edge k = some edge) : e.ends = (edge.stored .DISTANT).ends := by
  by_cases clear : k ∈ toClear q
  · obtain ⟨edge', inside', stored, _⟩ := run.unowned_received received listed clear
    cases inside.symm.trans inside'
    cases stored.symm.trans found
    rfl
  · rw [run.committed_received received listed inside clear] at found
    obtain ⟨edge', inside', _, rfl⟩ := edgeAt_eq_some.mp found
    cases inside.symm.trans inside'
    rfl

theorem Running.links_received (run : Running G (fun _ _ => False) s) : Running G (fun p k => k ∈ toClear p) s' := by
  -- Nobody gets an edge that the graph has no more.
  have old : ∀ q k e, (s' q).view.edge k = some e → G.edge k = none → (s q).view.edge k = some e := by
    intro q k e found lost
    rw [← (received q).kept k, found]
    rintro ⟨_, _, _, _, inside, _⟩
    cases lost.symm.trans inside
  refine ⟨fun p => (received p).graph, run.hosts_received received, ?_, ?_, ?_, ?_, ?_, ?_, ?_⟩
  · intro p q k e e' one two
    cases inside : G.edge k with
    | some edge =>
      exact (run.ends_received received listed one inside).trans
        (run.ends_received received listed two inside).symm
    | none => exact run.agree p q k e e' (old p k e one inside) (old q k e' two inside)
  · intro p k member
    rw [(received p).linker] at member
    cases member
  · intro p
    rw [(received p).linker]
    exact List.nodup_nil
  · exact fun k edge inside _ q unclear => run.committed_received received listed inside unclear
  · intro p k clear
    obtain ⟨edge, inside, stored, source, target⟩ := run.unowned_received received listed clear
    refine ⟨_, stored, source, target, fun edge' inside' => ?_⟩
    cases inside.symm.trans inside'
    rfl
  · intro p k e found lost _
    obtain ⟨owned, q, told⟩ := run.stale p k e (old p k e found lost) lost not_false
    exact ⟨owned, q, by rw [(received q).linker]; exact told⟩
  · intro q p k told
    rw [(received q).linker] at told
    obtain ⟨lost, _, issued⟩ := run.unlinked q p k told
    refine ⟨lost, fun clear => ?_, ?_⟩
    · obtain ⟨_, inside, _⟩ := run.unowned_received received listed clear
      cases lost.symm.trans inside
    · rw [field_received received GraphView.edgeId fun _ _ _ => rfl]
      exact issued

end

theorem Running.importLinks [One W] (run : Running G (fun _ _ => False) s) (light : T → T)
    (order : Fin n → HashOrder) :
    ∃ (links : Fin n → GhostProcess.LinkExports n T W) (s' : GhostSystem n T W),
      (collect fun p => (s p).exportLinks light) = some links ∧
      (collect fun p => (s p).importLinks (order p) (migrate (fun q => (links q).1) p)) = some s' ∧
      LinksImported G s s' fun p => (links p).2 := by
  obtain ⟨links, exported, sent⟩ := collect_some fun p =>
    exportLinks_spec light (run.graph p) fun k member => by
      obtain ⟨edge, _, _, only⟩ := run.buffered p k member
      exact ⟨_, (only p).trans (if_pos rfl)⟩
  obtain ⟨s', result, received⟩ := collect_some (run.receives light order fun p => (sent p).1)
  refine ⟨links, s', exported, result, run.links_received received fun p => (sent p).2.2,
    fun p => (received p).linker, fun p => (run.once p).sublist (sent p).2.1,
    fun p => (received p).core, fun p id c found => ?_, fun p => (received p).rest⟩
  rcases (received p).ghost id c found with same | ⟨_, q, k, edge, buffered, inside, touches, owned, _⟩
  · exact .inl same
  · exact .inr ⟨q, k, edge, buffered, inside, touches, owned⟩

end

end Fpmas.Synchro.Ghost
