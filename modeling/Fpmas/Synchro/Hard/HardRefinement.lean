import Fpmas.Library.Simulation
import Fpmas.Synchro.Hard.LinkGuarantee
import Fpmas.Synchro.SharedGraph

set_option autoImplicit false

namespace Fpmas.Synchro.Hard

open Fpmas.Graph

variable {n : Nat} {T W : Type} [One W]

def HardAction.Shows (s : HardSystem n T W) : HardAction n T → GraphEvent n T W → Prop
  | buildNode p data, event => event = .buildNode p (s.process p).graph.nodeId data
  | link p source target layer, event =>
    event = .link (s.process p).graph.edgeId { layer, weight := 1, source, target }
  | unlink _ edge, event => event = .unlink edge
  | removeNode _ node, event => event = .removeNode node
  | resume _ _, event => event = .nothing
  | handle _ _ _ _, event => event = .nothing
  | enter _, event => event = .nothing
  | synchronize _, event => event = .nothing
  | distribute _ partition, event => event = .distribute partition

def HardAction.Synchronizes : HardAction n T → Prop
  | synchronize _ => True
  | distribute _ _ => True
  | _ => False

/-- The users see `A`: it has lost the edges that the processes are still to erase. -/
def Implements (A : GlobalGraph n T W) (s : HardSystem n T W) : Prop :=
  ∃ G, Live G s ∧ A = G.without (· ∈ s.unlinked)

section

variable {G : GlobalGraph n T W} {s t : HardSystem n T W} {light : T → T}

open GlobalGraph

omit [One W] in
theorem without_unlinked (ids : List (Id n)) : G.without (· ∈ ids) =
    { G with edge := fun k => if k ∈ ids then none else G.edge k } := by
  refine eq_of_some (fun _ _ => .rfl) fun k edge => ?_
  rw [without_edge, Option.ite_none_left_eq_some, and_comm]

omit [One W] in
theorem without_link {k : Id n} {edge : GlobalEdge n W} {gone : Id n → Prop} (kept : ¬ gone k) :
    (G.link k edge).without gone = (G.without gone).link k edge := by
  refine eq_of_some (fun _ _ => .rfl) fun j e => ?_
  rw [without_edge, link_edge, link_edge]
  split
  next here => exact and_iff_left (here ▸ kept)
  next => exact without_edge.symm

omit [One W] in
theorem without_cons (k : Id n) (ids : List (Id n)) :
    G.without (· ∈ k :: ids) = (G.without (· ∈ ids)).unlink k := by
  refine eq_of_some (fun _ _ => .rfl) fun j e => ?_
  rw [without_edge, unlink_edge, Option.ite_none_left_eq_some, without_edge, List.mem_cons, not_or]
  tauto

omit [One W] in
theorem Rested.without (rested : Rested G s) : G.without (· ∈ s.unlinked) = G := by
  refine eq_of_some (fun _ _ => .rfl) fun k edge => ?_
  rw [without_edge]
  exact and_iff_left_of_imp fun inside => ((rested.linked k edge).mp inside).2

omit [One W] in
theorem Rested.implements (rested : Rested G s) : Implements G s :=
  ⟨G, rested.live, rested.without.symm⟩

omit [One W] in
theorem Live.edge_never_unlinked (live : Live G s) (p : Fin n) : (s.views p).edgeId ∉ s.unlinked := by
  intro member
  obtain ⟨edge, linked⟩ := live.unlinked _ member
  have issued := live.issued _ edge linked
  rw [show (s.views p).edgeId.rank = p from live.hosts.edgeId p] at issued
  exact absurd issued (Nat.lt_irrefl _)

omit [One W] in
theorem ids_of_call {p : Fin n} {step : HardProcess n T W → Option (HardProcess n T W)}
    (taken : s.call p step = some t) : (s.process p).graph.nodeId = (s.views p).nodeId ∧
      (s.process p).graph.edgeId = (s.views p).edgeId := by
  have idle := (HardProcess.running_idle (Live.call_eq taken).1).1
  unfold HardSystem.views
  rw [HardProcess.whole_idle idle]
  exact ⟨rfl, rfl⟩

omit [One W] in
theorem HardProcess.view_whole (s : HardProcess n T W) :
    s.whole.view = { s.graph.view with edge := s.whole.view.edge } := by
  unfold HardProcess.whole
  split <;> rfl

omit [One W] in
theorem Implements.stores {A : GlobalGraph n T W} (implements : Implements A s) :
    Stores A (fun p => (s.process p).graph.view) fun _ => False := by
  obtain ⟨G, live, rfl⟩ := implements
  have hosts := live.hosts
  have core : ∀ p, (s.process p).graph.view.core = (s.process p).whole.view.core := fun p =>
    (congrArg GraphView.core (s.process p).view_whole).symm
  have local_ : ∀ p id, (s.process p).graph.view.IsLocal id ↔ (s.process p).whole.view.IsLocal id := by
    intro p id
    unfold GraphView.IsLocal
    rw [core]
  refine ⟨fun p id => ?_, fun id node inside => ?_, fun p id c found _ => ?_,
    fun p k e edge found inside => ?_, fun p => ⟨?_, ?_⟩⟩
  · rw [local_, hosts.isLocal p]
    exact and_iff_left not_false
  · rw [core]
    exact hosts.home id node inside
  · rw [core] at found
    exact hosts.location found
  · obtain ⟨edge', inside', rfl⟩ := (live.process p).edges k e ((live.process p).whole_of_graph found)
    cases (without_edge.mp inside).1.symm.trans inside'
    exact ⟨_, rfl⟩
  · exact ((congrArg (G.node ·) (congrArg GraphView.nodeId (s.process p).view_whole)).symm).trans
      (hosts.node_fresh p p).1
  · refine Option.eq_none_iff_forall_ne_some.mpr fun edge inside => ?_
    have fresh := hosts.edge_fresh p
    have same : (s.process p).whole.view.edgeId = (s.process p).graph.view.edgeId := by
      rw [(s.process p).view_whole]
    rw [same] at fresh
    cases fresh.symm.trans (without_edge.mp inside).1

theorem Live.shown (live : Live G s) {action : HardAction n T} (links : action.Links s)
    (prompt : action.Prompt s) (taken : action.next light s = some t) :
    ∃ event A, action.Shows s event ∧ (G.without (· ∈ s.unlinked)).next event = some A ∧
      Implements A t ∧ (action.Synchronizes → Rested A t) := by
  have silent : ∀ {u : HardSystem n T W}, Live G u → u.unlinked = s.unlinked →
      Implements (G.without (· ∈ s.unlinked)) u := fun live' same => ⟨G, live', by rw [same]⟩
  have called : ∀ {p : Fin n} {step : HardProcess n T W → Option (HardProcess n T W)}
      {u : HardSystem n T W}, s.call p step = some u → u.unlinked = s.unlinked := by
    intro p step u result
    obtain ⟨_, _, _, rfl⟩ := Live.call_eq result
    rfl
  have end_ : ∀ {order : Fin n → HashOrder} {β : Type} {f : HardSystem n T W → Option β} {b : β},
      (s.leave order).bind f = some b → s.ended = true := by
    intro order β f b left
    obtain ⟨_, left, _⟩ := Option.bind_eq_some_iff.mp left
    exact (Option.ite_none_right_eq_some.mp left).1
  cases action with
  | buildNode p data =>
    have absent := (live.hosts.node_fresh p p).1
    have taken : s.call p (fun process => process.buildNode data) = some t := taken
    refine ⟨_, _, rfl, if_neg ?_, ⟨_, live.buildNode taken, ?_⟩, False.elim⟩
    · rw [(ids_of_call taken).1]
      show ¬ (G.node (s.views p).nodeId).isSome
      rw [show G.node (s.views p).nodeId = none from absent]
      exact Bool.false_ne_true
    · rw [called taken, (ids_of_call taken).1]
      rfl
  | link p source target layer =>
    obtain ⟨u, result, rfl⟩ := Option.map_eq_some_iff.mp taken
    have after := live.link light taken
    obtain ⟨atSource, atTarget⟩ := after.hosts.closed _ _ ((link_edge _ _ _).trans (if_pos rfl))
    refine ⟨_, _, rfl, (if_neg ?_).trans (if_pos ?_), ⟨_, after, ?_⟩, False.elim⟩
    · rw [Option.isSome_iff_exists]
      rintro ⟨edge, inside⟩
      rw [(ids_of_call result).2] at inside
      cases (live.hosts.edge_fresh p).symm.trans (without_edge.mp inside).1
    · exact ⟨Option.isSome_iff_exists.mpr atSource, Option.isSome_iff_exists.mpr atTarget⟩
    · rw [(ids_of_call result).2]
      show _ = (G.link _ _).without (· ∈ u.unlinked)
      rw [called result, without_link (live.edge_never_unlinked p)]
  | unlink p k =>
    have after := live.unlink prompt taken
    obtain ⟨u, result, rfl⟩ := Option.map_eq_some_iff.mp taken
    refine ⟨_, _, rfl, rfl, ⟨_, after, ?_⟩, False.elim⟩
    exact (without_cons k s.unlinked).symm
  | removeNode p node => exact links.elim
  | resume p order =>
    obtain ⟨_, _, rfl⟩ := Option.map_eq_some_iff.mp taken
    exact ⟨_, _, rfl, rfl, silent (live.resume taken) rfl, False.elim⟩
  | handle p frame index order =>
    have after := live.handle prompt taken
    obtain ⟨_, _, taken⟩ := Option.bind_eq_some_iff.mp taken
    obtain ⟨_, _, taken⟩ := Option.bind_eq_some_iff.mp taken
    obtain ⟨_, taken⟩ := Option.ite_none_right_eq_some.mp taken
    obtain ⟨_, _, rfl⟩ := Option.map_eq_some_iff.mp taken
    exact ⟨_, _, rfl, rfl, silent after rfl, False.elim⟩
  | enter p => exact ⟨_, _, rfl, rfl, silent (live.enter taken) (called taken), False.elim⟩
  | synchronize order =>
    obtain ⟨_, result, rested, _⟩ := live.synchronize order (end_ taken)
    cases result.symm.trans taken
    rw [← without_unlinked] at rested
    exact ⟨_, _, rfl, rfl, rested.implements, fun _ => rested⟩
  | distribute order partition =>
    obtain ⟨_, result, rested, _⟩ := live.distribute light order links (end_ taken)
    cases result.symm.trans taken
    rw [← without_unlinked] at rested
    exact ⟨_, _, rfl, rfl, rested.implements, fun _ => rested⟩

theorem hard_simulation : TransitionSystem.Simulation (hard n T W light)
    (fun s action => action.Links s ∧ action.Prompt s) (sharedGraph n T W) HardAction.Shows Implements where
  start := by
    rintro s rfl
    exact ⟨_, rfl, rested_empty.implements⟩
  step := by
    rintro A s action t ⟨G, live, rfl⟩ ⟨links, prompt⟩ taken
    obtain ⟨event, A, shows, step, related, _⟩ := live.shown links prompt taken
    exact ⟨event, A, shows, step, related⟩

/-- The processes keep the graph that the users of the ghost mode see. It changes once, when a call
starts, whatever the order in which the requests of all the calls are handled. -/
theorem hard_refines_sharedGraph {steps : List (HardSystem n T W × HardAction n T)}
    (run : (hard n T W light).RunBy (fun s action => action.Links s ∧ action.Prompt s) steps s) :
    ∃ events A, List.Forall₂ (fun step event => step.2.Shows step.1 event) steps events ∧
      (sharedGraph n T W).exec .empty events = some A ∧
      Stores A (fun p => (s.process p).graph.view) (fun _ => False) ∧
      ∀ last ∈ steps.getLast?, last.2.Synchronizes → Represents A fun p => (s.process p).graph.view := by
  cases run with
  | start initial =>
    obtain rfl : s = .empty := initial
    refine ⟨[], _, .nil, rfl, rested_empty.implements.stores, fun last member => ?_⟩
    cases member
  | @step before m _ action run guard taken =>
    obtain ⟨initial, events, _, rfl, shown, reached, G, live, rfl⟩ := hard_simulation.run run
    obtain ⟨event, A, shows, step, implements, rested⟩ := live.shown guard.1 guard.2 taken
    refine ⟨events ++ [event], A, List.rel_append shown (.cons shows .nil),
      TransitionSystem.exec_concat reached step, implements.stores, fun last member synchronizes => ?_⟩
    rw [List.getLast?_concat] at member
    cases member
    exact (rested synchronizes).represents

theorem hard_refines_sharedGraph_unlinked : ∃ (s t : HardSystem 2 Nat Nat) (events : _) (A : _),
    s.unlinked = [⟨0, 1⟩] ∧ s.synchronize (fun _ => .insertion) = some t ∧
    (sharedGraph 2 Nat Nat).exec .empty events = some A ∧
    Represents A fun p => (t.process p).graph.view := by
  have run : ((hard 2 Nat Nat id).execBy (fun s a => a.Links s ∧ a.Prompt s) .empty
      (separate 0 1 ++ unlinkAfter 0 1 ++ [.enter 0, .enter 1])).bind (fun s =>
        (s.synchronize fun _ => .insertion).map fun _ => s.unlinked) = some [⟨0, 1⟩] := by
    decide +kernel
  obtain ⟨s, taken, rest⟩ := Option.bind_eq_some_iff.mp run
  obtain ⟨t, synchronized, unlinked⟩ := Option.map_eq_some_iff.mp rest
  obtain ⟨steps, run⟩ := (TransitionSystem.ReachableBy.execBy _ (.start rfl) taken).runBy
  have last : (hard 2 Nat Nat id).next s (.synchronize fun _ => .insertion) = some t := synchronized
  have guard : HardAction.Links s (.synchronize fun _ => .insertion) ∧
      HardAction.Prompt s (.synchronize fun _ => .insertion) := ⟨trivial, trivial⟩
  obtain ⟨events, A, _, seen, _, rested⟩ := hard_refines_sharedGraph (.step run guard last)
  rw [List.getLast?_concat] at rested
  exact ⟨s, t, events, A, unlinked, synchronized, seen, rested _ rfl trivial⟩

end

end Fpmas.Synchro.Hard
