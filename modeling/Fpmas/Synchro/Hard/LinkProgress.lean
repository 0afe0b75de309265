import Mathlib.Algebra.GroupWithZero.Nat
import Mathlib.Algebra.Order.BigOperators.Group.Finset
import Fpmas.Synchro.Hard.LinkGuarantee

set_option autoImplicit false

namespace Fpmas.Synchro.Hard

open Fpmas.Graph

variable {n : Nat} {T W : Type}

open GlobalGraph HardSystem

-- What the users and the messages offer to the processes.
def HardAction.Enabled (s : HardSystem n T W) : HardAction n T → Prop
  | buildNode p _ => (s.process p).running = true
  | link p source target _ => (s.process p).running = true ∧
      (∃ node, (s.process p).graph.getNode source = some node) ∧
      ∃ node, (s.process p).graph.getNode target = some node
  | unlink p edge => (s.process p).running = true ∧ ∃ e, (s.process p).graph.getEdge edge = some e
  | removeNode p node => (s.process p).running = true ∧
      ∃ found, (s.process p).graph.getNode node = some found
  | resume p _ => ∃ call rest, (s.process p).stack = call :: rest ∧ call.sends = []
  | handle p frame index _ => ∃ call request, (s.process p).stack[frame]? = some call ∧
      call.sends[index]? = some request ∧ (s.process request.dest).listening = true
  | enter p => (s.process p).running = true
  | synchronize _ => s.ended = true
  | distribute _ _ => s.ended = true

section

variable {G : GlobalGraph n T W} {s : HardSystem n T W} {p : Fin n}

theorem call_returns {step : HardProcess n T W → Option (HardProcess n T W)} {t : HardProcess n T W}
    (runs : (s.process p).running = true) (taken : step (s.process p) = some t) :
    s.call p step = some (s.setProcess p t) := by
  unfold HardSystem.call
  rw [if_pos runs, taken, Option.map_some]

theorem Live.build_returns [One W] (live : Live G s) (data : T)
    (runs : (s.process p).running = true) :
    ∃ s', s.call p (fun process => process.buildNode data) = some s' := by
  have process := live.process p
  have whole := HardProcess.whole_idle (HardProcess.running_idle runs).1
  have inv := process.graph
  have fresh := (live.hosts.node_fresh p p).2
  rw [whole] at inv fresh
  obtain ⟨g, built, _⟩ := inv.buildNode data (Option.map_eq_none_iff.mp fresh)
  refine ⟨_, call_returns (t := { s.process p with graph := g }) runs ?_⟩
  show ((s.process p).graph.buildNode data).map _ = _
  rw [built, Option.map_some]

theorem Live.link_returns [One W] (live : Live G s) (light : T → T) {source target : Id n} (layer : LayerId)
    (runs : (s.process p).running = true)
    (atSource : ∃ node, (s.process p).graph.getNode source = some node)
    (atTarget : ∃ node, (s.process p).graph.getNode target = some node) :
    ∃ s', s.link light p source target layer = some s' := by
  have process := live.process p
  have idle := (HardProcess.running_idle runs).1
  have whole := HardProcess.whole_idle idle
  have inv := process.graph
  have edges := process.edges
  rw [whole] at inv edges
  have unbuilt : (s.process p).graph.getEdge (s.process p).graph.edgeId = none := by
    cases found : (s.process p).graph.getEdge (s.process p).graph.edgeId with
    | none => rfl
    | some e =>
      obtain ⟨_, inside, _⟩ := edges _ e found
      have fresh := live.hosts.edge_fresh p
      rw [whole] at fresh
      cases fresh.symm.trans inside
  obtain ⟨g, built, _⟩ := inv.buildEdge layer unbuilt atSource atTarget
  generalize { layer, weight := 1, source, target, state := _ : DistributedEdge n W } = e at built
  obtain ⟨_, edgeId, rfl, half, core, invG, _⟩ := process.built live.hosts rfl idle built
  rw [← edgeId] at half invG
  have linked : ∃ t, (s.process p).link light source target layer = some t := by
    unfold HardProcess.link
    rw [built, Option.bind_some]
    split
    next distant =>
      have apart := stateAt_distant.mp distant
      let edge : GlobalEdge n W := { layer, weight := 1, source, target }
      have found := (DistributedGraph.getEdge_insertEdge (e := edge.stored (G.stateAt p edge)) half _).trans
        (if_pos rfl)
      obtain ⟨sends, requests, _⟩ := linkRequests_spec live.hosts light core
        (s.process p).graph.edgeId edge (G.stateAt p edge) (invG.source _ _ found) (invG.target _ _ found) apart
      exact ⟨_, Option.map_eq_some_iff.mpr ⟨sends, requests, rfl⟩⟩
    next => exact ⟨_, rfl⟩
  obtain ⟨t, result⟩ := linked
  unfold HardSystem.link
  rw [call_returns runs result]
  exact ⟨_, rfl⟩

theorem Live.unlink_returns (live : Live G s) {k : Id n} (runs : (s.process p).running = true)
    (found : ∃ e, (s.process p).graph.getEdge k = some e) : ∃ s', s.unlink p k = some s' := by
  obtain ⟨e, found⟩ := found
  have process := live.process p
  have idle := (HardProcess.running_idle runs).1
  have whole := HardProcess.whole_idle idle
  have stored := process.whole_of_graph found
  obtain ⟨edge, inside, rfl⟩ := process.edges k e stored
  have outside : ¬ ((s.process p).role k).linking := by
    rw [HardProcess.role_idle idle]
    exact not_false
  have unlinked : ∃ t, (s.process p).unlink k = some t := by
    unfold HardProcess.unlink
    rw [found, Option.bind_some]
    dsimp only
    split
    next =>
      obtain ⟨atSource, atTarget⟩ := process.nodes_of_edge stored
      obtain ⟨sends, requests, _⟩ := LiveProcess.unlinkRequests_spec (s := { s.process p with
        server := (s.process p).server.lockUnlink k }) live.hosts (by rw [← whole]) k edge
        (G.stateAt p edge) atSource atTarget
      exact ⟨_, Option.map_eq_some_iff.mpr ⟨sends, requests, rfl⟩⟩
    next =>
      obtain ⟨g, result, _⟩ := process.erased (v := s.views) rfl ⟨_, stored⟩ outside
      exact ⟨_, Option.map_eq_some_iff.mpr ⟨g, result, rfl⟩⟩
  obtain ⟨t, result⟩ := unlinked
  unfold HardSystem.unlink
  rw [call_returns runs result]
  exact ⟨_, rfl⟩

theorem Live.resume_returns (live : Live G s) (order : HashOrder) {call : LinkFrame n T W}
    {rest : List (LinkFrame n T W)} (stack : (s.process p).stack = call :: rest) (received : call.sends = []) :
    ∃ s', s.resume p order = some s' := by
  have process := live.process p
  have inCall := process.call
  rw [stack] at inCall
  have resumed : ∃ t, (s.process p).resume order = some t := by
    unfold HardProcess.resume
    rw [stack]
    cases inCall with
    | @link k e sends half mine once sent =>
      cases received
      have found : (s.process p).whole.getEdge k = some e := by
        rw [HardProcess.whole_link stack, DistributedGraph.getEdge_insertEdge half, if_pos rfl]
      obtain ⟨edge, inside, _⟩ := process.edges k e found
      have free : k ∉ (s.process p).ghostEdges := fun member => by
        refine ((live.ok k edge inside).ghost p member).2.2 ?_
        show ((s.process p).role k).linking
        rw [HardProcess.role_link stack]
      obtain ⟨t, result, _⟩ := process.linked (v := s.views) live.hosts rfl stack free
      exact ⟨t, result⟩
    | @unlink k sends inside sent =>
      cases received
      obtain ⟨edge, inside⟩ := inside
      obtain ⟨t, result, _⟩ := process.unlinked (v := s.views) rfl stack (by
        refine ((live.ok k edge inside).unlinking p ?_).2.1
        show ((s.process p).role k).unlinking
        rw [HardProcess.role_unlink stack])
      exact ⟨t, result⟩
  obtain ⟨t, result⟩ := resumed
  refine ⟨s.setProcess p t, ?_⟩
  unfold HardSystem.resume
  rw [result, Option.map_some]

theorem Live.handle_returns [One W] (live : Live G s) {frame index : Nat} (order : HashOrder)
    {call : LinkFrame n T W} {request : LinkRequest n T W}
    (at_ : (s.process p).stack[frame]? = some call) (pending : call.sends[index]? = some request)
    (listening : (s.process request.dest).listening = true) :
    ∃ s', s.handle p frame index order = some s' := by
  have process := live.process p
  obtain ⟨stack, rfl⟩ := process.alone at_
  have inCall := process.call
  rw [stack] at inCall
  have member := List.mem_of_getElem? pending
  have receiver := live.process request.dest
  have handled : request.dest ≠ p ∧ ∃ u, (s.process request.dest).handle order request.message = some u := by
    cases inCall with
    | @link k e sends half mine once sent =>
      obtain ⟨apart, message, edge, content, rfl, inside, carries, source, target⟩ := sent request member
      refine ⟨apart, ?_⟩
      have fresh := ((live.ok message.id edge inside).asked p request.dest (by
        show ((s.process p).role message.id).asks request.dest
        rw [HardProcess.role_link stack]
        exact ⟨rfl, List.mem_map_of_mem member⟩)).2.1
      obtain ⟨g, result, _⟩ := receiver.imported (v := s.views) live.hosts rfl order inside carries source
        target fresh
      rw [content]
      exact ⟨_, Option.map_eq_some_iff.mpr ⟨g, result, rfl⟩⟩
    | @unlink k sends inside sent =>
      obtain ⟨apart, content⟩ := sent request member
      refine ⟨apart, ?_⟩
      rw [content]
      unfold HardProcess.handle
      dsimp only
      split
      next => exact ⟨_, rfl⟩
      next =>
        cases found : (s.process request.dest).graph.getEdge k with
        | none => exact ⟨_, rfl⟩
        | some e =>
          rw [Option.elim_some]
          split
          next => exact ⟨_, rfl⟩
          next =>
            have stored := receiver.whole_of_graph found
            have unlinked : ¬ ((s.process request.dest).role k).linking := by
              rintro ⟨call', inStack, links⟩
              have inCall' := receiver.call
              cases stack' : (s.process request.dest).stack with
              | nil =>
                rw [stack'] at inStack
                cases inStack
              | cons first rest =>
                rw [stack'] at inCall' inStack
                cases inCall' with
                | link half mine once sent =>
                  cases List.mem_singleton.mp inStack
                  cases links
                  cases half.symm.trans found
                | unlink inside sent =>
                  cases List.mem_singleton.mp inStack
                  exact links
            obtain ⟨g, result, _⟩ := receiver.erased (v := s.views) rfl ⟨e, stored⟩ unlinked
            exact ⟨_, Option.map_eq_some_iff.mpr ⟨g, result, rfl⟩⟩
  obtain ⟨apart, u, result⟩ := handled
  unfold HardSystem.handle
  rw [at_, Option.bind_some, pending, Option.bind_some, if_pos listening]
  dsimp only
  rw [process_setProcess, if_neg apart, result]
  exact ⟨_, rfl⟩

end

theorem Live.returns [One W] {G : GlobalGraph n T W} {s : HardSystem n T W} (live : Live G s) (light : T → T)
    (action : HardAction n T) (links : action.Links s) (enabled : action.Enabled s) :
    ∃ s', (hard n T W light).next s action = some s' := by
  cases action with
  | buildNode p data => exact live.build_returns data enabled
  | link p source target layer => exact live.link_returns light layer enabled.1 enabled.2.1 enabled.2.2
  | unlink p edge => exact live.unlink_returns enabled.1 enabled.2
  | removeNode p node => exact links.elim
  | resume p order =>
    obtain ⟨call, rest, stack, received⟩ := enabled
    exact live.resume_returns order stack received
  | handle p frame index order =>
    obtain ⟨call, request, at_, pending, listening⟩ := enabled
    exact live.handle_returns order at_ pending listening
  | enter p =>
    obtain ⟨t, result, _⟩ := (live.process p).entered (v := s.views) rfl enabled fun k member => by
      obtain ⟨edge, inside⟩ := (live.process p).ghosts k member
      exact ((live.ok k edge inside).ghost p member).1
    exact ⟨_, call_returns enabled result⟩
  | synchronize order =>
    obtain ⟨s', taken, _⟩ := live.synchronize order enabled
    exact ⟨s', taken⟩
  | distribute order partition =>
    obtain ⟨s', taken, _⟩ := live.distribute light order links enabled
    exact ⟨s', taken⟩

/-- In a prompt run, no step reads, links or erases an edge that is not there. -/
theorem PromptRun.no_step_faults [One W] {light : T → T} {s : HardSystem n T W} (run : PromptRun light s)
    (action : HardAction n T) (links : action.Links s) (enabled : action.Enabled s) :
    ∃ s', (hard n T W light).next s action = some s' := by
  obtain ⟨G, live⟩ := run.live
  exact live.returns light action links enabled

theorem no_step_faults_in_link :
    ∃ s : HardSystem 2 Nat Nat, PromptRun id s ∧
      ∃ s', (hard 2 Nat Nat id).next s (.handle 0 0 0 .insertion) = some s' := by
  have run : ((hard 2 Nat Nat id).execBy (fun s a => a.Links s ∧ a.Prompt s) .empty
      (separate 0 1 ++ [.link 0 ⟨0, 0⟩ ⟨0, 1⟩ 0])).map (fun s =>
        ((s.process 0).stack[0]?.bind (·.sends[0]?)).any fun request =>
          (s.process request.dest).listening) = some true := by decide +kernel
  obtain ⟨s, taken, pending⟩ := Option.map_eq_some_iff.mp run
  have reached : PromptRun id s := TransitionSystem.ReachableBy.execBy _ (.start rfl) taken
  obtain ⟨request, sent, hears⟩ := (Option.any_eq_true _ _).mp pending
  obtain ⟨call, at_, first⟩ := Option.bind_eq_some_iff.mp sent
  exact ⟨s, reached, reached.no_step_faults (.handle 0 0 0 .insertion) trivial
    ⟨call, request, at_, first, hears⟩⟩

def HardProcess.pending (s : HardProcess n T W) : Nat :=
  (s.stack.map fun call => call.sends.length + 1).sum + if s.synchronizing then 0 else 1

def HardSystem.pending (s : HardSystem n T W) : Nat := ∑ p, (s.process p).pending

section

variable {s : HardSystem n T W} {p : Fin n}

theorem HardSystem.pending_setProcess {t : HardProcess n T W} (less : t.pending < (s.process p).pending) :
    (s.setProcess p t).pending < s.pending := by
  refine Finset.sum_lt_sum (fun q _ => ?_) ⟨p, Finset.mem_univ p, ?_⟩
  · rw [process_setProcess]
    split
    next here => exact here ▸ less.le
    next => exact le_rfl
  · rw [process_setProcess, if_pos rfl]
    exact less

theorem HardProcess.handle_pending [One W] {s t : HardProcess n T W} {order : HashOrder}
    {message : LinkMessage n T W} (kind : ∀ id, message ≠ .removeNode id)
    (taken : s.handle order message = some t) : t.pending = s.pending := by
  cases message with
  | link edge =>
    obtain ⟨_, _, rfl⟩ := Option.map_eq_some_iff.mp taken
    rfl
  | unlink id =>
    unfold HardProcess.handle at taken
    dsimp only at taken
    split at taken
    next =>
      cases taken
      rfl
    next =>
      cases found : s.graph.getEdge id with
      | none =>
        rw [found] at taken
        cases taken
        rfl
      | some edge =>
        rw [found, Option.elim_some] at taken
        split at taken
        next =>
          cases taken
          rfl
        next =>
          obtain ⟨_, _, rfl⟩ := Option.map_eq_some_iff.mp taken
          rfl
  | removeNode id => exact absurd rfl (kind id)

theorem HardSystem.resume_pending {order : HashOrder} {s' : HardSystem n T W} {call : LinkFrame n T W}
    (stack : (s.process p).stack = [call]) (kind : (∃ k e, call = .link k e []) ∨ ∃ k, call = .unlink k [])
    (taken : s.resume p order = some s') : s'.pending < s.pending := by
  obtain ⟨t, result, rfl⟩ := Option.map_eq_some_iff.mp taken
  have ended : t.stack = [] ∧ t.synchronizing = (s.process p).synchronizing := by
    unfold HardProcess.resume at result
    rw [stack] at result
    rcases kind with ⟨k, e, rfl⟩ | ⟨k, rfl⟩
    · obtain ⟨_, _, rest⟩ := Option.bind_eq_some_iff.mp result
      obtain ⟨_, _, rfl⟩ := Option.map_eq_some_iff.mp rest
      exact ⟨rfl, rfl⟩
    · obtain ⟨_, _, rfl⟩ := Option.map_eq_some_iff.mp result
      exact ⟨rfl, rfl⟩
  refine pending_setProcess ?_
  unfold HardProcess.pending
  rw [ended.1, ended.2, stack]
  simp only [List.map_nil, List.sum_nil, List.map_cons, List.sum_cons]
  omega

theorem HardSystem.handle_pending [One W] {order : HashOrder} {s' : HardSystem n T W}
    {call : LinkFrame n T W} {request : LinkRequest n T W} (stack : (s.process p).stack = [call])
    (at_ : call.sends[0]? = some request) (away : request.dest ≠ p)
    (kind : ∀ id, request.message ≠ .removeNode id) (taken : s.handle p 0 0 order = some s') :
    s'.pending < s.pending := by
  unfold HardSystem.handle at taken
  rw [show (s.process p).stack[0]? = some call by rw [stack]; rfl, Option.bind_some, at_,
    Option.bind_some] at taken
  obtain ⟨_, taken⟩ := Option.ite_none_right_eq_some.mp taken
  obtain ⟨u, acted, rfl⟩ := Option.map_eq_some_iff.mp taken
  rw [process_setProcess, if_neg away] at acted
  have same := HardProcess.handle_pending kind acted
  have less : (call.received 0).sends.length < call.sends.length := by
    have bound : 0 < call.sends.length := (List.getElem?_eq_some_iff.mp at_).1
    cases call with
    | link k e sends => exact (List.length_eraseIdx_of_lt bound).trans_lt (Nat.sub_lt bound Nat.one_pos)
    | unlink k sends => exact (List.length_eraseIdx_of_lt bound).trans_lt (Nat.sub_lt bound Nat.one_pos)
    | removeNode k sends => exact (List.length_eraseIdx_of_lt bound).trans_lt (Nat.sub_lt bound Nat.one_pos)
    | lockShared k => cases bound
    | unlinkEdges k edges incoming => cases bound
  have first : ∀ t : HardProcess n T W, t = { s.process p with
      stack := (s.process p).stack.modify 0 (·.received 0) } → (s.setProcess p t).pending < s.pending := by
    rintro t rfl
    refine pending_setProcess ?_
    unfold HardProcess.pending
    rw [stack]
    simp only [List.modify_zero_cons, List.map_cons, List.map_nil, List.sum_cons, List.sum_nil]
    omega
  refine lt_of_le_of_lt (Finset.sum_le_sum fun q _ => ?_) (first _ rfl)
  rw [process_setProcess]
  split
  next here =>
    rw [here, process_setProcess, if_neg away]
    exact same.le
  next => exact le_rfl

end

def HardAction.Serves : HardAction n T → Prop
  | resume _ _ => True
  | handle _ _ _ _ => True
  | enter _ => True
  | _ => False

section

variable [One W] {light : T → T} {s s' : HardSystem n T W}

theorem HardSystem.serve_history {action : HardAction n T} (serves : action.Serves)
    (taken : (hard n T W light).next s action = some s') :
    s'.linked = s.linked ∧ s'.unlinked = s.unlinked := by
  cases action with
  | resume p order =>
    obtain ⟨t, _, rfl⟩ := Option.map_eq_some_iff.mp taken
    exact ⟨rfl, rfl⟩
  | handle p frame index order =>
    obtain ⟨_, _, taken⟩ := Option.bind_eq_some_iff.mp taken
    obtain ⟨_, _, taken⟩ := Option.bind_eq_some_iff.mp taken
    obtain ⟨_, taken⟩ := Option.ite_none_right_eq_some.mp taken
    obtain ⟨_, _, rfl⟩ := Option.map_eq_some_iff.mp taken
    exact ⟨rfl, rfl⟩
  | enter p =>
    obtain ⟨_, t, _, rfl⟩ := Live.call_eq taken
    exact ⟨rfl, rfl⟩
  | buildNode p data => exact serves.elim
  | link p source target layer => exact serves.elim
  | unlink p edge => exact serves.elim
  | removeNode p node => exact serves.elim
  | synchronize order => exact serves.elim
  | distribute order partition => exact serves.elim

-- The servers are never stuck: a LINK request that is waited for can be handled at once, and an UNLINK
-- request can once nobody is in `link`.
theorem PromptRun.serve (run : PromptRun light s) (busy : ¬ s.ended = true) :
    ∃ action, action.Serves ∧ action.Links s ∧ action.Prompt s ∧
      ∃ s', (hard n T W light).next s action = some s' ∧ s'.pending < s.pending := by
  have live := run.live
  obtain ⟨G, live⟩ := live
  have hears : ∀ q, (s.process q).listening = true := by
    intro q
    have inCall := (live.process q).call
    unfold HardProcess.listening
    cases stack : (s.process q).stack with
    | nil => rfl
    | cons first rest =>
      rw [stack] at inCall
      cases inCall <;> rfl
  by_cases linking : ∃ p k e sends, (s.process p).stack = [.link k e sends]
  · obtain ⟨p, k, e, sends, stack⟩ := linking
    cases sends with
    | nil =>
      obtain ⟨s', taken⟩ := live.returns light (.resume p .insertion) trivial ⟨_, [], stack, rfl⟩
      exact ⟨.resume p .insertion, trivial, trivial, trivial, s', taken,
        HardSystem.resume_pending stack (.inl ⟨k, e, rfl⟩) taken⟩
    | cons request rest =>
      have at_ : (s.process p).stack[0]? = some (.link k e (request :: rest)) := by
        rw [stack]
        rfl
      have inCall := (live.process p).call
      rw [stack] at inCall
      have sent : request.dest ≠ p ∧ request.Carries G k := by
        cases inCall with
        | link half mine once sent => exact sent request List.mem_cons_self
      obtain ⟨away, message, _, content, _⟩ := sent
      obtain ⟨s', taken⟩ := live.returns light (.handle p 0 0 .insertion) trivial
        ⟨_, request, at_, rfl, hears _⟩
      refine ⟨.handle p 0 0 .insertion, trivial, trivial, ?_, s', taken,
        HardSystem.handle_pending stack rfl away (fun id => by rw [content]; nofun)
          taken⟩
      have first : (LinkFrame.link k e (request :: rest)).sends[0]? = some request := rfl
      obtain ⟨dest, _⟩ := request
      cases content
      unfold HardAction.Prompt
      dsimp only
      rw [at_, Option.bind_some, first]
      trivial
  · have noLink : ∀ q k, ∀ call ∈ (s.process q).stack, ¬ call.Links k := by
      intro q k call member links
      have inCall := (live.process q).call
      cases stack : (s.process q).stack with
      | nil =>
        rw [stack] at member
        cases member
      | cons first rest =>
        rw [stack] at inCall member
        cases inCall with
        | link half mine once sent => exact linking ⟨q, _, _, _, stack⟩
        | unlink inside sent =>
          cases List.mem_singleton.mp member
          exact links
    by_cases unlinking : ∃ p k sends, (s.process p).stack = [.unlink k sends]
    · obtain ⟨p, k, sends, stack⟩ := unlinking
      cases sends with
      | nil =>
        obtain ⟨s', taken⟩ := live.returns light (.resume p .insertion) trivial ⟨_, [], stack, rfl⟩
        exact ⟨.resume p .insertion, trivial, trivial, trivial, s', taken,
          HardSystem.resume_pending stack (.inr ⟨k, rfl⟩) taken⟩
      | cons request rest =>
        have at_ : (s.process p).stack[0]? = some (.unlink k (request :: rest)) := by
          rw [stack]
          rfl
        have inCall := (live.process p).call
        rw [stack] at inCall
        have sent : request.dest ≠ p ∧ request.message = .unlink k := by
          cases inCall with
          | unlink inside sent => exact sent request List.mem_cons_self
        obtain ⟨away, content⟩ := sent
        obtain ⟨s', taken⟩ := live.returns light (.handle p 0 0 .insertion) trivial
          ⟨_, request, at_, rfl, hears _⟩
        refine ⟨.handle p 0 0 .insertion, trivial, trivial, ?_, s', taken,
          HardSystem.handle_pending stack rfl away
            (fun id => by rw [content]; nofun) taken⟩
        have first : (LinkFrame.unlink k (request :: rest) : LinkFrame n T W).sends[0]? = some request := rfl
        obtain ⟨dest, _⟩ := request
        cases content
        unfold HardAction.Prompt
        dsimp only
        rw [at_, Option.bind_some, first]
        exact ⟨noLink dest k, fun q call member links => absurd links (noLink q k call member)⟩
    · -- Nobody is in any call.
      have idle : ∀ q, (s.process q).stack = [] := by
        intro q
        have inCall := (live.process q).call
        cases stack : (s.process q).stack with
        | nil => rfl
        | cons first rest =>
          rw [stack] at inCall
          cases inCall with
          | link half mine once sent => exact absurd ⟨q, _, _, _, stack⟩ linking
          | unlink inside sent => exact absurd ⟨q, _, _, stack⟩ unlinking
      have running : ∃ p, (s.process p).synchronizing = false := by
        by_contra none_
        refine busy (List.all_eq_true.mpr fun p _ => ?_)
        rw [idle p]
        simpa using fun free => none_ ⟨p, free⟩
      obtain ⟨p, free⟩ := running
      have runs : (s.process p).running = true := by
        unfold HardProcess.running
        rw [idle p, free]
        rfl
      obtain ⟨s', taken⟩ := live.returns light (.enter p) trivial runs
      refine ⟨.enter p, trivial, trivial, trivial, s', taken, ?_⟩
      obtain ⟨_, t, result, rfl⟩ := Live.call_eq taken
      obtain ⟨_, _, rfl⟩ := Option.map_eq_some_iff.mp result
      refine HardSystem.pending_setProcess ?_
      unfold HardProcess.pending
      rw [free]
      simp

/-- From any state of a prompt run, the servers can let all the processes into the synchronization, which
commits what the users have linked and unlinked. -/
theorem PromptRun.drains (run : PromptRun light s) (order : Fin n → HashOrder) :
    ∃ actions s' s'', (∀ action ∈ actions, action.Serves) ∧
      (hard n T W light).exec s actions = some s' ∧ PromptRun light s' ∧
      s'.synchronize order = some s'' ∧ s''.linked = s.linked ∧ s''.unlinked = s.unlinked ∧
      s''.Committed := by
  induction work : s.pending using Nat.strong_induction_on generalizing s with
  | _ work_ ih =>
    by_cases ended : s.ended = true
    · obtain ⟨G, live⟩ := run.live
      obtain ⟨s'', taken, rested, linked, unlinked⟩ := live.synchronize order ended
      exact ⟨[], s, s'', by simp, rfl, run, taken, linked, unlinked, rested.committed⟩
    · obtain ⟨action, serves, links, prompt, t, taken, less⟩ := run.serve ended
      have later : PromptRun light t := .step run ⟨links, prompt⟩ taken
      obtain ⟨linked, unlinked⟩ := HardSystem.serve_history serves taken
      obtain ⟨actions, s', s'', serve, reached, run', result, linked', unlinked', committed⟩ :=
        ih t.pending (work ▸ less) later rfl
      refine ⟨action :: actions, s', s'', ?_, ?_, run', result, linked'.trans linked,
        unlinked'.trans unlinked, committed⟩
      · exact List.forall_mem_cons.mpr ⟨serves, serve⟩
      · exact Option.bind_eq_some_iff.mpr ⟨t, taken, reached⟩

end

theorem drains_in_link : ∃ (s : HardSystem 2 Nat Nat) (actions : _) (s' s'' : HardSystem 2 Nat Nat),
    (s.process 0).stack ≠ [] ∧ (∀ action ∈ actions, HardAction.Serves action) ∧
    (hard 2 Nat Nat id).exec s actions = some s' ∧ s'.synchronize (fun _ => .insertion) = some s'' ∧
    s''.Committed ∧ (s''.linked ⟨0, 1⟩).isSome ∧ s''.unlinked = [] := by
  have run : ((hard 2 Nat Nat id).execBy (fun s a => a.Links s ∧ a.Prompt s) .empty
      (separate 0 1 ++ [.link 0 ⟨0, 0⟩ ⟨0, 1⟩ 0])).map (fun s =>
        ((s.process 0).stack.isEmpty, (s.linked ⟨0, 1⟩).isSome, s.unlinked)) =
      some (false, true, []) := by decide +kernel
  obtain ⟨s, taken, state⟩ := Option.map_eq_some_iff.mp run
  simp only [Prod.mk.injEq] at state
  obtain ⟨busy, stored, none_⟩ := state
  have reached : PromptRun id s := TransitionSystem.ReachableBy.execBy _ (.start rfl) taken
  obtain ⟨actions, s', s'', serve, drained, _, result, linked, unlinked, committed⟩ :=
    reached.drains fun _ => .insertion
  refine ⟨s, actions, s', s'', fun idle => ?_, serve, drained, result, committed, ?_,
    unlinked.trans none_⟩
  · rw [idle] at busy
    cases busy
  · rw [linked]
    exact stored

end Fpmas.Synchro.Hard
