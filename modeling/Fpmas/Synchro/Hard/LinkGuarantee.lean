import Fpmas.Synchro.Hard.LinkRest

set_option autoImplicit false

namespace Fpmas.Synchro.Hard

open Fpmas.Graph

variable {n : Nat} {T W : Type}

open GlobalGraph

def HardProcess.OwnsEnd (s : HardProcess n T W) (edge : GlobalEdge n W) : Prop :=
  s.graph.view.IsLocal edge.source ∨ s.graph.view.IsLocal edge.target

/-- Each edge that has been linked and not unlinked is, once, on the processes that own one of its nodes,
and nowhere else. -/
def HardSystem.Committed (s : HardSystem n T W) : Prop :=
  ∀ p, GraphInv (s.process p).graph ∧ ∀ k, (∃ e, (s.process p).graph.getEdge k = some e) ↔
    ∃ edge, s.linked k = some edge ∧ k ∉ s.unlinked ∧ (s.process p).OwnsEnd edge

theorem Rested.committed {G : GlobalGraph n T W} {s : HardSystem n T W} (rested : Rested G s) :
    s.Committed := by
  intro p
  refine ⟨rested.graph p, fun k => ?_⟩
  simp only [← DistributedGraph.view_edge, rested.represents.edges p, edgeAt_eq_some]
  unfold HardProcess.OwnsEnd
  simp only [rested.represents.isLocal p]
  constructor
  · rintro ⟨_, edge, inside, near, _⟩
    obtain ⟨linked, stays⟩ := (rested.linked k edge).mp inside
    exact ⟨edge, linked, stays, near⟩
  · rintro ⟨edge, linked, stays, near⟩
    exact ⟨_, edge, (rested.linked k edge).mpr ⟨linked, stays⟩, near, rfl⟩

/-- Every synchronization of a prompt run completes, and commits all the links and unlinks. -/
theorem PromptRun.commits_links [One W] {light : T → T} {s : HardSystem n T W} (run : PromptRun light s)
    (order : Fin n → HashOrder) (ended : s.ended = true) :
    ∃ s', s.synchronize order = some s' ∧ s'.linked = s.linked ∧ s'.unlinked = s.unlinked ∧
      s'.Committed := by
  obtain ⟨G, live⟩ := run.live
  obtain ⟨s', taken, rested, linked, unlinked⟩ := live.synchronize order ended
  exact ⟨s', taken, linked, unlinked, rested.committed⟩

section

variable (s : HardSystem n T W)

instance (call : LinkFrame n T W) (id : Id n) : Decidable (call.Links id) :=
  match call with
  | .link k _ _ => inferInstanceAs (Decidable (k = id))
  | .unlink _ _ => inferInstanceAs (Decidable False)
  | .removeNode _ _ => inferInstanceAs (Decidable False)
  | .lockShared _ => inferInstanceAs (Decidable False)
  | .unlinkEdges _ _ _ => inferInstanceAs (Decidable False)

instance (q : Fin n) (k : Id n) : Decidable (s.Arrived q k) :=
  inferInstanceAs (Decidable (_ ∧ _))

instance (g : DistributedGraph n T W) (id : Id n) : Decidable (g.view.IsDistant id) :=
  decidable_of_iff _ (g.isDistant_iff id).symm

instance (action : HardAction n T) : Decidable (action.Links s) :=
  match action with
  | .removeNode _ _ => inferInstanceAs (Decidable False)
  | .distribute _ partition => inferInstanceAs (Decidable (∀ p, ∀ entry ∈ (partition p).entries,
      entry.2 ≠ p → ¬ (s.process p).graph.view.IsDistant entry.1))
  | .buildNode _ _ => inferInstanceAs (Decidable True)
  | .link _ _ _ _ => inferInstanceAs (Decidable True)
  | .unlink _ _ => inferInstanceAs (Decidable True)
  | .resume _ _ => inferInstanceAs (Decidable True)
  | .handle _ _ _ _ => inferInstanceAs (Decidable True)
  | .enter _ => inferInstanceAs (Decidable True)
  | .synchronize _ => inferInstanceAs (Decidable True)

instance (action : HardAction n T) : Decidable (action.Prompt s) :=
  match action with
  | .unlink p edge => inferInstanceAs (Decidable (edge ∉ (s.process p).ghostEdges))
  | .handle p frame index _ =>
    match ready : ((s.process p).stack[frame]?).bind (·.sends[index]?) with
    | some { dest, message := .unlink k } =>
      decidable_of_iff (s.Arrived dest k) (by unfold HardAction.Prompt; simp only [ready])
    | some { dest := _, message := .link _ } => isTrue (by unfold HardAction.Prompt; simp only [ready])
    | some { dest := _, message := .removeNode _ } =>
      isTrue (by unfold HardAction.Prompt; simp only [ready])
    | none => isTrue (by unfold HardAction.Prompt; simp only [ready])
  | .buildNode _ _ => inferInstanceAs (Decidable True)
  | .link _ _ _ _ => inferInstanceAs (Decidable True)
  | .removeNode _ _ => inferInstanceAs (Decidable True)
  | .resume _ _ => inferInstanceAs (Decidable True)
  | .enter _ => inferInstanceAs (Decidable True)
  | .synchronize _ => inferInstanceAs (Decidable True)
  | .distribute _ _ => inferInstanceAs (Decidable True)

end

def separate (p q : Fin n) : List (HardAction n Nat) :=
  [.buildNode p 0, .buildNode p 0, .link p ⟨p, 0⟩ ⟨p, 1⟩ 0, .enter p, .enter q,
    .distribute (fun _ => .insertion) fun r => if r = p then UnorderedMap.insertNew ∅ ⟨p, 1⟩ q else ∅]

def unlinkAfter (p q : Fin n) : List (HardAction n Nat) :=
  [.link p ⟨p, 0⟩ ⟨p, 1⟩ 0, .handle p 0 0 .insertion, .resume p .insertion, .unlink q ⟨p, 1⟩,
    .handle q 0 0 .insertion, .resume q .insertion]

def unlinkInLink (p q : Fin n) : List (HardAction n Nat) :=
  [.link p ⟨p, 0⟩ ⟨p, 1⟩ 0, .handle p 0 0 .insertion, .unlink q ⟨p, 1⟩, .handle q 0 0 .insertion,
    .resume p .insertion, .resume q .insertion]

theorem commits_links_after_unlink :
    ∃ s s', PromptRun (n := 2) id s ∧ s.synchronize (fun _ => .insertion) = some s' ∧
      (s' : HardSystem 2 Nat Nat).Committed ∧ s'.unlinked = [⟨0, 1⟩] := by
  have run : ((hard 2 Nat Nat id).execBy (fun s a => a.Links s ∧ a.Prompt s) .empty
      (separate 0 1 ++ unlinkAfter 0 1 ++ [.enter 0, .enter 1])).map (fun s => (s.ended, s.unlinked)) =
        some (true, [⟨0, 1⟩]) := by decide +kernel
  obtain ⟨s, taken, state⟩ := Option.map_eq_some_iff.mp run
  rw [Prod.mk.injEq] at state
  have reached : PromptRun id s := TransitionSystem.ReachableBy.execBy _ (.start rfl) taken
  obtain ⟨s', result, _, unlinked, committed⟩ := reached.commits_links (fun _ => .insertion) state.1
  exact ⟨s, s', reached, result, committed, unlinked.trans state.2⟩

-- The edge stays on the process that was in `link` when the UNLINK request arrived.
theorem unlink_in_link_lost :
    ∃ s s', (hard 2 Nat Nat id).ReachableBy (fun s a => a.Links s) s ∧
      s.synchronize (fun _ => .insertion) = some s' ∧ ¬ (s' : HardSystem 2 Nat Nat).Committed ∧
      s'.unlinked = [⟨0, 1⟩] ∧ ∃ e, (s'.process 0).graph.getEdge ⟨0, 1⟩ = some e := by
  have run : ((hard 2 Nat Nat id).execBy (fun s a => a.Links s) .empty
      (separate 0 1 ++ unlinkInLink 0 1 ++ [.enter 0, .enter 1])).bind (fun s =>
        (s.synchronize fun _ => .insertion).map fun s' =>
          (s'.unlinked, ((s'.process 0).graph.getEdge ⟨0, 1⟩).isSome)) = some ([⟨0, 1⟩], true) := by
    decide +kernel
  obtain ⟨s, taken, state⟩ := Option.bind_eq_some_iff.mp run
  obtain ⟨s', result, state⟩ := Option.map_eq_some_iff.mp state
  rw [Prod.mk.injEq] at state
  obtain ⟨e, found⟩ := Option.isSome_iff_exists.mp state.2
  refine ⟨s, s', TransitionSystem.ReachableBy.execBy _ (.start rfl) taken, result, fun committed => ?_,
    state.1, e, found⟩
  obtain ⟨_, _, stays, _⟩ := ((committed 0).2 ⟨0, 1⟩).mp ⟨e, found⟩
  rw [state.1] at stays
  exact stays List.mem_cons_self

end Fpmas.Synchro.Hard
