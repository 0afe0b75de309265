import Fpmas.Synchro.Ghost.LastingRuns

set_option autoImplicit false

namespace Fpmas.Synchro.Ghost

open Fpmas.Graph

variable {n : Nat} {T W : Type}

/-- The node and its edges are on no process. -/
def Gone (s : GhostSystem n T W) (id : Id n) : Prop :=
  ∀ p, (s p).graph.getNode id = none ∧ ∀ k e, (s p).graph.getEdge k = some e → ¬ e.Touches id

def GhostCall.Valid (s : GhostSystem n T W) : GhostCall n T W → Prop
  | .buildNode _ _ => True
  | .setData p node _ _ => ∃ found, (s p).graph.getNode node = some found
  | .link p source target _ =>
    (∃ found, (s p).graph.getNode source = some found) ∧
      ∃ found, (s p).graph.getNode target = some found
  | .unlink p edge => ∃ found, (s p).graph.getEdge edge = some found
  | .removeNode p _ node => ∃ found, (s p).graph.getNode node = some found

section

variable {G : GlobalGraph n T W} {s t : GhostSystem n T W}

theorem Synchronized.gone {ids : Id n → Prop} (synced : Synchronized (G.removeNodes ids) t)
    {id : Id n} (removed : ids id) : Gone t id := by
  intro p
  constructor
  · cases at_ : (t p).graph.getNode id with
    | none => rfl
    | some node =>
      have found : (t p).view.core id = some node.core := by
        rw [GhostProcess.view, DistributedGraph.view_core, at_]
        rfl
      obtain ⟨_, inside, _⟩ := synced.represents.ghost p id _ found
      exact absurd removed (GlobalGraph.removeNodes_node.mp inside).2
  · intro k e found touches
    obtain ⟨edge, inside, _, rfl⟩ := GlobalGraph.edgeAt_eq_some.mp
      ((synced.represents.edges p k).symm.trans found)
    obtain ⟨_, source, target⟩ := GlobalGraph.removeNodes_edge.mp inside
    rcases touches with rfl | rfl
    · exact source removed
    · exact target removed

variable [One W]

theorem Period.call_some (period : Period G s) {made : GhostCall n T W} (valid : made.Valid s) :
    ∃ t, s.call made = some t := by
  have run := period.running
  have core : ∀ {p id node}, (s p).graph.getNode id = some node →
      (s p).view.core id = some node.core := by
    intro p id node at_
    rw [GhostProcess.view, DistributedGraph.view_core, at_]
    rfl
  have applied : ∃ y, made.apply (s made.process) = some y := by
    cases made with
    | buildNode p data =>
      obtain ⟨g, built, _⟩ := (run.graph p).buildNode data (run.nodeId_absent p)
      exact ⟨{ s p with graph := g }, congrArg (Option.map _) built⟩
    | setData p id data weight =>
      obtain ⟨node, at_⟩ := valid
      exact ⟨_, congrArg (Option.map _) at_⟩
    | link p source target layer =>
      obtain ⟨⟨_, atSource⟩, _, atTarget⟩ := valid
      obtain ⟨y, result, _⟩ := link_spec (run.graph p) layer (run.edge_fresh p p).2
        ⟨_, core atSource⟩ ⟨_, core atTarget⟩
      exact ⟨y, result⟩
    | unlink p k =>
      obtain ⟨e, found⟩ := valid
      obtain ⟨y, result, _⟩ := unlink_spec (run.graph p) found
      exact ⟨y, result⟩
    | removeNode p order id =>
      obtain ⟨node, at_⟩ := valid
      obtain ⟨y, result, _⟩ := run.unlinkNode order (core at_) fun _ _ _ _ => not_false
      simp only [GhostCall.apply, GhostCall.process, GhostProcess.removeNode]
      rw [at_, Option.bind_some]
      cases state : node.state with
      | DISTANT => exact ⟨_, rfl⟩
      | LOCAL =>
        dsimp only
        rw [result]
        exact ⟨_, rfl⟩
  obtain ⟨y, result⟩ := applied
  exact ⟨_, congrArg (Option.map _) result⟩

variable {light : T → T}

theorem removal_guarantee (reached : (ghost n T W light).ReachableBy (fun s a => a.Keeps light s) s)
    (order : Fin n → HashOrder) :
    (∃ t, s.synchronize light order = some t ∧ ∀ id, Removed s id → Gone t id) ↔
      RemovedOnce s ∧ NoCrossing s := by
  obtain ⟨G, period⟩ := reachable_period reached
  constructor
  · rintro ⟨t, result, _⟩
    exact period.synchronize_only light order result
  · rintro ⟨once, apart⟩
    obtain ⟨t, result, synced⟩ := period.synchronize light order once apart
    exact ⟨t, result, fun id removed => synced.gone removed⟩

theorem removal_guarantee_afar : ∃ s t : GhostSystem 2 Nat Nat, Removed s ⟨0, 2⟩ ∧
    (s 0).view.state ⟨0, 2⟩ = some .LOCAL ∧ (s 1).view.state ⟨0, 2⟩ = some .DISTANT ∧
    (s 0).linker.linkBuffer = [⟨0, 2⟩] ∧ s.synchronize id (fun _ => .insertion) = some t ∧
    ∀ id, Removed s id → Gone t id := by
  obtain ⟨s, t, reached, once, apart, synchronized, removed, owned, ghost_, waits, _⟩ := removed_from_afar
  obtain ⟨t', result, gone⟩ := (removal_guarantee reached fun _ => .insertion).mpr ⟨once, apart⟩
  cases synchronized.symm.trans result
  exact ⟨s, t, removed, owned, ghost_, waits, synchronized, gone⟩

-- A node that leaves its process while another process links it.
def crossingRun (p q : Fin n) : List (GhostAction n Nat Nat) :=
  separated p q 5 6 ++
    [.call (.link q ⟨p, 1⟩ ⟨p, 0⟩ 0), .call (.removeNode p .insertion ⟨p, 0⟩)]

theorem removed_node_remains : ∃ s t, (ghost 2 Nat Nat id).Reachable s ∧ Removed s ⟨0, 0⟩ ∧
    s.commit id (fun _ => .insertion) = some t ∧ ¬ Gone t ⟨0, 0⟩ ∧
    ¬ ∃ t, s.synchronize id (fun _ => .insertion) = some t ∧ Gone t ⟨0, 0⟩ := by
  have run : (((ghost 2 Nat Nat id).exec .empty (crossingRun 0 1)).bind fun s =>
      (s.commit id fun _ => .insertion).map fun t => ((s 0).linker.localNodesToRemove,
        ((t 1).graph.getNode ⟨0, 0⟩).isSome, (s.synchronize id fun _ => .insertion).isSome)) =
      some ([⟨0, 0⟩], true, false) := by
    decide +kernel
  obtain ⟨s, taken, last⟩ := Option.bind_eq_some_iff.mp run
  obtain ⟨t, commit, result⟩ := Option.map_eq_some_iff.mp last
  simp only [Prod.mk.injEq] at result
  obtain ⟨removed, present, throws⟩ := result
  refine ⟨s, t, TransitionSystem.reachable_exec (crossingRun 0 1) (.start rfl) taken, ⟨0, ?_⟩, commit, ?_, ?_⟩
  · rw [removed]
    exact List.mem_singleton_self _
  · intro gone
    rw [(gone 1).1] at present
    cases present
  · rintro ⟨u, done, _⟩
    rw [done] at throws
    cases throws

/-- The calls apply to elements that are still there, and so does the commit when no node is removed
twice. -/
theorem erased_once (reached : (ghost n T W light).ReachableBy (fun s a => a.Keeps light s) s) :
    (∀ made : GhostCall n T W, made.Valid s → ∃ t, s.call made = some t) ∧
      ∀ order, (∃ t, s.commitLinks light order = some t) ↔ RemovedOnce s := by
  obtain ⟨G, period⟩ := reachable_period reached
  refine ⟨fun made valid => period.call_some valid, fun order => ?_⟩
  have commit := period.commitLinks light order
  constructor
  · rintro ⟨t, result⟩
    exact commit.2 t result
  · intro once
    obtain ⟨t, result, _⟩ := commit.1 once
    exact ⟨t, result⟩

theorem erased_once_afar : ∃ s t : GhostSystem 2 Nat Nat, Removed s ⟨0, 2⟩ ∧
    (s 1).view.state ⟨0, 2⟩ = some .DISTANT ∧ (s 0).linker.linkBuffer = [⟨0, 2⟩] ∧
    (s 1).linker.unlinkMigration.valuesAt 0 = [⟨0, 1⟩] ∧
    (∀ made : GhostCall 2 Nat Nat, made.Valid s → ∃ t, s.call made = some t) ∧
    s.commitLinks id (fun _ => .insertion) = some t := by
  obtain ⟨s, _, reached, once, _, _, removed, _, ghost_, waits, told, _⟩ := removed_from_afar
  obtain ⟨calls, commits⟩ := erased_once reached
  obtain ⟨t, result⟩ := (commits fun _ => .insertion).mpr once
  exact ⟨s, t, removed, ghost_, waits, told, calls, result⟩

theorem erased_twice : ∃ s, (ghost 1 Nat Nat id).Reachable s ∧
    (s 0).linker.localNodesToRemove = [⟨0, 0⟩, ⟨0, 0⟩] ∧
    s.commitLinks id (fun _ => .insertion) = none := by
  have run : (((ghost 1 Nat Nat id).exec .empty [.call (.buildNode 0 5),
      .call (.removeNode 0 .insertion ⟨0, 0⟩), .call (.removeNode 0 .insertion ⟨0, 0⟩)]).map fun s =>
      ((s 0).linker.localNodesToRemove, (s.commitLinks id fun _ => .insertion).isSome)) =
      some ([⟨0, 0⟩, ⟨0, 0⟩], false) := by
    decide +kernel
  obtain ⟨s, taken, result⟩ := Option.map_eq_some_iff.mp run
  obtain ⟨twice, fails⟩ := Prod.mk.inj result
  exact ⟨s, TransitionSystem.reachable_exec _ (.start rfl) taken, twice,
    Option.not_isSome_iff_eq_none.mp (Bool.eq_false_iff.mp fails)⟩

end

end Fpmas.Synchro.Ghost
