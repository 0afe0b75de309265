import Mathlib.Tactic.FinCases
import Fpmas.Graph.GraphCalls
import Fpmas.Synchro.Ghost.Runs

set_option autoImplicit false

namespace Fpmas.Synchro.Ghost

open Fpmas.Graph

variable {n : Nat} {T W : Type}

section

variable [One W] {G : GlobalGraph n T W} {s t : GhostSystem n T W}

theorem Period.apply_keeps (period : Period G s) {made : GhostCall n T W} (keeps : ¬ made.Removes)
    {y : GhostProcess n T W} (applied : made.apply (s made.process) = some y) :
    y.linker.localNodesToRemove = (s made.process).linker.localNodesToRemove ∧
      (y.view.edgeId = (s made.process).view.edgeId ∧ (∀ p x z layer, made ≠ .link p x z layer) ∨
        y.view.edgeId = (s made.process).view.edgeId.next) := by
  have run := period.running
  cases made with
  | buildNode p data =>
    obtain ⟨g, built, _, view⟩ := (run.graph p).buildNode data (run.nodeId_absent p)
    have same : some { s p with graph := g } = some y :=
      (congrArg (Option.map _) built).symm.trans applied
    cases same
    refine ⟨rfl, .inl ⟨?_, by simp⟩⟩
    show g.view.edgeId = _
    rw [view]
    rfl
  | setData p id data weight =>
    obtain ⟨node, at_, rfl⟩ := Option.map_eq_some_iff.mp applied
    exact ⟨rfl, .inl ⟨rfl, by simp⟩⟩
  | link p source target layer =>
    obtain ⟨atSource, atTarget⟩ := link_present applied
    obtain ⟨y', result, linked⟩ := link_spec (run.graph p) layer (run.edge_fresh p p).2 atSource atTarget
    cases applied.symm.trans result
    refine ⟨?_, .inr ?_⟩
    · rw [linked.linker]
      unfold GhostSyncLinker.link
      split <;> rfl
    · rw [linked.view]
      rfl
  | unlink p k =>
    obtain ⟨_, buffered, _⟩ := Option.bind_eq_some_iff.mp applied
    obtain ⟨e, found, _⟩ := Option.bind_eq_some_iff.mp buffered
    obtain ⟨y', result, unlinked⟩ := unlink_spec (run.graph p) (k := k) (e := e) found
    cases applied.symm.trans result
    refine ⟨unlinked.localNodesToRemove, .inl ⟨?_, by simp⟩⟩
    rw [unlinked.view]
    rfl
  | removeNode p order id => exact absurd trivial keeps

theorem Period.call_edgeId (period : Period G s) {made : GhostCall n T W} (keeps : ¬ made.Removes)
    (result : s.call made = some t) (p : Fin n) :
    (s p).view.edgeId.id ≤ (t p).view.edgeId.id ∧
      (t p).linker.localNodesToRemove = (s p).linker.localNodesToRemove := by
  obtain ⟨y, applied, rfl⟩ := Option.map_eq_some_iff.mp result
  obtain ⟨removed, edgeId⟩ := period.apply_keeps keeps applied
  refine ⟨?_, update_field (·.linker.localNodesToRemove) removed p⟩
  rw [Function.update_apply]
  split
  case isTrue here =>
    subst here
    rcases edgeId with ⟨same, _⟩ | next
    · rw [same]
    · rw [next]
      exact Nat.le_succ _
  case isFalse => exact Nat.le_refl _

variable {light : T → T}

-- Without removals, the conditions on the synchronizing calls are those on the partitions.
theorem Period.keeps_of_lasting (period : Period G s)
    (nothing : ∀ p, (s p).linker.localNodesToRemove = []) {action : GhostAction n T W}
    (lasting : action.Lasting s) : action.Keeps light s := by
  obtain ⟨once, apart, forgotten⟩ := sound_of_unremoved nothing
  cases action with
  | call made => trivial
  | synchronize order => exact ⟨once, apart⟩
  | distribute order partition =>
    exact ⟨⟨once, forgotten⟩, fun s' linked => period.keepsDistant light order once lasting linked⟩
  | balance order loadBalancing =>
    refine ⟨⟨once, forgotten⟩, fun s' linked p id q entry _ => ?_⟩
    exact lasting s'.graphs p id ((UnorderedMap.mem_iff_lookup _ _).mpr ⟨q, entry⟩)

theorem lasting_keeps (reached : (ghost n T W light).ReachableBy (fun s a => a.Lasting s) s) :
    (ghost n T W light).ReachableBy (fun s a => a.Keeps light s) s ∧
      ∀ p, (s p).linker.localNodesToRemove = [] := by
  induction reached with
  | start initial => exact ⟨.start initial, fun p => by cases initial; rfl⟩
  | @step s t action _ lasting taken ih =>
    obtain ⟨before, nothing⟩ := ih
    obtain ⟨G, period⟩ := reachable_period before
    have keeps : action.Keeps light s := period.keeps_of_lasting nothing lasting
    refine ⟨.step before keeps taken, fun p => ?_⟩
    obtain ⟨G', _, synced⟩ := period.next keeps taken
    have settled : action.Synchronizes → (t p).linker.localNodesToRemove = [] := by
      intro synchronizes
      rw [(synced synchronizes).linker]
      rfl
    cases action with
    | call made =>
      rw [(period.call_edgeId lasting taken p).2]
      exact nothing p
    | synchronize order => exact settled trivial
    | distribute order partition => exact settled trivial
    | balance order loadBalancing => exact settled trivial

theorem lasting_synchronized (reached : (ghost n T W light).ReachableBy (fun s a => a.Lasting s) s)
    {action : GhostAction n T W} (lasting : action.Lasting s) (synchronizes : action.Synchronizes)
    (taken : action.next light s = some t) : ∃ G, Synchronized G t := by
  obtain ⟨keeps, nothing⟩ := lasting_keeps reached
  obtain ⟨G, period⟩ := reachable_period keeps
  obtain ⟨G', _, synced⟩ := period.next (period.keeps_of_lasting nothing lasting) taken
  exact ⟨G', synced synchronizes⟩

end

def linkedRun (p : Fin n) (x y : T) : List (GhostAction n T W) :=
  [.call (.buildNode p x), .call (.buildNode p y), .call (.link p ⟨p, 0⟩ ⟨p, 1⟩ 0)]

def sendOnly (p : Fin n) (id : Id n) (q r : Fin n) : PartitionMap n :=
  if r = p then (∅ : PartitionMap n).insert id q else ∅

theorem mem_sendOnly {p q r : Fin n} {id other : Id n} (member : other ∈ sendOnly p id q r) :
    r = p ∧ other = id := by
  unfold sendOnly at member
  split at member
  case isTrue here =>
    rw [AList.mem_insert] at member
    exact ⟨here, member.resolve_right (AList.notMem_empty other)⟩
  case isFalse => exact absurd member (AList.notMem_empty other)

section

variable {s t : GhostSystem n T W}

theorem sendOnly_local {p q : Fin n} {id : Id n} (near : (s p).view.state id = some .LOCAL) :
    ∀ r other, other ∈ sendOnly p id q r → (s r).view.IsLocal other := by
  intro r other member
  obtain ⟨rfl, rfl⟩ := mem_sendOnly member
  exact GraphView.isLocal_iff_state.mpr near

-- The two nodes of `linkedRun`, on two processes.
theorem linked_separated [One W] {light : T → T} {p q : Fin n} {x y : T} {order : Fin n → HashOrder}
    (built : (ghost n T W light).exec .empty (linkedRun p x y) = some s)
    (near : (s p).view.state ⟨p, 1⟩ = some .LOCAL)
    (moved : s.distribute light order (sendOnly p ⟨p, 1⟩ q) = some t) :
    (ghost n T W light).ReachableBy (fun s a => a.Lasting s) t ∧ ∃ G, Synchronized G t := by
  have before : (ghost n T W light).ReachableBy (fun s a => a.Lasting s) s :=
    .exec _ (.start rfl) (by simp [linkedRun, GhostAction.Lasting, GhostCall.Removes]) built
  have lasting : GhostAction.Lasting s (.distribute order (sendOnly p ⟨p, 1⟩ q)) := sendOnly_local near
  exact ⟨before.step lasting moved, lasting_synchronized before lasting trivial moved⟩

end

def separated (p q : Fin n) (x y : T) : List (GhostAction n T W) :=
  linkedRun p x y ++ [.distribute (fun _ => .insertion) (sendOnly p ⟨p, 1⟩ q)]

def linkThird (p : Fin n) (x : T) : List (GhostAction n T W) :=
  [.call (.buildNode p x), .call (.link p ⟨p, 2⟩ ⟨p, 1⟩ 0), .synchronize fun _ => .insertion]

-- `q` unlinks the third node and removes it, while `p` links it again.
def removeThird (p q : Fin n) : List (GhostAction n T W) :=
  [.call (.unlink q ⟨p, 1⟩), .call (.removeNode q .insertion ⟨p, 2⟩),
    .call (.link p ⟨p, 2⟩ ⟨p, 1⟩ 1)]

theorem removed_from_afar : ∃ s t : GhostSystem 2 Nat Nat,
    (ghost 2 Nat Nat id).ReachableBy (fun s a => a.Keeps id s) s ∧ RemovedOnce s ∧ NoCrossing s ∧
    s.synchronize id (fun _ => .insertion) = some t ∧ Removed s ⟨0, 2⟩ ∧
    (s 0).view.state ⟨0, 2⟩ = some .LOCAL ∧ (s 1).view.state ⟨0, 2⟩ = some .DISTANT ∧
    (s 0).linker.linkBuffer = [⟨0, 2⟩] ∧ (s 1).linker.unlinkMigration.valuesAt 0 = [⟨0, 1⟩] ∧
    (t 1).view.state ⟨0, 0⟩ = some .DISTANT := by
  have run : (((ghost 2 Nat Nat id).exec .empty (linkedRun 0 5 6)).bind fun s =>
      (s.distribute id (fun _ => .insertion) (sendOnly 0 ⟨0, 1⟩ 1)).bind fun t =>
      ((ghost 2 Nat Nat id).exec t (linkThird 0 7)).bind fun u =>
      ((ghost 2 Nat Nat id).exec u (removeThird 0 1)).bind fun v =>
      (v.synchronize id fun _ => .insertion).map fun w =>
        ([(s 0).view.state ⟨0, 1⟩, (v 0).view.state ⟨0, 2⟩, (v 1).view.state ⟨0, 2⟩,
            (w 1).view.state ⟨0, 0⟩],
          [(v 0).linker.localNodesToRemove, (v 1).linker.localNodesToRemove],
          [(v 0).linker.linkBuffer, (v 1).linker.unlinkMigration.valuesAt 0])) =
      some ([some .LOCAL, some .LOCAL, some .DISTANT, some .DISTANT], [[], [⟨0, 2⟩]],
        [[⟨0, 2⟩], [⟨0, 1⟩]]) := by
    decide +kernel
  obtain ⟨s, built, rest⟩ := Option.bind_eq_some_iff.mp run
  obtain ⟨t, moved, rest⟩ := Option.bind_eq_some_iff.mp rest
  obtain ⟨u, linked, rest⟩ := Option.bind_eq_some_iff.mp rest
  obtain ⟨v, removed, rest⟩ := Option.bind_eq_some_iff.mp rest
  obtain ⟨w, synchronized, result⟩ := Option.map_eq_some_iff.mp rest
  simp only [Prod.mk.injEq, List.cons.injEq, and_true] at result
  obtain ⟨⟨second, owned, ghost_, left⟩, ⟨kept, gone⟩, waits, told⟩ := result
  have lasting := (linked_separated built second moved).1
  have third : (ghost 2 Nat Nat id).ReachableBy (fun s a => a.Lasting s) u :=
    .exec _ lasting (by simp [linkThird, GhostAction.Lasting, GhostCall.Removes]) linked
  refine ⟨v, w, .exec _ (lasting_keeps third).1 (by simp [removeThird, GhostAction.Keeps]) removed,
    ⟨fun p => ?_, fun p q id here there => ?_⟩, fun e x y p _ _ near member => ?_, synchronized,
    ⟨1, gone ▸ List.mem_singleton_self _⟩, owned, ghost_, waits, told, left⟩
  · fin_cases p
    · exact kept ▸ List.nodup_nil
    · exact gone ▸ List.nodup_singleton _
  · fin_cases p <;> fin_cases q
    · rfl
    · exact absurd (kept ▸ here) List.not_mem_nil
    · exact absurd (kept ▸ there) List.not_mem_nil
    · rfl
  · fin_cases p
    · exact absurd (kept ▸ member) List.not_mem_nil
    · obtain rfl : x = ⟨0, 2⟩ := List.mem_singleton.mp (gone ▸ member)
      cases ghost_.symm.trans (GraphView.isLocal_iff_state.mp near)

end Fpmas.Synchro.Ghost
