import Fpmas.Graph.GraphRuns

set_option autoImplicit false

namespace Fpmas.Synchro.Hard

open Fpmas.Graph

variable {n : Nat} {T W : Type}

/-- The ids of the mutex map are those of the graph, and each maps to the mutex of the node. -/
def Registered (s : AddressedGraph n T W) : Prop :=
  (∀ id, id ∈ s.objects.mutexMap ↔ ∃ node, s.graph.getNode id = some node) ∧
    ∀ id address, s.objects.mutexMap.lookup id = some address → s.objects.nodes.lookup id = some address

/-- `MutexServer::remove` is called by nobody, so the registry is right as long as no node that has
been deleted stays away. -/
theorem registered_iff [One W] {light : T → T} {s : Fin n → AddressedGraph n T W}
    (reached : (graphs n T W light).ReachableBy (fun s a => a.Genuine s) s) (p : Fin n) :
    Registered (s p) ↔ ∀ id ∈ (s p).objects.erased, ∃ node, (s p).graph.getNode id = some node := by
  have valid := reachable_kept reached p
  have follow := valid.follow
  have known : ∀ id, id ∈ (s p).objects.erased → id ∈ (s p).objects.mutexMap := by
    intro id deleted
    rw [UnorderedMap.mem_iff_lookup]
    cases at_ : (s p).objects.nodes.lookup id with
    | some address => exact ⟨address, follow.mutexes id address at_⟩
    | none => exact Option.ne_none_iff_exists'.mp fun unknown => (follow.stale id at_).mp unknown deleted
  constructor
  · exact fun registered id deleted => (registered.1 id).mp (known id deleted)
  · intro back
    have present : ∀ id address, (s p).objects.mutexMap.lookup id = some address →
        (s p).objects.nodes.lookup id = some address := by
      intro id address entry
      cases at_ : (s p).objects.nodes.lookup id with
      | some own => exact (follow.mutexes id own at_).symm.trans entry
      | none =>
        have deleted : id ∈ (s p).objects.erased := by
          by_contra never
          cases entry.symm.trans ((follow.stale id at_).mpr never)
        obtain ⟨address', found⟩ := (valid.inGraph id).mp (back id deleted)
        cases at_.symm.trans found
    refine ⟨fun id => ?_, present⟩
    rw [valid.inGraph, UnorderedMap.mem_iff_lookup]
    constructor
    · exact fun ⟨address, entry⟩ => ⟨address, present id address entry⟩
    · exact fun ⟨address, at_⟩ => ⟨address, follow.mutexes id address at_⟩

-- A node that leaves process 0: its mutex is registered where it arrives.
theorem registered_on_arrival : ∃ s, (graphs 2 Unit Nat id).execBy (fun s a => a.Genuine s)
    AddressedGraph.empty
    [.call 0 .insertion (.buildNode ()), .distribute (fun _ => .insertion) (fun _ => []) (fun _ => [])
      fun p => if p = 0 then AList.insert ⟨0, 0⟩ 1 ∅ else ∅] = some s ∧
    (s 1).graph.getNode ⟨0, 0⟩ ≠ none ∧ Registered (s 1) := by
  have run : ((graphs 2 Unit Nat id).execBy (fun s a => a.Genuine s) AddressedGraph.empty
      [.call 0 .insertion (.buildNode ()), .distribute (fun _ => .insertion) (fun _ => []) (fun _ => [])
        fun p => if p = 0 then AList.insert ⟨0, 0⟩ 1 ∅ else ∅]).map (fun s =>
        ((s 1).objects.erased, ((s 1).graph.getNode ⟨0, 0⟩).isSome)) = some ([], true) := by decide
  obtain ⟨s, taken, arrived⟩ := Option.map_eq_some_iff.mp run
  obtain ⟨nothing, present⟩ := Prod.mk.inj arrived
  refine ⟨s, taken, Option.isSome_iff_ne_none.mp present, ?_⟩
  refine (registered_iff (TransitionSystem.ReachableBy.execBy _ (.start rfl) taken) 1).mpr fun id deleted => ?_
  rw [nothing] at deleted
  cases deleted

-- The mutex of a node that has been erased is still found under its id.
theorem deleted_mutex_registered : ∃ s, (graphs 1 Unit Nat id).ReachableBy (fun s a => a.Genuine s) s ∧
    ¬ Registered (s 0) := by
  have run : ((graphs 1 Unit Nat id).execBy (fun s a => a.Genuine s) AddressedGraph.empty
      [.call 0 .insertion (.buildNode ()), .call 0 .insertion (.eraseNode ⟨0, 0⟩)]).map (fun s =>
        (decide (⟨0, 0⟩ ∈ (s 0).objects.mutexMap), (s 0).graph.getNode ⟨0, 0⟩ |>.isSome)) =
        some (true, false) := by decide
  obtain ⟨s, taken, left⟩ := Option.map_eq_some_iff.mp run
  obtain ⟨entry, absent⟩ := Prod.mk.inj left
  refine ⟨s, TransitionSystem.ReachableBy.execBy _ (.start rfl) taken, fun registered => ?_⟩
  obtain ⟨node, at_⟩ := (registered.1 ⟨0, 0⟩).mp (of_decide_eq_true entry)
  rw [at_] at absent
  cases absent

end Fpmas.Synchro.Hard
