import Fpmas.Graph.Distribute

set_option autoImplicit false

namespace Fpmas.Graph

inductive EpochTask (n : Nat) where
  | nodeTask (node : Id n)
  | task

-- The tasks that each process has in a job.
abbrev EpochJob (n : Nat) := Fin n → List (EpochTask n)

/-- A load balancing algorithm called by all the processes, that may depend on its previous calls. -/
structure FixedVerticesLoadBalancing (n : Nat) where
  balance (call : Nat) (nodes : Fin n → NodeMap n) (fixedVertices : Fin n → PartitionMap n) :
    Fin n → PartitionMap n

structure BalanceState (n : Nat) where
  nodeMap : Fin n → NodeMap n
  -- The last partition.
  fixedNodes : Fin n → PartitionMap n
  calls : Nat

variable {n : Nat}

def destination (partition : Fin n → PartitionMap n) (p : Fin n) (id : Id n) : Fin n :=
  ((partition p).lookup id).getD p

namespace FixedVerticesLoadBalancing

variable (lb : FixedVerticesLoadBalancing n)

/-- The algorithm leaves the fixed vertices where they are said to be. -/
def Honours : Prop :=
  ∀ call nodes fixed p id q, id ∈ nodes p → (fixed p).lookup id = some q →
    destination (lb.balance call nodes fixed) p id = q

/-- The algorithm only returns nodes that leave their process. -/
def ReturnsExports : Prop :=
  ∀ call nodes fixed p id q, (lb.balance call nodes fixed p).lookup id = some q →
    id ∈ nodes p ∧ q ≠ p

end FixedVerticesLoadBalancing

namespace ScheduledLoadBalancing

def addTask (nodeMap : NodeMap n) : EpochTask n → NodeMap n
  | .nodeTask node => nodeMap.insert node ()
  | .task => nodeMap

variable (fixedVerticesLb : FixedVerticesLoadBalancing n)

def balanceJob (s : BalanceState n) (job : EpochJob n) : BalanceState n :=
  let nodeMap := fun p => (job p).foldl addTask (s.nodeMap p)
  { nodeMap
    fixedNodes := fixedVerticesLb.balance s.calls nodeMap s.fixedNodes
    calls := s.calls + 1 }

def balanceJobs (epoch : List (EpochJob n)) : BalanceState n :=
  epoch.foldl (balanceJob fixedVerticesLb)
    { nodeMap := fun _ => ∅
      fixedNodes := fun _ => ∅
      calls := 0 }

def balance (epoch : List (EpochJob n)) (nodes : Fin n → NodeMap n) : Fin n → PartitionMap n :=
  let s := balanceJobs fixedVerticesLb epoch
  fixedVerticesLb.balance s.calls nodes s.fixedNodes

/-- A node partitioned when the last job of `handled` was handled ends where it was put then. -/
def KeepsDecisions (epoch : List (EpochJob n)) (nodes : Fin n → NodeMap n) : Prop :=
  ∀ handled, handled <+: epoch → ∀ p id, id ∈ (balanceJobs fixedVerticesLb handled).nodeMap p →
    destination (balance fixedVerticesLb epoch nodes) p id =
      destination (balanceJobs fixedVerticesLb handled).fixedNodes p id

section

variable {lb : FixedVerticesLoadBalancing n} {epoch : List (EpochJob n)}

theorem balanceJobs_append (job : EpochJob n) :
    balanceJobs lb (epoch ++ [job]) = balanceJob lb (balanceJobs lb epoch) job := by
  rw [balanceJobs, List.foldl_append]
  rfl

theorem balanceJob_fixedNodes (s : BalanceState n) (job : EpochJob n) :
    (balanceJob lb s job).fixedNodes =
      lb.balance s.calls (fun p => (job p).foldl addTask (s.nodeMap p)) s.fixedNodes :=
  rfl

theorem balanceJobs_calls : (balanceJobs lb epoch).calls = epoch.length := by
  induction epoch using List.reverseRecOn with
  | nil => rfl
  | append_singleton epoch job ih =>
    rw [balanceJobs_append, List.length_append, balanceJob, ih]
    rfl

theorem mem_foldl_addTask {tasks : List (EpochTask n)} {nodeMap : NodeMap n} {id : Id n} :
    id ∈ tasks.foldl addTask nodeMap ↔ id ∈ nodeMap ∨ .nodeTask id ∈ tasks := by
  induction tasks generalizing nodeMap with
  | nil => simp
  | cons first rest ih =>
    rw [List.foldl_cons, ih, List.mem_cons]
    cases first with
    | nodeTask node =>
      simp only [addTask, AList.mem_insert, EpochTask.nodeTask.injEq]
      tauto
    | task => simp [addTask]

theorem mem_nodeMap {p : Fin n} {id : Id n} :
    id ∈ (balanceJobs lb epoch).nodeMap p ↔ ∃ job ∈ epoch, .nodeTask id ∈ job p := by
  induction epoch using List.reverseRecOn with
  | nil => simp [balanceJobs]
  | append_singleton epoch job ih =>
    rw [balanceJobs_append, balanceJob]
    dsimp only
    rw [mem_foldl_addTask, ih]
    simp only [List.mem_append, List.mem_singleton]
    constructor
    · rintro (⟨job', member, bound⟩ | bound)
      · exact ⟨job', .inl member, bound⟩
      · exact ⟨job, .inr rfl, bound⟩
    · rintro ⟨job', member | rfl, bound⟩
      · exact .inl ⟨job', member, bound⟩
      · exact .inr bound

theorem moved_next (honours : lb.Honours) {call : Nat} {nodes : Fin n → NodeMap n}
    {fixed : Fin n → PartitionMap n} {p q : Fin n} {id : Id n} (inside : id ∈ nodes p)
    (moved : (fixed p).lookup id = some q) (leaves : q ≠ p) :
    (lb.balance call nodes fixed p).lookup id = some q := by
  have there := honours call nodes fixed p id q inside moved
  unfold destination at there
  cases found : (lb.balance call nodes fixed p).lookup id with
  | none =>
    rw [found] at there
    exact absurd there.symm leaves
  | some r =>
    rw [found] at there
    rw [← there]
    rfl

theorem mem_of_moved (exports : lb.ReturnsExports) {p q : Fin n} {id : Id n}
    (moved : ((balanceJobs lb epoch).fixedNodes p).lookup id = some q) :
    id ∈ (balanceJobs lb epoch).nodeMap p ∧ q ≠ p := by
  induction epoch using List.reverseRecOn with
  | nil => cases moved
  | append_singleton epoch job =>
    rw [balanceJobs_append] at moved ⊢
    exact exports _ _ _ _ _ _ moved

theorem moved_kept (honours : lb.Honours) (exports : lb.ReturnsExports) {handled : List (EpochJob n)}
    (before : handled <+: epoch) {p q : Fin n} {id : Id n}
    (moved : ((balanceJobs lb handled).fixedNodes p).lookup id = some q) :
    ((balanceJobs lb epoch).fixedNodes p).lookup id = some q := by
  obtain ⟨rest, rfl⟩ := before
  induction rest using List.reverseRecOn with
  | nil =>
    rw [List.append_nil]
    exact moved
  | append_singleton rest job ih =>
    obtain ⟨inside, leaves⟩ := mem_of_moved exports ih
    rw [← List.append_assoc, balanceJobs_append]
    exact moved_next honours (mem_foldl_addTask.mpr (.inl inside)) ih leaves

def exportedVertices (p : Fin n) (nodes : NodeMap n) (fixed : PartitionMap n) : PartitionMap n :=
  ((fixed.toList .insertion).filter fun item => item.1 ∈ nodes ∧ item.2 ≠ p).foldl
    (fun m item => m.insert item.1 item.2) ∅

theorem lookup_exportedVertices {p q : Fin n} {id : Id n} {nodes : NodeMap n}
    {fixed : PartitionMap n} : (exportedVertices p nodes fixed).lookup id = some q ↔
      fixed.lookup id = some q ∧ id ∈ nodes ∧ q ≠ p := by
  have once := (UnorderedMap.nodup_toList .insertion fixed).sublist
    ((List.filter_sublist (p := fun item => item.1 ∈ nodes ∧ item.2 ≠ p)).map Prod.fst)
  refine (UnorderedMap.lookup_foldl_insert once ∅ id q).trans ?_
  rw [List.mem_filter, UnorderedMap.mem_toList, decide_eq_true_eq]
  exact or_iff_left fun absurd_ => nomatch absurd_.2

-- The algorithm that keeps the nodes where they are and honours the fixed vertices, but moves `id` from
-- `p` to `q` in one call.
def moveIn (last : Nat) (p q : Fin n) (id : Id n) : FixedVerticesLoadBalancing n where
  balance call nodes fixed r :=
    let exported := exportedVertices r (nodes r) (fixed r)
    if call = last ∧ r = p ∧ id ∈ nodes p ∧ id ∉ fixed p then exported.insert id q else exported

theorem moveIn_lookup {last call : Nat} {p q r d : Fin n} {id other : Id n}
    {nodes : Fin n → NodeMap n} {fixed : Fin n → PartitionMap n} :
    ((moveIn last p q id).balance call nodes fixed r).lookup other = some d ↔
      (fixed r).lookup other = some d ∧ other ∈ nodes r ∧ d ≠ r ∨
      (call = last ∧ r = p ∧ id ∈ nodes p ∧ id ∉ fixed p) ∧ other = id ∧ d = q := by
  unfold moveIn
  dsimp only
  split
  case isTrue now =>
    obtain ⟨_, rfl, inside, free⟩ := now
    rw [UnorderedMap.lookup_insert']
    by_cases same : other = id
    · subst same
      have unfixed : (fixed r).lookup other = none := AList.lookup_eq_none.mpr free
      simp [eq_comm, *]
    · simp [same, lookup_exportedVertices]
  case isFalse later => simp [lookup_exportedVertices, later]

theorem moveIn_honours (last : Nat) {p q : Fin n} (leaves : q ≠ p) (id : Id n) :
    (moveIn last p q id).Honours ∧ (moveIn last p q id).ReturnsExports := by
  constructor
  · intro call nodes fixed r other d inside stays
    unfold destination
    cases found : ((moveIn last p q id).balance call nodes fixed r).lookup other with
    | none =>
      by_contra away
      have moves : ((moveIn last p q id).balance call nodes fixed r).lookup other = some d :=
        moveIn_lookup.mpr (.inl ⟨stays, inside, fun same => away same.symm⟩)
      cases found.symm.trans moves
    | some d' =>
      rcases moveIn_lookup.mp found with ⟨stays', _⟩ | ⟨⟨_, rfl, _, free⟩, rfl, _⟩
      · cases stays.symm.trans stays'
        rfl
      · exact absurd ((UnorderedMap.mem_iff_lookup _ _).mpr ⟨d, stays⟩) free
  · intro call nodes fixed r other d found
    rcases moveIn_lookup.mp found with ⟨_, inside, away⟩ | ⟨⟨_, rfl, inside, _⟩, rfl, rfl⟩
    · exact ⟨inside, away⟩
    · exact ⟨inside, leaves⟩

theorem moveIn_before {last : Nat} {p q : Fin n} {id : Id n} (early : epoch.length ≤ last)
    (r : Fin n) (other : Id n) :
    ((balanceJobs (moveIn last p q id) epoch).fixedNodes r).lookup other = none := by
  induction epoch using List.reverseRecOn generalizing r other with
  | nil => rfl
  | append_singleton epoch job ih =>
    rw [List.length_append, List.length_singleton] at early
    have nothing := ih (by omega)
    rw [balanceJobs_append, Option.eq_none_iff_forall_ne_some]
    intro d found
    rw [balanceJob_fixedNodes] at found
    rcases moveIn_lookup.mp found with ⟨moved, _⟩ | ⟨⟨now, _⟩, _⟩
    · cases (nothing r other).symm.trans moved
    · rw [balanceJobs_calls] at now
      omega

end

/-- The nodes that a job moves end where it moves them, but those that it keeps on their process are
not fixed there, so that the decisions are only safe when there is none to take. -/
theorem keeps_decisions_iff (epoch : List (EpochJob n)) (nodes : Fin n → NodeMap n) :
    ((∀ lb : FixedVerticesLoadBalancing n, lb.Honours → lb.ReturnsExports →
      KeepsDecisions lb epoch nodes) ↔
    n ≤ 1 ∨ ∀ job ∈ epoch, ∀ p id, .nodeTask id ∉ job p) ∧
    ∀ lb : FixedVerticesLoadBalancing n, lb.Honours → lb.ReturnsExports →
      ∀ handled, handled <+: epoch → ∀ p id q,
        ((balanceJobs lb handled).fixedNodes p).lookup id = some q → id ∈ nodes p →
        destination (balance lb epoch nodes) p id = q := by
  refine ⟨⟨?_, ?_⟩, ?_⟩
  · intro keeps
    by_contra both
    rw [not_or] at both
    obtain ⟨several, bound⟩ := both
    push Not at bound
    obtain ⟨job, member, p, id, bound⟩ := bound
    obtain ⟨before, after, rfl⟩ := List.append_of_mem member
    obtain ⟨q, leaves⟩ : ∃ q : Fin n, q ≠ p := by
      have : Nontrivial (Fin n) := Fin.nontrivial_iff_two_le.mpr (by omega)
      exact exists_ne p
    have handled : before ++ [job] <+: before ++ job :: after := ⟨after, by simp⟩
    have partitioned : ∀ lb : FixedVerticesLoadBalancing n,
        id ∈ (balanceJobs lb (before ++ [job])).nodeMap p :=
      fun lb => mem_nodeMap.mpr ⟨job, by simp, bound⟩
    by_cases inside : id ∈ nodes p
    · -- The jobs keep the node on `p`, and the last call moves it.
      let last := (before ++ job :: after).length
      obtain ⟨honours, exports⟩ := moveIn_honours last leaves id
      have kept := keeps _ honours exports _ handled p id (partitioned _)
      have early : (before ++ [job]).length ≤ last := handled.length_le
      have free : ((balanceJobs (moveIn last p q id) (before ++ job :: after)).fixedNodes p).lookup id =
          none := moveIn_before (Nat.le_refl _) p id
      have moved : (balance (moveIn last p q id) (before ++ job :: after) nodes p).lookup id = some q :=
        moveIn_lookup.mpr (.inr ⟨⟨balanceJobs_calls, rfl, inside, AList.lookup_eq_none.mp free⟩, rfl, rfl⟩)
      unfold destination at kept
      rw [moved, moveIn_before early, Option.getD_some, Option.getD_none] at kept
      exact leaves kept
    · -- The job moves the node, and the last call knows nothing of it.
      obtain ⟨honours, exports⟩ := moveIn_honours before.length leaves id
      have kept := keeps _ honours exports _ handled p id (partitioned _)
      have free : ((balanceJobs (moveIn before.length p q id) before).fixedNodes p).lookup id = none :=
        moveIn_before (Nat.le_refl _) p id
      have moved : ((balanceJobs (moveIn before.length p q id) (before ++ [job])).fixedNodes p).lookup id =
          some q := by
        rw [balanceJobs_append, balanceJob_fixedNodes]
        refine moveIn_lookup.mpr (.inr ⟨⟨balanceJobs_calls, rfl, ?_, AList.lookup_eq_none.mp free⟩, rfl, rfl⟩)
        exact mem_foldl_addTask.mpr (.inr bound)
      have absent : (balance (moveIn before.length p q id) (before ++ job :: after) nodes p).lookup id =
          none := by
        rw [Option.eq_none_iff_forall_ne_some]
        exact fun d found => inside (exports _ _ _ _ _ _ found).1
      unfold destination at kept
      rw [moved, absent, Option.getD_some, Option.getD_none] at kept
      exact leaves kept.symm
  · rintro (single | free) lb _ _ handled before p id member
    · have : Subsingleton (Fin n) := Fin.subsingleton_iff_le_one.mpr single
      exact Subsingleton.elim _ _
    · obtain ⟨job, inside, bound⟩ := mem_nodeMap.mp member
      exact absurd bound (free job (before.subset inside) p id)
  · intro lb honours exports handled before p id q moved inside
    exact honours _ _ _ _ _ _ inside (moved_kept honours exports before moved)

-- The only job keeps the only node on process 0, and the last call moves it to process 1.
theorem kept_node_moved : ∃ (lb : FixedVerticesLoadBalancing 2) (epoch : List (EpochJob 2))
    (nodes : Fin 2 → NodeMap 2), (lb.Honours ∧ lb.ReturnsExports) ∧ ¬ KeepsDecisions lb epoch nodes := by
  let id : Id 2 := ⟨0, 0⟩
  let job : EpochJob 2 := fun p => if p = 0 then [.nodeTask id] else []
  let nodes : Fin 2 → NodeMap 2 := fun p => if p = 0 then (∅ : NodeMap 2).insert id () else ∅
  refine ⟨moveIn 1 0 1 id, [job], nodes, moveIn_honours 1 (by decide) id, fun keeps => ?_⟩
  have kept := keeps [job] List.prefix_rfl 0 id (by decide)
  revert kept
  decide

end ScheduledLoadBalancing

end Fpmas.Graph
