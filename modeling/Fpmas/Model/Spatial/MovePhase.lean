import Fpmas.Model.Spatial.Rounds

set_option autoImplicit false

namespace Fpmas.Model.Spatial

open Superstep

variable {n : Nat} {A C : Type} [DecidableEq A] [DecidableEq C]

namespace Environment

variable (env : Environment n A C)

section Agent

variable (agent : A) (target : C) (edges : List (Edge A C))

def leaveCalls (kind : Kind) : List (Call (Edge A C)) :=
  (outNeighbors edges kind.layer agent).map fun cell => .unlink (.field kind.layer agent cell)

def leaveLocationCalls : List (Call (Edge A C)) :=
  (outNeighbors edges .LOCATION agent).head?.toList.map fun location =>
    .unlink (.field .LOCATION agent location)

def reachCalls (kind : Kind) : List (Call (Edge A C)) :=
  if (env.range kind agent).contains target target then [.link (.field kind.layer agent target)]
  else []

-- What is left is unlinked before anything is linked, the new location apart.
def moveCalls : List (Call (Edge A C)) :=
  ([.link (.field .NEW_LOCATION agent target)] ++ leaveLocationCalls agent edges ++
      leaveCalls agent edges .mobility ++ leaveCalls agent edges .perception) ++
    (env.reachCalls agent target .mobility ++ env.reachCalls agent target .perception)

omit [DecidableEq C] in
theorem moveTo_some (locationId : Option C) :
    env.moveTo agent (some target) locationId edges =
      some (some target, env.moveCalls agent target edges) := by
  simp only [moveTo, moveCalls, List.append_assoc]
  rfl

variable {agent target edges} {call : Call (Edge A C)}

theorem mem_leaveCalls {kind : Kind} :
    call ∈ leaveCalls agent edges kind ↔ ∃ cell, .field kind.layer agent cell ∈ edges ∧
      call = .unlink (.field kind.layer agent cell) := by
  simp [leaveCalls, eq_comm]

omit [DecidableEq C] in
theorem mem_leaveLocationCalls (left : call ∈ leaveLocationCalls agent edges) :
    ∃ cell, call = .unlink (.field .LOCATION agent cell) := by
  obtain ⟨cell, -, rfl⟩ := List.mem_map.mp left
  exact ⟨cell, rfl⟩

omit [DecidableEq A] [DecidableEq C] in
theorem mem_reachCalls {kind : Kind} (reached : call ∈ env.reachCalls agent target kind) :
    call = .link (.field kind.layer agent target) := by
  unfold reachCalls at reached
  split at reached
  next => simpa using reached
  next => simp at reached

theorem mem_moveCalls (made : call ∈ env.moveCalls agent target edges) :
    call = .link (.field .NEW_LOCATION agent target) ∨
      (∃ cell, call = .unlink (.field .LOCATION agent cell)) ∨
      ∃ kind : Kind, ∃ cell, call = .unlink (.field kind.layer agent cell) ∨
        call = .link (.field kind.layer agent cell) := by
  simp only [moveCalls, List.mem_append, List.mem_singleton] at made
  have leaves : ∀ kind, call ∈ leaveCalls agent edges kind →
      ∃ cell, call = .unlink (.field kind.layer agent cell) := by
    intro kind left
    obtain ⟨cell, -, same⟩ := mem_leaveCalls.mp left
    exact ⟨cell, same⟩
  rcases made with (((new | left) | moved) | perceived) | moved | perceived
  next => exact .inl new
  next => exact .inr (.inl (mem_leaveLocationCalls left))
  next => exact .inr (.inr ⟨.mobility, (leaves _ moved).imp fun _ same => .inl same⟩)
  next => exact .inr (.inr ⟨.perception, (leaves _ perceived).imp fun _ same => .inl same⟩)
  next => exact .inr (.inr ⟨.mobility, target, .inr (env.mem_reachCalls moved)⟩)
  next => exact .inr (.inr ⟨.perception, target, .inr (env.mem_reachCalls perceived)⟩)

theorem count_newLocation_moveCalls (cell : C) :
    (Call.applyAll (env.moveCalls agent target edges) edges).count (.field .NEW_LOCATION agent cell) =
      edges.count (.field .NEW_LOCATION agent cell) + if target = cell then 1 else 0 := by
  have left : (leaveLocationCalls agent edges).count (.link (.field .NEW_LOCATION agent cell)) = 0 := by
    refine List.count_eq_zero.mpr fun made => ?_
    obtain ⟨c, same⟩ := mem_leaveLocationCalls made
    simp at same
  have leaves : ∀ kind,
      (leaveCalls agent edges kind).count (.link (.field .NEW_LOCATION agent cell)) = 0 := by
    refine fun kind => List.count_eq_zero.mpr fun made => ?_
    obtain ⟨c, -, same⟩ := mem_leaveCalls.mp made
    simp at same
  have reaches : ∀ kind,
      (env.reachCalls agent target kind).count (.link (.field .NEW_LOCATION agent cell)) = 0 := by
    refine fun kind => List.count_eq_zero.mpr fun made => ?_
    have same := env.mem_reachCalls made
    simp at same
  rw [Call.count_of_linked]
  next => simp [moveCalls, left, leaves, reaches, List.count_cons]
  next =>
    intro unlinked
    rcases env.mem_moveCalls unlinked with same | ⟨c, same⟩ | ⟨kind, c, same | same⟩
    all_goals simp at same

theorem count_location_moveCalls (cell : C)
    (once : (outNeighbors edges .LOCATION agent).length ≤ 1) :
    (Call.applyAll (env.moveCalls agent target edges) edges).count (.field .LOCATION agent cell) = 0 := by
  have left : (leaveLocationCalls agent edges).count (.unlink (.field .LOCATION agent cell)) =
      edges.count (.field .LOCATION agent cell) := by
    rw [← count_outNeighbors]
    unfold leaveLocationCalls
    cases located : outNeighbors edges .LOCATION agent with
    | nil => rfl
    | cons location rest =>
      rw [located] at once
      obtain rfl := List.eq_nil_of_length_eq_zero (Nat.le_zero.mp (Nat.le_of_succ_le_succ once))
      simp [List.count_cons]
  rw [Call.count_of_unlinked]
  next =>
    simp only [moveCalls, List.count_append, left]
    omega
  next =>
    intro linked
    rcases env.mem_moveCalls linked with same | ⟨c, same⟩ | ⟨kind, c, same | same⟩
    all_goals simp at same

variable (agent edges) in
theorem count_leaveCalls (kind : Kind) (cell : C) :
    (leaveCalls agent edges kind).count (.unlink (.field kind.layer agent cell)) =
      edges.count (.field kind.layer agent cell) := by
  rw [leaveCalls, List.count_map_of_injective _ fun c => Call.unlink (Edge.field kind.layer agent c),
    count_outNeighbors]
  intro c c' same
  simpa using same

theorem count_reachCalls (kind kind' : Kind) (cell : C) :
    (env.reachCalls agent target kind').count (.link (.field kind.layer agent cell)) =
      if kind' = kind ∧ cell = target ∧ (env.range kind agent).contains target target then 1 else 0 := by
  unfold reachCalls
  split
  next within =>
    by_cases same : kind' = kind ∧ cell = target
    next =>
      obtain ⟨rfl, rfl⟩ := same
      simp [within]
    next =>
      rw [if_neg fun all => same ⟨all.1, all.2.1⟩]
      refine List.count_eq_zero.mpr fun made => same ?_
      simpa [eq_comm] using made
  next outside =>
    rw [if_neg]
    next => rfl
    next =>
      rintro ⟨rfl, -, within⟩
      exact outside within

theorem count_layer_moveCalls (kind : Kind) (cell : C) :
    (Call.applyAll (env.moveCalls agent target edges) edges).count (.field kind.layer agent cell) =
      if cell = target ∧ (env.range kind agent).contains target target then 1 else 0 := by
  unfold moveCalls
  rw [Call.applyAll_append, Call.count_of_linked, Call.count_of_unlinked]
  next =>
    have left := count_leaveCalls agent edges kind cell
    simp only [List.count_append, count_reachCalls]
    cases kind with
    | mobility =>
      simp only [true_and, reduceCtorEq, false_and, if_false]
      omega
    | perception =>
      simp only [true_and, reduceCtorEq, false_and, if_false]
      omega
  next =>
    intro linked
    simp only [List.mem_append, List.mem_singleton] at linked
    rcases linked with ((new | left) | moved) | perceived
    next => simp at new
    next =>
      obtain ⟨c, same⟩ := mem_leaveLocationCalls left
      simp at same
    next =>
      obtain ⟨c, -, same⟩ := mem_leaveCalls.mp moved
      simp at same
    next =>
      obtain ⟨c, -, same⟩ := mem_leaveCalls.mp perceived
      simp at same
  next =>
    intro unlinked
    rcases List.mem_append.mp unlinked with moved | perceived
    next => simpa using env.mem_reachCalls moved
    next => simpa using env.mem_reachCalls perceived

theorem count_fresh_moveCalls (kind : Kind) (cell : C) :
    (Call.applyAll (env.moveCalls agent target edges) edges).count (.field kind.fresh agent cell) =
      edges.count (.field kind.fresh agent cell) := by
  refine Call.count_untouched _ fun call made => ?_
  rcases env.mem_moveCalls made with rfl | ⟨c, rfl⟩ | ⟨kind, c, rfl | rfl⟩
  all_goals simp [Call.edge]

theorem moveTo_separate (moves : A → Option C) :
    Separate (fun agent => env.moveTo agent (moves agent)) fieldsFrom where
  reads := by
    intro agent locationId edges edges' same
    have read : ∀ layer, outNeighbors edges layer agent = outNeighbors edges' layer agent :=
      fun layer => outNeighbors_congr _ _ _ (by simp [fieldsFrom]) same
    simp [moveTo, read]
  apart := by
    intro agent other locationId edges result apart ran call made
    cases target : moves other with
    | none =>
      simp only [target, moveTo] at ran
      obtain rfl := Option.some.inj ran
      simp at made
    | some cell =>
      simp only [target, moveTo_some] at ran
      obtain rfl := Option.some.inj ran
      rcases env.mem_moveCalls made with rfl | ⟨c, rfl⟩ | ⟨kind, c, rfl | rfl⟩
      all_goals simp [Call.edge, fieldsFrom, apart.symm]

end Agent

/-- What the agents that move do before the algorithm runs. -/
structure Moves (moves : A → Option C) (w w' : World A C) : Prop where
  unmoved : ∀ layer agent cell, moves agent = none →
    w'.edges.count (.field layer agent cell) = w.edges.count (.field layer agent cell)
  newLocation : ∀ agent target cell, moves agent = some target →
    w'.edges.count (.field .NEW_LOCATION agent cell) =
      w.edges.count (.field .NEW_LOCATION agent cell) + if target = cell then 1 else 0
  location : ∀ agent target cell, moves agent = some target →
    (outNeighbors w.edges .LOCATION agent).length ≤ 1 → .field .LOCATION agent cell ∉ w'.edges
  layer : ∀ (kind : Kind) agent target cell, moves agent = some target →
    w'.edges.count (.field kind.layer agent cell) =
      if cell = target ∧ (env.range kind agent).contains target target then 1 else 0
  fresh : ∀ (kind : Kind) agent cell,
    w'.edges.count (.field kind.fresh agent cell) = w.edges.count (.field kind.fresh agent cell)
  flags : w'.flags = w.flags
  locationId : ∀ agent, w'.locationId agent = (moves agent).or (w.locationId agent)

theorem movePhase_moves (moves : A → Option C) (w : World A C) :
    ∃ w', env.movePhase moves w = some w' ∧ env.Moves moves w w' := by
  let calls : A → List (Call (Edge A C)) := fun agent =>
    ((moves agent).map fun target => env.moveCalls agent target w.edges).getD []
  have none : ∀ agent, moves agent = .none → calls agent = [] := by
    intro agent stays
    simp [calls, stays]
  have some : ∀ agent target, moves agent = .some target →
      calls agent = env.moveCalls agent target w.edges := by
    intro agent target goes
    simp [calls, goes]
  have ran : ∀ agent ∈ env.agents, env.moveTo agent (moves agent) (w.locationId agent) w.edges =
      .some ((moves agent).or (w.locationId agent), calls agent) := by
    intro agent _
    cases target : moves agent with
    | none =>
      rw [none agent target]
      rfl
    | some cell =>
      rw [moveTo_some, some agent cell target]
      rfl
  have own : ∀ layer agent cell, ∀ a ∈ env.agents, a ≠ agent → ∀ call ∈ calls a,
      call.edge ≠ .field layer agent cell := by
    intro layer agent cell a _ apart call made
    cases target : moves a with
    | none => simp [none a target] at made
    | some c =>
      rw [some a c target] at made
      rcases env.mem_moveCalls made with rfl | ⟨c, rfl⟩ | ⟨kind, c, rfl | rfl⟩
      all_goals simp [Call.edge, apart]
  have count : ∀ layer agent cell,
      (Call.applyAll (env.agents.flatMap calls) w.edges).count (.field layer agent cell) =
        (Call.applyAll (calls agent) w.edges).count (.field layer agent cell) :=
    fun layer agent cell => Call.count_of_owner _ env.agents_once
      (env.every_agent agent) (own layer agent cell)
  have done := phase_eq env.agentRank (env.moveTo_separate moves) env.agents_once ran
  refine ⟨_, by rw [movePhase, done]; rfl, ?_⟩
  constructor
  case unmoved =>
    intro layer agent cell stays
    rw [count, none agent stays]
    rfl
  case newLocation =>
    intro agent target cell goes
    rw [count, some agent target goes, count_newLocation_moveCalls]
  case location =>
    intro agent target cell goes once
    rw [← List.count_eq_zero, count, some agent target goes, env.count_location_moveCalls cell once]
  case layer =>
    intro kind agent target cell goes
    rw [count, some agent target goes, count_layer_moveCalls]
  case fresh =>
    intro kind agent cell
    rw [count]
    cases target : moves agent with
    | none =>
      rw [none agent target]
      rfl
    | some c => rw [some agent c target, count_fresh_moveCalls]
  case flags => rfl
  case locationId =>
    intro agent
    simp [env.every_agent]

end Environment

end Fpmas.Model.Spatial
