import Fpmas.Model.Spatial.Fields

set_option autoImplicit false

namespace Fpmas.Model.Spatial

open Superstep

variable {n : Nat} {A C : Type} [DecidableEq A] [DecidableEq C]

omit [DecidableEq C] in
theorem letsRun_dynamic (step bound : Nat) (below : step ≤ bound) :
    (DynamicEndCondition (n := n) (A := A) (C := C)).LetsRun (bound - step) (step, bound) := by
  obtain ⟨left, rfl⟩ := Nat.exists_eq_add_of_le below
  rw [Nat.add_sub_cancel_left]
  induction left generalizing step with
  | zero => exact decide_eq_true le_rfl
  | succ left ih =>
    refine ⟨decide_eq_false (by simp), ?_⟩
    have later := ih (step + 1) (by omega)
    rwa [Nat.add_right_comm, Nat.add_assoc] at later

theorem foldl_max_pos (radii : List Nat) (start : Nat) :
    0 < radii.foldl max start ↔ 0 < start ∨ ∃ radius ∈ radii, 0 < radius := by
  induction radii generalizing start with
  | nil => simp
  | cons radius rest ih =>
    rw [List.foldl_cons, ih]
    simp [or_assoc]

namespace Environment

variable {env : Environment n A C} {group : GroupId} {moves : A → Option C} {w moved : World A C}

def locationCell (moves : A → Option C) (w : World A C) (agent : A) : Option C :=
  match moves agent with
  | some _ => none
  | none => (outNeighbors w.edges .LOCATION agent).head?

theorem Moves.radius (moving : env.Moves moves w moved) (settled : Settled w) (agent : A) :
    env.radius moved agent =
      max ((env.mobilityRange agent).radius (locationCell moves w agent))
        ((env.perceptionRange agent).radius (locationCell moves w agent)) := by
  suffices same : (outNeighbors moved.edges .LOCATION agent).head? = locationCell moves w agent by
    simp [Environment.radius, same]
  unfold locationCell
  split
  next target goes =>
    rw [List.head?_eq_none_iff, List.eq_nil_iff_forall_not_mem]
    intro cell here
    exact moving.location agent target cell goes (settled.location agent)
      ((mem_outNeighbors moved.edges).mp here)
  next stays =>
    -- There is one location at most.
    have perm : (outNeighbors moved.edges .LOCATION agent).Perm
        (outNeighbors w.edges .LOCATION agent) := by
      refine List.perm_iff_count.mpr fun cell => ?_
      rw [count_outNeighbors, count_outNeighbors, moving.unmoved _ _ _ stays]
    have once := settled.location agent
    cases before : outNeighbors w.edges .LOCATION agent with
    | nil =>
      rw [before] at perm
      rw [perm.eq_nil]
    | cons location rest =>
      rw [before] at perm once
      obtain rfl := List.eq_nil_of_length_eq_zero (Nat.le_zero.mp (Nat.le_of_succ_le_succ once))
      rw [List.perm_singleton.mp perm]

/-- The locations that the moves ask for. -/
structure Committed (env : Environment n A C) (group : GroupId) (moves : A → Option C)
    (w w' : World A C) : Prop where
  located : ∀ agent target cell, env.isAgentInGroup agent group → moves agent = some target →
    w'.edges.count (.field .LOCATION agent cell) = if cell = target then 1 else 0
  locationId : ∀ agent target, env.isAgentInGroup agent group → moves agent = some target →
    w'.locationId agent = some target
  arrived : ∀ agent target cell, env.isAgentInGroup agent group → moves agent = some target →
    .field .NEW_LOCATION agent cell ∉ w'.edges
  kept : ∀ agent cell, env.isAgentInGroup agent group → moves agent = none →
    w'.edges.count (.field .LOCATION agent cell) = w.edges.count (.field .LOCATION agent cell)

section

variable {rounds : Nat} {cleared looped w' : World A C}

theorem Runs.kept (runs : Runs env group rounds moved cleared looped w')
    (moving : env.Moves moves w moved) (settled : Settled w) {agent : A} (stays : moves agent = none)
    (cell : C) : .field .NEW_LOCATION agent cell ∉ w'.edges ∧
      w'.edges.count (.field .LOCATION agent cell) = w.edges.count (.field .LOCATION agent cell) := by
  have quiet : ∀ c, .field .NEW_LOCATION agent c ∉ cleared.edges := by
    intro c
    rw [mem_field_congr runs.clears.fields, ← List.count_eq_zero, moving.unmoved _ _ _ stays,
      List.count_eq_zero]
    exact settled.arrived agent c
  have after := runs.rounds.location quiet cell
  rw [mem_field_congr runs.perceives.fields, count_field_congr runs.perceives.fields, after.2,
    count_field_congr runs.clears.fields, moving.unmoved _ _ _ stays]
  exact ⟨after.1, rfl⟩

theorem Runs.locationId (runs : Runs env group rounds moved cleared looped w')
    (moving : env.Moves moves w moved) (agent : A) :
    w'.locationId agent = (moves agent).or (w.locationId agent) := by
  rw [runs.perceives.locationId, runs.rounds.locationId, runs.clears.locationId, moving.locationId]

theorem Runs.committed (runs : Runs env group rounds moved cleared looped w')
    (moving : env.Moves moves w moved) (settled : Settled w) (some_round : 1 ≤ rounds) :
    Committed env group moves w w' := by
  have arrived : ∀ agent cell, .field .NEW_LOCATION agent cell ∉ looped.edges := fun agent cell =>
    runs.rounds.bring (fun _ _ round => round.arrived agent cell) some_round
  constructor
  case located =>
    intro agent target cell member goes
    have grown := Growing.rounds runs.rounds
      ((growing_of_moves settled moving goes .mobility).clears runs.clears) member
    have placed := grown.placed cell
    rw [List.count_eq_zero.mpr (arrived agent cell), Nat.add_zero] at placed
    rw [count_field_congr runs.perceives.fields, placed]
  case locationId =>
    intro agent target _ goes
    rw [runs.locationId moving, goes]
    rfl
  case arrived =>
    intro agent target cell _ _
    rw [mem_field_congr runs.perceives.fields]
    exact arrived agent cell
  case kept => exact fun agent cell _ stays => (runs.kept moving settled stays cell).2

theorem Runs.committed_iff (runs : Runs env group rounds moved cleared looped w')
    (moving : env.Moves moves w moved) (settled : Settled w) :
    Committed env group moves w w' ↔
      (∀ agent, env.isAgentInGroup agent group → moves agent = none) ∨ 1 ≤ rounds := by
  constructor
  next =>
    intro committed
    by_contra neither
    rw [not_or] at neither
    obtain rfl : rounds = 0 := by omega
    cases runs.rounds
    -- The new locations are still there.
    refine neither.1 fun agent member => ?_
    cases target : moves agent with
    | none => rfl
    | some cell =>
      have pending : .field .NEW_LOCATION agent cell ∈ w'.edges := by
        rw [mem_field_congr runs.perceives.fields, mem_field_congr runs.clears.fields,
          ← List.count_pos_iff, moving.newLocation agent cell cell target]
        simp
      exact absurd pending (committed.arrived agent cell cell member target)
  next =>
    rintro (nobody | some_round)
    next =>
      constructor
      case located => exact fun agent _ _ member goes => by simp [nobody agent member] at goes
      case locationId => exact fun agent _ member goes => by simp [nobody agent member] at goes
      case arrived => exact fun agent _ _ member goes => by simp [nobody agent member] at goes
      case kept => exact fun agent cell _ stays => (runs.kept moving settled stays cell).2
    next => exact runs.committed moving settled some_round

-- When the group has all the agents, the next moves start from a settled world again.
theorem Runs.settled (runs : Runs env group rounds moved cleared looped w')
    (moving : env.Moves moves w moved) (settled : Settled w)
    (all : ∀ agent, env.isAgentInGroup agent group) (some_round : 1 ≤ rounds) : Settled w' := by
  have committed := runs.committed moving settled some_round
  constructor
  case location =>
    intro agent
    cases target : moves agent with
    | none =>
      have perm : (outNeighbors w'.edges .LOCATION agent).Perm
          (outNeighbors w.edges .LOCATION agent) := by
        refine List.perm_iff_count.mpr fun cell => ?_
        rw [count_outNeighbors, count_outNeighbors, committed.kept agent cell (all agent) target]
      exact perm.length_eq.trans_le (settled.location agent)
    | some cell =>
      have perm : (outNeighbors w'.edges .LOCATION agent).Perm [cell] := by
        refine List.perm_iff_count.mpr fun c => ?_
        rw [count_outNeighbors, committed.located agent cell c (all agent) target,
          List.count_singleton]
        by_cases here : c = cell
        next => simp [here]
        next => simp [here, Ne.symm here]
      exact perm.length_eq.le
  case arrived =>
    intro agent cell
    rw [mem_field_congr runs.perceives.fields]
    exact runs.rounds.bring (fun _ _ round => round.arrived agent cell) some_round
  case fresh =>
    intro kind agent cell
    rw [mem_field_congr runs.perceives.fields]
    exact runs.rounds.bring (fun _ _ round => round.cropped kind agent cell (all agent)) some_round
  case flags => exact runs.perceives.flags

end

theorem locations_committed (env : Environment n A C) (group : GroupId) (moves : A → Option C)
    (w moved : World A C) (settled : Settled w)
    (stays : ∀ agent, env.isAgentInGroup agent group → moves agent = none →
      ∃ cell, .field .LOCATION agent cell ∈ w.edges)
    (ran : env.movePhase moves w = some moved) :
    ∃ rounds, ∀ fuel, rounds ≤ fuel → ∃ w',
      env.run group DynamicEndCondition fuel moved = some w' ∧
        (Committed env group moves w w' ↔
          (∀ agent, env.isAgentInGroup agent group → moves agent = none) ∨
          ∃ agent, env.isAgentInGroup agent group ∧
            (0 < (env.mobilityRange agent).radius (locationCell moves w agent) ∨
              0 < (env.perceptionRange agent).radius (locationCell moves w agent))) := by
  obtain ⟨w₁, ran', moving⟩ := env.movePhase_moves moves w
  obtain rfl := Option.some.inj (ran'.symm.trans ran)
  let bound := ((env.groupAgents group).map (env.radius w₁)).foldl max 0
  have init : ∀ cleared, env.unlinkObsoletePerceptions group w₁ = some cleared →
      DynamicEndCondition.init env group cleared = (0, bound) := by
    intro cleared done
    obtain ⟨w₂, done', clears⟩ := env.unlinkObsoletePerceptions_clears group w₁
    obtain rfl := Option.some.inj (done'.symm.trans done)
    have same : env.radius w₂ = env.radius w₁ := by
      funext agent
      have location := outNeighbors_congr _ .LOCATION agent
        (fun _ => rfl) clears.fields
      simp [radius, location]
    simp [DynamicEndCondition, same, bound]
  have positive : 1 ≤ bound ↔ ∃ agent, env.isAgentInGroup agent group ∧
      (0 < (env.mobilityRange agent).radius (locationCell moves w agent) ∨
        0 < (env.perceptionRange agent).radius (locationCell moves w agent)) := by
    rw [Nat.succ_le_iff, foldl_max_pos]
    simp [moving.radius settled]
  refine ⟨bound, fun fuel enough => ?_⟩
  obtain ⟨cleared, looped, w', done, runs⟩ := run_of_placed DynamicEndCondition
    (placed_of_moves moving stays) (fun cleared done => by
      rw [init cleared done]
      exact letsRun_dynamic 0 bound (Nat.zero_le _)) enough
  exact ⟨w', done, by rw [runs.committed_iff moving settled, positive]⟩

theorem locations_committed_corridor : ∃ moved rounds w',
    (corridor (fun _ => [1]) fun _ => 2).movePhase (fun _ => some 0) .empty = some moved ∧
      (corridor (fun _ => [1]) fun _ => 2).run 1 DynamicEndCondition rounds moved = some w' ∧
      Committed (corridor (fun _ => [1]) fun _ => 2) 1 (fun _ => some 0) .empty w' := by
  obtain ⟨moved, ran, -⟩ := (corridor (fun _ => [1]) fun _ => 2).movePhase_moves
    (fun _ => some 0) .empty
  obtain ⟨rounds, ends⟩ := locations_committed (corridor (fun _ => [1]) fun _ => 2) 1
    (fun _ => some 0) .empty moved settled_empty (fun _ _ stays => by simp at stays) ran
  obtain ⟨w', done, committed⟩ := ends rounds le_rfl
  exact ⟨moved, rounds, w', ran, done, committed.mpr (.inr ⟨0, by decide, by decide⟩)⟩

-- With ranges of radius 0 no round is made: the agents have moved and are nowhere.
theorem location_lost : ∃ moved w',
    (corridor (fun _ => [1]) fun _ => 0).movePhase (fun _ => some 0) .empty = some moved ∧
      (corridor (fun _ => [1]) fun _ => 0).run 1 DynamicEndCondition 0 moved = some w' ∧
      ¬Committed (corridor (fun _ => [1]) fun _ => 0) 1 (fun _ => some 0) .empty w' := by
  have ended : (((corridor (fun _ => [1]) fun _ => 0).movePhase (fun _ => some 0) .empty).bind
      fun moved => ((corridor (fun _ => [1]) fun _ => 0).run 1 DynamicEndCondition 0 moved).map
        fun w' => w'.edges.count (.field .LOCATION 0 0)) = some 0 := by
    decide +kernel
  obtain ⟨moved, ran, ended⟩ := Option.bind_eq_some_iff.mp ended
  obtain ⟨w', done, nowhere⟩ := Option.map_eq_some_iff.mp ended
  refine ⟨moved, w', ran, done, fun committed => ?_⟩
  have located := committed.located 0 0 0 (by decide) rfl
  simp [nowhere] at located

end Environment

end Fpmas.Model.Spatial
