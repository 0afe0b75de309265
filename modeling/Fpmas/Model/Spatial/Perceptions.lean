import Fpmas.Model.Spatial.Locations

set_option autoImplicit false

namespace Fpmas.Model.Spatial

variable {n : Nat} {A C : Type} [DecidableEq A] [DecidableEq C]

namespace Environment

variable {env : Environment n A C} {group : GroupId} {rounds : Nat}
  {w cleared looped w' : World A C}

def Perceived (w : World A C) (agent perceived : A) : Prop :=
  ∃ cell, .field .PERCEIVE agent cell ∈ w.edges ∧ .field .LOCATION perceived cell ∈ w.edges

theorem count_location_of_length {edges : List (Edge A C)} {agent : A} {cell : C}
    (once : (outNeighbors edges .LOCATION agent).length ≤ 1)
    (here : .field .LOCATION agent cell ∈ edges) :
    (∀ c, .field .LOCATION agent c ∈ edges → c = cell) ∧
      edges.count (.field .LOCATION agent cell) = 1 := by
  have member := (mem_outNeighbors edges).mpr here
  cases occupied : outNeighbors edges .LOCATION agent with
  | nil => simp [occupied] at member
  | cons location rest =>
    rw [occupied] at once
    obtain rfl := List.eq_nil_of_length_eq_zero (Nat.le_zero.mp (Nat.le_of_succ_le_succ once))
    obtain rfl : cell = location := by simpa [occupied] using member
    constructor
    next =>
      intro c there
      simpa [occupied] using (mem_outNeighbors edges).mpr there
    next =>
      rw [← count_outNeighbors, occupied]
      simp

theorem Runs.perceived (runs : Runs env group rounds w cleared looped w')
    (location : ∀ agent, (outNeighbors w'.edges .LOCATION agent).length ≤ 1)
    (perceive : ∀ agent cell, w'.edges.count (.field .PERCEIVE agent cell) ≤ 1)
    {agent perceived : A} (apart : agent ≠ perceived)
    (inGroup : env.isAgentInGroup agent group ∨ env.isAgentInGroup perceived group) :
    (Perceived w' agent perceived → w'.edges.count (.perception agent perceived) = 1) ∧
      (¬Perceived w' agent perceived → w'.edges.count (.perception agent perceived) = 0) := by
  have count := count_field_congr runs.perceives.fields
  have mem := mem_field_congr runs.perceives.fields
  have none : looped.edges.count (.perception agent perceived) = 0 := by
    rw [runs.rounds.perceptions, List.count_eq_zero]
    exact runs.clears.obsolete agent perceived inGroup
  by_cases somewhere : ∃ cell, .field .LOCATION perceived cell ∈ w'.edges
  next =>
    obtain ⟨cell, here⟩ := somewhere
    obtain ⟨only, once⟩ := count_location_of_length (location perceived) here
    have updated := runs.perceives.perceived agent perceived cell apart.symm inGroup
      fun c there => only c ((mem _ _ _).mpr there)
    rw [none, Nat.zero_add, ← count, ← count, once, Nat.mul_one] at updated
    rw [updated]
    constructor
    next =>
      rintro ⟨c, sees, there⟩
      obtain rfl := only c there
      have positive := List.count_pos_iff.mpr sees
      have bound := perceive agent c
      omega
    next => exact fun unseen => List.count_eq_zero.mpr fun sees => unseen ⟨cell, sees, here⟩
  next =>
    have kept := runs.perceives.kept agent perceived
      (.inr fun cell here => somewhere ⟨cell, (mem _ _ _).mpr here⟩)
    constructor
    next =>
      rintro ⟨cell, _, here⟩
      exact absurd ⟨cell, here⟩ somewhere
    next => exact fun _ => kept.trans none

theorem perceptions_exact (env : Environment n A C) (group : GroupId) (end_ : EndCondition n A C)
    (fuel : Nat) (w w' : World A C) (ran : env.run group end_ fuel w = some w')
    (location : ∀ agent, (outNeighbors w'.edges .LOCATION agent).length ≤ 1)
    (perceive : ∀ agent cell, w'.edges.count (.field .PERCEIVE agent cell) ≤ 1) :
    (∀ agent perceived, agent ≠ perceived →
      env.isAgentInGroup agent group ∨ env.isAgentInGroup perceived group →
      (Perceived w' agent perceived → w'.edges.count (.perception agent perceived) = 1) ∧
        (¬Perceived w' agent perceived → w'.edges.count (.perception agent perceived) = 0)) ∧
      ∀ agent perceived, env.isAgentInGroup agent group = false →
        env.isAgentInGroup perceived group = false →
        w'.edges.count (.perception agent perceived) =
          w.edges.count (.perception agent perceived) := by
  obtain ⟨cleared, looped, rounds, -, -, runs⟩ := runs_of_ended ran
  constructor
  next => exact fun agent perceived apart inGroup => runs.perceived location perceive apart inGroup
  next =>
    intro agent perceived outside outside'
    rw [runs.perceives.kept agent perceived (.inl ⟨outside, outside'⟩), runs.rounds.perceptions,
      runs.clears.kept agent perceived outside outside']

theorem perceptions_exact_corridor : ∃ moved w',
    (corridor (fun agent => if agent = 0 then [1] else [2]) fun _ => 1).movePhase
        (fun agent => if agent = 0 then some 0 else some 1) .empty = some moved ∧
      (corridor (fun agent => if agent = 0 then [1] else [2]) fun _ => 1).run 1
        DynamicEndCondition 1 moved = some w' ∧
      w'.edges.count (.perception 0 1) = 1 ∧ w'.edges.count (.perception 1 0) = 0 := by
  have ended : (((corridor (fun agent => if agent = 0 then [1] else [2]) fun _ => 1).movePhase
        (fun agent => if agent = 0 then some 0 else some 1) .empty).bind fun moved =>
      ((corridor (fun agent => if agent = 0 then [1] else [2]) fun _ => 1).run 1
        DynamicEndCondition 1 moved).map fun w' => decide (
          (∀ agent, (outNeighbors w'.edges .LOCATION agent).length ≤ 1) ∧
          (∀ agent cell, w'.edges.count (.field .PERCEIVE agent cell) ≤ 1) ∧
          Edge.field .PERCEIVE 0 1 ∈ w'.edges ∧ Edge.field .LOCATION 1 1 ∈ w'.edges ∧
          ∀ cell, Edge.field .PERCEIVE 1 cell ∈ w'.edges →
            Edge.field .LOCATION 0 cell ∉ w'.edges)) = some true := by
    decide +kernel
  obtain ⟨moved, ran, ended⟩ := Option.bind_eq_some_iff.mp ended
  obtain ⟨w', done, holds⟩ := Option.map_eq_some_iff.mp ended
  obtain ⟨location, perceive, sees, here, apart⟩ := of_decide_eq_true holds
  have exact_ := (perceptions_exact (corridor (fun agent => if agent = 0 then [1] else [2]) fun _ => 1)
    1 DynamicEndCondition 1 moved w' done location perceive).1
  refine ⟨moved, w', ran, done, (exact_ 0 1 (by decide) (by decide)).1 ⟨1, sees, here⟩, ?_⟩
  refine (exact_ 1 0 (by decide) (by decide)).2 ?_
  rintro ⟨cell, sees, here⟩
  exact apart cell sees here

end Environment

end Fpmas.Model.Spatial
