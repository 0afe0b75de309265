import Fpmas.Model.Spatial.PerceptionPhase

set_option autoImplicit false

namespace Fpmas.Model.Spatial

open Superstep

variable {n : Nat} {A C : Type} [DecidableEq A] [DecidableEq C]

namespace EndCondition

def LetsRun (end_ : EndCondition n A C) : Nat → end_.State → Prop
  | 0, state => end_.end_ state = true
  | rounds + 1, state => end_.end_ state = false ∧ end_.LetsRun rounds (end_.step state)

omit [DecidableEq A] [DecidableEq C] in
theorem LetsRun.unique {end_ : EndCondition n A C} {rounds rounds' : Nat} {state : end_.State}
    (lets : end_.LetsRun rounds state) (lets' : end_.LetsRun rounds' state) : rounds = rounds' := by
  induction rounds generalizing rounds' state with
  | zero =>
    cases rounds' with
    | zero => rfl
    | succ rounds' => exact absurd (lets'.1.symm.trans lets) (by simp)
  | succ rounds ih =>
    cases rounds' with
    | zero => exact absurd (lets.1.symm.trans lets') (by simp)
    | succ rounds' => rw [ih lets.2 lets'.2]

end EndCondition

namespace Environment

variable (env : Environment n A C) (group : GroupId)

def Round (w w' : World A C) : Prop := ∃ grown, env.Grows w grown ∧ env.Crops group grown w'

def Placed (w : World A C) : Prop :=
  ∀ agent, env.isAgentInGroup agent group →
    ∃ cell, .field .LOCATION agent cell ∈ w.edges ∨ .field .NEW_LOCATION agent cell ∈ w.edges

variable {env group} {w w' : World A C}

theorem Grows.mem_location (grows : env.Grows w w') (agent : A) (cell : C) :
    .field .LOCATION agent cell ∈ w'.edges ↔
      .field .LOCATION agent cell ∈ w.edges ∨ .field .NEW_LOCATION agent cell ∈ w.edges := by
  rw [← List.count_pos_iff, grows.located, ← List.count_pos_iff, ← List.count_pos_iff]
  omega

theorem Grows.mem_layer (grows : env.Grows w w') (kind : Kind) (agent : A) (cell : C) :
    .field kind.layer agent cell ∈ w'.edges ↔ .field kind.layer agent cell ∈ w.edges := by
  rw [← List.count_pos_iff, grows.kept, List.count_pos_iff]

theorem Crops.mem_kept (crops : env.Crops group w w') {layer : Field}
    (occupied : layer = .LOCATION ∨ layer = .NEW_LOCATION) (agent : A) (cell : C) :
    .field layer agent cell ∈ w'.edges ↔ .field layer agent cell ∈ w.edges := by
  rw [← List.count_pos_iff, crops.kept layer agent cell occupied, List.count_pos_iff]

theorem Crops.mem_others (crops : env.Crops group w w') {agent : A}
    (outside : env.isAgentInGroup agent group = false) (layer : Field) (cell : C) :
    .field layer agent cell ∈ w'.edges ↔ .field layer agent cell ∈ w.edges := by
  rw [← List.count_pos_iff, crops.others layer agent cell outside, List.count_pos_iff]

theorem round_of_placed (placed : env.Placed group w) :
    ∃ w', env.round group w = some w' ∧ env.Round group w w' := by
  obtain ⟨grown, ran, grows⟩ := env.cellBehaviors_phase w
  obtain ⟨w', ran', crops⟩ := env.crops_of_located group (w := grown) fun agent member => by
    obtain ⟨cell, here⟩ := placed agent member
    exact ⟨cell, (grows.mem_location agent cell).mpr here⟩
  exact ⟨w', by simp [round, ran, ran'], grown, grows, crops⟩

theorem round_of_ended (ended : env.round group w = some w') : env.Round group w w' := by
  obtain ⟨grown, ran, grows⟩ := env.cellBehaviors_phase w
  simp only [round, ran, Option.bind_eq_bind, Option.bind_some] at ended
  exact ⟨grown, grows, env.crops_of_phase group ended⟩

theorem Round.placed (round : env.Round group w w') : env.Placed group w' := by
  obtain ⟨grown, -, crops⟩ := round
  intro agent member
  obtain ⟨cell, here⟩ := crops.located agent member
  exact ⟨cell, .inl ((crops.mem_kept (.inl rfl) agent cell).mpr here)⟩

variable (env group) in
inductive Rounds : Nat → World A C → World A C → Prop where
  | none (w : World A C) : Rounds 0 w w
  | next {rounds : Nat} {w w₁ w' : World A C} (first : env.Round group w w₁)
      (later : Rounds rounds w₁ w') : Rounds (rounds + 1) w w'

theorem Rounds.keep {P : World A C → Prop} (step : ∀ w w', env.Round group w w' → P w → P w')
    {rounds : Nat} (ran : env.Rounds group rounds w w') (start : P w) : P w' := by
  induction ran with
  | none w => exact start
  | next first later ih => exact ih (step _ _ first start)

theorem Rounds.bring {P : World A C → Prop} (step : ∀ w w', env.Round group w w' → P w')
    {rounds : Nat} (some_round : 1 ≤ rounds) (ran : env.Rounds group rounds w w') : P w' := by
  cases ran with
  | none => omega
  | next first later => exact later.keep (fun _ _ round _ => step _ _ round) (step _ _ first)

theorem Round.arrived (round : env.Round group w w') (agent : A) (cell : C) :
    .field .NEW_LOCATION agent cell ∉ w'.edges := by
  obtain ⟨grown, grows, crops⟩ := round
  rw [crops.mem_kept (.inr rfl)]
  exact grows.arrived agent cell

theorem Round.cropped (round : env.Round group w w') (kind : Kind) (agent : A) (cell : C)
    (member : env.isAgentInGroup agent group) : .field kind.fresh agent cell ∉ w'.edges := by
  obtain ⟨grown, grows, crops⟩ := round
  exact crops.cropped kind agent cell member

theorem Round.location (round : env.Round group w w') (agent : A) (cell : C) :
    w'.edges.count (.field .LOCATION agent cell) = w.edges.count (.field .LOCATION agent cell) +
      w.edges.count (.field .NEW_LOCATION agent cell) := by
  obtain ⟨grown, grows, crops⟩ := round
  rw [crops.kept _ _ _ (.inl rfl), grows.located]

theorem Round.locationId (round : env.Round group w w') : w'.locationId = w.locationId := by
  obtain ⟨grown, grows, crops⟩ := round
  exact crops.locationId.trans grows.locationId

theorem Rounds.location {rounds : Nat} (ran : env.Rounds group rounds w w') {agent : A}
    (stays : ∀ cell, .field .NEW_LOCATION agent cell ∉ w.edges) (cell : C) :
    .field .NEW_LOCATION agent cell ∉ w'.edges ∧
      w'.edges.count (.field .LOCATION agent cell) = w.edges.count (.field .LOCATION agent cell) := by
  refine ran.keep (P := fun v => .field .NEW_LOCATION agent cell ∉ v.edges ∧
    v.edges.count (.field .LOCATION agent cell) = w.edges.count (.field .LOCATION agent cell))
    (fun v v' round before => ?_) ⟨stays cell, rfl⟩
  refine ⟨round.arrived agent cell, ?_⟩
  rw [round.location, before.2, List.count_eq_zero.mpr before.1, Nat.add_zero]

theorem Rounds.locationId {rounds : Nat} (ran : env.Rounds group rounds w w') :
    w'.locationId = w.locationId :=
  ran.keep (P := fun v => v.locationId = w.locationId)
    (fun _ _ round before => round.locationId.trans before) rfl

theorem Rounds.perceptions {rounds : Nat} (ran : env.Rounds group rounds w w') (agent perceived : A) :
    w'.edges.count (.perception agent perceived) = w.edges.count (.perception agent perceived) := by
  refine ran.keep (P := fun v => v.edges.count (.perception agent perceived) =
    w.edges.count (.perception agent perceived)) (fun v v' round before => ?_) rfl
  obtain ⟨grown, grows, crops⟩ := round
  rw [crops.perceptions, grows.perceptions, before]

section Loop

variable {end_ : EndCondition n A C} {rounds fuel : Nat} {state : end_.State}

theorem loop_of_placed (placed : env.Placed group w) (lets : end_.LetsRun rounds state)
    (enough : rounds ≤ fuel) :
    ∃ w', env.loop group end_ fuel state w = some w' ∧ env.Rounds group rounds w w' := by
  induction rounds generalizing fuel state w with
  | zero =>
    have ended : end_.end_ state = true := lets
    exact ⟨w, by unfold loop; simp [ended], .none w⟩
  | succ rounds ih =>
    obtain ⟨going, lets⟩ := lets
    obtain ⟨fuel, rfl⟩ : ∃ less, fuel = less + 1 := ⟨fuel - 1, by omega⟩
    obtain ⟨w₁, ran, first⟩ := round_of_placed placed
    obtain ⟨w', looped, later⟩ := ih first.placed lets (Nat.le_of_succ_le_succ enough)
    exact ⟨w', by unfold loop; simp [going, ran, looped], .next first later⟩

theorem rounds_of_loop (ended : env.loop group end_ fuel state w = some w') :
    ∃ rounds, end_.LetsRun rounds state ∧ env.Rounds group rounds w w' := by
  induction fuel generalizing state w with
  | zero =>
    unfold loop at ended
    split at ended
    next stopped =>
      obtain rfl := Option.some.inj ended
      exact ⟨0, stopped, .none w⟩
    next => simp at ended
  | succ fuel ih =>
    unfold loop at ended
    split at ended
    next stopped =>
      obtain rfl := Option.some.inj ended
      exact ⟨0, stopped, .none w⟩
    next going =>
      obtain ⟨w₁, ran, looped⟩ := Option.bind_eq_some_iff.mp ended
      obtain ⟨rounds, lets, later⟩ := ih looped
      exact ⟨rounds + 1, ⟨by simpa using going, lets⟩, .next (round_of_ended ran) later⟩

end Loop

section Run

variable {end_ : EndCondition n A C} {rounds fuel : Nat}

/-- The phases of a run. -/
structure Runs (env : Environment n A C) (group : GroupId) (rounds : Nat)
    (w cleared looped w' : World A C) : Prop where
  clears : env.Clears group w cleared
  rounds : env.Rounds group rounds cleared looped
  perceives : env.Perceives group looped w'

theorem runs_of_ended (ended : env.run group end_ fuel w = some w') :
    ∃ cleared looped rounds, env.unlinkObsoletePerceptions group w = some cleared ∧
      end_.LetsRun rounds (end_.init env group cleared) ∧
      Runs env group rounds w cleared looped w' := by
  obtain ⟨cleared, ran, clears⟩ := env.unlinkObsoletePerceptions_clears group w
  simp only [run, ran, Option.bind_eq_bind, Option.bind_some] at ended
  obtain ⟨looped, loop, last⟩ := Option.bind_eq_some_iff.mp ended
  obtain ⟨rounds, lets, turns⟩ := rounds_of_loop loop
  obtain ⟨w'', ran', perceives⟩ := env.updatePerceptions_phase group looped
  obtain rfl := Option.some.inj (ran'.symm.trans last)
  exact ⟨cleared, looped, rounds, ran, lets, clears, turns, perceives⟩

theorem Clears.placed (clears : env.Clears group w w') (placed : env.Placed group w) :
    env.Placed group w' := by
  intro agent member
  obtain ⟨cell, here⟩ := placed agent member
  exact ⟨cell, by
    rwa [mem_field_congr clears.fields, mem_field_congr clears.fields]⟩

theorem run_of_placed (end_ : EndCondition n A C) (placed : env.Placed group w)
    (lets : ∀ cleared, env.unlinkObsoletePerceptions group w = some cleared →
      end_.LetsRun rounds (end_.init env group cleared))
    (enough : rounds ≤ fuel) :
    ∃ cleared looped w', env.run group end_ fuel w = some w' ∧
      Runs env group rounds w cleared looped w' := by
  obtain ⟨cleared, ran, clears⟩ := env.unlinkObsoletePerceptions_clears group w
  obtain ⟨looped, loop, turns⟩ := loop_of_placed (clears.placed placed) (lets cleared ran) enough
  obtain ⟨w', last, perceives⟩ := env.updatePerceptions_phase group looped
  exact ⟨cleared, looped, w', by simp [run, ran, loop, last], clears, turns, perceives⟩

end Run

end Environment

end Fpmas.Model.Spatial
