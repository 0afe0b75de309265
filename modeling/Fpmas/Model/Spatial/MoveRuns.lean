import Fpmas.Model.Spatial.EndCondition
import Fpmas.Model.Spatial.Perceptions

set_option autoImplicit false

namespace Fpmas.Model.Spatial

open Superstep

variable {n : Nat} {A C : Type} [DecidableEq A] [DecidableEq C]

def movedTo (moves : A → Option C) (position : A → C) (agent : A) : C :=
  (moves agent).getD (position agent)

namespace Environment

variable (env : Environment n A C) (group : GroupId) (end_ : EndCondition n A C) (fuel : Nat)

-- A time step: the agents are executed, then the jobs of the move algorithm.
def timeStep (w : World A C) (moves : A → Option C) : Option (World A C) :=
  (env.movePhase moves w).bind (env.run group end_ fuel)

def timeSteps (w : World A C) (steps : List (A → Option C)) : Option (World A C) :=
  steps.foldlM (env.timeStep group end_ fuel) w

-- The edges of an agent that is on `target`.
structure Full (kind : Kind) (agent : A) (target : C) (w : World A C) : Prop where
  located : ∀ cell, w.edges.count (.field .LOCATION agent cell) = if cell = target then 1 else 0
  arrived : ∀ cell, .field .NEW_LOCATION agent cell ∉ w.edges
  full : ∀ cell, w.edges.count (.field kind.layer agent cell) =
    if (env.range kind agent).contains target cell then 1 else 0

/-- A world says where the agents are, what they can reach and whom they perceive. -/
structure Shows (position : A → C) (w : World A C) : Prop where
  settled : Settled w
  locationId : ∀ agent, w.locationId agent = some (position agent)
  field : ∀ kind agent, env.Full kind agent (position agent) w
  perceptions : ∀ agent perceived, agent ≠ perceived → w.edges.count (.perception agent perceived) =
    if (env.perceptionRange agent).contains (position agent) (position perceived) then 1 else 0

/-- The end condition lets the fields grow to the whole of the ranges. -/
def Enough : Prop :=
  ∀ w, ∃ rounds, 1 ≤ rounds ∧ rounds ≤ fuel ∧ end_.LetsRun rounds (end_.init env group w) ∧
    ∀ kind agent target cell, (env.range kind agent).contains target cell = true →
      ∃ k ≤ rounds, env.Within (env.range kind agent) target k cell

variable {env group end_ fuel} {kind : Kind} {agent : A} {target : C} {w w' : World A C}

theorem head_location (located : ∀ cell, w.edges.count (.field .LOCATION agent cell) =
    if cell = target then 1 else 0) : (outNeighbors w.edges .LOCATION agent).head? = some target := by
  have perm : (outNeighbors w.edges .LOCATION agent).Perm [target] := by
    refine List.perm_iff_count.mpr fun cell => ?_
    rw [count_outNeighbors, located, List.count_singleton]
    by_cases here : cell = target
    next => simp [here]
    next => simp [here, Ne.symm here]
  rw [List.perm_singleton.mp perm]
  rfl

theorem Full.congr (full : env.Full kind agent target w)
    (same : ∀ layer cell, w'.edges.count (.field layer agent cell) =
      w.edges.count (.field layer agent cell)) : env.Full kind agent target w' where
  located cell := (same _ _).trans (full.located cell)
  arrived cell := by
    rw [← List.count_eq_zero, same, List.count_eq_zero]
    exact full.arrived cell
  full cell := (same _ _).trans (full.full cell)

theorem Full.mem_location (full : env.Full kind agent target w) (cell : C) :
    .field .LOCATION agent cell ∈ w.edges ↔ cell = target := by
  rw [← List.count_pos_iff, full.located]
  split
  next same => simp [same]
  next other => simp [other]

theorem Full.mem_layer (full : env.Full kind agent target w) (cell : C) :
    .field kind.layer agent cell ∈ w.edges ↔ (env.range kind agent).contains target cell = true := by
  rw [← List.count_pos_iff, full.full]
  split
  next inside => simp [inside]
  next outside => simp [outside]

theorem Full.round (full : env.Full kind agent target w) (round : env.Round group w w')
    (member : env.isAgentInGroup agent group) : env.Full kind agent target w' := by
  have arrived := round.arrived agent
  have located := round.location agent
  obtain ⟨grown, grows, crops⟩ := round
  have stays : ∀ cell, grown.edges.count (.field .LOCATION agent cell) =
      if cell = target then 1 else 0 := by
    intro cell
    rw [grows.located, List.count_eq_zero.mpr (full.arrived cell), Nat.add_zero, full.located]
  constructor
  case located =>
    intro cell
    rw [located, List.count_eq_zero.mpr (full.arrived cell), Nat.add_zero, full.located]
  case arrived => exact arrived
  case full =>
    intro cell
    rw [crops.field kind agent cell target member (head_location stays), if_neg, Nat.add_zero,
      grows.kept, full.full]
    -- The field is whole: there is nothing to add.
    rintro ⟨_, absent, inside⟩
    exact absent ((grows.mem_layer kind agent cell).mpr ((full.mem_layer cell).mpr inside))

theorem Growing.full {rounds : Nat} (growing : env.Growing kind agent target rounds w)
    (arrived : ∀ cell, .field .NEW_LOCATION agent cell ∉ w.edges)
    (reach : ∀ cell, (env.range kind agent).contains target cell = true →
      ∃ k ≤ rounds, env.Within (env.range kind agent) target k cell) :
    env.Full kind agent target w where
  located cell := by
    have placed := growing.placed cell
    rwa [List.count_eq_zero.mpr (arrived cell), Nat.add_zero] at placed
  arrived := arrived
  full cell := by
    split
    next inside =>
      obtain ⟨k, bound, path⟩ := reach cell inside
      have present := List.count_pos_iff.mpr (growing.reached k cell bound path inside)
      have once := growing.once cell
      omega
    next outside => exact List.count_eq_zero.mpr fun here => outside (growing.inside cell here)

theorem Full.perceived_iff {position : A → C}
    (full : ∀ kind agent, env.Full kind agent (position agent) w) (agent perceived : A) :
    Perceived w agent perceived ↔
      (env.perceptionRange agent).contains (position agent) (position perceived) = true := by
  have sees : ∀ cell, .field .PERCEIVE agent cell ∈ w.edges ↔
      (env.perceptionRange agent).contains (position agent) cell = true :=
    (full .perception agent).mem_layer
  have here := (full .perception perceived).mem_location
  constructor
  next =>
    rintro ⟨cell, seen, there⟩
    obtain rfl := (here cell).mp there
    exact (sees _).mp seen
  next => exact fun inside => ⟨position perceived, (sees _).mpr inside, (here _).mpr rfl⟩

section Step

variable {rounds : Nat} {moves : A → Option C} {moved cleared looped : World A C}

theorem Runs.full_of_stays (runs : Runs env group rounds moved cleared looped w')
    (moving : env.Moves moves w moved) (member : env.isAgentInGroup agent group)
    (stays : moves agent = none) (full : env.Full kind agent target w) :
    env.Full kind agent target w' := by
  have quiet : env.Full kind agent target moved :=
    full.congr fun layer cell => moving.unmoved layer agent cell stays
  have start : env.Full kind agent target cleared :=
    quiet.congr fun layer cell => count_field_congr runs.clears.fields layer agent cell
  have kept : env.Full kind agent target looped :=
    runs.rounds.keep (fun _ _ round before => before.round round member) start
  exact kept.congr fun layer cell => count_field_congr runs.perceives.fields layer agent cell

theorem Runs.full_of_goes (runs : Runs env group rounds moved cleared looped w')
    (moving : env.Moves moves w moved) (settled : Settled w)
    (member : env.isAgentInGroup agent group) (goes : moves agent = some target)
    (some_round : 1 ≤ rounds)
    (reach : ∀ cell, (env.range kind agent).contains target cell = true →
      ∃ k ≤ rounds, env.Within (env.range kind agent) target k cell) :
    env.Full kind agent target w' := by
  have grown := Growing.rounds runs.rounds
    ((growing_of_moves settled moving goes kind).clears runs.clears) member
  rw [Nat.zero_add] at grown
  -- The first round handles the new locations.
  have arrived : ∀ cell, .field .NEW_LOCATION agent cell ∉ looped.edges := fun cell =>
    runs.rounds.bring (fun _ _ round => round.arrived agent cell) some_round
  exact (grown.full arrived reach).congr fun layer cell =>
    count_field_congr runs.perceives.fields layer agent cell

theorem timeStep_shows (moves : A → Option C) (position : A → C)
    (all : ∀ agent, env.isAgentInGroup agent group)
    (enough : env.Enough group end_ fuel) (settled : Settled w)
    (stay : ∀ agent, moves agent = none → w.locationId agent = some (position agent) ∧
      ∀ kind, env.Full kind agent (position agent) w) :
    ∃ w', env.timeStep group end_ fuel w moves = some w' ∧
      env.Shows (movedTo moves position) w' := by
  obtain ⟨moved, ran, moving⟩ := env.movePhase_moves moves w
  -- The end condition starts once the obsolete perceptions are unlinked.
  obtain ⟨cleared, unlinked, -⟩ := env.unlinkObsoletePerceptions_clears group moved
  obtain ⟨rounds, some_round, bound, lets, reach⟩ := enough cleared
  have located : ∀ agent, env.isAgentInGroup agent group → moves agent = none →
      ∃ cell, .field .LOCATION agent cell ∈ w.edges := by
    intro agent _ stays
    have once := ((stay agent stays).2 .mobility).located (position agent)
    exact ⟨position agent, List.count_pos_iff.mp (by simp [once])⟩
  have init : ∀ first, env.unlinkObsoletePerceptions group moved = some first →
      end_.LetsRun rounds (end_.init env group first) := by
    intro first done
    obtain rfl := Option.some.inj (unlinked.symm.trans done)
    exact lets
  obtain ⟨first, looped, w', done, runs⟩ :=
    run_of_placed end_ (placed_of_moves moving located) init bound
  refine ⟨w', by simp [timeStep, ran, done], ?_⟩
  have full : ∀ kind agent, env.Full kind agent (movedTo moves position agent) w' := by
    intro kind agent
    unfold movedTo
    cases target : moves agent with
    | none =>
      exact runs.full_of_stays moving (all agent) target ((stay agent target).2 kind)
    | some cell =>
      exact runs.full_of_goes moving settled (all agent) target some_round
        (reach kind agent cell)
  have settled' := runs.settled moving settled all some_round
  constructor
  case settled => exact settled'
  case locationId =>
    intro agent
    rw [runs.locationId moving]
    unfold movedTo
    cases target : moves agent with
    | none => exact (stay agent target).1
    | some cell => rfl
  case field => exact full
  case perceptions =>
    intro agent perceived apart
    have once : ∀ a cell, w'.edges.count (.field .PERCEIVE a cell) ≤ 1 := by
      intro a cell
      have count := (full .perception a).full cell
      change w'.edges.count (.field .PERCEIVE a cell) = _ at count
      rw [count]
      split <;> omega
    have perceives := runs.perceived settled'.location once apart (.inl (all agent))
    rw [Full.perceived_iff full] at perceives
    split
    next inside => exact perceives.1 inside
    next outside => exact perceives.2 outside

end Step

theorem placed_shows (all : ∀ agent, env.isAgentInGroup agent group)
    (enough : env.Enough group end_ fuel) (position : A → C) :
    ∃ w, env.timeStep group end_ fuel .empty (fun agent => some (position agent)) = some w ∧
      env.Shows position w :=
  timeStep_shows (fun agent => some (position agent)) position all enough settled_empty
    fun _ stays => by simp at stays

theorem Shows.timeSteps {position : A → C} (all : ∀ agent, env.isAgentInGroup agent group)
    (enough : env.Enough group end_ fuel) (shows : env.Shows position w)
    (steps : List (A → Option C)) :
    ∃ w', env.timeSteps group end_ fuel w steps = some w' ∧
      env.Shows (steps.foldl (fun position moves => movedTo moves position) position) w' := by
  induction steps generalizing position w with
  | nil => exact ⟨w, rfl, shows⟩
  | cons moves rest ih =>
    obtain ⟨w₁, done, next⟩ := timeStep_shows moves position all enough shows.settled
      fun agent _ => ⟨shows.locationId agent, fun kind => shows.field kind agent⟩
    obtain ⟨w', later, last⟩ := ih next
    exact ⟨w', by simpa [Environment.timeSteps, done] using later, last⟩

/-- The agents are placed on cells, then move: the world always shows where they are. -/
theorem timeSteps_show (env : Environment n A C) (group : GroupId) (end_ : EndCondition n A C)
    (fuel : Nat) (all : ∀ agent, env.isAgentInGroup agent group)
    (enough : env.Enough group end_ fuel) (position : A → C) (steps : List (A → Option C)) :
    ∃ w, env.timeSteps group end_ fuel .empty ((fun agent => some (position agent)) :: steps) =
        some w ∧
      env.Shows (steps.foldl (fun position moves => movedTo moves position) position) w := by
  obtain ⟨placed, done, shows⟩ := placed_shows all enough position
  obtain ⟨w, later, last⟩ := shows.timeSteps all enough steps
  exact ⟨w, by simpa [timeSteps, done] using later, last⟩

omit [DecidableEq A] [DecidableEq C] in
theorem letsRun_static (range : Range C) (step left : Nat) (total : step + left = range.radius none) :
    (StaticEndCondition (n := n) (A := A) range).LetsRun left step := by
  induction left generalizing step with
  | zero => exact decide_eq_true (by omega)
  | succ left ih => exact ⟨decide_eq_false (by omega), ih (step + 1) (by omega)⟩

omit [DecidableEq A] [DecidableEq C] in
theorem enough_static {range : Range C} (positive : 1 ≤ range.radius none)
    (bound : range.radius none ≤ fuel)
    (reach : ∀ kind agent target cell, (env.range kind agent).contains target cell = true →
      ∃ k ≤ range.radius none, env.Within (env.range kind agent) target k cell) :
    env.Enough group (StaticEndCondition range) fuel := fun _ =>
  ⟨range.radius none, positive, bound, letsRun_static range 0 _ (Nat.zero_add _), reach⟩

omit [DecidableEq C] in
theorem enough_dynamic {radius : A → Nat} (constant : ∀ w, env.radius w = radius) {moving : A}
    (member : env.isAgentInGroup moving group) (positive : 1 ≤ radius moving)
    (bound : ∀ agent, env.isAgentInGroup agent group → radius agent ≤ fuel)
    (reach : ∀ rounds, (∀ agent, env.isAgentInGroup agent group → radius agent ≤ rounds) →
      ∀ kind agent target cell, (env.range kind agent).contains target cell = true →
        ∃ k ≤ rounds, env.Within (env.range kind agent) target k cell) :
    env.Enough group DynamicEndCondition fuel := by
  intro w
  let rounds := ((env.groupAgents group).map radius).foldl max 0
  have below : ∀ agent, env.isAgentInGroup agent group → radius agent ≤ rounds :=
    (DynamicEndCondition.groupAgents_le env group).mp le_rfl
  have init : DynamicEndCondition.init env group w = (0, rounds) := by
    show (0, ((env.groupAgents group).map (env.radius w)).foldl max 0) = (0, rounds)
    rw [constant]
  have lets := letsRun_dynamic (n := n) (A := A) (C := C) 0 rounds (Nat.zero_le _)
  rw [Nat.sub_zero, ← init] at lets
  exact ⟨rounds, positive.trans (below moving member),
    (DynamicEndCondition.groupAgents_le env group).mpr bound, lets, reach rounds below⟩

theorem reach_corridor (groupIds : Fin 2 → List GroupId) (radius : Fin 2 → Nat)
    (start cell : Fin 3) (inside : (disc 1).contains start cell = true) :
    ∃ k ≤ 1, (corridor groupIds radius).Within (disc 1) start k cell := by
  by_cases here : cell = start
  next => exact ⟨0, by omega, here ▸ .start⟩
  next =>
    have edge : cell ∈ (corridor groupIds radius).successors start := by
      simp only [corridor]
      revert here inside
      decide +revert
    exact ⟨1, le_rfl, .step .start edge inside⟩

-- The agents start on the same cell, then one of them goes to the other end.
theorem timeSteps_show_corridor : ∃ w, (corridor (fun _ => [1]) fun _ => 1).timeSteps 1
      (StaticEndCondition (disc 1)) 1 .empty [fun _ => some 0,
        fun agent => if agent = 0 then none else some 1,
        fun agent => if agent = 0 then none else some 2] = some w ∧
    w.locationId 1 = some 2 ∧ w.edges.count (.field .MOVE 1 1) = 1 ∧
    w.edges.count (.perception 0 1) = 0 := by
  have enough : (corridor (fun _ => [1]) fun _ => 1).Enough 1 (StaticEndCondition (disc 1)) 1 := by
    refine enough_static le_rfl le_rfl fun kind agent target cell inside => ?_
    cases kind
    next => exact reach_corridor _ _ target cell inside
    next => exact reach_corridor _ _ target cell inside
  obtain ⟨w, done, shows⟩ := timeSteps_show (corridor (fun _ => [1]) fun _ => 1) 1
    (StaticEndCondition (disc 1)) 1 (by decide) enough (fun _ => 0)
    [fun agent => if agent = 0 then none else some 1,
      fun agent => if agent = 0 then none else some 2]
  exact ⟨w, done, shows.locationId 1, (shows.field .mobility 1).full 1,
    shows.perceptions 0 1 (by decide)⟩

end Environment

end Fpmas.Model.Spatial
