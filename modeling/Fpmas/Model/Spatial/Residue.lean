import Fpmas.Model.Spatial.Fields

set_option autoImplicit false

namespace Fpmas.Model.Spatial

variable {n : Nat} {A C : Type} [DecidableEq A] [DecidableEq C]

namespace Environment

/-- No agent of the group has a `moveTo` that no run has committed. -/
def Quiet (env : Environment n A C) (group : GroupId) (w : World A C) : Prop :=
  ∀ agent cell, env.isAgentInGroup agent group → .field .NEW_LOCATION agent cell ∉ w.edges

/-- The run of a group has left no temporary edge to its agents, nor to those of quiet groups. -/
def NoResidue (env : Environment n A C) (group : GroupId) (w w' : World A C) : Prop :=
  ∀ agent, (env.isAgentInGroup agent group ∨
      ∃ other, env.isAgentInGroup agent other ∧ env.Quiet other w) →
    ∀ cell, .field .NEW_LOCATION agent cell ∉ w'.edges ∧
      .field .NEW_MOVE agent cell ∉ w'.edges ∧ .field .NEW_PERCEIVE agent cell ∉ w'.edges

variable {env : Environment n A C} {group : GroupId} {w w' : World A C} {agent : A}

-- The group does not consume the temporary edges of another agent.
theorem Round.mem_fresh (round : env.Round group w w')
    (outside : env.isAgentInGroup agent group = false) (kind : Kind) (cell : C) :
    .field kind.fresh agent cell ∈ w'.edges ↔ .field kind.fresh agent cell ∈ w.edges ∨
      ∃ origin, cell ∈ env.successors origin ∧
        Explores origin (w.flags origin) w.edges kind agent := by
  obtain ⟨grown, grows, crops⟩ := round
  rw [crops.mem_others outside, grows.grown]

theorem Round.mem_layer (round : env.Round group w w')
    (outside : env.isAgentInGroup agent group = false) (kind : Kind) (cell : C) :
    .field kind.layer agent cell ∈ w'.edges ↔ .field kind.layer agent cell ∈ w.edges := by
  obtain ⟨grown, grows, crops⟩ := round
  rw [crops.mem_others outside, grows.mem_layer]

theorem Rounds.fresh {rounds : Nat} (ran : env.Rounds group rounds w w')
    (outside : env.isAgentInGroup agent group = false) {kind : Kind} {cell : C}
    (before : .field kind.fresh agent cell ∈ w.edges) : .field kind.fresh agent cell ∈ w'.edges :=
  ran.keep (P := fun v => .field kind.fresh agent cell ∈ v.edges)
    (fun _ _ round here => (round.mem_fresh outside kind cell).mpr (.inl here)) before

structure Still (env : Environment n A C) (kind : Kind) (agent : A) (w : World A C) : Prop where
  arrived : ∀ cell, .field .NEW_LOCATION agent cell ∉ w.edges
  cropped : ∀ cell, .field kind.fresh agent cell ∉ w.edges
  stuck : ∀ cell, .field kind.layer agent cell ∈ w.edges → env.successors cell = []

theorem Still.round {kind : Kind} (still : env.Still kind agent w) (round : env.Round group w w')
    (outside : env.isAgentInGroup agent group = false) : env.Still kind agent w' := by
  constructor
  case arrived => exact round.arrived agent
  case cropped =>
    intro cell here
    rcases (round.mem_fresh outside kind cell).mp here with before | ⟨origin, edge, arrived | field⟩
    next => exact still.cropped cell before
    next => exact still.arrived origin arrived
    next => simp [still.stuck origin field.1] at edge
  case stuck => exact fun cell here => still.stuck cell ((round.mem_layer outside kind cell).mp here)

theorem no_residue (env : Environment n A C) (group : GroupId) (end_ : EndCondition n A C)
    (fuel : Nat) (w w' : World A C) (flags : ∀ (kind : Kind) cell, kind.flags (w.flags cell) = ∅)
    (ran : env.run group end_ fuel w = some w')
    (some_round : ∀ cleared, env.unlinkObsoletePerceptions group w = some cleared →
      end_.end_ (end_.init env group cleared) = false) :
    env.NoResidue group w w' ↔
      ∀ agent, env.isAgentInGroup agent group = false →
        (∃ other, env.isAgentInGroup agent other ∧ env.Quiet other w) →
        ∀ (kind : Kind) cell, .field kind.fresh agent cell ∉ w.edges ∧
          (.field kind.layer agent cell ∈ w.edges → env.successors cell = []) := by
  obtain ⟨cleared, looped, rounds, done, lets, runs⟩ := runs_of_ended ran
  have positive : 1 ≤ rounds := by
    cases rounds with
    | zero => exact absurd (lets.symm.trans (some_round cleared done)) (by simp)
    | succ rounds => omega
  have before := mem_field_congr runs.clears.fields
  have after := mem_field_congr runs.perceives.fields
  have arrived : ∀ agent cell, .field .NEW_LOCATION agent cell ∉ w'.edges := by
    intro agent cell
    rw [after]
    exact runs.rounds.bring (fun _ _ round => round.arrived agent cell) positive
  constructor
  next =>
    intro clean agent outside quiet kind cell
    have gone : ∀ c, .field kind.fresh agent c ∉ looped.edges := by
      intro c here
      have residue := clean agent (.inr quiet) c
      cases kind with
      | mobility => exact residue.2.1 ((after _ _ _).mpr here)
      | perception => exact residue.2.2 ((after _ _ _).mpr here)
    constructor
    next => exact fun here => gone cell (runs.rounds.fresh outside ((before _ _ _).mpr here))
    next =>
      intro here
      rw [List.eq_nil_iff_forall_not_mem]
      intro next edge
      -- The cell explores the agent in the first round.
      have explored : Explores cell (cleared.flags cell) cleared.edges kind agent := by
        refine .inr ⟨(before _ _ _).mpr here, ?_⟩
        simp [runs.clears.flags, flags]
      have turns := runs.rounds
      cases turns with
      | none => omega
      | next first later =>
        exact gone next (later.fresh outside
          ((first.mem_fresh outside kind next).mpr (.inr ⟨cell, edge, explored⟩)))
  next =>
    intro still agent who cell
    have cropped : ∀ kind : Kind, .field kind.fresh agent cell ∉ looped.edges := by
      intro kind
      by_cases member : env.isAgentInGroup agent group = true
      next => exact runs.rounds.bring (fun _ _ round => round.cropped kind agent cell member) positive
      next =>
        have outside : env.isAgentInGroup agent group = false := by simpa using member
        have quiet := who.resolve_left member
        obtain ⟨other, inOther, calm⟩ := quiet
        have start : env.Still kind agent cleared := by
          constructor
          case arrived => exact fun c here => calm agent c inOther ((before _ _ _).mp here)
          case cropped =>
            exact fun c here =>
              (still agent outside ⟨other, inOther, calm⟩ kind c).1 ((before _ _ _).mp here)
          case stuck =>
            exact fun c here =>
              (still agent outside ⟨other, inOther, calm⟩ kind c).2 ((before _ _ _).mp here)
        exact (runs.rounds.keep (P := env.Still kind agent)
          (fun _ _ round here => here.round round outside) start).cropped cell
    refine ⟨arrived agent cell, ?_, ?_⟩
    next => exact fun here => cropped .mobility ((after _ _ _).mp here)
    next => exact fun here => cropped .perception ((after _ _ _).mp here)

-- Two groups of one agent; nothing leaves the third cell.
def deadEnd : Environment 2 (Fin 2) (Fin 3) :=
  { corridor (fun agent => [agent.val + 1]) fun _ => 1 with
    successors := fun cell => if cell.val = 2 then [] else (corridor (fun _ => []) fun _ => 1).successors cell }

-- The second agent has been placed in the third cell by a run of its own group.
theorem no_residue_deadEnd : ∃ w₁ w₂ w w',
    deadEnd.movePhase (fun agent => if agent = 0 then none else some 2) .empty = some w₁ ∧
      deadEnd.run 2 (StaticEndCondition (disc 1)) 1 w₁ = some w₂ ∧
      deadEnd.movePhase (fun agent => if agent = 0 then some 0 else none) w₂ = some w ∧
      deadEnd.run 1 (StaticEndCondition (disc 1)) 1 w = some w' ∧
      .field .MOVE 1 2 ∈ w.edges ∧ deadEnd.Quiet 2 w ∧ deadEnd.NoResidue 1 w w' := by
  have ended : ((deadEnd.movePhase (fun agent => if agent = 0 then none else some 2) .empty).bind
      fun w₁ => (deadEnd.run 2 (StaticEndCondition (disc 1)) 1 w₁).bind fun w₂ =>
        (deadEnd.movePhase (fun agent => if agent = 0 then some 0 else none) w₂).bind fun w =>
          (deadEnd.run 1 (StaticEndCondition (disc 1)) 1 w).map fun _ => decide (
            Edge.field .MOVE 1 2 ∈ w.edges ∧ (∀ cell, Edge.field .NEW_LOCATION 1 cell ∉ w.edges) ∧
              (∀ cell, (w.flags cell).moveFlags = ∅ ∧ (w.flags cell).perceptionFlags = ∅) ∧
              ∀ cell, Edge.field .NEW_MOVE 1 cell ∉ w.edges ∧ Edge.field .NEW_PERCEIVE 1 cell ∉ w.edges ∧
                (Edge.field .MOVE 1 cell ∈ w.edges → cell = 2) ∧
                (Edge.field .PERCEIVE 1 cell ∈ w.edges → cell = 2))) = some true := by
    decide +kernel
  obtain ⟨w₁, placed, ended⟩ := Option.bind_eq_some_iff.mp ended
  obtain ⟨w₂, settled, ended⟩ := Option.bind_eq_some_iff.mp ended
  obtain ⟨w, moved, ended⟩ := Option.bind_eq_some_iff.mp ended
  obtain ⟨w', done, holds⟩ := Option.map_eq_some_iff.mp ended
  obtain ⟨located, calm, flags, fields⟩ := of_decide_eq_true holds
  have second : ∀ agent, deadEnd.isAgentInGroup agent 2 = true → agent = 1 := by
    decide
  have other : ∀ agent, deadEnd.isAgentInGroup agent 1 = false → agent = 1 := by
    decide
  refine ⟨w₁, w₂, w, w', placed, settled, moved, done, located, ?_, (no_residue deadEnd 1
    (StaticEndCondition (disc 1)) 1 w w' ?_ done fun _ _ => rfl).mpr ?_⟩
  next => exact fun agent cell member => second agent member ▸ calm cell
  next =>
    intro kind cell
    cases kind with
    | mobility => exact (flags cell).1
    | perception => exact (flags cell).2
  next =>
    intro agent outside _ kind cell
    obtain rfl := other agent outside
    obtain ⟨noMove, noPerceive, move, perceive⟩ := fields cell
    cases kind with
    | mobility => exact ⟨noMove, fun here => move here ▸ rfl⟩
    | perception => exact ⟨noPerceive, fun here => perceive here ▸ rfl⟩

-- Two groups on the same cells: the second agent has been placed by a run of its own group.
theorem residue_of_other_group : ∃ w₁ w₂ w w',
    (corridor (fun agent => if agent = 0 then [1] else [2]) fun _ => 1).movePhase
        (fun agent => if agent = 0 then none else some 1) .empty = some w₁ ∧
      (corridor (fun agent => if agent = 0 then [1] else [2]) fun _ => 1).run 2
        DynamicEndCondition 1 w₁ = some w₂ ∧
      (corridor (fun agent => if agent = 0 then [1] else [2]) fun _ => 1).movePhase
        (fun agent => if agent = 0 then some 0 else none) w₂ = some w ∧
      (corridor (fun agent => if agent = 0 then [1] else [2]) fun _ => 1).run 1
        DynamicEndCondition 1 w = some w' ∧
      ¬(corridor (fun agent => if agent = 0 then [1] else [2]) fun _ => 1).NoResidue 1 w w' := by
  have ended : (((corridor (fun agent => if agent = 0 then [1] else [2]) fun _ => 1).movePhase
        (fun agent => if agent = 0 then none else some 1) .empty).bind fun w₁ =>
      ((corridor (fun agent => if agent = 0 then [1] else [2]) fun _ => 1).run 2
        DynamicEndCondition 1 w₁).bind fun w₂ =>
      ((corridor (fun agent => if agent = 0 then [1] else [2]) fun _ => 1).movePhase
        (fun agent => if agent = 0 then some 0 else none) w₂).bind fun w =>
      ((corridor (fun agent => if agent = 0 then [1] else [2]) fun _ => 1).run 1
        DynamicEndCondition 1 w).map fun w' => decide (
          (∀ cell, Edge.field .NEW_LOCATION 1 cell ∉ w.edges) ∧
            Edge.field .NEW_MOVE 1 0 ∈ w'.edges)) = some true := by
    decide +kernel
  obtain ⟨w₁, placed, ended⟩ := Option.bind_eq_some_iff.mp ended
  obtain ⟨w₂, settled, ended⟩ := Option.bind_eq_some_iff.mp ended
  obtain ⟨w, moved, ended⟩ := Option.bind_eq_some_iff.mp ended
  obtain ⟨w', done, holds⟩ := Option.map_eq_some_iff.mp ended
  obtain ⟨calm, residue⟩ := of_decide_eq_true holds
  refine ⟨w₁, w₂, w, w', placed, settled, moved, done, fun clean => ?_⟩
  refine (clean 1 (.inr ⟨2, by decide, fun agent cell member => ?_⟩) 0).2.1 residue
  obtain rfl : agent = 1 := by
    revert agent
    decide
  exact calm cell

end Environment

end Fpmas.Model.Spatial
