import Fpmas.Model.Spatial.MovePhase

set_option autoImplicit false

namespace Fpmas.Model.Spatial

open Superstep

variable {n : Nat} {A C : Type} [DecidableEq A] [DecidableEq C]

/-- The world between two runs of the algorithm. -/
structure Settled (w : World A C) : Prop where
  location : ∀ agent, (outNeighbors w.edges .LOCATION agent).length ≤ 1
  arrived : ∀ agent cell, .field .NEW_LOCATION agent cell ∉ w.edges
  fresh : ∀ (kind : Kind) agent cell, .field kind.fresh agent cell ∉ w.edges
  flags : ∀ (kind : Kind) cell, kind.flags (w.flags cell) = ∅

namespace Environment

variable (env : Environment n A C) (group : GroupId)

-- The ends of the paths that stay in the range.
inductive Within (range : Range C) (start : C) : Nat → C → Prop where
  | start : Within range start 0 start
  | step {k : Nat} {cell next : C} (path : Within range start k cell)
      (edge : next ∈ env.successors cell) (inside : range.contains start next = true) :
      Within range start (k + 1) next

-- A field of an agent that moves to `target`, after `k` rounds.
structure Growing (kind : Kind) (agent : A) (target : C) (k : Nat) (w : World A C) : Prop where
  placed : ∀ cell, w.edges.count (.field .LOCATION agent cell) +
    w.edges.count (.field .NEW_LOCATION agent cell) = if cell = target then 1 else 0
  started : agent ∈ kind.flags (w.flags target) ∨ .field .NEW_LOCATION agent target ∈ w.edges
  cropped : ∀ cell, .field kind.fresh agent cell ∉ w.edges
  once : ∀ cell, w.edges.count (.field kind.layer agent cell) ≤ 1
  inside : ∀ cell, .field kind.layer agent cell ∈ w.edges →
    (env.range kind agent).contains target cell = true
  -- The successors of a cell that has been explored are in the field.
  explored : ∀ cell next, agent ∈ kind.flags (w.flags cell) → next ∈ env.successors cell →
    (env.range kind agent).contains target next = true → .field kind.layer agent next ∈ w.edges
  reached : ∀ j cell, j ≤ k → env.Within (env.range kind agent) target j cell →
    (env.range kind agent).contains target cell = true → .field kind.layer agent cell ∈ w.edges

variable {env group} {kind : Kind} {agent : A} {target : C} {k : Nat} {w w' : World A C}

theorem Growing.location (growing : env.Growing kind agent target k w) (grows : env.Grows w w') :
    (outNeighbors w'.edges .LOCATION agent).head? = some target := by
  have here : ∀ cell, cell ∈ outNeighbors w'.edges .LOCATION agent ↔ cell = target := by
    intro cell
    rw [← List.count_pos_iff, count_outNeighbors, grows.located, growing.placed]
    split
    next same => simp [same]
    next other => simp [other]
  have present := (here target).mpr rfl
  cases occupied : outNeighbors w'.edges .LOCATION agent with
  | nil => simp [occupied] at present
  | cons head rest =>
    have same := (here head).mp (by simp [occupied])
    simp [same]

theorem Growing.mem_layer (growing : env.Growing kind agent target k w) {grown : World A C}
    (grows : env.Grows w grown) (crops : env.Crops group grown w')
    (member : env.isAgentInGroup agent group) (cell : C) :
    .field kind.layer agent cell ∈ w'.edges ↔ .field kind.layer agent cell ∈ w.edges ∨
      (env.range kind agent).contains target cell = true ∧ ∃ origin,
        cell ∈ env.successors origin ∧ Explores origin (w.flags origin) w.edges kind agent := by
  have count := crops.field kind agent cell target member (growing.location grows)
  have fresh := grows.grown kind agent cell
  simp only [growing.cropped cell, false_or] at fresh
  refine Iff.trans ?_ (or_congr (grows.mem_layer kind agent cell) (and_congr_right fun _ => fresh))
  rw [← List.count_pos_iff, count]
  by_cases present : Edge.field kind.layer agent cell ∈ grown.edges
  next =>
    have positive := List.count_pos_iff.mpr present
    simp [present, positive]
  next =>
    have absent := List.count_eq_zero.mpr present
    simp only [absent, present, Nat.zero_add, false_or, not_false_eq_true, true_and]
    split
    next added => simp [added]
    next dropped =>
      simp only [Nat.lt_irrefl, false_iff]
      exact fun added => dropped added.symm

omit [DecidableEq A] [DecidableEq C] in
theorem Within.contains {range : Range C} {start cell : C} (path : env.Within range start k cell) :
    cell = start ∨ range.contains start cell = true := by
  cases path with
  | start => exact .inl rfl
  | step _ _ inside => exact .inr inside

theorem Growing.round (growing : env.Growing kind agent target k w)
    (round : env.Round group w w') (member : env.isAgentInGroup agent group) :
    env.Growing kind agent target (k + 1) w' := by
  obtain ⟨grown, grows, crops⟩ := round
  have layer := growing.mem_layer grows crops member
  have flagged : ∀ cell, agent ∈ kind.flags (w'.flags cell) ↔
      agent ∈ kind.flags (w.flags cell) ∨ .field .NEW_LOCATION agent cell ∈ w.edges ∨
        .field kind.layer agent cell ∈ w.edges := by
    intro cell
    rw [crops.flags, grows.flagged]
  have started : agent ∈ kind.flags (w'.flags target) :=
    (flagged target).mpr (growing.started.imp_right .inl)
  have explored : ∀ cell next, agent ∈ kind.flags (w'.flags cell) → next ∈ env.successors cell →
      (env.range kind agent).contains target next = true →
      .field kind.layer agent next ∈ w'.edges := by
    intro cell next seen edge inside
    rw [layer]
    by_cases before : agent ∈ kind.flags (w.flags cell)
    next => exact .inl (growing.explored cell next before edge inside)
    next =>
      refine .inr ⟨inside, cell, edge, ?_⟩
      exact (((flagged cell).mp seen).resolve_left before).imp_right fun here => ⟨here, before⟩
  constructor
  case placed =>
    intro cell
    rw [crops.kept _ _ _ (.inl rfl), crops.kept _ _ _ (.inr rfl), grows.located,
      List.count_eq_zero.mpr (grows.arrived agent cell), growing.placed, Nat.add_zero]
  case started => exact .inl started
  case cropped => exact fun cell => crops.cropped kind agent cell member
  case once =>
    intro cell
    have before := growing.once cell
    have count := crops.field kind agent cell target member (growing.location grows)
    rw [count, grows.kept]
    split
    next added =>
      have absent := List.count_eq_zero.mpr added.2.1
      rw [grows.kept] at absent
      omega
    next => omega
  case inside =>
    intro cell here
    rcases (layer cell).mp here with before | ⟨inside, -⟩
    next => exact growing.inside cell before
    next => exact inside
  case explored => exact explored
  case reached =>
    intro j cell bound path inside
    cases path with
    | start => exact (layer target).mpr (.inl (growing.reached 0 target (by omega) .start inside))
    | step path edge _ =>
      -- The cell before is explored in this round at the latest.
      refine explored _ _ ((flagged _).mpr ?_) edge inside
      rcases path.contains with rfl | before
      next => exact growing.started.imp_right .inl
      next => exact .inr (.inr (growing.reached _ _ (by omega) path before))

theorem Growing.rounds {rounds : Nat} (ran : env.Rounds group rounds w w')
    (growing : env.Growing kind agent target k w) (member : env.isAgentInGroup agent group) :
    env.Growing kind agent target (k + rounds) w' := by
  induction ran generalizing k with
  | none w => exact growing
  | next first later ih =>
    rw [Nat.add_comm _ 1, ← Nat.add_assoc]
    exact ih (growing.round first member)

section Moves

variable {moves : A → Option C}

theorem growing_of_moves (settled : Settled w) (moved : env.Moves moves w w')
    (goes : moves agent = some target) (kind : Kind) : env.Growing kind agent target 0 w' := by
  have layer : ∀ cell, .field kind.layer agent cell ∈ w'.edges ↔
      cell = target ∧ (env.range kind agent).contains target target = true := by
    intro cell
    rw [← List.count_pos_iff, moved.layer kind agent target cell goes]
    split <;> simp_all
  constructor
  case placed =>
    intro cell
    rw [List.count_eq_zero.mpr (moved.location agent target cell goes (settled.location agent)),
      moved.newLocation agent target cell goes, List.count_eq_zero.mpr (settled.arrived agent cell)]
    simp [eq_comm]
  case started =>
    refine .inr (List.count_pos_iff.mp ?_)
    rw [moved.newLocation agent target target goes]
    simp
  case cropped =>
    intro cell
    rw [← List.count_eq_zero, moved.fresh, List.count_eq_zero]
    exact settled.fresh kind agent cell
  case once =>
    intro cell
    rw [moved.layer kind agent target cell goes]
    split <;> simp
  case inside =>
    intro cell here
    obtain ⟨rfl, inside⟩ := (layer cell).mp here
    exact inside
  case explored =>
    intro cell next seen
    simp [moved.flags, settled.flags] at seen
  case reached =>
    intro j cell bound path inside
    obtain rfl := Nat.le_zero.mp bound
    cases path
    exact (layer target).mpr ⟨rfl, inside⟩

theorem Growing.clears (growing : env.Growing kind agent target k w)
    (clears : env.Clears group w w') : env.Growing kind agent target k w' := by
  have count := count_field_congr clears.fields
  have mem := mem_field_congr clears.fields
  constructor
  case placed =>
    intro cell
    rw [count, count, growing.placed]
  case started =>
    rw [mem, clears.flags]
    exact growing.started
  case cropped =>
    intro cell
    rw [mem]
    exact growing.cropped cell
  case once =>
    intro cell
    rw [count]
    exact growing.once cell
  case inside =>
    intro cell here
    exact growing.inside cell ((mem _ _ _).mp here)
  case explored =>
    intro cell next seen edge inside
    rw [clears.flags] at seen
    exact (mem _ _ _).mpr (growing.explored cell next seen edge inside)
  case reached =>
    intro j cell bound path inside
    exact (mem _ _ _).mpr (growing.reached j cell bound path inside)

theorem placed_of_moves (moved : env.Moves moves w w')
    (stays : ∀ agent, env.isAgentInGroup agent group → moves agent = none →
      ∃ cell, .field .LOCATION agent cell ∈ w.edges) : env.Placed group w' := by
  intro agent member
  cases target : moves agent with
  | none =>
    obtain ⟨cell, here⟩ := stays agent member target
    refine ⟨cell, .inl (List.count_pos_iff.mp ?_)⟩
    rw [moved.unmoved .LOCATION agent cell target]
    exact List.count_pos_iff.mpr here
  | some cell =>
    refine ⟨cell, .inr (List.count_pos_iff.mp ?_)⟩
    rw [moved.newLocation agent cell cell target]
    simp

theorem fields_exact (env : Environment n A C) (group : GroupId) (end_ : EndCondition n A C)
    (moves : A → Option C) (w moved : World A C) (settled : Settled w)
    (stays : ∀ agent, env.isAgentInGroup agent group → moves agent = none →
      ∃ cell, .field .LOCATION agent cell ∈ w.edges)
    (ran : env.movePhase moves w = some moved) (rounds fuel : Nat)
    (lets : ∀ cleared, env.unlinkObsoletePerceptions group moved = some cleared →
      end_.LetsRun rounds (end_.init env group cleared))
    (reach : ∀ kind agent target cell, moves agent = some target →
      (env.range kind agent).contains target cell = true →
      ∃ k ≤ rounds, env.Within (env.range kind agent) target k cell)
    (enough : rounds ≤ fuel) :
    ∃ w', env.run group end_ fuel moved = some w' ∧
      ∀ agent target cell, env.isAgentInGroup agent group → moves agent = some target →
        w'.edges.count (.field .MOVE agent cell) =
          (if (env.mobilityRange agent).contains target cell then 1 else 0) ∧
        w'.edges.count (.field .PERCEIVE agent cell) =
          (if (env.perceptionRange agent).contains target cell then 1 else 0) := by
  obtain ⟨w₁, ran', moving⟩ := env.movePhase_moves moves w
  obtain rfl := Option.some.inj (ran'.symm.trans ran)
  obtain ⟨cleared, looped, w', done, runs⟩ :=
    run_of_placed end_ (placed_of_moves moving stays) lets enough
  refine ⟨w', done, fun agent target cell member goes => ?_⟩
  have field : ∀ kind : Kind, w'.edges.count (.field kind.layer agent cell) =
      if (env.range kind agent).contains target cell then 1 else 0 := by
    intro kind
    have grown := Growing.rounds runs.rounds
      ((growing_of_moves settled moving goes kind).clears runs.clears) member
    rw [Nat.zero_add] at grown
    rw [count_field_congr runs.perceives.fields]
    split
    next inside =>
      obtain ⟨k, bound, path⟩ := reach kind agent target cell goes inside
      have present := List.count_pos_iff.mpr (grown.reached k cell bound path inside)
      have once := grown.once cell
      omega
    next outside =>
      exact List.count_eq_zero.mpr fun here => outside (grown.inside cell here)
  exact ⟨field .mobility, field .perception⟩

end Moves

omit [DecidableEq A] [DecidableEq C] in
theorem settled_empty [DecidableEq A] [DecidableEq C] : Settled (World.empty : World A C) where
  location agent := by simp [World.empty, outNeighbors]
  arrived agent cell := by simp [World.empty]
  fresh kind agent cell := by simp [World.empty]
  flags kind cell := by cases kind <;> rfl

theorem within_corridor (groupIds : Fin 2 → List GroupId) (radius : Fin 2 → Nat)
    (start cell : Fin 3) (corner : start = 0 ∨ start = 2) :
    ∃ k ≤ 2, (corridor groupIds radius).Within (disc 2) start k cell := by
  have edge : ∀ origin next : Fin 3, (next.val = origin.val + 1 ∨ origin.val = next.val + 1) →
      next ∈ (corridor groupIds radius).successors origin := by
    simp only [corridor]
    decide
  have inside : ∀ next : Fin 3, (disc 2).contains start next = true := by
    decide +revert
  have first : ∃ k ≤ 1, (corridor groupIds radius).Within (disc 2) start k 1 :=
    ⟨1, le_rfl, .step .start (edge _ _ (by revert corner; decide +revert)) (inside 1)⟩
  obtain ⟨k, bound, path⟩ := first
  by_cases here : cell = start
  next => exact ⟨0, by omega, here ▸ .start⟩
  next =>
    by_cases middle : cell = 1
    next => exact ⟨k, by omega, middle ▸ path⟩
    next =>
      exact ⟨k + 1, by omega, .step path (edge 1 cell (by omega)) (inside cell)⟩

theorem fields_exact_corridor :
    ∃ moved w', (corridor (fun _ => [1]) fun _ => 2).movePhase
        (fun agent => if agent = 0 then some 0 else some 2) .empty = some moved ∧
      (corridor (fun _ => [1]) fun _ => 2).run 1 (StaticEndCondition (disc 2)) 2 moved = some w' ∧
      w'.edges.count (.field .MOVE 0 2) = 1 := by
  obtain ⟨moved, ran, -⟩ := (corridor (fun _ => [1]) fun _ => 2).movePhase_moves
    (fun agent => if agent = 0 then some 0 else some 2) .empty
  have corner : ∀ agent target : Fin _, (if agent = (0 : Fin 2) then some 0 else some 2) = some target →
      target = (0 : Fin 3) ∨ target = 2 := by
    decide
  obtain ⟨w', done, field⟩ := fields_exact (corridor (fun _ => [1]) fun _ => 2) 1
    (StaticEndCondition (disc 2)) (fun agent => if agent = 0 then some 0 else some 2) .empty moved
    settled_empty (fun agent _ stays => absurd stays (by revert agent; decide)) ran 2 2
    (fun _ _ => ⟨rfl, rfl, rfl⟩)
    (fun kind agent target cell goes _ => by
      cases kind
      next => exact within_corridor _ _ target cell (corner agent target goes)
      next => exact within_corridor _ _ target cell (corner agent target goes)) le_rfl
  exact ⟨moved, w', ran, done, (field 0 0 2 (by decide) rfl).1⟩

end Environment

end Fpmas.Model.Spatial
