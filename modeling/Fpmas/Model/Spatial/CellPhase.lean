import Mathlib.Data.Finset.Dedup
import Mathlib.Data.Finset.Lattice.Lemmas
import Fpmas.Model.Spatial.DistributedMoveAlgorithm

set_option autoImplicit false

namespace Fpmas.Model.Spatial

open Superstep

variable {n : Nat} {A C : Type} [DecidableEq A] [DecidableEq C]

namespace Kind

omit [DecidableEq A] in
@[simp]
theorem flags_setFlags (kind : Kind) (agents : Finset A) (flags : CellFlags A) :
    kind.flags (kind.setFlags agents flags) = agents := by
  cases kind <;> rfl

omit [DecidableEq A] in
@[simp]
theorem setFlags_setFlags (kind : Kind) (agents agents' : Finset A) (flags : CellFlags A) :
    kind.setFlags agents (kind.setFlags agents' flags) = kind.setFlags agents flags := by
  cases kind <;> rfl

omit [DecidableEq A] in
@[simp]
theorem setFlags_flags (kind : Kind) (flags : CellFlags A) :
    kind.setFlags (kind.flags flags) flags = flags := by
  cases kind <;> rfl

@[simp]
theorem layer_ne_fresh (kind kind' : Kind) : kind.layer ≠ kind'.fresh := by
  cases kind <;> cases kind' <;> simp [layer, fresh]

@[simp]
theorem layer_ne_location (kind : Kind) : kind.layer ≠ .LOCATION := by
  cases kind <;> simp [layer]

@[simp]
theorem layer_ne_newLocation (kind : Kind) : kind.layer ≠ .NEW_LOCATION := by
  cases kind <;> simp [layer]

@[simp]
theorem fresh_ne_location (kind : Kind) : kind.fresh ≠ .LOCATION := by
  cases kind <;> simp [fresh]

@[simp]
theorem fresh_ne_newLocation (kind : Kind) : kind.fresh ≠ .NEW_LOCATION := by
  cases kind <;> simp [fresh]

@[simp]
theorem fresh_ne_layer (kind kind' : Kind) : kind.fresh ≠ kind'.layer :=
  (layer_ne_fresh kind' kind).symm

@[simp]
theorem location_ne_layer (kind : Kind) : .LOCATION ≠ kind.layer := (layer_ne_location kind).symm

@[simp]
theorem newLocation_ne_layer (kind : Kind) : .NEW_LOCATION ≠ kind.layer :=
  (layer_ne_newLocation kind).symm

@[simp]
theorem location_ne_fresh (kind : Kind) : .LOCATION ≠ kind.fresh := (fresh_ne_location kind).symm

@[simp]
theorem newLocation_ne_fresh (kind : Kind) : .NEW_LOCATION ≠ kind.fresh :=
  (fresh_ne_newLocation kind).symm

@[simp]
theorem layer_inj {kind kind' : Kind} : kind.layer = kind'.layer ↔ kind = kind' := by
  cases kind <;> cases kind' <;> simp [layer]

@[simp]
theorem fresh_inj {kind kind' : Kind} : kind.fresh = kind'.fresh ↔ kind = kind' := by
  cases kind <;> cases kind' <;> simp [fresh]

end Kind

section Neighbors

variable (edges edges' : List (Edge A C))

theorem count_outNeighbors (layer : Field) (agent : A) (cell : C) :
    (outNeighbors edges layer agent).count cell = edges.count (.field layer agent cell) := by
  refine count_filterMap (fun c => Edge.field layer agent c) (fun edge c => ?_) edges cell
  cases edge with
  | field l a c => simp [and_assoc]
  | perception a b => simp

theorem count_inNeighbors (layer : Field) (cell : C) (agent : A) :
    (inNeighbors edges layer cell).count agent = edges.count (.field layer agent cell) := by
  refine count_filterMap (fun a => Edge.field layer a cell) (fun edge a => ?_) edges agent
  cases edge with
  | field l a c =>
    simp
    tauto
  | perception a b => simp

theorem count_perceptions (agent perceived : A) :
    (perceptions edges agent).count perceived = edges.count (.perception agent perceived) := by
  refine count_filterMap (fun b => Edge.perception agent b) (fun edge b => ?_) edges perceived
  cases edge with
  | field l a c => simp
  | perception a b => simp

theorem count_perceivers (agent perceiver : A) :
    (perceivers edges agent).count perceiver = edges.count (.perception perceiver agent) := by
  refine count_filterMap (fun a => Edge.perception a agent) (fun edge a => ?_) edges perceiver
  cases edge with
  | field l a c => simp
  | perception a b =>
    simp
    tauto

@[simp]
theorem mem_outNeighbors {layer : Field} {agent : A} {cell : C} :
    cell ∈ outNeighbors edges layer agent ↔ .field layer agent cell ∈ edges := by
  rw [← List.count_pos_iff, count_outNeighbors, List.count_pos_iff]

@[simp]
theorem mem_inNeighbors {layer : Field} {cell : C} {agent : A} :
    agent ∈ inNeighbors edges layer cell ↔ .field layer agent cell ∈ edges := by
  rw [← List.count_pos_iff, count_inNeighbors, List.count_pos_iff]

-- Neighbors only depend on the edges that a filter keeps, when it keeps those of the node.
variable {edges edges'}

omit [DecidableEq C] in
theorem outNeighbors_congr (sees : Edge A C → Bool) (layer : Field) (agent : A)
    (kept : ∀ cell, sees (.field layer agent cell) = true)
    (same : edges.filter sees = edges'.filter sees) :
    outNeighbors edges layer agent = outNeighbors edges' layer agent := by
  refine filterMap_congr (fun edge chosen => ?_) same
  cases edge with
  | field l a c =>
    obtain ⟨rfl, rfl⟩ : l = layer ∧ a = agent := by simpa using chosen
    exact kept c
  | perception a b => simp at chosen

omit [DecidableEq A] in
theorem inNeighbors_congr (sees : Edge A C → Bool) (layer : Field) (cell : C)
    (kept : ∀ agent, sees (.field layer agent cell) = true)
    (same : edges.filter sees = edges'.filter sees) :
    inNeighbors edges layer cell = inNeighbors edges' layer cell := by
  refine filterMap_congr (fun edge chosen => ?_) same
  cases edge with
  | field l a c =>
    obtain ⟨rfl, rfl⟩ : l = layer ∧ c = cell := by simpa using chosen
    exact kept a
  | perception a b => simp at chosen

def edgesFrom (layer : Field) (agent : A) : Edge A C → Bool
  | .field l a _ => decide (l = layer ∧ a = agent)
  | .perception _ _ => false

def edgesTo (layer : Field) (cell : C) : Edge A C → Bool
  | .field l _ c => decide (l = layer ∧ c = cell)
  | .perception _ _ => false

omit [DecidableEq C] in
theorem perceptions_congr (sees : Edge A C → Bool) (agent : A)
    (kept : ∀ perceived, sees (.perception agent perceived) = true)
    (same : edges.filter sees = edges'.filter sees) :
    perceptions edges agent = perceptions edges' agent := by
  refine filterMap_congr (fun edge chosen => ?_) same
  cases edge with
  | field l a c => simp at chosen
  | perception a b =>
    obtain rfl : a = agent := by simpa using chosen
    exact kept b

omit [DecidableEq C] in
theorem perceivers_congr (sees : Edge A C → Bool) (agent : A)
    (kept : ∀ perceiver, sees (.perception perceiver agent) = true)
    (same : edges.filter sees = edges'.filter sees) :
    perceivers edges agent = perceivers edges' agent := by
  refine filterMap_congr (fun edge chosen => ?_) same
  cases edge with
  | field l a c => simp at chosen
  | perception a b =>
    obtain rfl : b = agent := by simpa using chosen
    exact kept a

end Neighbors

namespace Environment

variable (env : Environment n A C)

section Cell

variable (cell : C)

def explore : List A → Finset A → List A
  | [], _ => []
  | agent :: rest, flags =>
    if agent ∈ flags then explore rest flags else agent :: explore rest (insert agent flags)

theorem mem_explore {agents : List A} {flags : Finset A} {agent : A} :
    agent ∈ explore agents flags ↔ agent ∈ agents ∧ agent ∉ flags := by
  induction agents generalizing flags with
  | nil => simp [explore]
  | cons head rest ih =>
    by_cases flagged : head ∈ flags
    next =>
      simp only [explore, if_pos flagged, ih, List.mem_cons]
      constructor
      next => exact fun met => ⟨.inr met.1, met.2⟩
      next =>
        rintro ⟨rfl | later, fresh⟩
        next => exact absurd flagged fresh
        next => exact ⟨later, fresh⟩
    next =>
      simp only [explore, if_neg flagged, List.mem_cons, ih, Finset.mem_insert, not_or]
      by_cases here : agent = head
      next => simp [here, flagged]
      next => simp [here]

def newLocationCalls (edges : List (Edge A C)) : List (Call (Edge A C)) :=
  (inNeighbors edges .NEW_LOCATION cell).flatMap fun agent =>
    updateLocation cell agent ++ env.growMobilityField cell agent ++
      env.growPerceptionField cell agent

theorem handleNewLocation_eq (flags : CellFlags A) (edges : List (Edge A C)) :
    env.handleNewLocation cell flags edges =
      some ({ moveFlags := flags.moveFlags ∪ (inNeighbors edges .NEW_LOCATION cell).toFinset
              perceptionFlags :=
                flags.perceptionFlags ∪ (inNeighbors edges .NEW_LOCATION cell).toFinset },
        env.newLocationCalls cell edges) := by
  unfold handleNewLocation
  congr 1
  suffices general : ∀ (agents : List A) (start : CellFlags A) (calls : List (Call (Edge A C))),
      agents.foldl (fun (x : CellFlags A × List (Call (Edge A C))) agent =>
        (({ moveFlags := insert agent x.1.moveFlags
            perceptionFlags := insert agent x.1.perceptionFlags } : CellFlags A),
          x.2 ++ updateLocation cell agent ++ env.growMobilityField cell agent ++
            env.growPerceptionField cell agent)) (start, calls) =
        ({ moveFlags := start.moveFlags ∪ agents.toFinset
           perceptionFlags := start.perceptionFlags ∪ agents.toFinset },
          calls ++ agents.flatMap fun agent => updateLocation cell agent ++
            env.growMobilityField cell agent ++ env.growPerceptionField cell agent) by
    simpa [newLocationCalls] using general (inNeighbors edges .NEW_LOCATION cell) flags []
  intro agents
  induction agents with
  | nil => simp
  | cons agent rest ih =>
    intro start calls
    rw [List.foldl_cons, ih]
    simp [Finset.insert_union]

theorem handleField_eq (kind : Kind) (flags : CellFlags A) (edges : List (Edge A C)) :
    env.handleField cell kind flags edges =
      some (kind.setFlags (kind.flags flags ∪ (inNeighbors edges kind.layer cell).toFinset) flags,
        (explore (inNeighbors edges kind.layer cell) (kind.flags flags)).flatMap
          (env.growField cell kind)) := by
  unfold handleField
  congr 1
  suffices general : ∀ (agents : List A) (start : CellFlags A) (calls : List (Call (Edge A C))),
      agents.foldl (fun (x : CellFlags A × List (Call (Edge A C))) agent =>
        if agent ∈ kind.flags x.1 then (x.1, x.2)
        else
          (kind.setFlags (insert agent (kind.flags x.1)) x.1,
            x.2 ++ env.growField cell kind agent)) (start, calls) =
        (kind.setFlags (kind.flags start ∪ agents.toFinset) start,
          calls ++ (explore agents (kind.flags start)).flatMap (env.growField cell kind)) by
    simpa using general (inNeighbors edges kind.layer cell) flags []
  intro agents
  induction agents with
  | nil => simp [explore]
  | cons agent rest ih =>
    intro start calls
    rw [List.foldl_cons]
    by_cases flagged : agent ∈ kind.flags start
    next => simp [flagged, ih, explore]
    next => simp [flagged, ih, explore, Finset.insert_union]

variable (flags : CellFlags A) (edges : List (Edge A C))

def cellFlags : CellFlags A where
  moveFlags := flags.moveFlags ∪ (inNeighbors edges .NEW_LOCATION cell).toFinset ∪
    (inNeighbors edges .MOVE cell).toFinset
  perceptionFlags := flags.perceptionFlags ∪ (inNeighbors edges .NEW_LOCATION cell).toFinset ∪
    (inNeighbors edges .PERCEIVE cell).toFinset

def fieldCalls (kind : Kind) : List (Call (Edge A C)) :=
  (explore (inNeighbors edges kind.layer cell)
    (kind.flags flags ∪ (inNeighbors edges .NEW_LOCATION cell).toFinset)).flatMap
      (env.growField cell kind)

def cellCalls : List (Call (Edge A C)) :=
  env.newLocationCalls cell edges ++ env.fieldCalls cell flags edges .mobility ++
    env.fieldCalls cell flags edges .perception

variable {cell flags edges} {call : Call (Edge A C)}

omit [DecidableEq A] [DecidableEq C] in
theorem mem_growField {kind : Kind} {agent : A} :
    call ∈ env.growField cell kind agent ↔
      ∃ c ∈ env.successors cell, call = .link (.field kind.fresh agent c) := by
  simp [growField, eq_comm]

theorem mem_newLocationCalls :
    call ∈ env.newLocationCalls cell edges ↔
      ∃ agent, .field .NEW_LOCATION agent cell ∈ edges ∧
        (call = .link (.field .LOCATION agent cell) ∨
          call = .unlink (.field .NEW_LOCATION agent cell) ∨
          ∃ kind : Kind, ∃ c ∈ env.successors cell, call = .link (.field kind.fresh agent c)) := by
  simp only [newLocationCalls, List.mem_flatMap, mem_inNeighbors, List.mem_append, updateLocation,
    growMobilityField, growPerceptionField, mem_growField, List.mem_cons, List.not_mem_nil, or_false]
  constructor
  next =>
    rintro ⟨agent, listed, (located | moved) | perceived⟩
    next => exact ⟨agent, listed, by tauto⟩
    next => exact ⟨agent, listed, .inr (.inr ⟨.mobility, moved⟩)⟩
    next => exact ⟨agent, listed, .inr (.inr ⟨.perception, perceived⟩)⟩
  next =>
    rintro ⟨agent, listed, located | left | ⟨kind, grown⟩⟩
    next => exact ⟨agent, listed, .inl (.inl (.inl located))⟩
    next => exact ⟨agent, listed, .inl (.inl (.inr left))⟩
    next =>
      cases kind with
      | mobility => exact ⟨agent, listed, .inl (.inr grown)⟩
      | perception => exact ⟨agent, listed, .inr grown⟩

theorem mem_fieldCalls {kind : Kind} :
    call ∈ env.fieldCalls cell flags edges kind ↔
      ∃ agent, .field kind.layer agent cell ∈ edges ∧ agent ∉ kind.flags flags ∧
        .field .NEW_LOCATION agent cell ∉ edges ∧
        ∃ c ∈ env.successors cell, call = .link (.field kind.fresh agent c) := by
  simp [fieldCalls, List.mem_flatMap, mem_explore, mem_growField, and_assoc]

def Explores (cell : C) (flags : CellFlags A) (edges : List (Edge A C)) (kind : Kind) (agent : A) :
    Prop :=
  .field .NEW_LOCATION agent cell ∈ edges ∨
    .field kind.layer agent cell ∈ edges ∧ agent ∉ kind.flags flags

theorem mem_cellCalls :
    call ∈ env.cellCalls cell flags edges ↔
      (∃ agent, .field .NEW_LOCATION agent cell ∈ edges ∧
        (call = .link (.field .LOCATION agent cell) ∨
          call = .unlink (.field .NEW_LOCATION agent cell))) ∨
      ∃ kind agent, Explores cell flags edges kind agent ∧
        ∃ c ∈ env.successors cell, call = .link (.field kind.fresh agent c) := by
  simp only [cellCalls, List.mem_append, mem_newLocationCalls, mem_fieldCalls]
  constructor
  next =>
    rintro ((⟨agent, arrived, located | left | ⟨kind, grown⟩⟩ | ⟨agent, moved, fresh, -, grown⟩) |
      ⟨agent, perceived, fresh, -, grown⟩)
    next => exact .inl ⟨agent, arrived, .inl located⟩
    next => exact .inl ⟨agent, arrived, .inr left⟩
    next => exact .inr ⟨kind, agent, .inl arrived, grown⟩
    next => exact .inr ⟨.mobility, agent, .inr ⟨moved, fresh⟩, grown⟩
    next => exact .inr ⟨.perception, agent, .inr ⟨perceived, fresh⟩, grown⟩
  next =>
    rintro (⟨agent, arrived, located | left⟩ | ⟨kind, agent, explored, grown⟩)
    next => exact .inl (.inl ⟨agent, arrived, .inl located⟩)
    next => exact .inl (.inl ⟨agent, arrived, .inr (.inl left)⟩)
    next =>
      by_cases arrived : .field .NEW_LOCATION agent cell ∈ edges
      next => exact .inl (.inl ⟨agent, arrived, .inr (.inr ⟨kind, grown⟩)⟩)
      next =>
        have unflagged := explored.resolve_left arrived
        cases kind with
        | mobility => exact .inl (.inr ⟨agent, unflagged.1, unflagged.2, arrived, grown⟩)
        | perception => exact .inr ⟨agent, unflagged.1, unflagged.2, arrived, grown⟩

-- A handler does not see what the previous one does to other layers.
theorem inNeighbors_applyAll (edges : List (Edge A C)) {calls : List (Call (Edge A C))} {layer : Field}
    (other : ∀ call ∈ calls, ∀ agent, call.edge ≠ .field layer agent cell) :
    inNeighbors (Call.applyAll calls edges) layer cell = inNeighbors edges layer cell := by
  refine inNeighbors_congr (edgesTo layer cell) layer cell (fun agent => by simp [edgesTo]) ?_
  refine Call.filter_applyAll _ calls edges fun call member => ?_
  have apart := other call member
  cases about : call.edge with
  | field l agent c =>
    simp only [edgesTo, decide_eq_false_iff_not]
    rintro ⟨rfl, rfl⟩
    exact apart agent about
  | perception a b => rfl

theorem cellBehaviors_eq :
    env.cellBehaviors cell flags edges =
      some (cellFlags cell flags edges, env.cellCalls cell flags edges) := by
  have first : ∀ kind : Kind, ∀ call ∈ env.newLocationCalls cell edges, ∀ agent,
      call.edge ≠ .field kind.layer agent cell := by
    intro kind call made agent
    obtain ⟨a, -, rfl | rfl | ⟨k, c, -, rfl⟩⟩ := env.mem_newLocationCalls.mp made
    all_goals simp [Call.edge]
  have second : ∀ call ∈ env.fieldCalls cell flags edges .mobility, ∀ agent,
      call.edge ≠ .field (Kind.perception).layer agent cell := by
    intro call made agent
    obtain ⟨a, -, -, -, c, -, rfl⟩ := env.mem_fieldCalls.mp made
    simp [Call.edge]
  have moved := inNeighbors_applyAll edges (first .mobility)
  have both : ∀ call ∈ env.newLocationCalls cell edges ++ env.fieldCalls cell flags edges .mobility,
      ∀ agent, call.edge ≠ .field (Kind.perception).layer agent cell := by
    intro call made
    rcases List.mem_append.mp made with made | made
    next => exact first .perception call made
    next => exact second call made
  have perceived := inNeighbors_applyAll edges both
  unfold cellBehaviors Handler.andThen handleMove handlePerceive
  simp only [handleNewLocation_eq, handleField_eq, Option.bind_eq_bind, Option.bind_some, moved]
  simp only [fieldCalls, Kind.flags] at perceived
  simp only [Kind.flags, perceived]
  rfl

end Cell

theorem cellPhase_eq {handler : C → Handler (CellFlags A) (Edge A C)} {sees : C → Edge A C → Bool}
    (separate : Separate handler sees) (w : World A C) {next : C → CellFlags A}
    (calls : C → List (Call (Edge A C)))
    (each : ∀ cell, handler cell (w.flags cell) w.edges = some (next cell, calls cell)) :
    env.cellPhase handler w =
      some { w with
        edges := Call.applyAll (env.cells.flatMap calls) w.edges
        flags := next } := by
  unfold cellPhase
  rw [phase_eq env.cellRank separate env.cells_once fun cell _ => each cell]
  simp [env.every_cell]

def fieldsOf (cell : C) : Edge A C → Bool
  | .field layer _ c => c = cell ∧ layer ∈ [.NEW_LOCATION, .MOVE, .PERCEIVE]
  | .perception _ _ => false

theorem cellBehaviors_separate : Separate env.cellBehaviors fieldsOf where
  reads := by
    intro cell flags edges edges' same
    have arrived := inNeighbors_congr _ .NEW_LOCATION cell
      (by simp [fieldsOf]) same
    have moved := inNeighbors_congr _ .MOVE cell (by simp [fieldsOf]) same
    have perceived := inNeighbors_congr _ .PERCEIVE cell (by simp [fieldsOf]) same
    simp [cellBehaviors_eq, cellFlags, cellCalls, newLocationCalls, fieldCalls, Kind.layer, arrived,
      moved, perceived]
  apart := by
    intro cell other flags edges result apart ran call made
    obtain rfl := Option.some.inj ((env.cellBehaviors_eq).symm.trans ran)
    rcases env.mem_cellCalls.mp made with ⟨agent, -, rfl | rfl⟩ | ⟨kind, agent, -, c, -, rfl⟩
    next => simp [Call.edge, fieldsOf]
    next => simp [Call.edge, fieldsOf, apart.symm]
    next => cases kind <;> simp [Call.edge, fieldsOf, Kind.fresh]

-- What the cells do in a round.
structure Grows (w w' : World A C) : Prop where
  located : ∀ agent cell, w'.edges.count (.field .LOCATION agent cell) =
    w.edges.count (.field .LOCATION agent cell) + w.edges.count (.field .NEW_LOCATION agent cell)
  arrived : ∀ agent cell, .field .NEW_LOCATION agent cell ∉ w'.edges
  kept : ∀ (kind : Kind) agent cell, w'.edges.count (.field kind.layer agent cell) =
    w.edges.count (.field kind.layer agent cell)
  perceptions : ∀ agent perceived, w'.edges.count (.perception agent perceived) =
    w.edges.count (.perception agent perceived)
  grown : ∀ (kind : Kind) agent cell, .field kind.fresh agent cell ∈ w'.edges ↔
    .field kind.fresh agent cell ∈ w.edges ∨
      ∃ origin, cell ∈ env.successors origin ∧ Explores origin (w.flags origin) w.edges kind agent
  flagged : ∀ (kind : Kind) agent cell, agent ∈ kind.flags (w'.flags cell) ↔
    agent ∈ kind.flags (w.flags cell) ∨ .field .NEW_LOCATION agent cell ∈ w.edges ∨
      .field kind.layer agent cell ∈ w.edges
  locationId : w'.locationId = w.locationId

theorem count_growField (kind : Kind) (cell : C) (agent : A) {call : Call (Edge A C)}
    (other : ∀ c, call ≠ .link (.field kind.fresh agent c)) :
    (env.growField cell kind agent).count call = 0 := by
  refine List.count_eq_zero.mpr fun made => ?_
  obtain ⟨c, -, same⟩ := env.mem_growField.mp made
  exact other c same

theorem count_fieldCalls (kind : Kind) (cell : C) (flags : CellFlags A) (edges : List (Edge A C))
    {call : Call (Edge A C)} (other : ∀ agent c, call ≠ .link (.field kind.fresh agent c)) :
    (env.fieldCalls cell flags edges kind).count call = 0 := by
  refine List.count_eq_zero.mpr fun made => ?_
  obtain ⟨agent, -, -, -, c, -, same⟩ := env.mem_fieldCalls.mp made
  exact other agent c same

theorem count_location_cellCalls (cell : C) (flags : CellFlags A) (edges : List (Edge A C))
    (agent : A) :
    (env.cellCalls cell flags edges).count (.link (.field .LOCATION agent cell)) =
      edges.count (.field .NEW_LOCATION agent cell) := by
  have other : ∀ (kind : Kind) (a : A) (c : C), Call.link (Edge.field .LOCATION agent cell) ≠
      .link (.field kind.fresh a c) := by
    simp
  unfold cellCalls newLocationCalls
  rw [List.count_append, List.count_append, env.count_fieldCalls _ _ _ _ (other .mobility),
    env.count_fieldCalls _ _ _ _ (other .perception), ← count_inNeighbors]
  refine (count_flatMap (k := 1) (fun a => ?_) _).trans (Nat.mul_one _)
  have grown : ∀ kind, (env.growField cell kind a).count (.link (.field .LOCATION agent cell)) = 0 :=
    fun kind => env.count_growField kind cell a (by simp)
  simp [updateLocation, growMobilityField, growPerceptionField, grown, List.count_cons]

theorem count_newLocation_cellCalls (cell : C) (flags : CellFlags A) (edges : List (Edge A C))
    (agent : A) :
    (env.cellCalls cell flags edges).count (.unlink (.field .NEW_LOCATION agent cell)) =
      edges.count (.field .NEW_LOCATION agent cell) := by
  have other : ∀ (kind : Kind) (a : A) (c : C), Call.unlink (Edge.field .NEW_LOCATION agent cell) ≠
      .link (.field kind.fresh a c) := by
    simp
  unfold cellCalls newLocationCalls
  rw [List.count_append, List.count_append, env.count_fieldCalls _ _ _ _ (other .mobility),
    env.count_fieldCalls _ _ _ _ (other .perception), ← count_inNeighbors]
  refine (count_flatMap (k := 1) (fun a => ?_) _).trans (Nat.mul_one _)
  have grown : ∀ kind,
      (env.growField cell kind a).count (.unlink (.field .NEW_LOCATION agent cell)) = 0 :=
    fun kind => env.count_growField kind cell a (by simp)
  simp [updateLocation, growMobilityField, growPerceptionField, grown, List.count_cons]

theorem mem_cellFlags {kind : Kind} {cell : C} {flags : CellFlags A} {edges : List (Edge A C)}
    {agent : A} :
    agent ∈ kind.flags (cellFlags cell flags edges) ↔ agent ∈ kind.flags flags ∨
      .field .NEW_LOCATION agent cell ∈ edges ∨ .field kind.layer agent cell ∈ edges := by
  cases kind <;> simp [Kind.flags, cellFlags, Kind.layer]

theorem cellBehaviors_phase (w : World A C) :
    ∃ w', env.cellPhase env.cellBehaviors w = some w' ∧ env.Grows w w' := by
  refine ⟨_, env.cellPhase_eq env.cellBehaviors_separate w _ fun cell => env.cellBehaviors_eq, ?_⟩
  have made : ∀ {call}, call ∈ (env.cells.flatMap fun cell =>
      env.cellCalls cell (w.flags cell) w.edges) ↔
      ∃ cell, call ∈ env.cellCalls cell (w.flags cell) w.edges := by
    simp [List.mem_flatMap, env.every_cell]
  -- Only a cell links or unlinks its own occupants.
  have own : ∀ layer agent cell, layer = .LOCATION ∨ layer = .NEW_LOCATION → ∀ c ∈ env.cells,
      c ≠ cell → ∀ call ∈ env.cellCalls c (w.flags c) w.edges,
        call.edge ≠ .field layer agent cell := by
    intro layer agent cell occupied c _ apart call mine
    rcases env.mem_cellCalls.mp mine with ⟨a, -, rfl | rfl⟩ | ⟨kind, a, -, c', -, rfl⟩
    next => simp [Call.edge, apart]
    next => simp [Call.edge, apart]
    next => rcases occupied with rfl | rfl <;> simp [Call.edge]
  constructor
  case located =>
    intro agent cell
    rw [Call.count_of_owner _ env.cells_once (env.every_cell cell)
        (own .LOCATION agent cell (.inl rfl)),
      Call.count_of_linked, count_location_cellCalls]
    intro unlinked
    rcases env.mem_cellCalls.mp unlinked with ⟨a, -, same | same⟩ | ⟨kind, a, -, c', -, same⟩
    all_goals simp at same
  case arrived =>
    intro agent cell
    rw [← List.count_eq_zero, Call.count_of_owner _ env.cells_once
        (env.every_cell cell) (own .NEW_LOCATION agent cell (.inr rfl)),
      Call.count_of_unlinked, count_newLocation_cellCalls, Nat.sub_self]
    intro linked
    rcases env.mem_cellCalls.mp linked with ⟨a, -, same | same⟩ | ⟨kind, a, -, c', -, same⟩
    all_goals simp at same
  case kept =>
    intro kind agent cell
    refine Call.count_untouched _ fun call member => ?_
    obtain ⟨c, mine⟩ := made.mp member
    rcases env.mem_cellCalls.mp mine with ⟨a, -, rfl | rfl⟩ | ⟨kind, a, -, c', -, rfl⟩
    all_goals simp [Call.edge]
  case perceptions =>
    intro agent perceived
    refine Call.count_untouched _ fun call member => ?_
    obtain ⟨c, mine⟩ := made.mp member
    rcases env.mem_cellCalls.mp mine with ⟨a, -, rfl | rfl⟩ | ⟨kind, a, -, c', -, rfl⟩
    all_goals simp [Call.edge]
  case grown =>
    intro kind agent cell
    have kept : Call.unlink (Edge.field kind.fresh agent cell) ∉ env.cells.flatMap fun cell =>
        env.cellCalls cell (w.flags cell) w.edges := by
      intro member
      obtain ⟨c, mine⟩ := made.mp member
      rcases env.mem_cellCalls.mp mine with ⟨a, -, same | same⟩ | ⟨kind, a, -, c', -, same⟩
      all_goals simp at same
    have linked : Call.link (Edge.field kind.fresh agent cell) ∈ (env.cells.flatMap fun cell =>
          env.cellCalls cell (w.flags cell) w.edges) ↔
        ∃ origin, cell ∈ env.successors origin ∧
          Explores origin (w.flags origin) w.edges kind agent := by
      rw [made]
      refine exists_congr fun origin => ?_
      rw [env.mem_cellCalls]
      constructor
      next =>
        rintro (⟨a, -, same | same⟩ | ⟨k, a, explored, c, next, same⟩)
        next => simp at same
        next => simp at same
        next =>
          obtain ⟨rfl, rfl, rfl⟩ : kind = k ∧ agent = a ∧ cell = c := by simpa using same
          exact ⟨next, explored⟩
      next => exact fun both => .inr ⟨kind, agent, both.2, cell, both.1, rfl⟩
    rw [← linked, ← List.count_pos_iff, Call.count_of_linked _ kept, ← List.count_pos_iff,
      ← List.count_pos_iff]
    omega
  case flagged => exact fun kind agent cell => mem_cellFlags
  case locationId => rfl

end Environment

end Fpmas.Model.Spatial
