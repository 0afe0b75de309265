import Fpmas.Model.Spatial.GridNetwork

set_option autoImplicit false

namespace Fpmas.Model.Spatial

variable {n : Nat} {cut : Cut} {count extent : Int}

variable (cut count extent) in
structure InGrid (point : DiscretePoint) : Prop where
  along : 0 ≤ cut.along point ∧ cut.along point < count
  across : 0 ≤ cut.across point ∧ cut.across point < extent

variable (cut count extent) in
def part (p : Fin n) : Rectangle := cut.rectangle extent (strip count p)

variable (cut count extent) in
def processPairs (p : Fin n) (sources : List (Fin n)) : List Pair :=
  (part cut count extent p).localPairs ++ sources.flatMap (frontierPairs cut count extent p)

section Parts

variable (enough : (n : Int) ≤ count)

include enough

theorem strip_unique {p q : Fin n} {along : Int}
    (here : (strip count p).first ≤ along ∧ along ≤ (strip count p).last)
    (there : (strip count q).first ≤ along ∧ along ≤ (strip count q).last) : p = q := by
  by_contra apart
  rcases lt_or_gt_of_ne apart with before | after
  next =>
    have := strip_apart enough before
    omega
  next =>
    have := strip_apart enough after
    omega

theorem part_unique {p q : Fin n} {point : DiscretePoint} (here : (part cut count extent p).Has point)
    (there : (part cut count extent q).Has point) : p = q :=
  strip_unique enough (Cut.has_rectangle.mp here).1 (Cut.has_rectangle.mp there).1

theorem inGrid_of_part {p : Fin n} {point : DiscretePoint} (has : (part cut count extent p).Has point) :
    InGrid cut count extent point := by
  obtain ⟨along, across⟩ := Cut.has_rectangle.mp has
  have bounds := strip_le enough p
  exact ⟨by omega, by omega⟩

theorem part_of_inGrid (some_ : 0 < n) {point : DiscretePoint} (inside : InGrid cut count extent point) :
    ∃ p : Fin n, (part cut count extent p).Has point := by
  obtain ⟨p, along⟩ := strip_cover enough some_ inside.along
  have across := inside.across
  exact ⟨p, Cut.has_rectangle.mpr ⟨along, by omega⟩⟩

variable {p : Fin n} {sources : List (Fin n)}
  (neighbors : ∀ q, q ∈ sources ↔ q.val + 1 = p.val ∨ p.val + 1 = q.val)

include neighbors

theorem frontierPairs_leave {q : Fin n} (source : q ∈ sources) {pair : Pair}
    (member : pair ∈ frontierPairs cut count extent p q) :
    (part cut count extent p).Has pair.1 ∧ (part cut count extent q).Has pair.2 ∧
      Adjacent pair.1 pair.2 := by
  have here := strip_le enough p
  have there := strip_le enough q
  obtain ⟨inside, same, ends⟩ := (mem_frontierPairs cut count).mp member
  rw [cut.adjacent_iff]
  unfold part
  rw [Cut.has_rectangle, Cut.has_rectangle]
  rcases (neighbors q).mp source with before | after
  next =>
    have touch := strip_next count before
    rw [if_pos (Fin.lt_def.mpr (by omega))] at ends
    exact ⟨⟨by omega, inside⟩, ⟨by omega, by omega⟩, by omega⟩
  next =>
    have touch := strip_next count after
    rw [if_neg fun before => absurd (Fin.lt_def.mp before) (by omega)] at ends
    exact ⟨⟨by omega, inside⟩, ⟨by omega, by omega⟩, by omega⟩

theorem frontierPairs_of_leave {q : Fin n} (other : q ≠ p) {pair : Pair}
    (here : (part cut count extent p).Has pair.1) (there : (part cut count extent q).Has pair.2)
    (adjacent : Adjacent pair.1 pair.2) :
    q ∈ sources ∧ pair ∈ frontierPairs cut count extent p q := by
  unfold part at here there
  rw [Cut.has_rectangle] at here there
  rw [cut.adjacent_iff] at adjacent
  have leaves : ¬((strip count p).first ≤ cut.along pair.2 ∧ cut.along pair.2 ≤ (strip count p).last) :=
    fun stays => other (strip_unique enough there.1 stays)
  rw [neighbors, mem_frontierPairs cut count]
  rcases lt_or_gt_of_ne other with before | after
  next =>
    have apart := strip_apart enough before
    have follows : q.val + 1 = p.val := by
      obtain ⟨next, value⟩ : ∃ next : Fin n, q.val + 1 = next.val := ⟨⟨q.val + 1, by omega⟩, rfl⟩
      have touch := strip_next count value
      have bounds := strip_le enough next
      have same : next = p :=
        strip_unique enough ⟨le_refl (strip count next).first, by omega⟩ (by omega)
      rw [value, same]
    refine ⟨.inl follows, here.2, by omega, ?_⟩
    rw [if_pos before]
    omega
  next =>
    have apart := strip_apart enough after
    have follows : p.val + 1 = q.val := by
      obtain ⟨next, value⟩ : ∃ next : Fin n, p.val + 1 = next.val := ⟨⟨p.val + 1, by omega⟩, rfl⟩
      have touch := strip_next count value
      have bounds := strip_le enough next
      have same : next = q :=
        strip_unique enough ⟨le_refl (strip count next).first, by omega⟩ (by omega)
      rw [value, same]
    refine ⟨.inr follows, here.2, by omega, ?_⟩
    rw [if_neg (lt_asymm after)]
    omega

theorem mem_processPairs {pair : Pair} : pair ∈ processPairs cut count extent p sources ↔
    (part cut count extent p).Has pair.1 ∧ InGrid cut count extent pair.2 ∧ Adjacent pair.1 pair.2 := by
  rw [processPairs, List.mem_append, Rectangle.mem_localPairs, List.mem_flatMap]
  constructor
  next =>
    rintro (⟨here, there, adjacent⟩ | ⟨q, source, member⟩)
    next => exact ⟨here, inGrid_of_part enough there, adjacent⟩
    next =>
      obtain ⟨here, there, adjacent⟩ := frontierPairs_leave enough neighbors source member
      exact ⟨here, inGrid_of_part enough there, adjacent⟩
  next =>
    rintro ⟨here, inside, adjacent⟩
    obtain ⟨q, there⟩ := part_of_inGrid enough p.pos inside
    by_cases same : q = p
    next => exact .inl ⟨here, same ▸ there, adjacent⟩
    next => exact .inr ⟨q, frontierPairs_of_leave enough neighbors same here there adjacent⟩

theorem nodup_processPairs (once : sources.Nodup) : (processPairs cut count extent p sources).Nodup := by
  refine List.nodup_append.mpr ⟨Rectangle.nodup_localPairs,
    List.nodup_flatMap.mpr ⟨fun q _ => nodup_frontierPairs, ?_⟩, ?_⟩
  next =>
    refine List.Pairwise.imp_of_mem (fun {q q'} source source' apart pair first second => ?_) once
    obtain ⟨_, there, _⟩ := frontierPairs_leave enough neighbors source first
    obtain ⟨_, there', _⟩ := frontierPairs_leave enough neighbors source' second
    exact apart (part_unique enough there there')
  next =>
    rintro pair inside pair' outside rfl
    obtain ⟨q, source, member⟩ := List.mem_flatMap.mp outside
    obtain ⟨_, there, _⟩ := frontierPairs_leave enough neighbors source member
    have same := part_unique enough (Rectangle.mem_localPairs.mp inside).2.1 there
    have := (neighbors q).mp source
    rw [same] at this
    omega

end Parts

def builtCells (grids : Fin n → BuiltGrid n) : List (GridCell n) :=
  (List.finRange n).flatMap fun p => (grids p).cells

def successors (grids : Fin n → BuiltGrid n) : List (Successor n) :=
  (List.finRange n).flatMap fun p => (grids p).successors

/-- Each cell of the grid is built once, and linked once to each of the cells at distance 1. -/
structure VonNeumann (width height : Int) (grids : Fin n → BuiltGrid n) : Prop where
  once : ((builtCells grids).map GridCell.location).Nodup
  covers : ∀ point, point ∈ (builtCells grids).map GridCell.location ↔
    (0 ≤ point.x ∧ point.x < width) ∧ 0 ≤ point.y ∧ point.y < height
  nodes : ((builtCells grids).map GridCell.id).Nodup
  linked : ∀ source ∈ builtCells grids, ∀ target ∈ builtCells grids,
    (successors grids).count { source := source.id, target := target.id } =
      if ManhattanDistance source.location target.location = 1 then 1 else 0
  ends : ∀ s ∈ successors grids, ∃ source ∈ builtCells grids, ∃ target ∈ builtCells grids,
    s = { source := source.id, target := target.id }
  -- The temporary cells are like the ones that they stand for.
  distant : ∀ p, ∀ cell ∈ (grids p).distant, cell ∈ builtCells grids

section Cells

variable (cut count extent) in
def ownCells (groupIds : List GroupId) (nodeId : Fin n → Nat) (p : Fin n) : List (GridCell n) :=
  addCells p groupIds (nodeId p) (part cut count extent p).points

variable {groupIds : List GroupId} {nodeId : Fin n → Nat} (enough : (n : Int) ≤ count)

theorem mem_ownCells {p : Fin n} {cell : GridCell n}
    (member : cell ∈ ownCells cut count extent groupIds nodeId p) :
    cell.id.rank = p ∧ (part cut count extent p).Has cell.location := by
  refine ⟨(mem_addCells member).1, Rectangle.mem_points.mp ?_⟩
  have location := List.mem_map_of_mem (f := GridCell.location) member
  rwa [ownCells, map_location_addCells] at location

theorem nodup_ids : (((List.finRange n).flatMap (ownCells cut count extent groupIds nodeId)).map
    GridCell.id).Nodup := by
  rw [List.map_flatMap]
  refine List.nodup_flatMap.mpr ⟨fun p _ => nodup_addCells _ _,
    (List.nodup_finRange n).imp fun apart id first second => ?_⟩
  obtain ⟨cell, member, rfl⟩ := List.mem_map.mp first
  obtain ⟨cell', member', same⟩ := List.mem_map.mp second
  rw [← (mem_ownCells member).1, ← (mem_ownCells member').1, same] at apart
  exact apart rfl

include enough

theorem nodup_locations : (((List.finRange n).flatMap
    (ownCells cut count extent groupIds nodeId)).map GridCell.location).Nodup := by
  rw [List.map_flatMap]
  refine List.nodup_flatMap.mpr ⟨fun p _ => ?_,
    (List.nodup_finRange n).imp fun apart point first second => ?_⟩
  next =>
    rw [ownCells, map_location_addCells]
    exact Rectangle.nodup_points
  next =>
    obtain ⟨cell, member, rfl⟩ := List.mem_map.mp first
    obtain ⟨cell', member', same⟩ := List.mem_map.mp second
    exact apart (part_unique enough (mem_ownCells member).2 (same ▸ (mem_ownCells member').2))

theorem mem_locations (some_ : 0 < n) {point : DiscretePoint} :
    point ∈ ((List.finRange n).flatMap (ownCells cut count extent groupIds nodeId)).map
      GridCell.location ↔ InGrid cut count extent point := by
  simp only [List.mem_map, List.mem_flatMap, List.mem_finRange, true_and]
  constructor
  next =>
    rintro ⟨cell, ⟨p, member⟩, rfl⟩
    exact inGrid_of_part enough (mem_ownCells member).2
  next =>
    intro inside
    obtain ⟨p, has⟩ := part_of_inGrid enough some_ inside
    have listed := Rectangle.mem_points.mpr has
    rw [← @map_location_addCells n p groupIds (nodeId p) (part cut count extent p).points] at listed
    obtain ⟨cell, member, location⟩ := List.mem_map.mp listed
    exact ⟨cell, ⟨p, member⟩, location⟩

end Cells

theorem exists_place {cells : List (GridCell n)} (once : (cells.map GridCell.location).Nodup)
    (some_ : 0 < n) : ∃ place : DiscretePoint → GridCell n, ∀ cell ∈ cells, place cell.location = cell := by
  let other : GridCell n :=
    { id := { rank := ⟨0, some_⟩, id := 0 }
      location := { x := 0, y := 0 }
      groupIds := [] }
  refine ⟨fun point => (cells.find? fun cell => cell.location = point).getD other, fun cell member => ?_⟩
  dsimp only
  cases found : cells.find? fun c => c.location = cell.location with
  | none => exact absurd (List.find?_eq_none.mp found cell member) (by simp)
  | some first =>
    have same : first.location = cell.location := by simpa using List.find?_some found
    exact List.inj_on_of_nodup_map once (List.mem_of_find?_eq_some found) member same

-- What each process has built, in terms of the points of the grid.
structure Built (cut : Cut) (count extent : Int) (groupIds : List GroupId) (nodeId : Fin n → Nat)
    (place : DiscretePoint → GridCell n) (p : Fin n) (grid : BuiltGrid n) (sources : List (Fin n)) :
    Prop where
  cells : grid.cells = ownCells cut count extent groupIds nodeId p
  successors : grid.successors = (processPairs cut count extent p sources).map (edge place)
  distant : ∀ cell ∈ grid.distant, ∃ point, InGrid cut count extent point ∧ cell = place point
  once : sources.Nodup
  neighbors : ∀ q, q ∈ sources ↔ q.val + 1 = p.val ∨ p.val + 1 = q.val

theorem place_of_part {groupIds : List GroupId} {nodeId : Fin n → Nat} {p : Fin n}
    {place : DiscretePoint → GridCell n}
    (places : ∀ cell ∈ ownCells cut count extent groupIds nodeId p, place cell.location = cell)
    {point : DiscretePoint} (has : (part cut count extent p).Has point) :
    place point ∈ ownCells cut count extent groupIds nodeId p ∧ (place point).location = point := by
  have listed := Rectangle.mem_points.mpr has
  rw [← @map_location_addCells n p groupIds (nodeId p) (part cut count extent p).points] at listed
  obtain ⟨cell, member, rfl⟩ := List.mem_map.mp listed
  rw [places cell member]
  exact ⟨member, rfl⟩

theorem buildStrips_built (enough : (n : Int) ≤ count) (order : HashOrder)
    (groupIds : List GroupId) (nodeId : Fin n → Nat) {place : DiscretePoint → GridCell n}
    (places : ∀ p, ∀ cell ∈ ownCells cut count extent groupIds nodeId p, place cell.location = cell) :
    ∃ grids, buildStrips cut count extent order groupIds nodeId = some grids ∧
      ∀ p, ∃ sources, Built cut count extent groupIds nodeId place p (grids p) sources := by
  obtain ⟨grids, built, shown⟩ := collect_some fun p => buildStrip_eq (places p)
  obtain ⟨frontiers, sent, exported⟩ := collect_some fun p =>
    (shown p).1.exportFrontiers (strip_le enough p).2.1
  have received : ∀ p q, (migrate frontiers p).lookup q =
      if q.val + 1 = p.val then some (packsAt cut extent place (strip count q).last)
      else if p.val + 1 = q.val then some (packsAt cut extent place (strip count q).first)
      else none := by
    intro p q
    rw [lookup_migrate, exported]
  have neighbors : ∀ p q, q ∈ ((migrate frontiers p).toList order).map Prod.fst ↔
      q.val + 1 = p.val ∨ p.val + 1 = q.val := by
    intro p q
    simp only [List.mem_map, Prod.exists, exists_and_right, exists_eq_right,
      UnorderedMap.mem_toList, received]
    split
    next before => simp [before]
    next apart =>
      split
      next after => simp [after]
      next apart' => simp [apart, apart']
  have linked : ∀ p, ∀ frontier ∈ (migrate frontiers p).toList order,
      linkFrontier cut count extent p (grids p).cells frontier.1 frontier.2 =
        some ((frontierPairs cut count extent p frontier.1).map fun pair =>
          (place pair.2, edge place pair)) := by
    rintro p ⟨q, packs⟩ member
    have source := (neighbors p q).mp (List.mem_map_of_mem member)
    rw [UnorderedMap.mem_toList, received] at member
    have sent : packs = packsAt cut extent place
        (if q < p then (strip count p).first - 1 else (strip count p).last + 1) := by
      rcases source with before | after
      next =>
        rw [if_pos before] at member
        rw [if_pos (Fin.lt_def.mpr (by omega)), ← strip_next count before, Int.add_sub_cancel]
        exact (Option.some.inj member).symm
      next =>
        rw [if_neg (by omega), if_pos after] at member
        rw [if_neg fun before => absurd (Fin.lt_def.mp before) (by omega), strip_next count after]
        exact (Option.some.inj member).symm
    rw [sent]
    refine (shown p).1.linkFrontier (strip_le enough p).2.1 fun pair crossing => ?_
    have there := (frontierPairs_leave enough (neighbors p) ((neighbors p q).mpr source) crossing).2.1
    exact (place_of_part (places q) there).2
  let links : Fin n → List (GridCell n × Successor n) := fun p =>
    (((migrate frontiers p).toList order).map fun frontier =>
      (frontierPairs cut count extent p frontier.1).map fun pair => (place pair.2, edge place pair)).flatten
  refine ⟨fun p =>
    { cells := (grids p).cells.flatten
      distant := (links p).map Prod.fst
      successors := (grids p).successors ++ (links p).map Prod.snd }, ?_,
    fun p => ⟨((migrate frontiers p).toList order).map Prod.fst, ?_⟩⟩
  case refine_1 =>
    unfold buildStrips
    rw [built, Option.bind_some, sent, Option.bind_some]
    refine collect_eq_some.mpr fun p => ?_
    rw [List.mapM_each (linked p)]
    rfl
  constructor
  case cells => exact (shown p).2.1
  case successors =>
    rw [processPairs, List.map_append]
    refine congrArg₂ (· ++ ·) (shown p).2.2 ?_
    simp [links, List.flatMap_def, List.map_flatten, Function.comp_def]
  case distant =>
    intro cell member
    simp only [links, List.mem_map, List.mem_flatten] at member
    obtain ⟨_, ⟨_, ⟨frontier, listed, rfl⟩, inside⟩, rfl⟩ := member
    obtain ⟨pair, crossing, rfl⟩ := List.mem_map.mp inside
    have there := (frontierPairs_leave enough (neighbors p) (List.mem_map_of_mem listed) crossing).2.1
    exact ⟨pair.2, inGrid_of_part enough there, rfl⟩
  case once => exact UnorderedMap.nodup_toList order _
  case neighbors => exact neighbors p

theorem buildStrips_vonNeumann (enough : (n : Int) ≤ count) (some_ : 0 < n) (order : HashOrder)
    (groupIds : List GroupId) (nodeId : Fin n → Nat) {width height : Int}
    (dimensions : ∀ point, InGrid cut count extent point ↔
      (0 ≤ point.x ∧ point.x < width) ∧ 0 ≤ point.y ∧ point.y < height) :
    ∃ grids, buildStrips cut count extent order groupIds nodeId = some grids ∧
      VonNeumann width height grids := by
  let cells := (List.finRange n).flatMap (ownCells cut count extent groupIds nodeId)
  have once : (cells.map GridCell.location).Nodup := nodup_locations enough
  have nodes : (cells.map GridCell.id).Nodup := nodup_ids
  obtain ⟨place, places⟩ := exists_place once some_
  have mem_cells : ∀ cell, cell ∈ cells ↔ ∃ p, cell ∈ ownCells cut count extent groupIds nodeId p := by
    simp [cells]
  have owned : ∀ p, ∀ cell ∈ ownCells cut count extent groupIds nodeId p, place cell.location = cell :=
    fun p cell member => places cell ((mem_cells cell).mpr ⟨p, member⟩)
  have placed : ∀ point, InGrid cut count extent point →
      place point ∈ cells ∧ (place point).location = point := by
    intro point inside
    obtain ⟨p, has⟩ := part_of_inGrid enough some_ inside
    obtain ⟨member, location⟩ := place_of_part (owned p) has
    exact ⟨(mem_cells _).mpr ⟨p, member⟩, location⟩
  have inside : ∀ cell ∈ cells, InGrid cut count extent cell.location := by
    intro cell member
    obtain ⟨p, own⟩ := (mem_cells cell).mp member
    exact inGrid_of_part enough (mem_ownCells own).2
  obtain ⟨grids, done, built⟩ := buildStrips_built enough order groupIds nodeId owned
  choose sources built using built
  let pairs := (List.finRange n).flatMap fun p => processPairs cut count extent p (sources p)
  have mem_pairs : ∀ pair, pair ∈ pairs ↔ InGrid cut count extent pair.1 ∧
      InGrid cut count extent pair.2 ∧ Adjacent pair.1 pair.2 := by
    intro pair
    simp only [pairs, List.mem_flatMap, List.mem_finRange, true_and]
    constructor
    next =>
      rintro ⟨p, member⟩
      obtain ⟨here, there, adjacent⟩ := (mem_processPairs enough (built p).neighbors).mp member
      exact ⟨inGrid_of_part enough here, there, adjacent⟩
    next =>
      rintro ⟨here, there, adjacent⟩
      obtain ⟨p, has⟩ := part_of_inGrid enough some_ here
      exact ⟨p, (mem_processPairs enough (built p).neighbors).mpr ⟨has, there, adjacent⟩⟩
  have nodup_pairs : pairs.Nodup := by
    refine List.nodup_flatMap.mpr ⟨fun p _ => nodup_processPairs enough (built p).neighbors (built p).once,
      (List.nodup_finRange n).imp fun {p q} apart pair first second => ?_⟩
    exact apart (part_unique enough ((mem_processPairs enough (built p).neighbors).mp first).1
      ((mem_processPairs enough (built q).neighbors).mp second).1)
  have allCells : builtCells grids = cells := by
    simp only [builtCells, cells, (built _).cells]
  have allSuccessors : successors grids = pairs.map (edge place) := by
    simp only [successors, pairs, (built _).successors, List.map_flatMap]
  -- The ids tell the cells, and so the points.
  have point_of_id : ∀ point point', InGrid cut count extent point → InGrid cut count extent point' →
      (place point).id = (place point').id → point = point' := by
    intro point point' here there same
    rw [← (placed point here).2, ← (placed point' there).2,
      List.inj_on_of_nodup_map nodes (placed point here).1 (placed point' there).1 same]
  refine ⟨grids, done, ?_⟩
  constructor
  case once =>
    rw [allCells]
    exact once
  case covers =>
    intro point
    rw [allCells, mem_locations enough some_, dimensions]
  case nodes =>
    rw [allCells]
    exact nodes
  case linked =>
    rw [allCells, allSuccessors]
    intro source here target there
    have edges_once : (pairs.map (edge place)).Nodup := by
      refine nodup_pairs.map_on fun pair member pair' member' same => ?_
      obtain ⟨first, second, _⟩ := (mem_pairs pair).mp member
      obtain ⟨first', second', _⟩ := (mem_pairs pair').mp member'
      exact Prod.ext (point_of_id _ _ first first' (congrArg Successor.source same))
        (point_of_id _ _ second second' (congrArg Successor.target same))
    rw [edges_once.count]
    congr 1
    rw [eq_iff_iff, List.mem_map]
    constructor
    next =>
      rintro ⟨pair, member, same⟩
      obtain ⟨first, second, adjacent⟩ := (mem_pairs pair).mp member
      have source_ := List.inj_on_of_nodup_map nodes (placed _ first).1 here (congrArg Successor.source same)
      have target_ := List.inj_on_of_nodup_map nodes (placed _ second).1 there
        (congrArg Successor.target same)
      rw [← source_, ← target_, (placed _ first).2, (placed _ second).2]
      exact adjacent
    next =>
      intro adjacent
      refine ⟨(source.location, target.location),
        (mem_pairs _).mpr ⟨inside source here, inside target there, adjacent⟩, ?_⟩
      rw [edge, places source here, places target there]
  case ends =>
    rw [allCells, allSuccessors]
    intro s member
    obtain ⟨pair, crossing, rfl⟩ := List.mem_map.mp member
    obtain ⟨first, second, _⟩ := (mem_pairs pair).mp crossing
    exact ⟨_, (placed _ first).1, _, (placed _ second).1, rfl⟩
  case distant =>
    rw [allCells]
    intro p cell member
    obtain ⟨point, here, rfl⟩ := (built p).distant cell member
    exact (placed point here).1

theorem buildGrid_vonNeumann {width height : Int} (some_ : 0 < n) (columns : 1 ≤ width)
    (rows : 1 ≤ height) (enough : (n : Int) ≤ max width height) (order : HashOrder)
    (groupIds : List GroupId) (nodeId : Fin n → Nat) :
    ∃ grids, buildGrid width height order groupIds nodeId = some grids ∧
      VonNeumann width height grids := by
  unfold buildGrid
  rw [if_pos (Int.mul_pos (by omega) (by omega))]
  by_cases wide : width ≥ height
  next =>
    rw [if_pos wide]
    exact buildStrips_vonNeumann (by omega) some_ order groupIds nodeId fun point =>
      ⟨fun inside => ⟨inside.along, inside.across⟩, fun inside => ⟨inside.1, inside.2⟩⟩
  next =>
    rw [if_neg wide]
    exact buildStrips_vonNeumann (by omega) some_ order groupIds nodeId fun point =>
      ⟨fun inside => ⟨inside.across, inside.along⟩, fun inside => ⟨inside.2, inside.1⟩⟩

theorem buildGrid_vonNeumann_five_by_three :
    ∃ grids : Fin 2 → BuiltGrid 2, buildGrid 5 3 .insertion [0] (fun _ => 0) = some grids ∧
      VonNeumann 5 3 grids :=
  buildGrid_vonNeumann (by decide) (by decide) (by decide) (by decide) .insertion [0] fun _ => 0

end Fpmas.Model.Spatial
