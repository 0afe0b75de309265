import Fpmas.Model.Spatial.VonNeumannGrid

set_option autoImplicit false

namespace Fpmas.Model.Spatial

variable {n : Nat}

section Interval

variable {first last : Int}

@[simp]
theorem mem_fromTo {v : Int} : v ∈ fromTo first last ↔ first ≤ v ∧ v ≤ last := by
  simp only [fromTo, List.mem_map, List.mem_range]
  constructor
  next =>
    rintro ⟨i, below, rfl⟩
    omega
  next =>
    rintro ⟨least, greatest⟩
    exact ⟨(v - first).toNat, by omega, by omega⟩

theorem nodup_fromTo : (fromTo first last).Nodup :=
  List.nodup_range.map fun i j (same : first + (i : Int) = first + (j : Int)) => by omega

theorem getElem?_fromTo {i : Int} (least : 0 ≤ i) (greatest : i ≤ last - first) :
    (fromTo first last)[i.toNat]? = some (first + i) := by
  rw [fromTo, List.getElem?_map, List.getElem?_range (by omega)]
  simp [Int.toNat_of_nonneg least]

end Interval

section Cells

variable {rank : Fin n} {groupIds : List GroupId} {min_x max_x : Int}

theorem addCells_append (nodeId : Nat) (points rest : List DiscretePoint) :
    addCells rank groupIds nodeId (points ++ rest) =
      addCells rank groupIds nodeId points ++ addCells rank groupIds (nodeId + points.length) rest := by
  induction points generalizing nodeId with
  | nil => rfl
  | cons point points ih =>
    rw [List.cons_append, addCells, ih, addCells, List.cons_append, List.length_cons]
    congr 3
    omega

theorem map_location_addCells (nodeId : Nat) (points : List DiscretePoint) :
    (addCells rank groupIds nodeId points).map GridCell.location = points := by
  induction points generalizing nodeId with
  | nil => rfl
  | cons point points ih => rw [addCells, List.map_cons, ih]

theorem mem_addCells {nodeId : Nat} {points : List DiscretePoint} {cell : GridCell n}
    (member : cell ∈ addCells rank groupIds nodeId points) :
    cell.id.rank = rank ∧ nodeId ≤ cell.id.id ∧ cell.groupIds = groupIds := by
  induction points generalizing nodeId with
  | nil => cases member
  | cons point points ih =>
    rcases List.mem_cons.mp member with rfl | later
    next => exact ⟨rfl, le_rfl, rfl⟩
    next =>
      obtain ⟨same, after, groups⟩ := ih later
      exact ⟨same, by omega, groups⟩

theorem nodup_addCells (nodeId : Nat) (points : List DiscretePoint) :
    ((addCells rank groupIds nodeId points).map GridCell.id).Nodup := by
  induction points generalizing nodeId with
  | nil => exact List.nodup_nil
  | cons point points ih =>
    rw [addCells, List.map_cons, List.nodup_cons]
    refine ⟨fun again => ?_, ih _⟩
    obtain ⟨cell, member, same⟩ := List.mem_map.mp again
    have after := (mem_addCells member).2.1
    rw [same] at after
    exact absurd after (Nat.not_succ_le_self nodeId)

theorem flatten_addRows (nodeId : Nat) (ys : List Int) :
    (addRows rank groupIds min_x max_x nodeId ys).flatten =
      addCells rank groupIds nodeId (ys.flatMap fun y => (fromTo min_x max_x).map fun x => { x, y }) := by
  induction ys generalizing nodeId with
  | nil => rfl
  | cons y ys ih =>
    have length : ∀ points : List DiscretePoint,
        (addCells rank groupIds nodeId points).length = points.length := by
      intro points
      have same := congrArg List.length (@map_location_addCells n rank groupIds nodeId points)
      rwa [List.length_map] at same
    rw [addRows, List.flatten_cons, ih, List.flatMap_cons, addCells_append, length]

theorem locations_addRows (nodeId : Nat) (ys : List Int) :
    (addRows rank groupIds min_x max_x nodeId ys).map (List.map GridCell.location) =
      ys.map fun y => (fromTo min_x max_x).map fun x => { x, y } := by
  induction ys generalizing nodeId with
  | nil => rfl
  | cons y ys ih => rw [addRows, List.map_cons, ih, map_location_addCells, List.map_cons]

theorem cellAt_addRows {nodeId : Nat} {min_y max_y i j : Int}
    (row : 0 ≤ i ∧ i ≤ max_y - min_y) (column : 0 ≤ j ∧ j ≤ max_x - min_x) :
    ∃ cell ∈ (addRows rank groupIds min_x max_x nodeId (fromTo min_y max_y)).flatten,
      cellAt (addRows rank groupIds min_x max_x nodeId (fromTo min_y max_y)) i j = some cell ∧
      cell.location = { x := min_x + j, y := min_y + i } := by
  have located := congrArg (fun rows : List (List DiscretePoint) => rows[i.toNat]?)
    (@locations_addRows n rank groupIds min_x max_x nodeId (fromTo min_y max_y))
  simp only [List.getElem?_map, getElem?_fromTo row.1 row.2, Option.map_some] at located
  obtain ⟨cells, found, same⟩ := Option.map_eq_some_iff.mp located
  have there := congrArg (fun points : List DiscretePoint => points[j.toNat]?) same
  simp only [List.getElem?_map, getElem?_fromTo column.1 column.2, Option.map_some] at there
  obtain ⟨cell, here, location⟩ := Option.map_eq_some_iff.mp there
  refine ⟨cell, List.mem_flatten_of_mem (List.mem_of_getElem? found) (List.mem_of_getElem? here), ?_,
    location⟩
  rw [cellAt, if_pos ⟨row.1, column.1⟩, found, Option.bind_some, here]

end Cells

abbrev Pair := DiscretePoint × DiscretePoint

def Adjacent (source target : DiscretePoint) : Prop := ManhattanDistance source target = 1

theorem adjacent_iff {source target : DiscretePoint} : Adjacent source target ↔
    target.x = source.x ∧ (target.y = source.y + 1 ∨ target.y = source.y - 1) ∨
      target.y = source.y ∧ (target.x = source.x + 1 ∨ target.x = source.x - 1) := by
  unfold Adjacent ManhattanDistance
  omega

def edge (place : DiscretePoint → GridCell n) (pair : Pair) : Successor n where
  source := (place pair.1).id
  target := (place pair.2).id

structure Rectangle where
  min_x : Int
  max_x : Int
  min_y : Int
  max_y : Int

namespace Rectangle

variable (r : Rectangle)

structure Has (point : DiscretePoint) : Prop where
  column : r.min_x ≤ point.x ∧ point.x ≤ r.max_x
  row : r.min_y ≤ point.y ∧ point.y ≤ r.max_y

def at_ (i j : Int) : DiscretePoint where
  x := r.min_x + j
  y := r.min_y + i

def points : List DiscretePoint :=
  (fromTo r.min_y r.max_y).flatMap fun y => (fromTo r.min_x r.max_x).map fun x => { x, y }

def columnPairs (j : Int) : List Pair :=
  ((fromTo 0 (r.max_y - r.min_y + 1 - 2)).map fun i => (r.at_ i j, r.at_ (i + 1) j)) ++
    (fromTo 1 (r.max_y - r.min_y + 1 - 1)).reverse.map fun i => (r.at_ i j, r.at_ (i - 1) j)

def rowPairs (i : Int) : List Pair :=
  ((fromTo 0 (r.max_x - r.min_x + 1 - 2)).map fun j => (r.at_ i j, r.at_ i (j + 1))) ++
    (fromTo 1 (r.max_x - r.min_x + 1 - 1)).reverse.map fun j => (r.at_ i j, r.at_ i (j - 1))

def localPairs : List Pair :=
  (fromTo 0 (r.max_x - r.min_x + 1 - 1)).flatMap r.columnPairs ++
    (fromTo 0 (r.max_y - r.min_y + 1 - 1)).flatMap r.rowPairs

variable {r}

theorem mem_points {point : DiscretePoint} : point ∈ r.points ↔ r.Has point := by
  simp only [points, List.mem_flatMap, List.mem_map, mem_fromTo]
  constructor
  next =>
    rintro ⟨y, row, x, column, rfl⟩
    exact ⟨column, row⟩
  next => exact fun has => ⟨point.y, has.row, point.x, has.column, rfl⟩

theorem nodup_points : r.points.Nodup := by
  refine List.nodup_flatMap.mpr ⟨fun y _ => nodup_fromTo.map fun x x' same => ?_,
    nodup_fromTo.imp fun apart point first second => ?_⟩
  next => exact congrArg DiscretePoint.x same
  next =>
    obtain ⟨x, _, rfl⟩ := List.mem_map.mp first
    obtain ⟨x', _, same⟩ := List.mem_map.mp second
    exact apart (congrArg DiscretePoint.y same).symm

theorem mem_columnPairs {j : Int} {pair : Pair} : pair ∈ r.columnPairs j ↔
    pair.1.x = r.min_x + j ∧ pair.2.x = pair.1.x ∧
      (pair.2.y = pair.1.y + 1 ∨ pair.2.y = pair.1.y - 1) ∧
      (r.min_y ≤ pair.1.y ∧ pair.1.y ≤ r.max_y) ∧ r.min_y ≤ pair.2.y ∧ pair.2.y ≤ r.max_y := by
  obtain ⟨⟨x, y⟩, ⟨x', y'⟩⟩ := pair
  simp only [columnPairs, at_, List.mem_append, List.mem_map, List.mem_reverse, mem_fromTo,
    Prod.mk.injEq, DiscretePoint.mk.injEq]
  constructor
  next =>
    rintro (⟨i, _, ⟨rfl, rfl⟩, rfl, rfl⟩ | ⟨i, _, ⟨rfl, rfl⟩, rfl, rfl⟩) <;> omega
  next =>
    rintro ⟨rfl, rfl, below | above, _, _⟩
    next => exact .inl ⟨y - r.min_y, by omega⟩
    next => exact .inr ⟨y - r.min_y, by omega⟩

theorem mem_rowPairs {i : Int} {pair : Pair} : pair ∈ r.rowPairs i ↔
    pair.1.y = r.min_y + i ∧ pair.2.y = pair.1.y ∧
      (pair.2.x = pair.1.x + 1 ∨ pair.2.x = pair.1.x - 1) ∧
      (r.min_x ≤ pair.1.x ∧ pair.1.x ≤ r.max_x) ∧ r.min_x ≤ pair.2.x ∧ pair.2.x ≤ r.max_x := by
  obtain ⟨⟨x, y⟩, ⟨x', y'⟩⟩ := pair
  simp only [rowPairs, at_, List.mem_append, List.mem_map, List.mem_reverse, mem_fromTo,
    Prod.mk.injEq, DiscretePoint.mk.injEq]
  constructor
  next =>
    rintro (⟨j, _, ⟨rfl, rfl⟩, rfl, rfl⟩ | ⟨j, _, ⟨rfl, rfl⟩, rfl, rfl⟩) <;> omega
  next =>
    rintro ⟨rfl, rfl, after | before, _, _⟩
    next => exact .inl ⟨x - r.min_x, by omega⟩
    next => exact .inr ⟨x - r.min_x, by omega⟩

theorem mem_localPairs {pair : Pair} :
    pair ∈ r.localPairs ↔ r.Has pair.1 ∧ r.Has pair.2 ∧ Adjacent pair.1 pair.2 := by
  simp only [localPairs, List.mem_append, List.mem_flatMap, mem_fromTo, mem_columnPairs,
    mem_rowPairs, adjacent_iff]
  constructor
  next =>
    rintro (⟨j, _, _, _, _, _, _⟩ | ⟨i, _, _, _, _, _, _⟩)
    next => exact ⟨⟨by omega, by omega⟩, ⟨by omega, by omega⟩, by omega⟩
    next => exact ⟨⟨by omega, by omega⟩, ⟨by omega, by omega⟩, by omega⟩
  next =>
    rintro ⟨⟨column, row⟩, ⟨column', row'⟩, vertical | horizontal⟩
    next => exact .inl ⟨pair.1.x - r.min_x, by omega, by omega, by omega, by omega, by omega, by omega⟩
    next => exact .inr ⟨pair.1.y - r.min_y, by omega, by omega, by omega, by omega, by omega, by omega⟩

theorem nodup_columnPairs (j : Int) : (r.columnPairs j).Nodup := by
  refine List.nodup_append.mpr ⟨nodup_fromTo.map fun i i' same => ?_,
    (List.nodup_reverse.mpr nodup_fromTo).map fun i i' same => ?_, fun pair first pair' second => ?_⟩
  next => simpa [at_] using same
  next => simpa [at_] using same
  next =>
    rintro rfl
    obtain ⟨i, _, rfl⟩ := List.mem_map.mp first
    obtain ⟨i', _, same⟩ := List.mem_map.mp second
    simp only [at_, Prod.mk.injEq, DiscretePoint.mk.injEq] at same
    omega

theorem nodup_rowPairs (i : Int) : (r.rowPairs i).Nodup := by
  refine List.nodup_append.mpr ⟨nodup_fromTo.map fun j j' same => ?_,
    (List.nodup_reverse.mpr nodup_fromTo).map fun j j' same => ?_, fun pair first pair' second => ?_⟩
  next => simpa [at_] using same
  next => simpa [at_] using same
  next =>
    rintro rfl
    obtain ⟨j, _, rfl⟩ := List.mem_map.mp first
    obtain ⟨j', _, same⟩ := List.mem_map.mp second
    simp only [at_, Prod.mk.injEq, DiscretePoint.mk.injEq] at same
    omega

theorem nodup_localPairs : r.localPairs.Nodup := by
  refine List.nodup_append.mpr ⟨List.nodup_flatMap.mpr ⟨fun j _ => nodup_columnPairs j,
      nodup_fromTo.imp fun apart pair first second => ?_⟩,
    List.nodup_flatMap.mpr ⟨fun i _ => nodup_rowPairs i,
      nodup_fromTo.imp fun apart pair first second => ?_⟩, fun pair first pair' second => ?_⟩
  next =>
    have := (mem_columnPairs.mp first).1
    have := (mem_columnPairs.mp second).1
    omega
  next =>
    have := (mem_rowPairs.mp first).1
    have := (mem_rowPairs.mp second).1
    omega
  next =>
    rintro rfl
    obtain ⟨j, _, vertical⟩ := List.mem_flatMap.mp first
    obtain ⟨i, _, horizontal⟩ := List.mem_flatMap.mp second
    have := (mem_columnPairs.mp vertical).2.1
    have := (mem_rowPairs.mp horizontal).2.2.1
    omega

end Rectangle

section LocalGrid

variable {cells : CellMatrix n} {r : Rectangle} {place : DiscretePoint → GridCell n}

def Shows (cells : CellMatrix n) (r : Rectangle) (place : DiscretePoint → GridCell n) : Prop :=
  ∀ i j, 0 ≤ i ∧ i ≤ r.max_y - r.min_y → 0 ≤ j ∧ j ≤ r.max_x - r.min_x →
    cellAt cells i j = some (place (r.at_ i j))

theorem Shows.link (shows : Shows cells r place) {i j i' j' : Int}
    (source : (0 ≤ i ∧ i ≤ r.max_y - r.min_y) ∧ 0 ≤ j ∧ j ≤ r.max_x - r.min_x)
    (target : (0 ≤ i' ∧ i' ≤ r.max_y - r.min_y) ∧ 0 ≤ j' ∧ j' ≤ r.max_x - r.min_x) :
    Spatial.link cells i j i' j' = some (edge place (r.at_ i j, r.at_ i' j')) := by
  rw [Spatial.link, shows i j source.1 source.2, shows i' j' target.1 target.2]
  rfl

theorem Shows.linkColumn (shows : Shows cells r place) {j : Int}
    (column : 0 ≤ j ∧ j ≤ r.max_x - r.min_x) :
    Spatial.linkColumn cells (r.max_y - r.min_y + 1) j = some ((r.columnPairs j).map (edge place)) := by
  unfold Spatial.linkColumn
  rw [List.mapM_each fun i (member : i ∈ fromTo 0 (r.max_y - r.min_y + 1 - 2)) =>
      shows.link ⟨by rw [mem_fromTo] at member; omega, column⟩ ⟨by rw [mem_fromTo] at member; omega, column⟩,
    List.mapM_each fun i (member : i ∈ (fromTo 1 (r.max_y - r.min_y + 1 - 1)).reverse) =>
      shows.link ⟨by rw [List.mem_reverse, mem_fromTo] at member; omega, column⟩
        ⟨by rw [List.mem_reverse, mem_fromTo] at member; omega, column⟩]
  simp [Rectangle.columnPairs, Function.comp_def]

theorem Shows.linkRow (shows : Shows cells r place) {i : Int} (row : 0 ≤ i ∧ i ≤ r.max_y - r.min_y) :
    Spatial.linkRow cells (r.max_x - r.min_x + 1) i = some ((r.rowPairs i).map (edge place)) := by
  unfold Spatial.linkRow
  rw [List.mapM_each fun j (member : j ∈ fromTo 0 (r.max_x - r.min_x + 1 - 2)) =>
      shows.link ⟨row, by rw [mem_fromTo] at member; omega⟩ ⟨row, by rw [mem_fromTo] at member; omega⟩,
    List.mapM_each fun j (member : j ∈ (fromTo 1 (r.max_x - r.min_x + 1 - 1)).reverse) =>
      shows.link ⟨row, by rw [List.mem_reverse, mem_fromTo] at member; omega⟩
        ⟨row, by rw [List.mem_reverse, mem_fromTo] at member; omega⟩]
  simp [Rectangle.rowPairs, Function.comp_def]

theorem buildLocalGrid_eq {rank : Fin n} {groupIds : List GroupId} {nodeId : Nat}
    (places : ∀ cell ∈ addCells rank groupIds nodeId r.points, place cell.location = cell) :
    ∃ grid, buildLocalGrid rank groupIds nodeId r.min_x r.max_x r.min_y r.max_y = some grid ∧
      Shows grid.cells r place ∧ grid.cells.flatten = addCells rank groupIds nodeId r.points ∧
      grid.successors = r.localPairs.map (edge place) := by
  have flat : (addRows rank groupIds r.min_x r.max_x nodeId (fromTo r.min_y r.max_y)).flatten =
      addCells rank groupIds nodeId r.points := flatten_addRows nodeId _
  have shows : Shows (addRows rank groupIds r.min_x r.max_x nodeId (fromTo r.min_y r.max_y)) r place := by
    intro i j row column
    obtain ⟨cell, member, here, location⟩ := cellAt_addRows row column
    rw [here, ← places cell (flat ▸ member), location]
    rfl
  refine ⟨{ cells := _, successors := r.localPairs.map (edge place) }, ?_, shows, flat, rfl⟩
  unfold buildLocalGrid
  dsimp only
  rw [List.mapM_each fun j (member : j ∈ fromTo 0 (r.max_x - r.min_x + 1 - 1)) =>
      shows.linkColumn (by rw [mem_fromTo] at member; omega),
    List.mapM_each fun i (member : i ∈ fromTo 0 (r.max_y - r.min_y + 1 - 1)) =>
      shows.linkRow (by rw [mem_fromTo] at member; omega)]
  simp [Rectangle.localPairs, List.flatMap_def, List.map_flatten, Function.comp_def]

end LocalGrid

section Strip

variable {count : Int}

theorem strip_first (rank : Fin n) : (strip count rank).first = rank.val * count.tdiv n := rfl

theorem strip_last_of_not_last {rank : Fin n} (before : rank.val + 1 < n) :
    (strip count rank).last = (rank.val + 1) * count.tdiv n - 1 := by
  have other : rank.val ≠ n - 1 := by omega
  simp only [strip, if_neg other]
  rw [Int.add_mul, Int.one_mul]

theorem strip_last_of_last {rank : Fin n} (last : rank.val + 1 = n) :
    (strip count rank).last = count - 1 := by
  have same : rank.val = n - 1 := by omega
  have division := Int.tdiv_mul_add_tmod count n
  have size : (n : Int) = rank.val + 1 := by omega
  simp only [strip, if_pos same]
  rw [size] at division ⊢
  rw [Int.mul_add, Int.mul_one, Int.mul_comm] at division
  omega

variable (count) in
theorem strip_next {rank next : Fin n} (follows : rank.val + 1 = next.val) :
    (strip count rank).last + 1 = (strip count next).first := by
  rw [strip_last_of_not_last (by omega), strip_first, ← follows]
  push_cast
  omega

variable (enough : (n : Int) ≤ count)

include enough

theorem perProc_pos (rank : Fin n) : 1 ≤ count.tdiv n ∧ (n : Int) * count.tdiv n ≤ count := by
  have some_ : (0 : Int) < n := by exact_mod_cast rank.pos
  rw [Int.tdiv_eq_ediv_of_nonneg (by omega)]
  constructor
  next => exact (Int.le_ediv_iff_mul_le some_).mpr (by omega)
  next => exact Int.mul_ediv_self_le (by omega)

theorem strip_le (rank : Fin n) :
    0 ≤ (strip count rank).first ∧ (strip count rank).first ≤ (strip count rank).last ∧
      (strip count rank).last < count := by
  obtain ⟨positive, below⟩ := perProc_pos enough rank
  have first : 0 ≤ (rank.val : Int) * count.tdiv n := Int.mul_nonneg (by omega) (by omega)
  have here : ((rank.val : Int) + 1) * count.tdiv n ≤ (n : Int) * count.tdiv n :=
    Int.mul_le_mul_of_nonneg_right (by omega) (by omega)
  rw [Int.add_mul, Int.one_mul] at here
  rw [strip_first]
  by_cases before : rank.val + 1 < n
  next =>
    rw [strip_last_of_not_last before, Int.add_mul, Int.one_mul]
    omega
  next =>
    rw [strip_last_of_last (by omega)]
    omega

theorem strip_apart {p q : Fin n} (before : p < q) :
    (strip count p).last < (strip count q).first := by
  obtain ⟨positive, below⟩ := perProc_pos enough p
  have ordered : ((p.val : Int) + 1) * count.tdiv n ≤ (q.val : Int) * count.tdiv n :=
    Int.mul_le_mul_of_nonneg_right (by omega) (by omega)
  rw [strip_last_of_not_last (by omega), strip_first]
  omega

theorem strip_cover (some_ : 0 < n) {along : Int} (inside : 0 ≤ along ∧ along < count) :
    ∃ p : Fin n, (strip count p).first ≤ along ∧ along ≤ (strip count p).last := by
  obtain ⟨positive, below⟩ := perProc_pos enough ⟨0, some_⟩
  have floor : along / count.tdiv n * count.tdiv n ≤ along := Int.ediv_mul_le along (by omega)
  have ceiling : along < (along / count.tdiv n + 1) * count.tdiv n :=
    Int.lt_ediv_add_one_mul_self along (by omega)
  have least : 0 ≤ along / count.tdiv n := Int.ediv_nonneg inside.1 (by omega)
  by_cases before : along / count.tdiv n + 1 < n
  next =>
    obtain ⟨p, value⟩ : ∃ p : Fin n, (p.val : Int) = along / count.tdiv n :=
      ⟨⟨(along / count.tdiv n).toNat, by omega⟩, Int.toNat_of_nonneg least⟩
    refine ⟨p, ?_, ?_⟩
    next => rwa [strip_first, value]
    next =>
      rw [strip_last_of_not_last (by omega), value]
      omega
  next =>
    obtain ⟨p, value⟩ : ∃ p : Fin n, p.val + 1 = n := ⟨⟨n - 1, by omega⟩, Nat.sub_add_cancel some_⟩
    refine ⟨p, ?_, ?_⟩
    next =>
      have ordered : (p.val : Int) * count.tdiv n ≤ along / count.tdiv n * count.tdiv n :=
        Int.mul_le_mul_of_nonneg_right (by omega) (by omega)
      rw [strip_first]
      omega
    next =>
      rw [strip_last_of_last value]
      omega

end Strip

namespace Cut

def along : Cut → DiscretePoint → Int
  | columns, point => point.x
  | rows, point => point.y

def across : Cut → DiscretePoint → Int
  | columns, point => point.y
  | rows, point => point.x

def rectangle (cut : Cut) (extent : Int) (own : Strip) : Rectangle :=
  match cut with
  | columns =>
    { min_x := own.first
      max_x := own.last
      min_y := 0
      max_y := extent - 1 }
  | rows =>
    { min_x := 0
      max_x := extent - 1
      min_y := own.first
      max_y := own.last }

variable {cut : Cut} {extent : Int} {own : Strip}

theorem point_eq (point : DiscretePoint) : cut.point (cut.along point) (cut.across point) = point := by
  cases cut <;> rfl

@[simp] theorem along_point (a b : Int) : cut.along (cut.point a b) = a := by cases cut <;> rfl

@[simp] theorem across_point (a b : Int) : cut.across (cut.point a b) = b := by cases cut <;> rfl

theorem has_rectangle {point : DiscretePoint} : (cut.rectangle extent own).Has point ↔
    (own.first ≤ cut.along point ∧ cut.along point ≤ own.last) ∧
      0 ≤ cut.across point ∧ cut.across point ≤ extent - 1 := by
  cases cut with
  | columns => exact ⟨fun has => ⟨has.column, has.row⟩, fun has => ⟨has.1, has.2⟩⟩
  | rows => exact ⟨fun has => ⟨has.row, has.column⟩, fun has => ⟨has.2, has.1⟩⟩

theorem adjacent_iff {source target : DiscretePoint} : Adjacent source target ↔
    cut.along target = cut.along source ∧
        (cut.across target = cut.across source + 1 ∨ cut.across target = cut.across source - 1) ∨
      cut.across target = cut.across source ∧
        (cut.along target = cut.along source + 1 ∨ cut.along target = cut.along source - 1) := by
  rw [Spatial.adjacent_iff]
  cases cut with
  | columns => rfl
  | rows => exact or_comm

end Cut

section Frontier

variable {cut : Cut} {count extent : Int} {place : DiscretePoint → GridCell n}

theorem buildStrip_eq {rank : Fin n} {groupIds : List GroupId} {nodeId : Nat}
    (places : ∀ cell ∈ addCells rank groupIds nodeId (cut.rectangle extent (strip count rank)).points,
      place cell.location = cell) :
    ∃ grid, buildStrip cut count extent rank groupIds nodeId = some grid ∧
      Shows grid.cells (cut.rectangle extent (strip count rank)) place ∧
      grid.cells.flatten = addCells rank groupIds nodeId (cut.rectangle extent (strip count rank)).points ∧
      grid.successors = (cut.rectangle extent (strip count rank)).localPairs.map (edge place) := by
  cases cut with
  | columns => exact buildLocalGrid_eq (r := Cut.columns.rectangle extent (strip count rank)) places
  | rows => exact buildLocalGrid_eq (r := Cut.rows.rectangle extent (strip count rank)) places

theorem Shows.cellAt_cut {cells : CellMatrix n} {own : Strip}
    (shows : Shows cells (cut.rectangle extent own) place) {i across : Int}
    (inside : 0 ≤ i ∧ i ≤ own.last - own.first) (member : 0 ≤ across ∧ across ≤ extent - 1) :
    cut.cellAt cells i across = some (place (cut.point (own.first + i) across)) := by
  cases cut with
  | columns =>
    rw [Cut.cellAt, shows across i (by simpa [Cut.rectangle] using member) inside]
    simp [Rectangle.at_, Cut.rectangle, Cut.point]
  | rows =>
    rw [Cut.cellAt, shows i across inside (by simpa [Cut.rectangle] using member)]
    simp [Rectangle.at_, Cut.rectangle, Cut.point]

variable (cut extent place) in
def packsAt (along : Int) : List (GridCellPack n) :=
  (fromTo 0 (extent - 1)).map fun across =>
    ((place (cut.point along across)).id, (place (cut.point along across)).groupIds)

theorem Shows.frontier {cells : CellMatrix n} {own : Strip}
    (shows : Shows cells (cut.rectangle extent own) place) {i : Int}
    (inside : 0 ≤ i ∧ i ≤ own.last - own.first) :
    Spatial.frontier cut extent cells i = some (packsAt cut extent place (own.first + i)) := by
  refine List.mapM_each fun across member => ?_
  rw [shows.cellAt_cut inside (mem_fromTo.mp member)]
  rfl

theorem getElem?_packsAt {along across : Int} (member : 0 ≤ across ∧ across ≤ extent - 1) :
    (packsAt cut extent place along)[across.toNat]? =
      some ((place (cut.point along across)).id, (place (cut.point along across)).groupIds) := by
  rw [packsAt, List.getElem?_map, getElem?_fromTo member.1 (by omega), Int.zero_add]
  rfl

theorem Shows.exportFrontiers {cells : CellMatrix n} {rank : Fin n}
    (shows : Shows cells (cut.rectangle extent (strip count rank)) place)
    (some_ : (strip count rank).first ≤ (strip count rank).last) :
    ∃ frontiers, Spatial.exportFrontiers cut count extent rank cells = some frontiers ∧
      ∀ q : Fin n, frontiers.lookup q =
        if rank.val + 1 = q.val then some (packsAt cut extent place (strip count rank).last)
        else if q.val + 1 = rank.val then some (packsAt cut extent place (strip count rank).first)
        else none := by
  have after := shows.frontier (i := (strip count rank).last - (strip count rank).first) (by omega)
  have before := shows.frontier (i := 0) (by omega)
  rw [show (strip count rank).first + ((strip count rank).last - (strip count rank).first) =
    (strip count rank).last by omega] at after
  rw [Int.add_zero] at before
  obtain ⟨frontiers, sent, found⟩ : ∃ frontiers : UnorderedMap (Fin n) (List (GridCellPack n)),
      (if h : rank.val + 1 < n then
        (Spatial.frontier cut extent cells ((strip count rank).last - (strip count rank).first)).map
          fun packs => (∅ : UnorderedMap (Fin n) (List (GridCellPack n))).insert ⟨rank.val + 1, h⟩ packs
      else some ∅) = some frontiers ∧ ∀ q : Fin n, frontiers.lookup q =
        if rank.val + 1 = q.val then some (packsAt cut extent place (strip count rank).last) else none := by
    by_cases right : rank.val + 1 < n
    next =>
      rw [dif_pos right, after]
      refine ⟨_, rfl, fun q => ?_⟩
      rw [UnorderedMap.lookup_insert']
      simp [Fin.ext_iff, eq_comm]
    next =>
      rw [dif_neg right]
      refine ⟨_, rfl, fun q => ?_⟩
      rw [if_neg (by omega)]
      rfl
  unfold Spatial.exportFrontiers
  simp only [sent, Option.bind_some]
  by_cases left_ : 0 < rank.val
  next =>
    rw [if_pos left_, before]
    refine ⟨_, rfl, fun q => ?_⟩
    rw [UnorderedMap.lookup_insert', found]
    by_cases next_ : rank.val + 1 = q.val
    next =>
      rw [if_pos next_, if_pos next_, if_neg (by rw [Fin.ext_iff]; simp only; omega)]
    next =>
      rw [if_neg next_, if_neg next_]
      congr 1
      rw [Fin.ext_iff, eq_iff_iff]
      simp only
      omega
  next =>
    rw [if_neg left_]
    refine ⟨_, rfl, fun q => ?_⟩
    rw [found, if_neg (show ¬q.val + 1 = rank.val by omega)]

variable (cut count extent) in
def frontierPairs (rank source : Fin n) : List Pair :=
  (fromTo 0 (extent - 1)).map fun across =>
    if source < rank then
      (cut.point (strip count rank).first across, cut.point ((strip count rank).first - 1) across)
    else (cut.point (strip count rank).last across, cut.point ((strip count rank).last + 1) across)

variable (cut count) in
theorem mem_frontierPairs {rank source : Fin n} {pair : Pair} :
    pair ∈ frontierPairs cut count extent rank source ↔
      (0 ≤ cut.across pair.1 ∧ cut.across pair.1 ≤ extent - 1) ∧
      cut.across pair.2 = cut.across pair.1 ∧
      if source < rank then
        cut.along pair.1 = (strip count rank).first ∧ cut.along pair.2 = cut.along pair.1 - 1
      else cut.along pair.1 = (strip count rank).last ∧ cut.along pair.2 = cut.along pair.1 + 1 := by
  simp only [frontierPairs, List.mem_map, mem_fromTo]
  constructor
  next =>
    rintro ⟨across, member, rfl⟩
    by_cases left_ : source < rank <;> simp [left_, member]
  next =>
    rintro ⟨member, same, ends⟩
    refine ⟨cut.across pair.1, member, ?_⟩
    split at ends
    next left_ =>
      rw [if_pos left_]
      refine Prod.ext ?_ ?_
      next => rw [← ends.1, cut.point_eq]
      next => rw [← ends.1, ← ends.2, ← same, cut.point_eq]
    next right =>
      rw [if_neg right]
      refine Prod.ext ?_ ?_
      next => rw [← ends.1, cut.point_eq]
      next => rw [← ends.1, ← ends.2, ← same, cut.point_eq]

theorem nodup_frontierPairs {rank source : Fin n} :
    (frontierPairs cut count extent rank source).Nodup := by
  refine nodup_fromTo.map fun across across' same => ?_
  by_cases left_ : source < rank
  next =>
    simp only [left_, if_true] at same
    simpa using congrArg (fun pair : Pair => cut.across pair.1) same
  next =>
    simp only [left_, if_false] at same
    simpa using congrArg (fun pair : Pair => cut.across pair.1) same

theorem GridCell.eq_of_location {cell : GridCell n} {location : DiscretePoint}
    (here : cell.location = location) :
    { id := cell.id
      location
      groupIds := cell.groupIds } = cell := by
  subst here
  rfl

theorem Shows.linkFrontier {cells : CellMatrix n} {rank source : Fin n}
    (shows : Shows cells (cut.rectangle extent (strip count rank)) place)
    (some_ : (strip count rank).first ≤ (strip count rank).last)
    (located : ∀ pair ∈ frontierPairs cut count extent rank source, (place pair.2).location = pair.2) :
    Spatial.linkFrontier cut count extent rank cells source (packsAt cut extent place
        (if source < rank then (strip count rank).first - 1 else (strip count rank).last + 1)) =
      some ((frontierPairs cut count extent rank source).map fun pair =>
        (place pair.2, edge place pair)) := by
  unfold Spatial.linkFrontier frontierPairs at *
  rw [List.map_map]
  refine List.mapM_each fun across member => ?_
  rw [getElem?_packsAt (mem_fromTo.mp member), Option.bind_some,
    shows.cellAt_cut (by split <;> omega) (mem_fromTo.mp member)]
  have here := located _ (List.mem_map_of_mem member)
  simp only [Function.comp_apply, Option.map_some, Option.some.injEq]
  by_cases left_ : source < rank
  next =>
    simp only [left_, if_true] at here ⊢
    rw [Int.add_zero]
    exact Prod.ext (GridCell.eq_of_location here) rfl
  next =>
    simp only [left_, if_false] at here ⊢
    rw [show (strip count rank).first + ((strip count rank).last - (strip count rank).first) =
      (strip count rank).last by omega]
    exact Prod.ext (GridCell.eq_of_location here) rfl

end Frontier

end Fpmas.Model.Spatial
