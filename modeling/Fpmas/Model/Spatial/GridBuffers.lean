import Fpmas.Model.Spatial.VonNeumannNeighborhood

set_option autoImplicit false

namespace Fpmas.Model.Spatial

variable {n : Nat}

def localPart (width height : Int) (p : Fin n) : Rectangle :=
  if width ≥ height then part .columns width height p else part .rows height width p

namespace Rectangle

variable (r : Rectangle)

-- The dimensions of `buildLocalGrid`.
def localWidth : Int := r.max_x - r.min_x + 1

def localHeight : Int := r.max_y - r.min_y + 1

end Rectangle

section Strip

variable {count : Int}

theorem strip_size_nonneg (positive : 0 ≤ count) (rank : Fin n) :
    0 ≤ (strip count rank).last - (strip count rank).first + 1 := by
  have quotient : 0 ≤ count.tdiv n := Int.tdiv_nonneg positive (Int.natCast_nonneg n)
  have remainder : 0 ≤ count.tmod n := Int.tmod_nonneg _ positive
  simp only [strip]
  split <;> omega

-- With more processes than lines, the quotient is 0: the last process gets everything.
theorem strip_empty (few : count < n) (positive : 0 ≤ count) {rank : Fin n}
    (before : rank.val + 1 < n) : (strip count rank).last - (strip count rank).first = -1 := by
  have none_ : count.tdiv n = 0 := Int.tdiv_eq_zero_of_lt positive few
  rw [strip_last_of_not_last before, strip_first, none_]
  omega

end Strip

theorem localPart_nonneg {width height : Int} (columns : 1 ≤ width) (rows : 1 ≤ height) (p : Fin n) :
    0 ≤ (localPart width height p).localWidth ∧ 0 ≤ (localPart width height p).localHeight := by
  unfold localPart Rectangle.localWidth Rectangle.localHeight part Cut.rectangle
  by_cases wide : width ≥ height
  next =>
    have own := strip_size_nonneg (show 0 ≤ width by omega) p
    rw [if_pos wide]
    dsimp only
    omega
  next =>
    have own := strip_size_nonneg (show 0 ≤ height by omega) p
    rw [if_neg wide]
    dsimp only
    omega

section Frontier

variable {cut : Cut} {count extent : Int}

theorem cellAt_negative {cells : CellMatrix n} {along across : Int} (negative : along < 0) :
    cut.cellAt cells along across = none := by
  cases cut <;> exact if_neg (by omega)

-- Each process but the last one reads the line at -1 of its empty matrix.
theorem exportFrontiers_empty (few : count < n) (positive : 0 ≤ count) (some_ : 1 ≤ extent)
    {rank : Fin n} (before : rank.val + 1 < n) (cells : CellMatrix n) :
    exportFrontiers cut count extent rank cells = none := by
  have outside : frontier cut extent cells ((strip count rank).last - (strip count rank).first) =
      none := by
    rw [strip_empty few positive before]
    cases exported : frontier cut extent cells (-1) with
    | none => rfl
    | some packs =>
      obtain ⟨pack, read⟩ := List.each_some exported 0 (mem_fromTo.mpr (by omega))
      rw [cellAt_negative (by omega)] at read
      cases read
  simp only [exportFrontiers, dif_pos before, outside, Option.map_none, Option.bind_none]

theorem buildStrips_few (few : count < n) (positive : 1 ≤ count) (some_ : 1 ≤ extent) (order : HashOrder)
    (groupIds : List GroupId) (nodeId : Fin n → Nat) :
    buildStrips cut count extent order groupIds nodeId = none := by
  cases built : buildStrips cut count extent order groupIds nodeId with
  | none => rfl
  | some result =>
    obtain ⟨grids, _, exchanged⟩ := Option.bind_eq_some_iff.mp built
    obtain ⟨frontiers, sent, _⟩ := Option.bind_eq_some_iff.mp exchanged
    have first := collect_eq_some.mp sent ⟨0, by omega⟩
    rw [exportFrontiers_empty few (by omega) some_ (by dsimp only; omega)] at first
    cases first

theorem buildStrips_isSome_iff (some_ : 0 < n) (positive : 1 ≤ count) (wide : 1 ≤ extent)
    (order : HashOrder) (groupIds : List GroupId) (nodeId : Fin n → Nat) :
    (buildStrips cut count extent order groupIds nodeId).isSome = true ↔ (n : Int) ≤ count := by
  constructor
  next =>
    intro built
    by_contra few
    rw [buildStrips_few (by omega) positive wide] at built
    cases built
  next =>
    intro enough
    have once : (((List.finRange n).flatMap (ownCells cut count extent groupIds nodeId)).map
        GridCell.location).Nodup := nodup_locations enough
    obtain ⟨place, places⟩ := exists_place once some_
    have owned : ∀ p, ∀ cell ∈ ownCells cut count extent groupIds nodeId p, place cell.location = cell :=
      fun p cell member => places cell (List.mem_flatMap.mpr ⟨p, List.mem_finRange p, member⟩)
    obtain ⟨grids, built, _⟩ := buildStrips_built enough order groupIds nodeId owned
    exact Option.isSome_of_eq_some built

end Frontier

theorem buffers_in_range_iff {width height : Int} (some_ : 0 < n) (columns : 1 ≤ width)
    (rows : 1 ≤ height) (order : HashOrder) (groupIds : List GroupId) (nodeId : Fin n → Nat) :
    ((buildGrid width height order groupIds nodeId).isSome = true ∧
      ∀ p : Fin n, 0 ≤ (localPart width height p).localWidth ∧
        0 ≤ (localPart width height p).localHeight) ↔ (n : Int) ≤ max width height := by
  rw [and_iff_left (localPart_nonneg columns rows)]
  unfold buildGrid
  rw [if_pos (Int.mul_pos (by omega) (by omega))]
  by_cases wide : width ≥ height
  next =>
    rw [if_pos wide, max_eq_left wide]
    exact buildStrips_isSome_iff some_ columns rows order groupIds nodeId
  next =>
    rw [if_neg wide, max_eq_right (by omega)]
    exact buildStrips_isSome_iff some_ rows columns order groupIds nodeId

theorem buffers_in_range_two_by_one :
    (buildGrid 2 1 .insertion [0] (fun _ : Fin 2 => 0)).isSome = true ∧
      ∀ p : Fin 2, 0 ≤ (localPart 2 1 p).localWidth ∧ 0 ≤ (localPart 2 1 p).localHeight :=
  (buffers_in_range_iff (by decide) (by decide) (by decide) .insertion [0] fun _ => 0).mpr (by decide)

-- Two processes build a grid of one cell: the first one has no column at all, and still exports one.
theorem empty_strip_exported :
    ¬((buildGrid 1 1 .insertion [0] (fun _ : Fin 2 => 0)).isSome = true ∧
      ∀ p : Fin 2, 0 ≤ (localPart 1 1 p).localWidth ∧ 0 ≤ (localPart 1 1 p).localHeight) := by
  intro inRange
  exact absurd inRange.1 (by decide +kernel)

end Fpmas.Model.Spatial
