import Mathlib.Data.List.FinRange
import Fpmas.Graph.DistributedId
import Fpmas.Library.UnorderedMap
import Fpmas.Model.Spatial.DistributedMoveAlgorithm

set_option autoImplicit false

namespace Fpmas.Model.Spatial

structure DiscretePoint where
  x : Int
  y : Int
deriving DecidableEq

def ManhattanDistance (p1 p2 : DiscretePoint) : Int :=
  (p2.x - p1.x).natAbs + (p2.y - p1.y).natAbs

variable {n : Nat}

structure GridCell (n : Nat) where
  id : DistributedId (Fin n)
  location : DiscretePoint
  groupIds : List GroupId
deriving DecidableEq

abbrev GridCellPack (n : Nat) := DistributedId (Fin n) × List GroupId

abbrev CellMatrix (n : Nat) := List (List (GridCell n))

structure Successor (n : Nat) where
  source : DistributedId (Fin n)
  target : DistributedId (Fin n)
deriving DecidableEq

def fromTo (first last : Int) : List Int :=
  (List.range (last - first + 1).toNat).map fun (i : Nat) => first + i

-- `cells[i][j]`: there is nothing outside the matrix.
def cellAt (cells : CellMatrix n) (i j : Int) : Option (GridCell n) :=
  if 0 ≤ i ∧ 0 ≤ j then cells[i.toNat]?.bind fun row => row[j.toNat]? else none

def link (cells : CellMatrix n) (i j i' j' : Int) : Option (Successor n) :=
  (cellAt cells i j).bind fun source => (cellAt cells i' j').map fun target =>
    { source := source.id
      target := target.id }

def linkColumn (cells : CellMatrix n) (localHeight j : Int) :
    Option (List (Successor n)) :=
  ((fromTo 0 (localHeight - 2)).mapM fun i => link cells i j (i + 1) j).bind fun down =>
  ((fromTo 1 (localHeight - 1)).reverse.mapM fun i => link cells i j (i - 1) j).map fun up =>
  down ++ up

def linkRow (cells : CellMatrix n) (localWidth i : Int) : Option (List (Successor n)) :=
  ((fromTo 0 (localWidth - 2)).mapM fun j => link cells i j i (j + 1)).bind fun right =>
  ((fromTo 1 (localWidth - 1)).reverse.mapM fun j => link cells i j i (j - 1)).map fun left =>
  right ++ left

structure LocalGrid (n : Nat) where
  cells : CellMatrix n
  successors : List (Successor n)

section Process

-- `groupIds` has the group of all the cells first, and then the groups given to `build`.
variable (rank : Fin n) (groupIds : List GroupId)

def addCells : Nat → List DiscretePoint → List (GridCell n)
  | _, [] => []
  | nodeId, location :: rest =>
    { id := { rank, id := nodeId }
      location
      groupIds } :: addCells (nodeId + 1) rest

def addRows (min_x max_x : Int) : Nat → List Int → CellMatrix n
  | _, [] => []
  | nodeId, y :: rest =>
    let row := addCells rank groupIds nodeId ((fromTo min_x max_x).map fun x => { x, y })
    row :: addRows min_x max_x (nodeId + row.length) rest

def buildLocalGrid (nodeId : Nat) (min_x max_x min_y max_y : Int) :
    Option (LocalGrid n) :=
  let localHeight := max_y - min_y + 1
  let localWidth := max_x - min_x + 1
  let cells := addRows rank groupIds min_x max_x nodeId (fromTo min_y max_y)
  ((fromTo 0 (localWidth - 1)).mapM (linkColumn cells localHeight)).bind fun columns =>
  ((fromTo 0 (localHeight - 1)).mapM (linkRow cells localWidth)).map fun rows =>
  { cells
    successors := columns.flatten ++ rows.flatten }

end Process

-- The grid is cut in strips of columns or of rows. `along` is the coordinate in the dimension that
-- is cut, and `across` the other one.
inductive Cut where
  | columns
  | rows
deriving DecidableEq

namespace Cut

def point : Cut → Int → Int → DiscretePoint
  | columns, along, across => { x := along, y := across }
  | rows, along, across => { x := across, y := along }

def cellAt (cells : CellMatrix n) : Cut → Int → Int → Option (GridCell n)
  | columns, along, across => Spatial.cellAt cells across along
  | rows, along, across => Spatial.cellAt cells along across

end Cut

structure Strip where
  first : Int
  last : Int

-- The part of a process: the last one also gets the remainder.
def strip (count : Int) (rank : Fin n) : Strip :=
  let perProc := count.tdiv n
  let remainder := count.tmod n
  let localCount := if rank.val = n - 1 then perProc + remainder else perProc
  let first := rank.val * perProc
  { first
    last := first + localCount - 1 }

structure BuiltGrid (n : Nat) where
  cells : List (GridCell n)
  -- The temporary cells given to `insertDistant`.
  distant : List (GridCell n)
  successors : List (Successor n)

section Build

variable (cut : Cut) (count extent : Int)

def buildStrip (rank : Fin n) (groupIds : List GroupId) (nodeId : Nat) : Option (LocalGrid n) :=
  let own := strip count rank
  match cut with
  | .columns => buildLocalGrid rank groupIds nodeId own.first own.last 0 (extent - 1)
  | .rows => buildLocalGrid rank groupIds nodeId 0 (extent - 1) own.first own.last

def frontier (cells : CellMatrix n) (along : Int) : Option (List (GridCellPack n)) :=
  (fromTo 0 (extent - 1)).mapM fun across =>
    (cut.cellAt cells along across).map fun cell => (cell.id, cell.groupIds)

def exportFrontiers (rank : Fin n) (cells : CellMatrix n) :
    Option (UnorderedMap (Fin n) (List (GridCellPack n))) :=
  let own := strip count rank
  (if h : rank.val + 1 < n then
    (frontier cut extent cells (own.last - own.first)).map fun packs =>
      (∅ : UnorderedMap (Fin n) (List (GridCellPack n))).insert ⟨rank.val + 1, h⟩ packs
  else some ∅).bind fun frontiers =>
  if 0 < rank.val then
    (frontier cut extent cells 0).map fun packs =>
      frontiers.insert ⟨rank.val - 1, Nat.lt_of_le_of_lt (Nat.sub_le _ _) rank.isLt⟩ packs
  else some frontiers

-- The links to the cells of another process, that the temporary cells represent.
def linkFrontier (rank : Fin n) (cells : CellMatrix n) (source : Fin n)
    (packs : List (GridCellPack n)) : Option (List (GridCell n × Successor n)) :=
  let own := strip count rank
  (fromTo 0 (extent - 1)).mapM fun across =>
    packs[across.toNat]?.bind fun pack =>
    (cut.cellAt cells (if source < rank then 0 else own.last - own.first) across).map fun cell =>
    ({ id := pack.1
       location := cut.point (if source < rank then own.first - 1 else own.last + 1) across
       groupIds := pack.2 },
     { source := cell.id
       target := pack.1 })

variable (order : HashOrder) (groupIds : List GroupId) (nodeId : Fin n → Nat)

def buildStrips : Option (Fin n → BuiltGrid n) :=
  (collect fun p => buildStrip cut count extent p groupIds (nodeId p)).bind fun grids =>
  (collect fun p => exportFrontiers cut count extent p (grids p).cells).bind fun frontiers =>
  collect fun p =>
    (((migrate frontiers p).toList order).mapM fun frontier =>
      linkFrontier cut count extent p (grids p).cells frontier.1 frontier.2).map fun links =>
    { cells := (grids p).cells.flatten
      distant := links.flatten.map Prod.fst
      successors := (grids p).successors ++ links.flatten.map Prod.snd }

end Build

section

variable (width height : Int) (order : HashOrder) (groupIds : List GroupId)
  (nodeId : Fin n → Nat)

def buildColumns : Option (Fin n → BuiltGrid n) :=
  buildStrips .columns width height order groupIds nodeId

def buildRows : Option (Fin n → BuiltGrid n) :=
  buildStrips .rows height width order groupIds nodeId

def buildGrid : Option (Fin n → BuiltGrid n) :=
  if width * height > 0 then
    if width ≥ height then buildColumns width height order groupIds nodeId
    else buildRows width height order groupIds nodeId
  else some fun _ =>
    { cells := []
      distant := []
      successors := [] }

end

end Fpmas.Model.Spatial
