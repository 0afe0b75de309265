import Fpmas.Library.Buffer
import Fpmas.Library.UnorderedMap

set_option autoImplicit false

namespace Fpmas.Communication

-- The greatest value of an `int`; a computation that goes beyond it is undefined, `none` here.
def intMax : Nat := 2147483647

structure DataPack where
  size : Nat
  count : Nat
  buffer : List UInt8
deriving DecidableEq

def DataPack.empty : DataPack where
  size := 0
  count := 0
  buffer := []

structure DataPack.Holds (pack : DataPack) (count dataSize : Nat) : Prop where
  counted : pack.count = count
  sized : pack.size = count * dataSize
  filled : pack.buffer.length = pack.size

-- `data_pack[i]`, where `operator[]` builds the packs that are missing.
def packOf {n : Nat} (packs : UnorderedMap (Fin n) DataPack) (i : Fin n) : DataPack :=
  (packs.lookup i).getD .empty

-- The unset bytes that `malloc` leaves in a buffer.
abbrev Heap := Nat → UInt8

def malloc (heap : Heap) (count typeSize : Nat) : Option (Buffer UInt8) :=
  if count * typeSize ≤ intMax then some ((List.range (count * typeSize)).map heap) else none

-- The loop that computes displacements from counts, and their sum.
def displacements (counts : List Nat) : Option (List Nat × Nat) :=
  counts.foldlM (fun state count =>
    if state.2 + count ≤ intMax then some (state.1 ++ [state.2], state.2 + count) else none) ([], 0)

structure Sent where
  buffer : Buffer UInt8
  count : Nat
  displacement : Nat

section

variable {n : Nat} (typeSize : Nat)

-- What the collective operations do on a process that receives: the items of each process are placed
-- where its displacement tells, and their number must be the expected one.
def receive (sent : Fin n → Sent) (buffer : Buffer UInt8) (recvcounts : Fin n → Nat)
    (rdispls : List Nat) : Option (Buffer UInt8) :=
  ((List.finRange n).mapM fun s =>
    if (sent s).count * typeSize = recvcounts s * typeSize then
      (Buffer.read (sent s).buffer ((sent s).displacement * typeSize)
        ((sent s).count * typeSize)).map fun bytes => (rdispls.getD s 0 * typeSize, bytes)
    else none).bind fun copies =>
  Buffer.writeAll buffer copies

-- `DataPack(count, type_size)`, with its bytes copied from a buffer.
def copyPack (buffer : Buffer UInt8) (offset count : Nat) : Option DataPack :=
  (Buffer.read buffer offset (count * typeSize)).map fun bytes =>
  { size := count * typeSize
    count
    buffer := bytes }

variable (sendHeap recvHeap : Fin n → Heap)

def allToAll (dataPack : Fin n → UnorderedMap (Fin n) DataPack) :
    Option (Fin n → UnorderedMap (Fin n) DataPack) :=
  let sendcounts := fun p i => (packOf (dataPack p) i).count
  (collect fun p => displacements (List.ofFn (sendcounts p))).bind fun sdispls =>
  -- `MPI_Alltoall` exchanges the counts.
  let recvcounts := fun p i => sendcounts i p
  (collect fun p => (malloc (sendHeap p) (sdispls p).2 typeSize).bind fun buffer =>
    Buffer.writeAll buffer (List.ofFn fun i =>
      ((sdispls p).1.getD i 0, (packOf (dataPack p) i).buffer))).bind fun sendBuffer =>
  (collect fun p => displacements (List.ofFn (recvcounts p))).bind fun rdispls =>
  (collect fun p => (malloc (recvHeap p) (rdispls p).2 typeSize).bind fun buffer =>
    receive typeSize (fun s =>
      { buffer := sendBuffer s
        count := sendcounts s p
        displacement := (sdispls s).1.getD p 0 }) buffer (recvcounts p) (rdispls p).1).bind
    fun recvBuffer =>
  collect fun p => (List.finRange n).foldlM (fun imported (i : Fin n) =>
    if recvcounts p i > 0 then
      (copyPack typeSize (recvBuffer p) ((rdispls p).1.getD i 0) (recvcounts p i)).map (imported.insert i)
    else some imported) ∅

-- The copy of a pack to the buffer that `gather` and `allGather` send.
def sendBuffer (heap : Heap) (data : DataPack) : Option (Buffer UInt8) :=
  (malloc heap data.count typeSize).bind fun buffer => Buffer.write buffer 0 data.buffer

-- The end of `gather` and `allGather`, with the counts that the process has received.
def gatherPacks (heap : Heap) (data : Fin n → DataPack) (sendBuffers : Fin n → Buffer UInt8)
    (recvcounts : Fin n → Nat) : Option (List DataPack) :=
  (displacements (List.ofFn recvcounts)).bind fun rdispls =>
  (malloc heap rdispls.2 typeSize).bind fun buffer =>
  (receive typeSize (fun s =>
    { buffer := sendBuffers s
      count := (data s).count
      displacement := 0 }) buffer recvcounts rdispls.1).bind fun recvBuffer =>
  (List.finRange n).mapM fun (i : Fin n) => copyPack typeSize recvBuffer (rdispls.1.getD i 0) (recvcounts i)

-- What `root` returns: elsewhere `current_rdispls` is 0 and no pack is read.
def gather (heap : Heap) (data : Fin n → DataPack) : Option (List DataPack) :=
  (collect fun p => sendBuffer typeSize (sendHeap p) (data p)).bind fun sendBuffers =>
  gatherPacks typeSize heap data sendBuffers fun i => (data i).count

-- `allGather`, called by all the processes: the sizes are exchanged, not the counts.
def allGather (data : Fin n → DataPack) : Option (Fin n → List DataPack) :=
  (collect fun p => sendBuffer typeSize (sendHeap p) (data p)).bind fun sendBuffers =>
  collect fun p => gatherPacks typeSize (recvHeap p) data sendBuffers fun i => (data i).size

end

end Fpmas.Communication
