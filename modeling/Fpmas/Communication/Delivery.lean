import Mathlib.Algebra.BigOperators.Fin
import Mathlib.Algebra.Order.BigOperators.Group.Finset
import Mathlib.Order.Interval.Finset.Fin
import Fpmas.Communication.MpiCommunicatorBase

set_option autoImplicit false

namespace Fpmas.Communication

variable {n : Nat}

-- The displacement of the items of `i`.
def displacement (counts : Fin n → Nat) (i : Fin n) : Nat := ∑ j with j.val < i.val, counts j

-- The computations of a buffer of `total` items do not go beyond the greatest `int`.
def Fits (total typeSize : Nat) : Prop := total ≤ intMax ∧ total * typeSize ≤ intMax

def AtMostOne (counts : Fin n → Nat) : Prop := ∀ i j, 0 < counts i → 0 < counts j → i = j

section

variable (counts : Fin n → Nat)

theorem displacement_add_le {i j : Fin n} (before : i < j) :
    displacement counts i + counts i ≤ displacement counts j := by
  have apart : i ∉ (Finset.univ.filter fun k : Fin n => k.val < i.val) := by simp
  unfold displacement
  rw [Nat.add_comm, ← Finset.sum_insert apart]
  refine Finset.sum_le_sum_of_subset fun k member => ?_
  simp only [Finset.mem_insert, Finset.mem_filter, Finset.mem_univ, true_and] at member ⊢
  rcases member with rfl | earlier
  next => exact before
  next => exact Nat.lt_trans earlier before

theorem displacement_add_le_sum (i : Fin n) : displacement counts i + counts i ≤ ∑ j, counts j := by
  have apart : i ∉ (Finset.univ.filter fun k : Fin n => k.val < i.val) := by simp
  unfold displacement
  rw [Nat.add_comm, ← Finset.sum_insert apart]
  exact Finset.sum_le_sum_of_subset (Finset.subset_univ _)

theorem displacement_pos {i : Fin n} : 0 < displacement counts i ↔ ∃ j < i, 0 < counts j := by
  unfold displacement
  rw [Nat.pos_iff_ne_zero, Ne, Finset.sum_eq_zero_iff]
  push Not
  simp only [Finset.mem_filter, Finset.mem_univ, true_and, Nat.pos_iff_ne_zero]
  rfl

theorem atMostOne_iff : AtMostOne counts ↔ ∀ i, 0 < counts i → displacement counts i = 0 := by
  constructor
  next =>
    intro single i some_
    by_contra placed
    obtain ⟨j, before, other⟩ := (displacement_pos counts).mp (Nat.pos_of_ne_zero placed)
    exact absurd (single j i other some_) (Fin.ne_of_lt before)
  next =>
    intro first i j some_ other
    by_contra apart
    rcases lt_or_gt_of_ne apart with before | after
    next => exact absurd (first j other) (Nat.ne_of_gt ((displacement_pos counts).mpr ⟨i, before, some_⟩))
    next => exact absurd (first i some_) (Nat.ne_of_gt ((displacement_pos counts).mpr ⟨j, after, other⟩))

end

theorem displacements_eq (counts : List Nat) : displacements counts =
    if counts.sum ≤ intMax then
      some ((List.range counts.length).map fun i => (counts.take i).sum, counts.sum) else none := by
  induction counts using List.reverseRecOn with
  | nil => rfl
  | append_singleton counts count ih =>
    unfold displacements at ih ⊢
    rw [List.foldlM_append, ih]
    have sum : (counts ++ [count]).sum = counts.sum + count := by simp
    by_cases fits : counts.sum ≤ intMax
    next =>
      rw [if_pos fits, sum]
      have last : (List.range (counts ++ [count]).length).map (fun i => ((counts ++ [count]).take i).sum) =
          (List.range counts.length).map (fun i => (counts.take i).sum) ++ [counts.sum] := by
        rw [List.length_append, List.length_singleton, List.range_succ, List.map_append,
          List.map_singleton, List.take_left]
        congr 1
        refine List.map_congr_left fun i inside => ?_
        rw [List.take_append_of_le_length (Nat.le_of_lt (List.mem_range.mp inside))]
      rw [last]
      by_cases more : counts.sum + count ≤ intMax <;> simp [more]
    next =>
      rw [if_neg fits, if_neg (by omega)]
      rfl

theorem displacements_ofFn (counts : Fin n → Nat) : displacements (List.ofFn counts) =
    if ∑ i, counts i ≤ intMax then some (List.ofFn (displacement counts), ∑ i, counts i) else none := by
  have each : (List.range (List.ofFn counts).length).map (fun i => ((List.ofFn counts).take i).sum) =
      List.ofFn (displacement counts) := by
    refine List.ext_getElem (by simp) fun i inside _ => ?_
    simp [List.sum_take_ofFn, displacement]
  rw [displacements_eq, List.sum_ofFn, each]

theorem getD_ofFn {f : Fin n → Nat} (i : Fin n) : (List.ofFn f).getD i 0 = f i := by
  simp [List.getD_eq_getElem?_getD]

-- The items have the same place in bytes as in numbers of items.
def Aligned (counts : Fin n → Nat) (typeSize : Nat) : Prop :=
  ∀ i, 0 < counts i * typeSize → displacement counts i * typeSize = displacement counts i

theorem aligned_iff {counts : Fin n → Nat} {typeSize : Nat} :
    Aligned counts typeSize ↔ typeSize ≤ 1 ∨ AtMostOne counts := by
  rw [atMostOne_iff]
  constructor
  next =>
    intro aligned
    refine or_iff_not_imp_left.mpr fun large i some_ => ?_
    have same := aligned i (Nat.mul_pos some_ (by omega))
    by_contra placed
    have farther : displacement counts i * 1 < displacement counts i * typeSize :=
      Nat.mul_lt_mul_of_pos_left (by omega) (Nat.pos_of_ne_zero placed)
    omega
  next =>
    rintro (small | first) i some_
    next =>
      have unit : typeSize = 1 := by
        have := Nat.pos_of_mul_pos_left some_
        omega
      rw [unit, Nat.mul_one]
    next => rw [first i (Nat.pos_of_mul_pos_right some_), Nat.zero_mul]

section

variable {typeSize : Nat} {counts : Fin n → Nat} {parts : Fin n → List UInt8} {buffer : Buffer UInt8}

theorem malloc_eq_some {heap : Heap} {count : Nat} :
    malloc heap count typeSize = some buffer ↔
      count * typeSize ≤ intMax ∧ (List.range (count * typeSize)).map heap = buffer := by
  unfold malloc
  split <;> simp_all

theorem malloc_length {heap : Heap} {count : Nat} (result : malloc heap count typeSize = some buffer) :
    buffer.length = count * typeSize := by
  rw [← (malloc_eq_some.mp result).2, List.length_map, List.length_range]

-- A displacement taken as an offset in bytes leaves room for the items, but not where they are looked
-- for.
theorem fits_of_displacement (sized : ∀ i, (parts i).length = counts i * typeSize)
    (room : (∑ i, counts i) * typeSize ≤ buffer.length) (i : Fin n) :
    parts i = [] ∨ displacement counts i + (parts i).length ≤ buffer.length := by
  refine or_iff_not_imp_left.mpr fun some_ => ?_
  have filled : 0 < counts i * typeSize := by
    rw [← sized i]
    exact List.length_pos_iff.mpr some_
  have unit : displacement counts i * 1 ≤ displacement counts i * typeSize :=
    Nat.mul_le_mul_left _ (Nat.pos_of_mul_pos_left filled)
  have within := Nat.mul_le_mul_right typeSize (displacement_add_le_sum counts i)
  rw [Nat.add_mul] at within
  rw [sized i]
  omega

theorem writeAll_displacement (sized : ∀ i, (parts i).length = counts i * typeSize)
    (room : (∑ i, counts i) * typeSize ≤ buffer.length) (aligned : Aligned counts typeSize) :
    ∃ buffer', Buffer.writeAll buffer (List.ofFn fun i => (displacement counts i, parts i)) = some buffer' ∧
      ∀ i, Buffer.read buffer' (displacement counts i * typeSize) (counts i * typeSize) = some (parts i) := by
  have apart : ∀ i j, i < j →
      parts j = [] ∨ displacement counts i + (parts i).length ≤ displacement counts j := by
    intro i j before
    refine or_iff_not_imp_left.mpr fun some_ => ?_
    have filled : 0 < counts j * typeSize := by
      rw [← sized j]
      exact List.length_pos_iff.mpr some_
    have unit : displacement counts i * 1 ≤ displacement counts i * typeSize :=
      Nat.mul_le_mul_left _ (Nat.pos_of_mul_pos_left filled)
    have within := Nat.mul_le_mul_right typeSize (displacement_add_le counts before)
    rw [Nat.add_mul, aligned j filled] at within
    rw [sized i]
    omega
  obtain ⟨buffer', result, _, found⟩ := Buffer.writeAll_parts apart (fits_of_displacement sized room)
  refine ⟨buffer', result, fun i => ?_⟩
  have there := found i
  rw [sized i] at there
  by_cases filled : 0 < counts i * typeSize
  next => rw [aligned i filled, there]
  next =>
    have none_ : counts i * typeSize = 0 := by omega
    rw [none_] at there ⊢
    exact there

theorem writeAll_scaled (sized : ∀ i, (parts i).length = counts i * typeSize)
    (room : (∑ i, counts i) * typeSize ≤ buffer.length) :
    ∃ buffer', Buffer.writeAll buffer (List.ofFn fun i => (displacement counts i * typeSize, parts i)) =
        some buffer' ∧ buffer'.length = buffer.length ∧
      ∀ i, Buffer.read buffer' (displacement counts i * typeSize) (counts i * typeSize) = some (parts i) := by
  have apart : ∀ i j, i < j → parts j = [] ∨
      displacement counts i * typeSize + (parts i).length ≤ displacement counts j * typeSize := by
    intro i j before
    rw [sized i, ← Nat.add_mul]
    exact .inr (Nat.mul_le_mul_right typeSize (displacement_add_le counts before))
  have fits : ∀ i, parts i = [] ∨
      displacement counts i * typeSize + (parts i).length ≤ buffer.length := by
    intro i
    rw [sized i, ← Nat.add_mul]
    exact .inr (Nat.le_trans (Nat.mul_le_mul_right typeSize (displacement_add_le_sum counts i)) room)
  obtain ⟨buffer', result, size, found⟩ := Buffer.writeAll_parts apart fits
  exact ⟨buffer', result, size, fun i => by rw [← sized i]; exact found i⟩

-- Bytes that are at a displacement in items are also there when it is taken in bytes.
theorem copyPack_eq (aligned : Aligned counts typeSize) {i : Fin n} {bytes : List UInt8}
    (found : Buffer.read buffer (displacement counts i * typeSize) (counts i * typeSize) = some bytes) :
    copyPack typeSize buffer (displacement counts i) (counts i) = some
      { size := counts i * typeSize
        count := counts i
        buffer := bytes } := by
  unfold copyPack
  by_cases filled : 0 < counts i * typeSize
  next =>
    rw [aligned i filled] at found
    rw [found]
    rfl
  next =>
    have none_ : counts i * typeSize = 0 := by omega
    rw [none_] at found ⊢
    cases found
    rfl

end

theorem mapM_finRange {α : Type} {f : Fin n → Option α} {g : Fin n → α} (each : ∀ i, f i = some (g i)) :
    (List.finRange n).mapM f = some (List.ofFn g) := by
  rw [List.ofFn_eq_map]
  exact List.mapM_each fun i _ => each i

section

variable {typeSize : Nat} {sent : Fin n → Sent} {buffer buffer' : Buffer UInt8}
  {recvcounts : Fin n → Nat} {parts : Fin n → List UInt8}

theorem receive_eq (expected : ∀ s, (sent s).count * typeSize = recvcounts s * typeSize)
    (reads : ∀ s, Buffer.read (sent s).buffer ((sent s).displacement * typeSize)
      ((sent s).count * typeSize) = some (parts s)) :
    receive typeSize sent buffer recvcounts (List.ofFn (displacement recvcounts)) =
      Buffer.writeAll buffer (List.ofFn fun s => (displacement recvcounts s * typeSize, parts s)) := by
  unfold receive
  rw [mapM_finRange (g := fun s => (displacement recvcounts s * typeSize, parts s))]
  next => rfl
  next =>
    intro s
    rw [if_pos (expected s), reads s, getD_ofFn]
    rfl

theorem receive_reads {rdispls : List Nat}
    (result : receive typeSize sent buffer recvcounts rdispls = some buffer') (s : Fin n) :
    (sent s).count * typeSize = recvcounts s * typeSize ∧
      ∃ bytes, Buffer.read (sent s).buffer ((sent s).displacement * typeSize)
        ((sent s).count * typeSize) = some bytes := by
  unfold receive at result
  obtain ⟨copies, read_, _⟩ := Option.bind_eq_some_iff.mp result
  obtain ⟨copy, here⟩ := List.each_some read_ s (List.mem_finRange s)
  split at here
  next expected =>
    obtain ⟨bytes, found, _⟩ := Option.map_eq_some_iff.mp here
    exact ⟨expected, bytes, found⟩
  next => cases here

end

section

variable {counts : Fin n → Nat} {copy : Fin n → Option DataPack} {l : List (Fin n)}
  {imported result : UnorderedMap (Fin n) DataPack}

theorem imported_some (each : ∀ i, 0 < counts i → ∃ pack, copy i = some pack) :
    ∃ result, l.foldlM (fun (imported : UnorderedMap (Fin n) DataPack) (i : Fin n) =>
      if counts i > 0 then (copy i).map (imported.insert i) else some imported) imported = some result := by
  induction l generalizing imported with
  | nil => exact ⟨imported, rfl⟩
  | cons i rest ih =>
    rw [List.foldlM_cons]
    by_cases some_ : counts i > 0
    next =>
      obtain ⟨pack, copied⟩ := each i some_
      rw [if_pos some_, copied]
      exact ih
    next =>
      rw [if_neg some_]
      exact ih

theorem lookup_imported (done : l.foldlM (fun (imported : UnorderedMap (Fin n) DataPack) (i : Fin n) =>
      if counts i > 0 then (copy i).map (imported.insert i) else some imported) imported = some result)
    (k : Fin n) : result.lookup k = if k ∈ l ∧ counts k > 0 then copy k else imported.lookup k := by
  induction l generalizing imported with
  | nil =>
    cases done
    simp
  | cons i rest ih =>
    rw [List.foldlM_cons] at done
    obtain ⟨imported', step, later⟩ := Option.bind_eq_some_iff.mp done
    rw [ih later]
    by_cases after : k ∈ rest ∧ counts k > 0
    next => rw [if_pos after, if_pos ⟨List.mem_cons_of_mem i after.1, after.2⟩]
    rw [if_neg after]
    by_cases some_ : counts i > 0
    next =>
      rw [if_pos some_] at step
      obtain ⟨pack, copied, rfl⟩ := Option.map_eq_some_iff.mp step
      rw [UnorderedMap.lookup_insert']
      by_cases here : k = i
      next => rw [if_pos here, here, if_pos ⟨List.mem_cons_self, some_⟩, copied]
      next =>
        rw [if_neg here, if_neg]
        rintro ⟨member, positive⟩
        exact after ⟨(List.mem_cons.mp member).resolve_left here, positive⟩
    next =>
      rw [if_neg some_] at step
      cases step
      rw [if_neg]
      rintro ⟨member, positive⟩
      rcases List.mem_cons.mp member with rfl | listed
      next => exact some_ positive
      next => exact after ⟨listed, positive⟩

end

theorem DataPack.Holds.eq_empty {pack : DataPack} {typeSize : Nat} (holds : pack.Holds 0 typeSize) :
    pack = .empty := by
  obtain ⟨size, count, buffer⟩ := pack
  obtain ⟨counted, sized, filled⟩ := holds
  simp only [Nat.zero_mul] at counted sized filled
  subst counted sized
  rw [List.eq_nil_of_length_eq_zero filled]
  rfl

theorem DataPack.Holds.eq_pack {pack : DataPack} {count typeSize : Nat} (holds : pack.Holds count typeSize) :
    { size := count * typeSize
      count
      buffer := pack.buffer } = pack := by
  have counted := holds.counted
  have sized := holds.sized
  cases pack
  simp_all

theorem DataPack.Holds.length {pack : DataPack} {count typeSize : Nat} (holds : pack.Holds count typeSize) :
    pack.buffer.length = count * typeSize := holds.filled.trans holds.sized

variable {typeSize : Nat}

theorem displacements_some {counts : Fin n → Nat} (fits : Fits (∑ i, counts i) typeSize) :
    displacements (List.ofFn counts) = some (List.ofFn (displacement counts), ∑ i, counts i) := by
  rw [displacements_ofFn, if_pos fits.1]

theorem malloc_some {count : Nat} (heap : Heap) (fits : Fits count typeSize) :
    ∃ buffer, malloc heap count typeSize = some buffer :=
  ⟨_, malloc_eq_some.mpr ⟨fits.2, rfl⟩⟩

section

variable {counts : Fin n → Nat} {parts : Fin n → List UInt8}

theorem send_some (heap : Heap) (sized : ∀ i, (parts i).length = counts i * typeSize)
    (fits : Fits (∑ i, counts i) typeSize) (aligned : Aligned counts typeSize) :
    ∃ sendBuffer, ((malloc heap (∑ i, counts i) typeSize).bind fun buffer =>
        Buffer.writeAll buffer (List.ofFn fun i =>
          ((List.ofFn (displacement counts)).getD i 0, parts i))) = some sendBuffer ∧
      ∀ i, Buffer.read sendBuffer (displacement counts i * typeSize) (counts i * typeSize) =
        some (parts i) := by
  obtain ⟨buffer, allocated⟩ := malloc_some heap fits
  obtain ⟨sendBuffer, wrote, found⟩ :=
    writeAll_displacement sized (Nat.le_of_eq (malloc_length allocated).symm) aligned
  refine ⟨sendBuffer, ?_, found⟩
  simp only [allocated, Option.bind_some, getD_ofFn, wrote]

theorem receive_some (heap : Heap) {sent : Fin n → Sent} (sized : ∀ i, (parts i).length = counts i * typeSize)
    (fits : Fits (∑ i, counts i) typeSize) (expected : ∀ s, (sent s).count * typeSize = counts s * typeSize)
    (reads : ∀ s, Buffer.read (sent s).buffer ((sent s).displacement * typeSize)
      ((sent s).count * typeSize) = some (parts s)) :
    ∃ recvBuffer, ((malloc heap (∑ i, counts i) typeSize).bind fun buffer =>
        receive typeSize sent buffer counts (List.ofFn (displacement counts))) = some recvBuffer ∧
      ∀ i, Buffer.read recvBuffer (displacement counts i * typeSize) (counts i * typeSize) =
        some (parts i) := by
  obtain ⟨buffer, allocated⟩ := malloc_some heap fits
  obtain ⟨recvBuffer, wrote, _, found⟩ :=
    writeAll_scaled sized (Nat.le_of_eq (malloc_length allocated).symm)
  refine ⟨recvBuffer, ?_, found⟩
  rw [allocated, Option.bind_some, receive_eq expected reads, wrote]

-- The packs of a process are all built, when each of them can be copied.
theorem import_some {packs : Fin n → DataPack} {copy : Fin n → Option DataPack}
    (copies : ∀ i, copy i = some (packs i)) (holds : ∀ i, (packs i).Holds (counts i) typeSize) :
    ∃ imported, ((List.finRange n).foldlM (fun (imported : UnorderedMap (Fin n) DataPack) (i : Fin n) =>
        if counts i > 0 then (copy i).map (imported.insert i) else some imported) ∅) = some imported ∧
      ∀ s, packOf imported s = packs s := by
  obtain ⟨imported, done⟩ := @imported_some n counts copy (List.finRange n) ∅ fun i _ => ⟨_, copies i⟩
  refine ⟨imported, done, fun s => ?_⟩
  rw [packOf, lookup_imported done]
  by_cases some_ : counts s > 0
  next =>
    rw [if_pos ⟨List.mem_finRange s, some_⟩, copies s]
    rfl
  next =>
    rw [if_neg fun both => some_ both.2]
    have empty := holds s
    rw [Nat.eq_zero_of_not_pos some_] at empty
    exact empty.eq_empty.symm

end

-- Whatever the items and the unset bytes are, each process gets the packs that were exported for it.
def AllToAllDelivers (typeSize : Nat) (counts : Fin n → Fin n → Nat) : Prop :=
  ∀ (sendHeap recvHeap : Fin n → Heap) (dataPack : Fin n → UnorderedMap (Fin n) DataPack),
    (∀ p i, (packOf (dataPack p) i).Holds (counts p i) typeSize) →
    ∃ imported, allToAll typeSize sendHeap recvHeap dataPack = some imported ∧
      ∀ r s, packOf (imported r) s = packOf (dataPack s) r

theorem allToAllDelivers {counts : Fin n → Fin n → Nat}
    (fits : ∀ p, Fits (∑ i, counts p i) typeSize ∧ Fits (∑ i, counts i p) typeSize)
    (aligned : ∀ p, Aligned (counts p) typeSize ∧ Aligned (fun i => counts i p) typeSize) :
    AllToAllDelivers typeSize counts := by
  intro sendHeap recvHeap dataPack holds
  have counted : ∀ p i, (packOf (dataPack p) i).count = counts p i := fun p i => (holds p i).counted
  have sdispls : (collect fun p => displacements (List.ofFn (counts p))) =
      some fun p => (List.ofFn (displacement (counts p)), ∑ i, counts p i) :=
    collect_eq_some.mpr fun p => displacements_some (fits p).1
  have rdispls : (collect fun p => displacements (List.ofFn fun i => counts i p)) =
      some fun p => (List.ofFn (displacement fun i => counts i p), ∑ i, counts i p) :=
    collect_eq_some.mpr fun p => displacements_some (fits p).2
  obtain ⟨sendBuffer, packed, sends⟩ := collect_some fun p =>
    send_some (sendHeap p) (fun i => (holds p i).length) (fits p).1 (aligned p).1
  obtain ⟨recvBuffer, received, found⟩ := collect_some fun p =>
    @receive_some n typeSize (fun s => counts s p) (fun s => (packOf (dataPack s) p).buffer)
      (recvHeap p) (fun s =>
        { buffer := sendBuffer s
          count := counts s p
          displacement := (List.ofFn (displacement (counts s))).getD p 0 })
      (fun s => (holds s p).length) (fits p).2 (fun _ => rfl) fun s => by
        rw [getD_ofFn]
        exact sends s p
  obtain ⟨imported, done, delivered⟩ := collect_some fun p =>
    @import_some n typeSize (fun s => counts s p) (fun s => packOf (dataPack s) p)
      (fun i => copyPack typeSize (recvBuffer p)
        ((List.ofFn (displacement fun s => counts s p)).getD i 0) (counts i p))
      (fun i => by
        rw [getD_ofFn, @copyPack_eq n typeSize (fun s => counts s p) (recvBuffer p) (aligned p).2 i _
          (found p i), (holds i p).eq_pack])
      fun i => holds i p
  refine ⟨imported, ?_, delivered⟩
  unfold allToAll
  simp only [counted, sdispls, rdispls, packed, received, Option.bind_some]
  exact done

def GatherDelivers (typeSize : Nat) (counts : Fin n → Nat) : Prop :=
  ∀ (sendHeap : Fin n → Heap) (heap : Heap) (data : Fin n → DataPack),
    (∀ p, (data p).Holds (counts p) typeSize) →
    gather typeSize sendHeap heap data = some (List.ofFn data)

def AllGatherDelivers (typeSize : Nat) (counts : Fin n → Nat) : Prop :=
  ∀ (sendHeap recvHeap : Fin n → Heap) (data : Fin n → DataPack),
    (∀ p, (data p).Holds (counts p) typeSize) →
    allGather typeSize sendHeap recvHeap data = some fun _ => List.ofFn data

theorem sendBuffer_some {heap : Heap} {data : DataPack} {count : Nat} (holds : data.Holds count typeSize)
    (fits : count * typeSize ≤ intMax) : ∃ buffer, sendBuffer typeSize heap data = some buffer ∧
      Buffer.read buffer (0 * typeSize) (count * typeSize) = some data.buffer := by
  have allocated : malloc heap data.count typeSize = some ((List.range (count * typeSize)).map heap) := by
    rw [holds.counted]
    exact malloc_eq_some.mpr ⟨fits, rfl⟩
  have size : ((List.range (count * typeSize)).map heap).length = count * typeSize := by simp
  obtain ⟨buffer, wrote⟩ := @Buffer.write_some _ ((List.range (count * typeSize)).map heap) 0 data.buffer
    (.inr (by rw [size, holds.length, Nat.zero_add]))
  refine ⟨buffer, by rw [sendBuffer, allocated, Option.bind_some, wrote], ?_⟩
  obtain ⟨same, get⟩ := Buffer.write_get wrote
  rw [← holds.length, Nat.zero_mul]
  refine Buffer.read_eq (by rw [same, size, holds.length, Nat.zero_add]) fun x inside => ?_
  rw [Nat.zero_add, get, if_pos ⟨Nat.zero_le x, by omega⟩, Nat.sub_zero]

theorem gatherPacks_some {counts : Fin n → Nat} {heap : Heap} {data : Fin n → DataPack}
    {sendBuffers : Fin n → Buffer UInt8} (holds : ∀ p, (data p).Holds (counts p) typeSize)
    (fits : Fits (∑ i, counts i) typeSize) (aligned : Aligned counts typeSize)
    (reads : ∀ p, Buffer.read (sendBuffers p) (0 * typeSize) (counts p * typeSize) =
      some (data p).buffer) :
    gatherPacks typeSize heap data sendBuffers counts = some (List.ofFn data) := by
  have counted : ∀ p, (data p).count = counts p := fun p => (holds p).counted
  obtain ⟨recvBuffer, received, found⟩ := @receive_some n typeSize counts (fun s => (data s).buffer) heap
    (fun s =>
      { buffer := sendBuffers s
        count := counts s
        displacement := 0 }) (fun s => (holds s).length) fits (fun _ => rfl) reads
  obtain ⟨buffer, allocated, wrote⟩ := Option.bind_eq_some_iff.mp received
  simp only [gatherPacks, displacements_some fits, allocated, counted, wrote, Option.bind_some]
  refine mapM_finRange fun i => ?_
  rw [getD_ofFn, copyPack_eq aligned (found i), (holds i).eq_pack]

theorem le_sum_of_fits {counts : Fin n → Nat} (fits : Fits (∑ i, counts i) typeSize) (p : Fin n) :
    counts p * typeSize ≤ intMax := by
  have part := Finset.single_le_sum (fun i _ => Nat.zero_le (counts i)) (Finset.mem_univ p)
  exact Nat.le_trans (Nat.mul_le_mul_right typeSize part) fits.2

theorem gatherDelivers {counts : Fin n → Nat} (fits : Fits (∑ i, counts i) typeSize)
    (aligned : Aligned counts typeSize) : GatherDelivers typeSize counts := by
  intro sendHeap heap data holds
  obtain ⟨sendBuffers, sent, reads⟩ := collect_some fun p =>
    @sendBuffer_some typeSize (sendHeap p) (data p) (counts p) (holds p) (le_sum_of_fits fits p)
  have counted : (fun p => (data p).count) = counts := funext fun p => (holds p).counted
  rw [gather, sent, Option.bind_some, counted]
  exact gatherPacks_some holds fits aligned reads

theorem allGatherDelivers {counts : Fin n → Nat} (fits : Fits (∑ i, counts i) typeSize)
    (same : ∀ i, counts i * typeSize = counts i) : AllGatherDelivers typeSize counts := by
  intro sendHeap recvHeap data holds
  obtain ⟨sendBuffers, sent, reads⟩ := collect_some fun p =>
    @sendBuffer_some typeSize (sendHeap p) (data p) (counts p) (holds p) (le_sum_of_fits fits p)
  have sized : (fun p => (data p).size) = counts := funext fun p => (holds p).sized.trans (same p)
  rw [allGather, sent, Option.bind_some, sized]
  have aligned : Aligned counts typeSize := by
    intro i some_
    unfold displacement
    rw [Finset.sum_mul]
    exact Finset.sum_congr rfl fun j _ => same j
  exact collect_eq_some.mpr fun p => gatherPacks_some holds fits aligned reads

theorem mapM_finRange_inv {α : Type} {f : Fin n → Option α} {g : Fin n → α}
    (result : (List.finRange n).mapM f = some (List.ofFn g)) : ∀ i, f i = some (g i) := by
  choose g' each using fun i => List.each_some result i (List.mem_finRange i)
  have same : List.ofFn g' = List.ofFn g := Option.some.inj ((mapM_finRange each).symm.trans result)
  intro i
  rw [each i, List.ofFn_injective same]

theorem fits_of_displacements {counts : Fin n → Nat} {rdispls : List Nat × Nat} {heap : Heap}
    {buffer : Buffer UInt8} (placed : displacements (List.ofFn counts) = some rdispls)
    (allocated : malloc heap rdispls.2 typeSize = some buffer) :
    Fits (∑ i, counts i) typeSize ∧ rdispls = (List.ofFn (displacement counts), ∑ i, counts i) := by
  rw [displacements_ofFn] at placed
  split at placed
  next below =>
    cases placed
    exact ⟨⟨below, (malloc_eq_some.mp allocated).1⟩, rfl⟩
  next => cases placed

def constantPack (typeSize count : Nat) (value : UInt8) : DataPack where
  size := count * typeSize
  count
  buffer := List.replicate (count * typeSize) value

theorem constantPack_holds (count : Nat) (value : UInt8) :
    (constantPack typeSize count value).Holds count typeSize where
  counted := rfl
  sized := rfl
  filled := by simp [constantPack]

theorem constantPack_get {count x : Nat} {value value' : UInt8}
    (found : (constantPack typeSize count value).buffer[x]? = some value') :
    x < count * typeSize ∧ value' = value := by
  obtain ⟨inside, rfl⟩ := List.getElem?_eq_some_iff.mp found
  simp only [constantPack, List.length_replicate] at inside
  exact ⟨inside, by simp [constantPack]⟩

def Blank (buffer : List UInt8) : Prop := ∀ (x : Nat) (value : UInt8), buffer[x]? = some value → value = 0

theorem blank_malloc {buffer : Buffer UInt8} {count : Nat}
    (allocated : malloc (fun _ => 0) count typeSize = some buffer) : Blank buffer := by
  rw [← (malloc_eq_some.mp allocated).2]
  intro x value found
  obtain ⟨_, _, rfl⟩ := (List.getElem?_map ..).symm.trans found |> Option.map_eq_some_iff.mp
  rfl

theorem blank_constantPack (count : Nat) : Blank (constantPack typeSize count 0).buffer :=
  fun _ _ found => (constantPack_get found).2

theorem Blank.read {buffer items : List UInt8} {offset length : Nat} (blank : Blank buffer)
    (result : Buffer.read buffer offset length = some items) : Blank items := by
  intro x value found
  obtain ⟨size, get⟩ := Buffer.read_get result
  have inside : x < items.length := (List.getElem?_eq_some_iff.mp found).1
  rw [get x (by omega)] at found
  exact blank _ _ found

theorem copyPack_get {buffer : Buffer UInt8} {offset count : Nat} {value : UInt8}
    (copied : copyPack typeSize buffer offset count = some (constantPack typeSize count value))
    {x : Nat} (inside : x < count * typeSize) : buffer[offset + x]? = some value := by
  obtain ⟨bytes, result, same⟩ := Option.map_eq_some_iff.mp copied
  obtain ⟨size, get⟩ := Buffer.read_get result
  have bytes_ : bytes = List.replicate (count * typeSize) value := congrArg DataPack.buffer same
  rw [← get x inside, bytes_, List.getElem?_replicate, if_pos inside]

section

variable {sent : Fin n → Sent} {buffer recvBuffer : Buffer UInt8} {counts : Fin n → Nat} {s : Fin n}

theorem receive_inv (result : receive typeSize sent buffer counts (List.ofFn (displacement counts)) =
      some recvBuffer) : ∃ parts : Fin n → List UInt8,
      (∀ i, Buffer.read (sent i).buffer ((sent i).displacement * typeSize)
        ((sent i).count * typeSize) = some (parts i)) ∧
      Buffer.writeAll buffer (List.ofFn fun i => (displacement counts i * typeSize, parts i)) =
        some recvBuffer := by
  choose expected parts reads using receive_reads result
  rw [receive_eq expected reads] at result
  exact ⟨parts, reads, result⟩

theorem receive_first (result : receive typeSize sent buffer counts (List.ofFn (displacement counts)) =
      some recvBuffer) (blank : Blank buffer) (others : ∀ i ≠ s, Blank (sent i).buffer)
    (after : displacement counts s < displacement counts s * typeSize) :
    ∀ value, recvBuffer[displacement counts s]? = some value → value = 0 := by
  obtain ⟨parts, reads, wrote⟩ := receive_inv result
  refine Buffer.writeAll_forall wrote (blank _) fun copy member before value found => ?_
  obtain ⟨i, rfl⟩ := List.mem_ofFn.mp member
  by_cases here : i = s
  next =>
    subst here
    exact absurd before (by simpa using after)
  next => exact (others i here).read (reads i) _ value found

theorem receive_last (result : receive typeSize sent buffer counts (List.ofFn (displacement counts)) =
      some recvBuffer) (blank : Blank buffer) (others : ∀ i ≠ s, Blank (sent i).buffer)
    (same : displacement counts s * typeSize = displacement counts s)
    (some_ : 0 < (sent s).count * typeSize)
    (last : ∀ value, (sent s).buffer[(sent s).displacement * typeSize +
      ((sent s).count * typeSize - 1)]? = some value → value = 0) :
    ∀ value, recvBuffer[displacement counts s + ((sent s).count * typeSize - 1)]? = some value →
      value = 0 := by
  obtain ⟨parts, reads, wrote⟩ := receive_inv result
  refine Buffer.writeAll_forall wrote (blank _) fun copy member before value found => ?_
  obtain ⟨i, rfl⟩ := List.mem_ofFn.mp member
  by_cases here : i = s
  next =>
    subst here
    have get := (Buffer.read_get (reads i)).2 ((sent i).count * typeSize - 1) (by omega)
    rw [same, Nat.add_sub_cancel_left, get] at found
    exact last value found
  next => exact (others i here).read (reads i) _ value found

end

-- What a successful `allToAll` has sent, received and copied.
structure Exchanged (typeSize : Nat) (dataPack imported : Fin n → UnorderedMap (Fin n) DataPack)
    (counts : Fin n → Fin n → Nat) (sendStart sendBuffer recvStart recvBuffer : Fin n → Buffer UInt8) :
    Prop where
  fits : ∀ p, Fits (∑ i, counts p i) typeSize ∧ Fits (∑ i, counts i p) typeSize
  packed : ∀ p, Buffer.writeAll (sendStart p) (List.ofFn fun i =>
    (displacement (counts p) i, (packOf (dataPack p) i).buffer)) = some (sendBuffer p)
  received : ∀ p, receive typeSize (fun s =>
    { buffer := sendBuffer s
      count := counts s p
      displacement := displacement (counts s) p }) (recvStart p) (fun i => counts i p)
    (List.ofFn (displacement fun i => counts i p)) = some (recvBuffer p)
  copied : ∀ p i, 0 < counts i p → (imported p).lookup i = copyPack typeSize (recvBuffer p)
    (displacement (fun i => counts i p) i) (counts i p)

theorem allToAll_inv {sendHeap recvHeap : Fin n → Heap}
    {dataPack imported : Fin n → UnorderedMap (Fin n) DataPack} {counts : Fin n → Fin n → Nat}
    (counted : ∀ p i, (packOf (dataPack p) i).count = counts p i)
    (result : allToAll typeSize sendHeap recvHeap dataPack = some imported) :
    ∃ sendStart sendBuffer recvStart recvBuffer,
      Exchanged typeSize dataPack imported counts sendStart sendBuffer recvStart recvBuffer ∧
      ∀ p, malloc (sendHeap p) (∑ i, counts p i) typeSize = some (sendStart p) ∧
        malloc (recvHeap p) (∑ i, counts i p) typeSize = some (recvStart p) := by
  unfold allToAll at result
  simp only [counted] at result
  obtain ⟨sdispls, splaced, afterDispls⟩ := Option.bind_eq_some_iff.mp result
  obtain ⟨sendBuffer, packed, afterSend⟩ := Option.bind_eq_some_iff.mp afterDispls
  obtain ⟨rdispls, rplaced, afterCounts⟩ := Option.bind_eq_some_iff.mp afterSend
  obtain ⟨recvBuffer, received, done⟩ := Option.bind_eq_some_iff.mp afterCounts
  rw [collect_eq_some] at splaced packed rplaced received done
  clear result afterDispls afterSend afterCounts
  choose sendStart sendStarts packed using fun p => Option.bind_eq_some_iff.mp (packed p)
  choose recvStart recvStarts received using fun p => Option.bind_eq_some_iff.mp (received p)
  have sends := fun p => fits_of_displacements (splaced p) (sendStarts p)
  have recvs := fun p => fits_of_displacements (rplaced p) (recvStarts p)
  obtain rfl : sdispls = fun p => (List.ofFn (displacement (counts p)), ∑ i, counts p i) :=
    funext fun p => (sends p).2
  obtain rfl : rdispls = fun p => (List.ofFn (displacement fun i => counts i p), ∑ i, counts i p) :=
    funext fun p => (recvs p).2
  simp only [getD_ofFn] at packed received done
  refine ⟨sendStart, sendBuffer, recvStart, recvBuffer,
    ⟨fun p => ⟨(sends p).1, (recvs p).1⟩, packed, received, fun p i some_ => ?_⟩,
    fun p => ⟨sendStarts p, recvStarts p⟩⟩
  rw [lookup_imported (done p), if_pos ⟨List.mem_finRange i, some_⟩]

def onlyFrom (typeSize : Nat) (counts : Fin n → Fin n → Nat) (s r p : Fin n) :
    UnorderedMap (Fin n) DataPack :=
  (List.finRange n).foldl (fun packs i =>
    packs.insert i (constantPack typeSize (counts p i) (if p = s ∧ i = r then 1 else 0))) ∅

theorem packOf_onlyFrom (counts : Fin n → Fin n → Nat) (s r p i : Fin n) :
    packOf (onlyFrom typeSize counts s r p) i =
      constantPack typeSize (counts p i) (if p = s ∧ i = r then 1 else 0) := by
  have listed : ∀ (l : List (Fin n)) (packs : UnorderedMap (Fin n) DataPack),
      (l.foldl (fun packs i => packs.insert i
        (constantPack typeSize (counts p i) (if p = s ∧ i = r then 1 else 0))) packs).lookup i =
      if i ∈ l then some (constantPack typeSize (counts p i) (if p = s ∧ i = r then 1 else 0))
      else packs.lookup i := by
    intro l
    induction l with
    | nil => simp
    | cons j rest ih =>
      intro packs
      rw [List.foldl_cons, ih, UnorderedMap.lookup_insert']
      by_cases later : i ∈ rest
      next => simp [later]
      next =>
        by_cases here : i = j
        next => simp [here]
        next => simp [later, here]
  rw [packOf, onlyFrom, listed, if_pos (List.mem_finRange i)]
  rfl

theorem aligned_of_delivers {counts : Fin n → Fin n → Nat} (delivers : AllToAllDelivers typeSize counts)
    {s r : Fin n} (some_ : 0 < counts s r * typeSize) :
    displacement (counts s) r * typeSize = displacement (counts s) r ∧
      displacement (fun i => counts i r) s * typeSize = displacement (fun i => counts i r) s := by
  have holds : ∀ p i, (packOf (onlyFrom typeSize counts s r p) i).Holds (counts p i) typeSize := by
    intro p i
    rw [packOf_onlyFrom]
    exact constantPack_holds _ _
  obtain ⟨imported, result, delivered⟩ := delivers (fun _ _ => 0) (fun _ _ => 0) _ holds
  obtain ⟨sendStart, sendBuffer, recvStart, recvBuffer, exchanged, starts⟩ :=
    allToAll_inv (fun p i => (holds p i).counted) result
  have count_pos : 0 < counts s r := Nat.pos_of_mul_pos_right some_
  have size_pos : 0 < typeSize := Nat.pos_of_mul_pos_left some_
  have copied : copyPack typeSize (recvBuffer r) (displacement (fun i => counts i r) s) (counts s r) =
      some (constantPack typeSize (counts s r) 1) := by
    have same := delivered r s
    rw [packOf_onlyFrom, if_pos ⟨rfl, rfl⟩, packOf, exchanged.copied r s count_pos] at same
    cases copied : copyPack typeSize (recvBuffer r) (displacement (fun i => counts i r) s) (counts s r) with
    | none =>
      rw [copied] at same
      have none_ : 0 = counts s r := congrArg DataPack.count same
      omega
    | some pack =>
      rw [copied] at same
      rw [← same]
      rfl
  have others : ∀ i ≠ s, Blank (sendBuffer i) := by
    intro i apart x
    refine Buffer.writeAll_forall (exchanged.packed i) (blank_malloc (starts i).1 x) ?_
    intro copy member _ value found
    obtain ⟨j, rfl⟩ := List.mem_ofFn.mp member
    rw [packOf_onlyFrom, if_neg fun both => apart both.1] at found
    exact blank_constantPack _ _ _ found
  have first : displacement (fun i => counts i r) s * typeSize = displacement (fun i => counts i r) s := by
    by_contra moved
    have after : displacement (fun i => counts i r) s * 1 ≤
        displacement (fun i => counts i r) s * typeSize := Nat.mul_le_mul_left _ size_pos
    have zero := receive_first (exchanged.received r) (blank_malloc (starts r).2) others (by omega)
    have one := copyPack_get copied some_
    rw [Nat.add_zero] at one
    exact absurd (zero 1 one) (by decide)
  refine ⟨?_, first⟩
  by_contra moved
  have after : displacement (counts s) r * 1 ≤ displacement (counts s) r * typeSize :=
    Nat.mul_le_mul_left _ size_pos
  have zero := receive_last (exchanged.received r) (blank_malloc (starts r).2) others first some_ ?_
  next =>
    have one := copyPack_get copied (x := counts s r * typeSize - 1) (by omega)
    exact absurd (zero 1 one) (by decide)
  next =>
    refine Buffer.writeAll_forall (exchanged.packed s) (blank_malloc (starts s).1 _) ?_
    intro copy member before value found
    obtain ⟨j, rfl⟩ := List.mem_ofFn.mp member
    rw [packOf_onlyFrom] at found
    by_cases here : j = r
    next =>
      subst here
      have inside := (constantPack_get found).1
      simp only at inside before
      omega
    next =>
      rw [if_neg fun both => here both.2] at found
      exact blank_constantPack _ _ _ found

theorem allToAllDelivers_iff {counts : Fin n → Fin n → Nat} : AllToAllDelivers typeSize counts ↔
    (∀ p, Fits (∑ i, counts p i) typeSize ∧ Fits (∑ i, counts i p) typeSize) ∧
    ∀ p, Aligned (counts p) typeSize ∧ Aligned (fun i => counts i p) typeSize := by
  constructor
  next =>
    intro delivers
    refine ⟨fun p => ?_, fun p => ⟨fun i some_ => (aligned_of_delivers delivers some_).1,
      fun i some_ => (aligned_of_delivers delivers some_).2⟩⟩
    have holds : ∀ q i, (packOf (onlyFrom typeSize counts p p q) i).Holds (counts q i) typeSize := by
      intro q i
      rw [packOf_onlyFrom]
      exact constantPack_holds _ _
    obtain ⟨imported, result, _⟩ := delivers (fun _ _ => 0) (fun _ _ => 0) _ holds
    obtain ⟨_, _, _, _, exchanged, _⟩ := allToAll_inv (fun q i => (holds q i).counted) result
    exact exchanged.fits p
  next => exact fun condition => allToAllDelivers condition.1 condition.2

theorem gatherPacks_inv {counts : Fin n → Nat} {heap : Heap} {data packs : Fin n → DataPack}
    {sendBuffers : Fin n → Buffer UInt8}
    (result : gatherPacks typeSize heap data sendBuffers counts = some (List.ofFn packs)) :
    Fits (∑ i, counts i) typeSize ∧ ∃ start recvBuffer,
      malloc heap (∑ i, counts i) typeSize = some start ∧
      receive typeSize (fun s =>
        { buffer := sendBuffers s
          count := (data s).count
          displacement := 0 }) start counts (List.ofFn (displacement counts)) = some recvBuffer ∧
      ∀ i, copyPack typeSize recvBuffer (displacement counts i) (counts i) = some (packs i) := by
  obtain ⟨rdispls, placed, afterDispls⟩ := Option.bind_eq_some_iff.mp result
  obtain ⟨start, allocated, afterStart⟩ := Option.bind_eq_some_iff.mp afterDispls
  obtain ⟨recvBuffer, received, copied⟩ := Option.bind_eq_some_iff.mp afterStart
  clear result afterDispls afterStart
  obtain ⟨fits, rfl⟩ := fits_of_displacements placed allocated
  refine ⟨fits, start, recvBuffer, allocated, received, fun i => ?_⟩
  have here := mapM_finRange_inv copied i
  rw [getD_ofFn] at here
  exact here

theorem blank_sendBuffer {count : Nat} {buffer : Buffer UInt8}
    (sent : sendBuffer typeSize (fun _ => 0) (constantPack typeSize count 0) = some buffer) :
    Blank buffer := by
  obtain ⟨start, allocated, wrote⟩ := Option.bind_eq_some_iff.mp sent
  intro x value found
  rw [(Buffer.write_get wrote).2] at found
  split at found
  next => exact blank_constantPack _ _ _ found
  next => exact blank_malloc allocated _ _ found

theorem gatherDelivers_iff {counts : Fin n → Nat} : GatherDelivers typeSize counts ↔
    Fits (∑ i, counts i) typeSize ∧ Aligned counts typeSize := by
  constructor
  next =>
    intro delivers
    have gathered : ∀ s : Fin n, ∃ sendBuffers : Fin n → Buffer UInt8,
        (∀ i ≠ s, Blank (sendBuffers i)) ∧
        gatherPacks typeSize (fun _ => 0)
          (fun p => constantPack typeSize (counts p) (if p = s then 1 else 0)) sendBuffers counts =
        some (List.ofFn fun p => constantPack typeSize (counts p) (if p = s then 1 else 0)) := by
      intro s
      have result := delivers (fun _ _ => 0) (fun _ => 0)
        (fun p => constantPack typeSize (counts p) (if p = s then 1 else 0))
        fun p => constantPack_holds _ _
      obtain ⟨sendBuffers, sent, gathered⟩ := Option.bind_eq_some_iff.mp result
      refine ⟨sendBuffers, fun i apart => ?_, gathered⟩
      have blank := collect_eq_some.mp sent i
      simp only [if_neg apart] at blank
      exact blank_sendBuffer blank
    constructor
    case left =>
      cases n with
      | zero => exact ⟨Nat.zero_le _, by simp⟩
      | succ n =>
        obtain ⟨_, _, gathered⟩ := gathered 0
        exact (gatherPacks_inv gathered).1
    case right =>
      intro s some_
      by_contra moved
      obtain ⟨sendBuffers, others, gathered⟩ := gathered s
      obtain ⟨_, start, recvBuffer, allocated, received, copied⟩ := gatherPacks_inv gathered
      have unit : displacement counts s * 1 ≤ displacement counts s * typeSize :=
        Nat.mul_le_mul_left _ (Nat.pos_of_mul_pos_left some_)
      have zero := receive_first received (blank_malloc allocated) others (by omega)
      have here := copied s
      rw [if_pos rfl] at here
      have one := copyPack_get here some_
      rw [Nat.add_zero] at one
      exact absurd (zero 1 one) (by decide)
  next => exact fun condition => gatherDelivers condition.1 condition.2

theorem allGatherDelivers_iff {counts : Fin n → Nat} : AllGatherDelivers typeSize counts ↔
    Fits (∑ i, counts i) typeSize ∧ ∀ i, counts i * typeSize = counts i := by
  constructor
  next =>
    intro delivers
    have result := delivers (fun _ _ => 0) (fun _ _ => 0) (fun p => constantPack typeSize (counts p) 0)
      fun p => constantPack_holds _ _
    obtain ⟨sendBuffers, _, gathered⟩ := Option.bind_eq_some_iff.mp result
    have gathered := fun p => gatherPacks_inv (collect_eq_some.mp gathered p)
    have same : ∀ i, counts i * typeSize = counts i := by
      intro i
      obtain ⟨_, _, _, _, _, copied⟩ := gathered i
      obtain ⟨_, _, pack⟩ := Option.map_eq_some_iff.mp (copied i)
      exact congrArg DataPack.count pack
    refine ⟨?_, same⟩
    cases n with
    | zero => exact ⟨Nat.zero_le _, by simp⟩
    | succ n =>
      have fits := (gathered 0).1
      simp only [constantPack, same] at fits
      exact fits
  next => exact fun condition => allGatherDelivers condition.1 condition.2

/-- Items of several bytes are all delivered only when no process has items before others in a buffer,
and never by `allGather`. -/
theorem collectives_deliver_iff (n typeSize : Nat) :
    (∀ counts : Fin n → Fin n → Nat, AllToAllDelivers typeSize counts ↔
      (∀ p, Fits (∑ i, counts p i) typeSize ∧ Fits (∑ i, counts i p) typeSize) ∧
      (typeSize ≤ 1 ∨ ∀ p, AtMostOne (counts p) ∧ AtMostOne (fun i => counts i p))) ∧
    ∀ counts : Fin n → Nat,
      (GatherDelivers typeSize counts ↔
        Fits (∑ i, counts i) typeSize ∧ (typeSize ≤ 1 ∨ AtMostOne counts)) ∧
      (AllGatherDelivers typeSize counts ↔
        Fits (∑ i, counts i) typeSize ∧ (typeSize = 1 ∨ ∀ i, counts i = 0)) := by
  refine ⟨fun counts => ?_, fun counts => ⟨?_, ?_⟩⟩
  next =>
    rw [allToAllDelivers_iff]
    refine and_congr_right fun _ => ?_
    simp only [aligned_iff, ← or_and_left, forall_or_left]
  next => rw [gatherDelivers_iff, aligned_iff]
  next =>
    rw [allGatherDelivers_iff]
    refine and_congr_right fun _ => ⟨fun same => ?_, ?_⟩
    next =>
      refine or_iff_not_imp_left.mpr fun other i => ?_
      by_contra some_
      exact other (Nat.eq_of_mul_eq_mul_left (Nat.pos_of_ne_zero some_)
        ((same i).trans (Nat.mul_one _).symm))
    next =>
      rintro (unit | none_) i
      next => rw [unit, Nat.mul_one]
      next => rw [none_ i, Nat.zero_mul]

def shortPack (low high : UInt8) : DataPack where
  size := 2
  count := 1
  buffer := [low, high]

-- Two processes that send one item of two bytes to each other and to themselves: the second item overlaps
-- the first one. `gather` finds its second item too early, and `allGather` expects two items from each
-- process.
theorem two_byte_items_overlap :
    ∃ (exported : Fin 2 → UnorderedMap (Fin 2) DataPack) (data : Fin 2 → DataPack),
      (∀ p i, (packOf (exported p) i).Holds 1 2) ∧ (∀ p, (data p).Holds 1 2) ∧
      packOf (exported 0) 0 = shortPack 1 2 ∧
      (allToAll 2 (fun _ _ => 0) (fun _ _ => 0) exported).map (fun imported => packOf (imported 0) 0) =
        some (shortPack 1 1) ∧
      List.ofFn data = [shortPack 1 2, shortPack 3 4] ∧
      gather 2 (fun _ _ => 0) (fun _ => 0) data = some [shortPack 1 2, shortPack 2 3] ∧
      allGather 2 (fun _ _ => 0) (fun _ _ => 0) data = none := by
  refine ⟨fun _ => ((∅ : UnorderedMap (Fin 2) DataPack).insert 0 (shortPack 1 2)).insert 1 (shortPack 1 2),
    fun p => if p = 0 then shortPack 1 2 else shortPack 3 4, fun p i => ?_, fun p => ?_, ?_⟩
  next => exact ⟨by decide +revert, by decide +revert, by decide +revert⟩
  next => exact ⟨by decide +revert, by decide +revert, by decide +revert⟩
  next => exact ⟨by decide, by decide, by decide, by decide, rfl⟩

end Fpmas.Communication
