import Fpmas.Communication.Delivery

set_option autoImplicit false

namespace Fpmas.Communication

variable {n : Nat} {T : Type}

-- How the json library writes and reads the values of a type.
structure JsonType (T : Type) where
  dump : T → List UInt8
  parse : List UInt8 → Option T

structure JsonType.Lawful (json : JsonType T) : Prop where
  parse_dump : ∀ data, json.parse (json.dump data) = some data
  dump_ne_nil : ∀ data, json.dump data ≠ []

namespace TypedMpi

section

variable (json : JsonType T)

-- `DataPack(str.size(), sizeof(char))`, with the characters of the json text.
def pack (data : T) : DataPack where
  size := (json.dump data).length * 1
  count := (json.dump data).length
  buffer := json.dump data

def unpack (pack : DataPack) : Option T :=
  (Buffer.read pack.buffer 0 pack.count).bind json.parse

def exportPacks (order : HashOrder) (exportMap : UnorderedMap (Fin n) T) : UnorderedMap (Fin n) DataPack :=
  (exportMap.toList order).foldl (fun packs item => packs.insert item.1 (pack json item.2)) ∅

def importPacks (order : HashOrder) (packs : UnorderedMap (Fin n) DataPack) :
    Option (UnorderedMap (Fin n) T) :=
  (packs.toList order).foldlM (fun imported item =>
    (unpack json (packOf packs item.1)).map (imported.insert item.1)) ∅

variable (order : Fin n → HashOrder) (sendHeap recvHeap : Fin n → Heap)

def exchange (exportMap : Fin n → UnorderedMap (Fin n) T) : Option (Fin n → UnorderedMap (Fin n) T) :=
  (Communication.allToAll 1 sendHeap recvHeap fun p => exportPacks json (order p) (exportMap p)).bind
    fun packs => collect fun p => importPacks json (order p) (packs p)

def migrate (json : JsonType (List T)) (exportMap : Fin n → UnorderedMap (Fin n) (List T)) :
    Option (Fin n → UnorderedMap (Fin n) (List T)) :=
  exchange json order sendHeap recvHeap exportMap

def gather (heap : Heap) (root : Fin n) (data : Fin n → T) : Option (Fin n → List T) :=
  (Communication.gather 1 sendHeap heap fun p => pack json (data p)).bind fun packs =>
  (packs.mapM (unpack json)).map fun gathered p => if p = root then gathered else []

def allGather (data : Fin n → T) : Option (Fin n → List T) :=
  (Communication.allGather 1 sendHeap recvHeap fun p => pack json (data p)).bind fun packs =>
  collect fun p => (packs p).mapM (unpack json)

-- `reduce`: the processes that gather nothing return their own value.
def reduce (heap : Heap) (root : Fin n) (op : T → T → T) (data : Fin n → T) : Option (Fin n → T) :=
  (gather json sendHeap heap root data).map fun gathered p =>
    (gathered p).head?.elim (data p) fun first => (gathered p).tail.foldl op first

def allReduce (op : T → T → T) (data : Fin n → T) : Option (Fin n → T) :=
  (allGather json sendHeap recvHeap data).bind fun gathered =>
  collect fun p => (gathered p).head?.map fun first => (gathered p).tail.foldl op first

end

section

variable {json : JsonType T}

theorem pack_holds (data : T) : (pack json data).Holds (json.dump data).length 1 :=
  ⟨rfl, rfl, (Nat.mul_one _).symm⟩

theorem unpack_pack (lawful : json.Lawful) (data : T) : unpack json (pack json data) = some data := by
  have whole : Buffer.read (json.dump data) 0 (json.dump data).length = some (json.dump data) :=
    Buffer.read_eq (by rw [Nat.zero_add]) fun x _ => by rw [Nat.zero_add]
  unfold unpack pack
  rw [whole, Option.bind_some, lawful.parse_dump]

theorem lookup_exportPacks (order : HashOrder) (exportMap : UnorderedMap (Fin n) T) (q : Fin n) :
    (exportPacks json order exportMap).lookup q = (exportMap.lookup q).map (pack json) := by
  have once : (((exportMap.toList order).map fun item => (item.1, pack json item.2)).map Prod.fst).Nodup := by
    rw [List.map_map]
    exact UnorderedMap.nodup_toList order exportMap
  ext found
  have fold : exportPacks json order exportMap =
      ((exportMap.toList order).map fun item => (item.1, pack json item.2)).foldl
        (fun packs item => packs.insert item.1 item.2) ∅ := by
    rw [List.foldl_map]
    rfl
  rw [fold, UnorderedMap.lookup_foldl_insert once, Option.map_eq_some_iff, AList.lookup_empty]
  simp only [List.mem_map, Prod.mk.injEq]
  constructor
  next =>
    rintro (⟨⟨_, data⟩, member, rfl, rfl⟩ | ⟨_, none_⟩)
    next => exact ⟨data, (UnorderedMap.mem_toList order exportMap).mp member, rfl⟩
    next => cases none_
  next =>
    rintro ⟨data, at_, rfl⟩
    exact .inl ⟨(q, data), (UnorderedMap.mem_toList order exportMap).mpr at_, rfl, rfl⟩

theorem lookup_importPacks {packs : UnorderedMap (Fin n) DataPack} {items : List (Fin n × DataPack)}
    (once : (items.map Prod.fst).Nodup)
    (reads : ∀ k ∈ items.map Prod.fst, ∃ data, unpack json (packOf packs k) = some data)
    (imported : UnorderedMap (Fin n) T) :
    ∃ result, items.foldlM (fun imported item =>
        (unpack json (packOf packs item.1)).map (imported.insert item.1)) imported = some result ∧
      ∀ k, result.lookup k =
        if k ∈ items.map Prod.fst then unpack json (packOf packs k) else imported.lookup k := by
  induction items generalizing imported with
  | nil => exact ⟨imported, rfl, fun k => by simp⟩
  | cons item rest ih =>
    rw [List.map_cons, List.nodup_cons] at once
    rw [List.map_cons] at reads
    obtain ⟨data, read⟩ := reads item.1 List.mem_cons_self
    obtain ⟨result, done, found⟩ := ih once.2 (fun k member => reads k (List.mem_cons_of_mem _ member))
      (imported.insert item.1 data)
    refine ⟨result, ?_, fun k => ?_⟩
    next =>
      rw [List.foldlM_cons, read, Option.map_some]
      exact done
    rw [found, List.map_cons, UnorderedMap.lookup_insert']
    by_cases later : k ∈ rest.map Prod.fst
    next => rw [if_pos later, if_pos (List.mem_cons_of_mem _ later)]
    rw [if_neg later]
    by_cases here : k = item.1
    next => rw [if_pos here, if_pos (List.mem_cons.mpr (.inl here)), here, read]
    next => rw [if_neg here, if_neg fun member => (List.mem_cons.mp member).elim here later]

end

end TypedMpi

theorem allToAll_mem {typeSize : Nat} {sendHeap recvHeap : Fin n → Heap}
    {dataPack imported : Fin n → UnorderedMap (Fin n) DataPack}
    (result : allToAll typeSize sendHeap recvHeap dataPack = some imported) (r s : Fin n)
    (member : s ∈ imported r) : 0 < (packOf (dataPack s) r).count := by
  unfold allToAll at result
  obtain ⟨sdispls, _, result⟩ := Option.bind_eq_some_iff.mp result
  obtain ⟨sendBuffer, _, result⟩ := Option.bind_eq_some_iff.mp result
  obtain ⟨rdispls, _, result⟩ := Option.bind_eq_some_iff.mp result
  obtain ⟨recvBuffer, _, done⟩ := Option.bind_eq_some_iff.mp result
  rw [collect_eq_some] at done
  by_contra nothing
  obtain ⟨pack, found⟩ := (UnorderedMap.mem_iff_lookup _ _).mp member
  rw [lookup_imported (done r), if_neg fun both => nothing both.2, AList.lookup_empty] at found
  cases found

namespace TypedMpi

variable {json : JsonType T}

def characters (json : JsonType T) (exportMap : Fin n → UnorderedMap (Fin n) T) (p q : Fin n) : Nat :=
  ((exportMap p).lookup q).elim 0 fun data => (json.dump data).length

-- The numbers of characters that each process sends and receives are values of `int`.
def Sendable (json : JsonType T) (exportMap : Fin n → UnorderedMap (Fin n) T) : Prop :=
  ∀ p, ∑ q, characters json exportMap p q ≤ intMax ∧ ∑ q, characters json exportMap q p ≤ intMax

theorem packOf_exportPacks (order : HashOrder) (exportMap : UnorderedMap (Fin n) T) (q : Fin n) :
    packOf (exportPacks json order exportMap) q = ((exportMap.lookup q).map (pack json)).getD .empty := by
  unfold packOf
  rw [lookup_exportPacks]

theorem exchange_delivers (lawful : json.Lawful) (order : Fin n → HashOrder)
    (sendHeap recvHeap : Fin n → Heap)
    {exportMap : Fin n → UnorderedMap (Fin n) T} (sendable : Sendable json exportMap) :
    ∃ imported, exchange json order sendHeap recvHeap exportMap = some imported ∧
      ∀ p q, (imported q).lookup p = (exportMap p).lookup q := by
  let packs := fun p => exportPacks json (order p) (exportMap p)
  have holds : ∀ p q, (packOf (packs p) q).Holds (characters json exportMap p q) 1 := by
    intro p q
    show (packOf (exportPacks _ _ _) q).Holds _ _
    rw [packOf_exportPacks]
    unfold characters
    cases (exportMap p).lookup q with
    | none => exact ⟨rfl, rfl, rfl⟩
    | some data => exact pack_holds data
  have fits : ∀ {total}, total ≤ intMax → Fits total 1 := fun le => ⟨le, (Nat.mul_one _).symm ▸ le⟩
  have unit : ∀ counts : Fin n → Nat, Aligned counts 1 := fun _ => aligned_iff.mpr (.inl Nat.le.refl)
  obtain ⟨received, delivered, same⟩ := allToAllDelivers
    (fun p => ⟨fits (sendable p).1, fits (sendable p).2⟩) (fun p => ⟨unit _, unit _⟩)
    sendHeap recvHeap packs holds
  -- A process has received a pack exactly when a value has been exported to it.
  have sent : ∀ q p, p ∈ received q ↔ ∃ data, (exportMap p).lookup q = some data := by
    intro q p
    have counted := (holds p q).counted
    unfold characters at counted
    constructor
    next =>
      intro member
      have positive := allToAll_mem delivered q p member
      rw [counted] at positive
      cases at_ : (exportMap p).lookup q with
      | none =>
        rw [at_] at positive
        cases positive
      | some data => exact ⟨data, rfl⟩
    next =>
      rintro ⟨data, at_⟩
      by_contra absent
      have empty : packOf (received q) p = .empty := by
        unfold packOf
        rw [AList.lookup_eq_none.mpr absent]
        rfl
      rw [← same, empty, at_] at counted
      exact lawful.dump_ne_nil data (List.eq_nil_of_length_eq_zero counted.symm)
  have unpacked : ∀ q p data, (exportMap p).lookup q = some data →
      unpack json (packOf (received q) p) = some data := by
    intro q p data at_
    rw [same]
    show unpack json (packOf (exportPacks _ _ _) q) = _
    rw [packOf_exportPacks, at_]
    exact unpack_pack lawful data
  have keys : ∀ q p, p ∈ ((received q).toList (order q)).map Prod.fst ↔ p ∈ received q := by
    intro q p
    rw [UnorderedMap.mem_iff_lookup]
    simp only [List.mem_map, Prod.exists, UnorderedMap.mem_toList, exists_and_right, exists_eq_right]
  obtain ⟨imported, done, good⟩ := collect_some fun q =>
    lookup_importPacks
      (UnorderedMap.nodup_toList (order q) (received q)) (fun p member => by
        obtain ⟨data, at_⟩ := (sent q p).mp ((keys q p).mp member)
        exact ⟨data, unpacked q p data at_⟩)
      ∅
  refine ⟨imported, ?_, fun p q => ?_⟩
  next =>
    unfold exchange
    rw [delivered, Option.bind_some]
    exact done
  rw [good, AList.lookup_empty]
  split
  next member =>
    obtain ⟨data, at_⟩ := (sent q p).mp ((keys q p).mp member)
    rw [at_, unpacked q p data at_]
  next absent =>
    rw [keys, sent] at absent
    exact (Option.eq_none_iff_forall_ne_some.mpr fun data at_ => absent ⟨data, at_⟩).symm

end TypedMpi

/-- Over the bytes of `allToAll`, the typed `migrate` is the exchange of vectors that the graph relies
on. -/
theorem typed_migrate_delivers {json : JsonType (List T)} (lawful : json.Lawful)
    (order : Fin n → HashOrder) (sendHeap recvHeap : Fin n → Heap)
    {exportMap : Fin n → UnorderedMap (Fin n) (List T)} (sendable : TypedMpi.Sendable json exportMap) :
    ∃ imported, TypedMpi.migrate order sendHeap recvHeap json exportMap = some imported ∧
      ∀ q p, (imported q).lookup p = (migrate exportMap q).lookup p := by
  obtain ⟨imported, done, found⟩ := TypedMpi.exchange_delivers lawful order sendHeap
    recvHeap sendable
  refine ⟨imported, done, fun q p => ?_⟩
  rw [lookup_migrate]
  exact found p q

namespace TypedMpi

variable {json : JsonType T}

theorem unpack_ofFn (lawful : json.Lawful) (data : Fin n → T) :
    (List.ofFn fun p => pack json (data p)).mapM (unpack json) = some (List.ofFn data) := by
  have packed : (List.ofFn fun p => pack json (data p)) = (List.ofFn data).map (pack json) := by
    rw [List.map_ofFn]
    rfl
  have same := List.mapM_each (f := unpack json ∘ pack json) (g := fun x => x) (l := List.ofFn data)
    fun x _ => unpack_pack lawful x
  rw [packed, List.mapM_map, same, List.map_id']

def accumulate [NeZero n] (op : T → T → T) (data : Fin n → T) : T :=
  (List.ofFn data).tail.foldl op (data 0)

theorem head?_ofFn [NeZero n] (data : Fin n → T) : (List.ofFn data).head? = some (data 0) := by
  obtain ⟨m, rfl⟩ := Nat.exists_eq_succ_of_ne_zero (NeZero.ne n)
  rw [List.ofFn_succ, List.head?_cons]

section

variable (lawful : json.Lawful) {data : Fin n → T} (fits : ∑ p, (json.dump (data p)).length ≤ intMax)
include lawful fits

theorem gather_delivers (sendHeap : Fin n → Heap) (heap : Heap) (root : Fin n) :
    gather json sendHeap heap root data = some fun p => if p = root then List.ofFn data else [] := by
  have delivered := @gatherDelivers n 1 _ ⟨fits, (Nat.mul_one _).symm ▸ fits⟩
    (aligned_iff.mpr (.inl Nat.le.refl)) sendHeap heap (fun p => pack json (data p))
    fun p => pack_holds (data p)
  unfold gather
  rw [delivered, Option.bind_some, unpack_ofFn lawful, Option.map_some]

theorem allGather_delivers (sendHeap recvHeap : Fin n → Heap) :
    allGather json sendHeap recvHeap data = some fun _ => List.ofFn data := by
  have delivered := @allGatherDelivers n 1 _ ⟨fits, (Nat.mul_one _).symm ▸ fits⟩
    (fun _ => Nat.mul_one _) sendHeap recvHeap (fun p => pack json (data p)) fun p => pack_holds (data p)
  unfold allGather
  rw [delivered, Option.bind_some]
  exact collect_eq_some.mpr fun _ => unpack_ofFn lawful data

theorem allReduce_delivers [NeZero n] (sendHeap recvHeap : Fin n → Heap) (op : T → T → T) :
    allReduce json sendHeap recvHeap op data = some fun _ => accumulate op data := by
  unfold allReduce
  rw [allGather_delivers lawful fits, Option.bind_some]
  refine collect_eq_some.mpr fun p => ?_
  rw [head?_ofFn, Option.map_some]
  rfl

end

-- All the processes agree on the sum of their values.
theorem reductions_deliver [NeZero n] (lawful : json.Lawful) {data : Fin n → T}
    (fits : ∑ p, (json.dump (data p)).length ≤ intMax) (sendHeap recvHeap : Fin n → Heap)
    (op : T → T → T) :
    allReduce json sendHeap recvHeap op data = some (fun _ => accumulate op data) ∧
      ∀ heap root, reduce json sendHeap heap root op data =
        some fun p => if p = root then accumulate op data else data p := by
  constructor
  next => exact allReduce_delivers lawful fits sendHeap recvHeap op
  next =>
    intro heap root
    unfold reduce
    rw [gather_delivers lawful fits, Option.map_some, Option.some.injEq]
    funext p
    by_cases here : p = root
    next =>
      simp only [if_pos here]
      rw [head?_ofFn, Option.elim_some]
      rfl
    next =>
      simp only [if_neg here]
      rfl

def digits : JsonType (Fin 10) where
  dump digit := [48 + UInt8.ofNat digit]
  parse text := (List.finRange 10).find? fun digit => text == [48 + UInt8.ofNat digit]

theorem digits_lawful : digits.Lawful where
  parse_dump := by decide
  dump_ne_nil _ := List.cons_ne_nil _ _

def dumpDigits (digit : Fin 10) : List (Fin 10) → List UInt8
  | [] => [48 + UInt8.ofNat digit, 93]
  | next :: rest => (48 + UInt8.ofNat digit) :: 44 :: dumpDigits next rest

def parseDigits : List UInt8 → Option (List (Fin 10))
  | [character, last] => if last = 93 then (digits.parse [character]).map fun digit => [digit] else none
  | character :: comma :: rest =>
    if comma = 44 then
      (digits.parse [character]).bind fun digit => (parseDigits rest).map (digit :: ·)
    else none
  | _ => none

def digitVectors : JsonType (List (Fin 10)) where
  dump
    | [] => [91, 93]
    | digit :: rest => 91 :: dumpDigits digit rest
  parse text :=
    if text = [91, 93] then some [] else if text.head? = some 91 then parseDigits text.tail else none

theorem dumpDigits_eq (digit : Fin 10) (rest : List (Fin 10)) :
    ∃ first second more, dumpDigits digit rest = first :: second :: more := by
  cases rest
  next => exact ⟨_, _, _, rfl⟩
  next => exact ⟨_, _, _, rfl⟩

theorem parse_dumpDigits (digit : Fin 10) (rest : List (Fin 10)) :
    parseDigits (dumpDigits digit rest) = some (digit :: rest) := by
  induction rest generalizing digit with
  | nil =>
    unfold dumpDigits parseDigits
    rw [if_pos rfl, show digits.parse [48 + UInt8.ofNat digit] = some digit from digits_lawful.parse_dump digit]
    rfl
  | cons next rest ih =>
    obtain ⟨first, second, more, split⟩ := dumpDigits_eq next rest
    have parsed := ih next
    unfold dumpDigits
    rw [split] at parsed ⊢
    unfold parseDigits
    rw [if_pos rfl, parsed,
      show digits.parse [48 + UInt8.ofNat digit] = some digit from digits_lawful.parse_dump digit]
    rfl

theorem digitVectors_lawful : digitVectors.Lawful where
  parse_dump data := by
    cases data with
    | nil => rfl
    | cons digit rest =>
      have parsed := parse_dumpDigits digit rest
      obtain ⟨first, second, more, split⟩ := dumpDigits_eq digit rest
      show digitVectors.parse (91 :: dumpDigits digit rest) = _
      rw [split] at parsed ⊢
      have longer : 91 :: first :: second :: more ≠ [91, 93] := by simp
      unfold digitVectors
      dsimp only
      rw [if_neg longer, List.head?_cons, if_pos rfl]
      exact parsed
  dump_ne_nil data := by
    cases data
    next => exact List.cons_ne_nil _ _
    next => exact List.cons_ne_nil _ _

def sentVectors (p q : Fin n) (vector : List (Fin 10)) (r : Fin n) : UnorderedMap (Fin n) (List (Fin 10)) :=
  if r = p then UnorderedMap.insertNew (UnorderedMap.insertNew ∅ q vector) p [] else ∅

theorem sentVectors_delivered : ∃ imported, migrate (fun _ => .insertion) (fun _ _ => 7) (fun _ _ => 7)
      digitVectors (sentVectors (n := 2) 0 1 [4, 2]) = some imported ∧
    (imported 1).lookup 0 = some [4, 2] ∧ (imported 0).lookup 0 = some [] ∧
    (imported 0).lookup 1 = none := by
  have sendable : Sendable digitVectors (sentVectors (n := 2) 0 1 [4, 2]) := by
    unfold Sendable
    decide +kernel
  obtain ⟨imported, done, found⟩ := typed_migrate_delivers digitVectors_lawful (fun _ => .insertion)
    (fun _ _ => 7) (fun _ _ => 7) sendable
  exact ⟨imported, done, (found 1 0).trans (by decide), (found 0 0).trans (by decide),
    (found 0 1).trans (by decide)⟩

theorem digits_reduced :
    allReduce digits (fun _ _ => 7) (fun _ _ => 7) (· + ·) (fun p : Fin 3 => p.castLE (by decide)) =
        some (fun _ => 3) ∧
      ∀ heap root, reduce digits (fun _ _ => 7) heap root (· + ·) (fun p : Fin 3 => p.castLE (by decide)) =
        some fun p => if p = root then 3 else p.castLE (by decide) :=
  reductions_deliver digits_lawful (by decide) (fun _ _ => 7) (fun _ _ => 7) (· + ·)

end TypedMpi

end Fpmas.Communication
