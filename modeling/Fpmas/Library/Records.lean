import Mathlib.Data.List.Forall2
import Mathlib.Data.List.SplitLengths
import Fpmas.Library.Buffer

set_option autoImplicit false

namespace List

variable {α β γ : Type}

theorem mapM_forall₂ {f : α → Option β} {l : List α} {l' : List β} :
    l.mapM f = some l' ↔ Forall₂ (fun x y => f x = some y) l l' := by
  induction l generalizing l' with
  | nil =>
    rw [mapM_nil, forall₂_nil_left_iff]
    exact ⟨fun result => (Option.some.inj result).symm, fun none_ => none_ ▸ rfl⟩
  | cons x rest ih =>
    rw [mapM_cons, forall₂_cons_left_iff]
    constructor
    next =>
      intro result
      obtain ⟨y, image, result⟩ := Option.bind_eq_some_iff.mp result
      obtain ⟨images, later, done⟩ := Option.bind_eq_some_iff.mp result
      cases done
      exact ⟨y, images, image, ih.mp later, rfl⟩
    next =>
      rintro ⟨y, images, image, later, rfl⟩
      rw [image, ih.mpr later]
      rfl

theorem mapM_same {f g : α → Option β} {l : List α} (same : ∀ x ∈ l, f x = g x) :
    l.mapM f = l.mapM g := by
  induction l with
  | nil => rfl
  | cons x rest ih =>
    rw [mapM_cons, mapM_cons, same x mem_cons_self, ih fun y later => same y (mem_cons_of_mem x later)]

theorem Forall₂.source {R : α → β → Prop} {l : List α} {l' : List β} (related : Forall₂ R l l') {y : β}
    (member : y ∈ l') : ∃ x ∈ l, R x y := by
  induction related with
  | nil => cases member
  | @cons x y' _ _ here _ ih =>
    rcases mem_cons.mp member with rfl | later
    next => exact ⟨x, mem_cons_self, here⟩
    next =>
      obtain ⟨x', inside, there⟩ := ih later
      exact ⟨x', mem_cons_of_mem x inside, there⟩

theorem Forall₂.chain {R : α → β → Prop} {S : β → γ → Prop} {Q : α → γ → Prop} {l : List α}
    {l' : List β} {l'' : List γ} (first : Forall₂ R l l') (second : Forall₂ S l' l'')
    (each : ∀ x ∈ l, ∀ y z, R x y → S y z → Q x z) : Forall₂ Q l l'' := by
  induction first generalizing l'' with
  | nil =>
    cases second
    exact .nil
  | @cons x y rest _ related _ ih =>
    cases second with
    | cons next later =>
      exact .cons (each x mem_cons_self y _ related next)
        (ih later fun z inside => each z (mem_cons_of_mem x inside))

theorem mapM_range (f : α → Option β) (l : List α) :
    (range l.length).mapM (fun i => (l[i]?).bind f) = l.mapM f := by
  have items : (range l.length).map (fun i => l[i]?) = l.map some := by
    refine ext_getElem? fun i => ?_
    by_cases inside : i < l.length
    next => simp [inside]
    next => simp [Nat.le_of_not_lt inside]
  calc (range l.length).mapM (fun i => (l[i]?).bind f)
      = ((range l.length).map fun i => l[i]?).mapM fun item => item.bind f := by
        rw [List.mapM_map]
        rfl
    _ = (l.map some).mapM fun item => item.bind f := by rw [items]
    _ = l.mapM f := by
        rw [List.mapM_map]
        rfl

theorem mapM_flatten (f : α → Option β) (lists : List (List α)) :
    lists.flatten.mapM f = (lists.mapM fun list : List α => list.mapM f).map flatten := by
  induction lists with
  | nil => rfl
  | cons list rest ih =>
    rw [flatten_cons, mapM_append, mapM_cons, ih]
    cases list.mapM f with
    | none => rfl
    | some images =>
      cases rest.mapM fun list : List α => list.mapM f with
      | none => rfl
      | some lists => rfl

theorem lengths_mapM {f : α → Option β} {lists : List (List α)} {images : List (List β)}
    (result : (lists.mapM fun list : List α => list.mapM f) = some images) :
    images.map length = lists.map length := by
  have each := mapM_forall₂.mp result
  clear result
  induction each with
  | nil => rfl
  | cons image _ ih => rw [map_cons, map_cons, ih, (mapM_forall₂.mp image).length_eq]

theorem splitLengths_flatten (lists : List (List α)) :
    (lists.map length).splitLengths lists.flatten = lists := by
  induction lists with
  | nil => rfl
  | cons list rest ih =>
    rw [map_cons, splitLengths_cons, flatten_cons, take_left' rfl, drop_left' rfl, ih]

end List

namespace Fpmas.Buffer

variable {α β : Type}

def writeRecords (buffer : Buffer α) (width : Nat) (records : List (List α)) : Option (Buffer α) :=
  writeAll buffer (records.zipIdx.map fun record => (record.2 * width, record.1))

def readRecords (decode : List α → Option β) (width count : Nat) (buffer : Buffer α) : Option (List β) :=
  (List.range count).mapM fun i => (read buffer (i * width) width).bind decode

theorem write_append {done rest items : List α} (fits : items.length ≤ rest.length) :
    write (done ++ rest) done.length items = some (done ++ items ++ rest.drop items.length) := by
  unfold write
  split
  next none_ =>
    subst none_
    simp
  next =>
    rw [if_pos (by rw [List.length_append]; omega), List.take_left' rfl, List.drop_append,
      List.drop_eq_nil_of_le (by omega), Nat.add_sub_cancel_left, List.nil_append]

theorem read_append {done items rest : List α} :
    read (done ++ (items ++ rest)) done.length items.length = some items := by
  unfold read
  split
  next none_ => rw [List.eq_nil_of_length_eq_zero none_]
  next => rw [if_pos (by simp), List.drop_left' rfl, List.take_left' rfl]

theorem writeRecords_from {width : Nat} {records : List (List α)}
    (sized : ∀ record ∈ records, record.length = width) (k : Nat) (done rest : List α)
    (start : done.length = k * width) (room : rest.length = records.length * width) :
    writeAll (done ++ rest) ((records.zipIdx k).map fun record => (record.2 * width, record.1)) =
      some (done ++ records.flatten) := by
  induction records generalizing k done rest with
  | nil =>
    rw [List.length_nil, Nat.zero_mul] at room
    rw [List.eq_nil_of_length_eq_zero room]
    rfl
  | cons record records ih =>
    have size := sized record List.mem_cons_self
    rw [List.length_cons, Nat.add_mul, Nat.one_mul] at room
    -- The next records go after this one.
    have later := ih (fun other member => sized other (List.mem_cons_of_mem record member)) (k + 1)
      (done ++ record) (rest.drop record.length)
      (by rw [List.length_append, start, size, Nat.add_mul, Nat.one_mul])
      (by rw [List.length_drop]; omega)
    rw [List.zipIdx_cons, List.map_cons]
    show (write (done ++ rest) (k * width) record).bind _ = _
    rw [← start, write_append (by omega), Option.bind_some]
    rw [List.flatten_cons, ← List.append_assoc]
    exact later

theorem writeRecords_eq {width : Nat} {records : List (List α)}
    (sized : ∀ record ∈ records, record.length = width) {buffer : Buffer α}
    (room : buffer.length = records.length * width) :
    writeRecords buffer width records = some records.flatten :=
  writeRecords_from sized 0 [] buffer (by simp) room

theorem readRecords_from {decode : List α → Option β} {encode : β → List α} {width : Nat}
    (items : List β) (sized : ∀ item ∈ items, (encode item).length = width)
    (reads : ∀ item ∈ items, decode (encode item) = some item) (k : Nat) (done : List α)
    (start : done.length = k * width) :
    (List.range' k items.length).mapM (fun i =>
      (read (done ++ (items.map encode).flatten) (i * width) width).bind decode) = some items := by
  induction items generalizing k done with
  | nil => rfl
  | cons item items ih =>
    have size := sized item List.mem_cons_self
    have later := ih (fun other member => sized other (List.mem_cons_of_mem item member))
      (fun other member => reads other (List.mem_cons_of_mem item member)) (k + 1)
      (done ++ encode item)
      (by rw [List.length_append, start, size, Nat.add_mul, Nat.one_mul])
    have first : read (done ++ ((item :: items).map encode).flatten) (k * width) width =
        some (encode item) := by
      rw [List.map_cons, List.flatten_cons, ← start, ← size]
      exact read_append
    rw [List.length_cons, List.range'_succ, List.mapM_cons, first, Option.bind_some,
      reads item List.mem_cons_self, List.map_cons, List.flatten_cons, ← List.append_assoc]
    show Option.bind _ _ = _
    rw [later]
    rfl

theorem readRecords_flatten {decode : List α → Option β} {encode : β → List α} {width : Nat}
    (items : List β) (sized : ∀ item ∈ items, (encode item).length = width)
    (reads : ∀ item ∈ items, decode (encode item) = some item) :
    readRecords decode width items.length (items.map encode).flatten = some items := by
  unfold readRecords
  rw [List.range_eq_range']
  exact readRecords_from items sized reads 0 [] (by simp)

def fill (buffer : Buffer α) (items : List α) : Option (Buffer α) :=
  writeRecords buffer 1 (items.map fun item => [item])

theorem fill_eq {buffer : Buffer α} {items : List α} (room : buffer.length = items.length) :
    fill buffer items = some items := by
  have written : writeRecords buffer 1 (items.map fun item => [item]) =
      some (items.map fun item => [item]).flatten :=
    writeRecords_eq (by simp) (by rw [room, List.length_map, Nat.mul_one])
  unfold fill
  rw [written, ← List.flatMap_def, List.flatMap_singleton']

theorem readRecords_items (items : List α) : readRecords List.head? 1 items.length items = some items := by
  have read : readRecords List.head? 1 items.length (items.map fun item => [item]).flatten = some items :=
    readRecords_flatten items (fun _ _ => rfl) fun _ _ => rfl
  rw [← List.flatMap_def, List.flatMap_singleton'] at read
  exact read

end Fpmas.Buffer
