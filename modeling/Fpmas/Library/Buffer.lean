import Mathlib.Data.List.OfFn

set_option autoImplicit false

namespace Fpmas

/-- Buffers of a fixed size. A copy of no item reads and writes nothing, whatever its offset is. -/
abbrev Buffer (α : Type) := List α

namespace Buffer

variable {α : Type}

def read (buffer : Buffer α) (offset length : Nat) : Option (List α) :=
  if length = 0 then some []
  else if offset + length ≤ buffer.length then some ((buffer.drop offset).take length)
  else none

def write (buffer : Buffer α) (offset : Nat) (items : List α) : Option (Buffer α) :=
  if items = [] then some buffer
  else if offset + items.length ≤ buffer.length then
    some (buffer.take offset ++ items ++ buffer.drop (offset + items.length))
  else none

def writeAll (buffer : Buffer α) (copies : List (Nat × List α)) : Option (Buffer α) :=
  copies.foldlM (fun buffer copy => write buffer copy.1 copy.2) buffer

variable {buffer buffer' : Buffer α} {offset length : Nat} {items : List α}

theorem read_get {items : List α} (result : read buffer offset length = some items) :
    items.length = length ∧ ∀ x < length, items[x]? = buffer[offset + x]? := by
  unfold read at result
  split at result
  next none_ =>
    cases result
    exact ⟨none_.symm, fun x inside => absurd inside (by omega)⟩
  next =>
    split at result
    next fits =>
      cases result
      refine ⟨by simp; omega, fun x inside => ?_⟩
      rw [List.getElem?_take_of_lt inside, List.getElem?_drop]
    next => cases result

theorem read_eq (fits : offset + items.length ≤ buffer.length)
    (same : ∀ x < items.length, buffer[offset + x]? = items[x]?) :
    read buffer offset items.length = some items := by
  unfold read
  split
  next none_ => rw [List.eq_nil_of_length_eq_zero none_]
  next =>
    rw [Option.some.injEq]
    refine List.ext_getElem? fun x => ?_
    by_cases inside : x < items.length
    next => rw [List.getElem?_take_of_lt inside, List.getElem?_drop, same x inside]
    next =>
      rw [List.getElem?_eq_none (by simp; omega), List.getElem?_eq_none (by omega)]

theorem write_get (result : write buffer offset items = some buffer') :
    buffer'.length = buffer.length ∧ ∀ x, buffer'[x]? =
      if offset ≤ x ∧ x < offset + items.length then items[x - offset]? else buffer[x]? := by
  unfold write at result
  split at result
  next none_ =>
    cases result
    subst none_
    refine ⟨rfl, fun x => (if_neg ?_).symm⟩
    simp
  next =>
    split at result
    next fits =>
      cases result
      refine ⟨by simp; omega, fun x => ?_⟩
      rw [List.append_assoc]
      by_cases before : x < offset
      next =>
        rw [if_neg (by omega), List.getElem?_append_left (by simp; omega),
          List.getElem?_take_of_lt before]
      next =>
        rw [List.getElem?_append_right (by simp; omega), List.length_take, Nat.min_eq_left (by omega)]
        by_cases inside : x < offset + items.length
        next => rw [if_pos ⟨by omega, inside⟩, List.getElem?_append_left (by omega)]
        next =>
          rw [if_neg (by omega), List.getElem?_append_right (by omega), List.getElem?_drop]
          congr 1
          omega
    next => cases result

theorem write_some (fits : items = [] ∨ offset + items.length ≤ buffer.length) :
    ∃ buffer', write buffer offset items = some buffer' := by
  unfold write
  split
  next => exact ⟨_, rfl⟩
  next some_ =>
    rw [if_pos (fits.resolve_left some_)]
    exact ⟨_, rfl⟩

theorem writeAll_some {copies : List (Nat × List α)}
    (fits : ∀ copy ∈ copies, copy.2 = [] ∨ copy.1 + copy.2.length ≤ buffer.length) :
    ∃ buffer', writeAll buffer copies = some buffer' := by
  induction copies generalizing buffer with
  | nil => exact ⟨buffer, rfl⟩
  | cons copy rest ih =>
    obtain ⟨buffer₁, result⟩ := write_some (fits copy List.mem_cons_self)
    have size := (write_get result).1
    obtain ⟨buffer', results⟩ := @ih buffer₁ fun other member => by
      rw [size]
      exact fits other (List.mem_cons_of_mem copy member)
    refine ⟨buffer', ?_⟩
    rw [writeAll, List.foldlM_cons, result]
    exact results

theorem writeAll_outside {copies : List (Nat × List α)} (result : writeAll buffer copies = some buffer')
    {x : Nat} (outside : ∀ copy ∈ copies, ¬ (copy.1 ≤ x ∧ x < copy.1 + copy.2.length)) :
    buffer'[x]? = buffer[x]? := by
  induction copies generalizing buffer with
  | nil =>
    cases result
    rfl
  | cons copy rest ih =>
    rw [writeAll, List.foldlM_cons] at result
    obtain ⟨buffer₁, first, later⟩ := Option.bind_eq_some_iff.mp result
    rw [ih later fun other member => outside other (List.mem_cons_of_mem copy member),
      (write_get first).2, if_neg (outside copy List.mem_cons_self)]

theorem writeAll_length {copies : List (Nat × List α)} (result : writeAll buffer copies = some buffer') :
    buffer'.length = buffer.length := by
  induction copies generalizing buffer with
  | nil =>
    cases result
    rfl
  | cons copy rest ih =>
    rw [writeAll, List.foldlM_cons] at result
    obtain ⟨buffer₁, first, later⟩ := Option.bind_eq_some_iff.mp result
    exact (ih later).trans (write_get first).1

-- Copies to successive places do not overlap.
def Successive (copies : List (Nat × List α)) : Prop :=
  copies.Pairwise fun first second => second.2 = [] ∨ first.1 + first.2.length ≤ second.1

theorem writeAll_inside {copies : List (Nat × List α)} (successive : Successive copies)
    (result : writeAll buffer copies = some buffer') {copy : Nat × List α} (member : copy ∈ copies)
    {x : Nat} (inside : x < copy.2.length) : buffer'[copy.1 + x]? = copy.2[x]? := by
  induction copies generalizing buffer with
  | nil => cases member
  | cons first rest ih =>
    rw [writeAll, List.foldlM_cons] at result
    obtain ⟨buffer₁, wrote, later⟩ := Option.bind_eq_some_iff.mp result
    obtain ⟨apart, successive⟩ := List.pairwise_cons.mp successive
    rcases List.mem_cons.mp member with rfl | listed
    next =>
      rw [writeAll_outside later, (write_get wrote).2, if_pos (by omega), Nat.add_sub_cancel_left]
      rintro other listed ⟨before, below⟩
      rcases apart other listed with empty | after
      next =>
        rw [empty] at below
        simp at below
        omega
      next => omega
    next => exact ih successive later listed

theorem writeAll_forall {copies : List (Nat × List α)} (result : writeAll buffer copies = some buffer')
    {x : Nat} {p : α → Prop} (start : ∀ value, buffer[x]? = some value → p value)
    (each : ∀ copy ∈ copies, copy.1 ≤ x → ∀ value, copy.2[x - copy.1]? = some value → p value) :
    ∀ value, buffer'[x]? = some value → p value := by
  induction copies generalizing buffer with
  | nil =>
    cases result
    exact start
  | cons first rest ih =>
    rw [writeAll, List.foldlM_cons] at result
    obtain ⟨buffer₁, wrote, later⟩ := Option.bind_eq_some_iff.mp result
    refine ih later (fun value found => ?_) fun copy member =>
      each copy (List.mem_cons_of_mem first member)
    rw [(write_get wrote).2] at found
    split at found
    next covered => exact each first List.mem_cons_self covered.1 value found
    next => exact start value found

-- Several copies, each of them after the previous ones and within the buffer, are all found back.
theorem writeAll_parts {n : Nat} {place : Fin n → Nat} {parts : Fin n → List α}
    (apart : ∀ i j, i < j → parts j = [] ∨ place i + (parts i).length ≤ place j)
    (fits : ∀ i, parts i = [] ∨ place i + (parts i).length ≤ buffer.length) :
    ∃ buffer', writeAll buffer (List.ofFn fun i => (place i, parts i)) = some buffer' ∧
      buffer'.length = buffer.length ∧
      ∀ i, read buffer' (place i) (parts i).length = some (parts i) := by
  have all : ∀ copy ∈ List.ofFn fun i => (place i, parts i),
      copy.2 = [] ∨ copy.1 + copy.2.length ≤ buffer.length := by
    intro copy member
    obtain ⟨i, rfl⟩ := (List.mem_ofFn' _ _).mp member
    exact fits i
  have successive : Successive (List.ofFn fun i => (place i, parts i)) :=
    List.pairwise_ofFn.mpr fun {i j} before => apart i j before
  obtain ⟨buffer', result⟩ := writeAll_some all
  refine ⟨buffer', result, writeAll_length result, fun i => ?_⟩
  rcases fits i with none_ | below
  next => rw [none_]; rfl
  next =>
    refine read_eq (by rw [writeAll_length result]; exact below) fun x inside => ?_
    exact writeAll_inside successive result ((List.mem_ofFn' _ _).mpr ⟨i, rfl⟩) inside

end Buffer

end Fpmas
