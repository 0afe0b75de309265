import Mathlib.Data.List.Nodup
import Mathlib.Data.List.Perm.Subperm

set_option autoImplicit false

universe u

-- An unsigned subtraction: there is no result below 0.
def Nat.checkedSub (a b : Nat) : Option Nat := if b ≤ a then some (a - b) else none

theorem Nat.checkedSub_of_le {a b : Nat} (enough : b ≤ a) : a.checkedSub b = some (a - b) := if_pos enough

namespace List

variable {α : Type u}

def exchange (buffer : List α) (i j : Nat) : Option (List α) :=
  buffer[i]?.bind fun first => buffer[j]?.map fun second => (buffer.set i second).set j first

-- The draws from the `i`-th one, without replacement.
def draw (reserved : Nat) (index : Nat → Nat) : Nat → Nat → List α → Option (List α × List α)
  | 0, _, buffer => some ([], buffer)
  | count + 1, i, buffer =>
    ((buffer.length.checkedSub reserved).bind (·.checkedSub i)).bind fun last =>
    buffer[index i]?.bind fun target =>
    -- The item leaves the ones that can still be drawn.
    (buffer.exchange (index i) last).bind fun buffer =>
    (draw reserved index count (i + 1) buffer).map fun drawn => (target :: drawn.1, drawn.2)

theorem exchange_of_lt {buffer : List α} {i j : Nat} (first : i < buffer.length) (second : j < buffer.length) :
    buffer.exchange i j = some ((buffer.set i buffer[j]).set j buffer[i]) := by
  simp [exchange, first, second]

-- One of the first items goes behind the others.
theorem exchange_last {front : List α} (rest : List α) {i : Nat} (inside : i < front.length) :
    ∃ front', (front ++ rest).exchange i (front.length - 1) = some (front' ++ front[i] :: rest) ∧
      (front' ++ [front[i]]).Perm front := by
  have last : front.length - 1 < front.length := by omega
  have length : ((front.set i front[front.length - 1]).set (front.length - 1) front[i]).length =
      front.length := by simp
  have split : ((front.set i front[front.length - 1]).set (front.length - 1) front[i]).dropLast ++
      [front[i]] = (front.set i front[front.length - 1]).set (front.length - 1) front[i] := by
    apply List.dropLast_append_getLast?
    simp [List.getLast?_eq_getElem?, length, last]
  refine ⟨((front.set i front[front.length - 1]).set (front.length - 1) front[i]).dropLast, ?_, ?_⟩
  next =>
    rw [exchange_of_lt (by rw [List.length_append]; omega) (by rw [List.length_append]; omega),
      List.getElem_append_left inside, List.getElem_append_left last, List.set_append_left _ _ inside,
      List.set_append_left _ _ (by rw [List.length_set]; exact last), ← split]
    simp
  next =>
    rw [split]
    exact List.set_set_perm inside last

theorem draw_spec (reserved : Nat) (index : Nat → Nat) (count i : Nat) (front rest : List α)
    (place : rest.length + 1 = reserved + i) (enough : count ≤ front.length)
    (inside : ∀ j < count, index (i + j) < front.length - j) :
    ∃ targets front', draw reserved index count i (front ++ rest) =
        some (targets, front' ++ targets.reverse ++ rest) ∧
      targets.length = count ∧ (front' ++ targets.reverse).Perm front := by
  induction count generalizing i front rest with
  | zero => exact ⟨[], front, by simp [draw], rfl, by simp⟩
  | succ count ih =>
    have first := inside 0 (by omega)
    rw [Nat.add_zero, Nat.sub_zero] at first
    obtain ⟨front₁, exchanged, perm⟩ := exchange_last rest first
    have shorter : front₁.length + 1 = front.length := by simpa using perm.length_eq
    obtain ⟨targets, front₂, drawn, length, perm'⟩ := ih (i + 1) front₁ (front[index i] :: rest)
      (by rw [List.length_cons]; omega) (by omega) fun j before => by
        have later := inside (j + 1) (by omega)
        rw [← Nat.add_assoc, Nat.add_right_comm] at later
        omega
    refine ⟨front[index i] :: targets, front₂, ?_, by rw [List.length_cons, length], ?_⟩
    next =>
      rw [draw, List.length_append, Nat.checkedSub_of_le (by omega), Option.bind_some,
        Nat.checkedSub_of_le (by omega), Option.bind_some, List.getElem?_append_left first,
        List.getElem?_eq_getElem first, Option.bind_some,
        show front.length + rest.length - reserved - i = front.length - 1 by omega, exchanged,
        Option.bind_some, drawn, Option.map_some]
      simp
    next =>
      rw [List.reverse_cons, ← List.append_assoc]
      exact (perm'.append_right _).trans perm

end List
