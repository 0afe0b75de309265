import Mathlib.Algebra.Order.Floor.Semiring
import Mathlib.Data.NNRat.Floor
import Mathlib.Data.Nat.Log
import Mathlib.Tactic.FieldSimp
import Mathlib.Tactic.Ring

set_option autoImplicit false

namespace SignificantBits

def nearest (x : ℚ≥0) : ℕ :=
  let floor := ⌊x⌋₊
  if x - floor < 1 / 2 then floor
  else if 1 / 2 < x - floor then floor + 1
  -- A tie goes to the even number.
  else floor + floor % 2

def exponent (x : ℚ≥0) : ℕ := Nat.log 2 ⌊x⌋₊

-- Rounds to `p` significant bits the numbers from 1 on, whose exponents are natural numbers.
def round (p : ℕ) (x : ℚ≥0) : ℚ≥0 :=
  nearest (x * 2 ^ (p - 1) / 2 ^ exponent x) * 2 ^ exponent x / 2 ^ (p - 1)

theorem nearest_natCast (m : ℕ) : nearest m = m := by
  unfold nearest
  dsimp only
  rw [Nat.floor_natCast, tsub_self]
  exact if_pos (by norm_num)

theorem floor_le_nearest (x : ℚ≥0) : ⌊x⌋₊ ≤ nearest x := by
  unfold nearest
  dsimp only
  split
  next => exact le_rfl
  next =>
    split
    next => exact Nat.le_succ _
    next => exact Nat.le_add_right _ _

theorem nearest_half {m : ℕ} (even : m % 2 = 0) : nearest (m + 1 / 2) = m := by
  have floor : ⌊(m : ℚ≥0) + 1 / 2⌋₊ = m := by
    rw [Nat.floor_eq_iff zero_le]
    exact ⟨le_self_add, add_lt_add_right (by norm_num) _⟩
  unfold nearest
  dsimp only
  rw [floor, add_tsub_cancel_left]
  simp [even]

theorem pow_exponent_le {x : ℚ≥0} (one : 1 ≤ x) : 2 ^ exponent x ≤ x := by
  have positive : ⌊x⌋₊ ≠ 0 := (Nat.floor_pos.mpr one).ne'
  have below : ((2 ^ exponent x : ℕ) : ℚ≥0) ≤ x :=
    (Nat.le_floor_iff zero_le).mp (Nat.pow_log_le_self 2 positive)
  exact_mod_cast below

theorem le_exponent {x : ℚ≥0} {j : ℕ} (above : 2 ^ j ≤ x) : j ≤ exponent x :=
  Nat.le_log_of_pow_le Nat.one_lt_two (Nat.le_floor (by exact_mod_cast above))

variable {p : ℕ} {x : ℚ≥0}

theorem round_of_scaled {c : ℕ} (scaled : x * 2 ^ (p - 1) = c * 2 ^ exponent x) : round p x = x := by
  have one : ∀ e : ℕ, (2 ^ e / 2 ^ e : ℚ≥0) = 1 := fun e => div_self (by positivity)
  unfold round
  rw [scaled, mul_div_assoc (c : ℚ≥0), one, mul_one, nearest_natCast, ← scaled, mul_div_assoc, one,
    mul_one]

-- A multiple of `2 ^ -k` that has at most `p` significant bits.
theorem round_exact {k m : ℕ} (one : 1 ≤ x) (positive : 1 ≤ p) (within : k ≤ p)
    (multiple : x * 2 ^ k = m) (bound : x ≤ 2 ^ (p - k)) : round p x = x := by
  have below := pow_exponent_le one
  have fits : exponent x ≤ p - k :=
    (pow_le_pow_iff_right₀ (by norm_num : (1 : ℚ≥0) < 2)).mp (below.trans bound)
  by_cases last : exponent x = p - k
  next =>
    have top : x = 2 ^ (p - k) := le_antisymm bound (last ▸ below)
    refine round_of_scaled (c := 2 ^ (p - 1)) ?_
    rw [last, top, mul_comm]
    norm_cast
  next =>
    refine round_of_scaled (c := m * 2 ^ (p - 1 - k - exponent x)) ?_
    have split : p - 1 = k + (p - 1 - k - exponent x) + exponent x := by omega
    push_cast
    rw [← multiple]
    conv_lhs => rw [split, pow_add, pow_add]
    ring

theorem le_round (above : 1 ≤ x) {j : ℕ} (least : 2 ^ j ≤ x) : 2 ^ j ≤ round p x := by
  have scaled : ((2 ^ (p - 1) : ℕ) : ℚ≥0) ≤ x * 2 ^ (p - 1) / 2 ^ exponent x := by
    rw [le_div_iff₀ (by positivity), mul_comm]
    push_cast
    exact mul_le_mul_left (pow_exponent_le above) _
  have rounded : 2 ^ (p - 1) ≤ nearest (x * 2 ^ (p - 1) / 2 ^ exponent x) :=
    (Nat.le_floor scaled).trans (floor_le_nearest _)
  calc (2 : ℚ≥0) ^ j
    _ ≤ 2 ^ exponent x := pow_le_pow_right₀ (by norm_num) (le_exponent least)
    _ ≤ round p x := by
      unfold round
      rw [le_div_iff₀ (by positivity), mul_comm]
      exact mul_le_mul_left (by exact_mod_cast rounded) _

-- The first number that `p` bits cannot count.
theorem round_stuck (bits : 2 ≤ p) : round p (2 ^ p + 1) = 2 ^ p := by
  have floor : ⌊(2 ^ p + 1 : ℚ≥0)⌋₊ = 2 ^ p + 1 := by
    rw [← Nat.cast_ofNat (R := ℚ≥0), ← Nat.cast_pow, ← Nat.cast_add_one, Nat.floor_natCast]
  have small : 2 ^ p + 1 < 2 ^ (p + 1) := by
    have := Nat.one_lt_two_pow (n := p) (by omega)
    rw [pow_succ]
    omega
  have exp : exponent (2 ^ p + 1) = p := by
    unfold exponent
    rw [floor]
    exact Nat.log_eq_of_pow_le_of_lt_pow (Nat.le_succ _) small
  have half : (2 ^ p + 1 : ℚ≥0) * 2 ^ (p - 1) / 2 ^ p = (2 ^ (p - 1) : ℕ) + 1 / 2 := by
    obtain ⟨q, rfl⟩ : ∃ q, p = q + 1 := ⟨p - 1, by omega⟩
    rw [Nat.add_sub_cancel]
    push_cast
    field_simp
    ring
  have even : 2 ^ (p - 1) % 2 = 0 := by
    obtain ⟨q, same⟩ : ∃ q, p - 1 = q + 1 := ⟨p - 2, by omega⟩
    rw [same, pow_succ, Nat.mul_mod_left]
  unfold round
  rw [exp, half, nearest_half even]
  push_cast
  rw [mul_comm, mul_div_assoc, div_self (by positivity), mul_one]

end SignificantBits
