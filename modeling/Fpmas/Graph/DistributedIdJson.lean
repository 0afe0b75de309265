import Mathlib.Data.Nat.Digits.Lemmas
import Mathlib.Data.Prod.Lex
import Mathlib.Data.Finset.Sort
import Fpmas.Communication.TypedMpi
import Fpmas.Graph.Elements

set_option autoImplicit false

namespace Fpmas.Graph.DistributedIdJson

open Fpmas.Communication

variable {n : Nat}

def dumpNumber (k : Nat) : List UInt8 :=
  if k = 0 then [48] else (Nat.digits 10 k).reverse.map fun digit => 48 + UInt8.ofNat digit

def parseNumber (text : List UInt8) : Nat :=
  Nat.ofDigits 10 (text.reverse.map fun character => character.toNat - 48)

-- Brackets and commas.
def separates (character : UInt8) : Bool :=
  character == 91 || character == 44 || character == 93

def words (text : List UInt8) : List (List UInt8) :=
  (text.splitOnP separates).filter (· ≠ [])

def dumpId (id : Id n) : List UInt8 :=
  91 :: (dumpNumber id.rank ++ 44 :: (dumpNumber id.id ++ [93]))

def dumpIds : List (Id n) → List UInt8
  | [] => [93]
  | id :: rest => dumpId id ++ if rest = [] then [93] else 44 :: dumpIds rest

def parseIds : List Nat → Option (List (Id n))
  | [] => some []
  | [_] => none
  | rank :: id :: rest =>
    if known : rank < n then (parseIds rest).map (⟨⟨rank, known⟩, id⟩ :: ·) else none

def pair : Id n ↪ Fin n ×ₗ Nat where
  toFun id := toLex (id.rank, id.id)
  inj' id other same := by
    cases id
    cases other
    cases same
    rfl

-- The ids of an `std::set`, in order.
def sorted (ids : Finset (Id n)) : List (Id n) :=
  ((ids.map pair).sort (· ≤ ·)).map fun item => ⟨(ofLex item).1, (ofLex item).2⟩

def idSet : JsonType (Finset (Id n)) where
  dump ids := 91 :: dumpIds (sorted ids)
  parse text := (parseIds ((words text).map parseNumber)).map List.toFinset

theorem digit_character {digit : Nat} (small : digit < 10) :
    separates (48 + UInt8.ofNat digit) = false ∧ (48 + UInt8.ofNat digit).toNat - 48 = digit := by
  interval_cases digit <;> decide

theorem dumpNumber_ne_nil (k : Nat) : dumpNumber k ≠ [] := by
  unfold dumpNumber
  split
  next => exact List.cons_ne_nil _ _
  next some_ => simp [Nat.digits_ne_nil_iff_ne_zero.mpr some_]

theorem dumpNumber_characters (k : Nat) : ∀ character ∈ dumpNumber k, separates character = false := by
  intro character member
  unfold dumpNumber at member
  split at member
  next =>
    rw [List.mem_singleton] at member
    subst member
    decide
  next =>
    obtain ⟨digit, listed, rfl⟩ := List.mem_map.mp member
    exact (digit_character (Nat.digits_lt_base (by decide) (List.mem_reverse.mp listed))).1

theorem parseNumber_dump (k : Nat) : parseNumber (dumpNumber k) = k := by
  unfold parseNumber dumpNumber
  split
  next none_ =>
    subst none_
    decide
  next =>
    rw [← List.map_reverse, List.reverse_reverse, List.map_map]
    have same : (Nat.digits 10 k).map ((fun character : UInt8 => character.toNat - 48) ∘
        fun digit => 48 + UInt8.ofNat digit) = Nat.digits 10 k :=
      (List.map_congr_left fun digit listed =>
        (digit_character (Nat.digits_lt_base (by decide) listed)).2).trans (List.map_id _)
    rw [same, Nat.ofDigits_digits]

theorem words_separator {separator : UInt8} (separate : separates separator = true) (rest : List UInt8) :
    words (separator :: rest) = words rest := by
  have split := List.splitOnP_append_cons (p := separates) [] rest separate
  unfold words
  rw [List.nil_append] at split
  rw [split, List.splitOnP_nil]
  rfl

theorem words_number {separator : UInt8} (separate : separates separator = true) (k : Nat)
    (rest : List UInt8) :
    words (dumpNumber k ++ separator :: rest) = dumpNumber k :: words rest := by
  unfold words
  rw [List.splitOnP_append_cons_of_forall_mem (dumpNumber_characters k) separator separate,
    List.filter_cons_of_pos]
  exact decide_eq_true (dumpNumber_ne_nil k)

theorem words_id (id : Id n) (rest : List UInt8) :
    words (dumpId id ++ rest) = dumpNumber id.rank :: dumpNumber id.id :: words rest := by
  unfold dumpId
  rw [List.cons_append, words_separator rfl, List.append_assoc, List.cons_append, words_number rfl,
    List.append_assoc, List.cons_append, List.nil_append, words_number rfl]

theorem parseIds_dump (ids : List (Id n)) :
    parseIds ((words (dumpIds ids)).map parseNumber) = some ids := by
  induction ids with
  | nil => rfl
  | cons id rest ih =>
    have later : words (if rest = [] then [93] else 44 :: dumpIds rest) = words (dumpIds rest) := by
      cases rest with
      | nil => rfl
      | cons next more => exact words_separator rfl _
    unfold dumpIds
    rw [words_id, later, List.map_cons, List.map_cons, parseNumber_dump, parseNumber_dump]
    unfold parseIds
    rw [dif_pos id.rank.isLt, ih, Option.map_some]

theorem sorted_toFinset (ids : Finset (Id n)) : (sorted ids).toFinset = ids := by
  ext id
  unfold sorted
  rw [List.mem_toFinset, List.mem_map]
  simp only [Finset.mem_sort, Finset.mem_map]
  constructor
  next =>
    rintro ⟨_, ⟨other, member, rfl⟩, rfl⟩
    exact member
  next =>
    intro member
    exact ⟨pair id, ⟨id, member, rfl⟩, rfl⟩

theorem sorted_singleton (id : Id n) : sorted {id} = [id] := by
  unfold sorted
  rw [Finset.map_singleton, Finset.sort_singleton]
  rfl

theorem idSet_lawful : (idSet (n := n)).Lawful where
  parse_dump ids := by
    unfold idSet
    dsimp only
    rw [words_separator rfl, parseIds_dump, Option.map_some, sorted_toFinset]
  dump_ne_nil _ := List.cons_ne_nil _ _

end Fpmas.Graph.DistributedIdJson
