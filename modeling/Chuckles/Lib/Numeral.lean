import Mathlib.Data.Nat.Digits.Lemmas

/-!
# `Chuckles.Lib.Numeral`: canonical numerals

`numeral sym b n` is the numeral of `n` in base `b`, most significant digit first, where
`sym` gives the symbol of a digit. Zero has one digit, and no other numeral starts with
the digit zero. The digits are Mathlib's `Nat.digits`, which are least significant first
and leave zero without a digit. `digitsLE` adds that digit, so that a loop which writes a
digit before it tests for zero produces it.

`value` reads a numeral back. `value_numeral` is the round trip, and `numeral_injective`
follows. `head_numeral_ne` says that there is no leading zero, and `length_numeral_le_iff`
gives the number of digits.
-/

set_option autoImplicit false

namespace Lib.Numeral

universe u

variable {α : Type u}

/-- The digits of `n`, least significant first. Zero has one digit. -/
def digitsLE (b n : Nat) : List Nat := if n = 0 then [0] else Nat.digits b n

/-- The numeral of `n`, most significant digit first. -/
def numeral (sym : Nat → α) (b n : Nat) : List α := ((digitsLE b n).map sym).reverse

/-- The number a list of digit symbols denotes, most significant digit first. -/
def value (val : α → Nat) (b : Nat) (l : List α) : Nat :=
  l.foldl (fun acc a => acc * b + val a) 0

/-- A number below the base is its own digit. -/
theorem digitsLE_of_lt {b n : Nat} (h : n < b) : digitsLE b n = [n] := by
  unfold digitsLE
  split
  · rename_i hn
    rw [hn]
  · rename_i hn
    exact Nat.digits_of_lt b n hn h

/-- The least significant digit of a larger number is its remainder. -/
theorem digitsLE_of_le {b n : Nat} (hb : 1 < b) (h : b ≤ n) :
    digitsLE b n = n % b :: digitsLE b (n / b) := by
  have hn : n ≠ 0 := by omega
  have hq : n / b ≠ 0 := Nat.ne_of_gt (Nat.div_pos h (by omega))
  rw [digitsLE, if_neg hn, digitsLE, if_neg hq, Nat.digits_def' hb (by omega)]

/-- The digits are below the base. -/
theorem lt_of_mem_digitsLE {b n d : Nat} (hb : 1 < b) (h : d ∈ digitsLE b n) : d < b := by
  unfold digitsLE at h
  split at h
  · rw [List.mem_singleton.mp h]
    omega
  · exact Nat.digits_lt_base hb h

/-- The digits denote the number. -/
theorem ofDigits_digitsLE (b n : Nat) : Nat.ofDigits b (digitsLE b n) = n := by
  unfold digitsLE
  split
  · rename_i hn
    simp [hn]
  · exact Nat.ofDigits_digits b n

/-- There is always a digit. -/
theorem digitsLE_ne_nil (b n : Nat) : digitsLE b n ≠ [] := by
  unfold digitsLE
  split
  · simp
  · rename_i hn
    exact Nat.digits_ne_nil_iff_ne_zero.mpr hn

/-- `k` digits are enough exactly below `b ^ k`. -/
theorem length_digitsLE_le_iff {b k : Nat} (n : Nat) (hb : 1 < b) (hk : 0 < k) :
    (digitsLE b n).length ≤ k ↔ n < b ^ k := by
  unfold digitsLE
  split
  · rename_i hn
    have hpos : 0 < b ^ k := Nat.pow_pos (by omega)
    simp [hn, hpos]
    omega
  · exact Nat.digits_length_le_iff hb n

/-- One symbol for each digit. -/
@[simp] theorem length_numeral (sym : Nat → α) (b n : Nat) :
    (numeral sym b n).length = (digitsLE b n).length := by
  simp [numeral]

/-- A numeral holds the symbols of digits. -/
theorem mem_numeral {sym : Nat → α} {b n : Nat} (hb : 1 < b) {a : α} (h : a ∈ numeral sym b n) :
    ∃ d < b, sym d = a := by
  simp only [numeral, List.mem_reverse, List.mem_map] at h
  rcases h with ⟨d, hd, ha⟩
  exact ⟨d, lt_of_mem_digitsLE hb hd, ha⟩

/-- The numeral has `k` digits at most exactly below `b ^ k`. -/
theorem length_numeral_le_iff {b k : Nat} (sym : Nat → α) (n : Nat) (hb : 1 < b) (hk : 0 < k) :
    (numeral sym b n).length ≤ k ↔ n < b ^ k := by
  rw [length_numeral]
  exact length_digitsLE_le_iff n hb hk

/-- Reading from the most significant digit is `Nat.ofDigits` on the reversed list. -/
theorem value_reverse (val : α → Nat) (b : Nat) (l : List α) :
    value val b l.reverse = Nat.ofDigits b (l.map val) := by
  unfold value
  rw [List.foldl_reverse]
  induction l with
  | nil => rfl
  | cons a l ih =>
    rw [List.foldr_cons, ih, List.map_cons, Nat.ofDigits_cons]
    rw [Nat.mul_comm b, Nat.add_comm]

/-- The round trip: the numeral of `n` denotes `n`. -/
theorem value_numeral {sym : Nat → α} {val : α → Nat} {b : Nat} (hb : 1 < b)
    (h : ∀ d < b, val (sym d) = d) (n : Nat) : value val b (numeral sym b n) = n := by
  have hmap : ((digitsLE b n).map sym).map val = digitsLE b n := by
    have hid : ∀ d ∈ digitsLE b n, (val ∘ sym) d = id d :=
      fun d hd => h d (lt_of_mem_digitsLE hb hd)
    rw [List.map_map, List.map_congr_left hid, List.map_id]
  rw [numeral, value_reverse, hmap, ofDigits_digitsLE]

/-- Different numbers have different numerals. -/
theorem numeral_injective {sym : Nat → α} {val : α → Nat} {b : Nat} (hb : 1 < b)
    (h : ∀ d < b, val (sym d) = d) {m n : Nat} (heq : numeral sym b m = numeral sym b n) :
    m = n := by
  rw [← value_numeral hb h m, heq, value_numeral hb h n]

/-- A number other than zero has no leading zero. -/
theorem head_numeral_ne {sym : Nat → α} {val : α → Nat} {b n : Nat} (hb : 1 < b)
    (h : ∀ d < b, val (sym d) = d) (hn : n ≠ 0) : (numeral sym b n).head? ≠ some (sym 0) := by
  have hne := Nat.digits_ne_nil_iff_ne_zero (b := b).mpr hn
  have hlast := Nat.getLast_digit_ne_zero b hn
  have hmem : (Nat.digits b n).getLast hne < b := Nat.digits_lt_base hb (List.getLast_mem hne)
  rw [numeral, digitsLE, if_neg hn, List.head?_reverse, List.getLast?_map,
    List.getLast?_eq_some_getLast hne, Option.map_some, ne_eq, Option.some.injEq]
  intro heq
  have := congrArg val heq
  rw [h _ hmem, h 0 (by omega)] at this
  exact hlast this

end Lib.Numeral
