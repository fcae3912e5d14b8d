import Chuckles.Libc.Printf

/-!
# `Chuckles.Proofs.Hex`: the digits of `%x`

`%x` should print the numeral of its argument as an unsigned number of 32 bits. The branch
for a negative number complements the digits of `-(x + 1)`. This drops the leading zeros of
`-(x + 1)`, and with them the leading digits `F` of the argument.

* `hexText_of_nonneg`, `hexText_of_lt`: the text is the numeral for a nonnegative argument,
  and for a negative one below `-2 ^ 28`.
* `length_hexText_lt`: for the other negative arguments a digit is missing.
* `convX_faithful_iff` puts these together.
-/

set_option autoImplicit false

namespace Chuckles.Proofs

open Lib Lib.Numeral

/-- The argument as an unsigned number of 32 bits. -/
def unsignedOf (x : Int32) : Nat := (x.toInt % 2 ^ 32).toNat

/-- The digit that a symbol stands for. -/
def hexValue (c : UInt8) : Nat := (ascii "0123456789ABCDEF").idxOf c

/-- A digit is read back. -/
theorem hexValue_hexDigit : ∀ d < 16, hexValue (hexDigit d) = d := by decide

/-- Different arguments are different unsigned numbers. -/
theorem unsignedOf_injective {x y : Int32} (h : unsignedOf x = unsignedOf y) : x = y := by
  have hx := x.le_toInt
  have hx' := x.toInt_lt
  have hy := y.le_toInt
  have hy' := y.toInt_lt
  apply Int32.toInt_inj.mp
  unfold unsignedOf at h
  omega

/-- The digits that a list of digits is complemented to, and the number they denote. -/
theorem ofDigits_complement (l : List Nat) (hl : ∀ d ∈ l, d < 16) :
    Nat.ofDigits 16 (l.map fun d => 15 - d) + Nat.ofDigits 16 l + 1 = 16 ^ l.length := by
  induction l with
  | nil => rfl
  | cons d l ih =>
    have hd : d < 16 := hl d (by simp)
    have hrest := ih fun d' hd' => hl d' (by simp [hd'])
    rw [List.map_cons, Nat.ofDigits_cons, Nat.ofDigits_cons, List.length_cons, Nat.pow_succ]
    omega

/-- A nonnegative argument prints its numeral. -/
theorem hexText_of_nonneg {x : Int32} (h : 0 ≤ x.toInt) :
    hexText x = numeral hexDigit 16 (unsignedOf x) := by
  have hhigh := x.toInt_lt
  have hu : unsignedOf x = x.toInt.toNat := by
    unfold unsignedOf
    omega
  rw [hu]
  by_cases hpos : 0 < x.toInt
  · rw [hexText, if_pos hpos, numeral, digitsLE, if_neg (by omega)]
  · have hzero : x.toInt = 0 := by omega
    rw [hexText, if_neg hpos, if_neg (by omega), hzero]
    decide

/-- A negative argument whose leading digit is not `F` prints its numeral. -/
theorem hexText_of_lt {x : Int32} (h : x.toInt < -2 ^ 28) :
    hexText x = numeral hexDigit 16 (unsignedOf x) := by
  have hlow := x.le_toInt
  have hhigh := x.toInt_lt
  have hu : unsignedOf x = (2 ^ 32 + x.toInt).toNat := by
    unfold unsignedOf
    omega
  have hcases : hexText x = ((Nat.digits 16 (-(x.toInt + 1)).toNat).map
      fun d => hexDigit (15 - d)).reverse := by
    rw [hexText, if_neg (by omega), if_pos (by omega)]
  have hsum : unsignedOf x + (-(x.toInt + 1)).toNat + 1 = 2 ^ 32 := by omega
  generalize unsignedOf x = u at hu hsum ⊢
  generalize (-(x.toInt + 1)).toNat = n at hcases hsum
  -- Both numbers have eight digits.
  have hlen : ∀ k, 2 ^ 28 ≤ k → k < 2 ^ 32 → (Nat.digits 16 k).length = 8 := by
    intro k hk hk'
    have hle := length_digits_le hk'
    have hlt := (Nat.lt_digits_length_iff (b := 16) (k := 7) (by omega) k).mpr (by omega)
    omega
  have hlt : ∀ k, ∀ d ∈ Nat.digits 16 k, d < 16 := fun k d hd => Nat.digits_lt_base (by omega) hd
  have hdigits : (Nat.digits 16 n).map (fun d => 15 - d) = Nat.digits 16 u := by
    refine Nat.ofDigits_inj_of_len_eq (b := 16) (by omega) ?_ ?_ (hlt u) ?_
    · rw [List.length_map, hlen n (by omega) (by omega), hlen u (by omega) (by omega)]
    · intro d hd
      obtain ⟨d', hd', rfl⟩ := List.mem_map.mp hd
      omega
    · have hcompl := ofDigits_complement _ (hlt n)
      rw [Nat.ofDigits_digits, hlen n (by omega) (by omega)] at hcompl
      rw [Nat.ofDigits_digits]
      omega
  rw [hcases, numeral, digitsLE, if_neg (by omega), ← hdigits, List.map_map]
  rfl

/-- A negative argument with the leading digit `F` prints fewer than its eight digits. -/
theorem length_hexText_lt {x : Int32} (hlow : -2 ^ 28 ≤ x.toInt) (hneg : x.toInt < 0) :
    (hexText x).length < (numeral hexDigit 16 (unsignedOf x)).length := by
  have hu : ¬ unsignedOf x < 16 ^ 7 := by
    unfold unsignedOf
    omega
  have htext : (hexText x).length ≤ 7 := by
    rw [hexText, if_neg (by omega), if_pos hneg, List.length_reverse, List.length_map,
      Nat.digits_length_le_iff (by omega)]
    omega
  rw [← length_numeral_le_iff hexDigit (unsignedOf x) (k := 7) (by omega) (by omega)] at hu
  omega

/-- The text is the numeral exactly for the arguments outside `[-2 ^ 28, 0)`. -/
theorem hexText_eq_numeral_iff (x : Int32) :
    hexText x = numeral hexDigit 16 (unsignedOf x) ↔ ¬ (-2 ^ 28 ≤ x.toInt ∧ x.toInt < 0) := by
  constructor
  · rintro heq ⟨hlow, hneg⟩
    have := length_hexText_lt hlow hneg
    rw [heq] at this
    omega
  · intro h
    rcases Int.lt_or_le x.toInt 0 with hneg | hpos
    · exact hexText_of_lt (by omega)
    · exact hexText_of_nonneg hpos

/-- Both sinks take the digits. -/
theorem accepts_hexText {put : Sink} (hput : put ∈ [putcharSink, serialSink]) (x : Int32) :
    put.Accepts (hexText x) := by
  simp only [List.mem_cons, List.not_mem_nil, or_false] at hput
  rcases hput with rfl | rfl
  · exact putcharSink_accepts _
  · have hdigit : ∀ d < 16, (hexDigit d).toInt8.toInt ≠ -1 := by decide
    intro b hb m
    show b.toInt8.toInt ≠ -1
    obtain ⟨d, hd, rfl⟩ := mem_hexText hb
    exact hdigit d hd

/-- `%x` prints the numeral of its argument as an unsigned number of 32 bits exactly when
the argument is not in `[-2 ^ 28, 0)`, and two such arguments print different texts. In
every case it returns, so that no store leaves the buffer. -/
theorem convX_faithful_iff (x : Int32) (format : Nat) (written : Int) (args : List Arg)
    (o : Out) :
    (∀ put ∈ [putcharSink, serialSink], ∃ out,
      convX put ⟨format, written, .int x :: args, o⟩
        = some (.again ⟨format, wrapInt (written + (hexText x).length), args, out⟩) ∧
      out.sent = o.sent ++ hexText x) ∧
    ((hexText x = numeral hexDigit 16 (unsignedOf x) ∧
        value hexValue 16 (hexText x) = unsignedOf x)
      ↔ ¬ (-2 ^ 28 ≤ x.toInt ∧ x.toInt < 0)) ∧
    (∀ y : Int32, ¬ (-2 ^ 28 ≤ x.toInt ∧ x.toInt < 0) → ¬ (-2 ^ 28 ≤ y.toInt ∧ y.toInt < 0) →
      hexText x = hexText y → x = y) := by
  refine ⟨fun put hput => ?_, ?_, fun y hx hy heq => ?_⟩
  · have hpasses : Piece.Passes _ put ⟨format, written, .int x :: args, o⟩ format _ :=
      passes_convX rfl
    obtain ⟨out, hpass, hsends⟩ :=
      hpasses.accepted (Piece.fits_of_not_checked rfl _) (accepts_hexText hput x)
    exact ⟨out, hpass, hsends.sent⟩
  · rw [← hexText_eq_numeral_iff]
    constructor
    · exact fun h => h.1
    · intro h
      refine ⟨h, ?_⟩
      rw [h]
      exact value_numeral (by omega) hexValue_hexDigit _
  · rw [(hexText_eq_numeral_iff x).mpr hx, (hexText_eq_numeral_iff y).mpr hy] at heq
    exact unsignedOf_injective (numeral_injective (by omega) hexValue_hexDigit heq)

/-- The digits `F` of -2 are lost, and it prints the same text as 14. -/
theorem convX_minus_two :
    (∃ out, convX putcharSink ⟨0, 0, [.int (-2)], ⟨Machine.boot, []⟩⟩
        = some (.again ⟨0, 1, [], out⟩) ∧ out.mach.console = ascii "E") ∧
    (∃ out, convX putcharSink ⟨0, 0, [.int 14], ⟨Machine.boot, []⟩⟩
        = some (.again ⟨0, 1, [], out⟩) ∧ out.mach.console = ascii "E") ∧
    numeral hexDigit 16 (unsignedOf (-2)) = ascii "FFFFFFFE" ∧
    value hexValue 16 (ascii "E") ≠ unsignedOf (-2) :=
  ⟨⟨_, rfl, rfl⟩, ⟨_, rfl, rfl⟩, by decide, by decide⟩

end Chuckles.Proofs
