import Chuckles.Libc.Itoa

/-!
# `Chuckles.Proofs.Itoa`: `itoa` is the canonical decimal encoding

`Chuckles.Libc.Itoa` computes with integers. `itoaChecked` is the same function with the arithmetic
of `int`: an operation whose result does not fit has no result, as a store outside the buffer has
none. `itoaChecked_eq` says that this makes no difference, so no operation overflows.

`itoaHistory` is the static buffer behind any calls, and `itoaString` the string that one more call
returns, up to the first NUL. `CanonicalDecimal` says what a decimal text of a number is, without a
reference to the code. `itoa_canonical` is the result.
-/

set_option autoImplicit false

namespace Chuckles.Proofs

open Lib Lib.Numeral

/-! ### The arithmetic of `int` -/

/-- The numbers of an `int`. -/
def IsInt (n : Int) : Prop := -2 ^ 31 ≤ n ∧ n < 2 ^ 31

instance (n : Int) : Decidable (IsInt n) := inferInstanceAs (Decidable (_ ∧ _))

/-- The result of an operation on `int`. -/
def intResult (n : Int) : Option Int := if IsInt n then some n else none

/-- `do { *--p = digit(i % 10); i /= 10; } while (i != 0);`. -/
def itoaLoopChecked (digit : Int → Int) : Nat → Int → Object UInt8 → Option (Object UInt8 × Nat)
  | 0, _, _ => none
  | p + 1, i, buf => do
    let r ← intResult (i.tmod 10)
    let c ← intResult (digit r)
    let buf ← buf.store p (charOfInt c)
    let i ← intResult (i.tdiv 10)
    if i ≠ 0 then itoaLoopChecked digit p i buf else some (buf, p)

/-- The body of `itoa`, on the cells of the buffer. -/
def itoaChecked (i : Int32) (buf : Object UInt8) : Option (Object UInt8 × Nat) :=
  if 0 ≤ i.toInt then
    itoaLoopChecked (fun r => '0'.toNat + r) (ITOA_DIGITS + 1) i.toInt buf
  else do
    let (buf, p) ← itoaLoopChecked (fun r => '0'.toNat - r) (ITOA_DIGITS + 1) i.toInt buf
    if 0 < p then do
      let buf ← buf.store (p - 1) '-'.toUInt8
      some (buf, p - 1)
    else none

/-- The quotient of an `int` is an `int`, and the remainder is a digit with the sign of the number.
The division truncates, so it is enough to look at the absolute value. -/
theorem isInt_tdiv {i : Int} (h : IsInt i) :
    IsInt (i.tdiv 10) ∧ -10 < i.tmod 10 ∧ i.tmod 10 < 10 := by
  unfold IsInt at h ⊢
  rcases Int.eq_nat_or_neg i with ⟨n, rfl | rfl⟩
  · have hquot : (n : Int).tdiv 10 = ((n / 10 : Nat) : Int) := rfl
    have hrem : (n : Int).tmod 10 = ((n % 10 : Nat) : Int) := rfl
    rw [hquot, hrem]
    omega
  · have hquot : (n : Int).tdiv 10 = ((n / 10 : Nat) : Int) := rfl
    have hrem : (n : Int).tmod 10 = ((n % 10 : Nat) : Int) := rfl
    rw [Int.neg_tdiv, Int.neg_tmod, hquot, hrem]
    omega

/-- A value that fits is the result. -/
theorem intResult_of_isInt {n : Int} (h : IsInt n) : intResult n = some n := if_pos h

/-- The loop does not overflow. The induction is on the pointer, and `i` stays an `int`. -/
theorem itoaLoopChecked_eq {digit : Int → Int}
    (hdigit : ∀ r, -10 < r → r < 10 → IsInt (digit r)) (p : Nat) :
    ∀ (i : Int) (buf : Object UInt8), IsInt i →
      itoaLoopChecked digit p i buf
        = itoaLoop (fun i => charOfInt (digit (i.tmod 10))) p i buf := by
  induction p with
  | zero => exact fun _ _ _ => rfl
  | succ p ih =>
      intro i buf hi
      obtain ⟨hquot, hlow, hhigh⟩ := isInt_tdiv hi
      have hrem : IsInt (i.tmod 10) := by
        unfold IsInt
        omega
      simp only [itoaLoopChecked, itoaLoop, intResult_of_isInt hrem,
        intResult_of_isInt (hdigit _ hlow hhigh), intResult_of_isInt hquot,
        Option.bind_eq_bind, Option.bind_some, ih _ _ hquot]

/-- No operation of `itoa` overflows, also for the least `int`. -/
theorem itoaChecked_eq (i : Int32) (buf : Object UInt8) : itoaChecked i buf = itoaCells i buf := by
  have hi : IsInt i.toInt := ⟨i.le_toInt, i.toInt_lt⟩
  have hzero : '0'.toNat = 48 := rfl
  have hplus (r : Int) (hlow : -10 < r) (hhigh : r < 10) : IsInt ('0'.toNat + r) := by
    unfold IsInt
    omega
  have hminus (r : Int) (hlow : -10 < r) (hhigh : r < 10) : IsInt ('0'.toNat - r) := by
    unfold IsInt
    omega
  unfold itoaChecked itoaCells
  rw [itoaLoopChecked_eq hplus _ _ _ hi, itoaLoopChecked_eq hminus _ _ _ hi]

/-! ### Calls -/

/-- The bytes up to the first NUL. -/
def stringFrom : Object UInt8 → Option (List UInt8)
  | some b :: o => if b = 0 then some [] else (stringFrom o).map (b :: ·)
  | _ => none

/-- The static buffer behind the calls for these numbers, in this order. It starts as zeros. -/
def itoaHistory (is : List Int32) : Option (Object UInt8) :=
  is.foldlM (fun buf i => (itoaChecked i buf).map Prod.fst)
    (List.replicate (ITOA_DIGITS + 2) (some 0))

/-- The string that `itoa` returns for `i`, behind the calls for the numbers `is`. -/
def itoaString (is : List Int32) (i : Int32) : Option (List UInt8) := do
  let buf ← itoaHistory is
  let (buf, p) ← itoaChecked i buf
  stringFrom (buf.drop p)

/-- A string in memory. -/
theorem stringFrom_eq {l : List UInt8} (hl : ∀ b ∈ l, b ≠ 0) (after : Object UInt8) :
    stringFrom (l.map some ++ some 0 :: after) = some l := by
  induction l with
  | nil => rfl
  | cons b l ih =>
      show (if b = 0 then some []
        else (stringFrom (l.map some ++ some 0 :: after)).map (b :: ·)) = _
      rw [if_neg (hl b List.mem_cons_self), ih fun b' hb' => hl b' (List.mem_cons_of_mem b hb')]
      rfl

/-- A call, on the cells of a buffer whose last one is NUL. -/
theorem itoaChecked_spec (i : Int32) (b : ItoaBuf) :
    ∃ b' : ItoaBuf,
      itoaChecked i b.cells = some (b'.cells, ITOA_DIGITS + 1 - (decimal i).length) ∧
      b'.cells = stamp b.cells i := by
  rcases itoa_spec i b with ⟨b', -, hcells⟩
  refine ⟨b', ?_, hcells⟩
  rw [itoaChecked_eq, itoaCells_eq, hcells]

/-- Any number of calls keeps the size of the buffer and the NUL in its last cell. -/
theorem itoaHistory_spec (is : List Int32) : ∃ b : ItoaBuf, itoaHistory is = some b.cells := by
  have hcalls (is : List Int32) : ∀ b : ItoaBuf, ∃ b' : ItoaBuf,
      is.foldlM (fun buf i => (itoaChecked i buf).map Prod.fst) b.cells = some b'.cells := by
    induction is with
    | nil => exact fun b => ⟨b, rfl⟩
    | cons i is ih =>
        intro b
        rcases itoaChecked_spec i b with ⟨b₁, hcall, -⟩
        rcases ih b₁ with ⟨b', hrest⟩
        refine ⟨b', ?_⟩
        rw [List.foldlM_cons, hcall]
        exact hrest
  exact hcalls is ItoaBuf.boot

/-- The string is the numeral, whatever was in the buffer. -/
theorem itoaString_eq (is : List Int32) (i : Int32) : itoaString is i = some (decimal i) := by
  rcases itoaHistory_spec is with ⟨b, hcalls⟩
  rcases itoaChecked_spec i b with ⟨b', hcall, hcells⟩
  have hlen := b.length_eq
  have hdec := length_decimal_le i
  have hroom : ITOA_DIGITS = 19 := rfl
  have hfront : (b.cells.take (ITOA_DIGITS + 1 - (decimal i).length)).length
      = ITOA_DIGITS + 1 - (decimal i).length := by
    rw [List.length_take]
    omega
  simp only [itoaString, hcalls, hcall, Option.bind_eq_bind, Option.bind_some]
  rw [hcells, stamp, List.drop_left' hfront]
  exact stringFrom_eq (ne_zero_of_mem_decimal i) []

/-! ### Decimal texts -/

/-- The value of a decimal digit. -/
def digitValue (c : UInt8) : Nat := c.toNat - '0'.toNat

/-- The number that a decimal text denotes. -/
def readDecimal : List UInt8 → Int
  | [] => 0
  | c :: ds =>
    if c = '-'.toUInt8 then -(value digitValue 10 ds : Nat)
    else (value digitValue 10 (c :: ds) : Nat)

/-- The decimal text of a number: a sign if it is negative, and digits without a leading zero. -/
structure CanonicalDecimal (i : Int) (s : List UInt8) : Prop where
  shape : ∃ ds, s = (if i < 0 then ['-'.toUInt8] else []) ++ ds ∧ ds ≠ [] ∧
    (∀ c ∈ ds, '0'.toUInt8 ≤ c ∧ c ≤ '9'.toUInt8) ∧
    (ds.head? = some '0'.toUInt8 → ds = ['0'.toUInt8])
  zero : i = 0 → s = ['0'.toUInt8]
  reads : readDecimal s = i

/-- A digit is read back. -/
theorem digitValue_decimalDigit : ∀ d < 10, digitValue (decimalDigit d) = d := by decide

/-- The digits of a numeral. -/
theorem shape_numeral (n : Nat) :
    numeral decimalDigit 10 n ≠ [] ∧
      (∀ c ∈ numeral decimalDigit 10 n, '0'.toUInt8 ≤ c ∧ c ≤ '9'.toUInt8) ∧
      ((numeral decimalDigit 10 n).head? = some '0'.toUInt8 →
        numeral decimalDigit 10 n = ['0'.toUInt8]) := by
  have hdigits : ∀ d < 10, '0'.toUInt8 ≤ decimalDigit d ∧ decimalDigit d ≤ '9'.toUInt8 := by
    decide
  refine ⟨?_, ?_, ?_⟩
  · simp [numeral, digitsLE_ne_nil]
  · intro c hc
    rcases mem_numeral (by omega) hc with ⟨d, hd, rfl⟩
    exact hdigits d hd
  · intro hhead
    have hn : n = 0 := by
      by_contra hn
      exact head_numeral_ne (by omega) digitValue_decimalDigit hn hhead
    rw [hn]
    rfl

/-- A numeral reads back as the number. -/
theorem readDecimal_numeral (n : Nat) : readDecimal (numeral decimalDigit 10 n) = n := by
  have hvalue : value digitValue 10 (numeral decimalDigit 10 n) = n :=
    value_numeral (by omega) digitValue_decimalDigit n
  obtain ⟨hne, hdigits, -⟩ := shape_numeral n
  generalize numeral decimalDigit 10 n = ds at hvalue hne hdigits ⊢
  cases ds with
  | nil => exact absurd rfl hne
  | cons c ds =>
      -- A digit is not a sign.
      have hsign : c ≠ '-'.toUInt8 := by
        rintro rfl
        exact absurd (hdigits _ List.mem_cons_self).1 (by decide)
      rw [readDecimal, if_neg hsign, hvalue]

/-- So does one with a sign in front of it. -/
theorem readDecimal_sign (n : Nat) :
    readDecimal ('-'.toUInt8 :: numeral decimalDigit 10 n) = -(n : Int) := by
  rw [readDecimal, if_pos rfl, value_numeral (by omega) digitValue_decimalDigit n]

/-- The numeral of `itoa` is the decimal text of its argument. -/
theorem canonicalDecimal_decimal (i : Int32) : CanonicalDecimal i.toInt (decimal i) := by
  unfold decimal
  by_cases hi : 0 ≤ i.toInt
  · rw [if_pos hi]
    refine ⟨⟨numeral decimalDigit 10 i.toInt.toNat, ?_, shape_numeral _⟩, ?_, ?_⟩
    · rw [if_neg (by omega), List.nil_append]
    · intro hzero
      rw [hzero]
      rfl
    · rw [readDecimal_numeral]
      omega
  · rw [if_neg hi]
    refine ⟨⟨numeral decimalDigit 10 (-i.toInt).toNat, ?_, shape_numeral _⟩, ?_, ?_⟩
    · rw [if_pos (by omega)]
      rfl
    · intro hzero
      exact absurd (Int.le_of_eq hzero.symm) hi
    · rw [readDecimal_sign]
      omega

/-- Behind any calls, the buffer has its 21 cells and the NUL in the last one, and `itoa` returns
the decimal text of its argument. The calls before do not matter for the string, and no other
number gives it. -/
theorem itoa_canonical (is : List Int32) (i : Int32) :
    (∃ buf, itoaHistory is = some buf ∧ buf.length = ITOA_DIGITS + 2 ∧
      buf[ITOA_DIGITS + 1]? = some (some 0)) ∧
    (∃ s, itoaString is i = some s ∧ CanonicalDecimal i.toInt s) ∧
    ∀ is' j, itoaString is' j = itoaString is i ↔ j = i := by
  refine ⟨?_, ⟨_, itoaString_eq is i, canonicalDecimal_decimal i⟩, ?_⟩
  · rcases itoaHistory_spec is with ⟨b, hcalls⟩
    exact ⟨b.cells, hcalls, b.length_eq, b.nul⟩
  · intro is' j
    rw [itoaString_eq, itoaString_eq, Option.some.injEq]
    constructor
    · intro hsame
      -- The same text reads back as the same number.
      have hj := (canonicalDecimal_decimal j).reads
      rw [hsame, (canonicalDecimal_decimal i).reads] at hj
      exact Int32.toInt_inj.mp hj.symm
    · rintro rfl
      rfl

end Chuckles.Proofs
