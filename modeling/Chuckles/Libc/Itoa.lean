import Chuckles.Lib.Numeral
import Chuckles.Libc.String

/-!
# `Chuckles.Libc.Itoa`: decimal numerals in a static buffer

`itoa` writes the decimal numeral of an `int` backwards into a static buffer of 21 bytes
and returns a pointer into it. The division and the remainder of C truncate
(`Int.tdiv`, `Int.tmod`), so the loop for a negative number divides it without negating
it first.

`ItoaBuf` is the static buffer: 21 cells, and the NUL that the static initialisation put
into the last one. No call writes there, so the type carries both facts.

`itoa_spec` is the specification: the numeral (`decimal`) and the NUL are put over the end
of the buffer (`stamp`), and the pointer is where the numeral starts.
-/

set_option autoImplicit false

namespace Chuckles

open Lib Lib.Numeral

/-- An `int` stored into a `char`. -/
def charOfInt (n : Int) : UInt8 := (n % 256).toNat.toUInt8

/-- A byte stored into a `char` and read as an unsigned byte again. -/
@[simp] theorem charOfInt_natCast_toNat (b : UInt8) : charOfInt (b.toNat : Int) = b := by
  have h : ((b.toNat : Int) % 256).toNat = b.toNat := by
    have := b.toNat_lt
    omega
  rw [charOfInt, h]
  exact UInt8.ofNat_toNat

/-- The symbol of a decimal digit. -/
def decimalDigit (d : Nat) : UInt8 := charOfInt ('0'.toNat + d)

/-- The decimal numeral of an `int`. -/
def decimal (i : Int32) : List UInt8 :=
  if 0 ≤ i.toInt then numeral decimalDigit 10 i.toInt.toNat
  else '-'.toUInt8 :: numeral decimalDigit 10 (-i.toInt).toNat

/-- The digits that `itoa` has room for. -/
def ITOA_DIGITS : Nat := 19

/-- `do { *--p = digit(i); i /= 10; } while (i != 0);`. A pointer that is decremented below
the buffer has no result. -/
def itoaLoop (digit : Int → UInt8) : Nat → Int → Object UInt8 → Option (Object UInt8 × Nat)
  | 0, _, _ => none
  | p + 1, i, buf => do
    let buf ← buf.store p (digit i)
    if i.tdiv 10 ≠ 0 then itoaLoop digit p (i.tdiv 10) buf else some (buf, p)

/-- The body of `itoa`: the buffer and the returned pointer. The pointer starts at the
last cell. -/
def itoaCells (i : Int32) (buf : Object UInt8) : Option (Object UInt8 × Nat) :=
  if 0 ≤ i.toInt then
    itoaLoop (fun i => charOfInt ('0'.toNat + i.tmod 10)) (ITOA_DIGITS + 1) i.toInt buf
  else do
    let (buf, p) ←
      itoaLoop (fun i => charOfInt ('0'.toNat - i.tmod 10)) (ITOA_DIGITS + 1) i.toInt buf
    if 0 < p then do
      let buf ← buf.store (p - 1) '-'.toUInt8
      some (buf, p - 1)
    else none

/-! ### The loops -/

/-- The number of cells stays, and the cells from the starting pointer on do not change. -/
theorem itoaLoop_frame (digit : Int → UInt8) :
    ∀ (p : Nat) (i : Int) (buf buf' : Object UInt8) (p' : Nat),
      itoaLoop digit p i buf = some (buf', p') →
      p' ≤ p ∧ buf'.length = buf.length ∧ ∀ j, p ≤ j → buf'[j]? = buf[j]? := by
  intro p
  induction p with
  | zero => intro i buf buf' p' h; simp [itoaLoop] at h
  | succ p ih =>
    intro i buf buf' p' h
    simp only [itoaLoop, Option.bind_eq_bind, Option.bind_eq_some_iff] at h
    obtain ⟨buf₁, hstore, h⟩ := h
    have hlen := Object.length_of_store hstore
    -- The store is below the starting pointer.
    have hother : ∀ j, p + 1 ≤ j → buf₁[j]? = buf[j]? :=
      fun j hj => Object.getElem?_of_store hstore (by omega)
    split at h
    · obtain ⟨hp, hlen', hcells⟩ := ih _ _ _ _ h
      exact ⟨by omega, hlen'.trans hlen, fun j hj => (hcells j (by omega)).trans (hother j hj)⟩
    · cases h
      exact ⟨by omega, hlen, hother⟩

/-- `itoa` keeps the number of cells and the cell of the NUL. -/
theorem itoaCells_frame {i : Int32} {buf buf' : Object UInt8} {p : Nat}
    (h : itoaCells i buf = some (buf', p)) :
    buf'.length = buf.length ∧ buf'[ITOA_DIGITS + 1]? = buf[ITOA_DIGITS + 1]? := by
  unfold itoaCells at h
  split at h
  · obtain ⟨-, hlen, hcells⟩ := itoaLoop_frame _ _ _ _ _ _ h
    exact ⟨hlen, hcells _ (Nat.le_refl _)⟩
  · simp only [Option.bind_eq_bind, Option.bind_eq_some_iff] at h
    obtain ⟨⟨buf₁, p₁⟩, hloop, h⟩ := h
    obtain ⟨hp, hlen, hcells⟩ := itoaLoop_frame _ _ _ _ _ _ hloop
    simp only at h
    split at h
    · rw [Option.bind_eq_some_iff] at h
      obtain ⟨buf₂, hstore, h⟩ := h
      cases h
      -- The sign goes below the starting pointer too.
      refine ⟨(Object.length_of_store hstore).trans hlen, ?_⟩
      rw [Object.getElem?_of_store hstore (by omega)]
      exact hcells _ (Nat.le_refl _)
    · simp at h

/-- The loop writes the numeral of the number below its starting pointer. The sign `s` is
the sign of the number, and the induction follows its quotients by ten. -/
theorem itoaLoop_eq (digit : Int → UInt8) (s : Int) (hs : s = 1 ∨ s = -1)
    (hdigit : ∀ n : Nat, digit (s * n) = decimalDigit (n % 10)) :
    ∀ (n : Nat) (front mid post : Object UInt8), mid.length = (digitsLE 10 n).length →
      itoaLoop digit (front.length + mid.length) (s * n) (front ++ (mid ++ post))
        = some (front ++ ((numeral decimalDigit 10 n).map some ++ post), front.length) := by
  intro n
  induction n using Nat.strongRecOn with
  | _ n ih =>
    intro front mid post hmid
    -- The division truncates, so the quotient keeps the sign.
    have hquot : (s * (n : Int)).tdiv 10 = s * ((n / 10 : Nat) : Int) := by
      rcases hs with rfl | rfl
      · rw [Int.one_mul, Int.one_mul, Int.ofNat_tdiv]
        rfl
      · rw [Int.neg_one_mul, Int.neg_one_mul, Int.neg_tdiv, Int.ofNat_tdiv]
        rfl
    have hzero : s * ((n / 10 : Nat) : Int) = 0 ↔ n < 10 := by
      rcases hs with rfl | rfl <;> omega
    have hne : mid ≠ [] := by
      intro hnil
      rw [hnil] at hmid
      exact digitsLE_ne_nil 10 n (List.length_eq_zero_iff.mp hmid.symm)
    -- The cell that this pass writes is the last one of `mid`.
    obtain ⟨mid', c, rfl⟩ : ∃ mid' c, mid = mid' ++ [c] :=
      ⟨mid.dropLast, mid.getLast hne, (List.dropLast_append_getLast hne).symm⟩
    have hp : front.length + (mid' ++ [c]).length = front.length + mid'.length + 1 := by
      simp [Nat.add_assoc]
    have hsplit : front ++ (mid' ++ [c] ++ post) = (front ++ mid') ++ c :: post := by simp
    have hstore := Object.store_append (front ++ mid') post c (digit (s * n))
      (a := front.length + mid'.length) (by simp)
    rw [hp, itoaLoop, hsplit, hstore, hquot, hdigit]
    simp only [Option.bind_eq_bind, Option.bind_some, ne_eq, hzero]
    by_cases hlt : n < 10
    · -- The last pass: one digit.
      have hnil : mid' = [] := by
        rw [digitsLE_of_lt hlt] at hmid
        simpa using hmid
      subst hnil
      simp [hlt, numeral, digitsLE_of_lt hlt, Nat.mod_eq_of_lt hlt]
    · have hdigits := digitsLE_of_le (b := 10) (n := n) (by omega) (by omega)
      have hmid' : mid'.length = (digitsLE 10 (n / 10)).length := by
        rw [hdigits] at hmid
        simpa using hmid
      have hrec := ih (n / 10) (by omega) front mid' (some (decimalDigit (n % 10)) :: post) hmid'
      rw [if_pos hlt, List.append_assoc, hrec]
      simp [numeral, hdigits]

/-! ### The static buffer -/

/-- The static buffer of `itoa`: `INT_DIGITS + 2` bytes, the last of them NUL. -/
structure ItoaBuf where
  cells : Object UInt8
  length_eq : cells.length = ITOA_DIGITS + 2
  nul : cells[ITOA_DIGITS + 1]? = some (some 0)

/-- The buffer before the first call. -/
def ItoaBuf.boot : ItoaBuf := ⟨List.replicate 21 (some 0), rfl, rfl⟩

/-- `itoa`: the buffer and the returned pointer. -/
def itoa (i : Int32) (b : ItoaBuf) : Option (ItoaBuf × Nat) :=
  (itoaCells i b.cells).pmap
    (fun r (h : itoaCells i b.cells = some r) =>
      (⟨r.1, (itoaCells_frame h).1.trans b.length_eq, (itoaCells_frame h).2.trans b.nul⟩, r.2))
    fun _ h => h

/-- The numeral of an `int` is at most ten digits and a sign long. -/
theorem length_decimal_le (i : Int32) : (decimal i).length ≤ 11 := by
  have hlow := i.le_toInt
  have hhigh := i.toInt_lt
  unfold decimal
  split
  · have h := (length_numeral_le_iff decimalDigit i.toInt.toNat (b := 10) (k := 10) (by omega)
      (by omega)).mpr (by omega)
    omega
  · have h := (length_numeral_le_iff decimalDigit (-i.toInt).toNat (b := 10) (k := 10)
      (by omega) (by omega)).mpr (by omega)
    rw [List.length_cons]
    omega

/-- The symbol of a digit is not NUL. -/
theorem decimalDigit_ne_zero {d : Nat} (h : d < 10) : decimalDigit d ≠ 0 := by
  have hall : ∀ d < 10, decimalDigit d ≠ 0 := by decide
  exact hall d h

/-- A numeral holds digits, and perhaps a sign. -/
theorem mem_decimal {i : Int32} {b : UInt8} (h : b ∈ decimal i) :
    b = '-'.toUInt8 ∨ ∃ d < 10, decimalDigit d = b := by
  unfold decimal at h
  split at h
  · exact Or.inr (mem_numeral (by omega) h)
  · exact (List.mem_cons.mp h).imp_right (mem_numeral (by omega))

/-- A numeral holds no NUL. -/
theorem ne_zero_of_mem_decimal (i : Int32) : ∀ b ∈ decimal i, b ≠ 0 := by
  intro b hb
  rcases mem_decimal hb with rfl | ⟨d, hd, rfl⟩
  · decide
  · exact decimalDigit_ne_zero hd

/-- Nor does it hold the byte 0xFF. -/
theorem eof_notMem_decimal (i : Int32) : 0xFF ∉ decimal i := by
  intro h
  have hall : ∀ d < 10, decimalDigit d ≠ 0xFF := by decide
  rcases mem_decimal h with hsign | ⟨d, hd, hdigit⟩
  · exact absurd hsign (by decide)
  · exact hall d hd hdigit

/-- The buffer is its first 20 cells and the NUL. -/
theorem ItoaBuf.cells_eq (b : ItoaBuf) : b.cells = b.cells.take (ITOA_DIGITS + 1) ++ [some 0] := by
  have hlen := b.length_eq
  have hlt : ITOA_DIGITS + 1 < b.cells.length := by omega
  have hnul := b.nul
  rw [List.getElem?_eq_getElem hlt, Option.some.injEq] at hnul
  rw [← hnul, List.take_append_getElem hlt]
  exact (List.take_of_length_le (by omega)).symm

/-- The loop on the whole buffer: the numeral ends in the cell before the NUL. -/
theorem itoaLoop_cells (digit : Int → UInt8) (s : Int) (hs : s = 1 ∨ s = -1)
    (hdigit : ∀ n : Nat, digit (s * n) = decimalDigit (n % 10)) (n : Nat) (b : ItoaBuf)
    (hk : (numeral decimalDigit 10 n).length ≤ ITOA_DIGITS + 1) :
    itoaLoop digit (ITOA_DIGITS + 1) (s * n) b.cells
      = some (b.cells.take (ITOA_DIGITS + 1 - (numeral decimalDigit 10 n).length)
          ++ ((numeral decimalDigit 10 n).map some ++ [some 0]),
          ITOA_DIGITS + 1 - (numeral decimalDigit 10 n).length) := by
  have hlen := b.length_eq
  have hdigits := length_numeral decimalDigit 10 n
  generalize (numeral decimalDigit 10 n).length = k at hk hdigits ⊢
  -- The cells before the numeral, and the cells of the numeral.
  have hfront : (b.cells.take (ITOA_DIGITS + 1 - k)).length = ITOA_DIGITS + 1 - k := by
    rw [List.length_take]
    omega
  have hmid : ((b.cells.take (ITOA_DIGITS + 1)).drop (ITOA_DIGITS + 1 - k)).length = k := by
    rw [List.length_drop, List.length_take]
    omega
  have h := itoaLoop_eq digit s hs hdigit n (b.cells.take (ITOA_DIGITS + 1 - k))
    ((b.cells.take (ITOA_DIGITS + 1)).drop (ITOA_DIGITS + 1 - k)) [some 0] (hmid.trans hdigits)
  have hcells : b.cells.take (ITOA_DIGITS + 1 - k)
      ++ ((b.cells.take (ITOA_DIGITS + 1)).drop (ITOA_DIGITS + 1 - k) ++ [some 0]) = b.cells := by
    rw [← List.append_assoc, List.drop_take, ← List.take_add,
      Nat.add_sub_cancel' (Nat.sub_le _ _)]
    exact b.cells_eq.symm
  rwa [hcells, hfront, hmid, Nat.sub_add_cancel hk] at h

/-- The numeral and the NUL over the last cells of a buffer. -/
def stamp (cells : Object UInt8) (i : Int32) : Object UInt8 :=
  cells.take (ITOA_DIGITS + 1 - (decimal i).length) ++ ((decimal i).map some ++ [some 0])

/-- The cells behind a call, and the returned pointer. -/
theorem itoaCells_eq (i : Int32) (b : ItoaBuf) :
    itoaCells i b.cells = some (stamp b.cells i, ITOA_DIGITS + 1 - (decimal i).length) := by
  have hlen := b.length_eq
  have hdec := length_decimal_le i
  have hroom : ITOA_DIGITS = 19 := rfl
  unfold stamp
  unfold decimal at hdec ⊢
  unfold itoaCells
  split
  · rename_i hpos
    rw [if_pos hpos] at hdec
    have hloop := itoaLoop_cells (fun i => charOfInt ('0'.toNat + i.tmod 10)) 1 (Or.inl rfl)
      (fun n => by rw [Int.one_mul]; rfl) i.toInt.toNat b (by omega)
    rwa [Int.one_mul, Int.toNat_of_nonneg hpos] at hloop
  · rename_i hneg
    rw [if_neg hneg, List.length_cons] at hdec
    have hloop := itoaLoop_cells (fun i => charOfInt ('0'.toNat - i.tmod 10)) (-1) (Or.inr rfl)
      (fun n => by
        rw [Int.neg_one_mul, Int.neg_tmod, Int.sub_neg]
        rfl)
      (-i.toInt).toNat b (by omega)
    have hi : -1 * ((-i.toInt).toNat : Int) = i.toInt := by omega
    rw [hi] at hloop
    rw [hloop, List.length_cons]
    generalize hnum : numeral decimalDigit 10 (-i.toInt).toNat = num at hdec ⊢
    -- The sign goes into the cell before the numeral.
    have hp : ITOA_DIGITS + 1 - num.length = ITOA_DIGITS + 1 - (num.length + 1) + 1 := by omega
    have hlt : ITOA_DIGITS + 1 - (num.length + 1) < b.cells.length := by omega
    simp only [Option.bind_eq_bind, Option.bind_some]
    rw [if_pos (by omega), hp, Nat.add_sub_cancel, Object.store_take hlt]
    rfl

/-- The specification of `itoa`. -/
theorem itoa_spec (i : Int32) (b : ItoaBuf) :
    ∃ b' : ItoaBuf, itoa i b = some (b', ITOA_DIGITS + 1 - (decimal i).length) ∧
      b'.cells = stamp b.cells i := by
  have h := itoaCells_eq i b
  refine ⟨⟨_, (itoaCells_frame h).1.trans b.length_eq, (itoaCells_frame h).2.trans b.nul⟩, ?_, rfl⟩
  simp only [itoa, h, Option.pmap_some]

end Chuckles
