import Mathlib.Tactic.Common

/-!
# `Chuckles.Lib.Segment`: the segment descriptors of the processor

A segment descriptor is a 64-bit value that holds a base, a limit and the attributes of a
segment, cut into pieces. `Segment.decode` puts the pieces together again, as the processor
does: the base from the bits 16 to 39 and 56 to 63, the limit from the bits 0 to 15 and 48
to 51, the attributes from the bits 40 to 47 and 52 to 55.

`Segment.lastOffset` is the largest offset that the processor accepts in a segment that
grows upwards. `Segment.Accepts` is its limit check.

The first section is about masks. A program that packs a descriptor cuts its pieces out
with masks of consecutive one bits, and `getLsbD_of_range` gives the bits of such a mask. For the
flags in a byte, `or_and_mask` and `and_and_mask` move a mask through the operations that set and
clear bits, and a statement about every byte can be checked for the 256 of them (`forall_byte`).
-/

set_option autoImplicit false

namespace Lib

/-! ### Masks -/

/-- A word whose bits are the one bits from `lo` up to `hi`, bit by bit for any index. -/
theorem getLsbD_of_range {w : Nat} {m : BitVec w} (lo hi : Nat) (hhi : hi ≤ w)
    (h : ∀ i : Fin w, m.getLsbD i = decide (lo ≤ i.val ∧ i.val < hi)) (i : Nat) :
    m.getLsbD i = decide (lo ≤ i ∧ i < hi) := by
  by_cases hi' : i < w
  · exact h ⟨i, hi'⟩
  · rw [BitVec.getLsbD_of_ge m i (by omega)]
    symm
    rw [decide_eq_false_iff_not]
    omega

/-- A mask over a disjunction. -/
theorem or_and_mask (a b mask : UInt8) : (a ||| b) &&& mask = (a &&& mask) ||| (b &&& mask) :=
  UInt8.toBitVec_inj.mp BitVec.and_or_distrib_right

/-- A mask over a mask. -/
theorem and_and_mask {m mask m' : UInt8} (h : m &&& mask = m') (a : UInt8) :
    (a &&& m) &&& mask = a &&& m' := by
  rw [UInt8.and_assoc, h]

/-- A statement about every byte, from the 256 cases. -/
theorem forall_byte {P : UInt8 → Prop} (h : ∀ n < 256, P (UInt8.ofNat n)) (b : UInt8) : P b := by
  have hb := h b.toNat b.toNat_lt
  rwa [UInt8.ofNat_toNat] at hb

/-! ### Descriptors -/

/-- The fields of a segment descriptor. The attributes are the access byte in the bits 0 to
7 and the four flags in the bits 12 to 15. -/
@[ext]
structure Segment where
  base : BitVec 32
  limit : BitVec 20
  attributes : BitVec 16
  deriving DecidableEq

namespace Segment

/-- The fields that the processor reads from a descriptor. -/
def decode (d : BitVec 64) : Segment where
  base := d.extractLsb' 56 8 ++ d.extractLsb' 16 24
  limit := d.extractLsb' 48 4 ++ d.extractLsb' 0 16
  attributes := d.extractLsb' 52 4 ++ (0#4 ++ d.extractLsb' 40 8)

/-- Every bit of a descriptor is in one field, so the fields determine the descriptor. -/
theorem decode_injective : Function.Injective decode := by
  intro d e h
  have hbase : (decode d).base = (decode e).base := by rw [h]
  have hlimit : (decode d).limit = (decode e).limit := by rw [h]
  have hattr : (decode d).attributes = (decode e).attributes := by rw [h]
  apply BitVec.eq_of_getLsbD_eq
  intro i hi
  -- each bit of the value is looked up in the field that it belongs to
  have hb (j : Nat) := congrArg (BitVec.getLsbD · j) hbase
  have hl (j : Nat) := congrArg (BitVec.getLsbD · j) hlimit
  have ha (j : Nat) := congrArg (BitVec.getLsbD · j) hattr
  simp only [decode, BitVec.getLsbD_append, BitVec.getLsbD_extractLsb',
    BitVec.getLsbD_zero] at hb hl ha
  by_cases h16 : i < 16
  · have := hl i
    simpa [h16] using this
  by_cases h40 : i < 40
  · have := hb (i - 16)
    grind
  by_cases h48 : i < 48
  · have := ha (i - 40)
    grind
  by_cases h52 : i < 52
  · have := hl (i - 32)
    grind
  by_cases h56 : i < 56
  · have := ha (i - 40)
    grind
  · have := hb (i - 32)
    grind

/-- The granularity flag: the limit counts pages and not bytes. -/
def granular (s : Segment) : Bool := s.attributes.getLsbD 15

/-- The largest offset in the segment. -/
def lastOffset (s : Segment) : Nat :=
  if s.granular then s.limit.toNat * 4096 + 4095 else s.limit.toNat

/-- The limit check of the processor for one byte. -/
def Accepts (s : Segment) (off : Nat) : Prop := off ≤ s.lastOffset

/-- The segment accepts no byte outside an object of `n` bytes at its base exactly when its
last offset is inside it. -/
theorem accepts_only_iff (s : Segment) (n : Nat) :
    (∀ off, s.Accepts off → off < n) ↔ s.lastOffset < n :=
  ⟨fun h => h _ (Nat.le_refl _), fun h _ hoff => Nat.lt_of_le_of_lt hoff h⟩

/-- With byte granularity the limit is the last offset. -/
theorem lastOffset_of_bytes {s : Segment} (h : s.granular = false) :
    s.lastOffset = s.limit.toNat := by
  simp [lastOffset, h]

end Segment

end Lib
