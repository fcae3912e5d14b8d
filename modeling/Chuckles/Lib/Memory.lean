import Mathlib.Algebra.Group.Nat.Defs
import Mathlib.Logic.Function.Basic
import Mathlib.Tactic.Common

/-!
# `Chuckles.Lib.Memory`: byte memory with 32-bit addresses

`Memory` is the memory of a 32-bit little-endian machine: one byte for each address.
`read32` and `write32` access four bytes from an address on, and addresses wrap around.

The distance `b - a` decides whether two accesses overlap, which needs no case for an
access over the end of the address space:

* `read32_write32`: a read of the word that was written.
* `read32_write32_of_ne`: a read of a word that shares no byte with the written one.

The last section is about copies of bytes, one after the other, between two regions that may
overlap. `Copied mem mem' dst src lo hi` says that exactly the bytes from `lo` up to `hi` have
been copied, as they were in `mem`. `Copied.copyByte` adds one byte at an end, if the source
of that byte has not been overwritten.
-/

set_option autoImplicit false

namespace Lib

/-- The memory: a byte for each address. -/
abbrev Memory := BitVec 32 → BitVec 8

namespace Memory

/-- The four bytes from the address `a` on, as a word. -/
def read32 (m : Memory) (a : BitVec 32) : BitVec 32 :=
  m (a + 3) ++ (m (a + 2) ++ (m (a + 1) ++ m a))

/-- The memory with a word in the four bytes from the address `a` on. -/
def write32 (m : Memory) (a v : BitVec 32) : Memory := fun b =>
  if (b - a).toNat < 4 then v.extractLsb' (8 * (b - a).toNat) 8 else m b

/-- A word depends on its four bytes only. -/
theorem read32_congr {m m' : Memory} {a : BitVec 32}
    (h : ∀ k < 4, m (a + BitVec.ofNat 32 k) = m' (a + BitVec.ofNat 32 k)) :
    m.read32 a = m'.read32 a := by
  have h₀ := h 0 (by decide)
  rw [BitVec.add_zero] at h₀
  show m (a + BitVec.ofNat 32 3) ++ (m (a + BitVec.ofNat 32 2) ++
    (m (a + BitVec.ofNat 32 1) ++ m a)) = m'.read32 a
  rw [h 3 (by decide), h 2 (by decide), h 1 (by decide), h₀]
  rfl

/-- The bytes of the written word. -/
theorem write32_add (m : Memory) (a v : BitVec 32) {k : Nat} (hk : k < 4) :
    m.write32 a v (a + BitVec.ofNat 32 k) = v.extractLsb' (8 * k) 8 := by
  have hdist : (a + BitVec.ofNat 32 k - a).toNat = k := by
    rw [BitVec.add_comm, BitVec.add_sub_cancel, BitVec.toNat_ofNat]
    omega
  rw [write32, hdist, if_pos hk]

/-- The other bytes. -/
theorem write32_of_le (m : Memory) {a b : BitVec 32} (v : BitVec 32) (h : 4 ≤ (b - a).toNat) :
    m.write32 a v b = m b := by
  rw [write32, if_neg (by omega)]

/-- The written word is read back. -/
theorem read32_write32 (m : Memory) (a v : BitVec 32) : (m.write32 a v).read32 a = v := by
  have h0 := write32_add m a v (k := 0) (by decide)
  have h1 := write32_add m a v (k := 1) (by decide)
  have h2 := write32_add m a v (k := 2) (by decide)
  have h3 := write32_add m a v (k := 3) (by decide)
  rw [BitVec.add_zero] at h0
  show m.write32 a v (a + BitVec.ofNat 32 3) ++ (m.write32 a v (a + BitVec.ofNat 32 2) ++
    (m.write32 a v (a + BitVec.ofNat 32 1) ++ m.write32 a v a)) = v
  rw [h0, h1, h2, h3]
  apply BitVec.eq_of_getLsbD_eq
  intro i hi
  simp only [BitVec.getLsbD_append, BitVec.getLsbD_extractLsb']
  grind

/-- A word that shares no byte with the written one is not changed. -/
theorem read32_write32_of_ne (m : Memory) {a b : BitVec 32} (v : BitVec 32)
    (h : 4 ≤ (b - a).toNat) (h' : (b - a).toNat ≤ 2 ^ 32 - 4) :
    (m.write32 a v).read32 b = m.read32 b := by
  have hbyte (k : Nat) (hk : k < 4) : m.write32 a v (b + BitVec.ofNat 32 k)
      = m (b + BitVec.ofNat 32 k) := by
    apply write32_of_le
    have hdist : (b + BitVec.ofNat 32 k - a).toNat = (b - a).toNat + k := by
      rw [BitVec.sub_eq_add_neg, BitVec.add_assoc, BitVec.add_comm (BitVec.ofNat 32 k),
        ← BitVec.add_assoc, ← BitVec.sub_eq_add_neg, BitVec.toNat_add, BitVec.toNat_ofNat]
      omega
    omega
  have h0 := hbyte 0 (by decide)
  rw [BitVec.add_zero] at h0
  show m.write32 a v (b + BitVec.ofNat 32 3) ++ (m.write32 a v (b + BitVec.ofNat 32 2) ++
    (m.write32 a v (b + BitVec.ofNat 32 1) ++ m.write32 a v b)) = m.read32 b
  rw [h0, hbyte 1 (by decide), hbyte 2 (by decide), hbyte 3 (by decide)]
  rfl

/-! ### Copies -/

/-- An address inside a region that does not wrap. -/
theorem toNat_add_ofNat {a : BitVec 32} {i : Nat} (h : a.toNat + i < 2 ^ 32) :
    (a + BitVec.ofNat 32 i).toNat = a.toNat + i := by
  rw [BitVec.toNat_add, BitVec.toNat_ofNat]
  omega

/-- The memory after the byte `i` of a copy. -/
def copyByte (dst src : BitVec 32) (mem : Memory) (i : Nat) : Memory :=
  Function.update mem (dst + BitVec.ofNat 32 i) (mem (src + BitVec.ofNat 32 i))

/-- The bytes from `lo` up to `hi` of the region at `dst` are those that the region at `src`
held in `mem`, and every other byte is that of `mem`. -/
def Copied (mem mem' : Memory) (dst src : BitVec 32) (lo hi : Nat) : Prop :=
  ∀ a, mem' a = if dst.toNat + lo ≤ a.toNat ∧ a.toNat < dst.toNat + hi
    then mem (src + (a - dst)) else mem a

/-- Nothing has been copied at first. -/
theorem Copied.refl (mem : Memory) (dst src : BitVec 32) (k : Nat) :
    Copied mem mem dst src k k := by
  intro a
  rw [if_neg (by omega)]

/-- A byte that has been copied. -/
theorem Copied.byte {mem mem' : Memory} {dst src : BitVec 32} {lo hi i : Nat}
    (h : Copied mem mem' dst src lo hi) (hlo : lo ≤ i) (hhi : i < hi)
    (hdst : dst.toNat + i < 2 ^ 32) :
    mem' (dst + BitVec.ofNat 32 i) = mem (src + BitVec.ofNat 32 i) := by
  have haddr := toNat_add_ofNat hdst
  have hoff : dst + BitVec.ofNat 32 i - dst = BitVec.ofNat 32 i := by
    rw [BitVec.add_comm, BitVec.add_sub_cancel]
  rw [h, if_pos (by omega), hoff]

/-- A copy of a region to itself. -/
theorem Copied.self (mem : Memory) (p : BitVec 32) (lo hi : Nat) : Copied mem mem p p lo hi := by
  intro a
  have haddr : p + (a - p) = a := by
    rw [BitVec.add_comm, BitVec.sub_add_cancel]
  rw [haddr, ite_self]

/-- One more byte at an end, whose source is outside what was copied so far. -/
theorem Copied.copyByte {mem mem' : Memory} {dst src : BitVec 32} {lo hi lo' hi' i : Nat}
    (h : Copied mem mem' dst src lo hi) (hdst : dst.toNat + i < 2 ^ 32)
    (hsrc : src.toNat + i < 2 ^ 32)
    (hunread : src.toNat + i < dst.toNat + lo ∨ dst.toNat + hi ≤ src.toNat + i)
    (hjoin : ∀ k, lo' ≤ k ∧ k < hi' ↔ lo ≤ k ∧ k < hi ∨ k = i) :
    Copied mem (copyByte dst src mem' i) dst src lo' hi' := by
  intro a
  have haddr := toNat_add_ofNat hdst
  -- The source of the byte is still as it was.
  have hread : mem' (src + BitVec.ofNat 32 i) = mem (src + BitVec.ofNat 32 i) := by
    rw [h, if_neg (by rw [toNat_add_ofNat hsrc]; omega)]
  rw [Memory.copyByte, hread]
  by_cases ha : a = dst + BitVec.ofNat 32 i
  · have hoff : a - dst = BitVec.ofNat 32 i := by
      rw [ha, BitVec.add_comm, BitVec.add_sub_cancel]
    have hin := (hjoin i).mpr (Or.inr rfl)
    rw [ha, Function.update_self, if_pos (by omega), ← ha, hoff]
  · -- Another byte is in the longer region exactly when it is in the shorter one.
    have hne : a.toNat ≠ dst.toNat + i := by
      rw [← haddr]
      exact fun heq => ha (BitVec.eq_of_toNat_eq heq)
    rw [Function.update_of_ne ha, h a]
    have hin : dst.toNat + lo ≤ a.toNat ∧ a.toNat < dst.toNat + hi
        ↔ dst.toNat + lo' ≤ a.toNat ∧ a.toNat < dst.toNat + hi' := by
      have hk := hjoin (a.toNat - dst.toNat)
      omega
    simp only [hin]

end Memory

end Lib
