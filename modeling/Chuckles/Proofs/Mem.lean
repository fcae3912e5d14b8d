import Chuckles.Libc.Memory

/-!
# `Chuckles.Proofs.Mem`: the blocks of bytes

`memcmp_lex`: `memcmp` compares two blocks in the lexicographic order of unsigned bytes, wherever
they are. `memcpy_memmove`: on regions that do not overlap, `memcpy` and `memmove` leave the same
memory, and there `memcmp` finds the copy equal to its source.

The order of the copies does not matter there (`Lib.Memory.foldl_copyByte_apart`), so the loop of
`memcpy` and both loops of `memmove` are one case.
-/

set_option autoImplicit false

namespace Chuckles.Proofs

open Lib Lib.Memory

/-- The `n` bytes from an address on. -/
def block (mem : Memory) (a : BitVec 32) (n : Nat) : List (BitVec 8) :=
  (List.range n).map fun k => mem (a + BitVec.ofNat 32 k)

/-- The length of a block. -/
@[simp] theorem length_block (mem : Memory) (a : BitVec 32) (n : Nat) :
    (block mem a n).length = n := by simp [block]

/-- The first byte of a block, and the rest. -/
theorem block_succ (mem : Memory) (a : BitVec 32) (n : Nat) :
    block mem a (n + 1) = mem a :: block mem (a + 1) n := by
  have hnext (k : Nat) : a + BitVec.ofNat 32 (k + 1) = a + 1 + BitVec.ofNat 32 k := by
    rw [BitVec.add_assoc, BitVec.add_comm 1, BitVec.ofNat_add]
    rfl
  unfold block
  rw [List.range_succ_eq_map, List.map_cons, List.map_map, BitVec.add_zero]
  congr 1
  apply List.map_congr_left
  intro k _
  show mem (a + BitVec.ofNat 32 (k + 1)) = _
  rw [hnext]

/-! ### `memcmp` -/

/-- The three outcomes of a comparison. -/
def Compared3 (r : Int) (l l' : List (BitVec 8)) : Prop :=
  (r = -1 ∧ l < l') ∨ (r = 0 ∧ l = l') ∨ (r = 1 ∧ l' < l)

/-- A list that is smaller is another one. -/
theorem ne_of_list_lt {l l' : List (BitVec 8)} (h : l < l') : l ≠ l' := by
  rintro rfl
  exact List.lt_irrefl l h

/-- The loop compares the rest of the blocks. -/
theorem memcmpLoop_spec (mem : Memory) (a b : BitVec 32) (n : Nat) : ∀ i,
    Compared3 (memcmpLoop mem a b i n) (block mem (a + BitVec.ofNat 32 i) n)
      (block mem (b + BitVec.ofNat 32 i) n) := by
  induction n with
  | zero => exact fun i => Or.inr (Or.inl ⟨rfl, rfl⟩)
  | succ n ih =>
      intro i
      have hnext (p : BitVec 32) : p + BitVec.ofNat 32 i + 1 = p + BitVec.ofNat 32 (i + 1) := by
        rw [BitVec.add_assoc, BitVec.ofNat_add]
        rfl
      rw [block_succ, block_succ, hnext, hnext, memcmpLoop]
      by_cases hlt : mem (a + BitVec.ofNat 32 i) < mem (b + BitVec.ofNat 32 i)
      · rw [if_pos hlt]
        exact Or.inl ⟨rfl, List.cons_lt_cons_iff.mpr (Or.inl hlt)⟩
      · rw [if_neg hlt]
        by_cases hgt : mem (b + BitVec.ofNat 32 i) < mem (a + BitVec.ofNat 32 i)
        · rw [if_pos hgt]
          exact Or.inr (Or.inr ⟨rfl, List.cons_lt_cons_iff.mpr (Or.inl hgt)⟩)
        · -- The first bytes are equal, so the rest decides.
          have heq : mem (a + BitVec.ofNat 32 i) = mem (b + BitVec.ofNat 32 i) :=
            BitVec.le_antisymm (BitVec.not_lt.mp hgt) (BitVec.not_lt.mp hlt)
          rw [if_neg hgt, heq]
          rcases ih (i + 1) with ⟨hr, hrest⟩ | ⟨hr, hrest⟩ | ⟨hr, hrest⟩
          · exact Or.inl ⟨hr, List.cons_lt_cons_iff.mpr (Or.inr ⟨rfl, hrest⟩)⟩
          · exact Or.inr (Or.inl ⟨hr, by rw [hrest]⟩)
          · exact Or.inr (Or.inr ⟨hr, List.cons_lt_cons_iff.mpr (Or.inr ⟨rfl, hrest⟩)⟩)

/-- `memcmp` is the lexicographic order of the two blocks, and its results are three. -/
theorem memcmp_lex (aptr bptr size : BitVec 32) (mem : Memory) :
    (memcmp aptr bptr size mem = -1 ↔
        block mem aptr size.toNat < block mem bptr size.toNat) ∧
      (memcmp aptr bptr size mem = 0 ↔
        block mem aptr size.toNat = block mem bptr size.toNat) ∧
      (memcmp aptr bptr size mem = 1 ↔
        block mem bptr size.toNat < block mem aptr size.toNat) := by
  have hspec := memcmpLoop_spec mem aptr bptr size.toNat 0
  rw [BitVec.add_zero, BitVec.add_zero] at hspec
  unfold memcmp
  generalize block mem aptr size.toNat = l at hspec ⊢
  generalize block mem bptr size.toNat = l' at hspec ⊢
  rcases hspec with ⟨hr, hlt⟩ | ⟨hr, heq⟩ | ⟨hr, hgt⟩
  · simp [hr, hlt, List.lt_asymm hlt, ne_of_list_lt hlt]
  · simp [hr, heq, List.lt_irrefl]
  · simp [hr, hgt, List.lt_asymm hgt, (ne_of_list_lt hgt).symm]

/-! ### `memcpy` -/

/-- What `memcpy` and `memmove` leave, when the regions do not overlap. -/
theorem memcpy_apart {dst src size : BitVec 32}
    (hapart : Region.Apart ⟨dst, size.toNat⟩ ⟨src, size.toNat⟩) (mem : Memory) (b : BitVec 32) :
    (memcpy dst src size mem).2 b
      = if (b - dst).toNat < size.toNat then mem (src + (b - dst)) else mem b := by
  have h := foldl_copyByte_apart size.isLt hapart mem (List.range size.toNat) (by simp) b
  simp only [List.mem_range] at h
  exact h

/-- `memmove` between blocks that are apart, byte by byte. -/
theorem memmove_apart {dst src size : BitVec 32}
    (hapart : Region.Apart ⟨dst, size.toNat⟩ ⟨src, size.toNat⟩) (mem : Memory) (b : BitVec 32) :
    (memmove dst src size mem).2 b
      = if (b - dst).toNat < size.toNat then mem (src + (b - dst)) else mem b := by
  unfold memmove
  by_cases hlt : dst < src
  · have h := foldl_copyByte_apart size.isLt hapart mem (List.range size.toNat) (by simp) b
    simp only [if_pos hlt]
    simpa only [List.mem_range] using h
  · have h := foldl_copyByte_apart size.isLt hapart mem (List.range size.toNat).reverse (by simp) b
    simp only [if_neg hlt]
    simpa only [List.mem_reverse, List.mem_range] using h

/-- On regions that do not overlap, `memcpy` is `memmove`. In the memory that both leave, the copy
is equal to the source for `memcmp`, and to what the source was before, and nothing outside the
destination has changed. -/
theorem memcpy_memmove (dst src size : BitVec 32)
    (hapart : Region.Apart ⟨dst, size.toNat⟩ ⟨src, size.toNat⟩) (mem : Memory) :
    let mem' := (memcpy dst src size mem).2
    memcpy dst src size mem = memmove dst src size mem ∧
      memcmp dst src size mem' = 0 ∧
      block mem' dst size.toNat = block mem src size.toNat ∧
      Within [⟨dst, size.toNat⟩] mem mem' := by
  intro mem'
  have hcopy (b : BitVec 32) : mem' b
      = if (b - dst).toNat < size.toNat then mem (src + (b - dst)) else mem b :=
    memcpy_apart hapart mem b
  have hmove (b : BitVec 32) := memmove_apart hapart mem b
  have hin (p : BitVec 32) {k : Nat} (hk : k < size.toNat) :
      (p + BitVec.ofNat 32 k - p).toNat = k := by
    rw [BitVec.add_comm, BitVec.add_sub_cancel, BitVec.toNat_ofNat]
    have := size.isLt
    omega
  -- The source has not changed.
  have hsrc : block mem' src size.toNat = block mem src size.toNat := by
    apply List.map_congr_left
    intro k hk
    rw [List.mem_range] at hk
    rw [hcopy, if_neg]
    intro hdst
    refine hapart _ hdst ?_
    show (src + BitVec.ofNat 32 k - src).toNat < _
    rwa [hin src hk]
  have hdst : block mem' dst size.toNat = block mem src size.toNat := by
    apply List.map_congr_left
    intro k hk
    rw [List.mem_range] at hk
    have hdist : dst + BitVec.ofNat 32 k - dst = BitVec.ofNat 32 k := by
      rw [BitVec.add_comm, BitVec.add_sub_cancel]
    rw [hcopy, hin dst hk, if_pos hk, hdist]
  refine ⟨Prod.ext rfl (funext fun b => (hcopy b).trans (hmove b).symm), ?_, hdst, ?_⟩
  · exact (memcmp_lex dst src size mem').2.1.mpr (hdst.trans hsrc.symm)
  · intro a ha
    have hout : ¬(a - dst).toNat < size.toNat := ha ⟨dst, size.toNat⟩ (by simp)
    rw [hcopy, if_neg hout]

/-- Three bytes, copied over the end of the address space. -/
theorem memcpy_memmove_wrapping :
    let mem : Memory := fun a => a.setWidth 8
    let mem' := (memcpy 0xFFFFFFFE 0x1000 3 mem).2
    memcpy 0xFFFFFFFE 0x1000 3 mem = memmove 0xFFFFFFFE 0x1000 3 mem ∧
      memcmp 0xFFFFFFFE 0x1000 3 mem' = 0 ∧
      block mem' 0xFFFFFFFE 3 = block mem 0x1000 3 ∧ Within [⟨0xFFFFFFFE, 3⟩] mem mem' :=
  memcpy_memmove 0xFFFFFFFE 0x1000 3 (by
    intro a ha ha'
    have hdst : (a - 0xFFFFFFFE).toNat < 3 := ha
    have hsrc : (a - 0x1000).toNat < 3 := ha'
    rw [BitVec.toNat_sub] at hdst hsrc
    simp at hdst hsrc
    omega) _

end Chuckles.Proofs
