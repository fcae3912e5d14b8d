import Chuckles.Libc.Memory

/-!
# `Chuckles.Proofs.Memmove`: `memmove` copies under every overlap

`memmove` copies upwards when the destination is below the source, and downwards otherwise.
Both loops keep `Lib.Memory.Copied`, for an interval that grows at its upper or at its lower
end. In both directions the source of the next byte is outside what has been copied.

`memmove_strcpy_spec` is the main result: `memmove` of regions that do not wrap leaves the
old bytes of the source at the destination and changes nothing else, and so `strcpy` leaves
the string.
-/

set_option autoImplicit false

namespace Chuckles.Proofs

open Lib Lib.Memory

/-! ### The two loops -/

section
variable {dst src : BitVec 32} {size : Nat} (hdst : dst.toNat + size ≤ 2 ^ 32)
  (hsrc : src.toNat + size ≤ 2 ^ 32) (mem : Memory)

include hdst hsrc

/-- The upward loop. The sources of the bytes to come are above the interval that is
copied. -/
theorem copied_upward (hlt : dst.toNat < src.toNat) (k : Nat) (hk : k ≤ size) :
    Copied mem ((List.range k).foldl (copyByte dst src) mem) dst src 0 k := by
  induction k with
  | zero => exact Copied.refl mem dst src 0
  | succ k ih =>
      rw [List.range_succ, List.foldl_append]
      refine (ih (by omega)).copyByte (by omega) (by omega) (Or.inr (by omega)) ?_
      intro j
      omega

/-- The downward loop, when the bytes from `k` on are copied. The sources of the bytes to come
are below them. -/
theorem copied_downward (hle : src.toNat ≤ dst.toNat) (k : Nat) :
    ∀ mem' : Memory, k ≤ size → Copied mem mem' dst src k size →
      Copied mem ((List.range k).reverse.foldl (copyByte dst src) mem') dst src 0 size := by
  induction k with
  | zero => exact fun _ _ h => h
  | succ k ih =>
      intro mem' hk h
      rw [List.range_succ, List.reverse_append, List.reverse_singleton, List.foldl_append]
      refine ih _ (by omega) ?_
      refine h.copyByte (by omega) (by omega) (Or.inl (by omega)) ?_
      intro j
      omega

end

/-- `memmove` copies all bytes of the region. -/
theorem memmove_copied {dst src size : BitVec 32} (hdst : dst.toNat + size.toNat ≤ 2 ^ 32)
    (hsrc : src.toNat + size.toNat ≤ 2 ^ 32) (mem : Memory) :
    Copied mem (memmove dst src size mem).2 dst src 0 size.toNat := by
  unfold memmove
  by_cases hlt : dst < src
  · rw [if_pos hlt]
    exact copied_upward hdst hsrc mem (BitVec.lt_def.mp hlt) _ (Nat.le_refl _)
  · rw [if_neg hlt]
    have hle : src.toNat ≤ dst.toNat := by
      rw [BitVec.lt_def] at hlt
      omega
    exact copied_downward hdst hsrc mem hle _ mem (Nat.le_refl _) (Copied.refl _ _ _ _)

/-! ### Strings -/

/-- The address is in the region of `size` bytes at `p`. -/
def InRegion (p : BitVec 32) (size : Nat) (a : BitVec 32) : Prop :=
  p.toNat ≤ a.toNat ∧ a.toNat < p.toNat + size

/-- The string of these bytes is in memory at `p`, with its NUL. -/
structure StringAt (mem : Memory) (p : BitVec 32) (bytes : List (BitVec 8)) : Prop where
  nonzero : ∀ b ∈ bytes, b ≠ 0
  byte : ∀ (i : Nat) (h : i < bytes.length), mem (p + BitVec.ofNat 32 i) = bytes[i]
  nul : mem (p + BitVec.ofNat 32 bytes.length) = 0

/-- The loop stops at the NUL. The induction is on the number of bytes before it. -/
theorem strlenAtLoop_eq {mem : Memory} {str : BitVec 32} {n : Nat}
    (hnul : mem (str + BitVec.ofNat 32 n) = 0)
    (hbytes : ∀ i < n, mem (str + BitVec.ofNat 32 i) ≠ 0) (k : Nat) :
    ∀ room len : Nat, len + k = n → k < room → strlenAtLoop mem str room len = some n := by
  induction k with
  | zero =>
      intro room len hlen hroom
      obtain ⟨room, rfl⟩ := Nat.exists_eq_add_of_lt hroom
      obtain rfl : len = n := hlen
      rw [Nat.zero_add, strlenAtLoop, if_neg (not_not_intro hnul)]
  | succ k ih =>
      intro room len hlen hroom
      obtain ⟨room, rfl⟩ := Nat.exists_eq_add_of_lt hroom
      rw [strlenAtLoop, if_pos (hbytes len (by omega))]
      exact ih _ _ (by omega) (by omega)

/-- `strlen` of a string in memory. -/
theorem strlenAt_eq {mem : Memory} {p : BitVec 32} {bytes : List (BitVec 8)}
    (h : StringAt mem p bytes) (hlen : bytes.length < 2 ^ 32) :
    strlenAt mem p = some bytes.length := by
  refine strlenAtLoop_eq h.nul ?_ bytes.length _ 0 (Nat.zero_add _) hlen
  intro i hi
  rw [h.byte i hi]
  exact h.nonzero _ (List.getElem_mem hi)

/-- A copy of the region of a string is the string. -/
theorem StringAt.copied {mem mem' : Memory} {dst src : BitVec 32} {bytes : List (BitVec 8)}
    (h : StringAt mem src bytes) (hdst : dst.toNat + (bytes.length + 1) ≤ 2 ^ 32)
    (hcopied : Copied mem mem' dst src 0 (bytes.length + 1)) : StringAt mem' dst bytes := by
  have hbyte : ∀ i ≤ bytes.length,
      mem' (dst + BitVec.ofNat 32 i) = mem (src + BitVec.ofNat 32 i) :=
    fun i hi => hcopied.byte (Nat.zero_le i) (by omega) (by omega)
  refine ⟨h.nonzero, ?_, ?_⟩
  · intro i hi
    rw [hbyte i (Nat.le_of_lt hi), h.byte i hi]
  · rw [hbyte _ (Nat.le_refl _), h.nul]

/-- `strcpy` copies the string and its NUL. -/
theorem strcpy_copied {mem : Memory} {dst src : BitVec 32} {bytes : List (BitVec 8)}
    (h : StringAt mem src bytes) (hdst : dst.toNat + (bytes.length + 1) ≤ 2 ^ 32)
    (hsrc : src.toNat + (bytes.length + 1) ≤ 2 ^ 32) (m : Machine) :
    ∃ mem', strcpy dst src mem m = some (dst, mem', m.serial strcpyReport)
      ∧ Copied mem mem' dst src 0 (bytes.length + 1) := by
  let size : BitVec 32 := 1 + BitVec.ofNat 32 bytes.length
  have hlen := strlenAt_eq h (by omega)
  have hsize : size.toNat = (bytes.length + 1) % 2 ^ 32 := by
    rw [BitVec.toNat_add, BitVec.toNat_ofNat, Nat.add_mod_mod, Nat.add_comm]
    rfl
  refine ⟨(memmove dst src size mem).2, ?_, ?_⟩
  · rw [strcpy, hlen]
    rfl
  · by_cases hall : bytes.length + 1 = 2 ^ 32
    · -- A string that fills the memory is copied to itself, and its size wraps to 0.
      obtain rfl : dst = src := BitVec.eq_of_toNat_eq (by omega)
      have hzero : size = 0 := BitVec.eq_of_toNat_eq (by rw [hsize, hall]; rfl)
      rw [hzero]
      have hnone : (memmove dst dst 0 mem).2 = mem := ite_self mem
      rw [hnone]
      exact Copied.self mem dst 0 _
    · have hsize' : size.toNat = bytes.length + 1 := by
        rw [hsize, Nat.mod_eq_of_lt (by omega)]
      rw [← hsize'] at hdst hsrc ⊢
      exact memmove_copied hdst hsrc mem

/-- **`memmove` leaves at the destination what the source held, and changes no other byte, for
all regions that do not wrap. So `strcpy` leaves the string at the destination, and changes
no other byte.** -/
theorem memmove_strcpy_spec :
    (∀ (mem : Memory) (dst src size : BitVec 32),
      dst.toNat + size.toNat ≤ 2 ^ 32 → src.toNat + size.toNat ≤ 2 ^ 32 →
      (memmove dst src size mem).1 = dst
        ∧ (∀ i < size.toNat, (memmove dst src size mem).2 (dst + BitVec.ofNat 32 i)
            = mem (src + BitVec.ofNat 32 i))
        ∧ ∀ a, ¬ InRegion dst size.toNat a → (memmove dst src size mem).2 a = mem a)
      ∧ ∀ (mem : Memory) (m : Machine) (dst src : BitVec 32) (bytes : List (BitVec 8)),
        StringAt mem src bytes → dst.toNat + (bytes.length + 1) ≤ 2 ^ 32 →
        src.toNat + (bytes.length + 1) ≤ 2 ^ 32 →
        ∃ mem', strcpy dst src mem m = some (dst, mem', m.serial strcpyReport)
          ∧ StringAt mem' dst bytes
          ∧ ∀ a, ¬ InRegion dst (bytes.length + 1) a → mem' a = mem a := by
  constructor
  · intro mem dst src size hdst hsrc
    have hcopied := memmove_copied hdst hsrc mem
    exact ⟨rfl, fun i hi => hcopied.byte (Nat.zero_le i) hi (by omega),
      fun a ha => (hcopied a).trans (if_neg ha)⟩
  · intro mem m dst src bytes hstring hdst hsrc
    obtain ⟨mem', hrun, hcopied⟩ := strcpy_copied hstring hdst hsrc m
    exact ⟨mem', hrun, hstring.copied hdst hcopied, fun a ha => (hcopied a).trans (if_neg ha)⟩

/-- A memory with the string `AB` at 0x1000. -/
def abMemory : Memory := fun a => if a = 0x1000 then 0x41 else if a = 0x1001 then 0x42 else 0

/-- The string in it. -/
theorem stringAt_abMemory : StringAt abMemory 0x1000 [0x41, 0x42] :=
  ⟨by decide, by decide, by decide⟩

/-- The two results for copies by one byte upwards, into the string itself. -/
theorem memmove_strcpy_overlap :
    ((memmove 0x1001 0x1000 2 abMemory).1 = 0x1001
        ∧ (∀ i < (2#32).toNat, (memmove 0x1001 0x1000 2 abMemory).2 (0x1001 + BitVec.ofNat 32 i)
            = abMemory (0x1000 + BitVec.ofNat 32 i))
        ∧ ∀ a, ¬ InRegion 0x1001 (2#32).toNat a →
          (memmove 0x1001 0x1000 2 abMemory).2 a = abMemory a)
      ∧ ∃ mem', strcpy 0x1001 0x1000 abMemory Machine.boot
            = some (0x1001, mem', Machine.boot.serial strcpyReport)
          ∧ StringAt mem' 0x1001 [0x41, 0x42]
          ∧ ∀ a, ¬ InRegion 0x1001 3 a → mem' a = abMemory a :=
  ⟨memmove_strcpy_spec.1 abMemory 0x1001 0x1000 2 (by decide) (by decide),
    memmove_strcpy_spec.2 abMemory Machine.boot 0x1001 0x1000 [0x41, 0x42] stringAt_abMemory
      (by decide) (by decide)⟩

end Chuckles.Proofs
