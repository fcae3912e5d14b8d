import Chuckles.Lib.Region
import Chuckles.Libc.Stdio

/-!
# `Chuckles.Libc.Memory`: blocks of bytes

`memset`, `memcpy`, `memcmp`, `memmove` and `strcpy` of `libc/string`, over the flat memory of the
machine. The pointers are addresses and may point anywhere, so two regions may overlap. The
pointers of `memcpy` are `restrict`: its regions do not.

`strlenAt` is `strlen` over this memory. It counts bytes up to the NUL, wherever that is.
`Chuckles.Libc.String` has the `strlen` for a pointer into a single object.
-/

set_option autoImplicit false

namespace Chuckles

open Lib

/-! ### Blocks -/

/-- `(unsigned char) value`. -/
def ucharOfInt (value : Int32) : BitVec 8 := value.toBitVec.setWidth 8

/-- `memset`: the returned pointer and the memory. -/
def memset (bufptr : BitVec 32) (value : Int32) (size : BitVec 32) (mem : Memory) :
    BitVec 32 × Memory :=
  (bufptr,
    (List.range size.toNat).foldl (fun (mem : Memory) i =>
      Function.update mem (bufptr + BitVec.ofNat 32 i) (ucharOfInt value)) mem)

/-- `memcpy`: the returned pointer and the memory. -/
def memcpy (dstptr srcptr size : BitVec 32) (mem : Memory) : BitVec 32 × Memory :=
  (dstptr, (List.range size.toNat).foldl (Memory.copyByte dstptr srcptr) mem)

/-- The loop of `memcmp`, from the index on, with the number of bytes that are left. -/
def memcmpLoop (mem : Memory) (a b : BitVec 32) : Nat → Nat → Int
  | _, 0 => 0
  | i, left + 1 =>
    if mem (a + BitVec.ofNat 32 i) < mem (b + BitVec.ofNat 32 i) then -1
    else if mem (b + BitVec.ofNat 32 i) < mem (a + BitVec.ofNat 32 i) then 1
    else memcmpLoop mem a b (i + 1) left

/-- `memcmp`. -/
def memcmp (aptr bptr size : BitVec 32) (mem : Memory) : Int :=
  memcmpLoop mem aptr bptr 0 size.toNat

/-- `memmove`: the returned pointer and the memory. -/
def memmove (dstptr srcptr size : BitVec 32) (mem : Memory) : BitVec 32 × Memory :=
  (dstptr,
    if dstptr < srcptr then
      -- `for (size_t i = 0; i < size; i++)`
      (List.range size.toNat).foldl (Memory.copyByte dstptr srcptr) mem
    else
      -- `for (size_t i = size; i != 0; i--)`, with the index `i - 1`
      (List.range size.toNat).reverse.foldl (Memory.copyByte dstptr srcptr) mem)

/-- `memset` is one store. -/
theorem memset_eq (bufptr : BitVec 32) (value : Int32) (size : BitVec 32) (mem : Memory) :
    memset bufptr value size mem
      = (bufptr, Memory.store bufptr (List.replicate size.toNat (ucharOfInt value)) mem) := by
  have hbytes := Memory.foldl_update_eq_store bufptr (fun _ => ucharOfInt value) mem size.toNat
    (Nat.le_of_lt size.isLt)
  rw [memset, hbytes, List.map_const', List.length_range]

/-! ### `strcpy` -/

/-- `while (str[len]) len++;`, with at most `room` tests. -/
def strlenAtLoop (mem : Memory) (str : BitVec 32) : Nat → Nat → Option Nat
  | 0, _ => none
  | room + 1, len =>
    if mem (str + BitVec.ofNat 32 len) ≠ 0 then strlenAtLoop mem str room (len + 1) else some len

/-- `strlen`. After `2 ^ 32` bytes the pointer is back at the first one. So when there is no
NUL by then, the loop never ends. -/
def strlenAt (mem : Memory) (str : BitVec 32) : Option Nat := strlenAtLoop mem str (2 ^ 32) 0

/-- The line that `strcpy` reports. -/
def strcpyReport : List UInt8 :=
  ascii "strcpy() used. Please switch to strdup once working malloc() implemented.\n"

/-- `strcpy`: the returned pointer, the memory and the machine. -/
def strcpy (dst src : BitVec 32) (mem : Memory) (m : Machine) :
    Option (BitVec 32 × Memory × Machine) := do
  let m := m.serial strcpyReport
  let len ← strlenAt mem src
  let (_, mem) := memmove dst src (1 + BitVec.ofNat 32 len) mem
  some (dst, mem, m)

end Chuckles
