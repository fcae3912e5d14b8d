import Chuckles.Lib.Memory
import Chuckles.Libc.Printf

/-!
# `Chuckles.Kernel.Multiboot`: the memory map of the boot loader

The model of `current_test` in `kernel/kernel/kernel.c`, which prints what the boot loader
says about the memory. The memory of the map is a parameter: no print changes it.

`Report` is the machine together with the calls of `printf` that `current_test` has made.
No function reads the calls. The loop over the map is a `Lib.Loop`, and `currentTest` says
what is reached with at most a given number of passes. `testReads` lists the fields of the
map that these passes read.

`kernelMain` is what `kernel_main` does after `kernel_early`, as long as no interrupt prints in
between.
-/

set_option autoImplicit false

namespace Chuckles

open Lib Lib.Loop

/-- `multiboot_info_t`, as far as it is read. -/
structure MultibootInfo where
  flags : BitVec 32
  memLower : BitVec 32
  memUpper : BitVec 32
  mmapLength : BitVec 32
  mmapAddr : BitVec 32

/-- `memory_map_t`. -/
structure MemoryMap where
  size : BitVec 32
  baseAddrLow : BitVec 32
  baseAddrHigh : BitVec 32
  lengthLow : BitVec 32
  lengthHigh : BitVec 32
  type : BitVec 32
  deriving DecidableEq

/-- `*mm`. -/
def memoryMapAt (mem : Memory) (mm : BitVec 32) : MemoryMap where
  size := mem.read32 mm
  baseAddrLow := mem.read32 (mm + 4)
  baseAddrHigh := mem.read32 (mm + 8)
  lengthLow := mem.read32 (mm + 12)
  lengthHigh := mem.read32 (mm + 16)
  type := mem.read32 (mm + 20)

/-- `sizeof(unsigned int)`, which is also the size of the field `size`. -/
def sizeofUnsigned : Nat := 4

/-- A call of `printf`: the format and the arguments. -/
structure PrintfCall where
  format : List UInt8
  args : List Arg

/-- The machine and the calls of `printf` so far. -/
structure Report where
  mach : Machine
  calls : List PrintfCall

/-- `printf`, with a record of the call. -/
def Report.printf (format : List UInt8) (args : List Arg) (r : Report) : Option Report := do
  let mach ← callPrintf format args r.mach
  some ⟨mach, r.calls ++ [⟨format, args⟩]⟩

/-- An unsigned argument, where the format expects an `int`. -/
def unsignedArg (x : BitVec 32) : Arg := .int (Int32.ofBitVec x)

/-- The format of the line for an entry of the map. -/
def mmapLine : List UInt8 := ascii "MMAP %d: <S:%x,BASE:%x,LEN:%x,T:%d>\n"

/-- The arguments of the line for the entry `mm`. -/
def mmapArgs (i : Int32) (mm : MemoryMap) : List Arg :=
  [.int i,
    unsignedArg mm.size,
    unsignedArg (mm.baseAddrLow + (mm.baseAddrHigh <<< sizeofUnsigned)),
    unsignedArg (mm.lengthLow + (mm.lengthHigh <<< sizeofUnsigned)),
    unsignedArg mm.type]

/-- The variables of the loop. -/
structure Walk where
  i : Int32
  mm : BitVec 32
  report : Report

/-- How `current_test` ends: it returns, or the division for the number of the maps traps. -/
inductive Ending where
  | returned
  | divideError
  deriving DecidableEq

/-- One pass of the loop, up to the pointer `stop`. -/
def walkBody (mem : Memory) (stop : BitVec 32) (w : Walk) :
    Option (Pass Walk (Ending × Report)) :=
  if w.mm < stop then do
    let mm := memoryMapAt mem w.mm
    let report ← w.report.printf mmapLine (mmapArgs w.i mm)
    some (.again ⟨w.i + 1, w.mm + mm.size + BitVec.ofNat 32 sizeofUnsigned, report⟩)
  else some (.exit (.returned, w.report))

/-- The body as a loop body: a pass without a result is a fault. -/
def walkPass (mem : Memory) (stop : BitVec 32) (w : Walk) : Pass Walk (Ending × Report) :=
  (walkBody mem stop w).getD .fault

/-- The branch for the bit 0 of the flags. -/
def memSizes (mbi : MultibootInfo) (r : Report) : Option Report :=
  if mbi.flags &&& 1 ≠ 0 then do
    let r ← r.printf (ascii "MEM LOWER %dKiB;") [unsignedArg mbi.memLower]
    let r ← r.printf (ascii "MEM UPPER %dKiB") [unsignedArg mbi.memUpper]
    r.printf (ascii "\n") []
  else some r

/-- The branch for the bit 6 of the flags, with at most `n` passes of the loop. -/
def memMaps (n : Nat) (mem : Memory) (mbi : MultibootInfo) (r : Report) :
    Option (Pass Walk (Ending × Report)) :=
  if mbi.flags &&& (1#32 <<< 6) ≠ 0 then
    let size := (memoryMapAt mem mbi.mmapAddr).size
    -- `mbi->mmap_length / mm->size` traps before the print.
    if size = 0 then some (.exit (.divideError, r))
    else do
      let r ← r.printf (ascii "MMAPS FOUND: %d\n") [unsignedArg (mbi.mmapLength / size)]
      some (passes (walkPass mem (mbi.mmapAddr + mbi.mmapLength)) n ⟨0, mbi.mmapAddr, r⟩)
  else some (.exit (.returned, r))

/-- `current_test`. -/
def currentTest (n : Nat) (mem : Memory) (mbi : MultibootInfo) (m : Machine) :
    Pass Walk (Ending × Report) :=
  ((memSizes mbi ⟨m, []⟩).bind (memMaps n mem mbi)).getD .fault

/-! ### `kernel_main` -/

/-- The addresses of the fields of the entry `mm`. Each field has four bytes. -/
def fieldsAt (mm : BitVec 32) : List (BitVec 32) := [mm, mm + 4, mm + 8, mm + 12, mm + 16, mm + 20]

/-- The fields that at most `n` passes of the loop read. The arguments of the line read all
of them. -/
def walkReads (mem : Memory) (stop : BitVec 32) : Nat → Walk → List (BitVec 32)
  | 0, _ => []
  | n + 1, w =>
    if w.mm < stop then
      fieldsAt w.mm ++
        match walkPass mem stop w with
        | .again w' => walkReads mem stop n w'
        -- The last pass has read its entry too, but it leads nowhere.
        | _ => []
    else []

/-- The fields that `current_test` reads with at most `n` passes of the loop. The division
reads the first one. -/
def testReads (n : Nat) (mem : Memory) (mbi : MultibootInfo) (m : Machine) :
    List (BitVec 32) :=
  if mbi.flags &&& (1#32 <<< 6) ≠ 0 then
    mbi.mmapAddr ::
      match currentTest 0 mem mbi m with
      | .again w => walkReads mem (mbi.mmapAddr + mbi.mmapLength) n w
      | _ => []
  else []

end Chuckles
