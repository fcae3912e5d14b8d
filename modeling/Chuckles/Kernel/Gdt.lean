import Chuckles.Lib.Selector
import Chuckles.Libc.Stdio

/-!
# `Chuckles.Kernel.Gdt`: the descriptor table and the task state

The model of `kernel/arch/i386/gdt.c`. `descriptor` is the value that `create_descriptor`
packs, with the masks and the shifts of the source at the source's widths: `flag` is
promoted to `int`, the limit and the base stay at 32 bits, and only the result has 64.

The linker chooses where the objects `gdt` and `tss` are. So their addresses are
parameters.

`gdtFlush` and `tssFlush` are the selectors that `gdt_flush.S` and `tss.S` load.
-/

set_option autoImplicit false

namespace Chuckles

open Lib.X86 (SelReg)

abbrev NUM_GDT_ENTRIES : Nat := 6

/-! ### The flags of `gdt.h` -/

def SEG_DESCTYPE (x : BitVec 16) : BitVec 16 := x <<< 0x04
def SEG_PRES (x : BitVec 16) : BitVec 16 := x <<< 0x07
def SEG_SAVL (x : BitVec 16) : BitVec 16 := x <<< 0x0C
def SEG_LONG (x : BitVec 16) : BitVec 16 := x <<< 0x0D
def SEG_SIZE (x : BitVec 16) : BitVec 16 := x <<< 0x0E
def SEG_GRAN (x : BitVec 16) : BitVec 16 := x <<< 0x0F
def SEG_PRIV (x : BitVec 16) : BitVec 16 := (x &&& 0x03) <<< 0x05

def SEG_DATA_RDWR : BitVec 16 := 0x02
def SEG_CODE_EXA : BitVec 16 := 0x09
def SEG_CODE_EXRD : BitVec 16 := 0x0A

/-- The four flat segments and the task state share this sum of flags. -/
def gdtFlags (desctype gran priv type : BitVec 16) : BitVec 16 :=
  SEG_DESCTYPE desctype ||| SEG_PRES 1 ||| SEG_SAVL 0 ||| SEG_LONG 0 ||| SEG_SIZE 1 |||
    SEG_GRAN gran ||| SEG_PRIV priv ||| type

def GDT_CODE_PL0 : BitVec 16 := gdtFlags 1 1 0 SEG_CODE_EXRD
def GDT_DATA_PL0 : BitVec 16 := gdtFlags 1 1 0 SEG_DATA_RDWR
def GDT_CODE_PL3 : BitVec 16 := gdtFlags 1 1 3 SEG_CODE_EXRD
def GDT_DATA_PL3 : BitVec 16 := gdtFlags 1 1 3 SEG_DATA_RDWR
def GDT_TSS : BitVec 16 := gdtFlags 0 0 0 SEG_CODE_EXA

/-! ### The state -/

/-- `struct tss_entry_struct`. -/
structure TssEntry where
  prevTss : BitVec 32
  esp0 : BitVec 32
  ss0 : BitVec 32
  esp1 : BitVec 32
  ss1 : BitVec 32
  esp2 : BitVec 32
  ss2 : BitVec 32
  cr3 : BitVec 32
  eip : BitVec 32
  eflags : BitVec 32
  eax : BitVec 32
  ecx : BitVec 32
  edx : BitVec 32
  ebx : BitVec 32
  esp : BitVec 32
  ebp : BitVec 32
  esi : BitVec 32
  edi : BitVec 32
  es : BitVec 32
  cs : BitVec 32
  ss : BitVec 32
  ds : BitVec 32
  fs : BitVec 32
  gs : BitVec 32
  ldt : BitVec 32
  trap : BitVec 16
  iomapBase : BitVec 16
  deriving DecidableEq

/-- `sizeof(tss)`: the structure is packed, 25 fields of 32 bits and two of 16. -/
def sizeofTss : Nat := 25 * 4 + 2 * 2

/-- The task state after `memset(&tss, 0, sizeof(tss))`, which is also its state at boot. -/
def TssEntry.zero : TssEntry :=
  ⟨0, 0, 0, 0, 0, 0, 0, 0, 0, 0, 0, 0, 0, 0, 0, 0, 0, 0, 0, 0, 0, 0, 0, 0, 0, 0, 0⟩

/-- `struct gdt_ptr`. -/
structure GdtPtr where
  limit : BitVec 16
  base : BitVec 32

/-- The static objects of `gdt.c`. -/
structure Gdt where
  gdt : Vector (BitVec 64) NUM_GDT_ENTRIES
  gp : GdtPtr
  tss : TssEntry

def Gdt.boot : Gdt := ⟨Vector.replicate NUM_GDT_ENTRIES 0, ⟨0, 0⟩, TssEntry.zero⟩

/-! ### The functions -/

/-- The value that `create_descriptor` computes. -/
def descriptor (base limit : BitVec 32) (flag : BitVec 16) : BitVec 64 :=
  let d : BitVec 64 := (limit &&& 0x000F0000#32).setWidth 64
  let d := d ||| ((flag.setWidth 32 <<< 8) &&& 0x00F0FF00#32).setWidth 64
  let d := d ||| ((base >>> 16) &&& 0x000000FF#32).setWidth 64
  let d := d ||| (base &&& 0xFF000000#32).setWidth 64
  let d := d <<< 32
  let d := d ||| (base <<< 16).setWidth 64
  d ||| (limit &&& 0x0000FFFF#32).setWidth 64

/-- `create_descriptor`. An index outside the table has no result. -/
def createDescriptor (num : Int) (base limit : BitVec 32) (flag : BitVec 16) (g : Gdt) :
    Option Gdt :=
  if h : 0 ≤ num ∧ num < NUM_GDT_ENTRIES then
    some { g with gdt := g.gdt.set num.toNat (descriptor base limit flag) (by omega) }
  else none

/-- `write_tss`, for the task state at the address `tss`. The argument `num` becomes an
`int` in the call. -/
def writeTss (tss : BitVec 32) (num : BitVec 32) (ss0 : BitVec 16) (esp0 : BitVec 32) (g : Gdt) :
    Option Gdt := do
  let g ← createDescriptor num.toInt tss (tss + BitVec.ofNat 32 sizeofTss) GDT_TSS g
  some { g with
    tss := { TssEntry.zero with
      ss0 := ss0.setWidth 32
      esp0 := esp0
      cs := 0x0b
      ss := 0x13
      ds := 0x13
      es := 0x13
      fs := 0x13
      gs := 0x13
      iomapBase := BitVec.ofNat 16 sizeofTss } }

/-- `gdt_initialise`, for the table at the address `gdt` and the task state at `tss`. The loads of
`gdt_flush` and `tss_flush` set the accessed bits of the entries 1 and 2 and the busy bit of the
entry 5. These bits are left out here, and the delivery of interrupts does not read them. -/
def gdtInitialise (gdt tss : BitVec 32) (g : Gdt) (m : Machine) : Option (Gdt × Machine) := do
  let g := { g with gp := ⟨BitVec.ofNat 16 (8 * NUM_GDT_ENTRIES - 1), gdt⟩ }
  let m ← serialWrited (Int32.ofBitVec g.gp.base) (m.serial (ascii "&GDT: "))
  let m := m.serial (ascii "\n")
  let g ← createDescriptor 0 0 0 0 g
  let g ← createDescriptor 1 0 0xFFFFFFFF GDT_CODE_PL0 g
  let g ← createDescriptor 2 0 0xFFFFFFFF GDT_DATA_PL0 g
  let g ← createDescriptor 3 0 0xFFFFFFFF GDT_CODE_PL3 g
  let g ← createDescriptor 4 0 0xFFFFFFFF GDT_DATA_PL3 g
  let g ← writeTss tss 5 0x10 0 g
  some (g, m.serial (ascii "GDT flushed\nTSS flushed\n"))

/-- The loads of `gdt_flush`, behind its `lgdt`: DS, ES, FS, SS and GS, and CS with the jump. -/
def gdtFlush : List (SelReg × BitVec 16) :=
  [(.ds, 0x10), (.ds, 0x10), (.ds, 0x10), (.ss, 0x10), (.ds, 0x10), (.cs, 0x08)]

/-- The load of `tss_flush`. -/
def tssFlush : List (SelReg × BitVec 16) := [(.tr, 0x2B)]

end Chuckles
