import Chuckles.Kernel.Idt
import Chuckles.Libc.Memory

/-!
# `Chuckles.Kernel.Tables`: the tables of the processor, byte by byte

`Chuckles.Kernel.Gdt` and `Chuckles.Kernel.Idt` have the tables as values. Here are the same
functions of `gdt.c` and `idt.c` over the memory: each assignment to a field is a store at the
offset of the field in its packed structure, and the tables are cleared with `memset`. `lgdt` and
`lidt` read their operand from this memory too.

The reports on the serial port are left out. They touch none of these objects.
-/

set_option autoImplicit false

namespace Chuckles

open Lib Lib.X86 Lib.Memory

/-- Where the linker has put the objects `gdt`, `gp`, `tss`, `IDT` and `IDTp`. -/
structure TableSymbols where
  gdt : BitVec 32
  gp : BitVec 32
  tss : BitVec 32
  idt : BitVec 32
  idtp : BitVec 32

/-- `sizeof(struct gdt_ptr)` and `sizeof(struct IDT_ptr)`: both are packed. -/
def sizeofPtr : Nat := 6

namespace TableSymbols
variable (s : TableSymbols)

def gdtRegion : Region := ⟨s.gdt, 8 * NUM_GDT_ENTRIES⟩
def gpRegion : Region := ⟨s.gp, sizeofPtr⟩
def tssRegion : Region := ⟨s.tss, sizeofTss⟩
def idtRegion : Region := ⟨s.idt, sizeofIdtGate * 256⟩
def idtpRegion : Region := ⟨s.idtp, sizeofPtr⟩

/-- The objects. -/
def regions : List Region := [s.gdtRegion, s.gpRegion, s.tssRegion, s.idtRegion, s.idtpRegion]

end TableSymbols

/-- The operand of `lgdt` and of `lidt`: the limit, and the base behind it. -/
def readTableReg (mem : Memory) (p : BitVec 32) : TableReg where
  base := mem.read32 (p + 2)
  limit := mem (p + 1) ++ mem p

/-- The assignments to the two fields of `gp` or of `IDTp`. -/
def setTablePtr (p : BitVec 32) (limit : BitVec 16) (base : BitVec 32) (mem : Memory) : Memory :=
  store (p + BitVec.ofNat 32 2) (bytesLE 4 base) (store p (bytesLE 2 limit) mem)

/-! ### `gdt.c` -/

/-- `create_descriptor`: `gdt[num] = descriptor`. An index outside the table has no result. -/
def createDescriptorAt (gdt : BitVec 32) (num : Int) (base limit : BitVec 32) (flag : BitVec 16)
    (mem : Memory) : Option Memory :=
  if 0 ≤ num ∧ num < NUM_GDT_ENTRIES then
    some (store (gdt + BitVec.ofNat 32 (8 * num.toNat))
      (bytesLE 8 (descriptor base limit flag)) mem)
  else none

/-- A field of 32 bits of the task state. -/
def tssField (tss : BitVec 32) (n : Nat) (value : BitVec 32) (mem : Memory) : Memory :=
  store (tss + BitVec.ofNat 32 (4 * n)) (bytesLE 4 value) mem

/-- `write_tss`. -/
def writeTssAt (s : TableSymbols) (num : BitVec 32) (ss0 : BitVec 16) (esp0 : BitVec 32)
    (mem : Memory) : Option Memory := do
  let mem ← createDescriptorAt s.gdt num.toInt s.tss (s.tss + BitVec.ofNat 32 sizeofTss) GDT_TSS mem
  let mem := (memset s.tss 0 (BitVec.ofNat 32 sizeofTss) mem).2
  let mem := tssField s.tss 2 (ss0.setWidth 32) mem
  let mem := tssField s.tss 1 esp0 mem
  -- `cs`, `ss`, `ds`, `es`, `fs` and `gs`, in the order of the source
  let mem := tssField s.tss 19 0x0b mem
  let mem := tssField s.tss 20 0x13 mem
  let mem := tssField s.tss 21 0x13 mem
  let mem := tssField s.tss 18 0x13 mem
  let mem := tssField s.tss 22 0x13 mem
  let mem := tssField s.tss 23 0x13 mem
  -- `iomap_base` is behind the 25 fields of 32 bits and `trap`.
  some (store (s.tss + BitVec.ofNat 32 102) (bytesLE 2 (BitVec.ofNat 16 sizeofTss)) mem)

/-- `gdt_initialise`, and what `gdt_flush` loads. -/
def gdtInitialiseAt (s : TableSymbols) (mem : Memory) : Option (TableReg × Memory) := do
  let mem := setTablePtr s.gp (BitVec.ofNat 16 (8 * NUM_GDT_ENTRIES - 1)) s.gdt mem
  let mem ← createDescriptorAt s.gdt 0 0 0 0 mem
  let mem ← createDescriptorAt s.gdt 1 0 0xFFFFFFFF GDT_CODE_PL0 mem
  let mem ← createDescriptorAt s.gdt 2 0 0xFFFFFFFF GDT_DATA_PL0 mem
  let mem ← createDescriptorAt s.gdt 3 0 0xFFFFFFFF GDT_CODE_PL3 mem
  let mem ← createDescriptorAt s.gdt 4 0 0xFFFFFFFF GDT_DATA_PL3 mem
  let mem ← writeTssAt s 5 0x10 0 mem
  some (readTableReg mem s.gp, mem)

/-! ### `idt.c` -/

/-- `idt_set_gate`, with the fields in the order of the source. -/
def idtSetGateAt (idt : BitVec 32) (num : BitVec 8) (base : BitVec 32) (sel : BitVec 16)
    (flags : BitVec 8) (mem : Memory) : Memory :=
  let gate := idt + BitVec.ofNat 32 (sizeofIdtGate * num.toNat)
  let mem := store gate (bytesLE 2 ((base &&& 0xFFFF#32).setWidth 16)) mem
  let mem := store (gate + BitVec.ofNat 32 6)
    (bytesLE 2 (((base >>> 16) &&& 0xFFFF#32).setWidth 16)) mem
  let mem := store (gate + BitVec.ofNat 32 2) (bytesLE 2 sel) mem
  let mem := store (gate + BitVec.ofNat 32 4) (bytesLE 1 (0 : BitVec 8)) mem
  store (gate + BitVec.ofNat 32 5) (bytesLE 1 flags) mem

def IdtCall.runAt (idt : BitVec 32) (mem : Memory) (c : IdtCall) : Memory :=
  idtSetGateAt idt c.num c.base c.sel c.flags mem

/-- `idt_init`, and what `IDT_load` loads. -/
def idtInitAt (s : TableSymbols) (mem : Memory) : TableReg × Memory :=
  let mem := setTablePtr s.idtp (BitVec.ofNat 16 (sizeofIdtGate * 256 - 1)) s.idt mem
  let mem := (memset s.idt 0 (BitVec.ofNat 32 (sizeofIdtGate * 256)) mem).2
  (readTableReg mem s.idtp, mem)

/-- `gdt_initialise`, `idt_init`, and the gates of `isrs_install` and of `irq_install`: the
registers of the processor and the memory. -/
def installTablesAt (s : TableSymbols) (stubAt : Fin 48 → BitVec 32) (mem : Memory) :
    Option (Tables × Memory) := do
  let (gdtr, mem) ← gdtInitialiseAt s mem
  let (idtr, mem) := idtInitAt s mem
  let mem := (isrGateCalls stubAt ++ irqGateCalls stubAt).foldl (IdtCall.runAt s.idt) mem
  some (⟨gdtr, idtr⟩, mem)

end Chuckles
