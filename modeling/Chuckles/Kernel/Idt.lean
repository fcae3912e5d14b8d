import Chuckles.Kernel.Gdt
import Chuckles.Kernel.IsrIrq
import Chuckles.Lib.Delivery

/-!
# `Chuckles.Kernel.Idt`: the interrupt table

The model of the data of `kernel/arch/i386/idt.c` and of `idt_set_gate`. `IdtGate` is the packed
structure, and `IdtGate.word` is what its eight bytes are as one number, the field at the lowest
address in the lowest bits. `IdtCall` is a call of `idt_set_gate` with its arguments.

`isrGateCalls` and `irqGateCalls` have the calls of `isrs_install` and of `irq_install`, in program
order. The linker chooses where the stubs are.
-/

set_option autoImplicit false

namespace Chuckles

open Lib Lib.X86

/-- `struct IDT_Gate`. -/
structure IdtGate where
  offsetLo : BitVec 16
  selector : BitVec 16
  zero : BitVec 8
  typeAttr : BitVec 8
  offsetHi : BitVec 16
  deriving DecidableEq

/-- The eight bytes of the packed structure. -/
def IdtGate.word (g : IdtGate) : BitVec 64 :=
  g.offsetHi ++ (g.typeAttr ++ (g.zero ++ (g.selector ++ g.offsetLo)))

/-- A gate after `memset(&IDT, 0, ...)`. -/
def IdtGate.cleared : IdtGate := ⟨0, 0, 0, 0, 0⟩

/-- `IDT`. -/
abbrev Idt := Vector IdtGate 256

/-- `sizeof (struct IDT_Gate)`: the structure is packed. -/
def sizeofIdtGate : Nat := 8

/-- `IDTp`, as `idt_init` sets it for the table at the address `idt`. `IDT_load` loads it. -/
def idtPtr (idt : BitVec 32) : TableReg := ⟨idt, BitVec.ofNat 16 (sizeofIdtGate * 256 - 1)⟩

/-- What `idt_set_gate` stores. -/
def idtGate (base : BitVec 32) (sel : BitVec 16) (flags : BitVec 8) : IdtGate where
  offsetLo := (base &&& 0xFFFF#32).setWidth 16
  offsetHi := ((base >>> 16) &&& 0xFFFF#32).setWidth 16
  selector := sel
  zero := 0
  typeAttr := flags

/-- `idt_set_gate`. Every `uint8_t` is an index of the table. -/
def idtSetGate (num : BitVec 8) (base : BitVec 32) (sel : BitVec 16) (flags : BitVec 8)
    (idt : Idt) : Idt :=
  idt.set num.toNat (idtGate base sel flags) num.isLt

/-- A call of `idt_set_gate`. -/
structure IdtCall where
  num : BitVec 8
  base : BitVec 32
  sel : BitVec 16
  flags : BitVec 8
  deriving DecidableEq

def IdtCall.run (idt : Idt) (c : IdtCall) : Idt := idtSetGate c.num c.base c.sel c.flags idt

/-- The call for a vector whose stub is at the address `base`. -/
def stubCall (v : Nat) (base : BitVec 32) : IdtCall := ⟨BitVec.ofNat 8 v, base, 0x08, 0x8E⟩

/-- The calls of `isrs_install`: the vectors 0 to 31, in this order. -/
def isrGateCalls (stubAt : Fin 48 → BitVec 32) : List IdtCall :=
  (List.finRange 32).map fun v : Fin 32 => stubCall v (stubAt (v.castLE (by decide)))

/-- The calls of `irq_install`: the vectors 32 to 47, in this order. -/
def irqGateCalls (stubAt : Fin 48 → BitVec 32) : List IdtCall :=
  (List.finRange 16).map fun n : Fin 16 => stubCall (32 + n) (stubAt (n.natAdd 32))

/-- The words of the table. -/
def idtWords (idt : Idt) (v : Fin 256) : BitVec 64 := (idt.get v).word

/-- The words of the segment table. -/
def gdtWords (g : Gdt) (n : Fin NUM_GDT_ENTRIES) : BitVec 64 := g.gdt.get n

/-- What `gdt_flush` loads. -/
def gdtPtr (g : Gdt) : TableReg := ⟨g.gp.base, g.gp.limit⟩

/-! ### Calls -/

/-- A call decides its own gate, and leaves the others. -/
theorem IdtCall.get_run (idt : Idt) (c : IdtCall) (v : Fin 256) :
    (c.run idt).get v
      = if c.num.toNat = v.val then idtGate c.base c.sel c.flags else idt.get v := by
  show (idt.set c.num.toNat _ c.num.isLt)[v.val] = _
  rw [Vector.getElem_set]
  rfl

end Chuckles
