import Chuckles.Lib.X86

/-!
# `Chuckles.Kernel.IsrIrq`: the interrupt stubs

The model of `kernel/arch/i386/isrirq.S` and of `struct regs`. A stub is straight-line code
up to its jump to a common stub. A common stub is cut at the call of its C handler: what
comes before the call builds the frame, and what comes after it takes the frame down.

The operand of a `push` without the dollar sign is the word at that address. The linker
chooses the addresses of the handlers and of the calls, so they are parameters.
-/

set_option autoImplicit false

namespace Chuckles

open Lib Lib.X86

/-! ### The stubs of the vectors -/

/-- The common stub that a stub jumps to. -/
inductive CommonStub where
  | isr
  | irq
  deriving DecidableEq

/-- A stub: its code and the target of its jump. -/
structure Stub where
  code : List Instr
  target : CommonStub
  deriving DecidableEq

/-- The stub of a vector without an error code: it pushes a zero in its place. -/
def noErrorStub (n : Operand) (target : CommonStub) : Stub :=
  ⟨[.cli, .push (.imm 0), .push n], target⟩

/-- The stub of a vector with an error code. -/
def errorStub (n : Operand) (target : CommonStub) : Stub := ⟨[.cli, .push n], target⟩

def isr0 : Stub := noErrorStub (.imm 0) .isr
def isr1 : Stub := noErrorStub (.imm 1) .isr
def isr2 : Stub := noErrorStub (.mem 2) .isr
def isr3 : Stub := noErrorStub (.mem 3) .isr
def isr4 : Stub := noErrorStub (.mem 4) .isr
def isr5 : Stub := noErrorStub (.mem 5) .isr
def isr6 : Stub := noErrorStub (.mem 6) .isr
def isr7 : Stub := noErrorStub (.mem 7) .isr
def isr8 : Stub := errorStub (.mem 8) .isr
def isr9 : Stub := noErrorStub (.mem 9) .isr
def isr10 : Stub := errorStub (.imm 10) .isr
def isr11 : Stub := errorStub (.imm 11) .isr
def isr12 : Stub := errorStub (.imm 12) .isr
def isr13 : Stub := errorStub (.imm 13) .isr
def isr14 : Stub := errorStub (.imm 14) .isr
def isr15 : Stub := noErrorStub (.imm 15) .isr
def isr16 : Stub := noErrorStub (.imm 16) .isr
def isr17 : Stub := noErrorStub (.imm 17) .isr
def isr18 : Stub := noErrorStub (.imm 18) .isr
def isr19 : Stub := noErrorStub (.imm 19) .isr
def isr20 : Stub := noErrorStub (.imm 20) .isr
def isr21 : Stub := noErrorStub (.imm 21) .isr
def isr22 : Stub := noErrorStub (.imm 22) .isr
def isr23 : Stub := noErrorStub (.imm 23) .isr
def isr24 : Stub := noErrorStub (.imm 24) .isr
def isr25 : Stub := noErrorStub (.imm 25) .isr
def isr26 : Stub := noErrorStub (.imm 26) .isr
def isr27 : Stub := noErrorStub (.imm 27) .isr
def isr28 : Stub := noErrorStub (.imm 28) .isr
def isr29 : Stub := noErrorStub (.imm 29) .isr
def isr30 : Stub := noErrorStub (.imm 30) .isr
def isr31 : Stub := noErrorStub (.imm 31) .isr

def irq0 : Stub := noErrorStub (.imm 32) .irq
def irq1 : Stub := noErrorStub (.imm 33) .irq
def irq2 : Stub := noErrorStub (.imm 34) .irq
def irq3 : Stub := noErrorStub (.imm 35) .irq
def irq4 : Stub := noErrorStub (.imm 36) .irq
def irq5 : Stub := noErrorStub (.imm 37) .irq
def irq6 : Stub := noErrorStub (.imm 38) .irq
def irq7 : Stub := noErrorStub (.imm 39) .irq
def irq8 : Stub := noErrorStub (.imm 40) .irq
def irq9 : Stub := noErrorStub (.imm 41) .irq
def irq10 : Stub := noErrorStub (.imm 42) .irq
def irq11 : Stub := noErrorStub (.imm 43) .irq
def irq12 : Stub := noErrorStub (.imm 44) .irq
def irq13 : Stub := noErrorStub (.imm 45) .irq
def irq14 : Stub := noErrorStub (.imm 46) .irq
def irq15 : Stub := noErrorStub (.imm 47) .irq

/-- The stubs by their vectors, as `isrs_install` and `irq_install` set the gates. -/
def stubs : Vector Stub 48 :=
  #v[isr0, isr1, isr2, isr3, isr4, isr5, isr6, isr7,
    isr8, isr9, isr10, isr11, isr12, isr13, isr14, isr15,
    isr16, isr17, isr18, isr19, isr20, isr21, isr22, isr23,
    isr24, isr25, isr26, isr27, isr28, isr29, isr30, isr31,
    irq0, irq1, irq2, irq3, irq4, irq5, irq6, irq7,
    irq8, irq9, irq10, irq11, irq12, irq13, irq14, irq15]

/-- The stub of a vector. -/
def stub (v : Fin 48) : Stub := stubs[v]

/-! ### The common stubs -/

/-- The addresses that the linker chooses: the two handlers, and the instructions behind
their calls. -/
structure Symbols where
  faultHandler : BitVec 32
  faultReturn : BitVec 32
  irqHandler : BitVec 32
  irqReturn : BitVec 32

/-- The common stub up to its call of the handler, whose first instruction word the code
loads into `eax` and does not use. -/
def enter (handler ret : BitVec 32) : List Instr :=
  [.pusha, .pushSeg .ds, .pushSeg .es, .pushSeg .fs, .pushSeg .gs,
    .movw .eax 0x10, .movSeg .ds .eax, .movSeg .es .eax, .movSeg .fs .eax, .movSeg .gs .eax,
    .mov .eax (.reg .esp), .push (.reg .eax), .mov .eax (.mem handler), .call ret]

/-- The common stub behind the call of the handler. -/
def leave : List Instr :=
  [.popReg .eax, .popSeg .gs, .popSeg .fs, .popSeg .es, .popSeg .ds, .popa, .addImm .esp 8,
    .iret]

/-- `isr_common_stub` and `irq_common_stub` up to the call. -/
def Symbols.enter (k : Symbols) : CommonStub → List Instr
  | .isr => Chuckles.enter k.faultHandler k.faultReturn
  | .irq => Chuckles.enter k.irqHandler k.irqReturn

/-! ### The frame -/

/-- `struct regs`. -/
@[ext]
structure Regs where
  gs : BitVec 32
  fs : BitVec 32
  es : BitVec 32
  ds : BitVec 32
  edi : BitVec 32
  esi : BitVec 32
  ebp : BitVec 32
  esp : BitVec 32
  ebx : BitVec 32
  edx : BitVec 32
  ecx : BitVec 32
  eax : BitVec 32
  intNo : BitVec 32
  errCode : BitVec 32
  eip : BitVec 32
  cs : BitVec 32
  eflags : BitVec 32
  useresp : BitVec 32
  ss : BitVec 32

/-- `*r`. -/
def regsAt (mem : Memory) (r : BitVec 32) : Regs where
  gs := mem.read32 (r + 0)
  fs := mem.read32 (r + 4)
  es := mem.read32 (r + 8)
  ds := mem.read32 (r + 12)
  edi := mem.read32 (r + 16)
  esi := mem.read32 (r + 20)
  ebp := mem.read32 (r + 24)
  esp := mem.read32 (r + 28)
  ebx := mem.read32 (r + 32)
  edx := mem.read32 (r + 36)
  ecx := mem.read32 (r + 40)
  eax := mem.read32 (r + 44)
  intNo := mem.read32 (r + 48)
  errCode := mem.read32 (r + 52)
  eip := mem.read32 (r + 56)
  cs := mem.read32 (r + 60)
  eflags := mem.read32 (r + 64)
  useresp := mem.read32 (r + 68)
  ss := mem.read32 (r + 72)

/-- The state at the first instruction of the handler, when the code of the vector `v` runs
from the state in which the processor has delivered the interrupt. -/
def enterHandler (mode : SegPush) (k : Symbols) (v : Fin 48) (s : State) : State :=
  run mode ((stub v).code ++ k.enter (stub v).target) s

/-- The argument of the handler: the word above the return address. -/
def handlerRegs (s : State) : Regs := regsAt s.mem (s.mem.read32 (s.esp + 4))

end Chuckles
