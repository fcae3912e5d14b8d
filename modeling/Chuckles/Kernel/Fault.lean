import Chuckles.Kernel.IsrIrq
import Chuckles.Lib.Delivery
import Chuckles.Libc.Printf

/-!
# `Chuckles.Kernel.Fault`: exceptions

The model of `fault_handler` of `kernel/arch/i386/isr.c`. It ends in `for (;;);`, so its result is
the machine in which it stays.

`handlerEntry` is the way there: the processor delivers a vector through the tables in memory, and
the stub of the gate and its common stub run up to the call of the C handler.
-/

set_option autoImplicit false

namespace Chuckles

open Lib Lib.X86

/-- The names in `exception_messages`. -/
def exceptionNames : Vector String 32 :=
  #v["Division By Zero", "Debug", "Non Maskable Interrupt", "Breakpoint",
    "Into Detected Overflow", "Out of Bounds", "Invalid Opcode", "No Coprocessor",
    "Double Fault", "Coprocessor Segment Overrun", "Bad TSS", "Segment Not Present",
    "Stack Fault", "General Protection Fault", "Page Fault", "Unknown Interrupt",
    "Coprocessor Fault", "Alignment Check", "Machine Check", "Reserved",
    "Reserved", "Reserved", "Reserved", "Reserved",
    "Reserved", "Reserved", "Reserved", "Reserved",
    "Reserved", "Reserved", "Reserved", "Reserved"]

/-- No name has a NUL in it. -/
theorem zero_notMem_exceptionNames : ∀ n : Fin 32, 0 ∉ ascii (exceptionNames.get n) := by decide

/-- `exception_messages`. -/
def exceptionMessages : Vector CString 32 :=
  Vector.ofFn fun n =>
    ⟨ascii (exceptionNames.get n), forall_ne_of_not_mem (zero_notMem_exceptionNames n)⟩

/-- The text of `printf` for a number above the exceptions. The numero sign is three bytes. -/
def numberFormat : List UInt8 := ascii "Exception " ++ [0xE2, 0x84, 0x96] ++ ascii " %d > 32\n"

/-- `fault_handler`, which reads the field `int_no` only, up to its endless loop. There is no
result when `exception_messages` is read outside its entries. -/
def faultHandler (intNo : UInt32) (m : Machine) : Option Machine := do
  let m := m.serial (ascii "ISR fault_handler\n")
  if intNo < 32 then
    let message ← exceptionMessages[intNo.toNat]?
    let m ← callPrintf (ascii "\n%s Exception. System Halted\n") [.str message] m
    let m := m.serial message.bytes
    let m := m.serial (ascii " Exception. System Halted\n")
    callPrintf
      (ascii "Chaos reigns within.\nReflect, repent, and reboot.\nOrder shall return.") [] m
  else
    let m ← callPrintf numberFormat [.int intNo.toInt32] m
    let m := m.serial (ascii "INT NO > 32 \n")
    serialWrited intNo.toInt32 m

end Chuckles
