import Chuckles.Kernel.Idt
import Chuckles.Kernel.Pic
import Chuckles.Kernel.Irq
import Chuckles.Kernel.Ps2
import Chuckles.Kernel.Timer
import Chuckles.Libc.Stdio

/-!
# `Chuckles.Kernel.Boot`: `kernel_early`

The model of `kernel_early` of `kernel/kernel/kernel.c`, with the installing functions that it
calls. The accesses to the ports of the serial port's settings, the interrupt controllers, the
timer and the keyboard controller are the program's. Everything else that it does to the kernel's
own state is a note, and `BootNote.run` is its effect.

The texts are notes without an effect here, and so is `terminal_initialise`: the screen, the log
and the buffer of `itoa` are the machine of the kernel, which may change in any step. The
interrupts are off until `sti`, so nothing else happens to the kernel.
-/

set_option autoImplicit false

namespace Chuckles

open Lib Lib.X86 Lib.PortIo

/-- What the compiler and the linker have decided: the text of the date and the time, and where
the tables and the stubs are. -/
structure Image where
  stamp : List UInt8
  gdt : BitVec 32
  tss : BitVec 32
  idt : BitVec 32
  stubAt : Fin 48 → BitVec 32

/-- What `kernel_early` does, besides reading and writing ports. -/
inductive BootNote where
  /-- `serial_writes`. -/
  | writes (s : List UInt8)
  /-- `serial_writed`. -/
  | writed (i : Int32)
  /-- `gdt_initialise`, with `gdt_flush`. -/
  | gdtInitialise
  | terminalInitialise
  /-- `memset(&IDT, 0, ...)`. -/
  | idtClear
  /-- `IDT_load`. -/
  | idtLoad
  /-- Calls of `idt_set_gate`. -/
  | idtSetGates (calls : List IdtCall)
  | irqInstallHandler (irq : Nat) (handler : Routine)
  /-- A note of `ps2_init`. -/
  | ps2 (n : Ps2.Note)
  /-- The assignments of `ps2kb_init`. -/
  | ps2kbInit
  | sti

/-- The state of the kernel, of its tables, and of the processor's registers for them. -/
structure BootState where
  kernel : Kernel
  gdt : Gdt
  idt : Idt
  tables : Tables
  interrupts : Bool

/-- The effect of a note. -/
def BootNote.run (img : Image) (s : BootState) : BootNote → Option BootState
  | .writes _ => some s
  | .writed _ => some s
  | .gdtInitialise => do
    let (g, m) ← Chuckles.gdtInitialise img.gdt img.tss s.gdt s.kernel.kbd.mach
    some { s with
      gdt := g
      kernel := s.kernel.withMach m
      tables := { s.tables with gdtr := gdtPtr g } }
  | .terminalInitialise => some s
  | .idtClear => some { s with idt := Vector.replicate 256 IdtGate.cleared }
  | .idtLoad => some { s with tables := { s.tables with idtr := idtPtr img.idt } }
  | .idtSetGates calls => some { s with idt := calls.foldl IdtCall.run s.idt }
  | .irqInstallHandler irq handler => do
    let k ← Chuckles.irqInstallHandler s.kernel irq handler
    some { s with kernel := k }
  | .ps2 _ => some s
  | .ps2kbInit =>
    some { s with kernel := { s.kernel with kbd := Chuckles.ps2kbInit s.kernel.kbd } }
  | .sti => some { s with interrupts := true }

/-- The kernel beside its own program. The steps of its own are changes of the machine. -/
def bootStep (img : Image) (s : BootState) : Event BootNote ⊕ Machine → Option BootState
  | .inl (.note n) => n.run img s
  | .inl (.inb _ _) => some s
  | .inl (.outb _ _) => some s
  | .inr m => some { s with kernel := s.kernel.withMach m }

/-! ### The program -/

/-- The parts of `kernel_early`. -/
abbrev Early := Prog BootNote

def earlyWrites (s : String) : Early Unit := note (.writes (ascii s))

/-- `idt_init`. -/
def idtInit (img : Image) : Early Unit := do
  earlyWrites "IDT INIT\n"
  note .idtClear
  earlyWrites "&IDT: "
  note (.writed (Int32.ofBitVec img.idt))
  earlyWrites "\n"
  note .idtLoad

/-- `isrs_install`. -/
def isrsInstall (img : Image) : Early Unit := do
  earlyWrites "ISRS Install\n"
  note (.idtSetGates (isrGateCalls img.stubAt))

/-- `irq_install`. -/
def irqInstall (img : Image) : Early Unit := do
  earlyWrites "IRQ Install\n"
  irqRemap
  note (.idtSetGates (irqGateCalls img.stubAt))

/-- `timer_install`. -/
def timerInstall : Early Unit := do
  earlyWrites "Timer Install\n"
  (timerPhase 100).getD stuck
  note (.irqInstallHandler 0 .timerHandler)
  earlyWrites "timer handler installed\n"

/-- `ps2kb_init`. -/
def ps2kbInstall : Early Unit := do
  note (.irqInstallHandler 1 .ps2kbHandler)
  note .ps2kbInit

/-- `kernel_early` up to its `sti`, for the value of `esp`. -/
def startUp (img : Image) (esp : Int32) : Early Unit := do
  Debug.serialInitialise
  note (.writes img.stamp)
  note (.writed esp)
  note .gdtInitialise
  note (.writed 36)
  note .terminalInitialise
  idtInit img
  isrsInstall img
  irqInstall img
  timerInstall
  let _ ← Ps2.ps2Init.mapNotes .ps2
  ps2kbInstall

/-- `kernel_early`. -/
def kernelEarly (img : Image) (esp : Int32) : Early Unit := do
  startUp img esp
  note .sti
  earlyWrites "\nKERNEL_EARLY FINISHED\n"

end Chuckles
