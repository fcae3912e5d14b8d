import Chuckles.Kernel.Ps2kb

/-!
# `Chuckles.Kernel.Irq`: the interrupt handlers

The model of `kernel/arch/i386/irq.c` and of the timer's handler. `Kernel` is the state that
an interrupt handler works on. The table of handlers holds a function pointer for each of
the 16 lines. The kernel installs two functions, which `Routine` names.

An index outside the table has no result, so a run of `irq_handler` that returns has read
the table inside its bounds.
-/

set_option autoImplicit false

namespace Chuckles

open Lib

/-- The functions that are installed as handlers. -/
inductive Routine where
  | timerHandler
  | ps2kbHandler
  deriving DecidableEq

/-- The state of the kernel. `ports` records the bytes written to the ports of the interrupt
controllers. -/
structure Kernel where
  kbd : Keyboard
  timerTicks : UInt32
  seconds : Int32
  irqRoutines : Vector (Option Routine) 16
  ports : List (UInt16 × UInt8)

/-- The kernel before the first call: static storage is zero. -/
def Kernel.boot (input : List UInt8) : Kernel :=
  ⟨Keyboard.boot Machine.boot input, 0, 0, Vector.replicate 16 none, []⟩

/-- The kernel with another machine. -/
def Kernel.withMach (k : Kernel) (m : Machine) : Kernel :=
  { k with kbd := { k.kbd with mach := m } }

/-- The machine of the kernel with another machine. -/
@[simp] theorem Kernel.withMach_mach (k : Kernel) (m : Machine) :
    (k.withMach m).kbd.mach = m := rfl
/-- The last one stays. -/
@[simp] theorem Kernel.withMach_withMach (k : Kernel) (m m' : Machine) :
    (k.withMach m).withMach m' = k.withMach m' := rfl

/-- The cells of the static buffer of `itoa`. -/
def Kernel.cells (k : Kernel) : Object UInt8 := k.kbd.mach.itoaBuf.cells

/-- `outb(port, value)` to an interrupt controller. -/
def Kernel.outb (k : Kernel) (port : UInt16) (value : UInt8) : Kernel :=
  { k with ports := k.ports ++ [(port, value)] }

/-- `irq_install_handler`. -/
def irqInstallHandler (k : Kernel) (irq : Nat) (handler : Routine) : Option Kernel :=
  if h : irq < 16 then some { k with irqRoutines := k.irqRoutines.set irq (some handler) h }
  else none

/-- `irq_uninstall_handler`. -/
def irqUninstallHandler (k : Kernel) (irq : Nat) : Option Kernel :=
  if h : irq < 16 then some { k with irqRoutines := k.irqRoutines.set irq none h } else none

/-- The kernel after `kernel_early`, with the handlers of `timer_install` and `ps2kb_init`. -/
def Kernel.early (input : List UInt8) : Kernel :=
  { Kernel.boot input with
    kbd := ps2kbInit (Keyboard.boot Machine.boot input)
    irqRoutines := ((Vector.replicate 16 none).set 0 (some .timerHandler)).set 1
      (some .ps2kbHandler) }

/-- `timer_handler`. -/
def timerHandler (k : Kernel) : Kernel :=
  let k := { k with timerTicks := k.timerTicks + 1 }
  -- `timer_ticks` has been advanced, also for the test.
  if k.timerTicks % 100 = 0 then { k with seconds := k.seconds + 1 } else k

/-- A call through the table. -/
def Routine.run (handler : Routine) (k : Kernel) : Option Kernel :=
  match handler with
  | .timerHandler => some (Chuckles.timerHandler k)
  | .ps2kbHandler => do
    let kbd ← Chuckles.ps2kbHandler k.kbd
    some { k with kbd := kbd }

/-- `serial_writes(before); serial_writed(i); serial_writes(after);`. -/
def Kernel.report (k : Kernel) (before : List UInt8) (i : Int32) (after : List UInt8) :
    Option Kernel := do
  let m ← serialWrited i (k.kbd.mach.serial before)
  some (k.withMach (m.serial after))

/-- `if (handler) handler(r); else ...`. -/
def irqCall (intNo : UInt32) (handler : Option Routine) (k : Kernel) : Option Kernel :=
  match handler with
  | some handler => handler.run k
  | none => do
    let k ← k.report (ascii "IRQ handler unavailable at IRQ: ") intNo.toInt32 (ascii " \t ")
    k.report [] (intNo - 32).toInt32 (ascii "\n")

/-- The end-of-interrupt bytes. -/
def endOfInterrupt (intNo : UInt32) (k : Kernel) : Kernel :=
  (if intNo ≥ 40 then k.outb 0xA0 0x20 else k).outb 0x20 0x20

/-- `irq_handler`, which reads the field `int_no` only. -/
def irqHandler (intNo : UInt32) (k : Kernel) : Option Kernel := do
  let k ← k.report (ascii "IRQ_HANDLER #") (intNo - 32).toInt32 (ascii "\n")
  -- The difference is unsigned, so it wraps below 32.
  if intNo - 32 > 16 then k.report (ascii "INT NO > 16: ") intNo.toInt32 (ascii "\n")
  else do
    -- The number 48 passes the guard, and has no entry.
    let handler ← k.irqRoutines[(intNo - 32).toNat]?
    let k ← irqCall intNo handler k
    some (endOfInterrupt intNo k)

end Chuckles
