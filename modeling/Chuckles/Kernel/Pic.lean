import Chuckles.Lib.Pic
import Chuckles.Lib.PortIo

/-!
# `Chuckles.Kernel.Pic`: the two interrupt controllers of the machine

The model of `irq_remap` of `kernel/arch/i386/irq.c`, and of what it works on: the master at the
ports 0x20 and 0x21, the slave at 0xA0 and 0xA1, whose output is the line 2 of the master.
`picStep` is the system that a program of port accesses runs beside. Its own steps are the
devices', which drive the other fifteen lines as they like.
-/

set_option autoImplicit false

namespace Chuckles

open Lib Lib.PortIo Lib.Pic

/-- The line of the master that the slave drives. -/
def CASCADE : Line := line 2

/-- The addresses of the two controllers. -/
def picPort (port : UInt16) : Option Pic.Port :=
  if port = 0x20 then some .masterCommand
  else if port = 0x21 then some .masterData
  else if port = 0xA0 then some .slaveCommand
  else if port = 0xA1 then some .slaveData
  else none

/-- `outb(port, value)`, as the controllers see it. -/
def picOutb (p : Pair) (port : UInt16) (value : UInt8) : Pair :=
  match picPort port with
  | some port => p.write CASCADE port value
  | none => p

/-- The place of an interrupt line. -/
def irqInput (n : Fin 16) : Line ⊕ Line :=
  if n.val < 8 then .inl (line n) else .inr (line n)

/-- A device drives a line. The line 2 is not connected to a device. -/
structure LineChange where
  irq : Fin 16
  high : Bool
  connected : irqInput irq ≠ .inl CASCADE

/-- The controllers beside a program. -/
def picStep {ν : Type} (p : Pair) : Event ν ⊕ LineChange → Option Pair
  | .inl (.outb port value) => some (picOutb p port value)
  | .inl (.inb _ _) => some p
  | .inl (.note _) => some p
  | .inr d => some (p.setInput CASCADE (irqInput d.irq) d.high)

/-- `irq_remap`. -/
def irqRemap {ν : Type} : Prog ν Unit := do
  outb 0x20 0x11
  outb 0xA0 0x11
  outb 0x21 0x20
  outb 0xA1 0x28
  outb 0x21 0x04
  outb 0xA1 0x02
  outb 0x21 0x01
  outb 0xA1 0x01
  outb 0x21 0x0
  outb 0xA1 0x0

end Chuckles
