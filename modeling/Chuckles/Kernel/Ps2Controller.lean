import Chuckles.Kernel.Ps2

/-!
# `Chuckles.Kernel.Ps2Controller`: the PS/2 controller beside its driver

A model of the 8042, as far as `ps2_init` depends on it up to the self-test. The output buffer
holds one byte: the reply to the command 0x20, or a byte of a device. A device on an enabled
port can put a byte in the buffer whenever it is free, and the controller puts the reply there.

The other commands have no effect here. A byte that is written to the data port goes to a
device, unless a command has asked for it.
-/

set_option autoImplicit false

namespace Chuckles.Ps2

open Lib.PortIo

/-- Where a byte in the output buffer comes from. -/
inductive Source where
  | config
  | device
  deriving DecidableEq

/-- What the next write to the data port is, after a command that asks for a byte. -/
inductive Pending where
  | config
  | device2
  deriving DecidableEq

/-- A byte that was read from the data port, and the configuration byte at that moment. -/
structure Taken where
  source : Source
  byte : UInt8
  config : UInt8
  deriving DecidableEq

/-- The controller. `owed` says that the reply to a command 0x20 has not been put in the buffer
yet. `taken` are the reads of the data port since the first such command of the driver. No step
reads them. -/
structure Controller where
  buffer : Option (Source × UInt8)
  port1 : Bool
  port2 : Bool
  config : UInt8
  pending : Option Pending
  owed : Bool
  taken : Option (List Taken)
  deriving DecidableEq

/-- What the controller and its devices do by themselves. -/
inductive Spontaneous where
  | device1 (b : UInt8)
  | device2 (b : UInt8)
  | reply

/-- A command. -/
def Controller.command (c : Controller) (value : UInt8) : Controller :=
  -- A command ends the wait for the byte of an earlier one.
  if value = 0xAD then { c with port1 := false, pending := none }
  else if value = 0xAE then { c with port1 := true, pending := none }
  else if value = 0xA7 then { c with port2 := false, pending := none }
  else if value = 0xA8 then { c with port2 := true, pending := none }
  else if value = 0x20 then
    { c with owed := true, pending := none, taken := some (c.taken.getD []) }
  else if value = 0x60 then { c with pending := some .config }
  else if value = WRITE_P2 then { c with pending := some .device2 }
  else { c with pending := none }

/-- A write to the data port. -/
def Controller.data (c : Controller) (value : UInt8) : Controller :=
  match c.pending with
  | some .config => { c with config := value, pending := none }
  | some .device2 => { c with pending := none }
  -- No command has asked for it: the byte goes to device 1.
  | none => c

/-- A read of the data port. An empty buffer gives any byte. -/
def Controller.take (c : Controller) (b : UInt8) : Option Controller :=
  match c.buffer with
  | none => some c
  | some (source, b') =>
    if b = b' then
      some { c with buffer := none, taken := c.taken.map (· ++ [⟨source, b, c.config⟩]) }
    else none

/-- A byte for the buffer, when it is free. -/
def Controller.put (c : Controller) (source : Source) (b : UInt8) : Option Controller :=
  if c.buffer = none then some { c with buffer := some (source, b) } else none

/-- The step of the controller beside the driver. Bit 0 of the status says whether the buffer is
full. The other bits can have any value. -/
def Controller.step (c : Controller) : Event Note ⊕ Spontaneous → Option Controller
  | .inl (.inb port b) =>
    if port = STATUS_PORT then
      if b &&& STATUS_OUT_FULL ≠ 0 ↔ c.buffer.isSome = true then some c else none
    else if port = DATA_PORT then c.take b
    else some c
  | .inl (.outb port value) =>
    if port = CMD_PORT then some (c.command value)
    else if port = DATA_PORT then some (c.data value)
    else some c
  | .inl (.note _) => some c
  | .inr (.device1 b) => if c.port1 = true then c.put .device b else none
  | .inr (.device2 b) => if c.port2 = true then c.put .device b else none
  | .inr .reply => if c.owed = true then { c with owed := false }.put .config c.config else none

end Chuckles.Ps2
