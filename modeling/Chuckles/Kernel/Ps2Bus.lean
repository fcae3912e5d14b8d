import Chuckles.Kernel.Ps2
import Mathlib.Data.Stream.Init

/-!
# `Chuckles.Kernel.Ps2Bus`: the two ports of the PS/2 controller, with a source of bytes

A closed system for the driver: what the two ports answer. The source delivers the bytes of the
data port, and sees what the driver writes. When it delivers them is left open. An infinite
`status` has the bits of the reads of the status port that are still to come, and a byte is in the
output buffer when the source has one and bit 0 says so.

`Fair` is the assumption that every wait for a full output buffer with a byte to come, and every
wait for an empty input buffer, ends.

`endless` is a source that always has one more byte, whatever is written. `device` is a device on
port 1, which has a byte only when it has answered a command.
-/

set_option autoImplicit false

namespace Chuckles.Ps2

open Lib.PortIo

/-- Where the bytes of the data port come from: the next one, and what is left, and what the source
makes of a write or a note. -/
structure Peripheral (κ : Type) where
  take : κ → Option (UInt8 × κ)
  see : κ → Event Note → κ

/-- The answers of the status port, and the state of the source. -/
structure Bus (κ : Type) where
  status : Stream' UInt8
  core : κ

section
variable {κ : Type}

/-- The next answer of the status port. Without a byte of the source bit 0 is clear. -/
def Bus.statusByte (D : Peripheral κ) (s : Bus κ) : UInt8 :=
  if (D.take s.core).isSome = true then s.status.head
  else s.status.head &&& ~~~STATUS_OUT_FULL

/-- A read of the data port. An empty buffer gives any byte. -/
def Bus.take (D : Peripheral κ) (s : Bus κ) (b : UInt8) : Option (Bus κ) :=
  match D.take s.core with
  | none => some s
  | some (b', core) => if b = b' then some { s with core := core } else none

/-- The step of the ports beside the driver. They do nothing by themselves. -/
def Bus.step (D : Peripheral κ) (s : Bus κ) : Event Note ⊕ Empty → Option (Bus κ)
  | .inl (.inb port b) =>
    if port = STATUS_PORT then
      if b = s.statusByte D then some { s with status := s.status.tail } else none
    else if port = DATA_PORT then s.take D b
    else some s
  | .inl (.outb port value) => some { s with core := D.see s.core (.outb port value) }
  | .inl (.note n) => some { s with core := D.see s.core (.note n) }

end

/-- Again and again the output buffer is full, as far as this is up to the schedule, and the input
buffer is empty. -/
structure Fair (status : Stream' UInt8) : Prop where
  full : ∀ n, ∃ i, status.get (n + i) &&& STATUS_OUT_FULL ≠ 0
  free : ∀ n, ∃ i, status.get (n + i) &&& STATUS_IN_FULL = 0

/-- A fair schedule stays fair. -/
theorem Fair.drop {f : Stream' UInt8} (h : Fair f) (n : Nat) : Fair (f.drop n) := by
  constructor
  · intro k
    rcases h.full (n + k) with ⟨i, hi⟩
    exact ⟨i, by rwa [Stream'.get_drop, ← Nat.add_assoc]⟩
  · intro k
    rcases h.free (n + k) with ⟨i, hi⟩
    exact ⟨i, by rwa [Stream'.get_drop, ← Nat.add_assoc]⟩

/-- An infinite sequence of bytes, whatever the driver writes. -/
def endless : Peripheral (Stream' UInt8) where
  take d := some (d.head, d.tail)
  see d _ := d

/-- What passes between the driver and a device. -/
inductive Traffic where
  /-- A byte that the driver writes to the data port. -/
  | sent (b : UInt8)
  /-- A byte that `ps2_read` returns. -/
  | got (b : UInt8)

/-- A device on port 1: the bytes that it still has to deliver, and its identification. The other
fields are records: the traffic so far, and the entries of `devices` that were printed. No step
reads them. -/
structure Device where
  queue : List UInt8
  identification : List UInt8
  traffic : List Traffic
  selected : List CString

/-- The answer to a command of the driver. -/
def Device.answer (d : Device) (value : UInt8) : List UInt8 :=
  if value = 0xF5 then [0xFA]
  else if value = 0xF2 then 0xFA :: d.identification
  else if value = 0xF4 then [0xFA]
  else []

/-- What the device, and the records about the driver, make of an event. -/
def Device.see (d : Device) : Event Note → Device
  | .outb port value =>
    if port = DATA_PORT then
      { d with queue := d.queue ++ d.answer value, traffic := d.traffic ++ [.sent value] }
    else d
  | .note (.got b) => { d with traffic := d.traffic ++ [.got b] }
  | .note (.printf format [.str s]) =>
    if format = ascii "Device is %s\n" then { d with selected := d.selected ++ [s] } else d
  | _ => d

def device : Peripheral Device where
  take d :=
    match d.queue with
    | [] => none
    | b :: queue => some (b, { d with queue := queue })
  see := Device.see

end Chuckles.Ps2
