import Chuckles.Lib.Nested
import Mathlib.Data.List.Forall2

/-!
# `Chuckles.Lib.Uart`: the transmitter of a serial port

The registers of a 16550 that have a part in sending. A byte that is written to the transmitter
waits (`thr`) until the shift register takes it (`Uart.shift`, a step of the device's own). When
there is no room for it, a byte is lost (`Uart.transmit`). Bit 5 of the line status says that
nothing waits. It does not say that there is room, and a program that polls it may be interrupted
between the poll and the write.

`size` is the size of the transmit FIFO. The older chips, which have none, are left out, and so
are the receiver, the modem lines, and the interrupts.

A program is polite when it polls before each byte, and leaves the other registers alone. Polite
programs that interrupt each other lose no byte exactly when there is room for one byte of each of
them (`complete_iff`).
-/

set_option autoImplicit false

namespace Lib.Serial

open Lib.Run Lib.PortIo

/-! ### The device -/

/-- The registers that say how bytes are sent. -/
structure Settings where
  ier : UInt8
  lcr : UInt8
  mcr : UInt8
  fifoOn : Bool
  dll : UInt8
  dlm : UInt8
  deriving DecidableEq

/-- A byte on the line, with the format and the divisor it is sent with. -/
structure Sent where
  byte : UInt8
  format : UInt8
  divisor : Nat
  deriving DecidableEq

/-- The device: its settings, the bytes that wait, and those that were sent. -/
structure Uart where
  settings : Settings
  thr : List UInt8
  wire : List Sent
  deriving DecidableEq

/-- The ports 0 and 1 are the divisor. -/
def Settings.Dlab (c : Settings) : Prop := c.lcr &&& 0x80 ≠ 0

instance (c : Settings) : Decidable c.Dlab := inferInstanceAs (Decidable (_ ≠ _))

/-- The bytes come back instead of being sent. -/
def Settings.Loopback (c : Settings) : Prop := c.mcr &&& 0x10 ≠ 0

instance (c : Settings) : Decidable c.Loopback := inferInstanceAs (Decidable (_ ≠ _))

/-- How a byte is sent. -/
def Settings.frame (c : Settings) (b : UInt8) : Sent :=
  ⟨b, c.lcr, 256 * c.dlm.toNat + c.dll.toNat⟩

/-- How many bytes can wait. -/
def Settings.capacity (size : Nat) (c : Settings) : Nat := if c.fifoOn then size else 1

/-- A byte for the transmitter. A full FIFO loses the new byte, a single register the old one. -/
def Uart.transmit (size : Nat) (u : Uart) (b : UInt8) : Uart :=
  if u.thr.length < u.settings.capacity size then { u with thr := u.thr ++ [b] }
  else if u.settings.fifoOn then u
  else { u with thr := [b] }

/-- The FIFO control register. What waits is lost when the FIFO goes on or off, and when it is
cleared. -/
def Uart.control (u : Uart) (value : UInt8) : Uart :=
  let on : Bool := value &&& 1 ≠ 0
  { u with
    settings := { u.settings with fifoOn := on }
    thr := if on = u.settings.fifoOn ∧ ¬(on = true ∧ value &&& 4 ≠ 0) then u.thr else [] }

/-- A write to a port. -/
def Uart.write (size : Nat) (u : Uart) (value : UInt8) : Nat → Uart
  | 0 =>
    if u.settings.Dlab then { u with settings := { u.settings with dll := value } }
    else u.transmit size value
  | 1 =>
    if u.settings.Dlab then { u with settings := { u.settings with dlm := value } }
    else { u with settings := { u.settings with ier := value &&& 0x0F } }
  | 2 => u.control value
  | 3 => { u with settings := { u.settings with lcr := value } }
  | 4 => { u with settings := { u.settings with mcr := value &&& 0x1F } }
  | _ => u

/-- What a write does to the settings. -/
def Settings.write (c : Settings) (value : UInt8) : Nat → Settings
  | 0 => if c.Dlab then { c with dll := value } else c
  | 1 => if c.Dlab then { c with dlm := value } else { c with ier := value &&& 0x0F }
  | 2 => { c with fifoOn := value &&& 1 ≠ 0 }
  | 3 => { c with lcr := value }
  | 4 => { c with mcr := value &&& 0x1F }
  | _ => c

/-- The shift register takes the next byte. -/
def Uart.shift (u : Uart) : Option Uart :=
  match u.thr with
  | [] => none
  | b :: bs =>
    some { u with
      thr := bs
      wire := if u.settings.Loopback then u.wire else u.wire ++ [u.settings.frame b] }

/-- The line status says that nothing waits. -/
def Idle (answer : UInt8) : Prop := answer &&& 0x20 ≠ 0

instance (answer : UInt8) : Decidable (Idle answer) := inferInstanceAs (Decidable (_ ≠ _))

section
variable {ν : Type}

/-- The device at the port `base`. Any answer but the line status is possible. -/
def uartStep (base : UInt16) (size : Nat) (u : Uart) : Event ν ⊕ Unit → Option Uart
  | .inl (.inb port answer) =>
    if port = base + 5 then if Idle answer ↔ u.thr = [] then some u else none else some u
  | .inl (.outb port value) => some (u.write size value (port - base).toNat)
  | .inl (.note _) => some u
  | .inr () => u.shift

/-! ### One step -/

variable {base : UInt16} {size : Nat} {u u' : Uart}

/-- There is nothing to write to behind the control register of the modem. -/
theorem write_of_ge {n : Nat} (h : 5 ≤ n) (value : UInt8) : u.write size value n = u := by
  match n, h with
  | n + 5, _ => rfl

/-- A write to the port 0 sends a byte, when the divisor is not there. -/
theorem step_base (value : UInt8) (h : ¬u.settings.Dlab) :
    uartStep base size u (.inl (.outb base value) : Event ν ⊕ Unit)
      = some (u.transmit size value) := by
  show some (u.write size value (base - base).toNat) = _
  rw [UInt16.sub_self]
  exact congrArg some (if_neg h)

/-- A byte changes no setting. -/
theorem transmit_settings (size : Nat) (u : Uart) (b : UInt8) :
    (u.transmit size b).settings = u.settings := by
  unfold Uart.transmit
  split
  · rfl
  · split
    · rfl
    · rfl

/-- And it is not on the line yet. -/
theorem transmit_wire (b : UInt8) : (u.transmit size b).wire = u.wire := by
  unfold Uart.transmit
  split
  · rfl
  · split
    · rfl
    · rfl

/-- With room for it, it waits behind the others. -/
theorem transmit_of_lt (h : u.thr.length < u.settings.capacity size) (b : UInt8) :
    u.transmit size b = { u with thr := u.thr ++ [b] } := if_pos h

/-- The settings behind a write. -/
theorem write_settings (value : UInt8) (n : Nat) :
    (u.write size value n).settings = u.settings.write value n := by
  match n with
  | 0 =>
      simp only [Uart.write, Settings.write]
      split
      · rfl
      · exact transmit_settings size u value
  | 1 =>
      simp only [Uart.write, Settings.write]
      split
      · rfl
      · rfl
  | 2 => rfl
  | 3 => rfl
  | 4 => rfl
  | n + 5 => rfl

/-- Only a write to the port 0 puts a byte in. -/
theorem write_thr (h : u.thr = []) (value : UInt8) (n : Nat) :
    (u.write size value (n + 1)).thr = [] := by
  match n with
  | 0 =>
      simp only [Uart.write]
      split
      · exact h
      · exact h
  | 1 =>
      simp only [Uart.write, Uart.control]
      split
      · exact h
      · rfl
  | 2 => exact h
  | 3 => exact h
  | n + 4 => exact h

/-- The bytes that wait never exceed the room. -/
theorem length_transmit_le (h : u.thr.length ≤ u.settings.capacity size) (b : UInt8) :
    (u.transmit size b).thr.length ≤ u.settings.capacity size := by
  unfold Uart.transmit
  split
  · rename_i hlt
    simp only [List.length_append, List.length_singleton]
    omega
  · split
    · exact h
    · rename_i hoff
      rw [Settings.capacity, if_neg hoff]
      exact Nat.le_refl 1

/-- What the shift register can do: it takes the first byte that waits. -/
theorem shift_cases (h : u.shift = some u') :
    ∃ b bs, u.thr = b :: bs ∧
      u' = { u with
        thr := bs
        wire := if u.settings.Loopback then u.wire else u.wire ++ [u.settings.frame b] } := by
  unfold Uart.shift at h
  split at h
  · cases h
  · rename_i b bs hthr
    exact ⟨b, bs, hthr, by simpa using h.symm⟩

/-! ### Polite programs -/

/-- Whether a poll allows the next byte. There is none once a byte was written without a poll, or
another register was written. -/
def etiquette (base : UInt16) : Option Bool → Event ν → Option Bool
  | none, _ => none
  | some allowed, .inb port answer => if port = base + 5 then some (Idle answer) else some allowed
  | some allowed, .outb port _ =>
    if port = base then if allowed then some false else none
    else if 5 ≤ (port - base).toNat then some allowed else none
  | some allowed, .note _ => some allowed

/-- The rest of a program's trace is polite. -/
def PoliteFrom (base : UInt16) (allowed : Bool) (t : List (Event ν)) : Prop :=
  t.foldl (etiquette base) (some allowed) ≠ none

/-- A program's trace is polite. -/
def Polite (base : UInt16) (t : List (Event ν)) : Prop := PoliteFrom base false t

/-- A program that was impolite once stays so. -/
theorem foldl_etiquette_none (t : List (Event ν)) : t.foldl (etiquette base) none = none := by
  induction t with
  | nil => rfl
  | cons e t ih => exact ih

/-- The first event of a polite trace, and the rest. -/
theorem PoliteFrom.uncons {allowed : Bool} {e : Event ν} {t : List (Event ν)}
    (h : PoliteFrom base allowed (e :: t)) :
    ∃ allowed', etiquette base (some allowed) e = some allowed' ∧ PoliteFrom base allowed' t := by
  unfold PoliteFrom at h
  rw [List.foldl_cons] at h
  cases he : etiquette base (some allowed) e with
  | none =>
      rw [he, foldl_etiquette_none] at h
      exact absurd rfl h
  | some allowed' =>
      rw [he] at h
      exact ⟨allowed', rfl, h⟩

/-- The byte that an event sends. -/
def byteOf (base : UInt16) : Event ν → Option UInt8
  | .outb port value => if port = base then some value else none
  | _ => none

/-- The bytes that were written, in order. -/
def bytesOf (base : UInt16) (t : List (Event ν)) : List UInt8 := t.filterMap (byteOf base)

/-- The bytes behind one event more. -/
theorem bytesOf_concat (t : List (Event ν)) (e : Event ν) :
    bytesOf base (t ++ [e]) = bytesOf base t ++ (byteOf base e).toList := by
  rw [bytesOf, List.filterMap_append]
  cases h : byteOf base e with
  | none => simp [bytesOf, h]
  | some b => simp [bytesOf, h]

end

/-! ### Polite programs that interrupt each other -/

section
variable {ν : Type} {base : UInt16} {size depth : Nat} {u : Uart}

/-- How many of the programs may write a byte without another poll. -/
def allowed (flags : List Bool) : Nat := flags.count true

/-- A program that must poll first does not count. -/
@[simp] theorem allowed_false (flags : List Bool) : allowed (false :: flags) = allowed flags :=
  List.count_cons_of_ne (by decide)

/-- One that may write counts. -/
@[simp] theorem allowed_true (flags : List Bool) : allowed (true :: flags) = allowed flags + 1 :=
  List.count_cons_self

/-- One more program adds one at most. -/
theorem allowed_cons_le (flag : Bool) (flags : List Bool) :
    allowed (flag :: flags) ≤ allowed flags + 1 := by
  cases flag with
  | false => simp
  | true => simp

/-- And it takes nothing away. -/
theorem allowed_le_cons (flag : Bool) (flags : List Bool) :
    allowed flags ≤ allowed (flag :: flags) :=
  (List.sublist_cons_self _ _).count_le _

/-- `waiting` bytes leave room for the ones that the programs may write without another poll. -/
def Room (base : UInt16) (capacity waiting : Nat) (frames : List (List (Event ν))) : Prop :=
  ∃ flags : List Bool,
    List.Forall₂ (PoliteFrom base) flags frames ∧ waiting + allowed flags ≤ capacity

section
variable {capacity waiting : Nat} {t : List (Event ν)} {frames : List (List (Event ν))}

/-- A polite program that begins has not polled yet. -/
theorem Room.call (h : Room base capacity waiting frames) (ht : Polite base t) :
    Room base capacity waiting (t :: frames) := by
  obtain ⟨flags, hflags, hroom⟩ := h
  exact ⟨false :: flags, .cons ht hflags, by simpa using hroom⟩

/-- A program that returns writes nothing more. -/
theorem Room.ret (h : Room base capacity waiting (t :: frames)) :
    Room base capacity waiting frames := by
  obtain ⟨flags, hflags, hroom⟩ := h
  cases hflags with
  | cons _ hrest =>
      exact ⟨_, hrest, Nat.le_trans (Nat.add_le_add_left (allowed_le_cons _ _) _) hroom⟩

/-- A poll that succeeds allows one more byte. But then nothing waits. -/
theorem Room.poll {answer : UInt8}
    (h : Room base capacity waiting ((.inb (base + 5) answer :: t) :: frames))
    (hidle : Idle answer → waiting = 0) (hlength : frames.length < capacity) :
    Room base capacity waiting (t :: frames) := by
  obtain ⟨flags, hflags, hroom⟩ := h
  cases hflags with
  | @cons flag _ flags _ hpolite hrest =>
      obtain ⟨flag', hflag', hpolite'⟩ := hpolite.uncons
      refine ⟨flag' :: flags, .cons hpolite' hrest, ?_⟩
      simp only [etiquette, if_true, Option.some.injEq] at hflag'
      by_cases hans : Idle answer
      · have hcount : allowed flags ≤ frames.length := by
          rw [← hrest.length_eq]
          exact List.count_le_length
        have hle := allowed_cons_le flag' flags
        rw [hidle hans]
        omega
      · have hfalse : flag' = false := hflag' ▸ decide_eq_false hans
        rw [hfalse, allowed_false]
        exact Nat.le_trans (Nat.add_le_add_left (allowed_le_cons flag flags) _) hroom

/-- A byte is written into room that was kept for it. -/
theorem Room.write {value : UInt8}
    (h : Room base capacity waiting ((.outb base value :: t) :: frames)) :
    waiting < capacity ∧ Room base capacity (waiting + 1) (t :: frames) := by
  obtain ⟨flags, hflags, hroom⟩ := h
  cases hflags with
  | @cons flag _ flags _ hpolite hrest =>
      obtain ⟨flag', hflag', hpolite'⟩ := hpolite.uncons
      simp only [etiquette, if_true] at hflag'
      cases flag with
      | false => cases hflag'
      | true =>
          cases hflag'
          rw [allowed_true] at hroom
          refine ⟨by omega, false :: flags, .cons hpolite' hrest, ?_⟩
          rw [allowed_false]
          omega

/-- The other events change nothing, and leave the registers alone. -/
theorem Room.other {e : Event ν} (h : Room base capacity waiting ((e :: t) :: frames))
    (hpoll : ∀ answer, e ≠ .inb (base + 5) answer) (hwrite : ∀ value, e ≠ .outb base value) :
    Room base capacity waiting (t :: frames) ∧
      ∀ port value, e = .outb port value → 5 ≤ (port - base).toNat := by
  obtain ⟨flags, hflags, hroom⟩ := h
  cases hflags with
  | @cons flag _ flags _ hpolite hrest =>
      obtain ⟨flag', hflag', hpolite'⟩ := hpolite.uncons
      suffices hsame : flag' = flag ∧ ∀ port value, e = .outb port value →
          5 ≤ (port - base).toNat from
        ⟨⟨_, .cons (hsame.1 ▸ hpolite') hrest, hroom⟩, hsame.2⟩
      cases e with
      | note n =>
          cases hflag'
          exact ⟨rfl, nofun⟩
      | inb port answer =>
          have hport : port ≠ base + 5 := fun hport => hpoll answer (by rw [hport])
          rw [etiquette, if_neg hport] at hflag'
          cases hflag'
          exact ⟨rfl, nofun⟩
      | outb port value =>
          have hport : port ≠ base := fun hport => hwrite value (by rw [hport])
          rw [etiquette, if_neg hport] at hflag'
          split at hflag'
          · rename_i hge
            cases hflag'
            exact ⟨rfl, fun _ _ heq => by cases heq; exact hge⟩
          · cases hflag'

end

/-- No byte is lost. -/
structure Complete (base : UInt16) (size depth : Nat) (u : Uart) (s : Nest Uart ν) : Prop where
  settings : s.system.settings = u.settings
  depth_le : s.frames.length ≤ depth
  room : Room base (u.settings.capacity size) s.system.thr.length s.frames
  bytes : s.system.wire ++ s.system.thr.map u.settings.frame
    = u.wire ++ (u.thr ++ bytesOf base s.past).map u.settings.frame

/-- An event that sends nothing, and leaves the device as it is. -/
theorem Complete.quiet {s : Nest Uart ν} {e : Event ν} {t : List (Event ν)}
    {frames : List (List (Event ν))} (hs : Complete base size depth u s)
    (hframes : s.frames = (e :: t) :: frames) (hnone : byteOf base e = none)
    (hroom : Room base (u.settings.capacity size) s.system.thr.length (t :: frames)) :
    Complete base size depth u ⟨s.system, t :: frames, s.past ++ [e]⟩ := by
  refine ⟨hs.settings, ?_, hroom, ?_⟩
  · have hlength := hs.depth_le
    rw [hframes] at hlength
    exact hlength
  · rw [bytesOf_concat, hnone]
    simpa using hs.bytes

/-- A byte that there is room for. -/
theorem Complete.write (hdlab : ¬u.settings.Dlab) {s : Nest Uart ν} {value : UInt8}
    {t : List (Event ν)} {frames : List (List (Event ν))} {system : Uart}
    (hs : Complete base size depth u s) (hframes : s.frames = (.outb base value :: t) :: frames)
    (hstep : uartStep base size s.system (.inl (.outb base value : Event ν)) = some system) :
    Complete base size depth u ⟨system, t :: frames, s.past ++ [.outb base value]⟩ := by
  have hroom := hs.room
  rw [hframes] at hroom
  obtain ⟨hlt, hroom'⟩ := hroom.write
  have hsettings := hs.settings
  have hbytes := hs.bytes
  rw [← hsettings] at hlt hdlab
  rw [step_base value hdlab, transmit_of_lt hlt] at hstep
  cases hstep
  refine ⟨hsettings, ?_, ?_, ?_⟩
  · have hlength := hs.depth_le
    rw [hframes] at hlength
    exact hlength
  · simpa using hroom'
  · have hbyte : byteOf base (.outb base value : Event ν) = some value := if_pos rfl
    rw [bytesOf_concat, hbyte]
    simp only [List.map_append] at hbytes ⊢
    rw [← List.append_assoc, hbytes]
    simp

/-- A program's next event. -/
theorem Complete.next (hdlab : ¬u.settings.Dlab) (hdepth : depth ≤ u.settings.capacity size)
    {s : Nest Uart ν} {e : Event ν} {t : List (Event ν)} {frames : List (List (Event ν))}
    {system : Uart} (hs : Complete base size depth u s) (hframes : s.frames = (e :: t) :: frames)
    (hstep : uartStep base size s.system (.inl e) = some system) :
    Complete base size depth u ⟨system, t :: frames, s.past ++ [e]⟩ := by
  have hroom := hs.room
  have hlength := hs.depth_le
  rw [hframes] at hroom hlength
  by_cases hpoll : ∃ answer, e = .inb (base + 5) answer
  · obtain ⟨answer, rfl⟩ := hpoll
    simp only [uartStep, if_true] at hstep
    split at hstep
    · rename_i hidle
      cases hstep
      refine hs.quiet hframes rfl (hroom.poll (fun hans => ?_) (Nat.lt_of_lt_of_le hlength hdepth))
      rw [hidle.mp hans]
      rfl
    · cases hstep
  · by_cases hwrite : ∃ value, e = .outb base value
    · obtain ⟨value, rfl⟩ := hwrite
      exact hs.write hdlab hframes hstep
    · obtain ⟨hroom', hregister⟩ := hroom.other (fun answer heq => hpoll ⟨answer, heq⟩)
        fun value heq => hwrite ⟨value, heq⟩
      cases e with
      | note n =>
          cases hstep
          exact hs.quiet hframes rfl hroom'
      | inb port answer =>
          have hport : port ≠ base + 5 := fun hport => hpoll ⟨answer, by rw [hport]⟩
          simp only [uartStep, if_neg hport] at hstep
          cases hstep
          exact hs.quiet hframes rfl hroom'
      | outb port value =>
          have hport : port ≠ base := fun hport => hwrite ⟨value, by rw [hport]⟩
          simp only [uartStep, write_of_ge (hregister port value rfl)] at hstep
          cases hstep
          exact hs.quiet hframes (if_neg hport) hroom'

/-- A step. -/
theorem Complete.step (hdlab : ¬u.settings.Dlab) (hloopback : ¬u.settings.Loopback)
    (hdepth : depth ≤ u.settings.capacity size) {s s' : Nest Uart ν} {a : NestAct ν Unit}
    (hs : Complete base size depth u s) (hok : Within (Polite base) depth s a)
    (h : nestStep (uartStep base size) s a = some s') : Complete base size depth u s' := by
  obtain ⟨t, rfl, rfl⟩ | ⟨e, t, frames, system, rfl, hframes, hstep, rfl⟩ |
    ⟨frames, rfl, hframes, rfl⟩ | ⟨d, system, rfl, hstep, rfl⟩ := nestStep_cases h
  · exact ⟨hs.settings, hok.2, hs.room.call hok.1, hs.bytes⟩
  · exact hs.next hdlab hdepth hframes hstep
  · have hlength := hs.depth_le
    have hroom := hs.room
    rw [hframes] at hlength hroom
    exact ⟨hs.settings, Nat.le_of_succ_le hlength, hroom.ret, hs.bytes⟩
  · -- The shift register takes a byte, which was the next one on the line.
    obtain ⟨b, bs, hthr, rfl⟩ := shift_cases hstep
    obtain ⟨flags, hflags, hroom⟩ := hs.room
    have hbytes := hs.bytes
    rw [hthr, List.length_cons] at hroom
    rw [← hs.settings] at hloopback
    refine ⟨hs.settings, hs.depth_le, ⟨flags, hflags, ?_⟩, ?_⟩
    · show bs.length + _ ≤ _
      omega
    rw [← hbytes, hthr, if_neg hloopback, hs.settings]
    simp

/-! ### Too many programs -/

/-- Programs that all poll before any of them writes. -/
theorem runs_polls (size : Nat) {P : List (Event ν) → Prop} {b : UInt8}
    (hP : P [.inb (base + 5) 0x20, .outb base b]) (hthr : u.thr = []) (n : Nat) (hn : n ≤ depth) :
    ∃ acts past, bytesOf base past = [] ∧
      Runs (nestStep (uartStep base size)) (Within P depth) ⟨u, [], []⟩ acts
        ⟨u, List.replicate n [.outb base b], past⟩ := by
  induction n with
  | zero => exact ⟨[], [], rfl, .start⟩
  | succ n ih =>
      obtain ⟨acts, past, hbytes, hrun⟩ := ih (Nat.le_of_succ_le hn)
      have hidle : Idle 0x20 ↔ u.thr = [] := by simp [hthr, Idle]
      have hcall : Within P depth (⟨u, List.replicate n [.outb base b], past⟩ : Nest Uart ν)
          (.call [.inb (base + 5) 0x20, .outb base b] : NestAct ν Unit) := by
        refine ⟨hP, ?_⟩
        rw [List.length_replicate]
        exact hn
      have hnext : nestStep (uartStep base size)
          ⟨u, [.inb (base + 5) 0x20, .outb base b] :: List.replicate n [.outb base b], past⟩ .next
            = some ⟨u, List.replicate (n + 1) [.outb base b], past ++ [.inb (base + 5) 0x20]⟩ := by
        simp [nestStep, uartStep, hidle, List.replicate_succ]
      refine ⟨_, _, ?_, (hrun.next hcall rfl).next (within_next _) hnext⟩
      rw [bytesOf_concat, hbytes]
      rfl

/-- Then each of them writes its byte and returns. The line takes nothing meanwhile. -/
theorem runs_sends (P : List (Event ν) → Prop) (depth : Nat) (b : UInt8) (n : Nat) :
    ∀ {u : Uart} (past : List (Event ν)), ¬u.settings.Dlab →
      u.thr.length ≤ u.settings.capacity size →
      ∃ acts u' past', u'.wire = u.wire ∧ u'.thr.length ≤ u.settings.capacity size ∧
        (bytesOf base past').length = (bytesOf base past).length + n ∧
        Runs (nestStep (uartStep base size)) (Within P depth)
          ⟨u, List.replicate n [.outb base b], past⟩ acts ⟨u', [], past'⟩ := by
  induction n with
  | zero => exact fun {u} past _ hthr => ⟨[], u, past, rfl, hthr, rfl, .start⟩
  | succ n ih =>
      intro u past hdlab hthr
      have hsettings := transmit_settings size u b
      have hbyte : byteOf base (.outb base b : Event ν) = some b := if_pos rfl
      obtain ⟨acts, u', past', hwire, hthr', hbytes, hrun⟩ :=
        @ih (u.transmit size b) (past ++ [.outb base b]) (hsettings ▸ hdlab)
          (hsettings ▸ length_transmit_le hthr b)
      have hnext : nestStep (uartStep base size)
          ⟨u, List.replicate (n + 1) [.outb base b], past⟩ .next
            = some ⟨u.transmit size b, [] :: List.replicate n [.outb base b],
              past ++ [.outb base b]⟩ := by
        simp [nestStep, step_base b hdlab, List.replicate_succ]
      refine ⟨_, u', past', hwire.trans (transmit_wire b), hsettings ▸ hthr', ?_,
        .cons (within_next _) hnext (.cons (within_ret _) rfl hrun)⟩
      rw [hbytes, bytesOf_concat, hbyte, List.length_append]
      show _ + 1 + n = _
      omega

/-- Polite programs that interrupt each other lose no byte exactly when there is room for one byte
of each of them. -/
theorem complete_iff (size depth : Nat) {P : List (Event ν) → Prop} {b : UInt8}
    (hpolite : ∀ t, P t → Polite base t) (hP : P [.inb (base + 5) 0x20, .outb base b])
    (hdlab : ¬u.settings.Dlab) (hloopback : ¬u.settings.Loopback) (hthr : u.thr = []) :
    (∀ acts s, Runs (nestStep (uartStep base size)) (Within P depth) ⟨u, [], []⟩ acts s →
      s.system.wire ++ s.system.thr.map u.settings.frame
        = u.wire ++ (bytesOf base s.past).map u.settings.frame) ↔
      depth ≤ u.settings.capacity size := by
  have hlength : u.thr.length ≤ u.settings.capacity size := by
    rw [hthr]
    exact Nat.zero_le _
  constructor
  · intro hall
    obtain ⟨acts, past, hnone, hrun⟩ :=
      runs_polls size hP hthr depth (Nat.le_refl _)
    obtain ⟨acts', u', past', hwire, hthr', hbytes, hrun'⟩ :=
      runs_sends P depth b depth past hdlab hlength
    have hsame := congrArg List.length (hall _ _ (hrun.trans hrun'))
    simp only [List.length_append, List.length_map, hwire, hbytes, hnone] at hsame
    simp only [List.length_nil] at hsame
    omega
  · intro hdepth acts s hrun
    have hs : Complete base size depth u s :=
      hrun.invariant _ (fun s a s' hs hok hnext =>
        hs.step hdlab hloopback hdepth (hok.mono hpolite) hnext)
        ⟨rfl, Nat.zero_le _, ⟨[], .nil, hlength⟩, by simp [bytesOf]⟩
    have hbytes := hs.bytes
    rwa [hthr, List.nil_append] at hbytes

end
end Lib.Serial
