import Chuckles.Libc.Stdio
import Chuckles.Lib.Uart

/-!
# `Chuckles.Proofs.Serial`: the log on the serial port

The functions of `Chuckles.Libc.Stdio` beside the device of `Chuckles.Lib.Uart`.

`serial_initialise` is called with the device in any state. `serialInitialise_spec` says what it
leaves. The first write was meant to turn the interrupts of the device off, and it does so only
when the port is not the divisor at that moment.

Then `serial_writes` is all that the kernel uses. It polls before each byte, so a single program
loses nothing, and the bytes on the line are those that `Machine.serial` records
(`serialWrites_logs`). An interrupt between the poll and the write can fill the room that the poll
has seen. `log_complete_iff` is the exact number of programs that may interrupt each other.
-/

set_option autoImplicit false

namespace Chuckles.Proofs

open Lib Lib.Run Lib.PortIo Lib.Serial Debug

section
variable {ν : Type} {size : Nat}

/-! ### `serial_initialise` -/

/-- The shift register leaves the settings alone. -/
theorem stable_settings (P : Settings → Prop) :
    Stable (uartStep PORT size : Uart → Event ν ⊕ Unit → Option Uart) Any
      (fun u => P u.settings) := by
  intro u d u' hP _ hstep
  obtain ⟨b, bs, -, rfl⟩ := shift_cases hstep
  exact hP

/-- When nothing waits, it has nothing to do. -/
theorem stable_empty (P : Settings → Prop) :
    Stable (uartStep PORT size : Uart → Event ν ⊕ Unit → Option Uart) Any
      (fun u => P u.settings ∧ u.thr = []) := by
  rintro u d u' ⟨-, hthr⟩ _ hstep
  obtain ⟨b, bs, hcons, rfl⟩ := shift_cases hstep
  rw [hthr] at hcons
  cases hcons

/-- A write to a register. -/
theorem outb_settings (c : Settings) (port : UInt16) (value : UInt8) {W : Uart → Prop} :
    Triple (uartStep PORT size : Uart → Event ν ⊕ Unit → Option Uart) Any
      (fun u => u.settings = c) (outb port value)
      (fun _ u => u.settings = c.write value (port - PORT).toNat) W := by
  refine Triple.outb (stable_settings (· = c)) (stable_settings (· = _)) ?_
  rintro u u' rfl - ⟨⟩
  exact write_settings value _

/-- A write to a register while nothing waits. -/
theorem outb_empty (c : Settings) (n : Nat) (port : UInt16) (value : UInt8) {W : Uart → Prop}
    (h : (port - PORT).toNat = n + 1) :
    Triple (uartStep PORT size : Uart → Event ν ⊕ Unit → Option Uart) Any
      (fun u => u.settings = c ∧ u.thr = []) (outb port value)
      (fun _ u => u.settings = c.write value (n + 1) ∧ u.thr = []) W := by
  refine Triple.outb (stable_empty (· = c)) (stable_empty (· = _)) ?_
  rintro u u' ⟨rfl, hthr⟩ - ⟨⟩
  rw [h]
  exact ⟨write_settings value _, write_thr hthr value n⟩

/-- The settings that `serial_initialise` leaves. -/
def serialSettings (c : Settings) : Settings where
  ier := if c.Dlab then c.ier else 0
  lcr := 0x03
  mcr := 0
  fifoOn := true
  dll := 0x03
  dlm := 0

/-- The byte 0x80 puts the divisor on the ports. -/
theorem dlab_of_lcr {c : Settings} (h : c.lcr = 0x80) : c.Dlab := by
  rw [Settings.Dlab, h]
  decide

/-- They are the result of its writes. -/
theorem serialSettings_eq (c : Settings) :
    (((((((c.write 0 1).write 0x80 3).write 0x03 0).write 0 1).write 0x03 3).write 0xC7 2).write
      0x0B 4).write 0 4 = serialSettings c := by
  have hon : (0xC7 : UInt8) &&& 1 ≠ 0 := by decide
  by_cases h : c.Dlab
  · simp [Settings.write, serialSettings, h, dlab_of_lcr, hon]
  · simp [Settings.write, serialSettings, h, dlab_of_lcr, hon]

/-- The divisor is not on the ports in the end. -/
theorem serialSettings_dlab (c : Settings) : ¬(serialSettings c).Dlab := by
  show ¬(0x03 : UInt8) &&& 0x80 ≠ 0
  decide

/-- And the line is not looped back. -/
theorem serialSettings_loopback (c : Settings) : ¬(serialSettings c).Loopback := by
  show ¬(0 : UInt8) &&& 0x10 ≠ 0
  decide

/-- The FIFO is turned on and cleared. -/
theorem outb_clear (c : Settings) {W : Uart → Prop} :
    Triple (uartStep PORT size : Uart → Event ν ⊕ Unit → Option Uart) Any
      (fun u => u.settings = c) (outb (PORT + 2) 0xC7)
      (fun _ u => u.settings = c.write 0xC7 2 ∧ u.thr = []) W := by
  refine Triple.outb (stable_settings (· = c)) (stable_empty (· = _)) ?_
  rintro u u' rfl - ⟨⟩
  refine ⟨write_settings 0xC7 2, ?_⟩
  show (u.control 0xC7).thr = []
  exact if_neg fun h => h.2 ⟨by decide, by decide⟩

/-- From any settings `serial_initialise` goes to these, with nothing that waits. It never waits
itself. -/
theorem serialInitialise_spec (c : Settings) :
    Triple (uartStep PORT size : Uart → Event ν ⊕ Unit → Option Uart) Any
      (fun u => u.settings = c) serialInitialise
      (fun _ u => u.settings = serialSettings c ∧ u.thr = []) (fun _ => False) := by
  refine Triple.bind (outb_settings c _ _) fun _ => ?_
  refine Triple.bind (outb_settings _ _ _) fun _ => ?_
  refine Triple.bind (outb_settings _ _ _) fun _ => ?_
  refine Triple.bind (outb_settings _ _ _) fun _ => ?_
  refine Triple.bind (outb_settings _ _ _) fun _ => ?_
  -- From here on nothing waits.
  refine Triple.bind (outb_clear _) fun _ => ?_
  refine Triple.bind (outb_empty _ 3 _ _ rfl) fun _ => ?_
  rw [← serialSettings_eq c]
  exact outb_empty _ 3 _ _ rfl

/-! ### The calls of `serial_writes` -/

/-- The bytes that the line has and will have next. -/
def logged (u : Uart) : List UInt8 := u.wire.map Sent.byte ++ u.thr

/-- The device sends what it gets. -/
structure Sending (size : Nat) (u : Uart) : Prop where
  data : ¬u.settings.Dlab
  line : ¬u.settings.Loopback
  room : 0 < u.settings.capacity size

/-- The shift register moves a byte from one part of the log to the other. -/
theorem stable_logged (l : List UInt8) :
    Stable (uartStep PORT size : Uart → Event ν ⊕ Unit → Option Uart) Any
      (fun u => Sending size u ∧ logged u = l) := by
  rintro u d u' ⟨hsending, hlogged⟩ _ hstep
  obtain ⟨b, bs, hthr, rfl⟩ := shift_cases hstep
  refine ⟨⟨hsending.data, hsending.line, hsending.room⟩, ?_⟩
  rw [← hlogged, logged, logged, hthr, if_neg hsending.line]
  simp [Settings.frame]

/-- With nothing that waits it stays so. -/
theorem stable_idle (l : List UInt8) (P : Prop) :
    Stable (uartStep PORT size : Uart → Event ν ⊕ Unit → Option Uart) Any
      (fun u => (Sending size u ∧ logged u = l) ∧ (P → u.thr = [])) := by
  rintro u d u' ⟨hu, hidle⟩ hok hstep
  refine ⟨stable_logged l u d u' hu hok hstep, fun hP => ?_⟩
  obtain ⟨b, bs, hthr, rfl⟩ := shift_cases hstep
  rw [hidle hP] at hthr
  cases hthr

/-- A byte is sent once the line status allows it. -/
theorem serialWritec_logs (c : UInt8) (l : List UInt8) :
    Triple (uartStep PORT size : Uart → Event ν ⊕ Unit → Option Uart) Any
      (fun u => Sending size u ∧ logged u = l) (Debug.serialWritec c)
      (fun _ u => Sending size u ∧ logged u = l ++ [c]) (fun u => logged u = l) := by
  refine Triple.bind (Triple.doWhile
    (I := fun status u => (Sending size u ∧ logged u = l) ∧ (Idle status → u.thr = []))
    (fun status => stable_idle l _) (reads_inb _) ?_ fun _ _ u hu => hu.1) fun status => ?_
  · refine Triple.inb (stable_logged l) (fun status => stable_idle l _) (fun u hu => hu.2) ?_
    intro status u u' hu _ hstep
    simp only [uartStep, if_true] at hstep
    split at hstep
    · rename_i hidle
      cases hstep
      exact ⟨hu, hidle.mp⟩
    · cases hstep
  · refine (Triple.of_fact (φ := Idle status) fun hstatus => ?_).mono
      (fun u hu => ⟨hu.2, hu.1⟩) (fun _ _ hu => hu) fun _ hu => hu
    refine Triple.bind (Q := fun _ u => Sending size u ∧ logged u = l ++ [c])
      (Triple.outb (stable_idle l _) (stable_logged _) ?_)
      fun _ => Triple.pure (Q := fun _ u => Sending size u ∧ logged u = l ++ [c]) c
        (stable_logged _)
    rintro u u' ⟨⟨hsending, hlogged⟩, hidle⟩ - hstep
    have hthr := hidle hstatus
    have hroom : u.thr.length < u.settings.capacity size := by
      rw [hthr]
      exact hsending.room
    rw [step_base c hsending.data, transmit_of_lt hroom] at hstep
    cases hstep
    refine ⟨⟨hsending.data, hsending.line, hsending.room⟩, ?_⟩
    rw [← hlogged, logged, logged, List.append_assoc]

/-- A text is sent as a whole, and while the program waits a part of it is. -/
theorem serialWrites_logs (s : List UInt8) :
    ∀ l : List UInt8, Triple (uartStep PORT size : Uart → Event ν ⊕ Unit → Option Uart) Any
      (fun u => Sending size u ∧ logged u = l) (Debug.serialWrites s)
      (fun _ u => Sending size u ∧ logged u = l ++ s)
      (fun u => ∃ t, t <+: s ∧ logged u = l ++ t) := by
  induction s with
  | nil =>
      intro l
      rw [List.append_nil]
      exact Triple.pure (Q := fun _ u => Sending size u ∧ logged u = l) () (stable_logged l)
  | cons c s ih =>
      intro l
      refine Triple.bind (((serialWritec_logs c l).mono (fun _ hu => hu) (fun _ _ hu => hu)
        fun u hu => ⟨[], List.nil_prefix, ?_⟩)) fun _ => ?_
      · rw [List.append_nil]
        exact hu
      · refine (ih (l ++ [c])).mono (fun _ hu => hu) (fun _ u hu => ?_) ?_
        · simpa using hu
        · rintro u ⟨t, ht, hlogged⟩
          exact ⟨c :: t, List.cons_prefix_cons.mpr ⟨rfl, ht⟩, by simpa using hlogged⟩

/-- A poll goes on with the answers behind one that says to wait. -/
theorem doWhile_inb_cons (cond : UInt8 → Prop) [DecidablePred cond] (port : UInt16) {b : UInt8}
    (h : cond b) (as : List UInt8) :
    ((doWhile cond (inb port) : Prog ν UInt8).run (b :: as)).result
      = ((doWhile cond (inb port) : Prog ν UInt8).run as).result := by
  have hb : ((inb port : Prog ν UInt8).run (b :: as)).result = some (b, as) := rfl
  refine (congrArg Outcome.result (run_bind_some hb (whileM cond fun _ => inb port))).trans ?_
  show ((whileM cond (fun _ => inb port) b).run as).result = _
  rw [whileM_eq fun _ => reads_inb port, if_pos h]
  rfl

/-- It returns with any other answer. -/
theorem doWhile_inb_of_not (cond : UInt8 → Prop) [DecidablePred cond] (port : UInt16) {b : UInt8}
    (h : ¬cond b) (as : List UInt8) :
    ((doWhile cond (inb port) : Prog ν UInt8).run (b :: as)).result = some (b, as) := by
  have hb : ((inb port : Prog ν UInt8).run (b :: as)).result = some (b, as) := rfl
  refine (congrArg Outcome.result (run_bind_some hb (whileM cond fun _ => inb port))).trans ?_
  show ((whileM cond (fun _ => inb port) b).run as).result = _
  rw [whileM_eq fun _ => reads_inb port, if_neg h]
  rfl

/-- The result of a program whose first part has the result. -/
theorem result_bind {α β : Type} {m m' : Prog ν α} {as as' : List UInt8}
    (h : (m.run as).result = (m'.run as').result) (k : α → Prog ν β) :
    ((m >>= k).run as).result = ((m' >>= k).run as').result := by
  cases hresult : (m.run as).result with
  | none => rw [run_bind_none hresult, run_bind_none (h ▸ hresult)]
  | some r => rw [run_bind_some hresult, run_bind_some (h ▸ hresult)]

/-- A text returns exactly when the line status allows each of its bytes. -/
theorem serialWrites_returns (s : List UInt8) :
    ∀ as : List UInt8, ((Debug.serialWrites s : Prog ν Unit).run as).result.isSome ↔
      s.length ≤ as.countP (fun status => Idle status) := by
  induction s with
  | nil => exact fun as => ⟨fun _ => Nat.zero_le _, fun _ => rfl⟩
  | cons c s ih =>
      intro as
      -- The induction is on the answers, up to the first one that allows the byte.
      let busy : UInt8 → Prop := fun status => status &&& 0x20 = 0
      have heq : (Debug.serialWrites (c :: s) : Prog ν Unit)
          = doWhile busy (inb (PORT + 5)) >>= fun _ =>
            outb PORT c >>= fun _ => Debug.serialWrites s := by
        simp [Debug.serialWrites, Debug.serialWritec, busy]
      rw [heq]
      induction as with
      | nil =>
          rw [run_bind_none rfl]
          simp
      | cons b as ihas =>
          by_cases h : Idle b
          · rw [run_bind_some (doWhile_inb_of_not busy (PORT + 5) h as), run_bind_some rfl,
              List.countP_cons_of_pos (by simpa using h), List.length_cons]
            exact (ih as).trans Nat.succ_le_succ_iff.symm
          · rw [result_bind (doWhile_inb_cons busy (PORT + 5) (not_not.mp h) as),
              List.countP_cons_of_neg (by simpa using h)]
            exact ihas

/-- The port accesses of `serial_writes` do what `Machine.serial` says. -/
theorem serialWrites_refines (s : List UInt8) (m : Machine) :
    Triple (uartStep PORT size : Uart → Event ν ⊕ Unit → Option Uart) Any
        (fun u => Sending size u ∧ logged u = m.com1) (Debug.serialWrites s)
        (fun _ u => Sending size u ∧ logged u = (m.serial s).com1)
        (fun u => ∃ t, t <+: s ∧ logged u = (m.serial t).com1) ∧
      ∀ as : List UInt8, ((Debug.serialWrites s : Prog ν Unit).run as).result.isSome ↔
        s.length ≤ as.countP (fun status => Idle status) :=
  ⟨serialWrites_logs s m.com1, serialWrites_returns s⟩

/-- Two bytes, with the settings of `serial_initialise`. The first byte is still waiting at the
second poll, so that poll fails, and the shift register takes the byte before the third one. -/
theorem serialWrites_refines_two :
    let u : Uart := ⟨⟨0, 3, 0, true, 3, 0⟩, [], []⟩
    Sending 16 u ∧ ∃ u' : Uart,
      Beside (uartStep PORT 16 : Uart → Event Empty ⊕ Unit → Option Uart) Any
        (Debug.serialWrites [0x48, 0x69]) [0x60, 0x00, 0x60] u u' ∧
      Sending 16 u' ∧ logged u' = (Machine.boot.serial [0x48, 0x69]).com1 := by
  intro u
  have hsending : Sending 16 u := ⟨by decide, by decide, by decide⟩
  let acts : List (Event Empty ⊕ Unit) := [.inl (.inb 0x3FD 0x60), .inl (.outb 0x3F8 0x48),
    .inl (.inb 0x3FD 0x00), .inr (), .inl (.inb 0x3FD 0x60), .inl (.outb 0x3F8 0x69)]
  obtain ⟨u', hu'⟩ : ∃ u', exec (uartStep PORT 16) Any u acts = some u' :=
    ⟨⟨u.settings, [0x69], [⟨0x48, 3, 3⟩]⟩, by decide⟩
  have hbeside : Beside (uartStep PORT 16 : Uart → Event Empty ⊕ Unit → Option Uart) Any
      (Debug.serialWrites [0x48, 0x69]) [0x60, 0x00, 0x60] u u' :=
    ⟨acts, runs_of_exec hu', rfl⟩
  have hreturns : ((Debug.serialWrites [0x48, 0x69] : Prog Empty Unit).run
      [0x60, 0x00, 0x60]).result = some ((), []) := rfl
  have hlogged := (serialWrites_refines [0x48, 0x69] Machine.boot).1 [0x60, 0x00, 0x60] u u'
    ⟨hsending, rfl⟩ hbeside
  exact ⟨hsending, u', hbeside, hlogged.1 () [] hreturns⟩

/-! ### Interrupted calls -/

/-- A byte is polite, whatever was polled before. -/
theorem serialWritec_etiquette (c : UInt8) :
    Triple (watch (etiquette PORT)) Any (fun a => a ≠ none)
      (Debug.serialWritec c : Prog ν UInt8) (fun _ a => a ≠ none) (fun a => a ≠ none) := by
  refine Triple.bind (Triple.doWhile (I := fun status a => a = some (decide (Idle status)))
    (fun _ => stable_watch _ _) (reads_inb _) (inb_watch (fun _ ha => ha) ?_) ?_) fun status => ?_
  · intro status a ha
    cases a with
    | none => exact absurd rfl ha
    | some a =>
        show etiquette PORT (some a) (.inb (PORT + 5) status) = _
        rw [etiquette, if_pos rfl]
  · rintro status - a rfl
    exact Option.some_ne_none _
  · refine Triple.bind (outb_watch (Q := fun a => a ≠ none) ?_) fun _ => pure_watch c fun _ ha => ha
    rintro a ⟨rfl, hstatus⟩
    have hallowed : decide (Idle status) = true := decide_eq_true hstatus
    simp [etiquette, hallowed]

/-- So is a text. -/
theorem serialWrites_etiquette (s : List UInt8) :
    Triple (watch (etiquette PORT)) Any (fun a => a ≠ none)
      (Debug.serialWrites s : Prog ν Unit) (fun _ a => a ≠ none) (fun a => a ≠ none) := by
  induction s with
  | nil => exact pure_watch () fun _ ha => ha
  | cons c s ih => exact Triple.bind (serialWritec_etiquette c) fun _ => ih

/-- An event that has nothing to do with the serial port. -/
def Foreign : Event ν → Prop
  | .inb port _ => 8 ≤ (port - PORT).toNat
  | .outb port _ => 8 ≤ (port - PORT).toNat
  | .note _ => True

/-- The traces of code that uses the serial port with `serial_writes` only, up to where it
returns, or to a call in which it waits. -/
inductive Logging : List (Event ν) → Prop where
  | returns : Logging []
  | waits (s : List UInt8) (as : List UInt8) : Logging ((Debug.serialWrites s).run as).trace
  | call (s : List UInt8) (as : List UInt8) {rest t : List _} :
      ((Debug.serialWrites s : Prog ν Unit).run as).result = some ((), rest) → Logging t →
        Logging (((Debug.serialWrites s).run as).trace ++ t)
  | other {e : Event ν} {t : List (Event ν)} : Foreign e → Logging t → Logging (e :: t)

/-- An event at another port. -/
theorem Foreign.etiquette {e : Event ν} (h : Foreign e) (a : Option Bool) :
    etiquette PORT a e = a := by
  cases a with
  | none => rfl
  | some a =>
      cases e with
      | note n => rfl
      | inb port answer =>
          have hport : port ≠ PORT + 5 := by
            rintro rfl
            have hfar : ¬8 ≤ (PORT + 5 - PORT).toNat := by decide
            exact hfar h
          rw [Serial.etiquette, if_neg hport]
      | outb port value =>
          have hport : port ≠ PORT := by
            rintro rfl
            have hfar : ¬8 ≤ (PORT - PORT).toNat := by decide
            exact hfar h
          have hge : 5 ≤ (port - PORT).toNat := Nat.le_trans (by decide) h
          rw [Serial.etiquette, if_neg hport, if_pos hge]

/-- Such code is polite. -/
theorem Logging.polite {t : List (Event ν)} (h : Logging t) :
    ∀ a : Option Bool, a ≠ none → t.foldl (Serial.etiquette PORT) a ≠ none := by
  induction h with
  | returns => exact fun a ha => ha
  | waits s as =>
      intro a ha
      have hspec := (serialWrites_etiquette (ν := ν) s).foldl_run as ha
      cases hresult : ((Debug.serialWrites s : Prog ν Unit).run as).result with
      | none => exact hspec.2 hresult
      | some r => exact hspec.1 r.1 r.2 hresult
  | call s as hresult _ ih =>
      intro a ha
      rw [List.foldl_append]
      exact ih _ (((serialWrites_etiquette (ν := ν) s).foldl_run as ha).1 _ _ hresult)
  | other hforeign _ ih =>
      intro a ha
      rw [List.foldl_cons, hforeign.etiquette]
      exact ih a ha

/-- `serial_initialise`, then code that logs with `serial_writes` and is interrupted by such code,
up to `depth` calls in one another, on a device whose FIFO has `size` bytes. No byte is lost, and
each is sent with the settings of `serial_initialise`, exactly when the FIFO has room for a byte
of each of the calls. -/
theorem log_complete_iff {depth : Nat} {as : List UInt8} {u₀ u : Uart}
    (h : Beside (uartStep PORT size : Uart → Event ν ⊕ Unit → Option Uart) Any serialInitialise as
      u₀ u) :
    (∀ acts s', Runs (nestStep (uartStep PORT size)) (Within Logging depth)
        (⟨u, [], []⟩ : Nest Uart ν) acts s' →
      s'.system.wire ++ s'.system.thr.map (fun b => ⟨b, 3, 3⟩)
        = u.wire ++ (bytesOf PORT s'.past).map fun b => ⟨b, 3, 3⟩) ↔ depth ≤ size := by
  obtain ⟨hsettings, hthr⟩ := (serialInitialise_spec u₀.settings as u₀ u rfl h).1 () as rfl
  have hbyte : Logging [(.inb (PORT + 5) 0x20 : Event ν), .outb PORT 0] :=
    Logging.call [0] [0x20] rfl .returns
  have hiff := complete_iff (u := u) size depth
    (fun t (ht : Logging t) => ht.polite (some false) (Option.some_ne_none _)) hbyte
    (hsettings ▸ serialSettings_dlab _) (hsettings ▸ serialSettings_loopback _) hthr
  rw [hsettings] at hiff
  exact hiff

/-- The device was left with the divisor on its ports, and four bytes in a FIFO of 16. -/
theorem log_complete_iff_two :
    ∃ u : Uart, u.settings.ier = 5 ∧
      ∀ acts s', Runs (nestStep (uartStep PORT 16)) (Within Logging 2)
          (⟨u, [], []⟩ : Nest Uart Empty) acts s' →
        s'.system.wire ++ s'.system.thr.map (fun b => ⟨b, 3, 3⟩)
          = u.wire ++ (bytesOf PORT s'.past).map fun b => ⟨b, 3, 3⟩ := by
  have hrun : exec (uartStep PORT 16 : Uart → Event Empty ⊕ Unit → Option Uart) Any
      ⟨⟨5, 0x83, 0, true, 1, 0⟩, [1, 2, 3, 4], []⟩ ((serialInitialise.run []).trace.map .inl)
        = some ⟨⟨5, 3, 0, true, 3, 0⟩, [], []⟩ := by decide
  have hinit : Beside (uartStep PORT 16) Any serialInitialise []
      ⟨⟨5, 0x83, 0, true, 1, 0⟩, [1, 2, 3, 4], []⟩ ⟨⟨5, 3, 0, true, 3, 0⟩, [], []⟩ :=
    ⟨_, runs_of_exec hrun, rfl⟩
  exact ⟨_, rfl, (log_complete_iff hinit).mpr (by decide)⟩

end
end Chuckles.Proofs
