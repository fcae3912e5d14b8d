import Chuckles.Kernel.Boot
import Chuckles.Proofs.Idt
import Chuckles.Proofs.Interrupts
import Chuckles.Proofs.Ps2Config
import Chuckles.Proofs.Ps2Events
import Chuckles.Proofs.Serial
import Chuckles.Proofs.Tables
import Chuckles.Proofs.TimerPhase

/-!
# `Chuckles.Proofs.Boot`: what is ready when the interrupts go on

`kernel_early` beside each of the devices that it programs. It is a series of parts (`startUp_eq`).
A part writes to few ports, so each device ignores most of the parts, and the triple of the one part
that is about the device carries over to the whole. The devices may be in any state at the start,
and they go on by themselves.

`boot_ready` is about the way to `sti` and the moment before it, whatever the keyboard controller
has answered.
-/

set_option autoImplicit false

namespace Chuckles.Proofs

open Lib Lib.Run Lib.PortIo Lib.X86 Lib.Pic Lib.Interval Lib.Serial

/-! ### The ports of the parts -/

section
variable {ν : Type} {E : Event ν → Prop}

/-- `serial_initialise` writes to the serial port. -/
theorem does_serialInitialise
    (h : ∀ port ∈ [0x3F8, 0x3F9, 0x3FA, 0x3FB, 0x3FC], ∀ value, E (.outb port value)) :
    Does E (Debug.serialInitialise : Prog ν Unit) := by
  refine does_writes (w := [(0x3F9, 0x00), (0x3FB, 0x80), (0x3F8, 0x03), (0x3F9, 0x00),
    (0x3FB, 0x03), (0x3FA, 0xC7), (0x3FC, 0x0B), (0x3FC, 0)]) (fun _ => rfl) ?_
  simp [h]

/-- `irq_remap` writes to the interrupt controllers. -/
theorem does_irqRemap (h : ∀ port ∈ [0x20, 0x21, 0xA0, 0xA1], ∀ value, E (.outb port value)) :
    Does E (irqRemap : Prog ν Unit) := by
  refine does_of_trace irqRemap_trace ?_
  simp [remapWrites, InitWrite.event, h]

/-- `timer_phase` writes to the timer. -/
theorem does_timerPhase {hz : Int32} {m : Prog ν Unit} (hm : timerPhase hz = some m)
    (h : ∀ port ∈ [0x40, 0x43], ∀ value, E (.outb port value)) : Does E m := by
  unfold timerPhase at hm
  split at hm
  · cases hm
  · cases hm
    refine does_writes (w := [(0x43, 0x36), (0x40, (timerDivisor hz &&& 0xFF).toUInt32.toUInt8),
      (0x40, (timerDivisor hz >>> 8).toUInt32.toUInt8)]) (fun _ => rfl) ?_
    simp [h]

/-- `ps2_init` uses the ports of the keyboard controller. -/
theorem does_ps2Init (f : Ps2.Note → ν)
    (hread : ∀ port ∈ [0x60, 0x64], ∀ answer, E (.inb port answer))
    (hnote : ∀ n, E (.note (f n))) (h : ∀ port ∈ [0x60, 0x64], ∀ value, E (.outb port value)) :
    Does E (Ps2.ps2Init.mapNotes f) := by
  have hstatus (answer : UInt8) : E (.inb Ps2.STATUS_PORT answer) := hread _ (by decide) answer
  have hanswer (answer : UInt8) : E (.inb Ps2.DATA_PORT answer) := hread _ (by decide) answer
  have hdata (value : UInt8) : E (.outb Ps2.DATA_PORT value) := h _ (by decide) value
  have hcommand (value : UInt8) : E (.outb Ps2.CMD_PORT value) := h _ (by decide) value
  exact Does.mapNotes (Ordinary.ps2Init
    ⟨⟨hstatus, hdata, fun n _ => hnote n⟩, hanswer, fun _ => hnote _, fun value _ => hcommand value⟩
    (hcommand _))

end

/-! ### The parts of the start -/

/-- The notes of the start. -/
def BeforeSti : BootNote → Prop
  | .sti => False
  | .irqInstallHandler irq _ => irq < 16
  | _ => True

section
variable {E : Event BootNote → Prop}

/-- `idt_init` writes to no port. -/
theorem does_idtInit (img : Image) (hnote : ∀ n, BeforeSti n → E (.note n)) :
    Does E (idtInit img) := by
  have hbefore : ∀ n ∈ [.writes (ascii "IDT INIT\n"), .idtClear, .writes (ascii "&IDT: "),
      .writed (Int32.ofBitVec img.idt), .writes (ascii "\n"), .idtLoad], BeforeSti n := by
    simp [BeforeSti]
  exact does_notes (fun _ => rfl) fun n hn => hnote n (hbefore n hn)

/-- Nor does `isrs_install`. -/
theorem does_isrsInstall (img : Image) (hnote : ∀ n, BeforeSti n → E (.note n)) :
    Does E (isrsInstall img) := by
  have hbefore : ∀ n ∈ [.writes (ascii "ISRS Install\n"), .idtSetGates (isrGateCalls img.stubAt)],
      BeforeSti n := by
    simp [BeforeSti]
  exact does_notes (fun _ => rfl) fun n hn => hnote n (hbefore n hn)

/-- `irq_install` is `irq_remap` between two notes. -/
theorem irqInstall_eq (img : Image) :
    irqInstall img = series [earlyWrites "IRQ Install\n", irqRemap,
      note (.idtSetGates (irqGateCalls img.stubAt))] := by
  simp [irqInstall, series]

/-- So it writes to the interrupt controllers only. -/
theorem does_irqInstall (img : Image) (hnote : ∀ n, BeforeSti n → E (.note n))
    (h : ∀ port ∈ [0x20, 0x21, 0xA0, 0xA1], ∀ value, E (.outb port value)) :
    Does E (irqInstall img) := by
  have hbefore : Does E (earlyWrites "IRQ Install\n") := does_note (hnote _ trivial)
  have hafter : Does E (note (.idtSetGates (irqGateCalls img.stubAt))) :=
    does_note (hnote _ trivial)
  rw [irqInstall_eq]
  refine does_series ?_
  simp only [List.forall_mem_cons]
  exact ⟨hbefore, does_irqRemap h, hafter, nofun⟩

/-- `timer_install` programs the timer at 100 Hz, and then installs the handler. -/
theorem timerInstall_eq :
    ∃ m : Early Unit, timerPhase 100 = some m ∧
      timerInstall = series [earlyWrites "Timer Install\n", m,
        note (.irqInstallHandler 0 .timerHandler), earlyWrites "timer handler installed\n"] := by
  obtain ⟨m, hm⟩ : ∃ m : Early Unit, timerPhase 100 = some m := ⟨_, rfl⟩
  refine ⟨m, hm, ?_⟩
  simp [timerInstall, series, hm]

/-- It writes to the timer only. -/
theorem does_timerInstall (hnote : ∀ n, BeforeSti n → E (.note n))
    (h : ∀ port ∈ [0x40, 0x43], ∀ value, E (.outb port value)) : Does E timerInstall := by
  obtain ⟨m, hm, heq⟩ := timerInstall_eq
  have hline : (0 : Nat) < 16 := by decide
  have hbefore : Does E (earlyWrites "Timer Install\n") := does_note (hnote _ trivial)
  have hhandler : Does E (note (.irqInstallHandler 0 .timerHandler)) := does_note (hnote _ hline)
  have hafter : Does E (earlyWrites "timer handler installed\n") := does_note (hnote _ trivial)
  rw [heq]
  refine does_series ?_
  simp only [List.forall_mem_cons]
  exact ⟨hbefore, does_timerPhase hm h, hhandler, hafter, nofun⟩

/-- `ps2_init`, without its result. -/
def ps2Started : Early Unit := do
  let _ ← Ps2.ps2Init.mapNotes .ps2
  pure ()

/-- It uses the ports of the keyboard controller only. -/
theorem does_ps2Started (hnote : ∀ n, BeforeSti n → E (.note n))
    (hread : ∀ port ∈ [0x60, 0x64], ∀ answer, E (.inb port answer))
    (h : ∀ port ∈ [0x60, 0x64], ∀ value, E (.outb port value)) : Does E ps2Started := by
  have hinit : Does E (Ps2.ps2Init.mapNotes .ps2) :=
    does_ps2Init .ps2 hread (fun n => hnote (.ps2 n) trivial) h
  exact hinit.bind fun _ => does_pure ()

/-- `ps2kb_init` writes to no port. -/
theorem does_ps2kbInstall (hnote : ∀ n, BeforeSti n → E (.note n)) : Does E ps2kbInstall := by
  have hbefore : ∀ n ∈ [.irqInstallHandler 1 .ps2kbHandler, .ps2kbInit], BeforeSti n := by
    simp [BeforeSti]
  exact does_notes (fun _ => rfl) fun n hn => hnote n (hbefore n hn)

/-- The parts of the start, in their order. -/
def startUpParts (img : Image) (esp : Int32) : List (Early Unit) :=
  [Debug.serialInitialise, note (.writes img.stamp), note (.writed esp), note .gdtInitialise,
    note (.writed 36), note .terminalInitialise, idtInit img, isrsInstall img, irqInstall img,
    timerInstall, ps2Started, ps2kbInstall]

/-- The start is these parts. -/
theorem startUp_eq (img : Image) (esp : Int32) :
    startUp img esp = series (startUpParts img esp) := by
  simp [startUp, startUpParts, ps2Started, series]

/-- The ports of all devices but the serial port. -/
def lowPorts : List UInt16 := [0x20, 0x21, 0xA0, 0xA1, 0x40, 0x43, 0x60, 0x64]

/-- What the parts behind `serial_initialise` do. -/
theorem does_startUpParts_tail (img : Image) (esp : Int32)
    (hnote : ∀ n, BeforeSti n → E (.note n))
    (hread : ∀ port ∈ [0x60, 0x64], ∀ answer, E (.inb port answer))
    (hwrite : ∀ port ∈ lowPorts, ∀ value, E (.outb port value)) :
    ∀ m ∈ (startUpParts img esp).tail, Does E m := by
  have hset {n : BootNote} (h : BeforeSti n) : Does E (note n) := does_note (hnote n h)
  have hpics : ∀ port ∈ [0x20, 0x21, 0xA0, 0xA1], port ∈ lowPorts := by simp [lowPorts]
  have hpit : ∀ port ∈ [0x40, 0x43], port ∈ lowPorts := by simp [lowPorts]
  have hkeyboard : ∀ port ∈ [0x60, 0x64], port ∈ lowPorts := by simp [lowPorts]
  have hirq : Does E (irqInstall img) :=
    does_irqInstall img hnote fun port hport => hwrite port (hpics port hport)
  have htimer : Does E timerInstall :=
    does_timerInstall hnote fun port hport => hwrite port (hpit port hport)
  have hps2 : Does E ps2Started :=
    does_ps2Started hnote hread fun port hport => hwrite port (hkeyboard port hport)
  simp only [startUpParts, List.tail_cons, List.forall_mem_cons]
  exact ⟨hset (by trivial), hset (by trivial), hset (by trivial), hset (by trivial),
    hset (by trivial), does_idtInit img hnote, does_isrsInstall img hnote, hirq, htimer, hps2,
    does_ps2kbInstall hnote, nofun⟩

/-- Everything that the start does. -/
theorem does_startUp (img : Image) (esp : Int32) (hnote : ∀ n, BeforeSti n → E (.note n))
    (hread : ∀ port ∈ [0x60, 0x64], ∀ answer, E (.inb port answer))
    (hwrite : ∀ port value, E (.outb port value)) : Does E (startUp img esp) := by
  have hserial : Does E (Debug.serialInitialise : Early Unit) :=
    does_serialInitialise fun _ _ _ => hwrite _ _
  have hrest := does_startUpParts_tail img esp hnote hread fun _ _ _ => hwrite _ _
  rw [startUp_eq]
  exact does_series (List.forall_mem_cons.mpr ⟨hserial, hrest⟩)

end

/-! ### The devices -/

section
variable {ν : Type}

/-- The interrupt controllers have a part in writes to their own ports only. -/
theorem pics_ignore_outb {port : UInt16} (h : picPort port = none) (value : UInt8) :
    Ignores (picStep (ν := ν)) (.outb port value) := by
  rintro p p' ⟨⟩
  rw [picOutb, h]

/-- They have no part in a read. -/
theorem pics_ignore_inb (port : UInt16) (answer : UInt8) :
    Ignores (picStep (ν := ν)) (.inb port answer) := by
  rintro p p' ⟨⟩
  rfl

/-- Nor in a note. -/
theorem pics_ignore_note (n : ν) : Ignores picStep (.note n) := by
  rintro p p' ⟨⟩
  rfl

/-- The timer has a part in writes to its control port and to its channel 0 only. -/
theorem pit_ignores_outb {port : UInt16} (hcontrol : port ≠ 0x43) (hdata : port ≠ 0x40)
    (value : UInt8) : Ignores (pitStep (ν := ν) 0x40) (.outb port value) := by
  intro t t' hstep
  have hcontrol : port ≠ 0x40 + 3 := hcontrol
  rw [pitStep, if_neg hcontrol, if_neg hdata] at hstep
  cases hstep
  rfl

/-- It has no part in a read. -/
theorem pit_ignores_inb (port : UInt16) (answer : UInt8) :
    Ignores (pitStep (ν := ν) 0x40) (.inb port answer) := by
  rintro t t' ⟨⟩
  rfl

/-- Nor in a note. -/
theorem pit_ignores_note (n : ν) : Ignores (pitStep 0x40) (.note n) := by
  rintro t t' ⟨⟩
  rfl

/-- The ports of the other devices are below those of the serial port, and so not among them. -/
theorem far_of_lowPorts : ∀ port ∈ lowPorts, 5 ≤ (port - Debug.PORT).toNat := by
  simp [lowPorts, Debug.PORT]

/-- The serial port has a part in writes to its own ports only. -/
theorem uart_ignores_outb {size : Nat} {port : UInt16} (h : port ∈ lowPorts) (value : UInt8) :
    Ignores (uartStep (ν := ν) Debug.PORT size) (.outb port value) := by
  intro u u' hstep
  rw [uartStep, write_of_ge (far_of_lowPorts port h)] at hstep
  cases hstep
  rfl

/-- A read of its line status is allowed or not, and changes nothing. -/
theorem uart_ignores_inb {size : Nat} (port : UInt16) (answer : UInt8) :
    Ignores (uartStep (ν := ν) Debug.PORT size) (.inb port answer) := by
  intro u u' hstep
  simp only [uartStep] at hstep
  split at hstep
  · split at hstep
    · cases hstep
      rfl
    · cases hstep
  · cases hstep
    rfl

/-- It has no part in a note. -/
theorem uart_ignores_note {size : Nat} (n : ν) : Ignores (uartStep Debug.PORT size) (.note n) := by
  rintro u u' ⟨⟩
  rfl

end

section
variable (img : Image) (esp : Int32)

/-- The lines of the devices leave the initialisation of the controllers. -/
theorem stable_remapped {ν : Type} :
    Stable (picStep : Pair → Event ν ⊕ LineChange → Option Pair) Any Remapped := by
  rintro p d p' hp - ⟨⟩
  exact hp.setInput d

/-- The interrupt controllers at the end of the start. -/
theorem startUp_pics :
    Triple picStep Any (fun _ => True) (startUp img esp) (fun _ => Remapped) fun _ => True := by
  have hnote (n : BootNote) (_ : BeforeSti n) := pics_ignore_note n
  have hremap : Triple picStep Any (fun _ => True) (irqRemap : Early Unit) (fun _ => Remapped)
      fun _ => True :=
    fun as p p' _ h => ⟨fun _ _ _ => remapped_of_beside h, fun _ => trivial⟩
  have hirq : Triple picStep Any (fun _ => True) (irqInstall img) (fun _ => Remapped)
      fun _ => True := by
    rw [irqInstall_eq]
    refine Triple.series_part (l := [_]) stable_remapped hremap ?_
    simp only [List.forall_mem_cons]
    exact ⟨does_note (pics_ignore_note _), nofun⟩
  -- Nothing is known of them until `irq_remap`.
  have hbefore : startUpParts img esp = (startUpParts img esp).take 8 ++ irqInstall img ::
    [timerInstall, ps2Started, ps2kbInstall] := rfl
  rw [startUp_eq, hbefore]
  refine Triple.series_part stable_remapped hirq ?_
  simp only [List.forall_mem_cons]
  refine ⟨does_timerInstall hnote ?_, does_ps2Started hnote ?_ ?_, does_ps2kbInstall hnote, nofun⟩
  · simp [pics_ignore_outb, picPort]
  · simp [pics_ignore_inb]
  · simp [pics_ignore_outb, picPort]

/-- The timer. -/
theorem startUp_pit :
    Triple (pitStep 0x40) Any (fun _ => True) (startUp img esp)
      (fun _ => Programmed (programmed none (some (timerCount 100)))) fun _ => True := by
  have hnote (n : BootNote) (_ : BeforeSti n) := pit_ignores_note n
  obtain ⟨m, hm, heq⟩ := timerInstall_eq
  have hphase : Triple (pitStep 0x40) Any (fun _ => True) m
      (fun _ => Programmed (programmed none (some (timerCount 100)))) fun _ => True :=
    (timerPhase_spec hm).mono (fun _ h => h) (fun _ _ h => h) fun _ h => h.elim
  have htimer : Triple (pitStep 0x40) Any (fun _ => True) timerInstall
      (fun _ => Programmed (programmed none (some (timerCount 100)))) fun _ => True := by
    rw [heq]
    refine Triple.series_part (l := [_]) (stable_programmed _) hphase ?_
    simp only [List.forall_mem_cons]
    exact ⟨does_note (pit_ignores_note _), does_note (pit_ignores_note _), nofun⟩
  have hbefore : startUpParts img esp = (startUpParts img esp).take 9 ++ timerInstall ::
    [ps2Started, ps2kbInstall] := rfl
  rw [startUp_eq, hbefore]
  refine Triple.series_part (stable_programmed _) htimer ?_
  simp only [List.forall_mem_cons]
  refine ⟨does_ps2Started hnote ?_ ?_, does_ps2kbInstall hnote, nofun⟩
  · simp [pit_ignores_inb]
  · simp [pit_ignores_outb]

/-- The serial port. -/
theorem startUp_uart {size : Nat} (c : Settings) :
    Triple (uartStep Debug.PORT size) Any (fun u => u.settings = c) (startUp img esp)
      (fun _ u => u.settings = serialSettings c ∧ u.thr = []) fun _ => True := by
  have hinit : Triple (uartStep Debug.PORT size) Any (fun u => u.settings = c)
      (Debug.serialInitialise : Early Unit)
      (fun _ u => u.settings = serialSettings c ∧ u.thr = []) fun _ => True :=
    (serialInitialise_spec c).mono (fun _ h => h) (fun _ _ h => h) fun _ h => h.elim
  rw [startUp_eq]
  -- All that is about the serial port is the first part.
  refine Triple.series_cons (stable_empty (· = serialSettings c)) (fun _ _ => trivial) hinit ?_
  exact does_startUpParts_tail img esp (fun n _ => uart_ignores_note n)
    (fun port _ => uart_ignores_inb port) fun port hport => uart_ignores_outb hport

/-! ### The kernel -/

/-- How far the kernel is: its own state but for the machine, whether the segment table is there,
the interrupt table, and whether that is loaded. The interrupts are off. -/
structure Reached (k : Kernel) (segments : Bool) (idt : Option Idt) (loaded : Bool)
    (s : BootState) : Prop where
  kernel : ∃ m, s.kernel = k.withMach m
  segments : segments = true →
    (∃ g₀ m₀ m, gdtInitialise img.gdt img.tss g₀ m₀ = some (s.gdt, m)) ∧
      s.tables.gdtr = gdtPtr s.gdt
  idt : ∀ i ∈ idt, s.idt = i
  loaded : loaded = true → s.tables.idtr = idtPtr img.idt
  off : s.interrupts = false

section
variable {img : Image} {k : Kernel} {segments loaded : Bool} {idt : Option Idt}

/-- What the machine has printed in between makes no difference. -/
theorem stable_reached :
    Stable (bootStep img) Any (Reached img k segments idt loaded) := by
  rintro s m s' h - ⟨⟩
  obtain ⟨m', hkernel⟩ := h.kernel
  exact ⟨⟨m, by rw [hkernel, Kernel.withMach_withMach]⟩, h.segments, h.idt, h.loaded, h.off⟩

/-- A part that only writes to ports and prints. -/
theorem reached_quiet {α : Type} {m : Early α} (h : Does (Ignores (bootStep img)) m) :
    Triple (bootStep img) Any (Reached img k segments idt loaded) m
      (fun _ => Reached img k segments idt loaded) fun s => s.interrupts = false :=
  Triple.of_ignored stable_reached h fun _ h => h.off

/-- A note with an effect. -/
theorem reached_note {k' : Kernel} {segments' loaded' : Bool} {idt' : Option Idt} {n : BootNote}
    (h : ∀ s s', Reached img k segments idt loaded s → n.run img s = some s' →
      Reached img k' segments' idt' loaded' s') :
    Triple (bootStep img) Any (Reached img k segments idt loaded) (note n)
      (fun _ => Reached img k' segments' idt' loaded') fun s => s.interrupts = false :=
  Triple.note stable_reached stable_reached fun s s' hs _ hstep => h s s' hs hstep

/-- A write to a port does nothing to the kernel's own state. -/
theorem ignores_outb (port : UInt16) (value : UInt8) :
    Ignores (bootStep img) (.outb port value) := by
  rintro s s' ⟨⟩
  rfl

/-- Nor does a read of a port. -/
theorem ignores_inb (port : UInt16) (answer : UInt8) :
    Ignores (bootStep img) (.inb port answer) := by
  rintro s s' ⟨⟩
  rfl

/-- Nor does a note without an effect. -/
theorem ignores_note {n : BootNote} (h : ∀ s, n.run img s = some s) :
    Ignores (bootStep img) (.note n) := by
  intro s s' hstep
  have hsame : n.run img s = some s' := hstep
  rw [h s] at hsame
  cases hsame
  rfl

/-- A print changes nothing here. -/
theorem reached_print {n : BootNote} (h : ∀ s, n.run img s = some s) :
    Triple (bootStep img) Any (Reached img k segments idt loaded) (note n)
      (fun _ => Reached img k segments idt loaded) fun s => s.interrupts = false :=
  reached_quiet (does_note (ignores_note h))

/-- `gdt_initialise` and its loading. -/
theorem reached_gdt :
    Triple (bootStep img) Any (Reached img k segments idt loaded) (note .gdtInitialise)
      (fun _ => Reached img k true idt loaded) fun s => s.interrupts = false := by
  refine reached_note fun s s' hs hrun => ?_
  obtain ⟨⟨g, m⟩, hinit, hs'⟩ := Option.bind_eq_some_iff.mp hrun
  cases hs'
  obtain ⟨m', hkernel⟩ := hs.kernel
  refine ⟨⟨m, ?_⟩, fun _ => ⟨⟨_, _, _, hinit⟩, rfl⟩, hs.idt, hs.loaded, hs.off⟩
  show s.kernel.withMach m = _
  rw [hkernel, Kernel.withMach_withMach]

/-- The interrupt table is cleared. -/
theorem reached_idtClear :
    Triple (bootStep img) Any (Reached img k segments idt loaded) (note .idtClear)
      (fun _ => Reached img k segments (some (Vector.replicate 256 IdtGate.cleared)) loaded)
      fun s => s.interrupts = false := by
  refine reached_note ?_
  rintro s s' hs ⟨⟩
  exact ⟨hs.kernel, hs.segments, fun i hi => Option.some.inj hi, hs.loaded, hs.off⟩

/-- It is loaded. -/
theorem reached_idtLoad :
    Triple (bootStep img) Any (Reached img k segments idt loaded) (note .idtLoad)
      (fun _ => Reached img k segments idt true) fun s => s.interrupts = false := by
  refine reached_note ?_
  rintro s s' hs ⟨⟩
  exact ⟨hs.kernel, hs.segments, hs.idt, fun _ => rfl, hs.off⟩

/-- It is filled. -/
theorem reached_idtSetGates {i : Idt} (calls : List IdtCall) :
    Triple (bootStep img) Any (Reached img k segments (some i) loaded) (note (.idtSetGates calls))
      (fun _ => Reached img k segments (some (calls.foldl IdtCall.run i)) loaded)
      fun s => s.interrupts = false := by
  refine reached_note ?_
  rintro s s' hs ⟨⟩
  refine ⟨hs.kernel, hs.segments, fun i' hi' => ?_, hs.loaded, hs.off⟩
  cases hi'
  show calls.foldl IdtCall.run s.idt = _
  rw [hs.idt i rfl]

/-- A handler is installed. -/
theorem reached_install {irq : Nat} {handler : Routine} {k' : Kernel}
    (h : irqInstallHandler k irq handler = some k') :
    Triple (bootStep img) Any (Reached img k segments idt loaded)
      (note (.irqInstallHandler irq handler)) (fun _ => Reached img k' segments idt loaded)
      fun s => s.interrupts = false := by
  refine reached_note fun s s' hs hrun => ?_
  obtain ⟨k₁, hk₁, hs'⟩ := Option.bind_eq_some_iff.mp hrun
  cases hs'
  obtain ⟨m, hkernel⟩ := hs.kernel
  refine ⟨⟨m, ?_⟩, hs.segments, hs.idt, hs.loaded, hs.off⟩
  rw [hkernel] at hk₁
  unfold irqInstallHandler at h hk₁
  split at h
  · rename_i hirq
    rw [dif_pos hirq] at hk₁
    cases h
    cases hk₁
    rfl
  · cases h

/-- The keyboard driver starts. -/
theorem reached_ps2kbInit :
    Triple (bootStep img) Any (Reached img k segments idt loaded) (note .ps2kbInit)
      (fun _ => Reached img { k with kbd := ps2kbInit k.kbd } segments idt loaded)
      fun s => s.interrupts = false := by
  refine reached_note ?_
  rintro s s' hs ⟨⟩
  obtain ⟨m, hkernel⟩ := hs.kernel
  refine ⟨⟨(ps2kbInit (k.withMach m).kbd).mach, ?_⟩, hs.segments, hs.idt, hs.loaded, hs.off⟩
  show { s.kernel with kbd := ps2kbInit s.kernel.kbd } = _
  rw [hkernel]
  rfl

/-- What the kernel does at the notes of `idt_init`. -/
theorem reached_idtInit :
    Triple (bootStep img) Any (Reached img k segments none false) (idtInit img)
      (fun _ => Reached img k segments (some (Vector.replicate 256 .cleared)) true)
      fun s => s.interrupts = false := by
  refine Triple.bind (reached_print fun _ => rfl) fun _ => ?_
  refine Triple.bind reached_idtClear fun _ => ?_
  refine Triple.bind (reached_print fun _ => rfl) fun _ => ?_
  refine Triple.bind (reached_print fun _ => rfl) fun _ => ?_
  refine Triple.bind (reached_print fun _ => rfl) fun _ => ?_
  exact reached_idtLoad

/-- `isrs_install`. -/
theorem reached_isrsInstall {i : Idt} :
    Triple (bootStep img) Any (Reached img k segments (some i) loaded) (isrsInstall img)
      (fun _ => Reached img k segments (some ((isrGateCalls img.stubAt).foldl IdtCall.run i))
        loaded) fun s => s.interrupts = false := by
  refine Triple.bind (reached_print fun _ => rfl) fun _ => ?_
  exact reached_idtSetGates _

/-- `irq_install`. -/
theorem reached_irqInstall {i : Idt} :
    Triple (bootStep img) Any (Reached img k segments (some i) loaded) (irqInstall img)
      (fun _ => Reached img k segments (some ((irqGateCalls img.stubAt).foldl IdtCall.run i))
        loaded) fun s => s.interrupts = false := by
  have hremap : Does (Ignores (bootStep img)) irqRemap :=
    does_irqRemap fun _ _ _ => ignores_outb _ _
  refine Triple.bind (reached_print fun _ => rfl) fun _ => ?_
  refine Triple.bind (reached_quiet hremap) fun _ => ?_
  exact reached_idtSetGates _

/-- `timer_install`. -/
theorem reached_timerInstall {k' : Kernel} (h : irqInstallHandler k 0 .timerHandler = some k') :
    Triple (bootStep img) Any (Reached img k segments idt loaded) timerInstall
      (fun _ => Reached img k' segments idt loaded) fun s => s.interrupts = false := by
  obtain ⟨m, hm, heq⟩ := timerInstall_eq
  have hphase : Does (Ignores (bootStep img)) m :=
    does_timerPhase hm fun _ _ _ => ignores_outb _ _
  have hquiet : ∀ l ∈ [earlyWrites "timer handler installed\n"],
      Does (Ignores (bootStep img)) l := by
    simp only [List.forall_mem_cons]
    exact ⟨does_note (ignores_note fun _ => rfl), nofun⟩
  rw [heq]
  refine Triple.bind (reached_print fun _ => rfl) fun _ => ?_
  refine Triple.bind (reached_quiet hphase) fun _ => ?_
  exact Triple.series_cons stable_reached (fun _ h => h.off) (reached_install h) hquiet

/-- `ps2kb_init`. -/
theorem reached_ps2kbInstall {k' : Kernel} (h : irqInstallHandler k 1 .ps2kbHandler = some k') :
    Triple (bootStep img) Any (Reached img k segments idt loaded) ps2kbInstall
      (fun _ => Reached img { k' with kbd := ps2kbInit k'.kbd } segments idt loaded)
      fun s => s.interrupts = false := by
  refine Triple.bind (reached_install h) fun _ => ?_
  exact reached_ps2kbInit

/-- The kernel at the end of the start, and while it waits. -/
theorem startUp_kernel (img : Image) (esp : Int32) (input : List UInt8) :
    Triple (bootStep img) Any (Reached img (Kernel.boot input) false none false) (startUp img esp)
      (fun _ => Reached img (Kernel.early input) true (some (idtInstalled img.stubAt)) true)
      fun s => s.interrupts = false := by
  have hserial : Does (Ignores (bootStep img)) Debug.serialInitialise :=
    does_serialInitialise fun _ _ _ => ignores_outb _ _
  have hps2 : Does (Ignores (bootStep img)) (Ps2.ps2Init.mapNotes .ps2) :=
    does_ps2Init .ps2 (fun _ _ _ => ignores_inb _ _) (fun _ => ignores_note fun _ => rfl)
      fun _ _ _ => ignores_outb _ _
  -- The gates are those of both calls, one after the other.
  have hgates : (irqGateCalls img.stubAt).foldl IdtCall.run ((isrGateCalls img.stubAt).foldl
      IdtCall.run (Vector.replicate 256 .cleared)) = idtInstalled img.stubAt :=
    (List.foldl_append).symm
  refine Triple.bind (reached_quiet hserial) fun _ => ?_
  refine Triple.bind (reached_print fun _ => rfl) fun _ => ?_
  refine Triple.bind (reached_print fun _ => rfl) fun _ => ?_
  refine Triple.bind reached_gdt fun _ => ?_
  refine Triple.bind (reached_print fun _ => rfl) fun _ => ?_
  refine Triple.bind (reached_print fun _ => rfl) fun _ => ?_
  refine Triple.bind reached_idtInit fun _ => ?_
  refine Triple.bind reached_isrsInstall fun _ => ?_
  refine Triple.bind reached_irqInstall fun _ => ?_
  rw [hgates]
  refine Triple.bind (reached_timerInstall rfl) fun _ => ?_
  refine Triple.bind (reached_quiet hps2) fun _ => ?_
  exact reached_ps2kbInstall rfl

end

/-- While `kernel_early` waits the interrupts are off, and when it returns they are on. -/
theorem kernelEarly_on (input : List UInt8) :
    Triple (bootStep img) Any (Reached img (Kernel.boot input) false none false)
      (kernelEarly img esp) (fun _ s => s.interrupts = true) fun s => s.interrupts = false := by
  have hon : Stable (bootStep img) Any fun s => s.interrupts = true := by
    rintro s m s' hs - ⟨⟩
    exact hs
  have hsti : Triple (bootStep img) Any
      (Reached img (Kernel.early input) true (some (idtInstalled img.stubAt)) true)
      (note .sti) (fun _ s => s.interrupts = true) fun s => s.interrupts = false := by
    refine Triple.note stable_reached hon ?_
    rintro s s' - - ⟨⟩
    rfl
  have hprint : Triple (bootStep img) Any (fun s => s.interrupts = true)
      (earlyWrites "\nKERNEL_EARLY FINISHED\n") (fun _ s => s.interrupts = true)
      fun s => s.interrupts = false := by
    refine Triple.note hon hon ?_
    rintro s s' hs - ⟨⟩
    exact hs
  refine Triple.bind (startUp_kernel img esp input) fun _ => ?_
  exact Triple.bind hsti fun _ => hprint

/-! ### The moment before `sti` -/

/-- A note of the start has an effect, and does not touch the flag of the interrupts. -/
theorem BeforeSti.run {n : BootNote} (h : BeforeSti n) (s : BootState) :
    ∃ s', n.run img s = some s' ∧ s'.interrupts = s.interrupts := by
  cases n with
  | sti => exact h.elim
  | gdtInitialise =>
      obtain ⟨g, m, hinit, -⟩ := gdtInitialise_spec img.gdt img.tss s.gdt s.kernel.kbd.mach
      simp only [BootNote.run, hinit, Option.bind_eq_bind, Option.bind_some]
      exact ⟨_, rfl, rfl⟩
  | irqInstallHandler irq handler =>
      have hirq : irq < 16 := h
      simp only [BootNote.run, irqInstallHandler, dif_pos hirq, Option.bind_eq_bind,
        Option.bind_some]
      exact ⟨_, rfl, rfl⟩
  | _ => exact ⟨_, rfl, rfl⟩

/-- Nothing in the start touches the flag. -/
theorem startUp_off :
    Does (fun e => ∀ s s', bootStep img s (.inl e) = some s' → s'.interrupts = s.interrupts)
      (startUp img esp) := by
  refine does_startUp img esp (fun n hn s s' hstep => ?_) (fun _ _ _ s s' hstep => ?_)
    fun _ _ s s' hstep => ?_
  · obtain ⟨s₁, hrun, hoff⟩ := hn.run img s
    have hsame : n.run img s = some s' := hstep
    rw [hrun] at hsame
    cases hsame
    exact hoff
  · cases hstep
    rfl
  · cases hstep
    rfl

/-- Where the linker has put the tables of the image, and the operands `gp` and `idtp` of the
loads. -/
def tableSymbols (img : Image) (gp idtp : BitVec 32) : TableSymbols :=
  ⟨img.gdt, gp, img.tss, img.idt, idtp⟩

/-- What is ready: the kernel is in its first state, the tables are set up and loaded, the
interrupt controllers are remapped, the timer runs at its rate, and the serial port has its
settings. -/
structure StartReady (img : Image) (input : List UInt8) (s : BootState) (p : Pair) (t : Pit)
    (u : Uart) : Prop where
  off : s.interrupts = false
  kernel : ∃ m, s.kernel = (Kernel.early input).withMach m
  tables : ∀ mem, Holds mem img.gdt (gdtWords s.gdt) → Holds mem img.idt (idtWords s.idt) →
    SystemTables img.gdt img.tss img.idt img.stubAt s.gdt s.tables mem
  /-- The stores of the kernel put these tables into the memory. -/
  stored : ∀ gp idtp, (tableSymbols img gp idtp).regions.Pairwise Memory.Region.Apart →
    ∀ mem, ∃ mem', installTablesAt (tableSymbols img gp idtp) img.stubAt mem
        = some (s.tables, mem') ∧
      SystemTables img.gdt img.tss img.idt img.stubAt s.gdt s.tables mem'
  pics : Remapped p
  timer : t.period = some 11931
  serial : (u.settings.lcr, u.settings.dll, u.settings.dlm, u.settings.mcr, u.settings.fifoOn)
    = (3, 3, 0, 0, true)

/-- The interrupts are off in every state on the way. -/
theorem off_of_runs (as : List UInt8) {s s' : BootState} {acts : List (Event BootNote ⊕ Machine)}
    (h : Runs (bootStep img) Any s acts s')
    (hacts : ∀ e, .inl e ∈ acts → e ∈ ((startUp img esp).run as).trace)
    (hs : s.interrupts = false) : s'.interrupts = false := by
  induction h with
  | start => exact hs
  | @next acts s₁ s₂ a _ _ hnext ih =>
      have hbefore := ih fun e he => hacts e (List.mem_append_left _ he)
      cases a with
      | inl e =>
          have he := hacts e (List.mem_append_right _ (List.mem_singleton_self _))
          rw [startUp_off img esp as e he s₁ s₂ hnext]
          exact hbefore
      | inr m =>
          cases hnext
          exact hbefore

/-- The timer at the end of the start. -/
theorem period_install {t : Pit} (h : Programmed (programmed none (some (timerCount 100))) t) :
    t.period = some 11931 :=
  h.period (by decide)

/-- The tables at the end of the start, as values and in the memory. -/
theorem Reached.systemTables {img : Image} {k : Kernel} {s : BootState}
    (h : Reached img k true (some (idtInstalled img.stubAt)) true s) :
    (∀ mem, Holds mem img.gdt (gdtWords s.gdt) → Holds mem img.idt (idtWords s.idt) →
      SystemTables img.gdt img.tss img.idt img.stubAt s.gdt s.tables mem) ∧
    ∀ gp idtp, (tableSymbols img gp idtp).regions.Pairwise Memory.Region.Apart →
      ∀ mem, ∃ mem', installTablesAt (tableSymbols img gp idtp) img.stubAt mem
          = some (s.tables, mem') ∧
        SystemTables img.gdt img.tss img.idt img.stubAt s.gdt s.tables mem' := by
  obtain ⟨⟨g₀, m₀, m, hmade⟩, hgdtr⟩ := h.segments rfl
  have hidt := h.idt _ rfl
  have hidtr := h.loaded rfl
  have hregisters : s.tables = ⟨gdtPtr s.gdt, idtPtr img.idt⟩ := by
    rw [← hgdtr, ← hidtr]
  constructor
  · intro mem hsegments hgates
    have hbase : s.tables.gdtr.base = img.gdt := by
      rw [hgdtr, gdtPtr, gdtInitialise_gp hmade]
    refine ⟨⟨⟨g₀, m₀, m, hmade⟩, hgdtr, ?_⟩, ⟨hidtr, ?_⟩⟩
    · rw [hbase]
      exact hsegments
    · rw [hidtr, ← hidt]
      exact hgates
  · intro gp idtp hapart mem
    obtain ⟨mem', hrun, hholds, -⟩ := installTables_refines hapart img.stubAt hmade mem
    rw [hregisters]
    exact ⟨mem', hrun, hholds⟩

/-- `kernel_early` up to `sti`, beside the devices, which are in any state at the start and go on by
themselves, and for all answers of the keyboard controller. The interrupts are off in every state
on the way, also when the program waits for an answer that does not come. When it gets to `sti`,
everything is ready, and from there on every interrupt of a controller leads to `irq_handler`. -/
theorem boot_ready {img : Image} {esp : Int32} {input as : List UInt8} {s : BootState}
    (hs : s.kernel = Kernel.boot input) (hoff : s.interrupts = false) :
    (∀ acts s₁, Runs (bootStep img) Any s acts s₁ →
      acts.filterMap Sum.getLeft? <+: ((startUp img esp).run as).trace → s₁.interrupts = false) ∧
    ∀ rest, ((startUp img esp).run as).result = some ((), rest) →
      ∀ s', Beside (bootStep img) Any (startUp img esp) as s s' →
      ∀ p p', Beside picStep Any (startUp img esp) as p p' →
      ∀ t t', Beside (pitStep 0x40) Any (startUp img esp) as t t' →
      ∀ size u u', Beside (uartStep Debug.PORT size) Any (startUp img esp) as u u' →
      StartReady img input s' p' t' u' ∧
        ∀ irqs r, Runs irqSysStep Any ⟨p', s'.kernel, .running⟩ irqs r → r.phase ≠ .lost := by
  constructor
  · intro acts s₁ hrun hprefix
    refine off_of_runs img esp as hrun (fun e he => ?_) hoff
    exact hprefix.subset (List.mem_filterMap.mpr ⟨_, he, rfl⟩)
  · intro rest hreturns s' hkernel p p' hpics t t' hpit size u u' huart
    have hstart : Reached img (Kernel.boot input) false none false s :=
      ⟨⟨Machine.boot, by rw [hs]; rfl⟩, nofun, nofun, nofun, hoff⟩
    have hdone := (startUp_kernel img esp input as s s' hstart hkernel).1 () rest hreturns
    have hremapped := (startUp_pics img esp as p p' trivial hpics).1 () rest hreturns
    have htimer := (startUp_pit img esp as t t' trivial hpit).1 () rest hreturns
    have hserial := (startUp_uart img esp u.settings as u u' rfl huart).1 () rest hreturns
    obtain ⟨htables, hstored⟩ := hdone.systemTables
    refine ⟨⟨hdone.off, hdone.kernel, htables, hstored, hremapped, period_install htimer, ?_⟩,
      fun irqs r hirqs hlost => ?_⟩
    · rw [hserial.1]
      rfl
    · have hphase := (safe_of_runs hremapped hirqs).phase
      rw [hlost] at hphase
      exact hphase

/-- A start with a controller that answers at once. -/
theorem boot_ready_quick :
    let img : Image := ⟨ascii "today\tnow\n", 0x1000, 0x2000, 0x3000, fun v => BitVec.ofNat 32 v⟩
    ∃ s₀ s p t u, (∀ acts s₁, Runs (bootStep img) Any s₀ acts s₁ → acts.filterMap Sum.getLeft?
        <+: ((startUp img 0).run (quickAnswers 0x24 false)).trace → s₁.interrupts = false) ∧
      StartReady img [0x1E] s p t u ∧
      ∀ irqs r, Runs irqSysStep Any ⟨p, s.kernel, .running⟩ irqs r → r.phase ≠ .lost := by
  intro img
  let s₀ : BootState := ⟨Kernel.boot [0x1E], Gdt.boot, Vector.replicate 256 IdtGate.cleared,
    ⟨⟨0, 0⟩, ⟨0, 0⟩⟩, false⟩
  have hreturns : ((startUp img 0).run (quickAnswers 0x24 false)).result = some ((), []) := by
    decide +kernel
  have hkernel : Does (fun e => ∀ s, ∃ s', bootStep img s (.inl e) = some s') (startUp img 0) :=
    does_startUp img 0 (fun n hn s => (hn.run img s).imp fun _ h => h.1)
      (fun _ _ _ _ => ⟨_, rfl⟩) fun _ _ _ => ⟨_, rfl⟩
  have hpics : Does (fun e => ∀ p, ∃ p', picStep p (.inl e) = some p') (startUp img 0) :=
    does_startUp img 0 (fun _ _ _ => ⟨_, rfl⟩) (fun _ _ _ _ => ⟨_, rfl⟩) fun _ _ _ => ⟨_, rfl⟩
  have hpit : Does (fun e => ∀ t, ∃ t', pitStep 0x40 t (.inl e) = some t') (startUp img 0) := by
    refine does_startUp img 0 (fun _ _ _ => ⟨_, rfl⟩) (fun _ _ _ _ => ⟨_, rfl⟩)
      fun port value t => ?_
    simp only [pitStep]
    split
    · exact ⟨_, rfl⟩
    · split
      · exact ⟨_, rfl⟩
      · exact ⟨_, rfl⟩
  have huart : Does (fun e => ∀ u, ∃ u', uartStep Debug.PORT 16 u (.inl e) = some u')
      (startUp img 0) := by
    refine does_startUp img 0 (fun _ _ _ => ⟨_, rfl⟩) (fun port hport answer u => ?_)
      fun _ _ _ => ⟨_, rfl⟩
    have hne : port ≠ Debug.PORT + 5 := by
      rintro rfl
      exact absurd hport (by decide)
    exact ⟨u, if_neg hne⟩
  obtain ⟨s', hs'⟩ := hkernel.exists_beside (quickAnswers 0x24 false) s₀
  obtain ⟨p', hp'⟩ := hpics.exists_beside (quickAnswers 0x24 false) remappedPair
  obtain ⟨t', ht'⟩ := hpit.exists_beside (quickAnswers 0x24 false)
    ⟨.both, 0, true, some 0x12, some 7, 3, 40⟩
  obtain ⟨u', hu'⟩ := huart.exists_beside (quickAnswers 0x24 false)
    ⟨⟨5, 0x83, 0, true, 1, 0⟩, [1, 2, 3, 4], []⟩
  have hstart : s₀.kernel = Kernel.boot [0x1E] ∧ s₀.interrupts = false := ⟨rfl, rfl⟩
  obtain ⟨hoff, hready⟩ := boot_ready hstart.1 hstart.2
  exact ⟨s₀, s', p', t', u', hoff,
    hready [] hreturns s' hs' _ p' hp' _ t' ht' 16 _ u' hu'⟩

end
end Chuckles.Proofs
