import Chuckles.Kernel.Irq
import Chuckles.Lib.Pit
import Chuckles.Lib.Run

/-!
# `Chuckles.Kernel.Timer`: the timer

The model of `kernel/arch/i386/timer.c`, but for `timer_handler`, which is a handler of
`Chuckles.Kernel.Irq`: `timer_phase`, which sets the rate of the timer through its ports, and
`timer_wait` one step at a time.

`timer_wait` reads `timer_ticks` for its deadline, and then again in each test of its loop.
The timer's interrupt advances the counter between any two steps. `WaitPc` names the steps,
and `waitStep` runs the next one, or an interrupt in front of it.

`hlt` stops the processor until an interrupt comes, so at `WaitPc.halted` the mainline has
no step. An interrupt that comes before `hlt` does not end it.

The frame of `timer_handler` in `irq_handler` is left out: an interrupt of the timer is one
run of `timerHandler`. An interrupt of another line does anything, except to the counter.
-/

set_option autoImplicit false

namespace Chuckles

open Lib Lib.Run Lib.PortIo

/-! ### The rate -/

/-- The divisor of `timer_phase`. The result of the division is an `int`. -/
def timerDivisor (hz : Int32) : Int32 := 1193180 / hz

/-- `timer_phase`. There is no result when it divides by zero. `outb` takes the lowest byte of what
it gets. -/
def timerPhase {ν : Type} (hz : Int32) : Option (Prog ν Unit) :=
  if hz = 0 then none
  else some do
    outb 0x43 0x36
    outb 0x40 (timerDivisor hz &&& 0xFF).toUInt32.toUInt8
    outb 0x40 (timerDivisor hz >>> 8).toUInt32.toUInt8

/-! ### `timer_wait` -/

/-- The next step of `timer_wait`. -/
inductive WaitPc where
  /-- `eticks = timer_ticks + ticks; int n = 0;` -/
  | read
  /-- `while (timer_ticks < eticks)` -/
  | test
  /-- `serial_writed(n++);` -/
  | writeN
  /-- `serial_writes(": Timer waiting. timer_ticks: ");` -/
  | writeTicksText
  /-- `serial_writed(timer_ticks);` -/
  | writeTicks
  /-- `serial_writes(" | eticks: ");` -/
  | writeEticksText
  /-- `serial_writed(eticks);` -/
  | writeEticks
  /-- `serial_writes("\n");` -/
  | writeNewline
  /-- `hlt`, not yet executed. -/
  | hlt
  /-- The processor is stopped. -/
  | halted
  | returned
  deriving DecidableEq

/-- The kernel, the next step, and the local variables of `timer_wait`. -/
structure WaitSys where
  kernel : Kernel
  pc : WaitPc
  eticks : UInt32
  n : Int32

/-- The call goes on, the timer interrupts, or another line does, which leaves `k'`. -/
inductive WaitAct where
  | main
  | timer
  | other (k' : Kernel)

/-- The call `timer_wait(ticks)` before its first step. -/
def WaitSys.call (k : Kernel) : WaitSys := ⟨k, .read, 0, 0⟩

/-- The number of runs of `timer_handler`. -/
def timerInterrupts (acts : List WaitAct) : Nat :=
  acts.countP fun
    | .timer => true
    | _ => false

/-- The next step of the call. -/
def waitMain (ticks : Int32) (s : WaitSys) : Option WaitSys :=
  match s.pc with
  | .read => some { s with eticks := s.kernel.timerTicks + ticks.toUInt32, n := 0, pc := .test }
  -- The test reads the counter anew, so it sees the interrupts since the last one.
  | .test => some { s with pc := if s.kernel.timerTicks < s.eticks then .writeN else .returned }
  | .writeN => do
    let m ← serialWrited s.n s.kernel.kbd.mach
    some { s with kernel := s.kernel.withMach m, n := s.n + 1, pc := .writeTicksText }
  | .writeTicksText =>
    let m := s.kernel.kbd.mach.serial (ascii ": Timer waiting. timer_ticks: ")
    some { s with kernel := s.kernel.withMach m, pc := .writeTicks }
  | .writeTicks => do
    let m ← serialWrited s.kernel.timerTicks.toInt32 s.kernel.kbd.mach
    some { s with kernel := s.kernel.withMach m, pc := .writeEticksText }
  | .writeEticksText =>
    let m := s.kernel.kbd.mach.serial (ascii " | eticks: ")
    some { s with kernel := s.kernel.withMach m, pc := .writeEticks }
  | .writeEticks => do
    let m ← serialWrited s.eticks.toInt32 s.kernel.kbd.mach
    some { s with kernel := s.kernel.withMach m, pc := .writeNewline }
  | .writeNewline =>
    let m := s.kernel.kbd.mach.serial (ascii "\n")
    some { s with kernel := s.kernel.withMach m, pc := .hlt }
  | .hlt => some { s with pc := .halted }
  -- A stopped processor goes on by `WaitPc.wake` only.
  | .halted | .returned => none

/-- What an interrupt does to the call: it ends `hlt`. -/
def WaitPc.wake : WaitPc → WaitPc
  | .halted => .test
  | pc => pc

/-- The step of the system. -/
def waitStep (ticks : Int32) (s : WaitSys) : WaitAct → Option WaitSys
  | .main => waitMain ticks s
  | .timer => some { s with kernel := timerHandler s.kernel, pc := s.pc.wake }
  -- Any other handler: only the counter is known to stay.
  | .other k' =>
    if k'.timerTicks = s.kernel.timerTicks then some { s with kernel := k', pc := s.pc.wake }
    else none

/-! ### What a step can do -/

/-- An interrupt of the timer advances the counter. -/
@[simp] theorem timerHandler_timerTicks (k : Kernel) :
    (timerHandler k).timerTicks = k.timerTicks + 1 := by
  show (if (k.timerTicks + 1) % 100 = 0 then _ else _ : Kernel).timerTicks = _
  split
  · rfl
  · rfl

/-- `seconds` is advanced when the new value of the counter is a multiple of 100. -/
theorem timerHandler_seconds (k : Kernel) :
    (timerHandler k).seconds
      = if (k.timerTicks + 1) % 100 = 0 then k.seconds + 1 else k.seconds := by
  show (if (k.timerTicks + 1) % 100 = 0 then _ else _ : Kernel).seconds = _
  split
  · rfl
  · rfl

/-- After the reading, a step of the call keeps the counter and the deadline, and it reaches
`returned` from the test only, when the counter has reached the deadline. -/
theorem waitMain_cases {ticks : Int32} {s s' : WaitSys} (hread : s.pc ≠ .read)
    (h : waitMain ticks s = some s') :
    s'.kernel.timerTicks = s.kernel.timerTicks ∧ s'.eticks = s.eticks ∧ s'.pc ≠ .read ∧
      (s'.pc = .returned → ¬s.kernel.timerTicks < s.eticks) := by
  unfold waitMain at h
  cases hpc : s.pc with
  | read => exact absurd hpc hread
  | test =>
    rw [hpc] at h
    cases h
    refine ⟨rfl, rfl, ?_, fun hret => ?_⟩
    · -- Neither branch of the test leads back to the reading.
      show (if _ then WaitPc.writeN else WaitPc.returned) ≠ .read
      split
      · exact nofun
      · exact nofun
    · intro hlt
      rw [show (if s.kernel.timerTicks < s.eticks then WaitPc.writeN else WaitPc.returned)
        = .writeN from if_pos hlt] at hret
      cases hret
  | writeN | writeTicks | writeEticks =>
    -- A number: the report has a result, and the machine changes only.
    rw [hpc] at h
    rcases Option.bind_eq_some_iff.mp h with ⟨m, _, hs'⟩
    cases hs'
    exact ⟨rfl, rfl, nofun, nofun⟩
  | writeTicksText | writeEticksText | writeNewline | hlt =>
    rw [hpc] at h
    cases h
    exact ⟨rfl, rfl, nofun, nofun⟩
  | halted | returned =>
    rw [hpc] at h
    cases h

end Chuckles
