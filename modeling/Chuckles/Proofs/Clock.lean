import Chuckles.Kernel.Clock
import Chuckles.Proofs.Served

/-!
# `Chuckles.Proofs.Clock`: `timer_ticks` measures time

A run of the system with the timer has two sides: the timer has made its cycles, and the rest is a
run of the system without it (`sides_of_runs`). The rising edges of the line 0 are the edges of the
timer (`Driven`). So the ticks that are counted are the whole periods of the timer
(`ticks_measure_time`).
-/

set_option autoImplicit false

namespace Chuckles.Proofs

open Lib Lib.Run Lib.Pic Lib.Interval

/-- Both sides of a run. -/
theorem sides_of_runs {s₀ : IrqSys} {t : Pit} {acts : List ClockStep} {s : ClockSys}
    (h : Runs clockStep Any ⟨s₀, t⟩ acts s) :
    (acts.foldl clockSide (t, [])).1 = s.pit ∧ s.pit = t.clocks (cycles acts) ∧
      Runs irqSysStep Any s₀ (restSteps t acts) s.sys := by
  refine h.invariant_trace (fun acts (s : ClockSys) =>
    (acts.foldl clockSide (t, [])).1 = s.pit ∧ s.pit = t.clocks (cycles acts) ∧
      Runs irqSysStep Any s₀ (restSteps t acts) s.sys) ?_ ⟨rfl, rfl, .start⟩
  rintro acts s a s' ⟨hside, hpit, hruns⟩ - hstep
  rw [restSteps, List.foldl_append, cycles, List.countP_append]
  cases clockStep_cases hstep with
  | inl hcycle =>
      obtain ⟨sys, rfl, hsys, rfl⟩ := hcycle
      have hcycles : t.clocks (cycles acts + 1) = s.pit.clock := by rw [clocks_succ, ← hpit]
      refine ⟨congrArg Pit.clock hside, hcycles.symm, ?_⟩
      show Runs irqSysStep Any s₀ (restSteps t acts ++ [.line (outputLine (Pit.clock _))]) sys
      rw [hside]
      exact hruns.next trivial hsys
  | inr hother =>
      obtain ⟨a, sys, rfl, -, hsys, rfl⟩ := hother
      exact ⟨hside, hpit, hruns.next trivial hsys⟩

/-- The line 0 has the level of the output, and as many rising edges. -/
structure Driven (t : Pit) (p : Nat) (w : Tally) (t' : Pit) : Prop where
  period : t'.period = some p
  left : t'.left < p
  high : w.view.high = t'.out
  edges : t'.rises = t.rises + w.edges

/-- A cycle of the timer. -/
theorem Driven.cycle {t t' : Pit} {p : Nat} {w : Tally} (h : Driven t p w t') :
    Driven t p (count 0 w (.line (outputLine t'.clock))) t'.clock := by
  refine ⟨(clock_period t').trans h.period, left_clock_lt h.period h.left, ?_, ?_⟩
  · show (if t'.clock.out then (⟨true, _⟩ : LineView) else ⟨false, false⟩).high = _
    cases t'.clock.out with
    | true => rfl
    | false => rfl
  · show t'.clock.rises = t.rises + (w.edges + (t'.clock.out && !w.view.high).toNat)
    rw [rises_clock h.period h.left, h.edges, h.high, Nat.add_assoc]

/-- A line that is not the timer's. -/
theorem ne_of_drivesClock {d : LineChange} (h : DrivesClock (.line d) = false) : ¬d.irq = 0 :=
  of_decide_eq_false h

/-- A step that leaves the line alone. -/
theorem Driven.other {t t' : Pit} {p : Nat} {w : Tally} (h : Driven t p w t') {a : IrqStep}
    (ha : DrivesClock a = false) : Driven t p (count 0 w a) t' := by
  have hview : (lineSee 0 w.view a).high = w.view.high := by
    cases a with
    | line d =>
        simp [lineSee, ne_of_drivesClock ha]
    | pulse i =>
        show (if _ then _ else _ : LineView).high = _
        split <;> rfl
    | vector v =>
        show (if _ then _ else _ : LineView).high = _
        split <;> rfl
    | _ => rfl
  have hrises : Rises 0 w.view a = false := by
    cases a with
    | line d =>
        simp [Rises, ne_of_drivesClock ha]
    | _ => rfl
  refine ⟨h.period, h.left, hview.trans h.high, ?_⟩
  show t'.rises = t.rises + (w.edges + (Rises 0 w.view a).toNat)
  rw [hrises, h.edges]
  rfl

/-- In every run the timer drives its line. -/
theorem driven_of_runs {p₀ : Pair} {k : Kernel} {t : Pit} {p : Nat} (hperiod : t.period = some p)
    (hleft : t.left < p) (hline : p₀.High (irqInput 0) ↔ t.out = true) {acts : List ClockStep}
    {s : ClockSys} (h : Runs clockStep Any ⟨⟨p₀, k, .running⟩, t⟩ acts s) :
    Driven t p (tally p₀ 0 (restSteps t acts)) s.pit := by
  induction h with
  | start =>
      refine ⟨hperiod, hleft, ?_, rfl⟩
      show decide (p₀.High (irqInput 0)) = t.out
      simp [hline]
  | @next acts s₁ s₂ a hruns _ hstep ih =>
      have hpit := (sides_of_runs hruns).1
      rw [restSteps, List.foldl_append]
      cases clockStep_cases hstep with
      | inl hcycle =>
          obtain ⟨sys, rfl, -, rfl⟩ := hcycle
          show Driven t p (tally p₀ 0 (restSteps t acts ++ [.line (outputLine (Pit.clock _))])) _
          rw [hpit, tally_concat]
          exact ih.cycle
      | inr hother =>
          obtain ⟨a, sys, rfl, ha, -, rfl⟩ := hother
          show Driven t p (tally p₀ 0 (restSteps t acts ++ [a])) _
          rw [tally_concat]
          exact ih.other ha

/-- `timer_ticks` measures time. In every run with the timer on its line, whatever the other devices
and the interrupted code do, the ticks that are counted, the requests that have been withdrawn
before an answer, and the one that may still wait are together the whole periods of the timer. -/
theorem ticks_measure_time {p₀ : Pair} (hp₀ : Remapped p₀) {k : Kernel}
    (hk : k.irqRoutines = (Kernel.early []).irqRoutines) {t : Pit} {p : Nat}
    (hperiod : t.period = some p) (hleft : t.left < p)
    (hline : p₀.High (irqInput 0) ↔ t.out = true) {acts : List ClockStep} {s : ClockSys}
    (h : Runs clockStep Any ⟨⟨p₀, k, .running⟩, t⟩ acts s) (hrunning : s.sys.phase = .running) :
    let w := tally p₀ 0 (restSteps t acts)
    ∃ ticks, s.sys.kernel.timerTicks = k.timerTicks + UInt32.ofNat ticks ∧
      ticks + w.withdrawn + w.view.wanted.toNat
        = (t.left + cycles acts) / p + (decide (p₀.Wants (irqInput 0))).toNat := by
  obtain ⟨-, hpit, hrest⟩ := sides_of_runs h
  have hclock := (clock_of_runs hk hrest).ticks
  have hsum := (balanced_of_runs hp₀ (n := 0) (by decide) hrest).sum
  rw [hrunning] at hclock hsum
  -- The edges of the line, by the timer.
  have hedges := (driven_of_runs hperiod hleft hline h).edges
  rw [hpit, rises_clocks _ hperiod hleft] at hedges
  have hperiods : (t.left + cycles acts) / p = (tally p₀ 0 (restSteps t acts)).edges :=
    Nat.add_left_cancel hedges
  rw [hperiods]
  exact ⟨_, (UInt32.add_zero _).symm.trans hclock, hsum⟩

/-- A timer with the count 2, one cycle before its next edge. -/
def fastPit : Pit := ⟨.both, 3, false, none, some 2, 1, 0⟩

/-- Three cycles: the first edge is served, and the second one waits. -/
theorem ticks_measure_time_fast :
    let acts := [ClockStep.cycle, .other .accept, .other (.pulse 0), .other (.vector 0x20),
      .other .act, .other .act, .other .act, .other .ret, .cycle, .cycle]
    ∃ s, Runs clockStep Any ⟨⟨remappedPair, Kernel.early [], .running⟩, fastPit⟩ acts s ∧
      ∃ ticks, s.sys.kernel.timerTicks = 0 + UInt32.ofNat ticks ∧
        ticks + 0 + 1 = (1 + 3) / 2 + 0 := by
  intro acts
  obtain ⟨s, hs, hrunning⟩ : ∃ s, exec clockStep Any
      ⟨⟨remappedPair, Kernel.early [], .running⟩, fastPit⟩ acts = some s ∧
        s.sys.phase = .running := ⟨_, rfl, rfl⟩
  have hperiod : fastPit.period = some 2 := rfl
  exact ⟨s, runs_of_exec hs, ticks_measure_time remapped_remappedPair rfl hperiod (by decide)
    (by decide) (runs_of_exec hs) hrunning⟩

end Chuckles.Proofs
