import Chuckles.Kernel.Interrupts
import Chuckles.Lib.Pit

/-!
# `Chuckles.Kernel.Clock`: the timer on its line

The system of `Chuckles.Kernel.Interrupts` together with the timer. The output of the timer drives
the line 0, and no other device does. A cycle of the timer's clock may come between any two steps of
the rest.
-/

set_option autoImplicit false

namespace Chuckles

open Lib.Interval

/-- The system and the timer. -/
structure ClockSys where
  sys : IrqSys
  pit : Pit

/-- A step: a cycle of the timer, or a step of the rest. -/
inductive ClockStep where
  | cycle
  | other (a : IrqStep)

/-- The timer is on the first of the sixteen lines. -/
theorem timerLine_lt : 0 < 16 := by decide

/-- The line of the timer. -/
def timerLine : Fin 16 := ⟨0, timerLine_lt⟩

/-- It is not the line between the controllers. -/
theorem timerLine_connected : irqInput timerLine ≠ .inl CASCADE := by decide

/-- The line at the level of the output. -/
def outputLine (t : Pit) : LineChange := ⟨timerLine, t.out, timerLine_connected⟩

/-- The step drives the line of the timer. -/
def DrivesClock : IrqStep → Bool
  | .line d => d.irq = timerLine
  | _ => false

/-- The step of both. -/
def clockStep (s : ClockSys) : ClockStep → Option ClockSys
  | .cycle => do
    let sys ← irqSysStep s.sys (.line (outputLine s.pit.clock))
    some ⟨sys, s.pit.clock⟩
  | .other a =>
    if DrivesClock a then none
    else do
      let sys ← irqSysStep s.sys a
      some ⟨sys, s.pit⟩

/-- What a step can do. -/
theorem clockStep_cases {s s' : ClockSys} {a : ClockStep} (h : clockStep s a = some s') :
    (∃ sys, a = .cycle ∧ irqSysStep s.sys (.line (outputLine s.pit.clock)) = some sys ∧
        s' = ⟨sys, s.pit.clock⟩) ∨
      ∃ b sys, a = .other b ∧ DrivesClock b = false ∧ irqSysStep s.sys b = some sys ∧
        s' = ⟨sys, s.pit⟩ := by
  cases a with
  | cycle =>
      simp only [clockStep] at h
      obtain ⟨sys, hsys, hs'⟩ := Option.bind_eq_some_iff.mp h
      cases hs'
      exact Or.inl ⟨sys, rfl, hsys, rfl⟩
  | other b =>
      simp only [clockStep] at h
      split at h
      · cases h
      · rename_i hb
        obtain ⟨sys, hsys, hs'⟩ := Option.bind_eq_some_iff.mp h
        cases hs'
        exact Or.inr ⟨b, sys, rfl, Bool.eq_false_of_not_eq_true hb, hsys, rfl⟩

/-! ### The two sides of a run -/

/-- The timer, and the steps of the rest. -/
def clockSide (g : Pit × List IrqStep) : ClockStep → Pit × List IrqStep
  | .cycle => (g.1.clock, g.2 ++ [.line (outputLine g.1.clock)])
  | .other a => (g.1, g.2 ++ [a])

/-- The steps of the rest, when the timer starts in this state. -/
def restSteps (t : Pit) (acts : List ClockStep) : List IrqStep :=
  (acts.foldl clockSide (t, [])).2

/-- A cycle of the timer. -/
def IsCycle : ClockStep → Bool
  | .cycle => true
  | .other _ => false

/-- The cycles of the timer. -/
def cycles (acts : List ClockStep) : Nat := acts.countP IsCycle

end Chuckles
