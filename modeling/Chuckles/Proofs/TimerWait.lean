import Chuckles.Proofs.Timer

/-!
# `Chuckles.Proofs.TimerWait`: `timer_wait` returns, and how late

`timerWait_not_early_iff` says that the call does not return too early. This module has the other
half. `stepsLeft` is the number of steps that the call has still to make once the counter has
reached the deadline: each step of its own takes one off, and an interrupt takes none
(`stepsLeft_step`).

* `timerWait_returns`: behind the deadline the call returns after at most 8 steps of its own,
  in every interleaving, and only `hlt` can keep it from the next one.
* `stopped_after_iff`: `hlt` is executed without another test. So the call can be stopped
  although the deadline is reached, after any number of interrupts, and then it waits for one more.
-/

set_option autoImplicit false

namespace Chuckles.Proofs

open Lib.Run

/-- The number of the steps of the call itself. -/
def mainSteps (acts : List WaitAct) : Nat :=
  acts.countP fun
    | .main => true
    | _ => false

/-- The steps of the call until it returns, when the next test ends the loop. -/
def stepsLeft : WaitPc → Nat
  | .read => 2
  | .test => 1
  | .writeN => 8
  | .writeTicksText => 7
  | .writeTicks => 6
  | .writeEticksText => 5
  | .writeEticks => 4
  | .writeNewline => 3
  | .hlt => 2
  | .halted => 1
  | .returned => 0

/-- There are eight at most. -/
theorem stepsLeft_le (pc : WaitPc) : stepsLeft pc ≤ 8 := by
  cases pc <;> simp [stepsLeft]

/-- The call has returned exactly when it has no step left. -/
theorem stepsLeft_eq_zero_iff (pc : WaitPc) : stepsLeft pc = 0 ↔ pc = .returned := by
  cases pc <;> simp [stepsLeft]

/-- An interrupt leads from `hlt` to the test, and both are one step from the end. -/
theorem stepsLeft_wake (pc : WaitPc) : stepsLeft pc.wake = stepsLeft pc := by
  cases pc <;> rfl

/-! ### One step -/

/-- Nothing but `hlt` and the return keeps the call from its next step. -/
theorem waitMain_enabled (ticks : Int32) {s : WaitSys} (hhalted : s.pc ≠ .halted)
    (hret : s.pc ≠ .returned) : ∃ s', waitMain ticks s = some s' := by
  -- The three numbers on the serial port are the only parts that could fail.
  have hnumber (i : Int32) : ∃ m, serialWrited i s.kernel.kbd.mach = some m := by
    obtain ⟨b, h, -⟩ := serialWrited_spec i s.kernel.kbd.mach
    exact ⟨_, h⟩
  unfold waitMain
  cases hpc : s.pc with
  | writeN =>
      obtain ⟨m, hm⟩ := hnumber s.n
      simp [hm]
  | writeTicks =>
      obtain ⟨m, hm⟩ := hnumber s.kernel.timerTicks.toInt32
      simp [hm]
  | writeEticks =>
      obtain ⟨m, hm⟩ := hnumber s.eticks.toInt32
      simp [hm]
  | halted => exact absurd hpc hhalted
  | returned => exact absurd hpc hret
  | _ => simp

/-- Where a step of the call leads to. -/
theorem waitMain_pc {ticks : Int32} {s s' : WaitSys} (h : waitMain ticks s = some s') :
    s'.pc = (match s.pc with
      | .read => .test
      | .test => if s.kernel.timerTicks < s.eticks then .writeN else .returned
      | .writeN => .writeTicksText
      | .writeTicksText => .writeTicks
      | .writeTicks => .writeEticksText
      | .writeEticksText => .writeEticks
      | .writeEticks => .writeNewline
      | .writeNewline => .hlt
      | .hlt => .halted
      | .halted => .halted
      | .returned => .returned) := by
  unfold waitMain at h
  cases hpc : s.pc with
  | writeN | writeTicks | writeEticks =>
      rw [hpc] at h
      rcases Option.bind_eq_some_iff.mp h with ⟨m, _, hs'⟩
      cases hs'
      rfl
  | halted | returned =>
      rw [hpc] at h
      cases h
  | _ =>
      rw [hpc] at h
      cases h
      rfl

/-- Behind the deadline a step of the call takes one off. -/
theorem stepsLeft_main {ticks : Int32} {s s' : WaitSys} (hread : s.pc ≠ .read)
    (hdone : ¬s.kernel.timerTicks < s.eticks) (h : waitMain ticks s = some s') :
    stepsLeft s'.pc + 1 = stepsLeft s.pc := by
  have hnext := waitMain_pc h
  have henabled : s.pc ≠ .halted ∧ s.pc ≠ .returned := by
    constructor <;> rintro hpc <;> simp [waitMain, hpc] at h
  cases hpc : s.pc with
  | read => exact absurd hpc hread
  | test => simp [hnext, hpc, hdone, stepsLeft]
  | halted => exact absurd hpc henabled.1
  | returned => exact absurd hpc henabled.2
  | _ => simp [hnext, hpc, stepsLeft]

/-- The counter is behind the deadline from the last of the `ticks` interrupts on, until it
wraps. -/
theorem Waiting.done {t₀ ticks c : Nat} {s : WaitSys} (h : Waiting t₀ ticks c s)
    (hticks : ticks ≤ c) (hcounter : t₀ + c < 2 ^ 32) : ¬s.kernel.timerTicks < s.eticks := by
  rw [UInt32.lt_iff_toNat_lt, h.eticks, h.counter, Nat.mod_eq_of_lt hcounter]
  omega

/-- A step is one of the call, or an interrupt, which ends `hlt` at most. -/
theorem waitStep_cases {d : Int32} {a : WaitAct} {s s' : WaitSys}
    (h : waitStep d s a = some s') :
    (a = .main ∧ waitMain d s = some s') ∨ (mainSteps [a] = 0 ∧ s'.pc = s.pc.wake) := by
  cases a with
  | main => exact Or.inl ⟨rfl, h⟩
  | timer =>
      cases h
      exact Or.inr ⟨rfl, rfl⟩
  | other k' =>
      rw [waitStep] at h
      split at h
      · cases h
        exact Or.inr ⟨rfl, rfl⟩
      · cases h

/-- Any step, behind the deadline. -/
theorem stepsLeft_step {t₀ ticks c : Nat} {d : Int32} {a : WaitAct} {s s' : WaitSys}
    (h : Waiting t₀ ticks c s) (hticks : ticks ≤ c) (hcounter : t₀ + c < 2 ^ 32)
    (hstep : waitStep d s a = some s') :
    stepsLeft s'.pc + mainSteps [a] = stepsLeft s.pc := by
  rcases waitStep_cases hstep with ⟨rfl, hmain⟩ | ⟨hnone, hpc⟩
  · exact stepsLeft_main h.started (h.done hticks hcounter) hmain
  · rw [hnone, hpc, stepsLeft_wake, Nat.add_zero]

/-! ### The end of a call -/

/-- The invariant in every state behind the reading. -/
theorem waiting_of_runs {ticks : Int32} {k : Kernel} {acts : List WaitAct} {s : WaitSys}
    (hwrap : k.timerTicks.toNat + ticks.toUInt32.toNat < 2 ^ 32)
    (hruns : Runs (waitStep ticks) Any (.call k) (.main :: acts) s) :
    Waiting k.timerTicks.toNat ticks.toUInt32.toNat (timerInterrupts acts) s := by
  rcases hruns.uncons with ⟨s₁, -, hread, hrest⟩
  exact hrest.invariant_trace (fun acts => Waiting _ _ (timerInterrupts acts))
    (fun acts s a s' h _ hnext => waiting_step h hnext) (waiting_start hwrap hread)

/-- The interrupts of a longer run. -/
theorem timerInterrupts_append (acts acts' : List WaitAct) :
    timerInterrupts (acts ++ acts') = timerInterrupts acts + timerInterrupts acts' :=
  List.countP_append

/-- The steps of a run that goes on behind the deadline. -/
theorem stepsLeft_runs {t₀ ticks : Nat} {d : Int32} {acts acts' : List WaitAct} {s s' : WaitSys}
    (h : Waiting t₀ ticks (timerInterrupts acts) s) (hticks : ticks ≤ timerInterrupts acts)
    (hrest : Runs (waitStep d) Any s acts' s')
    (hcounter : t₀ + timerInterrupts (acts ++ acts') < 2 ^ 32) :
    stepsLeft s'.pc + mainSteps acts' = stepsLeft s.pc := by
  -- The counter has not wrapped at the end, so it has not wrapped before either.
  have hinv := hrest.invariant_trace
    (fun as s' => Waiting t₀ ticks (timerInterrupts (acts ++ as)) s' ∧
      (t₀ + timerInterrupts (acts ++ as) < 2 ^ 32 →
        stepsLeft s'.pc + mainSteps as = stepsLeft s.pc))
    (fun as s₁ a s₂ hs₁ _ hnext => by
      have hwaiting := waiting_step hs₁.1 hnext
      rw [List.append_assoc] at hwaiting
      refine ⟨hwaiting, fun hlt => ?_⟩
      rw [← List.append_assoc, timerInterrupts_append] at hlt
      have hle : ticks ≤ timerInterrupts (acts ++ as) := by
        rw [timerInterrupts_append]
        omega
      have hstep := stepsLeft_step hs₁.1 hle (by omega) hnext
      have hbefore := hs₁.2 (by omega)
      show _ + mainSteps (as ++ [a]) = _
      unfold mainSteps at hstep hbefore ⊢
      rw [List.countP_append]
      omega)
    (by simpa [mainSteps] using h)
  exact hinv.2 hcounter

/-- Once the deadline is reached, the call makes at most 8 steps of its own and returns, in every
interleaving. It can always make the next one, but for `hlt`, which an interrupt ends. -/
theorem timerWait_returns (ticks : Int32) (hticks : 0 ≤ ticks) (k : Kernel)
    {acts acts' : List WaitAct} {s s' : WaitSys}
    (hruns : Runs (waitStep ticks) Any (.call k) (.main :: acts) s)
    (hdone : ticks.toInt ≤ timerInterrupts acts)
    (hrest : Runs (waitStep ticks) Any s acts' s')
    (hcounter : k.timerTicks.toNat + timerInterrupts (acts ++ acts') < 2 ^ 32) :
    mainSteps acts' ≤ 8 ∧
      (s'.pc = .returned ↔ mainSteps acts' = stepsLeft s.pc) ∧
      (s'.pc = .returned ∨ s'.pc = .halted ∨ ∃ s'', waitStep ticks s' .main = some s'') := by
  rw [← toNat_ticks hticks] at hdone
  have hle : ticks.toUInt32.toNat ≤ timerInterrupts acts := Int.ofNat_le.mp hdone
  have hwrap : k.timerTicks.toNat + ticks.toUInt32.toNat < 2 ^ 32 := by
    rw [timerInterrupts_append] at hcounter
    omega
  have hleft := stepsLeft_runs (waiting_of_runs hwrap hruns) hle hrest hcounter
  have hmax := stepsLeft_le s.pc
  refine ⟨by omega, ?_, ?_⟩
  · rw [← stepsLeft_eq_zero_iff]
    omega
  · by_cases hret : s'.pc = .returned
    · exact Or.inl hret
    · by_cases hhalted : s'.pc = .halted
      · exact Or.inr (Or.inl hhalted)
      · exact Or.inr (Or.inr (waitMain_enabled ticks hhalted hret))

/-- One tick from boot: the interrupt comes before the first test, which then ends the call. -/
theorem timerWait_returns_tick :
    ∃ s s' : WaitSys, Runs (waitStep 1) Any (.call (Kernel.boot [])) [.main, .timer] s ∧
      Runs (waitStep 1) Any s [.main] s' ∧ mainSteps [.main] ≤ 8 ∧
      (s'.pc = .returned ↔ mainSteps [.main] = stepsLeft s.pc) ∧
      (s'.pc = .returned ∨ s'.pc = .halted ∨ ∃ s'', waitStep 1 s' .main = some s'') :=
  have hruns : Runs (waitStep 1) Any (.call (Kernel.boot [])) [.main, .timer]
      ⟨timerHandler (Kernel.boot []), .test, 1, 0⟩ := runs_of_exec rfl
  have hrest : Runs (waitStep 1) Any ⟨timerHandler (Kernel.boot []), .test, 1, 0⟩ [.main]
      ⟨timerHandler (Kernel.boot []), .returned, 1, 0⟩ := runs_of_exec rfl
  ⟨_, _, hruns, hrest,
    timerWait_returns 1 (by decide) (Kernel.boot []) hruns (by decide) hrest (by decide)⟩

/-! ### `hlt` without another test -/

/-- A step of the report, and the one that executes `hlt`. -/
theorem waitMain_report {ticks : Int32} {s s' : WaitSys} (hread : s.pc ≠ .read)
    (htest : s.pc ≠ .test) (h : waitMain ticks s = some s') :
    stepsLeft s'.pc + 1 = stepsLeft s.pc ∧ s'.pc ≠ .read ∧ s'.pc ≠ .test := by
  have hnext := waitMain_pc h
  have henabled : s.pc ≠ .halted ∧ s.pc ≠ .returned := by
    constructor <;> rintro hpc <;> simp [waitMain, hpc] at h
  cases hpc : s.pc with
  | read => exact absurd hpc hread
  | test => exact absurd hpc htest
  | halted => exact absurd hpc henabled.1
  | returned => exact absurd hpc henabled.2
  | _ => simp [hnext, hpc, stepsLeft]

/-- From inside the loop to `hlt`, without an interrupt. -/
theorem runs_to_halted (ticks : Int32) (n : Nat) :
    ∀ s : WaitSys, s.pc ≠ .read → s.pc ≠ .test → stepsLeft s.pc = n + 1 →
      ∃ s', Runs (waitStep ticks) Any s (List.replicate n .main) s' ∧ s'.pc = .halted := by
  induction n with
  | zero =>
      intro s hread htest hleft
      refine ⟨s, .start, ?_⟩
      cases hpc : s.pc <;> simp [hpc, stepsLeft] at hread htest hleft ⊢
  | succ n ih =>
      intro s hread htest hleft
      have hhalted : s.pc ≠ .halted := by
        rintro hpc
        simp [hpc, stepsLeft] at hleft
      have hret : s.pc ≠ .returned := by
        rintro hpc
        simp [hpc, stepsLeft] at hleft
      obtain ⟨s₁, hstep⟩ := waitMain_enabled ticks hhalted hret
      obtain ⟨hone, hread₁, htest₁⟩ := waitMain_report hread htest hstep
      obtain ⟨s', hruns, hpc⟩ := ih s₁ hread₁ htest₁ (by omega)
      exact ⟨s', .cons trivial hstep hruns, hpc⟩

/-- Interrupts of the timer in a running call. -/
theorem runs_timers (ticks : Int32) (n : Nat) :
    ∀ s : WaitSys, s.pc ≠ .halted →
      ∃ s', Runs (waitStep ticks) Any s (List.replicate n .timer) s' ∧ s'.pc = s.pc := by
  induction n with
  | zero => exact fun s _ => ⟨s, .start, rfl⟩
  | succ n ih =>
      intro s hhalted
      have hwake : s.pc.wake = s.pc := by
        cases hpc : s.pc with
        | halted => exact absurd hpc hhalted
        | _ => rfl
      obtain ⟨s', hruns, hpc⟩ := ih { s with kernel := timerHandler s.kernel, pc := s.pc.wake }
        (by rwa [hwake])
      exact ⟨s', .cons trivial rfl hruns, by rw [hpc, hwake]⟩

/-- A call with 0 ticks returns from its first test. -/
theorem waiting_zero {t₀ : Nat} {d : Int32} {acts : List WaitAct} {s s' : WaitSys}
    (h : Waiting t₀ 0 0 s) (hpc : s.pc = .test) (hruns : Runs (waitStep d) Any s acts s')
    (hcounter : t₀ + timerInterrupts acts < 2 ^ 32) : s'.pc = .test ∨ s'.pc = .returned := by
  have hinv := hruns.invariant_trace
    (fun as s' => Waiting t₀ 0 (timerInterrupts as) s' ∧
      (t₀ + timerInterrupts as < 2 ^ 32 → s'.pc = .test ∨ s'.pc = .returned))
    (fun as s₁ a s₂ hs₁ _ hnext => by
      refine ⟨waiting_step hs₁.1 hnext, fun hlt => ?_⟩
      rw [timerInterrupts_append] at hlt
      have hdone := hs₁.1.done (Nat.zero_le _) (by omega)
      rcases waitStep_cases hnext with ⟨-, hmain⟩ | ⟨-, hpc₂⟩
      · -- The test ends the loop, and a call that has returned has no step.
        rcases hs₁.2 (by omega) with htest | hret
        · simp [waitMain_pc hmain, htest, hdone]
        · simp [waitMain, hret] at hmain
      · rcases hs₁.2 (by omega) with htest | hret
        · simp [hpc₂, htest, WaitPc.wake]
        · simp [hpc₂, hret, WaitPc.wake])
    ⟨h, fun _ => Or.inl hpc⟩
  exact hinv.2 hcounter

/-- After any number of interrupts, the ones beyond the deadline included, the call can be stopped
by `hlt`. Only a call that has nothing to wait for is never stopped. -/
theorem stopped_after_iff (ticks : Int32) (hticks : 0 ≤ ticks) (k : Kernel) (n : Nat)
    (hwrap : k.timerTicks.toNat + ticks.toInt < 2 ^ 32) (hn : k.timerTicks.toNat + n < 2 ^ 32) :
    (∃ acts s, Runs (waitStep ticks) Any (.call k) (.main :: acts) s ∧
      timerInterrupts acts = n ∧ s.pc = .halted) ↔ ticks ≠ 0 := by
  rw [← toNat_ticks hticks] at hwrap
  constructor
  · rintro ⟨acts, s, hruns, rfl, hpc⟩ rfl
    rcases hruns.uncons with ⟨s₁, -, hread, hrest⟩
    have hstart := waiting_start (by omega) hread
    cases hread
    rcases waiting_zero hstart rfl hrest hn with h | h
    · rw [hpc] at h
      cases h
    · rw [hpc] at h
      cases h
  · intro hne
    have hpos : 0 < ticks.toUInt32.toNat := by
      refine Nat.pos_of_ne_zero fun hzero => hne (Int32.toInt_inj.mp ?_)
      rw [← toNat_ticks hticks, hzero]
      rfl
    -- The reading, the test, the interrupts, and then the report up to `hlt`.
    let s₁ : WaitSys := ⟨k, .writeN, k.timerTicks + ticks.toUInt32, 0⟩
    have htest : k.timerTicks < k.timerTicks + ticks.toUInt32 := by
      rw [UInt32.lt_iff_toNat_lt, UInt32.toNat_add]
      omega
    have hfirst : Runs (waitStep ticks) Any (.call k) [.main, .main] s₁ := by
      refine .cons trivial rfl (.cons trivial ?_ .start)
      show some (⟨k, if k.timerTicks < k.timerTicks + ticks.toUInt32 then .writeN else .returned,
        k.timerTicks + ticks.toUInt32, 0⟩ : WaitSys) = _
      rw [if_pos htest]
    obtain ⟨s₂, htimers, hpc₂⟩ := runs_timers ticks n s₁ nofun
    obtain ⟨s₃, hreport, hpc₃⟩ := runs_to_halted ticks 7 s₂ (by simp [hpc₂, s₁])
      (by simp [hpc₂, s₁]) (by simp [hpc₂, s₁, stepsLeft])
    refine ⟨.main :: (List.replicate n .timer ++ List.replicate 7 .main), s₃,
      hfirst.trans (htimers.trans hreport), ?_, hpc₃⟩
    simp [timerInterrupts, List.countP_replicate]

/-- One tick from boot, and three interrupts. -/
theorem stopped_after_iff_tick :
    (∃ acts s, Runs (waitStep 1) Any (.call (Kernel.boot [])) (.main :: acts) s ∧
      timerInterrupts acts = 3 ∧ s.pc = .halted) ↔ (1 : Int32) ≠ 0 :=
  stopped_after_iff 1 (by decide) (Kernel.boot []) 3 (by decide) (by decide)

end Chuckles.Proofs
