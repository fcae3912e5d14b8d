import Chuckles.Kernel.Timer

/-!
# `Chuckles.Proofs.Timer`: the timer's two counters

`timer_ticks` is a 32-bit counter that wraps. `timer_wait` compares it with a deadline that
wraps too, and `seconds` advances when it is a multiple of 100. Both results hold until
the wrap enters.

* `timerWait_not_early_iff`: `timer_wait` waits for `ticks` interrupts in every interleaving
  exactly when its deadline does not wrap. `waiting_step` is the invariant, which counts the
  interrupts since the reading.
* `seconds_exact_iff`: after `n` interrupts `seconds` is `n / 100` exactly when four times
  the number of wraps is at most the last two digits of the counter. A cycle of the counter
  has `2^32` interrupts, which are 4 less than the 42949673 multiples of 100 in it ask for.
-/

set_option autoImplicit false

namespace Chuckles.Proofs

open Lib.Run

/-! ### `timer_wait` -/

/-- The promise of one call: it returns after at least `ticks` runs of `timer_handler`. The
first step is the reading of the counter, which is `k.timerTicks` there. -/
def NeverEarly (ticks : Int32) (k : Kernel) : Prop :=
  ∀ acts s, Runs (waitStep ticks) Any (.call k) (.main :: acts) s → s.pc = .returned →
    ticks.toInt ≤ timerInterrupts acts

/-- The invariant after the reading of the counter, which was `t₀`, and `c` interrupts. -/
structure Waiting (t₀ ticks c : Nat) (s : WaitSys) : Prop where
  eticks : s.eticks.toNat = t₀ + ticks
  counter : s.kernel.timerTicks.toNat = (t₀ + c) % 2 ^ 32
  started : s.pc ≠ .read
  late : s.pc = .returned → ticks ≤ c

/-- A deadline that does not wrap is reached after `ticks` interrupts at the earliest. -/
theorem Waiting.reached {t₀ ticks c : Nat} {s : WaitSys} (h : Waiting t₀ ticks c s)
    (hlt : ¬s.kernel.timerTicks < s.eticks) : ticks ≤ c := by
  rw [UInt32.lt_iff_toNat_lt, h.eticks, h.counter] at hlt
  have hmod := Nat.mod_le (t₀ + c) (2 ^ 32)
  omega

/-- Every step keeps the invariant. -/
theorem waiting_step {t₀ ticks : Nat} {d : Int32} {acts : List WaitAct} {a : WaitAct}
    {s s' : WaitSys} (h : Waiting t₀ ticks (timerInterrupts acts) s)
    (hstep : waitStep d s a = some s') :
    Waiting t₀ ticks (timerInterrupts (acts ++ [a])) s' := by
  unfold timerInterrupts
  rw [List.countP_append]
  -- An interrupt that ends `hlt` leads to the test, never to the reading or the return.
  have hwake : s.pc.wake ≠ .read ∧ (s.pc.wake = .returned → s.pc = .returned) := by
    have hne := h.started
    cases hpc : s.pc with
    | read => exact absurd hpc hne
    | halted => exact ⟨nofun, nofun⟩
    | _ => exact ⟨nofun, id⟩
  cases a with
  | main =>
    rcases waitMain_cases h.started hstep with ⟨hticks, heticks, hread, hret⟩
    exact ⟨heticks ▸ h.eticks, hticks ▸ h.counter, hread, fun hpc => h.reached (hret hpc)⟩
  | timer =>
    cases hstep
    refine ⟨h.eticks, ?_, hwake.1, fun hpc => ?_⟩
    · show (timerHandler s.kernel).timerTicks.toNat = _
      rw [timerHandler_timerTicks, UInt32.toNat_add, h.counter]
      -- The count of the trace grows with the counter, modulo the wrap.
      show (_ + 1) % 2 ^ 32 = (t₀ + (timerInterrupts acts + 1)) % 2 ^ 32
      omega
    · exact Nat.le_add_right_of_le (h.late (hwake.2 hpc))
  | other k' =>
    rw [waitStep] at hstep
    split at hstep
    · rename_i hticks
      cases hstep
      refine ⟨h.eticks, ?_, hwake.1, fun hpc => h.late (hwake.2 hpc)⟩
      show k'.timerTicks.toNat = _
      rw [hticks]
      exact h.counter
    · cases hstep

/-- A nonnegative argument as an unsigned number. -/
theorem toNat_ticks {ticks : Int32} (hticks : 0 ≤ ticks) :
    (ticks.toUInt32.toNat : Int) = ticks.toInt := by
  rw [Int32.toNat_toUInt32_of_le hticks]
  exact Int.toNat_of_nonneg (Int32.le_iff_toInt_le.mp hticks)

/-- The state after the reading. -/
theorem waiting_start {ticks : Int32} {k : Kernel} {s : WaitSys}
    (hwrap : k.timerTicks.toNat + ticks.toUInt32.toNat < 2 ^ 32)
    (hstep : waitStep ticks (.call k) .main = some s) :
    Waiting k.timerTicks.toNat ticks.toUInt32.toNat 0 s := by
  cases hstep
  refine ⟨?_, ?_, nofun, nofun⟩
  · show (k.timerTicks + ticks.toUInt32).toNat = _
    rw [UInt32.toNat_add, Nat.mod_eq_of_lt hwrap]
  · exact (Nat.mod_eq_of_lt k.timerTicks.toNat_lt).symm

/-- A deadline that has wrapped is below the counter, so the first test ends the call. -/
theorem returns_at_once (ticks : Int32) (k : Kernel)
    (hwrap : 2 ^ 32 ≤ k.timerTicks.toNat + ticks.toUInt32.toNat) :
    Runs (waitStep ticks) Any (.call k) [.main, .main]
      ⟨k, .returned, k.timerTicks + ticks.toUInt32, 0⟩ := by
  have htest : ¬k.timerTicks < k.timerTicks + ticks.toUInt32 := by
    rw [UInt32.lt_iff_toNat_lt, UInt32.toNat_add]
    have h₁ := k.timerTicks.toNat_lt
    have h₂ := ticks.toUInt32.toNat_lt
    omega
  refine .cons trivial rfl (.cons trivial ?_ .start)
  show some (⟨k, if k.timerTicks < k.timerTicks + ticks.toUInt32 then .writeN else .returned,
    k.timerTicks + ticks.toUInt32, 0⟩ : WaitSys) = _
  rw [if_neg htest]

/-- `timer_wait` never returns early, in any interleaving, exactly when the deadline does not
wrap. -/
theorem timerWait_not_early_iff (ticks : Int32) (hticks : 0 ≤ ticks) (k : Kernel) :
    NeverEarly ticks k ↔ k.timerTicks.toNat + ticks.toInt < 2 ^ 32 := by
  rw [← toNat_ticks hticks]
  constructor
  · intro h
    refine Decidable.byContradiction fun hwrap => ?_
    have hle : 2 ^ 32 ≤ k.timerTicks.toNat + ticks.toUInt32.toNat := by omega
    -- In the run without interrupts the trace counts none, so `ticks` would be 0.
    have hzero : ticks.toInt ≤ 0 := h [.main] _ (returns_at_once ticks k hle) rfl
    rw [← toNat_ticks hticks] at hzero
    have hlt := k.timerTicks.toNat_lt
    omega
  · intro hwrap acts s hruns hret
    -- The first step is the reading. The invariant carries the rest of the run.
    rcases hruns.uncons with ⟨s₁, -, hread, hrest⟩
    have hstart := waiting_start (by omega) hread
    have hinv := hrest.invariant_trace (fun acts => Waiting _ _ (timerInterrupts acts))
      (fun acts s a s' h _ hnext => waiting_step h hnext) hstart
    rw [← toNat_ticks hticks]
    exact Int.ofNat_le.mpr (hinv.late hret)

/-- A second at boot. -/
theorem timerWait_not_early_boot :
    (0 : Int32) ≤ 100 ∧ (NeverEarly 100 (Kernel.boot []) ↔
      (Kernel.boot []).timerTicks.toNat + (100 : Int32).toInt < 2 ^ 32) :=
  ⟨by decide, timerWait_not_early_iff 100 (by decide) (Kernel.boot [])⟩

/-- One tick, with the counter at its largest value: the call returns without an interrupt. -/
theorem timerWait_early_at_wrap :
    ¬∀ (ticks : Int32), 0 ≤ ticks → ∀ k : Kernel, NeverEarly ticks k := by
  intro h
  have hruns := returns_at_once 1 { Kernel.boot [] with timerTicks := 0xFFFFFFFF } (by decide)
  have hearly : (1 : Int32).toInt ≤ 0 := h 1 (by decide) _ [.main] _ hruns rfl
  revert hearly
  decide

/-! ### `seconds` -/

/-- The number of seconds that `n` interrupts count: the multiples of 100 that the counter
has passed. A cycle of the counter passes 42949673 of them, with 0. -/
def secondsCounted (n : Nat) : Nat := n / 2 ^ 32 * 42949673 + n % 2 ^ 32 / 100

/-- One more interrupt. -/
theorem secondsCounted_succ (n : Nat) :
    secondsCounted (n + 1)
      = if (n + 1) % 2 ^ 32 % 100 = 0 then secondsCounted n + 1 else secondsCounted n := by
  unfold secondsCounted
  split
  · omega
  · omega

/-- The two counters after `n` interrupts, from any kernel where they are 0. -/
theorem timerHandler_iterate (k : Kernel) (hticks : k.timerTicks = 0) (hseconds : k.seconds = 0)
    (n : Nat) :
    (timerHandler^[n] k).timerTicks = UInt32.ofNat n ∧
      (timerHandler^[n] k).seconds = Int32.ofNat (secondsCounted n) := by
  induction n with
  | zero => exact ⟨hticks, hseconds⟩
  | succ n ih =>
    rw [Function.iterate_succ_apply', timerHandler_timerTicks, timerHandler_seconds, ih.1, ih.2,
      secondsCounted_succ]
    have hnext : UInt32.ofNat n + 1 = UInt32.ofNat (n + 1) := by
      rw [UInt32.ofNat_add]
      rfl
    -- The test of the handler is about the counter, the one of the count about `n`.
    have hmod : UInt32.ofNat (n + 1) % 100 = 0 ↔ (n + 1) % 2 ^ 32 % 100 = 0 := by
      rw [← UInt32.toNat_inj, UInt32.toNat_mod, UInt32.toNat_ofNat]
      rfl
    rw [hnext]
    refine ⟨rfl, ?_⟩
    by_cases hzero : (n + 1) % 2 ^ 32 % 100 = 0
    · rw [if_pos (hmod.mpr hzero), if_pos hzero, Int32.ofNat_add]
      rfl
    · rw [if_neg (fun h => hzero (hmod.mp h)), if_neg hzero]

/-- The count against the quotient. Each wrap loses 4 interrupts of its last second. -/
theorem secondsCounted_eq_iff (n : Nat) :
    secondsCounted n = n / 100 ↔ 4 * (n / 2 ^ 32) ≤ n % 2 ^ 32 % 100 := by
  unfold secondsCounted
  omega

/-- The count is never behind, and it stays below `2^32` as long as the quotient fits. -/
theorem secondsCounted_lt {n : Nat} (hn : n / 100 < 2 ^ 31) :
    n / 100 ≤ secondsCounted n ∧ secondsCounted n < 2 ^ 32 := by
  unfold secondsCounted
  omega

/-- `seconds` after `n` interrupts from 0, as long as the quotient fits its type. -/
theorem seconds_exact_iff (k : Kernel) (hticks : k.timerTicks = 0) (hseconds : k.seconds = 0)
    (n : Nat) (hn : n / 100 < 2 ^ 31) :
    (timerHandler^[n] k).seconds.toInt = (n / 100 : Nat) ↔
      4 * (n / 2 ^ 32) ≤ n % 2 ^ 32 % 100 := by
  rw [← secondsCounted_eq_iff, (timerHandler_iterate k hticks hseconds n).2,
    Int32.toInt_ofNat']
  rcases secondsCounted_lt hn with ⟨hle, hlt⟩
  -- A count past `2^31` reads as a negative number, and is not the quotient either.
  rw [Int.bmod_def, show Int32.size = 2 ^ 32 from rfl]
  split
  · omega
  · omega

/-- The first hour. -/
theorem seconds_exact_hour :
    (timerHandler^[360000] (Kernel.boot [])).seconds.toInt = (360000 / 100 : Nat) ↔
      4 * (360000 / 2 ^ 32) ≤ 360000 % 2 ^ 32 % 100 :=
  seconds_exact_iff (Kernel.boot []) rfl rfl 360000 (by decide)

/-- At the first wrap `seconds` advances 4 interrupts too early. -/
theorem seconds_ahead_at_wrap :
    ¬∀ n : Nat, n / 100 < 2 ^ 31 →
      (timerHandler^[n] (Kernel.boot [])).seconds.toInt = (n / 100 : Nat) := by
  intro h
  have hwrap := h (2 ^ 32) (by decide)
  rw [(timerHandler_iterate (Kernel.boot []) rfl rfl _).2] at hwrap
  revert hwrap
  decide

end Chuckles.Proofs
