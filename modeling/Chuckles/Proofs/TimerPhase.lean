import Chuckles.Kernel.Timer
import Chuckles.Lib.Segment

/-!
# `Chuckles.Proofs.TimerPhase`: which rates the timer gets

`timer_phase` programs the channel 0 from any state, also when the low byte of an older count was
there already. The count has 16 bits, so the rate is right for some arguments only, and
`timer_rate_iff` says which.
-/

set_option autoImplicit false

namespace Chuckles.Proofs

open Lib Lib.Run Lib.PortIo Lib.Interval

/-! ### The count -/

/-- The two bytes are the lower half of the divisor. -/
theorem divisor_bytes (d : Int32) :
    (d >>> 8).toUInt32.toUInt8.toUInt16 <<< 8 ||| (d &&& 0xFF).toUInt32.toUInt8.toUInt16
      = d.toUInt32.toUInt16 := by
  apply UInt16.toBitVec_inj.mp
  apply BitVec.eq_of_getLsbD_eq
  intro i hi
  have hmask (k : Nat) : (0xFF#32).getLsbD k = decide (0 ≤ k ∧ k < 8) :=
    getLsbD_of_range 0 8 (by decide) (by decide) k
  show ((((d.toBitVec.sshiftRight 8).setWidth 8).setWidth 16 <<< 8) |||
    (((d.toBitVec &&& 0xFF#32).setWidth 8).setWidth 16)).getLsbD i
      = (d.toBitVec.setWidth 16).getLsbD i
  simp only [BitVec.getLsbD_or, BitVec.getLsbD_shiftLeft, BitVec.getLsbD_setWidth,
    BitVec.getLsbD_and, BitVec.getLsbD_sshiftRight, hmask]
  grind

/-- The divisor of a positive rate. -/
theorem toNat_timerDivisor {hz : Int32} (h : 0 < hz.toInt) :
    (timerDivisor hz).toUInt32.toNat = 1193180 / hz.toInt.toNat := by
  have hcast : (hz.toInt.toNat : Int) = hz.toInt := Int.toNat_of_nonneg (Int.le_of_lt h)
  have hdiv : (timerDivisor hz).toInt = ((1193180 / hz.toInt.toNat : Nat) : Int) := by
    rw [timerDivisor, Int32.toInt_div_of_ne_left _ _ (by decide), ← hcast]
    rfl
  have hcond := BitVec.toInt_eq_toNat_cond (timerDivisor hz).toBitVec
  have hInt : (timerDivisor hz).toInt = (timerDivisor hz).toBitVec.toInt := rfl
  have hNat : (timerDivisor hz).toUInt32.toNat = (timerDivisor hz).toBitVec.toNat := rfl
  generalize 1193180 / hz.toInt.toNat = q at hdiv ⊢
  split at hcond
  · omega
  · omega

/-! ### The channel -/

/-- What `timer_phase` has written. -/
def programmed (low : Option UInt8) (reload : Option UInt16) : Pit :=
  ⟨.both, 3, false, low, reload, 0, 0⟩

/-- The channel while it is programmed, and when it runs. -/
structure Programmed (w t : Pit) : Prop where
  written : { t with left := 0, rises := 0 } = w
  idle : t.reload = none → t.left = 0
  left : ∀ p, t.period = some p → t.left < p

/-- The cycles of the input clock. -/
theorem stable_programmed {ν : Type} (w : Pit) :
    Stable (pitStep 0x40 : Pit → Event ν ⊕ Unit → Option Pit) Any (Programmed w) := by
  rintro t d t' h - ⟨⟩
  cases hperiod : t.period with
  | none =>
      rw [clock_of_none hperiod]
      exact h
  | some p =>
      have hsame := clock_period t
      have hlt := left_clock_lt hperiod (h.left p hperiod)
      have hreload : t.reload ≠ none := by
        intro hnone
        rw [Pit.period, hnone] at hperiod
        cases hperiod
      obtain ⟨left, rises, hclock⟩ := clock_cases t
      refine ⟨?_, ?_, fun p' hp' => ?_⟩
      · rw [hclock]
        exact h.written
      · rw [hclock]
        exact fun hnone => absurd hnone hreload
      · rw [hsame, hperiod] at hp'
        cases hp'
        exact hlt

/-- The count that is in use after `timer_phase`. -/
def timerCount (hz : Int32) : UInt16 := (timerDivisor hz).toUInt32.toUInt16

/-- From any state of the channel. -/
theorem timerPhase_spec {ν : Type} {hz : Int32} {m : Prog ν Unit} (h : timerPhase hz = some m) :
    Triple (pitStep 0x40 : Pit → Event ν ⊕ Unit → Option Pit) Any (fun _ => True) m
      (fun _ => Programmed (programmed none (some (timerCount hz)))) fun _ => False := by
  unfold timerPhase at h
  split at h
  · cases h
  · cases h
    refine Triple.bind (Q := fun _ => Programmed (programmed none none)) (Triple.outb
      (fun _ _ _ _ _ _ => trivial) (stable_programmed _) ?_) fun _ => ?_
    · rintro t t' - - ⟨⟩
      exact ⟨rfl, fun _ => rfl, nofun⟩
    let low := (timerDivisor hz &&& 0xFF).toUInt32.toUInt8
    refine Triple.bind (Q := fun _ => Programmed (programmed (some low) none)) (Triple.outb
      (stable_programmed _) (stable_programmed _) ?_) fun _ => ?_
    · rintro t t' ht - ⟨⟩
      obtain ⟨access, mode, bcd, low', reload, left, rises⟩ := t
      obtain ⟨hwritten, hidle, -⟩ := ht
      cases hwritten
      cases hidle rfl
      exact ⟨rfl, fun _ => rfl, nofun⟩
    · refine Triple.outb (stable_programmed _) (stable_programmed _) ?_
      rintro t t' ht - ⟨⟩
      obtain ⟨access, mode, bcd, low', reload, left, rises⟩ := t
      obtain ⟨hwritten, hidle, -⟩ := ht
      cases hwritten
      cases hidle rfl
      have hcount := divisor_bytes (timerDivisor hz)
      refine ⟨congrArg (fun n => programmed none (some n)) hcount, nofun, fun p hp => ?_⟩
      exact period_pos hp

/-! ### The rate -/

/-- The wave for a positive rate. -/
theorem Programmed.period {hz : Int32} {t : Pit} (hhz : 0 < hz.toInt)
    (h : Programmed (programmed none (some (timerCount hz))) t) :
    t.period = if 1193180 / hz.toInt.toNat % 65536 = 1 then none
      else some (if 1193180 / hz.toInt.toNat % 65536 = 0 then 65536
        else 1193180 / hz.toInt.toNat % 65536) := by
  have hcount : (timerCount hz).toNat = 1193180 / hz.toInt.toNat % 65536 := by
    rw [timerCount, UInt32.toNat_toUInt16, toNat_timerDivisor hhz]
  have hone : timerCount hz = 1 ↔ (timerCount hz).toNat = 1 := UInt16.toNat_inj.symm
  have hzero : timerCount hz = 0 ↔ (timerCount hz).toNat = 0 := UInt16.toNat_inj.symm
  have hperiod : (programmed none (some (timerCount hz))).period
      = if timerCount hz = 1 then none
        else some (if timerCount hz = 0 then 65536 else (timerCount hz).toNat) := by
    simp [Pit.period, programmed, Pit.Square]
  rw [← h.written] at hperiod
  simp only [hone, hzero, hcount] at hperiod
  exact hperiod

/-- `timer_phase` divides by zero for this argument only. -/
theorem timerPhase_eq_none_iff {ν : Type} (hz : Int32) :
    (timerPhase hz : Option (Prog ν Unit)) = none ↔ hz = 0 := by
  unfold timerPhase
  by_cases h : hz = 0
  · simp [h]
  · simp [h]

/-- The rates of the channel behind `timer_phase`. -/
theorem rises_iff_of_timerPhase {ν : Type} {hz : Int32} {m : Prog ν Unit}
    (h : timerPhase hz = some m) {as : List UInt8} {t t' : Pit}
    (hrun : Beside (pitStep 0x40 : Pit → Event ν ⊕ Unit → Option Pit) Any m as t t') :
    (0 < hz.toInt ∧ ∀ n, (t'.clocks n).rises
      = t'.rises + (t'.left + n) / (1193180 / hz.toInt.toNat)) ↔
      19 ≤ hz.toInt ∧ hz.toInt ≤ 596590 := by
  have hdone : Programmed (programmed none (some (timerCount hz))) t' := by
    obtain ⟨hreturns, hwaits⟩ := timerPhase_spec h as t t' trivial hrun
    cases hresult : (m.run as).result with
    | none => exact (hwaits hresult).elim
    | some r => exact hreturns r.1 r.2 hresult
  constructor
  · rintro ⟨hhz, hrises⟩
    have hperiod := hdone.period hhz
    split at hperiod
    · rename_i hone
      rw [zero_of_rises hperiod hrises] at hone
      cases hone
    · -- The divisor is the count that is in use, so it fits.
      have hq := eq_period_of_rises hperiod (hdone.left _ hperiod) hrises
      have hone : 2 ≤ 1193180 / hz.toInt.toNat := by
        split at hq
        · omega
        · omega
      have hmax : 1193180 / hz.toInt.toNat ≤ 65536 := by
        split at hq
        · omega
        · omega
      have hpos : 0 < hz.toInt.toNat := by omega
      rw [Nat.le_div_iff_mul_le hpos] at hone
      have hlow : ¬hz.toInt.toNat ≤ 18 := by
        intro hle
        have hdiv : 1193180 / 18 ≤ 1193180 / hz.toInt.toNat := Nat.div_le_div_left hle hpos
        omega
      omega
  · rintro ⟨hlow, hhigh⟩
    have hhz : 0 < hz.toInt := by omega
    have hpos : 0 < hz.toInt.toNat := by omega
    have hmin : 2 ≤ 1193180 / hz.toInt.toNat := (Nat.le_div_iff_mul_le hpos).mpr (by omega)
    have hmax : 1193180 / hz.toInt.toNat ≤ 1193180 / 19 :=
      Nat.div_le_div_left (by omega) (by decide)
    have hmod : 1193180 / hz.toInt.toNat % 65536 = 1193180 / hz.toInt.toNat :=
      Nat.mod_eq_of_lt (by omega)
    have hperiod := hdone.period hhz
    rw [hmod, if_neg (by omega), if_neg (by omega)] at hperiod
    exact ⟨hhz, fun n => rises_clocks n hperiod (hdone.left _ hperiod)⟩

/-- The output rises once for every `1193180 / hz` cycles of the input clock, from every state of
the channel and for any number of cycles, exactly for these rates. For 0 nothing is written: the
division fails. -/
theorem timer_rate_iff {ν : Type} (hz : Int32) :
    ((timerPhase hz : Option (Prog ν Unit)) = none ↔ hz = 0) ∧
    ∀ m : Prog ν Unit, timerPhase hz = some m → ∀ as t t',
      Beside (pitStep 0x40 : Pit → Event ν ⊕ Unit → Option Pit) Any m as t t' →
        ((0 < hz.toInt ∧ ∀ n, (t'.clocks n).rises
          = t'.rises + (t'.left + n) / (1193180 / hz.toInt.toNat)) ↔
          19 ≤ hz.toInt ∧ hz.toInt ≤ 596590) :=
  ⟨timerPhase_eq_none_iff hz, fun _ h _ _ _ hrun => rises_iff_of_timerPhase h hrun⟩

/-- The rate of `timer_install`, on a channel that had the low byte of a count already. -/
theorem timer_rate_iff_install :
    ∃ m : Prog Empty Unit, timerPhase 100 = some m ∧
      ∃ t' : Pit, Beside (pitStep 0x40) Any m [] ⟨.both, 0, true, some 0x12, some 7, 3, 40⟩ t' ∧
        0 < (100 : Int32).toInt ∧ ∀ n, (t'.clocks n).rises
          = t'.rises + (t'.left + n) / (1193180 / (100 : Int32).toInt.toNat) := by
  obtain ⟨m, hm⟩ : ∃ m : Prog Empty Unit, timerPhase 100 = some m := ⟨_, rfl⟩
  have hrun : Beside (pitStep 0x40 : Pit → Event Empty ⊕ Unit → Option Pit) Any m []
      ⟨.both, 0, true, some 0x12, some 7, 3, 40⟩ ⟨.both, 3, false, none, some 11931, 0, 40⟩ := by
    cases hm
    let writes : List (Event Empty ⊕ Unit) :=
      [.inl (.outb 0x43 0x36), .inl (.outb 0x40 0x9B), .inl (.outb 0x40 0x2E)]
    have hexec : exec (pitStep 0x40) Any ⟨.both, 0, true, some 0x12, some 7, 3, 40⟩ writes
        = some ⟨.both, 3, false, none, some 11931, 0, 40⟩ := by decide
    exact ⟨writes, runs_of_exec hexec, rfl⟩
  exact ⟨m, hm, _, hrun, ((timer_rate_iff 100).2 m hm [] _ _ hrun).mpr (by decide)⟩

end Chuckles.Proofs
