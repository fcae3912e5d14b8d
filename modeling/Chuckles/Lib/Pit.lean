import Chuckles.Lib.PortIo

/-!
# `Chuckles.Lib.Pit`: the channel 0 of a programmable interval timer

A model of the 8254, as far as its channel 0 goes. A control word at the port `base + 3` selects
the mode and how the count is written at the port `base`. With the access of both bytes the low
one comes first, and `low` keeps it until the high one is there.

`Pit.clock` is one cycle of the input clock, and `rises` counts the rising edges of the output. In
mode 3 they are `period` cycles apart, from the moment when the count is there. A count that
replaces another one is used at once. The waves of the other modes, and the channels 1 and 2, are
left out.

`rises_clocks` is the number of edges in any number of cycles, and `rises_clock` says that they are
the edges of the output.
-/

set_option autoImplicit false

namespace Lib.Interval

open Lib.PortIo

/-! ### The device -/

/-- Which bytes of the count are written. -/
inductive Access where
  | low
  | high
  | both
  deriving DecidableEq

/-- The channel: what was written to it, the cycles since the last edge, and the edges. -/
structure Pit where
  access : Access
  mode : UInt8
  bcd : Bool
  low : Option UInt8
  reload : Option UInt16
  left : Nat
  rises : Nat
  deriving DecidableEq

/-- The mode 3. The highest of the three bits does not matter. -/
def Pit.Square (t : Pit) : Prop := t.mode &&& 3 = 3

instance (t : Pit) : Decidable t.Square := inferInstanceAs (Decidable (_ = _))

/-- A control word. The words for the other channels, the one that latches the count, and the one
for reading back change nothing here. -/
def Pit.control (t : Pit) (value : UInt8) : Pit :=
  if value >>> 6 ≠ 0 then t
  else
    let set (access : Access) : Pit :=
      { t with
        access := access
        mode := value >>> 1 &&& 7
        bcd := value &&& 1 ≠ 0
        low := none
        reload := none
        left := 0 }
    if value >>> 4 &&& 3 = 1 then set .low
    else if value >>> 4 &&& 3 = 2 then set .high
    else if value >>> 4 &&& 3 = 3 then set .both
    else t

/-- A byte of the count. -/
def Pit.data (t : Pit) (value : UInt8) : Pit :=
  match t.access, t.low with
  | .low, _ => { t with reload := some value.toUInt16 }
  | .high, _ => { t with reload := some (value.toUInt16 <<< 8) }
  | .both, none => { t with low := some value }
  | .both, some low =>
    { t with low := none, reload := some (value.toUInt16 <<< 8 ||| low.toUInt16) }

/-- The cycles of the input clock between two rising edges, in binary counting. The count 0 is
65536, and the mode does not allow the count 1. -/
def Pit.period (t : Pit) : Option Nat :=
  match t.reload with
  | none => none
  | some n =>
    if t.bcd = true ∨ ¬t.Square ∨ n = 1 then none
    else some (if n = 0 then 65536 else n.toNat)

/-- One cycle of the input clock. -/
def Pit.clock (t : Pit) : Pit :=
  match t.period with
  | none => t
  | some p =>
    if p ≤ t.left + 1 then { t with left := 0, rises := t.rises + 1 }
    else { t with left := t.left + 1 }

/-- Several cycles. -/
def Pit.clocks : Nat → Pit → Pit
  | 0, t => t
  | n + 1, t => Pit.clocks n t.clock

/-- The output: high in the first half of the period, which is the longer one. -/
def Pit.out (t : Pit) : Bool :=
  match t.period with
  | none => true
  | some p => t.left < (p + 1) / 2

/-- The device at the port `base`. A read gives any answer. -/
def pitStep {ν : Type} (base : UInt16) (t : Pit) : Event ν ⊕ Unit → Option Pit
  | .inl (.outb port value) =>
    if port = base + 3 then some (t.control value)
    else if port = base then some (t.data value)
    else some t
  | .inl _ => some t
  | .inr () => some t.clock

/-! ### Cycles -/

section
variable {t : Pit}

/-- A cycle changes nothing that was written. -/
theorem clock_cases (t : Pit) :
    ∃ left rises, t.clock = { t with left := left, rises := rises } := by
  unfold Pit.clock
  split
  · exact ⟨t.left, t.rises, rfl⟩
  · split
    · exact ⟨_, _, rfl⟩
    · exact ⟨_, _, rfl⟩

/-- A cycle leaves the period. -/
theorem clock_period (t : Pit) : t.clock.period = t.period := by
  obtain ⟨left, rises, h⟩ := clock_cases t
  rw [h]
  rfl

/-- The mode does not allow the count 1. -/
theorem two_le_period {p : Nat} (h : t.period = some p) : 2 ≤ p := by
  unfold Pit.period at h
  split at h
  · cases h
  · rename_i n _
    split at h
    · cases h
    · rename_i hallowed
      cases h
      split
      · decide
      · rename_i hzero
        have hne : n.toNat ≠ 0 := fun h => hzero (UInt16.toNat_inj.mp h)
        have hone : n.toNat ≠ 1 := fun h => hallowed (.inr (.inr (UInt16.toNat_inj.mp h)))
        omega

/-- So there is at least one cycle in a period. -/
theorem period_pos {p : Nat} (h : t.period = some p) : 0 < p :=
  Nat.lt_of_lt_of_le (by decide) (two_le_period h)

/-- A channel that does not run. -/
theorem clock_of_none (h : t.period = none) : t.clock = t := by
  unfold Pit.clock
  rw [h]

/-- A cycle of a channel that runs. -/
theorem clock_of_some {p : Nat} (h : t.period = some p) :
    t.clock = if p ≤ t.left + 1 then { t with left := 0, rises := t.rises + 1 }
      else { t with left := t.left + 1 } := by
  unfold Pit.clock
  rw [h]

/-- The output is high in the first half of the period. -/
theorem out_of_some {p : Nat} (h : t.period = some p) : t.out = decide (t.left < (p + 1) / 2) := by
  unfold Pit.out
  rw [h]

/-- The edges that are counted are the rising edges of the output. -/
theorem rises_clock {p : Nat} (h : t.period = some p) (hleft : t.left < p) :
    t.clock.rises = t.rises + (t.clock.out && !t.out).toNat := by
  have htwo := two_le_period h
  have hout' := out_of_some ((clock_period t).trans h)
  rw [out_of_some h, hout', clock_of_some h]
  by_cases hedge : p ≤ t.left + 1
  · have hlow : ¬t.left < (p + 1) / 2 := by omega
    have hhigh : 0 < (p + 1) / 2 := by omega
    rw [if_pos hedge]
    simp [hlow, hhigh]
  · rw [if_neg hedge]
    by_cases hhigh : t.left + 1 < (p + 1) / 2
    · have hbefore : t.left < (p + 1) / 2 := by omega
      simp [hbefore]
    · simp [hhigh]

/-- One cycle more, at the end. -/
theorem clocks_succ (n : Nat) : ∀ t : Pit, t.clocks (n + 1) = (t.clocks n).clock := by
  induction n with
  | zero => exact fun _ => rfl
  | succ n ih => exact fun t => ih t.clock

/-- The cycles since the last edge stay below the period. -/
theorem left_clock_lt {p : Nat} (h : t.period = some p) (hleft : t.left < p) :
    t.clock.left < p := by
  rw [clock_of_some h]
  split
  · exact Nat.lt_of_le_of_lt (Nat.zero_le t.left) hleft
  · rename_i hedge
    exact Nat.lt_of_not_le hedge

/-- Without a wave there are no edges. -/
theorem rises_clocks_of_none (h : t.period = none) (n : Nat) : (t.clocks n).rises = t.rises := by
  have hclock := clock_of_none h
  induction n with
  | zero => rfl
  | succ n ih =>
      show (Pit.clocks n t.clock).rises = _
      rw [hclock]
      exact ih

/-- The edges of the wave in any number of cycles. -/
theorem rises_clocks {p : Nat} (n : Nat) :
    ∀ {t : Pit}, t.period = some p → t.left < p →
      (t.clocks n).rises = t.rises + (t.left + n) / p := by
  induction n with
  | zero =>
      intro t _ hleft
      rw [Nat.add_zero, Nat.div_eq_of_lt hleft]
      rfl
  | succ n ih =>
      intro t hperiod hleft
      have hpos : 0 < p := Nat.lt_of_le_of_lt (Nat.zero_le _) hleft
      have hclock := clock_of_some hperiod
      show (Pit.clocks n t.clock).rises = _
      by_cases hedge : p ≤ t.left + 1
      · rw [hclock, if_pos hedge, ih (by exact hperiod) hpos]
        -- The edge ends a period.
        have hsum : t.left + (n + 1) = n + p := by omega
        rw [hsum, Nat.add_div_right n hpos]
        show t.rises + 1 + (0 + n) / p = _
        rw [Nat.zero_add]
        omega
      · have hnext : t.left + 1 < p := Nat.lt_of_not_le hedge
        rw [hclock, if_neg hedge, ih (by exact hperiod) hnext]
        show t.rises + (t.left + 1 + n) / p = _
        rw [Nat.add_right_comm, Nat.add_assoc]

/-- The number of edges shows the period. -/
theorem eq_period_of_rises {p q : Nat} (hperiod : t.period = some p) (hleft : t.left < p)
    (h : ∀ n, (t.clocks n).rises = t.rises + (t.left + n) / q) : q = p := by
  have hpos := period_pos hperiod
  have hrises : ∀ n, (t.left + n) / p = (t.left + n) / q := by
    intro n
    have hn := h n
    rw [rises_clocks n hperiod hleft] at hn
    exact Nat.add_left_cancel hn
  have hq : 0 < q := by
    refine Nat.pos_of_ne_zero fun hzero => ?_
    have hp := hrises p
    rw [hzero, Nat.div_zero, Nat.add_div_right _ hpos] at hp
    exact Nat.succ_ne_zero _ hp
  -- No edge is due now, for either period, and after `p * q` cycles both have counted on.
  have hstart := hrises 0
  rw [Nat.add_zero, Nat.div_eq_of_lt hleft] at hstart
  have hp := hrises (p * q)
  rw [Nat.add_mul_div_left _ _ hpos, Nat.add_mul_div_right _ _ hq, Nat.div_eq_of_lt hleft,
    ← hstart] at hp
  omega

/-- And that there is none. -/
theorem zero_of_rises {q : Nat} (hperiod : t.period = none)
    (h : ∀ n, (t.clocks n).rises = t.rises + (t.left + n) / q) : q = 0 := by
  have hq := h q
  rw [rises_clocks_of_none hperiod] at hq
  have hzero : (t.left + q) / q = 0 := (Nat.left_eq_add.mp hq)
  rcases Nat.eq_zero_or_pos q with hq | hq
  · exact hq
  · rw [Nat.add_div_right _ hq] at hzero
    exact absurd hzero (Nat.succ_ne_zero _)

end
end Lib.Interval
