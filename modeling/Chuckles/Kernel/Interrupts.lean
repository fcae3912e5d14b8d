import Chuckles.Kernel.Dispatch
import Chuckles.Kernel.Pic

/-!
# `Chuckles.Kernel.Interrupts`: devices, controllers, processor and kernel together

The system behind `sti`. Devices drive the interrupt lines whenever they like, and the keyboard
controller receives bytes. The two controllers ask the processor, which acknowledges in two pulses
and runs the stub of the vector that it reads, with interrupts off. `irq_handler` is cut into its
actions (`irqActs`), and a device may change its line between any two steps. Only in the phase
`running` does the interrupted code go on: it may print, and the processor accepts the next
request.

When the controllers give no vector, the processor reads anything. A vector outside the sixteen
of `irq_install` does not lead to `irq_handler`, and the phase `lost` stands for it.
-/

set_option autoImplicit false

namespace Chuckles

open Lib Lib.Pic

/-- A byte arrives at the keyboard controller. -/
def Kernel.addByte (k : Kernel) (b : UInt8) : Kernel :=
  { k with kbd := { k.kbd with input := k.kbd.input ++ [b] } }

/-- What the processor does. -/
inductive IrqPhase where
  /-- The interrupted code, with interrupts on. -/
  | running
  /-- A request has been accepted. -/
  | accepted
  /-- The master has answered the first pulse with a line. -/
  | answered (i : Line)
  /-- `irq_handler`, with the actions that are left. -/
  | handling (v : UInt8) (rest : List (IrqAct Routine))
  | lost

/-- The state of the system. -/
structure IrqSys where
  pics : Pair
  kernel : Kernel
  phase : IrqPhase

/-- A step of the system. -/
inductive IrqStep where
  | line (d : LineChange)
  | byte (b : UInt8)
  /-- The interrupted code prints. -/
  | main (m : Machine)
  | accept
  /-- The first pulse, and the line that the master answers. -/
  | pulse (i : Line)
  /-- The second pulse, and the vector that the processor reads. -/
  | vector (v : UInt8)
  /-- One action of `irq_handler`. -/
  | act
  | ret

/-- Where a vector leads. The stub of the line `n` pushes the number `32 + n`. -/
def irqEntry (k : Kernel) (v : UInt8) : IrqPhase :=
  if 32 ≤ v ∧ v < 48 then
    match irqActs k.irqRoutines v.toUInt32 with
    | some acts => .handling v acts
    | none => .lost
  else .lost

/-- An action, as the controllers see it. -/
def actPics (p : Pair) : IrqAct Routine → Pair
  | .outb port value => picOutb p port value
  | .report .. => p
  | .call _ => p

/-- The step of the system. -/
def irqSysStep (s : IrqSys) : IrqStep → Option IrqSys
  | .line d => some { s with pics := s.pics.setInput CASCADE (irqInput d.irq) d.high }
  | .byte b => some { s with kernel := s.kernel.addByte b }
  | .main m =>
    match s.phase with
    | .running => some { s with kernel := s.kernel.withMach m }
    | _ => none
  | .accept =>
    match s.phase with
    | .running => if s.pics.master.int then some { s with phase := .accepted } else none
    | _ => none
  | .pulse i =>
    match s.phase with
    | .accepted =>
      if s.pics.ack₁.1 = i then some { s with pics := s.pics.ack₁.2, phase := .answered i }
      else none
    | _ => none
  | .vector v =>
    match s.phase with
    | .answered i =>
      let (bus, pics) := s.pics.ack₂ CASCADE i
      -- Without a vector on the bus the processor reads any byte.
      if bus.getD v = v then some { s with pics := pics, phase := irqEntry s.kernel v } else none
    | _ => none
  | .act =>
    match s.phase with
    | .handling v (a :: rest) => do
      let k ← a.run s.kernel
      some ⟨actPics s.pics a, k, .handling v rest⟩
    | _ => none
  | .ret =>
    match s.phase with
    | .handling _ [] => some { s with phase := .running }
    | _ => none

/-! ### What a step can do -/

/-- The moves of the system, with their guards. -/
inductive IrqMove (s : IrqSys) : IrqStep → IrqSys → Prop where
  | line (d : LineChange) :
      IrqMove s (.line d) { s with pics := s.pics.setInput CASCADE (irqInput d.irq) d.high }
  | byte (b : UInt8) : IrqMove s (.byte b) { s with kernel := s.kernel.addByte b }
  | main (m : Machine) : s.phase = .running →
      IrqMove s (.main m) { s with kernel := s.kernel.withMach m }
  | accept : s.phase = .running → s.pics.master.int = true →
      IrqMove s .accept { s with phase := .accepted }
  | pulse : s.phase = .accepted →
      IrqMove s (.pulse s.pics.ack₁.1)
        { s with pics := s.pics.ack₁.2, phase := .answered s.pics.ack₁.1 }
  | vector {i : Line} {v : UInt8} : s.phase = .answered i →
      (s.pics.ack₂ CASCADE i).1.getD v = v →
      IrqMove s (.vector v)
        { s with pics := (s.pics.ack₂ CASCADE i).2, phase := irqEntry s.kernel v }
  | act {v : UInt8} {a : IrqAct Routine} {rest : List (IrqAct Routine)} {k : Kernel} :
      s.phase = .handling v (a :: rest) → a.run s.kernel = some k →
      IrqMove s .act ⟨actPics s.pics a, k, .handling v rest⟩
  | ret {v : UInt8} : s.phase = .handling v [] → IrqMove s .ret { s with phase := .running }

/-- Every step is one of the moves. -/
theorem irqMove_of_step {s s' : IrqSys} {a : IrqStep} (h : irqSysStep s a = some s') :
    IrqMove s a s' := by
  rcases s with ⟨pics, kernel, phase⟩
  cases a with
  | line d =>
    cases h
    exact .line d
  | byte b =>
    cases h
    exact .byte b
  | main m =>
    cases phase with
    | running =>
      cases h
      exact .main m rfl
    | _ => cases h
  | accept =>
    cases phase with
    | running =>
      have h : (if pics.master.int then _ else none) = some s' := h
      split at h
      · rename_i hint
        cases h
        exact .accept rfl hint
      · cases h
    | _ => cases h
  | pulse i =>
    cases phase with
    | accepted =>
      have h : (if pics.ack₁.1 = i then _ else none) = some s' := h
      split at h
      · rename_i hi
        subst hi
        cases h
        exact .pulse rfl
      · cases h
    | _ => cases h
  | vector v =>
    cases phase with
    | answered i =>
      have h : (if (pics.ack₂ CASCADE i).1.getD v = v then _ else none) = some s' := h
      split at h
      · rename_i hv
        cases h
        exact .vector rfl hv
      · cases h
    | _ => cases h
  | act =>
    cases phase with
    | handling v acts =>
      cases acts with
      | nil => cases h
      | cons a rest =>
        obtain ⟨k, hk, h⟩ := Option.bind_eq_some_iff.mp h
        cases h
        exact .act rfl hk
    | _ => cases h
  | ret =>
    cases phase with
    | handling v acts =>
      cases acts with
      | nil =>
        cases h
        exact .ret rfl
      | cons a rest => cases h
    | _ => cases h

/-! ### The sixteen lines -/

/-- The number of a line in `irq_routines`. -/
def vectorLine (v : UInt8) (h : 32 ≤ v ∧ v < 48) : Fin 16 :=
  ⟨v.toNat - 32, by
    have h₁ := UInt8.le_iff_toNat_le.mp h.1
    have h₂ := UInt8.lt_iff_toNat_lt.mp h.2
    simp only [UInt8.reduceToNat] at h₁ h₂
    omega⟩

/-- `irq_handler` for the vector of a line. -/
theorem irqActs_vector {H : Type} (table : Vector (Option H) 16) {v : UInt8}
    (h : 32 ≤ v ∧ v < 48) :
    irqActs table v.toUInt32
      = some (.report (ascii "IRQ_HANDLER #") (v.toUInt32 - 32).toInt32 (ascii "\n")
          :: callActs v.toUInt32 (table.get (vectorLine v h)) ++ eoiActs v.toUInt32) := by
  have h₁ := UInt8.le_iff_toNat_le.mp h.1
  have h₂ := UInt8.lt_iff_toNat_lt.mp h.2
  simp only [UInt8.reduceToNat] at h₁ h₂
  have hsub : (v.toUInt32 - 32).toNat = v.toNat - 32 := by
    rw [UInt32.toNat_sub_of_le _ _ (by
      rw [UInt32.le_iff_toNat_le]
      simpa using h₁)]
    simp
  have hguard : ¬v.toUInt32 - 32 > 16 := by
    rw [gt_iff_lt, UInt32.lt_iff_toNat_lt, hsub]
    simp
    omega
  have hentry : table[(v.toUInt32 - 32).toNat]? = some (table.get (vectorLine v h)) := by
    rw [hsub, Vector.getElem?_eq_getElem (by omega)]
    rfl
  unfold irqActs
  rw [if_neg hguard, hentry]
  rfl

end Chuckles
