import Chuckles.Kernel.Interrupts
import Chuckles.Proofs.Pic

/-!
# `Chuckles.Proofs.Interrupts`: interrupts over whole runs of the system

The controllers start as `irq_remap` leaves them. `Safe` is the invariant of the system. Its core
is the relation between the lines in service and the end-of-interrupt bytes that `irq_handler`
has still to send (`InService`): at most one line of each controller is in service, and the bytes
to come are exactly those that end this. It needs that handlers do not interrupt one another, and
it covers the requests that are withdrawn in the middle of their acknowledgement.

`requests_heard` is about the requests of the devices and about the end of an interrupt: nothing is
in service while the interrupted code runs, and `EndsExactly` says what the bytes of `irq_handler`
clear. `answered_by_priority` is about the vectors.
-/

set_option autoImplicit false

namespace Chuckles.Proofs

open Lib Lib.Run Lib.Pic

/-! ### The lines in service -/

/-- At most one line, or none at all. -/
def AtMostOne (some : Bool) (s : Finset Line) : Prop := if some then ∃ i, s ⊆ {i} else s = ∅

/-- The lines in service, when the master and the slave may each have one. -/
structure InService (master slave : Bool) (p : Pair) : Prop where
  latched : p.Latched CASCADE
  master : AtMostOne master p.master.isr
  slave : AtMostOne slave p.slave.isr

/-- The actions that are no end of interrupt. -/
def Internal : IrqAct Routine → Prop
  | .outb .. => False
  | _ => True

/-- Actions of `irq_handler` up to its end: some that the controllers do not see, and the
end-of-interrupt bytes that are to come. -/
structure EoiToCome (master slave : Bool) (rest : List (IrqAct Routine)) : Prop where
  order : slave = true → master = true
  split : ∃ pre, (∀ a ∈ pre, Internal a) ∧
    rest = pre ++ ((if slave then [.outb 0xA0 0x20] else [])
      ++ (if master then [.outb 0x20 0x20] else []))

/-- `irq_handler` ends with one byte, or with two for a line of the slave. -/
theorem eoiToCome_irqActs {table : Vector (Option Routine) 16} {v : UInt8} (h : 32 ≤ v ∧ v < 48)
    {acts : List (IrqAct Routine)} (hacts : irqActs table v.toUInt32 = some acts) :
    EoiToCome true (decide (40 ≤ v)) acts := by
  rw [irqActs_vector table h] at hacts
  have hforty : v.toUInt32 ≥ 40 ↔ 40 ≤ v := by
    rw [ge_iff_le, UInt32.le_iff_toNat_le, UInt8.le_iff_toNat_le]
    simp
  refine ⟨fun _ => rfl, .report (ascii "IRQ_HANDLER #") (v.toUInt32 - 32).toInt32 (ascii "\n")
    :: callActs v.toUInt32 (table.get (vectorLine v h)), ?_, ?_⟩
  · intro a ha
    rcases List.mem_cons.mp ha with rfl | ha
    · trivial
    · cases hentry : table.get (vectorLine v h) with
      | some handler =>
        rw [hentry] at ha
        rw [List.mem_singleton.mp ha]
        trivial
      | none =>
        rw [hentry] at ha
        rcases List.mem_pair.mp ha with rfl | rfl
        · trivial
        · trivial
  · rw [← Option.some.inj hacts, eoiActs]
    simp only [hforty, decide_eq_true_eq]
    rfl

/-- One action less. -/
theorem EoiToCome.act {m sl : Bool} {a : IrqAct Routine} {rest : List (IrqAct Routine)}
    (h : EoiToCome m sl (a :: rest)) :
    (Internal a ∧ EoiToCome m sl rest) ∨
      (a = .outb 0xA0 0x20 ∧ sl = true ∧ m = true ∧ EoiToCome true false rest) ∨
      (a = .outb 0x20 0x20 ∧ sl = false ∧ m = true ∧ EoiToCome false false rest) := by
  obtain ⟨horder, pre, hpre, hrest⟩ := h
  cases pre with
  | cons b pre =>
    rw [List.cons_append, List.cons.injEq] at hrest
    obtain ⟨rfl, hrest⟩ := hrest
    exact Or.inl ⟨hpre a List.mem_cons_self, horder, pre,
      fun c hc => hpre c (List.mem_cons_of_mem a hc), hrest⟩
  | nil =>
    cases sl with
    | true =>
      have hm : m = true := horder rfl
      subst hm
      cases hrest
      exact Or.inr (Or.inl ⟨rfl, rfl, rfl, nofun, [], nofun, rfl⟩)
    | false =>
      cases m with
      | true =>
        cases hrest
        exact Or.inr (Or.inr ⟨rfl, rfl, rfl, nofun, [], nofun, rfl⟩)
      | false => cases hrest

/-- Nothing is left. -/
theorem EoiToCome.nil {m sl : Bool} (h : EoiToCome m sl []) : m = false ∧ sl = false := by
  obtain ⟨-, pre, -, hrest⟩ := h
  have hrest := List.append_eq_nil_iff.mp (List.append_eq_nil_iff.mp hrest.symm).2
  cases m with
  | true => cases hrest.2
  | false =>
    cases sl with
    | true => cases hrest.1
    | false => exact ⟨rfl, rfl⟩

/-! ### The invariant -/

/-- The lines that may be in service while a vector is handled: its own, and in the master for a
vector of the slave the one that the slave is connected to. -/
structure ServesOnly (v : UInt8) (p : Pair) : Prop where
  master : ∀ i ∈ p.master.isr, 32 + i.val = v.toNat ∨ (i = CASCADE ∧ 40 ≤ v)
  slave : ∀ j ∈ p.slave.isr, 40 + j.val = v.toNat

/-- The phase fits the controllers. -/
def PhaseSafe (p : Pair) : IrqPhase → Prop
  | .running => InService false false p
  | .accepted => InService false false p
  | .answered i =>
    p.master.isr ⊆ {i} ∧ p.slave.isr = ∅ ∧ (i ≠ CASCADE → p.Latched CASCADE)
  | .handling v rest => ∃ m sl, EoiToCome m sl rest ∧ InService m sl p ∧ ServesOnly v p
  | .lost => False

/-- The invariant, for a system that has started with the controllers `p₀`. -/
structure Safe (p₀ : Pair) (s : IrqSys) : Prop where
  mode : Pair.SameMode p₀ s.pics
  ready : s.pics.Ready CASCADE
  phase : PhaseSafe s.pics s.phase

section
variable {p₀ : Pair} {s s' : IrqSys}

/-- A device leaves the lines in service. -/
theorem inService_setInput {m sl : Bool} {p : Pair} (h : InService m sl p)
    (hready : p.Ready CASCADE) (d : LineChange) :
    InService m sl (p.setInput CASCADE (irqInput d.irq) d.high) := by
  refine ⟨hready.linked.latched_setInput h.latched d.connected d.high, ?_, ?_⟩
  · rw [Pair.setInput_master_isr]
    exact h.master
  · rw [Pair.setInput_slave_isr]
    exact h.slave

/-- A change of a line. -/
theorem Safe.line (h : Safe p₀ s) (d : LineChange) :
    Safe p₀ { s with pics := s.pics.setInput CASCADE (irqInput d.irq) d.high } := by
  refine ⟨h.mode.trans (Pair.setInput_sameMode _ _ _ _), h.ready.setInput d.connected d.high, ?_⟩
  have hphase := h.phase
  show PhaseSafe (s.pics.setInput CASCADE (irqInput d.irq) d.high) s.phase
  cases hcase : s.phase with
  | running =>
    rw [hcase] at hphase
    exact inService_setInput hphase h.ready d
  | accepted =>
    rw [hcase] at hphase
    exact inService_setInput hphase h.ready d
  | answered i =>
    rw [hcase] at hphase
    obtain ⟨hmaster, hslave, hlatched⟩ := hphase
    refine ⟨?_, ?_, fun hi => h.ready.linked.latched_setInput (hlatched hi) d.connected d.high⟩
    · rw [Pair.setInput_master_isr]
      exact hmaster
    · rw [Pair.setInput_slave_isr]
      exact hslave
  | handling v rest =>
    rw [hcase] at hphase
    obtain ⟨m, sl, hrest, hserving, honly⟩ := hphase
    refine ⟨m, sl, hrest, inService_setInput hserving h.ready d, ?_, ?_⟩
    · rw [Pair.setInput_master_isr]
      exact honly.master
    · rw [Pair.setInput_slave_isr]
      exact honly.slave
  | lost =>
    rw [hcase] at hphase
    exact hphase

/-- The first pulse puts at most its line in service. -/
theorem Safe.pulse (h : Safe p₀ s) (hphase : s.phase = .accepted) :
    Safe p₀ { s with pics := s.pics.ack₁.2, phase := .answered s.pics.ack₁.1 } := by
  have hserving := h.phase
  rw [hphase] at hserving
  have hmaster : s.pics.master.isr = ∅ := hserving.master
  refine ⟨h.mode.trans h.ready.ack₁_sameMode, h.ready.ack₁, h.ready.ack₁_isr hmaster,
    hserving.slave, fun hi => h.ready.latched_ack₁ hserving.latched hi⟩

/-- The vector of a line of the master. -/
theorem master_vector : ∀ i : Line, i ≠ CASCADE →
    (32 ≤ (0x20 : UInt8) ||| UInt8.ofNat i.val ∧ (0x20 : UInt8) ||| UInt8.ofNat i.val < 48) ∧
      ¬40 ≤ (0x20 : UInt8) ||| UInt8.ofNat i.val := by decide

/-- The vector of a line of the slave. -/
theorem slave_vector : ∀ j : Line,
    (32 ≤ (0x28 : UInt8) ||| UInt8.ofNat j.val ∧ (0x28 : UInt8) ||| UInt8.ofNat j.val < 48) ∧
      40 ≤ (0x28 : UInt8) ||| UInt8.ofNat j.val := by decide

/-- The vector of a line of the master, as a number. -/
theorem toNat_master_vector : ∀ i : Line,
    ((0x20 : UInt8) ||| UInt8.ofNat i.val).toNat = 32 + i.val := by decide

/-- The vector of a line of the slave, as a number. -/
theorem toNat_slave_vector : ∀ j : Line,
    ((0x28 : UInt8) ||| UInt8.ofNat j.val).toNat = 40 + j.val := by decide

/-- `irq_handler` is entered with a line in service for each byte that it will send. -/
theorem phaseSafe_irqEntry {p : Pair} (k : Kernel) {v : UInt8} (hv : 32 ≤ v ∧ v < 48)
    (h : InService true (decide (40 ≤ v)) p) (honly : ServesOnly v p) :
    PhaseSafe p (irqEntry k v) := by
  unfold irqEntry
  rw [if_pos hv]
  cases hacts : irqActs k.irqRoutines v.toUInt32 with
  | none =>
    rw [irqActs_vector _ hv] at hacts
    cases hacts
  | some acts => exact ⟨true, decide (40 ≤ v), eoiToCome_irqActs hv hacts, h, honly⟩

/-- The second pulse. -/
theorem Safe.vector (hp₀ : Remapped p₀) (h : Safe p₀ s) {i : Line} (hphase : s.phase = .answered i)
    {v : UInt8} (hv : (s.pics.ack₂ CASCADE i).1.getD v = v) :
    Safe p₀ { s with pics := (s.pics.ack₂ CASCADE i).2, phase := irqEntry s.kernel v } := by
  have hserving := h.phase
  rw [hphase] at hserving
  obtain ⟨hmaster, hslave, hlatched⟩ := hserving
  by_cases hi : i = CASCADE
  · -- The slave answers, and its output goes low.
    subst hi
    rw [h.ready.ack₂_self, h.mode.slave.base, hp₀.slaveBase] at hv
    rw [h.ready.ack₂_self]
    have hv : (0x28 : UInt8) ||| UInt8.ofNat s.pics.slave.ack.1.val = v := hv
    have hrange := slave_vector s.pics.slave.ack.1
    rw [hv] at hrange
    have hmode := h.ready.slave.ack_sameMode
    have hisr := h.ready.slave.ack_isr_subset hslave
    refine ⟨h.mode.trans ⟨Chip.setLine_sameMode _ _ _, hmode⟩, h.ready.sync_slave hmode, ?_⟩
    refine phaseSafe_irqEntry s.kernel hrange.1
      ⟨Pair.latched_of_int (h.ready.slave.int_of_ack hslave), ⟨CASCADE, ?_⟩, ?_⟩
      ⟨fun i hi => Or.inr ⟨?_, hrange.2⟩, fun j hj => ?_⟩
    · rw [Pair.sync_master_isr]
      exact hmaster
    · rw [decide_eq_true hrange.2]
      exact ⟨_, hisr⟩
    · rw [Pair.sync_master_isr] at hi
      exact Finset.mem_singleton.mp (hmaster hi)
    · rw [Finset.mem_singleton.mp (hisr hj), ← hv]
      exact (toNat_slave_vector _).symm
  · rw [h.ready.ack₂_of_ne hi, h.mode.master.base, hp₀.masterBase] at hv
    rw [h.ready.ack₂_of_ne hi]
    have hv : (0x20 : UInt8) ||| UInt8.ofNat i.val = v := hv
    have hrange := master_vector i hi
    rw [hv] at hrange
    refine ⟨h.mode, h.ready, phaseSafe_irqEntry s.kernel hrange.1 ⟨hlatched hi, ⟨i, hmaster⟩, ?_⟩
      ⟨fun j hj => Or.inl ?_, fun j hj => ?_⟩⟩
    · rw [decide_eq_false hrange.2]
      exact hslave
    · rw [Finset.mem_singleton.mp (hmaster hj), ← hv]
      exact (toNat_master_vector i).symm
    · rw [hslave] at hj
      simp at hj

/-- An action that the controllers do not see. -/
theorem actPics_of_internal {a : IrqAct Routine} (h : Internal a) (p : Pair) : actPics p a = p := by
  cases a with
  | report before i after => rfl
  | call handler => rfl
  | outb port value => exact h.elim

/-- An action of `irq_handler`. -/
theorem Safe.act (h : Safe p₀ s) {v : UInt8} {a : IrqAct Routine} {rest : List (IrqAct Routine)}
    (hphase : s.phase = .handling v (a :: rest)) (k : Kernel) :
    Safe p₀ ⟨actPics s.pics a, k, .handling v rest⟩ := by
  have hserving := h.phase
  rw [hphase] at hserving
  obtain ⟨m, sl, hrest, hin, honly⟩ := hserving
  rcases hrest.act with ⟨hinternal, hrest'⟩ | ⟨rfl, rfl, rfl, hrest'⟩ | ⟨rfl, rfl, rfl, hrest'⟩
  · rw [actPics_of_internal hinternal]
    exact ⟨h.mode, h.ready, m, sl, hrest', hin, honly⟩
  · -- The slave is told, so none of its lines is in service any more.
    obtain ⟨j, hj⟩ : ∃ j, s.pics.slave.isr ⊆ {j} := hin.slave
    have hnone : (s.pics.slave.eoi false).isr = ∅ := h.ready.slave.eoi_of_subset hj
    refine ⟨h.mode.trans ⟨Chip.setLine_sameMode _ _ _, Chip.eoi_sameMode _⟩, h.ready.eoiSlave, true,
      false, hrest', ⟨h.ready.linked.latched_sync hin.latched _, ?_, hnone⟩, ?_, ?_⟩
    · show AtMostOne true (Pair.sync CASCADE _).master.isr
      rw [Pair.sync_master_isr]
      exact hin.master
    · intro i hi
      have hi : i ∈
          (Pair.sync CASCADE { s.pics with slave := s.pics.slave.eoi false }).master.isr := hi
      rw [Pair.sync_master_isr] at hi
      exact honly.master i hi
    · intro j hj
      have hj : j ∈ (s.pics.slave.eoi false).isr := hj
      rw [hnone] at hj
      simp at hj
  · obtain ⟨i, hi⟩ : ∃ i, s.pics.master.isr ⊆ {i} := hin.master
    have hnone : (s.pics.master.eoi false).isr = ∅ := h.ready.master.eoi_of_subset hi
    refine ⟨h.mode.trans ⟨Chip.eoi_sameMode _, .refl _⟩, h.ready.eoiMaster, false, false, hrest',
      ⟨Pair.Ready.latched_eoiMaster hin.latched, hnone, hin.slave⟩, ?_, honly.slave⟩
    intro j hj
    have hj : j ∈ (s.pics.master.eoi false).isr := hj
    rw [hnone] at hj
    simp at hj

/-- Every step keeps the invariant. -/
theorem Safe.step (hp₀ : Remapped p₀) (h : Safe p₀ s) {a : IrqStep}
    (hstep : irqSysStep s a = some s') : Safe p₀ s' := by
  have hphase := h.phase
  cases irqMove_of_step hstep with
  | line d => exact h.line d
  | byte b => exact ⟨h.mode, h.ready, hphase⟩
  | main m _ => exact ⟨h.mode, h.ready, hphase⟩
  | accept hrunning _ =>
    rw [hrunning] at hphase
    exact ⟨h.mode, h.ready, hphase⟩
  | pulse haccepted => exact h.pulse haccepted
  | vector hanswered hv => exact h.vector hp₀ hanswered hv
  | act hhandling _ => exact h.act hhandling _
  | ret hhandling =>
    rw [hhandling] at hphase
    obtain ⟨m, sl, hrest, hin, -⟩ := hphase
    obtain ⟨rfl, rfl⟩ := hrest.nil
    exact ⟨h.mode, h.ready, hin⟩

/-- So it holds in every state that a run reaches. -/
theorem safe_of_runs (hp₀ : Remapped p₀) {k : Kernel} {acts : List IrqStep}
    (h : Runs irqSysStep Any ⟨p₀, k, .running⟩ acts s) : Safe p₀ s :=
  h.invariant (Safe p₀) (fun _ _ _ hs _ hstep => hs.step hp₀ hstep)
    ⟨.refl p₀, hp₀.ready, hp₀.latched, hp₀.masterIsr, hp₀.slaveIsr⟩

end

/-! ### Requests -/

/-- What a device can know of its line: the level, and whether a request is still to be served. -/
structure LineView where
  high : Bool
  wanted : Bool

/-- A rising edge is a request. It ends with its withdrawal, or when the controller answers it: the
master with the first pulse, the slave with the second one. -/
def lineSee (n : Fin 16) (g : LineView) : IrqStep → LineView
  | .line d =>
    if d.irq = n then
      if d.high then ⟨true, g.wanted || !g.high⟩ else ⟨false, false⟩
    else g
  | .pulse i => if irqInput n = .inl i then { g with wanted := false } else g
  | .vector v => if 40 ≤ v ∧ v.toNat = 32 + n.val then { g with wanted := false } else g
  | _ => g

/-- The line after some steps. -/
def lineView (p₀ : Pair) (n : Fin 16) (acts : List IrqStep) : LineView :=
  acts.foldl (lineSee n) ⟨decide (p₀.High (irqInput n)), decide (p₀.Wants (irqInput n))⟩

/-- The request of the line is still to be served. -/
def Wanted (p₀ : Pair) (acts : List IrqStep) (n : Fin 16) : Prop :=
  (lineView p₀ n acts).wanted = true

/-- A line of a device. -/
def Connected (n : Fin 16) : Prop := irqInput n ≠ .inl CASCADE

instance (n : Fin 16) : Decidable (Connected n) := inferInstanceAs (Decidable (_ ≠ _))

/-- No two lines have the same input. -/
theorem irqInput_injective : ∀ m n : Fin 16, irqInput m = irqInput n → m = n := by decide

/-- The view fits the controllers. -/
structure Sees (p : Pair) (n : Fin 16) (g : LineView) : Prop where
  high : g.high = true ↔ p.High (irqInput n)
  wanted : g.wanted = true ↔ p.Wants (irqInput n)

section
variable {p₀ p : Pair} {s s' : IrqSys} {n : Fin 16} {g : LineView}

/-- A change of a line. -/
theorem Sees.line (h : Sees p n g) (hp : p.Ready CASCADE) (hn : Connected n) (d : LineChange) :
    Sees (p.setInput CASCADE (irqInput d.irq) d.high) n (lineSee n g (.line d)) := by
  have hhigh := Pair.high_setInput p hn (irqInput d.irq) d.high
  have hwants := hp.wants_setInput hn (irqInput d.irq) d.high
  show Sees _ n (if d.irq = n then if d.high then _ else _ else g : LineView)
  by_cases hd : d.irq = n
  · rw [if_pos hd]
    rw [hd, if_pos rfl] at hhigh hwants
    rw [hd]
    cases hlevel : d.high with
    | false =>
      rw [hlevel] at hhigh hwants
      constructor
      · rw [hhigh]
        simp
      · rw [hwants]
        simp
    | true =>
      rw [hlevel] at hhigh hwants
      constructor
      · rw [hhigh]
        simp
      · rw [hwants, ← h.high, ← h.wanted]
        simp
  · rw [if_neg hd]
    have hne : irqInput n ≠ irqInput d.irq := fun hsame => hd (irqInput_injective _ _ hsame).symm
    rw [if_neg hne] at hhigh hwants
    exact ⟨h.high.trans hhigh.symm, h.wanted.trans hwants.symm⟩

/-- An answer takes the request. -/
theorem Sees.answer {p' : Pair} (h : Sees p n g) (c : Prop) [Decidable c]
    (hhigh : p'.High (irqInput n) ↔ p.High (irqInput n))
    (hwants : p'.Wants (irqInput n) ↔ p.Wants (irqInput n) ∧ ¬c) :
    Sees p' n (if c then { g with wanted := false } else g) := by
  by_cases hc : c
  · rw [if_pos hc]
    refine ⟨h.high.trans hhigh.symm, ?_⟩
    rw [hwants]
    simp [hc]
  · rw [if_neg hc]
    refine ⟨h.high.trans hhigh.symm, h.wanted.trans ?_⟩
    rw [hwants]
    simp [hc]

/-- The number of a line of the slave. -/
theorem irqInput_slave : ∀ (n : Fin 16) (j : Line), irqInput n = .inr j ↔
    40 ≤ (0x28 : UInt8) ||| UInt8.ofNat j.val ∧
      ((0x28 : UInt8) ||| UInt8.ofNat j.val).toNat = 32 + n.val := by decide

/-- The end of an interrupt changes no level and no request. -/
theorem Sees.act (h : Sees p n g) (hn : Connected n) {a : IrqAct Routine}
    (ha : Internal a ∨ a = .outb 0xA0 0x20 ∨ a = .outb 0x20 0x20) : Sees (actPics p a) n g := by
  rcases ha with ha | rfl | rfl
  · rw [actPics_of_internal ha]
    exact h
  · have hhigh := Pair.high_sync { p with slave := p.slave.eoi false } hn
    have hwants := Pair.wants_sync { p with slave := p.slave.eoi false } hn
    refine ⟨h.high.trans (Iff.trans ?_ hhigh.symm), h.wanted.trans (Iff.trans ?_ hwants.symm)⟩
    · cases irqInput n with
      | inl i => exact Iff.rfl
      | inr j =>
        show j ∈ p.slave.lines ↔ j ∈ (p.slave.eoi false).lines
        rw [Chip.eoi_lines]
    · cases irqInput n with
      | inl i => exact Iff.rfl
      | inr j =>
        show j ∈ p.slave.irr ↔ j ∈ (p.slave.eoi false).irr
        rw [Chip.eoi_irr]
  · show Sees { p with master := p.master.eoi false } n g
    refine ⟨h.high.trans ?_, h.wanted.trans ?_⟩
    · cases irqInput n with
      | inr j => exact Iff.rfl
      | inl i =>
        show i ∈ p.master.lines ↔ i ∈ (p.master.eoi false).lines
        rw [Chip.eoi_lines]
    · cases irqInput n with
      | inr j => exact Iff.rfl
      | inl i =>
        show i ∈ p.master.irr ↔ i ∈ (p.master.eoi false).irr
        rw [Chip.eoi_irr]

/-- Every step keeps the view right. -/
theorem Sees.step (hp₀ : Remapped p₀) (hs : Safe p₀ s) (hn : Connected n) (h : Sees s.pics n g)
    {a : IrqStep} (hstep : irqSysStep s a = some s') : Sees s'.pics n (lineSee n g a) := by
  have hphase := hs.phase
  cases irqMove_of_step hstep with
  | line d => exact h.line hs.ready hn d
  | byte b => exact h
  | main m _ => exact h
  | accept _ _ => exact h
  | ret _ => exact h
  | pulse haccepted =>
    rw [haccepted] at hphase
    have himr : s.pics.master.imr = ∅ := hs.mode.master.imr.trans hp₀.masterImr
    exact h.answer _ (hs.ready.high_ack₁ _) (hs.ready.wants_ack₁ hphase.master himr _)
  | @vector i v hanswered hv =>
    rw [hanswered] at hphase
    obtain ⟨-, hslave, -⟩ := hphase
    show Sees _ n (if 40 ≤ v ∧ v.toNat = 32 + n.val then _ else _)
    by_cases hi : i = CASCADE
    · subst hi
      have himr : s.pics.slave.imr = ∅ := hs.mode.slave.imr.trans hp₀.slaveImr
      rw [hs.ready.ack₂_self, hs.mode.slave.base, hp₀.slaveBase] at hv
      have hv : (0x28 : UInt8) ||| UInt8.ofNat s.pics.slave.ack.1.val = v := hv
      rw [hs.ready.ack₂_self]
      refine h.answer _ (hs.ready.high_ack₂ hn) ?_
      rw [← hv, ← irqInput_slave]
      exact hs.ready.wants_ack₂ hslave himr hn
    · rw [hs.ready.ack₂_of_ne hi, hs.mode.master.base, hp₀.masterBase] at hv
      have hv : (0x20 : UInt8) ||| UInt8.ofNat i.val = v := hv
      have hlow := (master_vector i hi).2
      rw [hv] at hlow
      rw [hs.ready.ack₂_of_ne hi, if_neg fun h => hlow h.1]
      exact h
  | @act v a rest k hhandling _ =>
    rw [hhandling] at hphase
    obtain ⟨m, sl, hrest, -⟩ := hphase
    refine h.act hn ?_
    rcases hrest.act with ⟨ha, -⟩ | ⟨ha, -⟩ | ⟨ha, -⟩
    · exact Or.inl ha
    · exact Or.inr (Or.inl ha)
    · exact Or.inr (Or.inr ha)

/-- The controllers remember exactly the requests that are still to be served. -/
theorem sees_of_runs (hp₀ : Remapped p₀) (hn : Connected n) {k : Kernel} {acts : List IrqStep}
    (h : Runs irqSysStep Any ⟨p₀, k, .running⟩ acts s) :
    Sees s.pics n (lineView p₀ n acts) := by
  have hstart : Sees p₀ n (lineView p₀ n []) := ⟨decide_eq_true_iff, decide_eq_true_iff⟩
  refine (h.invariant_trace (fun acts s => Safe p₀ s ∧ Sees s.pics n (lineView p₀ n acts)) ?_
    ⟨⟨.refl p₀, hp₀.ready, hp₀.latched, hp₀.masterIsr, hp₀.slaveIsr⟩, hstart⟩).2
  rintro acts s a s' ⟨hsafe, hsees⟩ - hstep
  refine ⟨hsafe.step hp₀ hstep, ?_⟩
  rw [lineView, List.foldl_append]
  exact hsees.step hp₀ hsafe hn hstep

end

/-! ### What the processor hears -/

/-- Where the master sees the line. The lines of the slave all come through one. -/
def masterLine (n : Fin 16) : Line :=
  match irqInput n with
  | .inl i => i
  | .inr _ => CASCADE

/-- Every input of the master but the one of the slave is a line. -/
theorem exists_irqInput_master : ∀ i : Line, i ≠ CASCADE → ∃ n, irqInput n = .inl i := by decide

/-- So is every input of the slave. -/
theorem exists_irqInput_slave : ∀ j : Line, ∃ n, irqInput n = .inr j := by decide

/-- The lines of the slave are the upper eight. -/
theorem irqInput_inr_iff : ∀ (n : Fin 16) (j : Line), irqInput n = .inr j ↔ n.val = 8 + j.val := by
  decide

/-- When the line 7 is the lowest, a line is at its own place. -/
theorem rank_of_lowest : ∀ i : Line, rank 7 i = i := by decide

/-- A line of the slave is one of a device. -/
theorem connected_of_inr {n : Fin 16} {j : Line} (h : irqInput n = .inr j) : Connected n := by
  rw [Connected, h]
  exact Sum.inr_ne_inl

section
variable {p₀ : Pair} {s : IrqSys}

/-- No line is masked. -/
theorem Safe.masterImr (h : Safe p₀ s) (hp₀ : Remapped p₀) : s.pics.master.imr = ∅ :=
  h.mode.master.imr.trans hp₀.masterImr

/-- The slave masks nothing. -/
theorem Safe.slaveImr (h : Safe p₀ s) (hp₀ : Remapped p₀) : s.pics.slave.imr = ∅ :=
  h.mode.slave.imr.trans hp₀.slaveImr

/-- With nothing in service, a request of the master is one of a device. -/
theorem Safe.mem_irr_iff (h : Safe p₀ s) (hp₀ : Remapped p₀) (hin : InService false false s.pics)
    (i : Line) : i ∈ s.pics.master.irr ↔
      ∃ n, Connected n ∧ s.pics.Wants (irqInput n) ∧ masterLine n = i := by
  by_cases hi : i = CASCADE
  · subst hi
    rw [h.ready.mem_irr_of_idle hin.latched hin.slave, Chip.waiting, h.slaveImr hp₀,
      Finset.sdiff_empty]
    constructor
    · rintro ⟨j, hj⟩
      obtain ⟨n, hn⟩ := exists_irqInput_slave j
      refine ⟨n, connected_of_inr hn, ?_, ?_⟩
      · rw [hn]
        exact hj
      · rw [masterLine, hn]
    · rintro ⟨n, hconnected, hwants, hline⟩
      cases hn : irqInput n with
      | inl i =>
        rw [masterLine, hn] at hline
        have hline : i = CASCADE := hline
        rw [Connected, hn, hline] at hconnected
        exact absurd rfl hconnected
      | inr j =>
        rw [hn] at hwants
        exact ⟨j, hwants⟩
  · constructor
    · intro hmem
      obtain ⟨n, hn⟩ := exists_irqInput_master i hi
      refine ⟨n, ?_, ?_, ?_⟩
      · rw [Connected, hn]
        exact fun h => hi (Sum.inl.inj h)
      · rw [hn]
        exact hmem
      · rw [masterLine, hn]
    · rintro ⟨n, -, hwants, hline⟩
      cases hn : irqInput n with
      | inl j =>
        rw [masterLine, hn] at hline
        rw [hn] at hwants
        rw [← hline]
        exact hwants
      | inr j =>
        rw [masterLine, hn] at hline
        exact absurd hline.symm hi

end

/-- The end of an interrupt. Nothing is in service while the interrupted code runs. While
`irq_handler` runs, only the lines of its vector are in service, and the bytes that end this are
still to come. Such a byte clears all that is in service in its controller and touches nothing else,
and the other actions do not reach the controllers. -/
def EndsExactly (p : Pair) : IrqPhase → Prop
  | .running => p.master.isr = ∅ ∧ p.slave.isr = ∅
  | .handling v rest =>
    ServesOnly v p ∧ (p.master.isr.Nonempty → .outb 0x20 0x20 ∈ rest) ∧
      (p.slave.isr.Nonempty → .outb 0xA0 0x20 ∈ rest) ∧
      ∀ a, rest.head? = some a →
        (Internal a ∧ actPics p a = p) ∨
        (a = .outb 0xA0 0x20 ∧ (actPics p a).slave.isr = ∅ ∧
          (actPics p a).master.isr = p.master.isr) ∨
        (a = .outb 0x20 0x20 ∧ (actPics p a).master.isr = ∅ ∧
          (actPics p a).slave.isr = p.slave.isr)
  | _ => True

/-- A byte is still to come for each controller with a line in service. -/
theorem InService.byte_to_come {m sl : Bool} {p : Pair} {rest : List (IrqAct Routine)}
    (h : InService m sl p) (hrest : EoiToCome m sl rest) :
    (p.master.isr.Nonempty → .outb 0x20 0x20 ∈ rest) ∧
      (p.slave.isr.Nonempty → .outb 0xA0 0x20 ∈ rest) := by
  obtain ⟨-, pre, -, rfl⟩ := hrest
  constructor
  · intro hmaster
    cases m with
    | true => simp
    | false =>
      have hnone : p.master.isr = ∅ := h.master
      rw [hnone] at hmaster
      simp at hmaster
  · intro hslave
    cases sl with
    | true => simp
    | false =>
      have hnone : p.slave.isr = ∅ := h.slave
      rw [hnone] at hslave
      simp at hslave

/-- Interrupts end as they should in every state of the invariant. -/
theorem Safe.endsExactly {p₀ : Pair} {s : IrqSys} (h : Safe p₀ s) : EndsExactly s.pics s.phase := by
  have hphase := h.phase
  cases hcase : s.phase with
  | running =>
    rw [hcase] at hphase
    exact ⟨hphase.master, hphase.slave⟩
  | handling v rest =>
    rw [hcase] at hphase
    obtain ⟨m, sl, hrest, hin, honly⟩ := hphase
    obtain ⟨hmaster, hslave⟩ := hin.byte_to_come hrest
    refine ⟨honly, hmaster, hslave, fun a ha => ?_⟩
    obtain ⟨rest, rfl⟩ := List.head?_eq_some_iff.mp ha
    rcases hrest.act with ⟨hinternal, -⟩ | ⟨rfl, rfl, -, -⟩ | ⟨rfl, -, rfl, -⟩
    · exact Or.inl ⟨hinternal, actPics_of_internal hinternal _⟩
    · obtain ⟨j, hj⟩ : ∃ j, s.pics.slave.isr ⊆ {j} := hin.slave
      exact Or.inr (Or.inl ⟨rfl, h.ready.slave.eoi_of_subset hj, Pair.sync_master_isr _ _⟩)
    · obtain ⟨i, hi⟩ : ∃ i, s.pics.master.isr ⊆ {i} := hin.master
      exact Or.inr (Or.inr ⟨rfl, h.ready.master.eoi_of_subset hi, rfl⟩)
  | _ => trivial

/-- In every run no vector goes astray, and no request of a device is forgotten or invented. When
the interrupted code runs, the controllers ask for an interrupt exactly when there is a request
to be served. And `irq_handler` ends exactly the interrupt that it has been entered for, also when
the request was withdrawn and the controller has put nothing in service. -/
theorem requests_heard {p₀ : Pair} (hp₀ : Remapped p₀) {k : Kernel} {acts : List IrqStep}
    {s : IrqSys} (h : Runs irqSysStep Any ⟨p₀, k, .running⟩ acts s) :
    s.phase ≠ .lost ∧
      (∀ n, Connected n → (s.pics.Wants (irqInput n) ↔ Wanted p₀ acts n)) ∧
      (s.phase = .running →
        (s.pics.master.int = true ↔ ∃ n, Connected n ∧ Wanted p₀ acts n)) ∧
      EndsExactly s.pics s.phase := by
  have hsafe := safe_of_runs hp₀ h
  have hwanted (n : Fin 16) (hn : Connected n) :
      s.pics.Wants (irqInput n) ↔ Wanted p₀ acts n := (sees_of_runs hp₀ hn h).wanted.symm
  refine ⟨?_, hwanted, ?_, hsafe.endsExactly⟩
  · intro hlost
    have hphase := hsafe.phase
    rw [hlost] at hphase
    exact hphase
  · intro hrunning
    have hin := hsafe.phase
    rw [hrunning] at hin
    rw [hsafe.ready.master.int_of_idle hin.master, Chip.waiting, hsafe.masterImr hp₀,
      Finset.sdiff_empty]
    constructor
    · rintro ⟨i, hi⟩
      obtain ⟨n, hn, hwants, -⟩ := (hsafe.mem_irr_iff hp₀ hin i).mp hi
      exact ⟨n, hn, (hwanted n hn).mp hwants⟩
    · rintro ⟨n, hn, hw⟩
      exact ⟨masterLine n, (hsafe.mem_irr_iff hp₀ hin _).mpr ⟨n, hn, (hwanted n hn).mpr hw, rfl⟩⟩

/-- A tick is served. Then the line 3 asks and withdraws its request after the processor has
accepted it, so the master answers with its line 7. In the end a key is waiting. -/
theorem requests_heard_spurious :
    let acts := [IrqStep.line ⟨0, true, by decide⟩, .accept, .pulse 0, .vector 0x20, .act, .act,
      .act, .ret, .line ⟨3, true, by decide⟩, .accept, .line ⟨3, false, by decide⟩, .pulse 7,
      .vector 0x27, .act, .act, .act, .act, .ret, .line ⟨1, true, by decide⟩]
    ∃ s, Runs irqSysStep Any ⟨remappedPair, Kernel.early [], .running⟩ acts s ∧
      (s.pics.master.isr = ∅ ∧ s.pics.slave.isr = ∅) ∧
      (s.pics.master.int = true ↔ ∃ n, Connected n ∧ Wanted remappedPair acts n) := by
  intro acts
  obtain ⟨s, hs, hrunning⟩ : ∃ s, exec irqSysStep Any ⟨remappedPair, Kernel.early [], .running⟩ acts
      = some s ∧ s.phase = .running := ⟨_, rfl, rfl⟩
  obtain ⟨-, -, hasks, hends⟩ := requests_heard remapped_remappedPair (runs_of_exec hs)
  rw [hrunning] at hends
  exact ⟨s, runs_of_exec hs, hends, hasks hrunning⟩

/-- The answers of the controllers. The master answers the first of the lines with a request, and
the slave the first of its own. A controller whose request is gone answers its line 7. -/
def PicAnswer (p₀ : Pair) (acts : List IrqStep) : IrqPhase → IrqStep → Prop
  | .accepted, .pulse i =>
    (∃ n, Connected n ∧ Wanted p₀ acts n ∧ masterLine n = i ∧
      ∀ m, Connected m → Wanted p₀ acts m → i ≤ masterLine m) ∨
    (i = line 7 ∧ ∀ n, Connected n → ¬Wanted p₀ acts n)
  | .answered i, .vector v =>
    if i = CASCADE then
      (∃ n : Fin 16, 8 ≤ n.val ∧ Wanted p₀ acts n ∧ v.toNat = 32 + n.val ∧
        ∀ m : Fin 16, 8 ≤ m.val → Wanted p₀ acts m → n ≤ m) ∨
      (v = 47 ∧ ∀ n : Fin 16, 8 ≤ n.val → ¬Wanted p₀ acts n)
    else v.toNat = 32 + i.val
  | _, _ => True

section
variable {p₀ : Pair} {s s' : IrqSys} {acts : List IrqStep}

/-- The answer of the master. -/
theorem Safe.answered_pulse (hsafe : Safe p₀ s) (hp₀ : Remapped p₀)
    (hwanted : ∀ n, Connected n → (s.pics.Wants (irqInput n) ↔ Wanted p₀ acts n))
    (hphase : s.phase = .accepted) : PicAnswer p₀ acts .accepted (.pulse s.pics.ack₁.1) := by
  have hin := hsafe.phase
  rw [hphase] at hin
  have hmem := hsafe.mem_irr_iff hp₀ hin
  rcases hsafe.ready.master.ack_first hin.master (hsafe.masterImr hp₀) with
    ⟨hack, hfirst⟩ | ⟨hack, hnone⟩
  · obtain ⟨n, hn, hwants, hline⟩ := (hmem _).mp hack
    refine Or.inl ⟨n, hn, (hwanted n hn).mp hwants, hline, fun m hm hw => ?_⟩
    have hle := hfirst _ ((hmem (masterLine m)).mpr ⟨m, hm, (hwanted m hm).mpr hw, rfl⟩)
    rw [hsafe.mode.master.lowest, hp₀.masterLowest, rank_of_lowest, rank_of_lowest] at hle
    exact hle
  · refine Or.inr ⟨hack, fun n hn hw => ?_⟩
    have hirr := (hmem (masterLine n)).mpr ⟨n, hn, (hwanted n hn).mpr hw, rfl⟩
    rw [hnone] at hirr
    simp at hirr

/-- The answer of the slave. -/
theorem Safe.answered_slave (hsafe : Safe p₀ s) (hp₀ : Remapped p₀)
    (hwanted : ∀ n, Connected n → (s.pics.Wants (irqInput n) ↔ Wanted p₀ acts n))
    (hisr : s.pics.slave.isr = ∅) {v : UInt8}
    (hv : (0x28 : UInt8) ||| UInt8.ofNat s.pics.slave.ack.1.val = v) :
    PicAnswer p₀ acts (.answered CASCADE) (.vector v) := by
  have hwantedSlave (n : Fin 16) (j : Line) (hn : irqInput n = .inr j) :
      Wanted p₀ acts n ↔ j ∈ s.pics.slave.irr := by
    rw [← hwanted n (connected_of_inr hn), hn]
    exact Iff.rfl
  have hupper (n : Fin 16) (hn : 8 ≤ n.val) : ∃ j, irqInput n = .inr j :=
    ⟨⟨n.val - 8, by omega⟩, (irqInput_inr_iff n _).mpr (by
      show n.val = 8 + (n.val - 8)
      omega)⟩
  rw [PicAnswer, if_pos rfl, ← hv]
  rcases hsafe.ready.slave.ack_first hisr (hsafe.slaveImr hp₀) with ⟨hack, hfirst⟩ | ⟨hack, hnone⟩
  · obtain ⟨n, hn⟩ := exists_irqInput_slave s.pics.slave.ack.1
    have hval := (irqInput_inr_iff n _).mp hn
    refine Or.inl ⟨n, ?_, (hwantedSlave n _ hn).mpr hack, ?_, fun m hm hw => ?_⟩
    · rw [hval]
      exact Nat.le_add_right _ _
    · rw [toNat_slave_vector, hval]
      omega
    · obtain ⟨j, hj⟩ := hupper m hm
      have hle := hfirst j ((hwantedSlave m j hj).mp hw)
      rw [hsafe.mode.slave.lowest, hp₀.slaveLowest, rank_of_lowest, rank_of_lowest,
        Fin.le_def] at hle
      rw [Fin.le_def, hval, (irqInput_inr_iff m j).mp hj]
      omega
  · refine Or.inr ⟨?_, fun n hn hw => ?_⟩
    · rw [hack]
      rfl
    · obtain ⟨j, hj⟩ := hupper n hn
      have hirr := (hwantedSlave n j hj).mp hw
      rw [hnone] at hirr
      simp at hirr

/-- What the controllers answer in a state of the invariant. -/
theorem Safe.answers (hsafe : Safe p₀ s) (hp₀ : Remapped p₀)
    (hwanted : ∀ n, Connected n → (s.pics.Wants (irqInput n) ↔ Wanted p₀ acts n))
    {a : IrqStep} (hstep : irqSysStep s a = some s') : PicAnswer p₀ acts s.phase a := by
  have hphase := hsafe.phase
  cases irqMove_of_step hstep with
  | pulse haccepted =>
    rw [haccepted]
    exact hsafe.answered_pulse hp₀ hwanted haccepted
  | @vector i v hanswered hv =>
    rw [hanswered] at hphase ⊢
    by_cases hi : i = CASCADE
    · subst hi
      rw [hsafe.ready.ack₂_self, hsafe.mode.slave.base, hp₀.slaveBase] at hv
      exact hsafe.answered_slave hp₀ hwanted hphase.2.1 hv
    · rw [hsafe.ready.ack₂_of_ne hi, hsafe.mode.master.base, hp₀.masterBase] at hv
      have hv : (0x20 : UInt8) ||| UInt8.ofNat i.val = v := hv
      rw [PicAnswer, if_neg hi, ← hv]
      exact toNat_master_vector i
  | line d => cases s.phase <;> trivial
  | byte b => cases s.phase <;> trivial
  | main m _ => cases s.phase <;> trivial
  | accept _ _ => cases s.phase <;> trivial
  | act _ _ => cases s.phase <;> trivial
  | ret _ => cases s.phase <;> trivial

end

end Chuckles.Proofs
