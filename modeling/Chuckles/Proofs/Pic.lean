import Chuckles.Kernel.Pic

/-!
# `Chuckles.Proofs.Pic`: `irq_remap` initialises the controllers from any state

The devices may drive their lines between any two of the ten writes. That changes the levels and
the requests only, and `chipConfig` is the rest of a controller. `config_of_runs` says that the
rest is the same as if the writes had been alone.

`irqRemap_initialises` is the main result, from every state of the two controllers, also from the
middle of another initialisation.
-/

set_option autoImplicit false

namespace Chuckles.Proofs

open Lib Lib.PortIo Lib.Run Lib.Pic

/-! ### What the lines do not touch -/

/-- A controller without its lines and its requests. -/
def chipConfig (c : Chip) : Chip := { c with lines := ∅, irr := ∅ }

/-- A line touches nothing else. -/
theorem chipConfig_setLine (c : Chip) (i : Line) (high : Bool) :
    chipConfig (c.setLine i high) = chipConfig c := by
  cases high with
  | false => rfl
  | true => rfl

/-- A write to the odd address has nothing to do with them. -/
theorem chipConfig_writeData (c : Chip) (v : UInt8) :
    chipConfig (c.writeData v) = (chipConfig c).writeData v := by
  rcases c with ⟨_, _, _, _, stage, _, _, _, _, _, _, _, _, _, _, _⟩
  cases stage with
  | ready => rfl
  | icw2 => rfl
  | icw3 => rfl
  | icw4 => rfl

/-- The two controllers without their lines and requests. -/
def pairConfig (p : Pair) : Pair := ⟨chipConfig p.master, chipConfig p.slave⟩

/-- The writes of an initialisation. -/
inductive InitWrite where
  | icw1 (slave : Bool)
  | data (slave : Bool) (v : UInt8)

/-- The write to the port. -/
def InitWrite.event {ν : Type} : InitWrite → Event ν
  | .icw1 false => .outb 0x20 0x11
  | .icw1 true => .outb 0xA0 0x11
  | .data false v => .outb 0x21 v
  | .data true v => .outb 0xA1 v

/-- The write alone. -/
def InitWrite.run (p : Pair) : InitWrite → Pair
  | .icw1 false => { p with master := chipConfig (p.master.writeCommand 0x11) }
  | .icw1 true => { p with slave := chipConfig (p.slave.writeCommand 0x11) }
  | .data false v => { p with master := p.master.writeData v }
  | .data true v => { p with slave := p.slave.writeData v }

/-- The writes of `irq_remap`. -/
def remapWrites : List InitWrite :=
  [.icw1 false, .icw1 true, .data false 0x20, .data true 0x28, .data false 0x04, .data true 0x02,
    .data false 0x01, .data true 0x01, .data false 0x0, .data true 0x0]

/-- `irq_remap` does these writes, in all its runs. -/
theorem irqRemap_trace {ν : Type} (as : List UInt8) :
    ((irqRemap : Prog ν Unit).run as).trace = remapWrites.map InitWrite.event := rfl

/-- The step of the controllers at a write. -/
theorem picStep_write {ν : Type} (p : Pair) (w : InitWrite) :
    ∃ p', picStep (ν := ν) p (.inl w.event) = some p' ∧
      pairConfig p' = InitWrite.run (pairConfig p) w := by
  cases w with
  | icw1 slave =>
    cases slave with
    | false => exact ⟨_, rfl, rfl⟩
    | true =>
      refine ⟨_, rfl, ?_⟩
      show (⟨chipConfig (p.master.setLine CASCADE _), _⟩ : Pair) = _
      rw [chipConfig_setLine]
      rfl
  | data slave v =>
    cases slave with
    | false =>
      refine ⟨_, rfl, ?_⟩
      show (⟨chipConfig (p.master.writeData v), _⟩ : Pair) = _
      rw [chipConfig_writeData]
      rfl
    | true =>
      refine ⟨_, rfl, ?_⟩
      show (⟨chipConfig (p.master.setLine CASCADE _), chipConfig (p.slave.writeData v)⟩ : Pair) = _
      rw [chipConfig_setLine, chipConfig_writeData]
      rfl

/-- A device leaves the rest as it is. -/
theorem pairConfig_setInput (p : Pair) (n : Line ⊕ Line) (high : Bool) :
    pairConfig (p.setInput CASCADE n high) = pairConfig p := by
  cases n with
  | inl i =>
    show (⟨chipConfig (p.master.setLine i high), _⟩ : Pair) = _
    rw [chipConfig_setLine]
    rfl
  | inr j =>
    show (⟨chipConfig (p.master.setLine CASCADE _), chipConfig (p.slave.setLine j high)⟩ : Pair) = _
    rw [chipConfig_setLine, chipConfig_setLine]
    rfl

/-- The induction over the writes of a run. The devices may change a line before and after each of
them. -/
theorem runs_writes {ν : Type} {R : List InitWrite → Pair → Prop}
    (hline : ∀ ws p (d : LineChange), R ws p → R ws (p.setInput CASCADE (irqInput d.irq) d.high))
    (hwrite : ∀ ws p w p', R ws p → picStep (ν := ν) p (.inl (InitWrite.event w)) = some p' →
      R (ws ++ [w]) p')
    {p p' : Pair} {acts : List (Event ν ⊕ LineChange)} (h : Runs picStep Any p acts p')
    (hp : R [] p) : ∀ ws : List InitWrite,
      acts.filterMap Sum.getLeft? = ws.map InitWrite.event → R ws p' := by
  induction h with
  | start =>
      intro ws hws
      cases ws with
      | nil => exact hp
      | cons w ws => cases hws
  | @next acts p₁ p₂ a _ _ hnext ih =>
      intro ws hws
      rw [List.filterMap_append] at hws
      cases a with
      | inr d =>
        cases hnext
        have hnone : [(.inr d : Event ν ⊕ LineChange)].filterMap Sum.getLeft? = [] := rfl
        rw [hnone, List.append_nil] at hws
        exact hline ws p₁ d (ih ws hws)
      | inl e =>
        -- The last write is the last event.
        rcases List.eq_nil_or_concat ws with rfl | ⟨ws, w, rfl⟩
        · simp at hws
        · rw [List.concat_eq_append] at hws ⊢
          rw [List.map_append] at hws
          obtain ⟨hbefore, hlast⟩ := List.append_inj' hws rfl
          have he : e = w.event := by simpa using hlast
          rw [he] at hnext
          exact hwrite ws p₁ w p₂ (ih ws hbefore) hnext

/-- Among the changes of the lines, the writes do what they do alone. -/
theorem config_of_runs {ν : Type} {p p' : Pair} {acts : List (Event ν ⊕ LineChange)}
    (h : Runs picStep Any p acts p') (ws : List InitWrite)
    (hws : acts.filterMap Sum.getLeft? = ws.map InitWrite.event) :
    pairConfig p' = ws.foldl InitWrite.run (pairConfig p) := by
  refine runs_writes (R := fun ws p₁ => pairConfig p₁ = ws.foldl InitWrite.run (pairConfig p))
    ?_ ?_ h rfl ws hws
  · intro ws p₁ d hp₁
    rw [pairConfig_setInput, hp₁]
  · intro ws p₁ w p₂ hp₁ hstep
    obtain ⟨p₃, hstep', hconfig⟩ := picStep_write (ν := ν) p₁ w
    rw [hstep'] at hstep
    cases hstep
    rw [hconfig, hp₁, List.foldl_append]
    rfl

/-! ### Requests need their lines -/

/-- Each controller that has begun its initialisation remembers requests of high lines only. -/
def Held (ws : List InitWrite) (p : Pair) : Prop :=
  (.icw1 false ∈ ws → p.master.irr ⊆ p.master.lines) ∧
    (.icw1 true ∈ ws → p.slave.irr ⊆ p.slave.lines)

/-- A device keeps this. -/
theorem Held.setInput {ws : List InitWrite} {p : Pair} (h : Held ws p) (d : LineChange) :
    Held ws (p.setInput CASCADE (irqInput d.irq) d.high) := by
  obtain ⟨hmaster, hslave⟩ := h
  cases irqInput d.irq with
  | inl i => exact ⟨fun hws => Chip.setLine_held (hmaster hws) _ _, hslave⟩
  | inr j =>
      exact ⟨fun hws => Chip.setLine_held (hmaster hws) _ _,
        fun hws => Chip.setLine_held (hslave hws) _ _⟩

/-- In every run beside `irq_remap`. -/
theorem held_of_runs {ν : Type} {p p' : Pair} {acts : List (Event ν ⊕ LineChange)}
    (h : Runs picStep Any p acts p') (ws : List InitWrite)
    (hws : acts.filterMap Sum.getLeft? = ws.map InitWrite.event) : Held ws p' := by
  refine runs_writes (fun ws p d hp => hp.setInput d) ?_ h ⟨nofun, nofun⟩ ws hws
  · rintro ws p w p' ⟨hmaster, hslave⟩ hstep
    -- The word 0x11 forgets all requests.
    have hstart (c : Chip) : (c.start 0x11).irr ⊆ (c.start 0x11).lines := Finset.empty_subset _
    have hmem (w' : InitWrite) (hne : w ≠ w') (hw' : w' ∈ ws ++ [w]) : w' ∈ ws := by
      rcases List.mem_append.mp hw' with hw' | hw'
      · exact hw'
      · exact absurd (List.mem_singleton.mp hw').symm hne
    cases w with
    | icw1 slave =>
      cases slave with
      | false =>
        cases hstep
        exact ⟨fun _ => hstart _, fun hw => hslave (hmem _ nofun hw)⟩
      | true =>
        cases hstep
        exact ⟨fun hw => Chip.setLine_held (hmaster (hmem _ nofun hw)) _ _, fun _ => hstart _⟩
    | data slave v =>
      cases slave with
      | false =>
        cases hstep
        exact ⟨fun hw => Chip.writeData_held (hmaster (hmem _ nofun hw)) v,
          fun hw => hslave (hmem _ nofun hw)⟩
      | true =>
        cases hstep
        exact ⟨fun hw => Chip.setLine_held (hmaster (hmem _ nofun hw)) _ _,
          fun hw => Chip.writeData_held (hslave (hmem _ nofun hw)) v⟩

/-! ### What the master knows of the slave -/

/-- The output of the slave reaches the master, which remembers it. -/
def Joined (p : Pair) : Prop := Pair.Linked CASCADE p ∧ Pair.Latched CASCADE p

/-- A write to the odd address of either controller keeps this. -/
theorem joined_data {ν : Type} {p p' : Pair} {slave : Bool} {v : UInt8} (h : Joined p)
    (hstep : picStep (ν := ν) p (.inl (InitWrite.data slave v).event) = some p') : Joined p' := by
  cases slave with
  | true =>
    cases hstep
    exact ⟨Pair.sync_linked _ _, h.1.latched_sync h.2 _⟩
  | false =>
    cases hstep
    have hdata : (p.master.writeData v).lines = p.master.lines ∧
        (p.master.writeData v).irr = p.master.irr := by
      unfold Chip.writeData
      split
      · exact ⟨rfl, rfl⟩
      · exact ⟨rfl, rfl⟩
      · exact ⟨rfl, rfl⟩
      · exact ⟨rfl, rfl⟩
    refine ⟨⟨?_, ?_⟩, fun hint => ?_⟩
    · show CASCADE ∈ (p.master.writeData v).lines ↔ p.slave.int = true
      rw [hdata.1]
      exact h.1.level
    · show CASCADE ∈ (p.master.writeData v).irr → CASCADE ∈ (p.master.writeData v).lines
      rw [hdata.1, hdata.2]
      exact h.1.edge
    · show CASCADE ∈ (p.master.writeData v).irr
      rw [hdata.2]
      exact h.2 hint

/-- The first word of the slave makes it true, whatever the master remembered. -/
theorem joined_icw1 {ν : Type} {p p' : Pair}
    (hstep : picStep (ν := ν) p (.inl (InitWrite.icw1 true).event) = some p') : Joined p' := by
  cases hstep
  refine ⟨Pair.sync_linked _ _, Pair.latched_of_int ?_⟩
  show (p.slave.start 0x11).int = false
  have hwaiting : (p.slave.start 0x11).waiting = ∅ := rfl
  rw [Chip.int, Chip.next, hwaiting, first_eq_none_iff.mpr rfl]
  rfl

/-- From there on it stays true, as long as only the odd addresses are written. -/
theorem joined_of_runs {ν : Type} {p p' : Pair} {acts : List (Event ν ⊕ LineChange)}
    (h : Runs picStep Any p acts p') (pre : List InitWrite) (data : List (Bool × UInt8))
    (hws : acts.filterMap Sum.getLeft? = (pre ++ InitWrite.icw1 true ::
      data.map fun d => InitWrite.data d.1 d.2).map InitWrite.event) : Joined p' := by
  refine runs_writes (R := fun ws p => ∀ data : List (Bool × UInt8),
    ws = pre ++ InitWrite.icw1 true :: data.map (fun d => InitWrite.data d.1 d.2) → Joined p)
    ?_ ?_ h (fun data hnil => by simp at hnil) _ hws data rfl
  · intro ws p d hp data hsplit
    have hjoined := hp data hsplit
    exact ⟨hjoined.1.setInput d.connected d.high,
      hjoined.1.latched_setInput hjoined.2 d.connected d.high⟩
  · intro ws p w p' hp hstep data hsplit
    rcases List.eq_nil_or_concat data with rfl | ⟨data, ⟨slave, v⟩, rfl⟩
    · -- The last write is the first word of the slave.
      obtain ⟨-, hlast⟩ := List.append_inj' hsplit rfl
      rw [List.singleton_inj.mp hlast] at hstep
      exact joined_icw1 hstep
    · have hsplit : ws ++ [w] = (pre ++ InitWrite.icw1 true ::
          data.map fun d => InitWrite.data d.1 d.2) ++ [InitWrite.data slave v] := by
        rw [hsplit]
        simp
      obtain ⟨hbefore, hlast⟩ := List.append_inj' hsplit rfl
      rw [List.singleton_inj.mp hlast] at hstep
      exact joined_data (hp data hbefore) hstep

/-! ### The result -/

/-- The controllers as `irq_remap` leaves them: the master serves its lines with the vectors from
0x20 on, the slave with those from 0x28 on. No line is masked or in service. -/
structure Remapped (p : Pair) : Prop where
  ready : p.Ready CASCADE
  latched : p.Latched CASCADE
  masterBase : p.master.base = 0x20
  slaveBase : p.slave.base = 0x28
  masterImr : p.master.imr = ∅
  slaveImr : p.slave.imr = ∅
  masterIsr : p.master.isr = ∅
  slaveIsr : p.slave.isr = ∅
  masterLowest : p.master.lowest = 7
  slaveLowest : p.slave.lowest = 7
  masterHeld : p.master.irr ⊆ p.master.lines
  slaveHeld : p.slave.irr ⊆ p.slave.lines

/-- A controller behind the words for its vectors and for the cascade, and the empty mask. -/
def initialised (base cascade : UInt8) : Chip where
  lines := ∅
  irr := ∅
  isr := ∅
  imr := bits 0
  stage := .ready
  base := base
  cascade := cascade
  lowest := line 7
  needs4 := true
  single := false
  level := false
  x86 := true
  autoEoi := false
  rotating := false
  specialMask := false
  specialNested := false

/-- The writes alone, from any state. -/
theorem foldl_remapWrites (p : Pair) :
    remapWrites.foldl InitWrite.run p = ⟨initialised 0x20 0x04, initialised 0x28 0x02⟩ := rfl

/-- A controller in this mode. -/
theorem plain_of_config {c : Chip} {base cascade : UInt8}
    (h : chipConfig c = initialised base cascade) : c.Plain :=
  ⟨congrArg Chip.stage h, congrArg Chip.x86 h, congrArg Chip.level h, congrArg Chip.autoEoi h,
    congrArg Chip.specialMask h, congrArg Chip.specialNested h⟩

/-- The controllers right after `irq_remap`, when no line is high. -/
def remappedPair : Pair := ⟨initialised 0x20 0x04, initialised 0x28 0x02⟩

/-- It is remapped. -/
theorem remapped_remappedPair : Remapped remappedPair := by
  have hint : remappedPair.slave.int = false := by decide
  have hbits : bits 0 = ∅ := by decide
  refine ⟨⟨plain_of_config rfl, plain_of_config rfl, by decide, by decide, ⟨?_, ?_⟩⟩,
    Pair.latched_of_int hint, rfl, rfl, hbits, hbits, rfl, rfl, rfl, rfl, Finset.empty_subset _,
    Finset.empty_subset _⟩
  · rw [hint]
    exact ⟨fun h => absurd h (Finset.notMem_empty _), nofun⟩
  · exact fun h => absurd h (Finset.notMem_empty _)

/-- The run of `irq_remap`. -/
theorem remapped_of_beside {ν : Type} {as : List UInt8} {p p' : Pair}
    (h : Beside picStep Any (irqRemap : Prog ν Unit) as p p') : Remapped p' := by
  rcases h with ⟨acts, hruns, htrace⟩
  rw [irqRemap_trace] at htrace
  have hconfig := config_of_runs hruns remapWrites htrace
  have hjoined := joined_of_runs hruns [.icw1 false]
    [(false, 0x20), (true, 0x28), (false, 0x04), (true, 0x02), (false, 0x01), (true, 0x01),
      (false, 0x0), (true, 0x0)] htrace
  have hheld := held_of_runs hruns remapWrites htrace
  rw [foldl_remapWrites] at hconfig
  have hmaster : chipConfig p'.master = initialised 0x20 0x04 := congrArg Pair.master hconfig
  have hslave : chipConfig p'.slave = initialised 0x28 0x02 := congrArg Pair.slave hconfig
  have hbits : bits 0 = ∅ := by decide
  have hcascade : p'.master.cascade = 0x04 := congrArg Chip.cascade hmaster
  have hnumber : p'.slave.cascade = 0x02 := congrArg Chip.cascade hslave
  refine ⟨⟨plain_of_config hmaster, plain_of_config hslave, ?_, ?_, hjoined.1⟩, hjoined.2,
    congrArg Chip.base hmaster, congrArg Chip.base hslave,
    (congrArg Chip.imr hmaster).trans hbits, (congrArg Chip.imr hslave).trans hbits,
    congrArg Chip.isr hmaster, congrArg Chip.isr hslave,
    congrArg Chip.lowest hmaster, congrArg Chip.lowest hslave,
    hheld.1 (by simp [remapWrites]), hheld.2 (by simp [remapWrites])⟩
  · rw [hcascade]
    decide
  · rw [hnumber]
    decide

/-- From any state of the two controllers, and whatever the devices do to the lines in between,
the ten writes of `irq_remap` leave the controllers initialised. -/
theorem irqRemap_initialises {ν : Type} (as : List UInt8) (p p' : Pair)
    (h : Beside picStep Any (irqRemap : Prog ν Unit) as p p') : Remapped p' :=
  remapped_of_beside h

/-- They stay so while the devices drive their lines. -/
theorem Remapped.setInput {p : Pair} (h : Remapped p) (d : LineChange) :
    Remapped (p.setInput CASCADE (irqInput d.irq) d.high) := by
  have hconfig := pairConfig_setInput p (irqInput d.irq) d.high
  have hmaster := congrArg Pair.master hconfig
  have hslave := congrArg Pair.slave hconfig
  have hheld : Held [.icw1 false, .icw1 true] p := ⟨fun _ => h.masterHeld, fun _ => h.slaveHeld⟩
  exact ⟨h.ready.setInput d.connected d.high,
    h.ready.linked.latched_setInput h.latched d.connected d.high,
    (congrArg Chip.base hmaster).trans h.masterBase, (congrArg Chip.base hslave).trans h.slaveBase,
    (congrArg Chip.imr hmaster).trans h.masterImr, (congrArg Chip.imr hslave).trans h.slaveImr,
    (congrArg Chip.isr hmaster).trans h.masterIsr, (congrArg Chip.isr hslave).trans h.slaveIsr,
    (congrArg Chip.lowest hmaster).trans h.masterLowest,
    (congrArg Chip.lowest hslave).trans h.slaveLowest,
    (hheld.setInput d).1 (by simp), (hheld.setInput d).2 (by simp)⟩

/-- No write and no change of a line is refused. -/
theorem picRuns_exist {ν : Type} (p : Pair) (acts : List (Event ν ⊕ LineChange)) :
    ∃ p', Runs picStep Any p acts p' := by
  induction acts generalizing p with
  | nil => exact ⟨p, .start⟩
  | cons a acts ih =>
      obtain ⟨p₁, hstep⟩ : ∃ p₁, picStep p a = some p₁ := by
        rcases a with (_ | _ | _) | _
        · exact ⟨_, rfl⟩
        · exact ⟨_, rfl⟩
        · exact ⟨_, rfl⟩
        · exact ⟨_, rfl⟩
      obtain ⟨p', hrun⟩ := ih p₁
      exact ⟨p', .cons trivial hstep hrun⟩

/-- Two controllers in the middle of an initialisation, with all lines in service. The keyboard's
line goes high in the meantime. -/
theorem irqRemap_initialises_busy :
    let busy : Chip := { initialised 0x08 0x00 with stage := .icw3, isr := Finset.univ }
    ∃ p', Beside picStep Any (irqRemap : Prog Empty Unit) [] ⟨busy, busy⟩ p' ∧ Remapped p' := by
  intro busy
  obtain ⟨p', hrun⟩ := picRuns_exist ⟨busy, busy⟩
    (.inr ⟨1, true, by decide⟩ :: remapWrites.map fun w => .inl (w.event : Event Empty))
  have hbeside : Beside picStep Any (irqRemap : Prog Empty Unit) [] ⟨busy, busy⟩ p' :=
    ⟨_, hrun, rfl⟩
  exact ⟨p', hbeside, irqRemap_initialises [] _ p' hbeside⟩

end Chuckles.Proofs
