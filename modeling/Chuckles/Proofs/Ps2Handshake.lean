import Chuckles.Kernel.Ps2

/-!
# `Chuckles.Proofs.Ps2Handshake`: the writes to the PS/2 controller, and its input buffer

The controller can lose a byte that is written while its input buffer is full. A write is safe
when the status was read before it, with `STATUS_IN_FULL` clear, and nothing has been written
in between. Then the history is armed (`Armed`), and a trace whose writes are all safe is
`Handshaken`.

`ps2_write` waits for the input buffer, so its data byte is safe. All of the commands of
`ps2_init` but two are written without a wait, and so is the command of `ps2_write` for port 2:

* `handshaken_ps2Write_iff`: a call of `ps2_write`, behind any history.
* `handshaken_ps2Init_iff`: a run of `ps2_init`. The first command relies on the reads of the
  loop in front of it, and the second one comes right behind a write. So a run that gets there
  is never right.
-/

set_option autoImplicit false

namespace Chuckles.Proofs

open Lib.PortIo Lib.Run Chuckles.Ps2

/-! ### Safe writes -/

/-- A write to the controller. -/
def IsWrite : Event Note → Prop
  | .outb port _ => port = DATA_PORT ∨ port = CMD_PORT
  | _ => False

/-- A read of the status that finds the input buffer empty. -/
def IsClear : Event Note → Prop
  | .inb port status => port = STATUS_PORT ∧ status &&& STATUS_IN_FULL = 0
  | _ => False

/-- The input buffer was found empty, and nothing has been written since then. -/
def Armed (t : List (Event Note)) : Prop :=
  ∃ before e after, t = before ++ e :: after ∧ IsClear e ∧ ∀ e' ∈ after, ¬IsWrite e'

/-- Each write of the trace comes when the history is armed. The history of a trace is what was
done before it, and its own part up to the write. -/
def Handshaken (h t : List (Event Note)) : Prop :=
  ∀ before e after, t = before ++ e :: after → IsWrite e → Armed (h ++ before)

/-- A clear status is not a write. -/
theorem IsClear.not_isWrite {e : Event Note} (h : IsClear e) : ¬IsWrite e := by
  cases e with
  | inb port status => exact id
  | outb port value => exact h.elim
  | note n => exact id

/-- What an event does to the history. -/
theorem armed_snoc (t : List (Event Note)) (e : Event Note) :
    Armed (t ++ [e]) ↔ IsClear e ∨ (Armed t ∧ ¬IsWrite e) := by
  constructor
  · rintro ⟨before, e', after, ht, hclear, hafter⟩
    -- The clear status is the last event, or it comes before it.
    rcases List.eq_nil_or_concat' after with rfl | ⟨after, e'', rfl⟩
    · rcases List.append_inj' ht rfl with ⟨-, he⟩
      cases he
      exact Or.inl hclear
    · rw [← List.cons_append, ← List.append_assoc] at ht
      rcases List.append_inj' ht rfl with ⟨rfl, he⟩
      cases he
      refine Or.inr ⟨⟨before, e', after, rfl, hclear, fun x hx => ?_⟩, ?_⟩
      · exact hafter x (List.mem_append_left _ hx)
      · exact hafter e (List.mem_append_right _ (List.mem_singleton_self _))
  · rintro (hclear | ⟨⟨before, e', after, rfl, hclear, hafter⟩, hwrite⟩)
    · exact ⟨t, e, [], rfl, hclear, nofun⟩
    · refine ⟨before, e', after ++ [e], by rw [List.append_assoc, List.cons_append], hclear, ?_⟩
      intro x hx
      rcases List.mem_append.mp hx with hx | hx
      · exact hafter x hx
      · rw [List.mem_singleton.mp hx]
        exact hwrite

/-- What an event does to the trace. -/
theorem handshaken_snoc (h t : List (Event Note)) (e : Event Note) :
    Handshaken h (t ++ [e]) ↔ Handshaken h t ∧ (IsWrite e → Armed (h ++ t)) := by
  constructor
  · intro hall
    refine ⟨fun before e' after ht => hall before e' (after ++ [e]) ?_, hall t e [] rfl⟩
    rw [ht, List.append_assoc, List.cons_append]
  · rintro ⟨hall, hlast⟩ before e' after ht
    rcases List.eq_nil_or_concat' after with rfl | ⟨after, e'', rfl⟩
    · rcases List.append_inj' ht rfl with ⟨rfl, he⟩
      cases he
      exact hlast
    · rw [← List.cons_append, ← List.append_assoc] at ht
      rcases List.append_inj' ht rfl with ⟨ht, -⟩
      exact hall before e' after ht

/-- Nothing has been written. -/
theorem handshaken_nil (h : List (Event Note)) : Handshaken h [] := by
  intro before e after ht
  simp at ht

/-! ### The programs -/

/-- A triple about the trace. -/
abbrev Traces {α : Type} (P : List (Event Note) → Prop) (m : Driver α)
    (Q : α → List (Event Note) → Prop) (W : List (Event Note) → Prop) : Prop :=
  Triple (watch history) Any P m Q W

/-- All writes so far were safe, and the next one will be. -/
def Ready (h t : List (Event Note)) : Prop := Handshaken h t ∧ Armed (h ++ t)

/-- All writes so far were safe, and the next one will not be. -/
def Spent (h t : List (Event Note)) : Prop := Handshaken h t ∧ ¬Armed (h ++ t)

/-- Some write was not safe. -/
def Broken (h t : List (Event Note)) : Prop := ¬Handshaken h t

section
variable (h t : List (Event Note)) (e : Event Note)

/-- What is no write keeps the trace right. -/
theorem handshaken_history (he : ¬IsWrite e) (ht : Handshaken h t) :
    Handshaken h (history t e) :=
  (handshaken_snoc h t e).mpr ⟨ht, fun hwrite => absurd hwrite he⟩

/-- After a clear status the next write is safe. -/
theorem ready_history (he : IsClear e) (ht : Handshaken h t) : Ready h (history t e) := by
  refine ⟨handshaken_history h t e he.not_isWrite ht, ?_⟩
  show Armed (h ++ (t ++ [e]))
  rw [← List.append_assoc]
  exact (armed_snoc _ e).mpr (Or.inl he)

/-- A write uses it up. -/
theorem spent_history (he : IsWrite e) (ht : Ready h t) : Spent h (history t e) := by
  refine ⟨(handshaken_snoc h t e).mpr ⟨ht.1, fun _ => ht.2⟩, ?_⟩
  show ¬Armed (h ++ (t ++ [e]))
  rw [← List.append_assoc, armed_snoc]
  rintro (hclear | ⟨-, hwrite⟩)
  · exact hclear.not_isWrite he
  · exact hwrite he

/-- And the next write is wrong. -/
theorem broken_history (he : IsWrite e) (ht : ¬Armed (h ++ t)) : Broken h (history t e) :=
  fun hall => ht (((handshaken_snoc h t e).mp hall).2 he)

end

section
variable {α β : Type} (h : List (Event Note))

/-- Wrong once, wrong forever. -/
theorem broken_of_broken (m : Driver α) :
    Traces (Broken h) m (fun _ => Broken h) (Broken h) := by
  refine Triple.invariant ?_ m
  rintro t (e | d) t' ht - hnext
  · cases hnext
    exact fun hall => ht ((handshaken_snoc h t e).mp hall).1
  · exact d.elim

/-- A program whose first write is not safe. -/
theorem broken_of_outb {P : List (Event Note) → Prop} (hP : ∀ t, P t → ¬Armed (h ++ t))
    (value : UInt8) (k : Unit → Driver α) :
    Traces P (outb CMD_PORT value >>= k) (fun _ => Broken h) (Broken h) :=
  Triple.bind (outb_watch fun t ht => broken_history h t _ (Or.inr rfl) (hP t ht))
    fun x => broken_of_broken h (k x)

/-- A read of any port. -/
theorem traces_inb (port : UInt16) :
    Traces (Handshaken h) (inb port) (fun _ => Handshaken h) (Handshaken h) :=
  inb_watch (fun _ ht => ht) fun _ t ht => handshaken_history h t _ id ht

/-- A text on the serial port. -/
theorem traces_writes (P : List (Event Note) → Prop) (s : String) :
    Traces (Handshaken h) (writes s) (fun _ => Handshaken h) P :=
  note_watch fun t ht => handshaken_history h t _ id ht

/-- A number on the serial port. -/
theorem traces_writed (P : List (Event Note) → Prop) (i : Int32) :
    Traces (Handshaken h) (writed i) (fun _ => Handshaken h) P :=
  note_watch fun t ht => handshaken_history h t _ id ht

/-- The report of a configuration byte. -/
theorem traces_reportConfig (P : List (Event Note) → Prop) (line : Int32) (text : String)
    (config : UInt8) :
    Traces (Handshaken h) (reportConfig line text config) (fun _ => Handshaken h) P := by
  refine Triple.bind (traces_writed h P _) fun _ => ?_
  refine Triple.bind (traces_writes h P _) fun _ => ?_
  exact traces_writed h P _

/-- A safe write. -/
theorem traces_outb (P : List (Event Note) → Prop) {port : UInt16}
    (hport : port = DATA_PORT ∨ port = CMD_PORT) (value : UInt8) :
    Traces (Ready h) (outb port value) (fun _ => Spent h) P :=
  outb_watch fun t ht => spent_history h t _ hport ht

/-- The status, with what its last read says about the next write. -/
def Polled (status : UInt8) (t : List (Event Note)) : Prop :=
  Handshaken h t ∧ (status &&& STATUS_IN_FULL = 0 → Armed (h ++ t))

/-- A read of the status. -/
theorem traces_status :
    Traces (Handshaken h) (inb STATUS_PORT) (Polled h) (Handshaken h) := by
  refine inb_watch (fun _ ht => ht) fun status t ht => ⟨handshaken_history h t _ id ht, ?_⟩
  intro hclear
  have hevent : IsClear (.inb STATUS_PORT status) := ⟨rfl, hclear⟩
  exact (ready_history h t _ hevent ht).2

/-- The loops that wait for the input buffer. -/
theorem traces_doWhile {body : Driver UInt8} (hreads : Reads body)
    (hbody : Traces (Handshaken h) body (Polled h) (Handshaken h)) :
    Traces (Handshaken h) (doWhile (fun status => status &&& STATUS_IN_FULL ≠ 0) body)
      (fun _ => Ready h) (Handshaken h) :=
  (Triple.doWhile (fun _ => stable_watch _ _) hreads hbody fun _ _ _ ht => ht.1).mono
    (fun _ ht => ht) (fun _ _ ht => ⟨ht.1.1, ht.1.2 (not_not.mp ht.2)⟩) fun _ ht => ht

/-- The wait of `ps2_write` ends with the input buffer empty. -/
theorem traces_waitIn : Traces (Handshaken h) waitIn (fun _ => Ready h) (Handshaken h) :=
  traces_doWhile h (reads_inb _) (traces_status h)

/-- `ps2_read`. -/
theorem traces_ps2Read :
    Traces (Handshaken h) Ps2.ps2Read (fun _ => Handshaken h) (Handshaken h) := by
  have hpoll : Traces (Handshaken h)
      (doWhile (fun status => status &&& STATUS_OUT_FULL = 0) (inb STATUS_PORT))
      (fun _ => Handshaken h) (Handshaken h) :=
    (Triple.doWhile (fun _ => stable_watch _ _) (reads_inb _) (traces_inb h _)
      fun _ _ _ ht => ht).mono (fun _ ht => ht) (fun _ _ ht => ht.1) fun _ ht => ht
  refine Triple.bind hpoll fun _ => ?_
  refine Triple.bind (traces_inb h _) fun _ => ?_
  refine Triple.bind (traces_inb h _) fun _ => ?_
  refine Triple.bind (note_watch fun t ht => handshaken_history h t _ id ht) fun _ => ?_
  exact pure_watch _ fun _ ht => ht

/-- `ps2_write`, behind its command for port 2. -/
theorem traces_ps2Write {port : UInt8} (hport : port ≠ 2) (data : UInt8) :
    Traces (Handshaken h) (ps2Write port data) (fun _ => Spent h) (Handshaken h) := by
  have hselect :
      Traces (Handshaken h) (selectPort port) (fun _ => Handshaken h) (Handshaken h) := by
    rw [selectPort, if_neg hport]
    exact pure_watch _ fun _ ht => ht
  refine Triple.bind hselect fun _ => ?_
  refine Triple.bind (traces_waitIn h) fun _ => ?_
  exact traces_outb h _ (Or.inl rfl) _

/-- `ps2_write` to port 2, whose command is written behind a poll. -/
theorem traces_ps2Write_two (data : UInt8) :
    Traces (Ready h) (ps2Write 2 data) (fun _ => Spent h) (Handshaken h) := by
  have hselect : Traces (Ready h) (selectPort 2) (fun _ => Handshaken h) (Handshaken h) := by
    rw [selectPort, if_pos rfl]
    exact (traces_outb h _ (Or.inr rfl) _).mono (fun _ ht => ht) (fun _ _ ht => ht.1) fun _ ht => ht
  refine Triple.bind hselect fun _ => ?_
  refine Triple.bind (traces_waitIn h) fun _ => ?_
  exact traces_outb h _ (Or.inl rfl) _

/-- `ps2_init` up to its first command. -/
theorem traces_clearPorts :
    Traces (Handshaken h) clearPorts (fun _ => Handshaken h) (Handshaken h) := by
  have hport : CMD_PORT.toUInt8 ≠ 2 := by decide
  have hwrite (data : UInt8) : Traces (Handshaken h) (ps2Write CMD_PORT.toUInt8 data)
      (fun _ => Handshaken h) (Handshaken h) :=
    (traces_ps2Write h hport data).mono (fun _ ht => ht) (fun _ _ ht => ht.1) fun _ ht => ht
  have hflush : Traces (Handshaken h) flush (fun _ => Handshaken h) (Handshaken h) :=
    Triple.bind (traces_inb h _) fun status =>
      (Triple.whileM (fun _ => stable_watch _ _) (fun _ => (reads_inb _).bind _)
        (fun _ _ => Triple.bind (traces_inb h _) fun _ => traces_inb h _) status).mono
        (fun _ ht => ht) (fun _ _ ht => ht.1) fun _ ht => ht
  refine Triple.bind (traces_writes h _ _) fun _ => ?_
  refine Triple.bind (Triple.bind (hwrite _) fun _ => hwrite _) fun _ => ?_
  refine Triple.bind hflush fun _ => ?_
  exact pure_watch _ fun _ ht => ht

/-- The first command, and what follows up to the second one. -/
def configure : Driver (UInt8 × UInt8) := do
  let config ← readConfig
  storeConfig config

/-- The configuration byte is read and written back. -/
theorem traces_configure :
    Traces (Ready h) configure (fun _ => Spent h) (Handshaken h) := by
  have hread : Traces (Ready h) readConfig (fun _ => Handshaken h) (Handshaken h) :=
    Triple.bind ((traces_outb h _ (Or.inr rfl) _).mono (fun _ ht => ht) (fun _ _ ht => ht.1)
      fun _ ht => ht) fun _ => traces_ps2Read h
  have hcount (config : UInt8) :
      Traces (Handshaken h) (countPorts config) (fun _ => Handshaken h) (Handshaken h) := by
    unfold countPorts
    split
    · refine Triple.bind (traces_reportConfig h _ _ _ _) fun _ => ?_
      refine Triple.bind (traces_writes h _ _) fun _ => ?_
      exact pure_watch _ fun _ ht => ht
    · exact pure_watch _ fun _ ht => ht
  have hpoll : Traces (Handshaken h) (doWhile (fun status => status &&& STATUS_IN_FULL ≠ 0) do
      let status ← inb STATUS_PORT
      writes "poll "
      pure status) (fun _ => Ready h) (Handshaken h) := by
    refine traces_doWhile h ((reads_inb _).bind _) ?_
    -- The print comes between the read of the status and the test.
    have hprint (status : UInt8) :
        Traces (Polled h status) (writes "poll ") (fun _ => Polled h status) (Handshaken h) := by
      refine note_watch fun t ht => ⟨handshaken_history h t _ id ht.1, fun hclear => ?_⟩
      show Armed (h ++ (t ++ _))
      rw [← List.append_assoc]
      exact (armed_snoc _ _).mpr (Or.inr ⟨ht.2 hclear, id⟩)
    refine Triple.bind (traces_status h) fun status => ?_
    refine Triple.bind (hprint status) fun _ => ?_
    exact pure_watch _ fun _ ht => ht
  have hcommand : Traces (Ready h) (outb CMD_PORT 0x60) (fun _ => Handshaken h) (Handshaken h) :=
    (traces_outb h _ (Or.inr rfl) _).mono (fun _ ht => ht) (fun _ _ ht => ht.1) fun _ ht => ht
  refine Triple.bind hread fun config => ?_
  refine Triple.bind (hcount config) fun n => ?_
  refine Triple.bind (traces_reportConfig h _ _ _ _) fun _ => ?_
  refine Triple.bind (traces_reportConfig h _ _ _ _) fun _ => ?_
  refine Triple.bind hpoll fun _ => ?_
  refine Triple.bind hcommand fun _ => ?_
  refine Triple.bind (traces_ps2Write h (by decide) _) fun _ => ?_
  exact pure_watch _ fun _ ht => ht

end

/-! ### The result -/

/-- `ps2_init`, cut in front of its first and of its second command 0x20. -/
theorem ps2Init_eq : ∃ k : UInt8 × UInt8 → Unit → Driver UInt8,
    ps2Init = clearPorts >>= fun _ => configure >>= fun x => outb CMD_PORT 0x20 >>= k x := by
  refine ⟨fun x _ => do
    reportConfig 115 ": before, config byte = " x.2
    let config ← Ps2.ps2Read
    reportConfig 119 ": after, config byte = " config
    selfTest
    let numPorts ← channelTest x.1
    portTests numPorts
    let config ← enableIrqs
    enableDevices numPorts
    resetDevices numPorts
    detectDevice
    lastConfig config
    pure numPorts, ?_⟩
  simp only [ps2Init, configure, rereadConfig, bind_assoc, pure_bind]

section
variable {α : Type} {m : Driver α} {P W : List (Event Note) → Prop}
  {Q : α → List (Event Note) → Prop}

/-- A triple about the trace, behind a trace. -/
theorem run_of_traces (hm : Traces P m Q W) (as : List UInt8) {t : List (Event Note)} (ht : P t) :
    (∀ a rest, (m.run as).result = some (a, rest) → Q a (t ++ (m.run as).trace)) ∧
      ((m.run as).result = none → W (t ++ (m.run as).trace)) := by
  rw [← foldl_history]
  exact hm.foldl_run as ht

/-- When both conditions are the same. -/
theorem run_of_traces_same (hm : Traces P m (fun _ => W) W) (as : List UInt8)
    {t : List (Event Note)} (ht : P t) : W (t ++ (m.run as).trace) := by
  rcases hresult : (m.run as).result with _ | ⟨a, rest⟩
  · exact (run_of_traces hm as ht).2 hresult
  · exact (run_of_traces hm as ht).1 a rest hresult

end

/-- A later call of `ps2_write`. -/
theorem handshaken_ps2Write_iff (h : List (Event Note)) (port data : UInt8) (as : List UInt8) :
    Handshaken h ((ps2Write port data).run as).trace ↔ port ≠ 2 ∨ Armed h := by
  by_cases hport : port = 2
  · subst hport
    by_cases harmed : Armed h
    · have hwrite := (traces_ps2Write_two h data).mono (fun _ ht => ht) (fun _ _ ht => ht.1)
        fun _ ht => ht
      have hready : Ready h [] := ⟨handshaken_nil h, by rwa [List.append_nil]⟩
      exact ⟨fun _ => Or.inr harmed, fun _ => run_of_traces_same hwrite as hready⟩
    · -- The command for port 2 is the first thing that the call does.
      have hwrite : Traces (fun t => ¬Armed (h ++ t)) (ps2Write 2 data) (fun _ => Broken h)
          (Broken h) := by
        rw [ps2Write, selectPort, if_pos rfl]
        exact broken_of_outb h (fun _ ht => ht) _ _
      have hbroken := run_of_traces_same hwrite as (by rwa [List.append_nil] : ¬Armed (h ++ []))
      constructor
      · exact fun hall => absurd hall hbroken
      · rintro (hne | hyes)
        · exact absurd rfl hne
        · exact absurd hyes harmed
  · have hwrite := (traces_ps2Write h hport data).mono (fun _ ht => ht) (fun _ _ ht => ht.1)
      fun _ ht => ht
    exact ⟨fun _ => Or.inl hport, fun _ => run_of_traces_same hwrite as (handshaken_nil h)⟩

/-- A run of `ps2_init` is right up to the second command 0x20, if the first one was safe. -/
theorem handshaken_ps2Init_iff (as : List UInt8) :
    Handshaken [] (ps2Init.run as).trace ↔
      ((clearPorts.run as).result ≠ none → Armed (clearPorts.run as).trace) ∧
        ((clearPorts >>= fun _ => configure).run as).result = none := by
  rcases ps2Init_eq with ⟨k, hinit⟩
  have hclear := run_of_traces_same (traces_clearPorts []) as (handshaken_nil [])
  rw [List.nil_append] at hclear
  rw [hinit]
  rcases hresult : (clearPorts.run as).result with _ | ⟨⟨⟩, rest⟩
  · rw [run_bind_none hresult, run_bind_none hresult]
    exact ⟨fun _ => ⟨fun h => absurd rfl h, rfl⟩, fun _ => hclear⟩
  · rw [run_bind_some hresult, run_bind_some hresult]
    by_cases harmed : Armed (clearPorts.run as).trace
    · -- The first command is safe. What follows it is right, up to the second one.
      have hready : Ready [] (clearPorts.run as).trace := ⟨hclear, harmed⟩
      rcases run_of_traces (traces_configure []) rest hready with ⟨hreturns, hwaits⟩
      rcases hconfigure : (configure.run rest).result with _ | ⟨x, rest'⟩
      · rw [run_bind_none hconfigure]
        exact ⟨fun _ => ⟨fun _ => harmed, rfl⟩, fun _ => hwaits hconfigure⟩
      · -- The data byte has just been written when the second command comes.
        rw [run_bind_some hconfigure, ← List.append_assoc]
        have hspent := hreturns x rest' hconfigure
        have hbroken := run_of_traces_same
          (broken_of_outb [] (fun _ (ht : Spent [] _) => ht.2) 0x20 (k x)) rest' hspent
        exact ⟨fun hall => absurd hall hbroken, fun h => absurd h.2 (by simp)⟩
    · have hbroken := run_of_traces_same (broken_of_outb []
        (P := fun t => ¬Armed ([] ++ t)) (fun _ ht => ht) 0x20
        (fun _ => Ps2.ps2Read >>= fun config => storeConfig config >>= fun x =>
          outb CMD_PORT 0x20 >>= k x)) rest harmed
      have htail : (configure >>= fun x => outb CMD_PORT 0x20 >>= k x)
          = outb CMD_PORT 0x20 >>= fun _ => Ps2.ps2Read >>= fun config =>
            storeConfig config >>= fun x => outb CMD_PORT 0x20 >>= k x := by
        simp only [configure, readConfig, bind_assoc]
      rw [htail]
      exact ⟨fun hall => absurd hall hbroken, fun h => absurd (h.1 (by simp)) harmed⟩

/-- **When the writes are safe.** In a run of `ps2_init`, exactly when the history is armed at the
first command and the run does not get to the second one. In a call of `ps2_write`, behind any
history, exactly when it is not for port 2 or the history is armed. -/
theorem handshake_iff (as : List UInt8) (h : List (Event Note)) (port data : UInt8)
    (as' : List UInt8) :
    (Handshaken [] (ps2Init.run as).trace ↔
      ((clearPorts.run as).result ≠ none → Armed (clearPorts.run as).trace) ∧
        ((clearPorts >>= fun _ => configure).run as).result = none) ∧
    (Handshaken h ((ps2Write port data).run as').trace ↔ port ≠ 2 ∨ Armed h) :=
  ⟨handshaken_ps2Init_iff as, handshaken_ps2Write_iff h port data as'⟩

/-- So no run that returns is right. -/
theorem not_handshaken_of_returns {as rest : List UInt8} {n : UInt8}
    (h : (ps2Init.run as).result = some (n, rest)) : ¬Handshaken [] (ps2Init.run as).trace := by
  rw [handshaken_ps2Init_iff]
  rintro ⟨-, hnone⟩
  rcases ps2Init_eq with ⟨k, hinit⟩
  rw [hinit, ← bind_assoc, run_bind_none hnone] at h
  cases h

/-- A controller that is never busy, and whose first configuration byte is 24: the second command
0x20 comes right behind the write of the data port, without a read of the status. -/
theorem second_command_unguarded :
    ¬Handshaken [] (ps2Init.run ([0, 0, 0] ++ [1, 0x24, 0] ++ [0, 0])).trace := by
  rw [handshaken_ps2Init_iff]
  rintro ⟨-, hnone⟩
  exact absurd hnone (by decide +kernel)

end Chuckles.Proofs
