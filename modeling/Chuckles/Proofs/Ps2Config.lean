import Chuckles.Lib.Segment
import Chuckles.Proofs.Ps2Events

/-!
# `Chuckles.Proofs.Ps2Config`: the configuration bytes that `ps2_init` writes

`ConfigLog` watches a run: the bytes that `ps2_read` returned, and the configuration bytes that
were written. A run that returns writes three of them. `logs_ps2Init` says what they are, for
every behaviour of the controller (`Finished`).

Both masks miss a bit. `& 0x3F` is meant to clear the bits 0, 1 and 6, and leaves the first
two; `& 0x35` clears bit 1, which the step before has just set for the second port. So the
bytes are right only when there was nothing to clear and there is no second port
(`configs_right_iff`).

The triples of this file are the specifications of the parts of `ps2_init`: exact logs up to the
self-test and the second test for two channels, and `Grown` behind them, where no byte that is
read matters for the result.
-/

set_option autoImplicit false

namespace Chuckles.Proofs

open Lib Lib.PortIo Lib.Run Chuckles.Ps2

/-! ### The log of a run -/

/-- The bytes that `ps2_read` returned and the configuration bytes that were written, so far.
A write to the data port is a configuration byte when the last command was 0x60. -/
structure ConfigLog where
  received : List UInt8
  pending : Bool
  written : List UInt8

/-- The log after an event. -/
def ConfigLog.step (l : ConfigLog) : Event Note → ConfigLog
  | .outb port value =>
    if port = CMD_PORT then { l with pending := value = 0x60 }
    else if port = DATA_PORT ∧ l.pending = true then
      { l with pending := false, written := l.written ++ [value] }
    else l
  | .note (.got b) => { l with received := l.received ++ [b] }
  | _ => l

/-- The log of a trace. -/
def configLog (t : List (Event Note)) : ConfigLog := t.foldl ConfigLog.step ⟨[], false, []⟩

/-- A triple about the log, for programs that return. -/
abbrev Logs {α : Type} (P : ConfigLog → Prop) (m : Driver α) (Q : α → ConfigLog → Prop) : Prop :=
  Triple (watch ConfigLog.step) Any P m Q fun _ => True

/-- A command. -/
theorem step_command (r w : List UInt8) (p : Bool) (value : UInt8) :
    ConfigLog.step ⟨r, p, w⟩ (.outb CMD_PORT value) = ⟨r, value = 0x60, w⟩ := rfl

/-- A write to the data port. -/
theorem step_data (r w : List UInt8) (p : Bool) (value : UInt8) :
    ConfigLog.step ⟨r, p, w⟩ (.outb DATA_PORT value)
      = ⟨r, false, if p = true then w ++ [value] else w⟩ := by
  cases p with
  | false => rfl
  | true => rfl

/-! ### Reading and writing -/

section
variable (P : ConfigLog → Prop) (r w : List UInt8) (p : Bool)

/-- A read of a port is not logged. -/
theorem logs_inb (port : UInt16) : Logs P (inb port) fun _ => P :=
  inb_watch (fun _ _ => trivial) fun _ _ h => h

/-- Neither is a print. -/
theorem logs_writes (s : String) : Logs P (writes s) fun _ => P := note_watch fun _ h => h

/-- A number. -/
theorem logs_writed (i : Int32) : Logs P (writed i) fun _ => P := note_watch fun _ h => h

/-- A line on the screen. -/
theorem logs_printf (format : String) (args : List Arg) :
    Logs P (Ps2.printf format args) fun _ => P := note_watch fun _ h => h

/-- Nor a loop that polls a port. -/
theorem logs_doWhile (cond : UInt8 → Prop) [DecidablePred cond] {body : Driver UInt8}
    (hreads : Reads body) (hbody : Logs P body fun _ => P) :
    Logs P (doWhile cond body) fun _ => P :=
  (Triple.doWhile (fun _ => stable_watch _ _) hreads hbody fun _ _ _ h => h).mono
    (fun _ h => h) (fun _ _ h => h.1) fun _ h => h

/-- The wait of `ps2_write`. -/
theorem logs_waitIn : Logs P waitIn fun _ => P :=
  logs_doWhile P _ (reads_inb _) (logs_inb P _)

/-- The report of a configuration byte. -/
theorem logs_reportConfig (line : Int32) (text : String) (config : UInt8) :
    Logs P (reportConfig line text config) fun _ => P := by
  refine Triple.bind (logs_writed P _) fun _ => ?_
  refine Triple.bind (logs_writes P _) fun _ => ?_
  exact logs_writed P _

/-- A write to a port. -/
theorem logs_outb (l : ConfigLog) (port : UInt16) (value : UInt8) :
    Logs (· = l) (outb port value) fun _ l' => l' = l.step (.outb port value) :=
  outb_watch fun _ h => by rw [h]

/-- `ps2_read` leaves the byte in the log. -/
theorem logs_ps2Read : Logs (· = ⟨r, p, w⟩) Ps2.ps2Read fun b l => l = ⟨r ++ [b], p, w⟩ := by
  have hgot (b : UInt8) : Logs (· = ⟨r, p, w⟩) (note (.got b)) fun _ l => l = ⟨r ++ [b], p, w⟩ := by
    refine note_watch fun l h => ?_
    rw [h]
    rfl
  refine Triple.bind (logs_doWhile _ _ (reads_inb _) (logs_inb _ _)) fun _ => ?_
  refine Triple.bind (logs_inb _ _) fun b => ?_
  refine Triple.bind (logs_inb _ _) fun _ => ?_
  refine Triple.bind (hgot b) fun _ => ?_
  exact pure_watch b fun _ h => h

/-- `ps2_write`, to port 1. -/
theorem logs_ps2Write {port : UInt8} (hport : port ≠ 2) (data : UInt8) :
    Logs (· = ⟨r, p, w⟩) (ps2Write port data)
      fun _ l => l = ⟨r, false, if p = true then w ++ [data] else w⟩ := by
  have hselect : Logs (· = ⟨r, p, w⟩) (selectPort port) fun _ l => l = ⟨r, p, w⟩ := by
    rw [selectPort, if_neg hport]
    exact pure_watch _ fun _ h => h
  rw [← step_data]
  refine Triple.bind hselect fun _ => ?_
  refine Triple.bind (logs_waitIn _) fun _ => ?_
  exact logs_outb _ _ _

/-- `ps2_write`, to port 2. -/
theorem logs_ps2Write_two (data : UInt8) :
    Logs (· = ⟨r, p, w⟩) (ps2Write 2 data) fun _ l => l = ⟨r, false, w⟩ := by
  -- The command 0xD4 takes the place of a command 0x60, so the byte is not logged.
  have hselect : Logs (· = ⟨r, p, w⟩) (selectPort 2) fun _ l => l = ⟨r, false, w⟩ := by
    rw [selectPort, if_pos rfl]
    exact logs_outb _ _ _
  refine Triple.bind hselect fun _ => ?_
  refine Triple.bind (logs_waitIn _) fun _ => ?_
  exact logs_outb _ _ _

/-- The controller's configuration byte is read. -/
theorem logs_readConfig : Logs (· = ⟨r, p, w⟩) readConfig fun b l => l = ⟨r ++ [b], false, w⟩ :=
  Triple.bind (logs_outb _ _ _) fun _ => logs_ps2Read r w false

/-! ### The first configuration byte -/

/-- Only `ps2_read`, the commands and a configuration byte change the log. -/
theorem polite_log :
    Polite fun e => ∀ l, l = ⟨r, false, w⟩ → ConfigLog.step l e = ⟨r, false, w⟩ where
  status _ _ h := h
  data _ l h := by rw [h]; rfl
  note n hn l h := by
    cases n with
    | got b => exact absurd rfl (hn b)
    | writes s => exact h
    | writed i => exact h
    | printf format args => exact h

/-- Nothing is logged up to the first command. -/
theorem logs_clearPorts : Logs (· = ⟨r, false, w⟩) clearPorts fun _ l => l = ⟨r, false, w⟩ :=
  (of_does_watch ((polite_log r w).clearPorts fun _ _ h => h)).mono (fun _ h => h)
    (fun _ _ h => h) fun _ _ => trivial

/-- The number of ports that a configuration byte shows. -/
def channels (config : UInt8) : UInt8 := if singleChannel config then 1 else 2

/-- The number of ports. -/
theorem logs_countPorts (config : UInt8) :
    Logs P (countPorts config) fun n l => n = channels config ∧ P l := by
  unfold countPorts channels
  split
  · refine Triple.bind (logs_reportConfig P _ _ _) fun _ => ?_
    refine Triple.bind (logs_writes P _) fun _ => ?_
    exact pure_watch _ fun _ h => ⟨rfl, h⟩
  · exact pure_watch _ fun _ h => ⟨rfl, h⟩

/-- The masked byte is written. -/
theorem logs_storeConfig (config : UInt8) :
    Logs (· = ⟨r, p, w⟩) (storeConfig config) fun x l =>
      x = (channels config, config &&& 0x3F) ∧ l = ⟨r, false, w ++ [config &&& 0x3F]⟩ := by
  refine Triple.bind (logs_countPorts _ _) fun n => Triple.of_fact ?_
  rintro rfl
  have hpoll : Logs (· = ⟨r, p, w⟩) (doWhile (fun status => status &&& STATUS_IN_FULL ≠ 0) do
      let status ← inb STATUS_PORT
      writes "poll "
      pure status) fun _ l => l = ⟨r, p, w⟩ := by
    refine logs_doWhile _ _ ((reads_inb _).bind _) ?_
    refine Triple.bind (logs_inb _ _) fun _ => ?_
    refine Triple.bind (logs_writes _ _) fun _ => ?_
    exact pure_watch _ fun _ h => h
  refine Triple.bind (logs_reportConfig _ _ _ _) fun _ => ?_
  refine Triple.bind (logs_reportConfig _ _ _ _) fun _ => ?_
  -- The command sets `pending`, so the byte of `ps2_write` is logged.
  refine Triple.bind hpoll fun _ => ?_
  refine Triple.bind (logs_outb _ _ _) fun _ => ?_
  refine Triple.bind (logs_ps2Write r w true (by decide) _) fun _ => ?_
  exact pure_watch _ fun _ h => ⟨rfl, h⟩

/-- The second read logs its byte. -/
theorem logs_rereadConfig (config : UInt8) :
    Logs (· = ⟨r, p, w⟩) (rereadConfig config) fun b l => l = ⟨r ++ [b], false, w⟩ := by
  refine Triple.bind (logs_outb _ _ _) fun _ => ?_
  refine Triple.bind (logs_reportConfig _ _ _ _) fun _ => ?_
  refine Triple.bind (logs_ps2Read r w false) fun _ => ?_
  refine Triple.bind (logs_reportConfig _ _ _ _) fun _ => ?_
  exact pure_watch _ fun _ h => h

/-! ### The number of ports -/

/-- The replies to the self-test: some requests to wait, and the result. -/
def Replies (fes : List UInt8) (reply : UInt8) : Prop := (∀ b ∈ fes, b = 0xFE) ∧ reply ≠ 0xFE

/-- The self-test logs the bytes that it reads. -/
theorem logs_selfTest :
    Logs (· = ⟨r, p, w⟩) selfTest fun _ l =>
      ∃ fes reply, Replies fes reply ∧ l = ⟨r ++ (fes ++ [reply]), false, w⟩ := by
  -- The loop has read some bytes FE, and the byte that its test is about.
  have hloop (status : UInt8) : Logs (fun l => l = ⟨r ++ [status], false, w⟩)
      (whileM (fun status => status = 0xFE) (fun _ => Ps2.ps2Read) status)
      fun reply l => (∃ fes : List UInt8, (∀ b ∈ fes, b = 0xFE) ∧
        l = ⟨r ++ (fes ++ [reply]), false, w⟩) ∧ ¬reply = 0xFE := by
    refine (Triple.whileM (I := fun x l => ∃ fes : List UInt8, (∀ b ∈ fes, b = 0xFE) ∧
      l = ⟨r ++ (fes ++ [x]), false, w⟩) (fun _ => stable_watch _ _) (fun _ => ?_) ?_ status).mono
      ?_ (fun _ _ h => h) fun _ h => h
    · exact Reads.bind_right fun _ => (reads_inb _).bind _
    · rintro x rfl
      refine Triple.of_exists fun fes => Triple.of_fact fun hfes => ?_
      refine (logs_ps2Read _ w false).mono (fun _ h => h) (fun b l h => ?_) fun _ h => h
      refine ⟨fes ++ [0xFE], ?_, ?_⟩
      · simpa [or_imp, forall_and] using hfes
      · rw [h, List.append_assoc]
    · rintro l rfl
      exact ⟨[], nofun, rfl⟩
  refine Triple.bind (logs_outb _ _ _) fun _ => ?_
  refine Triple.bind (logs_ps2Read r w false) fun status => ?_
  refine Triple.bind (hloop status) fun reply => ?_
  have hresult : ∀ l : ConfigLog, ((∃ fes : List UInt8, (∀ b ∈ fes, b = 0xFE) ∧
      l = ⟨r ++ (fes ++ [reply]), false, w⟩) ∧ ¬reply = 0xFE) →
      ∃ fes reply, Replies fes reply ∧ l = ⟨r ++ (fes ++ [reply]), false, w⟩ := by
    rintro l ⟨⟨fes, hfes, hl⟩, hreply⟩
    exact ⟨fes, reply, ⟨hfes, hreply⟩, hl⟩
  split
  · exact (logs_printf _ _ _).mono hresult (fun _ _ h => h) fun _ h => h
  · exact pure_watch _ hresult

/-- With two ports so far, the second test reads a byte, and it decides. -/
theorem logs_channelTest_two :
    Logs (· = ⟨r, p, w⟩) (channelTest 2) fun n l =>
      ∃ c, n = channels c ∧ l = ⟨r ++ [c], false, w⟩ := by
  rw [channelTest, if_pos rfl]
  refine Triple.bind (logs_ps2Write_two r w p _) fun _ => ?_
  refine Triple.bind (logs_readConfig r w false) fun c => ?_
  by_cases hsingle : singleChannel c
  · rw [if_pos hsingle]
    refine Triple.bind (logs_printf _ _ _) fun _ => ?_
    refine Triple.bind (logs_outb _ _ _) fun _ => ?_
    exact pure_watch _ fun _ h => ⟨c, (if_pos hsingle).symm, h⟩
  · rw [if_neg hsingle]
    exact pure_watch _ fun _ h => ⟨c, (if_neg hsingle).symm, h⟩

/-- With one port there is no second test. -/
theorem logs_channelTest_one : Logs P (channelTest 1) fun n l => n = 1 ∧ P l :=
  pure_watch _ fun _ h => ⟨rfl, h⟩

end

/-! ### The rest of the initialisation -/

/-- More bytes have been read, and the configuration bytes are the same. -/
def Grown (r w : List UInt8) (l : ConfigLog) : Prop := ∃ more, l = ⟨r ++ more, false, w⟩

section
variable (r w : List UInt8)

/-- Everything but the command 0x60 keeps the logs like this. -/
theorem ordinary_grown :
    Ordinary fun e => ∀ l, Grown r w l → Grown r w (l.step e) where
  status _ _ h := h
  read _ _ h := h
  note n hn l h := by
    cases n with
    | got b => exact absurd rfl (hn b)
    | writes s => exact h
    | writed i => exact h
    | printf format args => exact h
  got b := by
    rintro l ⟨more, rfl⟩
    exact ⟨more ++ [b], by rw [← List.append_assoc]; rfl⟩
  data value := by
    rintro l ⟨more, rfl⟩
    exact ⟨more, rfl⟩
  command value hvalue := by
    rintro l ⟨more, rfl⟩
    exact ⟨more, by rw [step_command, decide_eq_false hvalue]⟩

/-- The parts without this command. -/
theorem grown_of_does {α : Type} {m : Driver α}
    (hm : Does (fun e => ∀ l, Grown r w l → Grown r w (l.step e)) m) :
    Logs (Grown r w) m fun _ => Grown r w :=
  (of_does_watch hm).mono (fun _ h => h) (fun _ _ h => h) fun _ _ => trivial

/-- The command 0x60, and the configuration byte. -/
theorem grown_writeConfig (config : UInt8) :
    Logs (Grown r w) (outb CMD_PORT 0x60 >>= fun _ => ps2Write 1 config)
      fun _ => Grown r (w ++ [config]) := by
  refine Triple.of_exists fun more => Triple.bind (logs_outb _ _ _) fun _ => ?_
  exact (logs_ps2Write _ w true (by decide) config).mono (fun _ h => h)
    (fun _ _ h => ⟨more, h⟩) fun _ h => h

/-- The second configuration byte. -/
theorem grown_enableIrqs :
    Logs (Grown r w) enableIrqs fun config l =>
      ∃ c, config = c ||| 0x3 ∧ Grown r (w ++ [config]) l := by
  have hread : Logs (Grown r w) readConfig fun _ => Grown r w :=
    grown_of_does r w (ordinary_grown r w).readConfig
  -- The command and its byte go together: between them the log is not `Grown`.
  have hassoc : enableIrqs = readConfig >>= fun c =>
      (outb CMD_PORT 0x60 >>= fun _ => ps2Write 1 (c ||| 0x3)) >>= fun _ => pure (c ||| 0x3) := by
    rw [enableIrqs]
    exact bind_congr fun c => (bind_assoc _ _ _).symm
  rw [hassoc]
  refine Triple.bind hread fun c => ?_
  refine Triple.bind (grown_writeConfig r w _) fun _ => ?_
  exact pure_watch _ fun _ h => ⟨c, rfl, h⟩

/-- The last configuration byte. -/
theorem grown_lastConfig (config : UInt8) :
    Logs (Grown r w) (lastConfig config) fun _ => Grown r (w ++ [config &&& 0x35]) := by
  have hprint (format : String) (args : List Arg) :
      Logs (Grown r w) (Ps2.printf format args) fun _ => Grown r w :=
    grown_of_does r w ((ordinary_grown r w).printf _ _)
  have hpoll : Logs (Grown r w) (doWhile (fun status => status &&& STATUS_IN_FULL ≠ 0) do
      let status ← inb STATUS_PORT
      Ps2.printf "poll " []
      pure status) fun _ => Grown r w :=
    grown_of_does r w ((ordinary_grown r w).poll ((ordinary_grown r w).printf _ _))
  have hafter := ordinary_grown r (w ++ [config &&& 0x35])
  have htail : Logs (Grown r (w ++ [config &&& 0x35])) (do
      outb CMD_PORT 0x20
      Ps2.printf "/%d: before, config byte = %x\n" [.int 254, .int (byteArg (config &&& 0x35))]
      let config ← Ps2.ps2Read
      Ps2.printf "\\%d: after,  config byte = %x\n" [.int 256, .int (byteArg config)])
      fun _ => Grown r (w ++ [config &&& 0x35]) := by
    refine grown_of_does r _ ?_
    refine (does_outb (hafter.command _ (by decide))).bind fun _ => ?_
    refine (hafter.printf _ _).bind fun _ => ?_
    refine hafter.ps2Read.bind fun _ => ?_
    exact hafter.printf _ _
  have hwrite := Triple.bind (grown_writeConfig r w (config &&& 0x35)) fun _ => htail
  rw [bind_assoc] at hwrite
  refine Triple.bind (hprint _ _) fun _ => ?_
  refine Triple.bind (hprint _ _) fun _ => ?_
  refine Triple.bind hpoll fun _ => ?_
  exact hwrite

end

/-! ### The result -/

/-- The log of a run that has returned. The number of ports comes from the first byte, and
otherwise from the byte behind the reply to the self-test. -/
structure Finished (n : UInt8) (l : ConfigLog) (b₁ b₂ reply c : UInt8) (fes more : List UInt8) :
    Prop where
  received : l.received = b₁ :: b₂ :: (fes ++ reply :: more)
  replies : Replies fes reply
  written : l.written = [b₁ &&& 0x3F, c ||| 0x3, (c ||| 0x3) &&& 0x35]
  ports : n = if singleChannel b₁ then 1 else channels (more.headD 0)
  more : ¬singleChannel b₁ → more ≠ []

/-- The stages of `ps2_init` behind the second test for two channels. -/
theorem logs_afterChannelTest (n : UInt8) (r w : List UInt8) :
    Logs (Grown r w) (do
      portTests n
      let config ← enableIrqs
      enableDevices n
      resetDevices n
      detectDevice
      lastConfig config
      pure n) fun n' l =>
        n' = n ∧ ∃ c, Grown r (w ++ [c ||| 0x3] ++ [(c ||| 0x3) &&& 0x35]) l := by
  refine Triple.bind (grown_of_does r w ((ordinary_grown r w).portTests n)) fun _ => ?_
  refine Triple.bind (grown_enableIrqs r w) fun config => ?_
  refine Triple.of_exists fun c => Triple.of_fact ?_
  rintro rfl
  have hordinary := ordinary_grown r (w ++ [c ||| 0x3])
  refine Triple.bind (grown_of_does r _ (hordinary.enableDevices n)) fun _ => ?_
  refine Triple.bind (grown_of_does r _ (hordinary.resetDevices n)) fun _ => ?_
  refine Triple.bind (grown_of_does r _ hordinary.detectDevice) fun _ => ?_
  refine Triple.bind (grown_lastConfig r _ _) fun _ => ?_
  exact pure_watch _ fun _ h => ⟨rfl, c, h⟩

/-- The log of `ps2_init`. -/
theorem logs_ps2Init :
    Logs (· = ⟨[], false, []⟩) ps2Init fun n l =>
      ∃ b₁ b₂ reply c fes more, Finished n l b₁ b₂ reply c fes more := by
  refine Triple.bind (logs_clearPorts [] []) fun _ => ?_
  refine Triple.bind (logs_readConfig [] [] false) fun b₁ => ?_
  refine Triple.bind (logs_storeConfig _ [] false b₁) ?_
  rintro ⟨numPorts, config⟩
  refine Triple.of_fact fun hports => ?_
  cases hports
  refine Triple.bind (logs_rereadConfig _ _ _ _) fun b₂ => ?_
  refine Triple.bind (logs_selfTest _ _ _) fun _ => ?_
  refine Triple.of_exists fun fes => Triple.of_exists fun reply => Triple.of_fact fun hreplies => ?_
  by_cases hsingle : singleChannel b₁
  · -- One channel from the start: no second test, and no byte behind the self-test matters.
    rw [channels, if_pos hsingle]
    refine Triple.bind (logs_channelTest_one _) fun n => Triple.of_fact ?_
    rintro rfl
    refine (logs_afterChannelTest 1 ([] ++ [b₁] ++ [b₂] ++ (fes ++ [reply]))
      ([] ++ [b₁ &&& 0x3F])).mono ?_ ?_ fun _ h => h
    · rintro l rfl
      exact ⟨[], by rw [List.append_nil]⟩
    · rintro n l ⟨rfl, c, more, rfl⟩
      exact ⟨b₁, b₂, reply, c, fes, more, by simp, hreplies, rfl, (if_pos hsingle).symm,
        fun h => absurd hsingle h⟩
  · -- The byte of the second test comes first behind the reply to the self-test.
    rw [channels, if_neg hsingle]
    refine Triple.bind (logs_channelTest_two _ _ _) fun n => Triple.of_exists fun c' =>
      Triple.of_fact ?_
    rintro rfl
    refine (logs_afterChannelTest _ ([] ++ [b₁] ++ [b₂] ++ (fes ++ [reply]) ++ [c'])
      ([] ++ [b₁ &&& 0x3F])).mono ?_ ?_
      fun _ h => h
    · rintro l rfl
      exact ⟨[], by rw [List.append_nil]⟩
    · rintro n l ⟨rfl, c, more, rfl⟩
      exact ⟨b₁, b₂, reply, c, fes, c' :: more, by simp, hreplies, rfl, (if_neg hsingle).symm,
        fun _ => List.cons_ne_nil _ _⟩

/-- The bytes behind the reply to the self-test. -/
def afterSelfTest (received : List UInt8) : List UInt8 :=
  ((received.drop 2).dropWhile (· = 0xFE)).drop 1

/-- The first configuration byte, or else the byte behind the reply to the self-test, shows one
channel. -/
def OneChannel (received : List UInt8) : Prop :=
  (∃ b ∈ received.head?, singleChannel b) ∨ ∃ b ∈ (afterSelfTest received).head?, singleChannel b

/-- What the configuration bytes of a run should be. -/
structure ConfigsRight (n : UInt8) (l : ConfigLog) : Prop where
  first : ∃ b v, l.received.head? = some b ∧ l.written.head? = some v ∧
    v &&& 0x43 = 0 ∧ v &&& 0x3C = b &&& 0x3C
  last : ∃ v, l.written.getLast? = some v ∧
    v &&& 0x01 ≠ 0 ∧ v &&& 0x40 = 0 ∧ (v &&& 0x02 ≠ 0 ↔ n = 2)

section
variable {n : UInt8} {l : ConfigLog} {b₁ b₂ reply c : UInt8} {fes more : List UInt8}

/-- The bytes behind the replies. -/
theorem Finished.afterSelfTest (h : Finished n l b₁ b₂ reply c fes more) :
    afterSelfTest l.received = more := by
  have hfes : ∀ b ∈ fes, decide (b = 0xFE) = true := fun b hb => decide_eq_true (h.replies.1 b hb)
  rw [Proofs.afterSelfTest, h.received, List.drop_succ_cons, List.drop_succ_cons, List.drop_zero,
    List.dropWhile_append_of_pos hfes, List.dropWhile_cons_of_neg (by simp [h.replies.2]),
    List.drop_succ_cons, List.drop_zero]

/-- The number of ports. -/
theorem Finished.ports_ne_two_iff (h : Finished n l b₁ b₂ reply c fes more) :
    n ≠ 2 ↔ OneChannel l.received := by
  have hchannels (b : UInt8) : channels b ≠ 2 ↔ singleChannel b := by
    unfold channels
    by_cases hb : singleChannel b
    · rw [if_pos hb]
      exact ⟨fun _ => hb, fun _ => by decide⟩
    · rw [if_neg hb]
      exact ⟨fun hne => absurd rfl hne, fun h => absurd h hb⟩
  have hhead : l.received.head? = some b₁ := by rw [h.received, List.head?_cons]
  rw [OneChannel, hhead, h.afterSelfTest, h.ports]
  by_cases hsingle : singleChannel b₁
  · rw [if_pos hsingle]
    exact ⟨fun _ => Or.inl ⟨b₁, rfl, hsingle⟩, fun _ => by decide⟩
  · rw [if_neg hsingle, hchannels]
    rcases List.exists_cons_of_ne_nil (h.more hsingle) with ⟨c', more', rfl⟩
    constructor
    · exact fun hc => Or.inr ⟨c', rfl, hc⟩
    · rintro (⟨b, hb, hone⟩ | ⟨b, hb, hone⟩)
      · cases hb
        exact absurd hone hsingle
      · cases hb
        exact hone

/-- The bits of the last byte. -/
theorem last_bits (c : UInt8) :
    ((c ||| 0x3) &&& 0x35) &&& 0x01 ≠ 0 ∧ ((c ||| 0x3) &&& 0x35) &&& 0x40 = 0 ∧
      ((c ||| 0x3) &&& 0x35) &&& 0x02 = 0 := by
  revert c
  refine forall_byte ?_
  decide +kernel

/-- The two configuration bytes of a run that has returned. -/
theorem Finished.configsRight_iff (h : Finished n l b₁ b₂ reply c fes more) :
    ConfigsRight n l ↔ (∃ b ∈ l.received.head?, b &&& 0x3 = 0) ∧ OneChannel l.received := by
  rcases last_bits c with ⟨hbit0, hbit6, hbit1⟩
  have hhead : l.received.head? = some b₁ := by rw [h.received, List.head?_cons]
  have hfirst : l.written.head? = some (b₁ &&& 0x3F) := by rw [h.written, List.head?_cons]
  have hlast : l.written.getLast? = some ((c ||| 0x3) &&& 0x35) := by rw [h.written]; rfl
  rw [← h.ports_ne_two_iff]
  constructor
  · rintro ⟨⟨b, v, -, hv, hclear, -⟩, v', hv', -, -, hport⟩
    rw [hfirst, Option.some.injEq] at hv
    rw [hlast, Option.some.injEq] at hv'
    rw [← hv, and_and_mask (by decide : (0x3F : UInt8) &&& 0x43 = 0x3)] at hclear
    refine ⟨⟨b₁, hhead, hclear⟩, fun htwo => ?_⟩
    -- With two ports bit 1 should be set, and the mask has cleared it.
    rw [← hv'] at hport
    exact hport.mpr htwo hbit1
  · rintro ⟨⟨b, hb, hclear⟩, hone⟩
    rw [hhead, Option.mem_some_iff] at hb
    subst hb
    refine ⟨⟨b₁, _, hhead, hfirst, ?_, ?_⟩, _, hlast, hbit0, hbit6, ?_⟩
    · rw [and_and_mask (by decide : (0x3F : UInt8) &&& 0x43 = 0x3)]
      exact hclear
    · rw [and_and_mask (by decide : (0x3F : UInt8) &&& 0x3C = 0x3C)]
    · exact ⟨fun h => absurd hbit1 h, fun h => absurd h hone⟩

end

/-- **When the configuration bytes are right.** In a run that returns, exactly when the first
byte that was read had both interrupts off already, and the run ends with one port: the mask
of the first byte leaves the bits 0 and 1, and that of the last byte clears bit 1. -/
theorem configs_right_iff {as rest : List UInt8} {n : UInt8}
    (h : (ps2Init.run as).result = some (n, rest)) :
    ConfigsRight n (configLog (ps2Init.run as).trace) ↔
      (∃ b ∈ (configLog (ps2Init.run as).trace).received.head?, b &&& 0x3 = 0) ∧
        OneChannel (configLog (ps2Init.run as).trace).received := by
  rcases (logs_ps2Init.foldl_run as rfl).1 n rest h with ⟨b₁, b₂, reply, c, fes, more, hfinished⟩
  exact hfinished.configsRight_iff

/-- The answers to a `ps2_read` that finds the byte at once. -/
def ready (b : UInt8) : List UInt8 := [STATUS_OUT_FULL, b, 0]

/-- The answers of a controller that is never busy, with its first configuration byte, and of
devices that acknowledge every command. -/
def quickAnswers (config : UInt8) (two : Bool) : List UInt8 :=
  let second (l : List UInt8) : List UInt8 := if two = true then l else []
  [0, 0, 0] ++ ready config ++ [0, 0] ++ ready (config &&& 0x3F) ++ ready 0x55
    ++ second ([0] ++ ready (config &&& 0x3F)) ++ ready 0 ++ second (ready 0)
    ++ ready (config &&& 0x3F) ++ [0, 0] ++ second [0]
    ++ [0] ++ ready 0xFA ++ second ([0] ++ ready 0xFA)
    ++ [0] ++ ready 0xFA ++ [0] ++ ready 0xFA ++ ready 0 ++ [0] ++ ready 0xFA
    ++ [0, 0] ++ ready ((config &&& 0x3F ||| 0x3) &&& 0x35)

/-- With one channel and the interrupts off, both bytes are right. -/
theorem configs_right_single :
    ConfigsRight 1 (configLog (ps2Init.run (quickAnswers 0x24 false)).trace) := by
  have hhead : (configLog (ps2Init.run (quickAnswers 0x24 false)).trace).received.head?
      = some 0x24 := by decide +kernel
  have hrun : (ps2Init.run (quickAnswers 0x24 false)).result = some (1, []) := by decide +kernel
  exact (configs_right_iff hrun).mpr ⟨⟨0x24, hhead, by decide⟩, Or.inl ⟨0x24, hhead, by decide⟩⟩

/-- With two channels and the interrupts on, as a BIOS leaves them, neither is: the bytes are 07,
07 and 05. -/
theorem configs_wrong_two :
    (ps2Init.run (quickAnswers 0x47 true)).result = some (2, []) ∧
      (configLog (ps2Init.run (quickAnswers 0x47 true)).trace).written = [0x07, 0x07, 0x05] ∧
      ¬ConfigsRight 2 (configLog (ps2Init.run (quickAnswers 0x47 true)).trace) := by
  have hwritten : (configLog (ps2Init.run (quickAnswers 0x47 true)).trace).written
      = [0x07, 0x07, 0x05] := by decide +kernel
  refine ⟨by decide +kernel, hwritten, fun h => ?_⟩
  rcases h.first with ⟨b, v, -, hv, hclear, -⟩
  rw [hwritten, List.head?_cons, Option.some.injEq] at hv
  rw [← hv] at hclear
  exact absurd hclear (by decide)

end Chuckles.Proofs
