import Chuckles.Kernel.Ps2Controller
import Chuckles.Proofs.Ps2Events

/-!
# `Chuckles.Proofs.Ps2Replies`: the replies of the PS/2 controller, and the keys

`ps2_init` reads the configuration byte twice before the self-test, and takes the next byte in
the output buffer for it. It means to disable both ports before, but its two calls of `ps2_write`
send these commands to the data port, where they are bytes for the first device
(`ports_clearPorts`). A key that is pressed behind the flush then stands in front of the reply
(`key_stored_as_config`).

`ReplyFirst` is the condition on the steps of a run under which this does not happen. In the
runs that meet it, the driver waits in one of two states: the reply is owed and the buffer is
free, or the reply is there (`Asked`). `replies_right` follows for every initial state of the
controller and every interleaving.
-/

set_option autoImplicit false

namespace Chuckles.Proofs

open Lib.PortIo Lib.Run Chuckles.Ps2

/-! ### The parts of `ps2_init` -/

/-- `ps2_init` from its first command up to the self-test. The result has both bytes that are
stored in `config`, with the number of ports in between. -/
def configReads : Driver (UInt8 × UInt8 × UInt8) := do
  let config ← readConfig
  let (numPorts, stored) ← storeConfig config
  let config' ← rereadConfig stored
  pure (config, numPorts, config')

/-- `ps2_init` begins with these parts. -/
theorem ps2Init_eq_configReads :
    ps2Init = (do
      clearPorts
      let (_, numPorts, _) ← configReads
      selfTest
      let numPorts ← channelTest numPorts
      portTests numPorts
      let config ← enableIrqs
      enableDevices numPorts
      resetDevices numPorts
      detectDevice
      lastConfig config
      pure numPorts) := by
  simp only [ps2Init, configReads, bind_assoc, pure_bind]

/-- All of it, from the beginning up to the self-test. -/
def setup : Driver (UInt8 × UInt8 × UInt8) := do
  clearPorts
  configReads

/-! ### The reads -/

/-- A reply to the command 0x20, which is the configuration byte of that moment. -/
def Taken.Right (t : Taken) : Prop := t.source = .config ∧ t.byte = t.config

/-- The reads of the data port since the first command 0x20 were replies, and these are their
bytes. Without such a command there is nothing to read. -/
def ReadsRight : Option (List UInt8) → Controller → Prop
  | none, c => c.taken = none
  | some bytes, c =>
    ∃ reads, c.taken = some reads ∧ (∀ t ∈ reads, Taken.Right t) ∧ reads.map Taken.byte = bytes

/-- When the command 0x20 is written the buffer is empty, or it has the right reply already. After
the first one, no device puts a byte there while a reply is owed. -/
def ReplyFirst (c : Controller) : Event Note ⊕ Spontaneous → Prop
  | .inl (.outb port value) =>
    port = CMD_PORT ∧ value = 0x20 → c.buffer = none ∨ c.buffer = some (.config, c.config)
  | .inr (.device1 _) => c.taken = none ∨ c.owed = false
  | .inr (.device2 _) => c.taken = none ∨ c.owed = false
  | _ => True

instance (c : Controller) : (a : Event Note ⊕ Spontaneous) → Decidable (ReplyFirst c a)
  | .inl (.outb _ _) => inferInstanceAs (Decidable (_ → _))
  | .inr (.device1 _) => inferInstanceAs (Decidable (_ ∨ _))
  | .inr (.device2 _) => inferInstanceAs (Decidable (_ ∨ _))
  | .inl (.inb _ _) | .inl (.note _) | .inr .reply => inferInstanceAs (Decidable True)

/-! ### One step -/

/-- What the controller does by itself: it leaves everything but the buffer and the owed reply
as it is, and fills a free buffer. -/
theorem step_spontaneous {c c' : Controller} {d : Spontaneous} (h : c.step (.inr d) = some c') :
    c.buffer = none ∧ c'.taken = c.taken ∧ c'.config = c.config ∧
      (d = .reply → c'.buffer = some (.config, c.config)) := by
  have hput {c c' : Controller} {source : Source} {b : UInt8} (h : c.put source b = some c') :
      c.buffer = none ∧ c' = { c with buffer := some (source, b) } := by
    unfold Controller.put at h
    split at h
    · rename_i hfree
      exact ⟨hfree, (Option.some.inj h).symm⟩
    · cases h
  cases d with
  | device1 b =>
    simp only [Controller.step] at h
    split at h
    · rcases hput h with ⟨hfree, rfl⟩
      exact ⟨hfree, rfl, rfl, nofun⟩
    · cases h
  | device2 b =>
    simp only [Controller.step] at h
    split at h
    · rcases hput h with ⟨hfree, rfl⟩
      exact ⟨hfree, rfl, rfl, nofun⟩
    · cases h
  | reply =>
    simp only [Controller.step] at h
    split at h
    · rcases hput h with ⟨hfree, rfl⟩
      exact ⟨hfree, rfl, rfl, fun _ => rfl⟩
    · cases h

/-- Only the command 0x20 begins a list of reads. -/
theorem command_taken (c : Controller) {value : UInt8} (h : value ≠ 0x20) :
    (c.command value).taken = c.taken := by
  unfold Controller.command
  rw [if_neg h]
  repeat' split
  all_goals rfl

/-- A write to the data port takes nothing. -/
theorem data_taken (c : Controller) (value : UInt8) : (c.data value).taken = c.taken := by
  unfold Controller.data
  split
  all_goals rfl

section
variable {ok : Controller → Event Note ⊕ Spontaneous → Prop}

/-- Only what was taken matters. -/
theorem ReadsRight.congr {bytes : Option (List UInt8)} {c c' : Controller}
    (h : ReadsRight bytes c) (htaken : c'.taken = c.taken) : ReadsRight bytes c' := by
  cases bytes with
  | none => exact htaken.trans h
  | some bytes =>
    rcases h with ⟨reads, hreads, hright⟩
    exact ⟨reads, htaken.trans hreads, hright⟩

/-- The controller takes nothing by itself. -/
theorem stable_readsRight (bytes : Option (List UInt8)) :
    Stable Controller.step ok (ReadsRight bytes) :=
  fun _ _ _ h _ hstep => h.congr (step_spontaneous hstep).2.1

variable (bytes : List UInt8)

/-- The reply is in the buffer. -/
def Replied (c : Controller) : Prop :=
  ReadsRight (some bytes) c ∧ c.buffer = some (.config, c.config)

/-- The reply is owed, and the buffer is free for it, or it is there already. -/
def Asked (c : Controller) : Prop :=
  (ReadsRight (some bytes) c ∧ c.owed = true ∧ c.buffer = none) ∨ Replied bytes c

/-- A full buffer stays as it is. -/
theorem stable_replied : Stable Controller.step ok (Replied bytes) := by
  intro c d c' h _ hstep
  have hfree := (step_spontaneous hstep).1
  rw [h.2] at hfree
  cases hfree

/-- While the reply is owed only the reply can come. -/
theorem stable_asked : Stable Controller.step ReplyFirst (Asked bytes) := by
  intro c d c' h hok hstep
  rcases h with ⟨hreads, howed, -⟩ | h
  · rcases step_spontaneous hstep with ⟨-, htaken, hconfig, hreply⟩
    -- The condition on the run leaves the reply as the only step.
    have hdevice : ¬(c.taken = none ∨ c.owed = false) := by
      rcases hreads with ⟨reads, hsome, -⟩
      rw [hsome, howed]
      simp
    have hd : d = .reply := by
      cases d with
      | device1 b => exact absurd hok hdevice
      | device2 b => exact absurd hok hdevice
      | reply => rfl
    exact Or.inr ⟨hreads.congr htaken, by rw [hreply hd, hconfig]⟩
  · exact Or.inr (stable_replied bytes c d c' h hok hstep)

end

/-! ### The programs -/

/-- A triple beside the controller, in the runs that meet the condition. While the driver waits,
its reads so far were replies. -/
abbrev Answers {α : Type} (P : Controller → Prop) (m : Driver α) (Q : α → Controller → Prop) :
    Prop :=
  Triple Controller.step ReplyFirst P m Q fun c => ∃ bytes, ReadsRight bytes c

/-- A read of the status leaves the controller as it is. -/
theorem step_status {c c' : Controller} {status : UInt8}
    (h : c.step (.inl (.inb STATUS_PORT status)) = some c') :
    c' = c ∧ (status &&& STATUS_OUT_FULL ≠ 0 → c.buffer.isSome = true) := by
  replace h : (if status &&& STATUS_OUT_FULL ≠ 0 ↔ c.buffer.isSome = true then some c else none)
      = some c' := h
  split at h
  · rename_i hiff
    exact ⟨(Option.some.inj h).symm, hiff.mp⟩
  · cases h

/-- So does a note. -/
theorem answers_note {P : Controller → Prop} (hP : Stable Controller.step ReplyFirst P) (n : Note) :
    Answers P (note n) fun _ => P := by
  refine Triple.note hP hP ?_
  rintro c c' h - ⟨⟩
  exact h

/-- The report of a configuration byte. -/
theorem answers_reportConfig {P : Controller → Prop} (hP : Stable Controller.step ReplyFirst P)
    (line : Int32) (text : String) (config : UInt8) :
    Answers P (reportConfig line text config) fun _ => P := by
  refine Triple.bind (answers_note hP _) fun _ => ?_
  refine Triple.bind (answers_note hP _) fun _ => ?_
  exact answers_note hP _

section
variable (bytes : Option (List UInt8))

/-- A step of the controller at an event takes no byte, and is no command 0x20. -/
def TakesNothing (bytes : Option (List UInt8)) (e : Event Note) : Prop :=
  ∀ c c', ReadsRight bytes c → ReplyFirst c (.inl e) → c.step (.inl e) = some c' →
    ReadsRight bytes c'

/-- What all parts do takes nothing from the data port. -/
theorem polite_takesNothing : Polite (TakesNothing bytes) where
  status b c c' h _ hstep := by
    rw [(step_status hstep).1]
    exact h
  data value c c' h _ hstep := by
    cases hstep
    exact h.congr (data_taken c value)
  note n _ c c' h _ hstep := by
    cases hstep
    exact h

/-- A part that takes nothing. -/
theorem answers_of_does {α : Type} {m : Driver α} (hm : Does (TakesNothing bytes) m) :
    Answers (ReadsRight bytes) m fun _ => ReadsRight bytes :=
  (Triple.of_does (stable_readsRight bytes) hm).mono (fun _ h => h) (fun _ _ h => h)
    fun _ h => ⟨bytes, h⟩

/-- The configuration byte is written back. -/
theorem answers_storeConfig (config : UInt8) :
    Answers (ReadsRight bytes) (storeConfig config) fun _ => ReadsRight bytes := by
  refine answers_of_does bytes ((polite_takesNothing bytes).storeConfig ?_ config)
  intro c c' h _ hstep
  cases hstep
  exact h.congr (command_taken c (by decide))

end

/-- Up to the first command there is nothing to log. -/
theorem answers_clearPorts : Answers (ReadsRight none) clearPorts fun _ => ReadsRight none := by
  refine answers_of_does none ((polite_takesNothing none).clearPorts ?_)
  intro b c c' h _ hstep
  replace hstep : c.take b = some c' := hstep
  unfold Controller.take at hstep
  split at hstep
  · cases hstep
    exact h
  split at hstep
  · cases hstep
    show c.taken.map _ = none
    rw [show c.taken = none from h, Option.map_none]
  · cases hstep

section
variable (bytes : List UInt8)

/-- The command 0x20: the reply is the next byte in the buffer, if it is not there already. -/
theorem answers_command {before : Option (List UInt8)} (hbefore : before.getD [] = bytes) :
    Answers (ReadsRight before) (outb CMD_PORT 0x20) fun _ => Asked bytes := by
  refine Triple.outb (stable_readsRight before) (stable_asked bytes) ?_
  intro c c' h hok hstep
  cases hstep
  -- The first command begins the list of reads, and a later one goes on with it.
  have hreads : ReadsRight (some bytes) (c.command 0x20) := by
    subst hbefore
    cases before with
    | none =>
      have hnone : c.taken = none := h
      refine ⟨[], ?_, nofun, rfl⟩
      show some (c.taken.getD []) = some []
      rw [hnone, Option.getD_none]
    | some bytes =>
      rcases h with ⟨reads, hreads, hright⟩
      refine ⟨reads, ?_, hright⟩
      show some (c.taken.getD []) = some reads
      rw [hreads, Option.getD_some]
  rcases hok ⟨rfl, rfl⟩ with hfree | hreply
  · exact Or.inl ⟨hreads, rfl, hfree⟩
  · exact Or.inr ⟨hreads, hreply⟩

/-- The waiting loop of `ps2_read` ends when the reply is there. -/
theorem answers_waitOut :
    Answers (Asked bytes)
      (doWhile (fun status => status &&& STATUS_OUT_FULL = 0) (inb STATUS_PORT))
      fun _ => Replied bytes := by
  have hstable (status : UInt8) : Stable Controller.step ReplyFirst fun c =>
      Asked bytes c ∧ (status &&& STATUS_OUT_FULL ≠ 0 → Replied bytes c) :=
    fun c d c' h hok hstep => ⟨stable_asked bytes c d c' h.1 hok hstep,
      fun hfull => stable_replied bytes c d c' (h.2 hfull) hok hstep⟩
  -- The loop stops at a status with bit 0 set, and the buffer is full from then on.
  refine (Triple.doWhile hstable (reads_inb _) ?_ fun _ _ _ h => h.1).mono (fun _ h => h)
    (fun _ _ h => h.1.2 h.2) fun _ h => h
  refine Triple.inb (stable_asked bytes) hstable ?_ ?_
  · rintro c (h | h)
    · exact ⟨some bytes, h.1⟩
    · exact ⟨some bytes, h.1⟩
  · intro status c c' h _ hstep
    rcases step_status hstep with ⟨hsame, hisSome⟩
    rw [hsame]
    refine ⟨h, fun hfull => ?_⟩
    rcases h with ⟨-, -, hfree⟩ | h
    · rw [hfree] at hisSome
      exact absurd (hisSome hfull) (by decide)
    · exact h

/-- The read of the data port takes the reply. -/
theorem answers_data :
    Answers (Replied bytes) (inb DATA_PORT) fun b => ReadsRight (some (bytes ++ [b])) := by
  refine Triple.inb (stable_replied bytes) (fun b => stable_readsRight (some (bytes ++ [b])))
    (fun c h => ⟨some bytes, h.1⟩) ?_
  rintro b c c' ⟨⟨reads, htaken, hright, hbytes⟩, hbuffer⟩ - hstep
  -- The buffer has the reply, so the byte that is read can only be this one.
  have htake : c.take b = if b = c.config then
      some { c with buffer := none, taken := c.taken.map (· ++ [⟨.config, b, c.config⟩]) }
      else none := by
    unfold Controller.take
    rw [hbuffer]
  replace hstep : c.take b = some c' := hstep
  rw [htake] at hstep
  split at hstep
  · rename_i hb
    cases hstep
    refine ⟨reads ++ [⟨.config, b, c.config⟩], ?_, ?_, ?_⟩
    · show c.taken.map _ = _
      rw [htaken, Option.map_some]
    · intro t ht
      rcases List.mem_append.mp ht with ht | ht
      · exact hright t ht
      · rw [List.mem_singleton.mp ht]
        exact ⟨rfl, hb⟩
    · rw [List.map_append, hbytes]
      rfl
  · cases hstep

/-- `ps2_read`, behind the command. -/
theorem answers_ps2Read :
    Answers (Asked bytes) Ps2.ps2Read fun b => ReadsRight (some (bytes ++ [b])) := by
  have hstatus (b : UInt8) :
      Answers (ReadsRight (some (bytes ++ [b]))) (inb STATUS_PORT)
        fun _ => ReadsRight (some (bytes ++ [b])) :=
    answers_of_does _ (does_inb (polite_takesNothing _).status)
  refine Triple.bind (answers_waitOut bytes) fun _ => ?_
  refine Triple.bind (answers_data bytes) fun b => ?_
  refine Triple.bind (hstatus b) fun _ => ?_
  refine Triple.bind (answers_note (stable_readsRight (some (bytes ++ [b]))) _) fun _ => ?_
  exact Triple.pure (Q := fun b => ReadsRight (some (bytes ++ [b]))) b (stable_readsRight _)

end

/-- Both reads. -/
theorem answers_configReads :
    Answers (ReadsRight none) configReads fun x => ReadsRight (some [x.1, x.2.2]) := by
  have hread : Answers (ReadsRight none) readConfig fun b => ReadsRight (some [b]) :=
    Triple.bind (answers_command [] rfl) fun _ => answers_ps2Read []
  refine Triple.bind hread fun config => ?_
  refine Triple.bind (answers_storeConfig (some [config]) config) ?_
  rintro ⟨numPorts, stored⟩
  -- The reply to the second command may come during the report in front of the read.
  have hreread : Answers (ReadsRight (some [config])) (rereadConfig stored)
      fun b => ReadsRight (some [config, b]) := by
    refine Triple.bind (answers_command [config] rfl) fun _ => ?_
    refine Triple.bind (answers_reportConfig (stable_asked [config]) _ _ _) fun _ => ?_
    refine Triple.bind (answers_ps2Read [config]) fun b => ?_
    refine Triple.bind (answers_reportConfig (stable_readsRight (some [config, b])) _ _ _)
      fun _ => ?_
    exact Triple.pure (Q := fun b => ReadsRight (some [config, b])) b (stable_readsRight _)
  exact Triple.bind hreread fun config' =>
    Triple.pure (Q := fun x : UInt8 × UInt8 × UInt8 => ReadsRight (some [x.1, x.2.2]))
      (config, numPorts, config') (stable_readsRight _)

/-! ### The ports -/

/-- The state of the two ports. -/
def Ports (port1 port2 : Bool) (c : Controller) : Prop := c.port1 = port1 ∧ c.port2 = port2

/-- A byte in the buffer leaves them as they are. -/
theorem ports_put {port1 port2 : Bool} {c c' : Controller} {source : Source} {b : UInt8}
    (h : Ports port1 port2 c) (hput : c.put source b = some c') : Ports port1 port2 c' := by
  unfold Controller.put at hput
  split at hput
  · cases hput
    exact h
  · cases hput

/-- So does a byte that is taken from there. -/
theorem ports_take {port1 port2 : Bool} {c c' : Controller} {b : UInt8}
    (h : Ports port1 port2 c) (htake : c.take b = some c') : Ports port1 port2 c' := by
  unfold Controller.take at htake
  split at htake
  · cases htake
    exact h
  split at htake
  · cases htake
    exact h
  · cases htake

/-- The controller leaves the ports by itself. -/
theorem stable_ports (port1 port2 : Bool) :
    Stable Controller.step Any (Ports port1 port2) := by
  intro c d c' h _ hstep
  cases d
  all_goals
    simp only [Controller.step] at hstep
    split at hstep
    · exact ports_put (by exact h) hstep
    · cases hstep

/-- Without a command the controller leaves them as they are. -/
theorem polite_ports (port1 port2 : Bool) :
    Polite fun e => ∀ c c', Ports port1 port2 c → Any c (Sum.inl (β := Spontaneous) e) →
      c.step (.inl e) = some c' → Ports port1 port2 c' where
  status b c c' h _ hstep := by
    rw [(step_status hstep).1]
    exact h
  data value c c' h _ hstep := by
    cases hstep
    unfold Controller.data
    split
    all_goals exact h
  note n _ c c' h _ hstep := by
    cases hstep
    exact h

/-- **The ports are not disabled.** `ps2_init` writes no command up to the first 0x20, so both
ports are in the end what they were before, whatever the devices do. -/
theorem ports_clearPorts (port1 port2 : Bool) :
    Triple Controller.step Any (Ports port1 port2) clearPorts (fun _ => Ports port1 port2)
      (Ports port1 port2) :=
  Triple.of_does (stable_ports port1 port2)
    ((polite_ports port1 port2).clearPorts fun _ _ _ h _ hstep => ports_take h hstep)

/-! ### The result -/

/-- The run of the driver has read nothing but replies, each of them the configuration byte of its
moment, and they are what it has stored in `config`. -/
structure RepliesRight (as : List UInt8) (c : Controller) : Prop where
  right : ∀ reads, c.taken = some reads → ∀ t ∈ reads, Taken.Right t
  stored : ∀ x rest, (setup.run as).result = some (x, rest) →
    ∃ reads, c.taken = some reads ∧ reads.map Taken.byte = [x.1, x.2.2]

/-- The reads are right in each of these states. -/
theorem ReadsRight.right {bytes : Option (List UInt8)} {c : Controller} (h : ReadsRight bytes c) :
    ∀ reads, c.taken = some reads → ∀ t ∈ reads, Taken.Right t := by
  intro reads hreads
  cases bytes with
  | none =>
    rw [show c.taken = none from h] at hreads
    cases hreads
  | some bytes =>
    rcases h with ⟨reads', hreads', hright, -⟩
    rw [hreads', Option.some.injEq] at hreads
    rw [← hreads]
    exact hright

/-- **When no key is mistaken for a reply.** From every state of the controller and with every
interleaving, in the runs in which the buffer is free for the reply when the command 0x20 is
written, and no device puts a byte there before it. -/
theorem replies_right {as : List UInt8} {c₀ c : Controller} (hstart : c₀.taken = none)
    (h : Beside Controller.step ReplyFirst setup as c₀ c) : RepliesRight as c := by
  have hsetup : Answers (ReadsRight none) setup fun x => ReadsRight (some [x.1, x.2.2]) :=
    Triple.bind answers_clearPorts fun _ => answers_configReads
  rcases hsetup as c₀ c hstart h with ⟨hreturns, hwaits⟩
  constructor
  · rcases hresult : (setup.run as).result with _ | ⟨x, rest⟩
    · rcases hwaits hresult with ⟨bytes, hreads⟩
      exact hreads.right
    · exact (hreturns x rest hresult).right
  · intro x rest hresult
    rcases hreturns x rest hresult with ⟨reads, hreads, -, hbytes⟩
    exact ⟨reads, hreads, hbytes⟩

/-! ### Two runs -/

/-- A trace with the controller's own steps in it. Each comes with the number of the events in
front of it. -/
def weave : List (Nat × Spontaneous) → List (Event Note) → List (Event Note ⊕ Spontaneous)
  | [], t => t.map .inl
  | (n, d) :: ds, t => (t.take n).map .inl ++ .inr d :: weave ds (t.drop n)

/-- The trace is left. -/
theorem filterMap_weave (ds : List (Nat × Spontaneous)) :
    ∀ t, (weave ds t).filterMap Sum.getLeft? = t := by
  have hmap (t : List (Event Note)) :
      (t.map (Sum.inl (β := Spontaneous))).filterMap Sum.getLeft? = t := by
    rw [List.filterMap_map]
    exact List.filterMap_some
  induction ds with
  | nil => exact hmap
  | cons d ds ih =>
    intro t
    rw [weave, List.filterMap_append, List.filterMap_cons, hmap]
    show t.take d.1 ++ (weave ds (t.drop d.1)).filterMap Sum.getLeft? = t
    rw [ih, List.take_append_drop]

/-- A woven trace that can be executed is a run. -/
theorem beside_of_exec {ok : Controller → Event Note ⊕ Spontaneous → Prop}
    [∀ c a, Decidable (ok c a)] {as : List UInt8} {c₀ c : Controller}
    (ds : List (Nat × Spontaneous))
    (h : exec Controller.step ok c₀ (weave ds (setup.run as).trace) = some c) :
    Beside Controller.step ok setup as c₀ c :=
  ⟨_, runs_of_exec h, filterMap_weave ds _⟩

/-- The controller as a BIOS leaves it. -/
def enabled : Controller := ⟨none, true, true, 0x47, none, false, none⟩

/-- With both replies in time, the driver reads 47 and 07. -/
theorem replies_right_quiet :
    RepliesRight [0, 0, 0, 1, 0x47, 0, 0, 0, 1, 0x07, 0]
      { enabled with
        config := 0x07
        taken := some [⟨.config, 0x47, 0x47⟩, ⟨.config, 0x07, 0x07⟩] } :=
  replies_right (rfl : enabled.taken = none)
    (beside_of_exec [(7, .reply), (16, .reply)] (by decide +kernel))

/-- A key that is pressed between the flush and the first command: its byte 1C is read, and stored
in `config`. -/
theorem key_stored_as_config :
    ∃ c, Beside Controller.step Any setup [0, 0, 0, 1, 0x1C, 0] enabled c ∧
      ¬RepliesRight [0, 0, 0, 1, 0x1C, 0] c := by
  refine ⟨{ enabled with owed := true, taken := some [⟨.device, 0x1C, 0x47⟩] },
    beside_of_exec [(6, .device1 0x1C)] (by decide +kernel), fun h => ?_⟩
  have hright := h.right _ rfl ⟨.device, 0x1C, 0x47⟩ (List.mem_singleton_self _)
  cases hright.1

end Chuckles.Proofs
