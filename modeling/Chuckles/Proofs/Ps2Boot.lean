import Chuckles.Proofs.Ps2Bus
import Chuckles.Proofs.Ps2Config
import Mathlib.Data.List.GetD

/-!
# `Chuckles.Proofs.Ps2Boot`: when `ps2_init` returns

The source of bytes is endless, so no read has to wait for ever, and `ps2_init` can only hang in
one of its loops over replies. There are four of them. The loop behind the reset of the first
device gives up after two retries. The other three do not: the one behind the self-test goes on
as long as the reply is FE, and the two of the detection as long as it is not FA.

The position of the driver in the sequence of bytes is enough to say where each part leaves it
(`At`). `Answered` is the condition on the bytes: a reply to the self-test that is not FE, and two
bytes FA from the beginning of the detection on (`detectionStart`). `ps2Init_returns_iff` is the
result, and `ps2Init_hangs_resending` a device for which `ps2_init` does not return.
-/

set_option autoImplicit false

namespace Chuckles.Proofs

open Lib.PortIo Lib.Run Chuckles.Ps2

/-- A triple of total correctness beside an endless source. -/
abbrev Boots {α : Type} (P : Bus (Stream' UInt8) → Prop) (m : Driver α)
    (Q : α → Bus (Stream' UInt8) → Prop) : Prop :=
  Total (Bus.step endless) P m Q

section
variable (d : Stream' UInt8)

/-- The next byte is the one with the number `k`. -/
def At (k : Nat) (s : Bus (Stream' UInt8)) : Prop := Now (d.drop k) s

/-- From the number `k` on, the first byte of a kind has the number `i`. -/
def First (kind : UInt8 → Prop) (k i : Nat) : Prop :=
  k ≤ i ∧ kind (d.get i) ∧ ∀ j, k ≤ j → j < i → ¬kind (d.get j)

/-- When there is such a byte, there is a first one. -/
theorem first_of_le (kind : UInt8 → Prop) {k n : Nat} (hn : k ≤ n) (hkind : kind (d.get n)) :
    ∃ i ≤ n, First d kind k i := by
  classical
  have h : ∃ i, k ≤ i ∧ kind (d.get i) := ⟨n, hn, hkind⟩
  have hfind := Nat.find_spec h
  exact ⟨Nat.find h, Nat.find_min' h ⟨hn, hkind⟩, hfind.1, hfind.2,
    fun j hj hlt hkind => Nat.find_min h hlt ⟨hj, hkind⟩⟩

/-! ### Reading and writing -/

section
variable (k : Nat)

/-- The source does not see what the driver does. -/
theorem boots_outb (port : UInt16) (value : UInt8) :
    Boots (At d k) (outb port value) fun _ => At d k :=
  total_outb port value

/-- Nor a print. -/
theorem boots_note (n : Note) : Boots (At d k) (note n) fun _ => At d k := total_note n

/-- `ps2_write` takes no byte. -/
theorem boots_ps2Write (port data : UInt8) :
    Boots (At d k) (ps2Write port data) fun _ => At d k := by
  refine (total_ps2Write port data).mono (fun _ h => h) fun _ s h => ?_
  have hsee : seeWrite endless (d.drop k) port data = d.drop k := ite_self _
  rw [hsee] at h
  exact h

/-- The loops that wait for the input buffer, with a print in each pass. -/
theorem boots_poll (n : Note) :
    Boots (At d k) (doWhile (fun status => status &&& STATUS_IN_FULL ≠ 0) do
      let status ← inb STATUS_PORT
      note n
      pure status) fun _ => At d k :=
  total_waitFree (polls_print rfl)

/-- The report of a configuration byte takes no byte. -/
theorem boots_reportConfig (line : Int32) (text : String) (config : UInt8) :
    Boots (At d k) (reportConfig line text config) fun _ => At d k := by
  refine (boots_note d k _).bind fun _ => ?_
  refine (boots_note d k _).bind fun _ => ?_
  exact boots_note d k _

/-- `ps2_read` takes one byte. -/
theorem boots_ps2Read :
    Boots (At d k) Ps2.ps2Read fun b s => b = d.get k ∧ At d (k + 1) s := by
  have htake : endless.take (d.drop k) = some (d.get k, d.drop (k + 1)) := by
    show some ((d.drop k).head, (d.drop k).tail) = _
    rw [Stream'.head_drop, Stream'.tail_drop']
  exact total_ps2Read htake

/-- So does a print in front of it. -/
theorem boots_note_ps2Read (n : Note) :
    Boots (At d k) (note n >>= fun _ => Ps2.ps2Read) fun b s => b = d.get k ∧ At d (k + 1) s :=
  (boots_note d k n).bind fun _ => boots_ps2Read d k

/-- The configuration byte is the next byte. -/
theorem boots_readConfig :
    Boots (At d k) readConfig fun b s => b = d.get k ∧ At d (k + 1) s :=
  (boots_outb d k _ _).bind fun _ => boots_ps2Read d k

end

/-! ### Up to the self-test -/

/-- The flush loop finds the output buffer full `n` times, and then empty. It comes behind two
writes, which wait for an empty input buffer. -/
def Flushed (f : Stream' UInt8) (n : Nat) : Prop :=
  ∃ i j, First f (fun b => b &&& STATUS_IN_FULL = 0) 0 i ∧
    First (f.drop (i + 1)) (fun b => b &&& STATUS_IN_FULL = 0) 0 j ∧
    First ((f.drop (i + 1)).drop (j + 1)) (fun b => b &&& STATUS_OUT_FULL = 0) 0 n

/-- The answers of the status port are those of the schedule. -/
theorem statusByte_endless (f : Stream' UInt8) (k : Nat) :
    Bus.statusByte endless ⟨f.drop k, d⟩ = f.get k :=
  (if_pos rfl).trans (Stream'.head_drop f k)

/-- A write, with the schedule behind it. -/
theorem boots_ps2Write_exact {f : Stream' UInt8} {i : Nat}
    (hi : First f (fun b => b &&& STATUS_IN_FULL = 0) 0 i) {port : UInt8} (hport : port ≠ 2)
    (data : UInt8) :
    Boots (· = ⟨f, d⟩) (ps2Write port data) fun _ s => s = ⟨f.drop (i + 1), d⟩ := by
  have hselect : Boots (· = ⟨f, d⟩) (selectPort port) fun _ s => s = ⟨f, d⟩ := by
    rw [selectPort, if_neg hport]
    exact Total.pure _ fun _ h => h
  have hwait : Boots (· = ⟨f, d⟩) waitIn fun _ s => s = ⟨f.drop (i + 1), d⟩ := by
    refine total_poll polls_inb ?_ fun k hk => ?_
    · rw [statusByte_endless]
      exact not_not.mpr hi.2.1
    · rw [statusByte_endless]
      exact hi.2.2 k (Nat.zero_le k) hk
  refine hselect.bind fun _ => ?_
  refine hwait.bind fun _ => ?_
  refine Total.outb ?_
  rintro s rfl
  exact ⟨_, rfl, rfl⟩

/-- The flush loop discards the bytes that it finds. -/
theorem boots_flush {f : Stream' UInt8} {n : Nat}
    (hn : First f (fun b => b &&& STATUS_OUT_FULL = 0) 0 n) :
    Boots (· = ⟨f, d⟩) flush fun _ s => s = ⟨f.drop (n + 1), d.drop n⟩ := by
  -- Behind the status with the number `k`, as many bytes have been read.
  let P (k : Nat) (s : Bus (Stream' UInt8)) : Prop := s = ⟨f.drop k, d.drop (k - 1)⟩
  have hstatus (k : Nat) (d' : Stream' UInt8) :
      Boots (· = ⟨f.drop k, d'⟩) (inb STATUS_PORT)
        fun b s => b = f.get k ∧ s = ⟨f.drop (k + 1), d'⟩ := by
    refine (total_status (f.drop k)).mono (fun _ h => h) ?_
    rintro b s ⟨rfl, rfl⟩
    rw [statusByte_endless, Stream'.tail_drop']
    exact ⟨rfl, rfl⟩
  have hpass (x : UInt8) (k : Nat) (hk : 0 < k) (_ : k ≤ n) :
      Boots (P k) (inb DATA_PORT >>= fun _ => inb STATUS_PORT)
        fun b s => b = f.get k ∧ P (k + 1) s := by
    have hdata : Boots (P k) (inb DATA_PORT) fun _ s => s = ⟨f.drop k, d.drop k⟩ := by
      have hk' : k - 1 + 1 = k := by omega
      have hstep (b : UInt8) :
          Bus.step endless ⟨f.drop k, d.drop (k - 1)⟩ (.inl (.inb DATA_PORT b))
            = if b = (d.drop (k - 1)).head then some ⟨f.drop k, d.drop k⟩ else none := by
        show (if b = (d.drop (k - 1)).head then
          some (Bus.mk (f.drop k) (d.drop (k - 1)).tail) else none) = _
        rw [Stream'.tail_drop', hk']
      refine Total.inb ?_ ?_
      · rintro s rfl
        exact ⟨_, _, (hstep _).trans (if_pos rfl)⟩
      · rintro b s s' rfl hb
        rw [hstep] at hb
        split at hb
        · exact (Option.some.inj hb).symm
        · cases hb
    exact hdata.bind fun _ => hstatus k _
  refine (Total.readUntil (fun _ => (reads_inb _).bind _) (hstatus 0 d) hpass hn.1
    (not_not.mpr hn.2.1) fun k hk hlt => hn.2.2 k hk hlt).mono ?_ fun _ _ h => h.2
  rintro s rfl
  rfl

/-- `ps2_init` up to its first command. -/
theorem boots_clearPorts {f : Stream' UInt8} (hf : Fair f) {n : Nat} (h : Flushed f n) :
    Boots (· = ⟨f, d⟩) clearPorts fun _ => At (d.drop n) 0 := by
  rcases h with ⟨i, j, hi, hj, hn⟩
  have hport : CMD_PORT.toUInt8 ≠ 2 := by decide
  have hwrites : Boots (· = ⟨f, d⟩) (writes "PS/2 CONTROLLER STILL DOESN'T WORK\n")
      fun _ s => s = ⟨f, d⟩ := by
    refine Total.note ?_
    rintro s rfl
    exact ⟨_, rfl, rfl⟩
  have hdisable : Boots (· = ⟨f, d⟩) disablePorts
      fun _ s => s = ⟨(f.drop (i + 1)).drop (j + 1), d⟩ := by
    refine (boots_ps2Write_exact d hi hport _).bind fun _ => ?_
    exact boots_ps2Write_exact d hj hport _
  refine hwrites.bind fun _ => ?_
  refine hdisable.bind fun _ => ?_
  refine (boots_flush d hn).bind fun _ => ?_
  refine Total.pure _ ?_
  rintro s rfl
  exact ⟨((hf.drop _).drop _).drop _, rfl⟩

/-- The first configuration byte is written back. -/
theorem boots_storeConfig (k : Nat) (config : UInt8) :
    Boots (At d k) (storeConfig config) fun x s => x.1 = channels config ∧ At d k s := by
  have hcount : Boots (At d k) (countPorts config) fun n s => n = channels config ∧ At d k s := by
    unfold countPorts channels
    split
    · refine (boots_reportConfig d k _ _ _).bind fun _ => ?_
      refine (boots_note d k _).bind fun _ => ?_
      exact Total.pure _ fun _ h => ⟨rfl, h⟩
    · exact Total.pure _ fun _ h => ⟨rfl, h⟩
  refine hcount.bind fun n => Total.of_fact ?_
  rintro rfl
  refine (boots_reportConfig d k _ _ _).bind fun _ => ?_
  refine (boots_reportConfig d k _ _ _).bind fun _ => ?_
  refine (boots_poll d k _).bind fun _ => ?_
  refine (boots_outb d k _ _).bind fun _ => ?_
  refine (boots_ps2Write d k _ _).bind fun _ => ?_
  exact Total.pure _ fun _ h => ⟨rfl, h⟩

/-- And read again. -/
theorem boots_rereadConfig (k : Nat) (config : UInt8) :
    Boots (At d k) (rereadConfig config) fun _ => At d (k + 1) := by
  have hread : Boots (At d k) Ps2.ps2Read fun _ => At d (k + 1) :=
    (boots_ps2Read d k).mono (fun _ h => h) fun _ _ h => h.2
  refine (boots_outb d k _ _).bind fun _ => ?_
  refine (boots_reportConfig d k _ _ _).bind fun _ => ?_
  refine hread.bind fun _ => ?_
  refine (boots_reportConfig d (k + 1) _ _ _).bind fun _ => ?_
  exact Total.pure _ fun _ h => h

/-! ### From the self-test on -/

/-- The loop of the self-test. -/
def selfTestReply : Driver UInt8 := do
  let status ← Ps2.ps2Read
  whileM (fun status => status = 0xFE) (fun _ => Ps2.ps2Read) status

/-- The self-test, with its loop by name. -/
theorem selfTest_eq :
    selfTest = (do
      outb CMD_PORT 0xAA
      let status ← selfTestReply
      if status ≠ 0x55 then
        Ps2.printf "PS/2 controller self-test failed with code %x\n"
          [.int (byteArg status)]) := by
  simp only [selfTest, selfTestReply, bind_assoc]

/-- The self-test takes the bytes up to the first one that is not FE. -/
theorem boots_selfTest {k p : Nat} (h : First d (· ≠ 0xFE) k p) :
    Boots (At d k) selfTest fun _ => At d (p + 1) := by
  have hreply : Boots (At d k) selfTestReply fun b s => b = d.get p ∧ At d (p + 1) s :=
    Total.readUntil (fun _ => reads_ps2Read) (boots_ps2Read d k)
      (fun _ i _ _ => boots_ps2Read d i) h.1 h.2.1 fun i hk hi => not_not.mp (h.2.2 i hk hi)
  rw [selfTest_eq]
  refine (boots_outb d k _ _).bind fun _ => ?_
  refine hreply.bind fun b => ?_
  refine Total.of_fact fun _ => ?_
  split
  · exact boots_note d (p + 1) _
  · exact Total.pure _ fun _ hs => hs

/-- A device that answers FE for ever. -/
theorem hangs_selfTest {k : Nat} (h : ∀ i, k ≤ i → d.get i = 0xFE) :
    Hangs (Bus.step endless) (At d k) selfTest := by
  have hreply : Hangs (Bus.step endless) (At d k) selfTestReply :=
    Hangs.readUntil (fun _ => reads_ps2Read) (boots_ps2Read d k)
      (fun _ i _ => boots_ps2Read d i) h
  rw [selfTest_eq]
  exact (boots_outb d k _ _).hangs fun _ => hreply.bind _

/-- The reads for the second port. -/
def second (numPorts : UInt8) : Nat := if numPorts = 2 then 1 else 0

/-- The number of ports behind the second test for two channels, which reads a byte when there are
two by then. -/
def portsFound (k : Nat) (numPorts : UInt8) : UInt8 :=
  if numPorts = 2 then channels (d.get k) else numPorts

/-- The second test for two channels takes a byte when there are two. -/
theorem boots_channelTest (k : Nat) (numPorts : UInt8) :
    Boots (At d k) (channelTest numPorts) fun n s =>
      n = portsFound d k numPorts ∧ At d (k + second numPorts) s := by
  unfold channelTest portsFound second
  by_cases htwo : numPorts = 2
  · rw [if_pos htwo, if_pos htwo, if_pos htwo]
    refine (boots_ps2Write d k _ _).bind fun _ => ?_
    refine (boots_readConfig d k).bind fun c => ?_
    refine Total.of_fact ?_
    rintro rfl
    unfold channels
    split
    · refine (boots_note d (k + 1) _).bind fun _ => ?_
      refine (boots_outb d (k + 1) _ _).bind fun _ => ?_
      exact Total.pure _ fun _ h => ⟨rfl, h⟩
    · exact Total.pure _ fun _ h => ⟨htwo, h⟩
  · rw [if_neg htwo, if_neg htwo, if_neg htwo]
    exact Total.pure _ fun _ h => ⟨rfl, h⟩

/-- The test of a port takes one byte. -/
theorem boots_portTest (k : Nat) (command : UInt8) (text : String) :
    Boots (At d k) (portTest command text) fun _ => At d (k + 1) := by
  refine (boots_outb d k _ _).bind fun _ => ?_
  refine (boots_ps2Read d k).bind fun b => ?_
  refine Total.of_fact fun _ => ?_
  split
  · exact boots_note d (k + 1) _
  · exact Total.pure _ fun _ h => h

/-- There is a test for each port. -/
theorem boots_portTests (k : Nat) (numPorts : UInt8) :
    Boots (At d k) (portTests numPorts) fun _ => At d (k + 1 + second numPorts) := by
  refine (boots_portTest d k _ _).bind fun _ => ?_
  unfold second
  split
  · exact boots_portTest d (k + 1) _ _
  · exact Total.pure _ fun _ h => h

/-- The interrupts are turned on, with one read of the configuration byte. -/
theorem boots_enableIrqs (k : Nat) : Boots (At d k) enableIrqs fun _ => At d (k + 1) := by
  refine (boots_readConfig d k).bind fun b => Total.of_fact fun _ => ?_
  refine (boots_outb d (k + 1) _ _).bind fun _ => ?_
  refine (boots_ps2Write d (k + 1) _ _).bind fun _ => ?_
  exact Total.pure _ fun _ h => h

/-- The devices are turned on without a read. -/
theorem boots_enableDevices (k : Nat) (numPorts : UInt8) :
    Boots (At d k) (enableDevices numPorts) fun _ => At d k := by
  refine (boots_ps2Write d k _ _).bind fun _ => ?_
  split
  · exact boots_ps2Write d k _ _
  · exact Total.pure _ fun _ h => h

/-- The bytes that the loop behind the reset reads: it stops at FA, and after two retries. -/
def resetReads (k : Nat) : Nat :=
  if d.get k = 0xFA then 1 else if d.get (k + 1) = 0xFA then 2 else 3

/-- This loop has a bound. -/
theorem boots_resetReplies (k : Nat) :
    Boots (At d (k + 1)) (resetReplies (d.get k, 0)) fun _ => At d (k + resetReads d k) := by
  have hreads (x : UInt8 × Int32) : Reads (do
      Ps2.printf "Responded %x. Retrying..." [.int (byteArg x.1)]
      let status ← Ps2.ps2Read
      pure (status, x.2 + 1)) := Reads.bind_right fun _ => reads_ps2Read.bind _
  have hpass (i : Nat) (b : UInt8) (retries : Int32) : Boots (At d i) (do
      Ps2.printf "Responded %x. Retrying..." [.int (byteArg b)]
      let status ← Ps2.ps2Read
      pure (status, retries + 1)) fun x s => x = (d.get i, retries + 1) ∧ At d (i + 1) s := by
    refine (boots_note d i _).bind fun _ => ?_
    refine (boots_ps2Read d i).bind fun b => ?_
    refine Total.of_fact ?_
    rintro rfl
    exact Total.pure _ fun _ h => ⟨rfl, h⟩
  have hexit (i : Nat) (x : UInt8 × Int32) : Boots (At d i) (pure x : Driver _) fun _ => At d i :=
    Total.pure _ fun _ h => h
  have hzero : (0 : Int32) < 2 := by decide
  have hone : (0 + 1 : Int32) < 2 := by decide
  have htwo : ¬(0 + 1 + 1 : Int32) < 2 := by decide
  unfold resetReads
  by_cases hfirst : d.get k = 0xFA
  · rw [if_pos hfirst, resetReplies, whileM_eq hreads, if_neg fun h => h.1 hfirst]
    exact hexit _ _
  rw [if_neg hfirst, resetReplies, whileM_eq hreads, if_pos ⟨hfirst, hzero⟩]
  refine (hpass (k + 1) _ _).bind fun x => Total.of_fact ?_
  rintro rfl
  by_cases hsecond : d.get (k + 1) = 0xFA
  · rw [if_pos hsecond, whileM_eq hreads, if_neg fun h => h.1 hsecond]
    exact hexit _ _
  rw [if_neg hsecond, whileM_eq hreads, if_pos ⟨hsecond, hone⟩]
  refine (hpass (k + 2) _ _).bind fun x => Total.of_fact ?_
  rintro rfl
  -- Two retries have been made.
  rw [whileM_eq hreads, if_neg fun h => htwo h.2]
  exact hexit _ _

/-- The resets take the replies of both devices. -/
theorem boots_resetDevices (k : Nat) (numPorts : UInt8) :
    Boots (At d k) (resetDevices numPorts)
      fun _ => At d (k + resetReads d k + second numPorts) := by
  refine (boots_ps2Write d k _ _).bind fun _ => ?_
  refine (boots_ps2Read d k).bind fun b => ?_
  refine Total.of_fact ?_
  rintro rfl
  refine (boots_resetReplies d k).bind fun x => ?_
  refine (boots_note d (k + resetReads d k) _).bind fun _ => ?_
  unfold second
  split
  · refine (boots_ps2Write d (k + resetReads d k) _ _).bind fun _ => ?_
    refine (boots_ps2Read d (k + resetReads d k)).bind fun b => ?_
    exact Total.of_fact fun _ => boots_note d (k + resetReads d k + 1) _
  · exact Total.pure _ fun _ h => h

/-! ### The detection -/

/-- The driver is somewhere in the sequence. -/
def Later (s : Bus (Stream' UInt8)) : Prop := ∃ k, At d k s

/-- Behind the loops the number of the next byte does not matter. -/
theorem later_of {α : Type} {m : Driver α}
    (h : ∀ k, ∃ k', Boots (At d k) m fun _ => At d k') : Boots (Later d) m fun _ => Later d := by
  refine Total.of_exists fun k => ?_
  rcases h k with ⟨k', hm⟩
  exact hm.mono (fun _ h => h) fun _ _ h => ⟨k', h⟩

/-- A print. -/
theorem later_note (n : Note) : Boots (Later d) (note n) fun _ => Later d :=
  later_of d fun k => ⟨k, boots_note d k n⟩

/-- A write to a port. -/
theorem later_outb (port : UInt16) (value : UInt8) :
    Boots (Later d) (outb port value) fun _ => Later d :=
  later_of d fun k => ⟨k, boots_outb d k port value⟩

/-- `ps2_write`. -/
theorem later_ps2Write (port data : UInt8) :
    Boots (Later d) (ps2Write port data) fun _ => Later d :=
  later_of d fun k => ⟨k, boots_ps2Write d k port data⟩

/-- `ps2_read`. -/
theorem later_ps2Read : Boots (Later d) Ps2.ps2Read fun _ => Later d :=
  later_of d fun k => ⟨k + 1, (boots_ps2Read d k).mono (fun _ h => h) fun _ _ h => h.2⟩

/-- The second byte of the identification. -/
theorem later_identification (status : UInt8) :
    Boots (Later d) (identification status) fun _ => Later d := by
  unfold identification
  split
  · refine (later_ps2Read d).bind fun _ => ?_
    refine (later_note d _).bind fun _ => ?_
    exact Total.pure _ fun _ h => h
  · exact Total.pure _ fun _ h => h

/-- The switch over the identification. -/
theorem later_printDeviceType (status : UInt8) :
    Boots (Later d) (printDeviceType status) fun _ => Later d := by
  unfold printDeviceType
  split
  · exact later_note d _
  split
  · exact later_note d _
  split
  · exact later_note d _
  split
  · refine (later_ps2Read d).bind fun _ => ?_
    split
    · exact later_note d _
    split
    · exact later_note d _
    · exact Total.pure _ fun _ h => h
  · exact later_note d _

/-- The last configuration byte. -/
theorem later_lastConfig (config : UInt8) :
    Boots (Later d) (lastConfig config) fun _ => Later d := by
  have hpoll := later_of d fun k => ⟨k, boots_poll d k (.printf (ascii "poll ") [])⟩
  refine (later_note d _).bind fun _ => ?_
  refine (later_note d _).bind fun _ => ?_
  refine hpoll.bind fun _ => ?_
  refine (later_outb d _ _).bind fun _ => ?_
  refine (later_ps2Write d _ _).bind fun _ => ?_
  refine (later_outb d _ _).bind fun _ => ?_
  refine (later_note d _).bind fun _ => ?_
  refine (later_ps2Read d).bind fun _ => ?_
  exact later_note d _

/-- A loop that scans for FA stops at the first one. -/
theorem boots_readAck {k a : Nat} (h : First d (· = 0xFA) k a) (text : String) :
    Boots (At d k) (readAck text) fun _ => At d (a + 1) :=
  (Total.readUntil (fun _ => Reads.bind_right fun _ => reads_ps2Read) (boots_ps2Read d k)
    (fun _ i _ _ => boots_note_ps2Read d i _) h.1 (not_not.mpr h.2.1)
    fun i hk hi => h.2.2 i hk hi).mono (fun _ h => h) fun _ _ h => h.2

/-- Without an FA it goes on for ever. -/
theorem hangs_readAck {k : Nat} (h : ∀ i, k ≤ i → d.get i ≠ 0xFA) (text : String) :
    Hangs (Bus.step endless) (At d k) (readAck text) :=
  Hangs.readUntil (fun _ => Reads.bind_right fun _ => reads_ps2Read) (boots_ps2Read d k)
    (fun _ i _ => boots_note_ps2Read d i _) h

/-- There are two bytes FA from the number `k` on. -/
def TwoAcks (k : Nat) : Prop := ∃ a b, k ≤ a ∧ a < b ∧ d.get a = 0xFA ∧ d.get b = 0xFA

/-- With two bytes FA the detection ends. -/
theorem boots_detectDevice {k : Nat} (h : TwoAcks d k) :
    Boots (At d k) detectDevice fun _ => Later d := by
  rcases h with ⟨a, b, hk, hab, ha, hb⟩
  rcases first_of_le d (· = 0xFA) hk ha with ⟨a', ha', hfirst⟩
  rcases first_of_le d (· = 0xFA) (by omega : a' + 1 ≤ b) hb with ⟨b', -, hsecond⟩
  have hacked : Boots (At d (a' + 1)) (readAck "status:%x ") fun _ => Later d :=
    (boots_readAck d hsecond _).mono (fun _ h => h) fun _ _ h => ⟨b' + 1, h⟩
  refine (boots_note d k _).bind fun _ => ?_
  refine (boots_ps2Write d k _ _).bind fun _ => ?_
  refine (boots_readAck d hfirst _).bind fun _ => ?_
  refine (boots_ps2Write d (a' + 1) _ _).bind fun _ => ?_
  refine (boots_note d (a' + 1) _).bind fun _ => ?_
  refine hacked.bind fun _ => ?_
  refine (later_ps2Read d).bind fun _ => ?_
  refine (later_note d _).bind fun _ => ?_
  refine (later_identification d _).bind fun _ => ?_
  refine (later_printDeviceType d _).bind fun _ => ?_
  refine (later_ps2Write d _ _).bind fun _ => ?_
  refine (later_ps2Read d).bind fun _ => ?_
  exact later_note d _

/-- One of the two loops does not end. -/
theorem hangs_detectDevice {k : Nat} (h : ¬TwoAcks d k) :
    Hangs (Bus.step endless) (At d k) detectDevice := by
  refine (boots_note d k _).hangs fun _ => ?_
  refine (boots_ps2Write d k _ _).hangs fun _ => ?_
  by_cases hone : ∃ a, k ≤ a ∧ d.get a = 0xFA
  · rcases hone with ⟨n, hn, hacked⟩
    rcases first_of_le d (· = 0xFA) hn hacked with ⟨a, -, hfirst⟩
    have hnone (i : Nat) (hi : a + 1 ≤ i) : d.get i ≠ 0xFA :=
      fun hacked => h ⟨a, i, hfirst.1, hi, hfirst.2.1, hacked⟩
    refine (boots_readAck d hfirst _).hangs fun _ => ?_
    refine (boots_ps2Write d (a + 1) _ _).hangs fun _ => ?_
    refine (boots_note d (a + 1) _).hangs fun _ => ?_
    exact (hangs_readAck d hnone _).bind _
  · exact (hangs_readAck d (fun i hi hacked => hone ⟨i, hi, hacked⟩) _).bind _

/-! ### The whole of `ps2_init` -/

/-- `ps2_init` up to the self-test. The result is the number of ports. -/
def beforeSelfTest : Driver UInt8 := do
  clearPorts
  let config ← readConfig
  let (numPorts, config) ← storeConfig config
  let _ ← rereadConfig config
  pure numPorts

/-- Between the self-test and the detection. The results are the number of ports and the
configuration byte. -/
def beforeDetection (numPorts : UInt8) : Driver (UInt8 × UInt8) := do
  let numPorts ← channelTest numPorts
  portTests numPorts
  let config ← enableIrqs
  enableDevices numPorts
  resetDevices numPorts
  pure (numPorts, config)

/-- `ps2_init` in these stages. -/
theorem ps2Init_eq_stages :
    ps2Init = (do
      let numPorts ← beforeSelfTest
      selfTest
      let (numPorts, config) ← beforeDetection numPorts
      detectDevice
      lastConfig config
      pure numPorts) := by
  simp only [ps2Init, beforeSelfTest, beforeDetection, bind_assoc, pure_bind]

/-- It takes two bytes, and the first one has the number of ports. -/
theorem boots_beforeSelfTest {f : Stream' UInt8} (hf : Fair f) {n : Nat} (h : Flushed f n) :
    Boots (· = ⟨f, d⟩) beforeSelfTest fun numPorts s =>
      numPorts = channels ((d.drop n).get 0) ∧ At (d.drop n) 2 s := by
  refine (boots_clearPorts d hf h).bind fun _ => ?_
  refine (boots_readConfig (d.drop n) 0).bind fun c => ?_
  refine Total.of_fact ?_
  rintro rfl
  refine (boots_storeConfig (d.drop n) 1 _).bind fun x => Total.of_fact ?_
  intro hx
  exact (boots_rereadConfig (d.drop n) 1 x.2).bind fun _ => Total.pure _ fun _ h => ⟨hx, h⟩

/-- The number of the first byte that the reset reads, behind a self-test whose reply has the
number `p`. The source of bytes begins with the first configuration byte. -/
def resetStart (p : Nat) : Nat :=
  p + 1 + second (channels (d.get 0)) + 1
    + second (portsFound d (p + 1) (channels (d.get 0))) + 1

/-- The number of the first byte that the detection reads. -/
def detectionStart (p : Nat) : Nat :=
  resetStart d p + resetReads d (resetStart d p)
    + second (portsFound d (p + 1) (channels (d.get 0)))

/-- It ends where the detection begins. -/
theorem boots_beforeDetection (p : Nat) :
    Boots (At d (p + 1)) (beforeDetection (channels (d.get 0)))
      fun _ => At d (detectionStart d p) := by
  refine (boots_channelTest d (p + 1) _).bind fun numPorts => Total.of_fact ?_
  rintro rfl
  refine (boots_portTests d _ _).bind fun _ => ?_
  refine (boots_enableIrqs d _).bind fun _ => ?_
  refine (boots_enableDevices d _ _).bind fun _ => ?_
  refine (boots_resetDevices d _ _).bind fun _ => ?_
  exact Total.pure _ fun _ h => h

/-- What the bytes have to be, from the first configuration byte on: the self-test is answered with
another byte than FE, and two bytes FA come in the detection. -/
def Answered : Prop := ∃ p, First d (· ≠ 0xFE) 2 p ∧ TwoAcks d (detectionStart d p)

end

section
variable (f d : Stream' UInt8) {n : Nat}

/-- With such bytes `ps2_init` returns. -/
theorem boots_ps2Init (hf : Fair f) (hflush : Flushed f n) (h : Answered (d.drop n)) :
    Boots (· = ⟨f, d⟩) ps2Init fun _ => Later (d.drop n) := by
  rcases h with ⟨p, hp, hacks⟩
  rw [ps2Init_eq_stages]
  refine (boots_beforeSelfTest d hf hflush).bind fun numPorts => Total.of_fact ?_
  rintro rfl
  refine (boots_selfTest _ hp).bind fun _ => ?_
  refine (boots_beforeDetection _ p).bind fun x => ?_
  refine (boots_detectDevice _ hacks).bind fun _ => ?_
  refine (later_lastConfig _ x.2).bind fun _ => ?_
  exact Total.pure _ fun _ h => h

/-- Otherwise one of the loops does not end. -/
theorem hangs_ps2Init (hf : Fair f) (hflush : Flushed f n) (h : ¬Answered (d.drop n)) :
    Hangs (Bus.step endless) (· = ⟨f, d⟩) ps2Init := by
  rw [ps2Init_eq_stages]
  refine (boots_beforeSelfTest d hf hflush).hangs fun numPorts => ?_
  by_cases htested : ∃ i, 2 ≤ i ∧ (d.drop n).get i ≠ 0xFE
  · rcases htested with ⟨i, hi, hreply⟩
    rcases first_of_le _ (· ≠ 0xFE) hi hreply with ⟨p, -, hp⟩
    have hacks : ¬TwoAcks (d.drop n) (detectionStart (d.drop n) p) := fun hacks => h ⟨p, hp, hacks⟩
    refine Triple.of_fact ?_
    rintro rfl
    refine (boots_selfTest _ hp).hangs fun _ => ?_
    refine (boots_beforeDetection _ p).hangs fun x => ?_
    exact (hangs_detectDevice _ hacks).bind _
  · have hreply (i : Nat) (hi : 2 ≤ i) : (d.drop n).get i = 0xFE :=
      not_not.mp fun hne => htested ⟨i, hi, hne⟩
    exact ((hangs_selfTest _ hreply).bind _).mono fun _ h => h.2

/-- `ps2_init` returns if and only if the bytes are such. -/
theorem ps2Init_returns_iff (hf : Fair f) (hflush : Flushed f n) :
    Terminates (Bus.step endless) ⟨f, d⟩ ps2Init ↔ Answered (d.drop n) := by
  constructor
  · intro hreturns
    by_contra h
    exact (hangs_ps2Init f d hf hflush h).not_terminates rfl hreturns
  · exact fun h => (boots_ps2Init f d hf hflush h).terminates rfl

end

/-- Both buffers are empty for three reads of the status. From then on the output buffer is full. -/
def threeIdle : Stream' UInt8 := fun n => [0, 0, 0].getD n 1

/-- Such a schedule is fair. -/
theorem fair_threeIdle : Fair threeIdle := by
  have hget (n : Nat) : threeIdle.get (n + 3) = 1 :=
    List.getD_eq_default [0, 0, 0] 1 (Nat.le_add_left 3 n)
  constructor
  · intro n
    refine ⟨3, ?_⟩
    rw [hget]
    decide
  · intro n
    refine ⟨3, ?_⟩
    rw [hget]
    decide

/-- There is nothing to flush. -/
theorem flushed_threeIdle : Flushed threeIdle 0 :=
  ⟨0, 0, ⟨Nat.le_refl 0, by decide, nofun⟩, ⟨Nat.le_refl 0, by decide, nofun⟩,
    Nat.le_refl 0, by decide, nofun⟩

/-- With bytes FA all the loops end. -/
theorem ps2Init_returns_iff_acks :
    Terminates (Bus.step endless) ⟨threeIdle, Stream'.const 0xFA⟩ ps2Init := by
  refine (ps2Init_returns_iff threeIdle _ fair_threeIdle flushed_threeIdle).mpr
    ⟨2, ⟨Nat.le_refl 2, by decide, ?_⟩, _, _, Nat.le_refl _, Nat.lt_succ_self _, rfl, rfl⟩
  exact fun j hj hlt => absurd hlt (Nat.not_lt.mpr hj)

/-- The controller has one port and passes its tests. The device answers FE to everything. -/
def resending : Stream' UInt8 := fun n => [0x20, 0x20, 0x55, 0x00, 0x20].getD n 0xFE

/-- The loop behind the reset gives up, and the one behind it does not. -/
theorem ps2Init_hangs_resending :
    Fair threeIdle ∧ Flushed threeIdle 0 ∧
      ¬Terminates (Bus.step endless) ⟨threeIdle, resending⟩ ps2Init := by
  refine ⟨fair_threeIdle, flushed_threeIdle, ?_⟩
  have hnone (i : Nat) : resending.get i ≠ 0xFA := by
    by_cases hi : i < 5
    · revert i
      decide
    · have hget : resending.get i = 0xFE := List.getD_eq_default _ _ (Nat.not_lt.mp hi)
      rw [hget]
      decide
  refine (hangs_ps2Init threeIdle resending fair_threeIdle flushed_threeIdle ?_).not_terminates rfl
  rintro ⟨p, -, a, -, -, -, hacked, -⟩
  exact hnone a hacked

end Chuckles.Proofs
