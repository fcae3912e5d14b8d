import Chuckles.Kernel.Ps2Bus
import Chuckles.Lib.Segment
import Chuckles.Lib.Total

/-!
# `Chuckles.Proofs.Ps2Bus`: the waits of the PS/2 driver end

What the parts of the driver do beside the two ports (`Bus`), as triples of total correctness.

* `total_poll`: a loop that polls the status port ends with the first answer that it waits for.
* `total_ps2Read`, `total_ps2Write`: under a fair schedule the two functions return, when the
  source has a byte to read.
* `hangs_ps2Read`: `ps2_read` never returns when the source has no byte.
-/

set_option autoImplicit false

namespace Chuckles.Proofs

open Lib Lib.PortIo Lib.Run Chuckles.Ps2

section
variable {κ α : Type} {D : Peripheral κ} {c : κ}

/-- The bus has a fair schedule, and the source is in the state `c`. -/
def Now (c : κ) (s : Bus κ) : Prop := Fair s.status ∧ s.core = c

/-- It is enough to look at one schedule. -/
theorem total_now {m : Driver α} {Q : α → Bus κ → Prop}
    (h : ∀ f, Fair f → Total (Bus.step D) (· = ⟨f, c⟩) m Q) : Total (Bus.step D) (Now c) m Q := by
  constructor
  · rintro s ⟨hf, rfl⟩
    exact (h s.status hf).returns s rfl
  · rintro as s s' ⟨hf, rfl⟩
    exact (h s.status hf).triple as s s' rfl

/-- Writes and notes go to the source. -/
theorem total_outb (port : UInt16) (value : UInt8) :
    Total (Bus.step D) (Now c) (outb port value) fun _ => Now (D.see c (.outb port value)) := by
  refine Total.outb fun s hs => ⟨_, rfl, hs.1, ?_⟩
  rw [← hs.2]

/-- A print. -/
theorem total_note (n : Note) :
    Total (Bus.step D) (Now c) (note n) fun _ => Now (D.see c (.note n)) := by
  refine Total.note fun s hs => ⟨_, rfl, hs.1, ?_⟩
  rw [← hs.2]

/-! ### Polling -/

/-- A read of the status port. -/
theorem step_statusPort {s s' : Bus κ} {b : UInt8}
    (h : Bus.step D s (.inl (.inb STATUS_PORT b)) = some s') :
    b = s.statusByte D ∧ s' = { s with status := s.status.tail } := by
  replace h : (if b = s.statusByte D then some { s with status := s.status.tail } else none)
      = some s' := h
  split at h
  · rename_i hb
    exact ⟨hb, (Option.some.inj h).symm⟩
  · cases h

/-- A read of the status takes the next answer of the schedule. -/
theorem total_status (f : Stream' UInt8) :
    Total (Bus.step D) (· = ⟨f, c⟩) (inb STATUS_PORT)
      fun b s => b = Bus.statusByte D ⟨f, c⟩ ∧ s = ⟨f.tail, c⟩ := by
  refine Total.inb ?_ ?_
  · rintro s rfl
    exact ⟨_, ⟨f.tail, c⟩, if_pos rfl⟩
  · rintro b s s' rfl hstep
    exact step_statusPort hstep

/-- A pass of a polling loop: it reads the status once, and leaves the source as it is. -/
def Polls (D : Peripheral κ) (c : κ) (body : Driver UInt8) : Prop :=
  Reads body ∧ ∀ f : Stream' UInt8, Total (Bus.step D) (· = ⟨f, c⟩) body
    fun b s => b = Bus.statusByte D ⟨f, c⟩ ∧ s = ⟨f.tail, c⟩

/-- A read of the status is a poll. -/
theorem polls_inb : Polls D c (inb STATUS_PORT) := ⟨reads_inb _, total_status⟩

/-- With a print in each pass. -/
theorem polls_print {n : Note} (hn : D.see c (.note n) = c) :
    Polls D c (do
      let status ← inb STATUS_PORT
      note n
      pure status) := by
  refine ⟨(reads_inb _).bind _, fun f => (total_status f).bind fun b => ?_⟩
  refine (Total.note fun s hs => ⟨⟨f.tail, c⟩, ?_, hs.1, rfl⟩).bind fun _ =>
    Total.pure b fun _ h => h
  rw [hs.2]
  show some (Bus.mk f.tail (D.see c (.note n))) = _
  rw [hn]

section
variable {cond : UInt8 → Prop} [DecidablePred cond] {body : Driver UInt8}

/-- The loop reads the status up to the first answer that it waits for. -/
theorem total_poll (hbody : Polls D c body) {f : Stream' UInt8} {i : Nat}
    (hstop : ¬cond (Bus.statusByte D ⟨f.drop i, c⟩))
    (hgo : ∀ k < i, cond (Bus.statusByte D ⟨f.drop k, c⟩)) :
    Total (Bus.step D) (· = ⟨f, c⟩) (doWhile cond body) fun _ s => s = ⟨f.drop (i + 1), c⟩ := by
  have hread (k : Nat) : Total (Bus.step D) (· = ⟨f.drop k, c⟩) body
      fun b s => b = Bus.statusByte D ⟨f.drop k, c⟩ ∧ s = ⟨f.drop (k + 1), c⟩ := by
    refine (hbody.2 (f.drop k)).mono (fun _ h => h) ?_
    rintro b s ⟨rfl, rfl⟩
    rw [Stream'.tail_drop']
    exact ⟨rfl, rfl⟩
  refine (Total.readUntil (P := fun k s => s = ⟨f.drop k, c⟩) (fun _ => hbody.1) (hread 0)
    (fun _ k _ _ => hread k) (Nat.zero_le i) hstop fun k _ hk => hgo k hk).mono ?_
    fun _ _ h => h.2
  rintro s rfl
  rw [Stream'.drop_zero]

/-- Under a schedule with such an answer. -/
theorem total_poll_now (hbody : Polls D c body)
    (hstop : ∀ f, Fair f → ∃ i, ¬cond (Bus.statusByte D ⟨f.drop i, c⟩)) :
    Total (Bus.step D) (Now c) (doWhile cond body) fun _ => Now c := by
  refine total_now fun f hf => ?_
  have hfirst := Nat.find_spec (hstop f hf)
  refine (total_poll hbody hfirst fun k hk => not_not.mp (Nat.find_min (hstop f hf) hk)).mono
    (fun _ h => h) ?_
  rintro _ s rfl
  exact ⟨hf.drop _, rfl⟩

/-- A loop that waits for an empty input buffer. -/
theorem total_waitFree (hbody : Polls D c body) :
    Total (Bus.step D) (Now c) (doWhile (fun status => status &&& STATUS_IN_FULL ≠ 0) body)
      fun _ => Now c := by
  refine total_poll_now hbody fun f hf => ?_
  rcases hf.free 0 with ⟨i, hi⟩
  refine ⟨i, not_not.mpr ?_⟩
  rw [Nat.zero_add] at hi
  have hhead : (f.drop i).head &&& STATUS_IN_FULL = 0 := by rwa [Stream'.head_drop]
  unfold Bus.statusByte
  split
  · exact hhead
  · -- Bit 1 does not depend on the source.
    rw [and_and_mask (by decide : ~~~STATUS_OUT_FULL &&& STATUS_IN_FULL = STATUS_IN_FULL)]
    exact hhead

end

/-- The wait of `ps2_write` ends. -/
theorem total_waitIn : Total (Bus.step D) (Now c) waitIn fun _ => Now c :=
  total_waitFree polls_inb

/-! ### Reading and writing -/

/-- What the source sees of a `ps2_write`. -/
def seeWrite (D : Peripheral κ) (c : κ) (port data : UInt8) : κ :=
  D.see (if port = 2 then D.see c (.outb CMD_PORT WRITE_P2) else c) (.outb DATA_PORT data)

/-- `ps2_write`. -/
theorem total_ps2Write (port data : UInt8) :
    Total (Bus.step D) (Now c) (ps2Write port data) fun _ => Now (seeWrite D c port data) := by
  have hselect : Total (Bus.step D) (Now c) (selectPort port)
      fun _ => Now (if port = 2 then D.see c (.outb CMD_PORT WRITE_P2) else c) := by
    unfold selectPort
    by_cases hport : port = 2
    · rw [if_pos hport, if_pos hport]
      exact total_outb _ _
    · rw [if_neg hport, if_neg hport]
      exact Total.pure _ fun _ h => h
  refine hselect.bind fun _ => ?_
  refine total_waitIn.bind fun _ => ?_
  exact total_outb _ _

/-- The byte of the data port. -/
theorem total_data {b : UInt8} {c' : κ} (htake : D.take c = some (b, c')) :
    Total (Bus.step D) (Now c) (inb DATA_PORT) fun x s => x = b ∧ Now c' s := by
  have hstep (s : Bus κ) (hs : Now c s) (x : UInt8) :
      Bus.step D s (.inl (.inb DATA_PORT x))
        = if x = b then some { s with core := c' } else none := by
    show s.take D x = _
    rw [Bus.take, hs.2, htake]
  refine Total.inb (fun s hs => ⟨b, _, (hstep s hs b).trans (if_pos rfl)⟩) ?_
  intro x s s' hs hx
  rw [hstep s hs] at hx
  split at hx
  · rename_i hb
    cases hx
    exact ⟨hb, hs.1, rfl⟩
  · cases hx

/-- A read of the status, whatever it gives. -/
theorem total_status_now : Total (Bus.step D) (Now c) (inb STATUS_PORT) fun _ => Now c := by
  refine total_now fun f hf => (total_status f).mono (fun _ h => h) ?_
  rintro _ s ⟨-, rfl⟩
  exact ⟨hf.drop 1, rfl⟩

/-- `ps2_read` reads a port. -/
theorem reads_ps2Read : Reads Ps2.ps2Read := Reads.bind_right fun _ => (reads_inb _).bind _

/-- `ps2_read` returns the next byte of the source. -/
theorem total_ps2Read {b : UInt8} {c' : κ} (htake : D.take c = some (b, c')) :
    Total (Bus.step D) (Now c) Ps2.ps2Read
      fun x s => x = b ∧ Now (D.see c' (.note (.got b))) s := by
  have hwait : Total (Bus.step D) (Now c)
      (doWhile (fun status => status &&& STATUS_OUT_FULL = 0) (inb STATUS_PORT))
      fun _ => Now c := by
    refine total_poll_now polls_inb fun f hf => ?_
    rcases hf.full 0 with ⟨i, hi⟩
    refine ⟨i, ?_⟩
    rw [Nat.zero_add] at hi
    have hsome : (D.take c).isSome = true := by
      rw [htake]
      rfl
    rw [Bus.statusByte, if_pos hsome, Stream'.head_drop]
    exact hi
  refine hwait.bind fun _ => ?_
  refine (total_data htake).bind fun x => ?_
  refine Total.of_fact ?_
  rintro rfl
  refine total_status_now.bind fun _ => ?_
  refine (total_note _).bind fun _ => ?_
  exact Total.pure x fun _ h => ⟨rfl, h⟩

/-- `ps2_read` waits for ever when the source has no byte. -/
theorem hangs_ps2Read (htake : D.take c = none) :
    Hangs (Bus.step D) (fun s => s.core = c) Ps2.ps2Read := by
  -- Bit 0 is clear in every answer.
  have hbyte (s : Bus κ) (hs : s.core = c) : s.statusByte D &&& STATUS_OUT_FULL = 0 := by
    have hnone : ¬(D.take s.core).isSome = true := by
      rw [hs, htake]
      exact Bool.false_ne_true
    rw [Bus.statusByte, if_neg hnone,
      and_and_mask (by decide : ~~~STATUS_OUT_FULL &&& STATUS_OUT_FULL = 0), UInt8.and_zero]
  have hpass : Triple (Bus.step D) Any (fun s => s.core = c) (inb STATUS_PORT)
      (fun b s => s.core = c ∧ b &&& STATUS_OUT_FULL = 0) fun _ => True := by
    refine Triple.inb (stable_closed _) (fun _ => stable_closed _) (fun _ _ => trivial) ?_
    intro b s s' hs _ hstep
    rcases step_statusPort hstep with ⟨rfl, rfl⟩
    exact ⟨hs, hbyte s hs⟩
  have hloop : Hangs (Bus.step D) (fun s => s.core = c)
      (doWhile (fun status => status &&& STATUS_OUT_FULL = 0) (inb STATUS_PORT)) :=
    hpass.bind fun x => Hangs.whileM (fun _ => reads_inb _)
      (fun _ _ => hpass.mono (fun _ h => h.1) (fun _ _ h => h) fun _ h => h) (fun _ _ h => h.2) x
  exact hloop.bind _

end

end Chuckles.Proofs
