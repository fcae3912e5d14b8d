import Chuckles.Proofs.Ps2Bus

/-!
# `Chuckles.Proofs.Ps2Identify`: the detection of a device on port 1

`detectDevice` beside a device that answers its three commands. `Identified` says that the
detection returns, that what passed between the two is the three commands with the answer behind
each, and that the entry of `devices` was selected. The device has a byte only when it owes one to
a command that was sent, and `hangs_ps2Read` is about a read that waits for another one. So a
detection that returns has waited for no such byte.

The commands are followed in the order of the source, and each lemma has the queue and the traffic
in front of a part and behind it. `detects_readAck` is the one with a loop: by induction on the
queue, it reads the bytes up to the first FA and leaves the ones behind it.

The source reads a byte behind an identification that is neither 00 nor AB, and there is none behind
03 and 04. `detection_exact_iff` is the result: the detection is right for the other ones.
-/

set_option autoImplicit false

namespace Chuckles.Proofs

open Lib.PortIo Lib.Run Chuckles.Ps2

/-- The identifications, and the entries of `devices` that they denote. -/
inductive Denotes : List UInt8 → Fin 5 → Prop
  | mouse : Denotes [0x00] 0
  | wheel : Denotes [0x03] 1
  | fiveButton : Denotes [0x04] 2
  | translated : Denotes [0xAB, 0x41] 3
  | translatedToo : Denotes [0xAB, 0xC1] 3
  | untranslated : Denotes [0xAB, 0x83] 4

/-- The detection reads exactly what the device sends, and selects the entry `i`: beside the
schedule `f`, with the queue `q` in front of the first command, it returns, and in no other way. -/
def Identified (f : Stream' UInt8) (q id : List UInt8) (i : Fin 5) : Prop :=
  Total (Bus.step device) (· = ⟨f, q, id, [], []⟩) detectDevice fun _ s => s.core =
    ⟨[], id, .sent 0xF5 :: q.map .got ++ [.got 0xFA, .sent 0xF2, .got 0xFA] ++ id.map .got
      ++ [.sent 0xF4, .got 0xFA], [devices.get i]⟩

/-- A triple of total correctness beside a device. -/
abbrev Detects {α : Type} (P : Bus Device → Prop) (m : Driver α) (Q : α → Bus Device → Prop) :
    Prop :=
  Total (Bus.step device) P m Q

section
variable {q id : List UInt8} {t : List Traffic} {l : List CString}

/-! ### One byte -/

/-- A print of a byte is none of the records. -/
theorem detects_print (format : String) (b : UInt8) :
    Detects (Now ⟨q, id, t, l⟩) (Ps2.printf format [.int (byteArg b)])
      fun _ => Now ⟨q, id, t, l⟩ :=
  total_note _

/-- A line without a device in it. -/
theorem detects_text (format : String) :
    Detects (Now ⟨q, id, t, l⟩) (Ps2.printf format []) fun _ => Now ⟨q, id, t, l⟩ :=
  total_note _

/-- The entry that is printed is the selected one. -/
theorem detects_printDevice (i : Fin 5) :
    Detects (Now ⟨q, id, t, l⟩) (printDevice i) fun _ => Now ⟨q, id, t, l ++ [devices.get i]⟩ :=
  total_note _

/-- The answer to a command goes behind the bytes of the queue. -/
theorem detects_command (value : UInt8) :
    Detects (Now ⟨q, id, t, l⟩) (ps2Write 1 value)
      fun _ => Now ⟨q ++ Device.answer ⟨q, id, t, l⟩ value, id, t ++ [.sent value], l⟩ :=
  total_ps2Write 1 value

/-- `ps2_read` takes the first byte of the queue. -/
theorem detects_ps2Read (b : UInt8) :
    Detects (Now ⟨b :: q, id, t, l⟩) Ps2.ps2Read
      fun x s => x = b ∧ Now ⟨q, id, t ++ [.got b], l⟩ s := by
  have htake : device.take ⟨b :: q, id, t, l⟩ = some (b, ⟨q, id, t, l⟩) := rfl
  exact total_ps2Read htake

/-! ### Up to FA -/

/-- A loop that scans for FA. -/
theorem detects_readAck (text : String) (rest : List UInt8) (hq : 0xFA ∉ q) :
    Detects (Now ⟨q ++ 0xFA :: rest, id, t, l⟩) (readAck text)
      fun _ => Now ⟨rest, id, t ++ (q ++ [0xFA]).map .got, l⟩ := by
  have hreads (x : UInt8) : Reads (do
      Ps2.printf text [.int (byteArg x)]
      Ps2.ps2Read) := Reads.bind_right fun _ => reads_ps2Read
  unfold readAck
  induction q generalizing t with
  | nil =>
      refine (detects_ps2Read 0xFA).bind fun x => Total.of_fact ?_
      rintro rfl
      rw [whileM_eq hreads, if_neg (not_not.mpr rfl)]
      exact Total.pure _ fun _ h => h
  | cons b q ih =>
      rw [List.mem_cons, not_or] at hq
      refine (detects_ps2Read b).bind fun x => Total.of_fact ?_
      rintro rfl
      -- The rest of the loop is the loop over the rest of the queue.
      rw [whileM_eq hreads, if_pos (Ne.symm hq.1), bind_assoc]
      refine (detects_print text x).bind fun _ => (ih hq.2).mono (fun _ h => h) fun _ s h => ?_
      rw [List.append_assoc] at h
      exact h

/-! ### The identification -/

/-- The part with the identification: the response is printed, and the entry of `devices`. -/
def identify : Driver Unit := do
  let status ← Ps2.ps2Read
  Ps2.printf "Response: %x\n" [.int (byteArg status)]
  let status ← identification status
  printDeviceType status

/-- The second byte behind AB. -/
theorem detects_second {x : UInt8} {i : Fin 5} (hid : Denotes [0xAB, x] i) :
    Detects (Now ⟨[x], id, t, l⟩) (printDeviceType 0xAB)
      fun _ => Now ⟨[], id, t ++ [.got x], l ++ [devices.get i]⟩ := by
  have hne : (0xAB : UInt8) ≠ 0 ∧ (0xAB : UInt8) ≠ 3 ∧ (0xAB : UInt8) ≠ 4 := by decide
  rw [printDeviceType, if_neg hne.1, if_neg hne.2.1, if_neg hne.2.2, if_pos rfl]
  refine (detects_ps2Read x).bind fun b => Total.of_fact ?_
  rintro rfl
  cases hid with
  | translated => exact detects_printDevice 3
  | translatedToo => exact detects_printDevice 3
  | untranslated => exact detects_printDevice 4

/-- For an identification other than 03 and 04 the parts read what there is. -/
theorem detects_identify {i : Fin 5} {r : List UInt8} (hid : Denotes r i) (hthree : r ≠ [0x03])
    (hfour : r ≠ [0x04]) :
    Detects (Now ⟨r, id, t, l⟩) identify
      fun _ => Now ⟨[], id, t ++ r.map .got, l ++ [devices.get i]⟩ := by
  have hsecond {x : UInt8} {i : Fin 5} (hid : Denotes [0xAB, x] i) :
      Detects (Now ⟨[0xAB, x], id, t, l⟩) identify
        fun _ => Now ⟨[], id, t ++ [.got 0xAB, .got x], l ++ [devices.get i]⟩ := by
    refine (detects_ps2Read 0xAB).bind fun b => Total.of_fact ?_
    rintro rfl
    refine (detects_print _ _).bind fun _ => ?_
    rw [identification, if_neg fun h => h.2 rfl, pure_bind]
    refine (detects_second hid).mono (fun _ h => h) fun _ s h => ?_
    rw [List.append_assoc] at h
    exact h
  cases hid with
  | mouse =>
      refine (detects_ps2Read 0).bind fun b => Total.of_fact ?_
      rintro rfl
      refine (detects_print _ _).bind fun _ => ?_
      rw [identification, if_neg fun h => h.1 rfl, pure_bind, printDeviceType, if_pos rfl]
      exact detects_printDevice 0
  | wheel => exact absurd rfl hthree
  | fiveButton => exact absurd rfl hfour
  | translated => exact hsecond .translated
  | translatedToo => exact hsecond .translatedToo
  | untranslated => exact hsecond .untranslated

/-- Behind 03 and 04 they wait for another byte. -/
theorem hangs_identify {b : UInt8} (hzero : b ≠ 0) (hAB : b ≠ 0xAB) :
    Hangs (Bus.step device) (Now ⟨[b], id, t, l⟩) identify := by
  refine (detects_ps2Read b).hangs fun x => Triple.of_fact ?_
  rintro rfl
  refine (detects_print _ _).hangs fun _ => ?_
  rw [identification, if_pos ⟨hzero, hAB⟩]
  have hwait : Hangs (Bus.step device)
      (Now ⟨[], id, t ++ [.got x], l⟩) Ps2.ps2Read := (hangs_ps2Read rfl).mono fun _ h => h.2
  exact (hwait.bind _).bind _

end

/-! ### The detection -/

/-- The detection up to its second FA. -/
def startDetection : Driver UInt8 := do
  Ps2.printf "Detecting device types\n" []
  ps2Write 1 0xF5
  let _ ← readAck "status: %x "
  ps2Write 1 0xF2
  Ps2.printf "Request acknowleged\n" []
  readAck "status:%x "

/-- And from its third command on. -/
def enableScanning : Driver Unit := do
  ps2Write 1 0xF4
  let status ← Ps2.ps2Read
  Ps2.printf "Scanning enabled: %x\n" [.int (byteArg status)]

/-- The detection in these parts. -/
theorem detectDevice_eq :
    detectDevice = (do
      let _ ← startDetection
      identify
      enableScanning) := by
  simp only [detectDevice, startDetection, identify, enableScanning, bind_assoc]

section
variable {q id : List UInt8}

/-- The scanning is turned off and the identification asked for. -/
theorem detects_startDetection (hq : 0xFA ∉ q) :
    Detects (Now ⟨q, id, [], []⟩) startDetection fun _ => Now ⟨id, id,
      .sent 0xF5 :: q.map .got ++ [.got 0xFA, .sent 0xF2, .got 0xFA], []⟩ := by
  let t : List Traffic := [.sent 0xF5] ++ (q ++ [0xFA]).map .got
  have hfirst : Detects (Now ⟨q ++ [0xFA], id, [.sent 0xF5], []⟩) (readAck "status: %x ")
      fun _ => Now ⟨[], id, t, []⟩ := detects_readAck _ [] hq
  have hsecond : Detects (Now ⟨0xFA :: id, id, t ++ [.sent 0xF2], []⟩) (readAck "status:%x ")
      fun _ => Now ⟨id, id, t ++ [.sent 0xF2] ++ [.got 0xFA], []⟩ :=
    detects_readAck _ id List.not_mem_nil
  have htraffic : t ++ [.sent 0xF2] ++ [.got 0xFA]
      = .sent 0xF5 :: q.map .got ++ [.got 0xFA, .sent 0xF2, .got 0xFA] := by
    simp [t]
  rw [← htraffic]
  refine (detects_text _).bind fun _ => ?_
  refine (detects_command 0xF5).bind fun _ => ?_
  refine hfirst.bind fun _ => ?_
  refine (detects_command 0xF2).bind fun _ => ?_
  refine (detects_text _).bind fun _ => ?_
  exact hsecond

/-- The scanning is turned on again. -/
theorem detects_enableScanning {t : List Traffic} {l : List CString} :
    Detects (Now ⟨[], id, t, l⟩) enableScanning
      fun _ => Now ⟨[], id, t ++ [.sent 0xF4, .got 0xFA], l⟩ := by
  refine (detects_command 0xF4).bind fun _ => ?_
  refine (detects_ps2Read 0xFA).bind fun b => ?_
  refine Total.of_fact fun _ => (detects_print _ b).mono (fun _ h => h) fun _ s h => ?_
  rw [List.append_assoc] at h
  exact h

section
variable {f : Stream' UInt8} (hf : Fair f) {i : Fin 5} (hq : 0xFA ∉ q)
include hf hq

/-- One byte is not enough for the source, unless it is 00. -/
theorem not_identified {b : UInt8} (hzero : b ≠ 0) (hAB : b ≠ 0xAB) : ¬Identified f q [b] i := by
  intro hidentified
  have hhangs : Hangs (Bus.step device) (Now ⟨q, [b], [], []⟩) detectDevice := by
    rw [detectDevice_eq]
    exact (detects_startDetection hq).hangs fun _ => (hangs_identify hzero hAB).bind _
  exact hhangs.not_terminates ⟨hf, rfl⟩ (hidentified.terminates rfl)

/-- The detection reads what the device sends, and no more, if and only if the identification is
neither 03 nor 04. -/
theorem detection_exact_iff (hid : Denotes id i) :
    Identified f q id i ↔ id ≠ [0x03] ∧ id ≠ [0x04] := by
  constructor
  · intro hidentified
    constructor
    · rintro rfl
      exact not_identified hf hq (by decide) (by decide) hidentified
    · rintro rfl
      exact not_identified hf hq (by decide) (by decide) hidentified
  · rintro ⟨hthree, hfour⟩
    have hdetects := (detects_startDetection hq).bind fun _ =>
      (detects_identify hid hthree hfour).bind fun _ => detects_enableScanning
    rw [← detectDevice_eq] at hdetects
    refine hdetects.mono ?_ fun _ _ h => h.2
    rintro s rfl
    exact ⟨hf, rfl⟩

end

end

/-- Whenever the source has a byte, the output buffer is full. The input buffer is always empty. -/
theorem fair_const : Fair (Stream'.const STATUS_OUT_FULL) := by
  constructor
  · intro n
    refine ⟨0, ?_⟩
    rw [Stream'.get_const]
    decide
  · intro n
    refine ⟨0, ?_⟩
    rw [Stream'.get_const]
    decide

/-- A keyboard, with the AA behind its reset still in the queue. -/
theorem detection_exact_iff_keyboard :
    Identified (Stream'.const STATUS_OUT_FULL) [0xAA] [0xAB, 0x83] 4 :=
  (detection_exact_iff fair_const (by decide) .untranslated).mpr ⟨by decide, by decide⟩

/-- A mouse with a wheel: the detection waits for a second byte. -/
theorem wheel_not_identified :
    Fair (Stream'.const STATUS_OUT_FULL) ∧ Denotes [0x03] 1 ∧
      ¬Identified (Stream'.const STATUS_OUT_FULL) [] [0x03] 1 :=
  ⟨fair_const, .wheel, not_identified fair_const List.not_mem_nil (by decide) (by decide)⟩

end Chuckles.Proofs
