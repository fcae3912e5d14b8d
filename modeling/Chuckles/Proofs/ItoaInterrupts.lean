import Chuckles.Kernel.ConvSteps
import Chuckles.Proofs.Ps2kb

/-!
# `Chuckles.Proofs.ItoaInterrupts`: `%d` and the static buffer of `itoa`

`printf` prints a number from the static buffer of `itoa`, byte after byte. `irq_handler`
reports the number of the interrupt with `itoa`, so an interrupt in the middle of the print
puts other numerals over the bytes that are still to come.

* `irqCalls` lists the numbers that an interrupt converts, and `irqHandler_cells` says that
  the buffer then holds their numerals (`stamp`), each over the one before it.
* `ConvSys` is the conversion one step at a time, with interrupts between the steps.
  `Pending` is its invariant.
* `decimal_of_runs`: the output is the numeral in every run where no interrupt changes a
  byte that is still to come (`Undisturbed`). `irq_overwrites_decimal` is a run where one
  does.
-/

set_option autoImplicit false

namespace Chuckles.Proofs

open Lib Lib.Run

/-! ### The numbers that an interrupt converts -/

/-- The number that the keyboard handler reports. -/
def kbdCalls (k : Keyboard) : List Int32 :=
  match (scan k).bind fun r => decode r.1 r.2 with
  | some (v, _) => [byteArg v.e.utf8]
  | none => []

/-- The numbers that `irq_handler` converts, in order. -/
def irqCalls (intNo : UInt32) (k : Kernel) : List Int32 :=
  (intNo - 32).toInt32 ::
    if intNo - 32 > 16 then [intNo.toInt32]
    else match k.irqRoutines[(intNo - 32).toNat]? with
      | some none => [intNo.toInt32, (intNo - 32).toInt32]
      | some (some .ps2kbHandler) => kbdCalls k.kbd
      | _ => []

/-- A report puts its numeral over the buffer, and changes no other part of the state that
a handler reads. -/
theorem report_cells {k k' : Kernel} {before after : List UInt8} {i : Int32}
    (h : k.report before i after = some k') :
    Kernel.cells k' = stamp (Kernel.cells k) i ∧ k'.irqRoutines = k.irqRoutines ∧
      k'.kbd.input = k.kbd.input ∧ k'.kbd.state = k.kbd.state ∧ k'.kbd.kbMap = k.kbd.kbMap := by
  obtain ⟨b', hspec, hcells⟩ := serialWrited_spec i (k.kbd.mach.serial before)
  simp only [Kernel.report, hspec, Option.bind_eq_bind, Option.bind_some, Option.some.injEq] at h
  rw [← h]
  exact ⟨hcells, rfl, rfl, rfl, rfl⟩

/-- A part of the keyboard handler whose result, apart from the machine, does not depend on
the machine, and which converts no number. -/
def Frames (f : Machine → Option (Scan × Keyboard)) : Prop :=
  (∀ m, f m = none) ∨ ∃ v state map input, ∀ m, ∃ m',
    f m = some (v, ⟨m', state, map, input⟩) ∧ m'.itoaBuf.cells = m.itoaBuf.cells

/-- A part that does not print. -/
theorem frames_pure (v : Scan) (state : Ps2kbState) (map : Option KeyMap)
    (input : List UInt8) : Frames fun m => some (v, ⟨m, state, map, input⟩) :=
  Or.inr ⟨v, state, map, input, fun m => ⟨m, rfl, rfl⟩⟩

/-- A part that prints. -/
theorem frames_print (format : List UInt8) (args : List Arg) {argsLeft : List Arg}
    {text : List UInt8} (hformat : 0 ∉ format)
    (hmatch : refFormat format args = some (text, argsLeft))
    (hcalls : itoaCalls format args = []) (hmax : text.length ≤ INT_MAX) (v : Scan)
    (state : Ps2kbState) (map : Option KeyMap) (input : List UInt8) :
    Frames fun m => (callPrintf format args m).bind fun m => some (v, ⟨m, state, map, input⟩) := by
  refine Or.inr ⟨v, state, map, input, fun m => ?_⟩
  obtain ⟨m', hprint, -, -, hcells⟩ := callPrintf_spec format args hformat m hmatch hmax
  rw [hcalls] at hcells
  exact ⟨m', by simp [hprint], hcells⟩

/-- The first switch. -/
theorem frames_extended (v : Scan) (state : Ps2kbState) (map : Option KeyMap)
    (input : List UInt8) : Frames fun m => extended v ⟨m, state, map, input⟩ := by
  unfold extended
  dsimp only
  split
  · exact frames_pure _ _ _ _
  split
  · exact frames_pure _ _ _ _
  split
  · exact frames_pure _ _ _ _
  split
  · exact frames_print _ _ (by decide) rfl rfl
      (hexText_room (ascii "<Unhandled E0 scancode ") (ascii ">") _ (by decide)) _ _ _ _
  · exact frames_pure _ _ _ _

/-- The handler up to its second switch. -/
theorem frames_scan (state : Ps2kbState) (map : Option KeyMap) (input : List UInt8) :
    Frames fun m => scan ⟨m, state, map, input⟩ := by
  have hempty : ∀ {f : Machine → Option (Scan × Keyboard)}, (∀ m, f m = none) → Frames f :=
    fun h => Or.inl h
  -- The cases are the bytes that the handler reads. It hangs when one is missing.
  match input with
  | [] => exact hempty fun m => rfl
  | b :: input =>
    by_cases hF0 : b = 0xF0
    · subst hF0
      cases input with
      | nil => exact hempty fun m => rfl
      | cons c input => exact frames_pure _ _ _ _
    by_cases hE0 : b = 0xE0
    · subst hE0
      cases input with
      | nil => exact hempty fun m => rfl
      | cons c input =>
        by_cases hc : c = 0xF0
        · subst hc
          cases input with
          | nil => exact hempty fun m => rfl
          | cons d input => exact frames_extended _ _ _ _
        · have heq : ∀ m, scan ⟨m, state, map, 0xE0 :: c :: input⟩
              = extended ⟨c, true, ⟨0, KEY_NONE, KB_FLAG_SPECIAL⟩⟩ ⟨m, state, map, input⟩ := by
            intro m
            simp [scan, ps2Read, hc]
          simp only [heq]
          exact frames_extended _ _ _ _
    by_cases hzero : b = 0
    · subst hzero
      exact frames_print (ascii "0 scancode rx") [] (by decide) rfl rfl
        (by decide) _ _ _ _
    · have heq : ∀ m, scan ⟨m, state, map, b :: input⟩
          = some (⟨b, true, ⟨0, KEY_NONE, KB_FLAG_SPECIAL⟩⟩, ⟨m, state, map, input⟩) := by
        intro m
        simp [scan, ps2Read, hF0, hE0, hzero]
      simp only [heq]
      exact frames_pure _ _ _ _

/-- The second switch. -/
theorem frames_decode (v : Scan) (state : Ps2kbState) (map : Option KeyMap)
    (input : List UInt8) : Frames fun m => decode v ⟨m, state, map, input⟩ := by
  unfold decode
  dsimp only
  split
  · exact frames_pure _ _ _ _
  split
  · exact frames_pure _ _ _ _
  split
  · exact frames_pure _ _ _ _
  split
  · exact frames_pure _ _ _ _
  split
  · exact frames_pure _ _ _ _
  split
  · exact frames_pure _ _ _ _
  -- Behind the keys that the switch knows, the key map decides.
  cases map with
  | none => exact Or.inl fun m => rfl
  | some map =>
    simp only [Option.bind_eq_bind, Option.bind_some]
    cases map.default[v.scancode.toNat]? with
    | none => exact Or.inl fun m => rfl
    | some utf8 =>
      simp only [Option.bind_some, mapKey]
      split
      · exact frames_print _ _ (by decide) rfl rfl
          (hexText_room (ascii "<Unmapped scancode ") (ascii ">") _ (by decide)) _ _ _ _
      split
      · exact frames_pure _ _ _ _
      split
      · exact frames_pure _ _ _ _
      split
      · cases map.shift[v.scancode.toNat]? with
        | none => exact Or.inl fun m => rfl
        | some shifted => exact frames_pure _ _ _ _
      · exact frames_pure _ _ _ _

/-- Both switches. -/
theorem frames_key (state : Ps2kbState) (map : Option KeyMap) (input : List UInt8) :
    Frames fun m => (scan ⟨m, state, map, input⟩).bind fun r => decode r.1 r.2 := by
  rcases frames_scan state map input with hnone | ⟨v, state₁, map₁, input₁, hsome⟩
  · exact Or.inl fun m => by simp [hnone m]
  · rcases frames_decode v state₁ map₁ input₁ with hnone | ⟨v₂, state₂, map₂, input₂, hsome₂⟩
    · refine Or.inl fun m => ?_
      obtain ⟨m₁, hscan, -⟩ := hsome m
      simp [hscan, hnone m₁]
    · refine Or.inr ⟨v₂, state₂, map₂, input₂, fun m => ?_⟩
      obtain ⟨m₁, hscan, hcells₁⟩ := hsome m
      obtain ⟨m₂, hdecode, hcells₂⟩ := hsome₂ m₁
      exact ⟨m₂, by simp [hscan, hdecode], hcells₂.trans hcells₁⟩

/-- The numbers that the keyboard handler converts do not depend on the machine. -/
theorem kbdCalls_congr {k k' : Keyboard} (hstate : k'.state = k.state)
    (hmap : k'.kbMap = k.kbMap) (hinput : k'.input = k.input) : kbdCalls k' = kbdCalls k := by
  obtain ⟨m, state, map, input⟩ := k
  obtain ⟨m', state', map', input'⟩ := k'
  subst hstate hmap hinput
  rcases frames_key state' map' input' with hnone | ⟨v, _, _, _, hsome⟩
  · simp only [kbdCalls, hnone]
  · obtain ⟨_, hm, -⟩ := hsome m
    obtain ⟨_, hm', -⟩ := hsome m'
    simp only [kbdCalls, hm, hm']

/-- The keyboard handler converts the character of the key. -/
theorem ps2kbHandler_cells {k k' : Keyboard} (h : ps2kbHandler k = some k') :
    k'.mach.itoaBuf.cells = (kbdCalls k).foldl stamp k.mach.itoaBuf.cells := by
  simp only [ps2kbHandler, Option.bind_eq_bind, Option.bind_eq_some_iff] at h
  obtain ⟨⟨v, k₁⟩, hscan, ⟨v', k₂⟩, hdecode, m, hshell, m', hserial, h⟩ := h
  have hkey : (scan k).bind (fun r => decode r.1 r.2) = some (v', k₂) := by
    rw [hscan, Option.bind_some]
    exact hdecode
  have hcells₂ : k₂.mach.itoaBuf.cells = k.mach.itoaBuf.cells := by
    rcases frames_key k.state k.kbMap k.input with hnone | ⟨_, _, _, _, hsome⟩
    · exact absurd (hkey.symm.trans (hnone k.mach)) (by simp)
    · obtain ⟨m₂, hm₂, hcells⟩ := hsome k.mach
      have hsame := hkey.symm.trans hm₂
      simp only [Option.some.injEq, Prod.mk.injEq] at hsame
      rw [hsame.2]
      exact hcells
  -- The shell converts no number, so the report is the only one.
  obtain ⟨m₁, hshell', -, -, hcells₁⟩ := shellKey_spec { v'.e with code := v'.scancode } k₂.mach
  rw [hshell, Option.some.injEq] at hshell'
  rw [List.foldl_nil] at hcells₁
  obtain ⟨b', hspec, hb'⟩ := serialWrited_spec (byteArg v'.e.utf8) (m.serial (ascii "KB:"))
  rw [hserial, Option.some.injEq] at hspec
  cases h
  have hcalls : kbdCalls k = [byteArg v'.e.utf8] := by simp only [kbdCalls, hkey]
  rw [hcalls, ← hcells₂, ← hcells₁, ← hshell', hspec]
  exact hb'

/-- An interrupt puts the numerals of its numbers over the static buffer. -/
theorem irqHandler_cells {intNo : UInt32} {k k' : Kernel} (h : irqHandler intNo k = some k') :
    Kernel.cells k' = (irqCalls intNo k).foldl stamp (Kernel.cells k) := by
  simp only [irqHandler, Option.bind_eq_bind, Option.bind_eq_some_iff] at h
  obtain ⟨k₁, hreport, h⟩ := h
  obtain ⟨hcells₁, hroutines₁, hinput₁, hstate₁, hmap₁⟩ := report_cells hreport
  rw [irqCalls, List.foldl_cons, ← hcells₁]
  -- Behind the first report, the guard and then the handler decide what is converted.
  by_cases hbig : intNo - 32 > 16
  · rw [if_pos hbig] at h ⊢
    exact (report_cells h).1
  · rw [if_neg hbig] at h ⊢
    rw [Option.bind_eq_some_iff] at h
    obtain ⟨handler, hhandler, h⟩ := h
    rw [hroutines₁] at hhandler
    rw [hhandler]
    obtain ⟨k₂, hrun, h⟩ := Option.bind_eq_some_iff.mp h
    -- The end-of-interrupt bytes do not touch the buffer.
    have hcells : Kernel.cells k' = Kernel.cells k₂ := by
      rw [← Option.some.inj h, endOfInterrupt]
      split <;> rfl
    rw [hcells]
    cases handler with
    | none =>
      obtain ⟨k₃, hfirst, hsecond⟩ := Option.bind_eq_some_iff.mp hrun
      rw [(report_cells hsecond).1, (report_cells hfirst).1]
      rfl
    | some handler =>
      cases handler with
      | timerHandler =>
        simp only [irqCall, Routine.run, Option.some.injEq] at hrun
        rw [← hrun, timerHandler]
        dsimp only
        split <;> rfl
      | ps2kbHandler =>
        simp only [irqCall, Routine.run, Option.bind_eq_bind, Option.bind_eq_some_iff,
          Option.some.injEq] at hrun
        obtain ⟨kbd, hkbd, hrun⟩ := hrun
        rw [← hrun]
        show kbd.mach.itoaBuf.cells = _
        rw [ps2kbHandler_cells hkbd, kbdCalls_congr hstate₁ hmap₁ hinput₁]
        rfl

/-! ### The bytes that are still to come -/

/-- What a numeral makes of the bytes that are still to come. Both end at the same cell. -/
def overlay (pending : List UInt8) (i : Int32) : List UInt8 :=
  pending.take (pending.length - (decimal i).length)
    ++ (decimal i).drop ((decimal i).length - pending.length)

/-- It is as long as the bytes that were to come. -/
theorem length_overlay (pending : List UInt8) (i : Int32) :
    (overlay pending i).length = pending.length := by
  simp [overlay]
  omega

/-- A numeral over the buffer keeps its size. -/
theorem length_stamp {cells : Object UInt8} (i : Int32) (h : cells.length = ITOA_DIGITS + 2) :
    (stamp cells i).length = ITOA_DIGITS + 2 := by
  have hdec := length_decimal_le i
  have hroom : ITOA_DIGITS = 19 := rfl
  simp only [stamp, List.length_append, List.length_take, List.length_map, List.length_singleton]
  omega

/-- The buffer from a cell on holds the bytes that are still to come, and the NUL. -/
def EndsWith (cells : Object UInt8) (pending : List UInt8) : Prop :=
  cells.drop (ITOA_DIGITS + 1 - pending.length) = pending.map some ++ [some 0]

/-- A numeral over the buffer. -/
theorem endsWith_stamp {cells : Object UInt8} {pending : List UInt8} (i : Int32)
    (hpending : pending.length ≤ ITOA_DIGITS + 1) (hlen : cells.length = ITOA_DIGITS + 2)
    (h : EndsWith cells pending) : EndsWith (stamp cells i) (overlay pending i) := by
  have hdec := length_decimal_le i
  have hroom : ITOA_DIGITS = 19 := rfl
  have htake : (cells.take (ITOA_DIGITS + 1 - (decimal i).length)).length
      = ITOA_DIGITS + 1 - (decimal i).length := by
    rw [List.length_take]
    omega
  unfold EndsWith at h ⊢
  rw [length_overlay, stamp, overlay, List.drop_append, htake, List.drop_take, h]
  -- The cells before the numeral, and the numeral from the first pending byte on.
  have hbefore : ITOA_DIGITS + 1 - (decimal i).length - (ITOA_DIGITS + 1 - pending.length)
      = pending.length - (decimal i).length := by omega
  have hnumeral : ITOA_DIGITS + 1 - pending.length - (ITOA_DIGITS + 1 - (decimal i).length)
      = (decimal i).length - pending.length := by omega
  rw [hbefore, hnumeral, List.take_append_of_le_length (by simp),
    List.drop_append_of_le_length (by simp), List.map_append, List.map_take, List.map_drop,
    List.append_assoc]

/-- The numerals of an interrupt over the buffer. -/
theorem endsWith_foldl_stamp (ks : List Int32) :
    ∀ {cells : Object UInt8} {pending : List UInt8}, pending.length ≤ ITOA_DIGITS + 1 →
      cells.length = ITOA_DIGITS + 2 → EndsWith cells pending →
      EndsWith (ks.foldl stamp cells) (ks.foldl overlay pending) := by
  induction ks with
  | nil => intro cells pending _ _ h; exact h
  | cons i ks ih =>
    intro cells pending hpending hlen h
    -- One numeral at a time, and the number of pending bytes stays.
    exact ih (by rw [length_overlay]; exact hpending) (length_stamp i hlen)
      (endsWith_stamp i hpending hlen h)

/-! ### Runs -/

/-- The invariant. From the first step on the pointer is where the numeral starts. While
bytes are still to come, the buffer ends with them. -/
def Pending (d : Int32) (s : ConvSys) : Prop :=
  match s.pc with
  | .pointer => s.sent = []
  | .length p => p = ITOA_DIGITS + 1 - (decimal d).length ∧ s.sent = []
  | .emit p n i =>
    p = ITOA_DIGITS + 1 - (decimal d).length ∧ n = (decimal d).length ∧ i ≤ n ∧
      s.sent = (decimal d).take i ∧ EndsWith s.kernel.cells ((decimal d).drop i)
  | .count => s.sent = decimal d
  | .done _ => s.sent = decimal d

/-- The condition on a step: the numerals of an interrupt that comes while bytes are still
to come, put over these bytes in order, leave them as they are. -/
def Undisturbed (d : Int32) (s : ConvSys) : ConvAct → Prop
  | .main => True
  | .irq intNo =>
    match s.pc with
    | .emit _ _ i =>
      (irqCalls intNo s.kernel).foldl overlay ((decimal d).drop i) = (decimal d).drop i
    | _ => True

instance (d : Int32) (s : ConvSys) : (a : ConvAct) → Decidable (Undisturbed d s a)
  | .main => inferInstanceAs (Decidable True)
  | .irq _ =>
    match s with
    | ⟨_, .emit _ _ _, _⟩ => inferInstanceAs (Decidable (_ = _))
    | ⟨_, .pointer, _⟩ => inferInstanceAs (Decidable True)
    | ⟨_, .length _, _⟩ => inferInstanceAs (Decidable True)
    | ⟨_, .count, _⟩ => inferInstanceAs (Decidable True)
    | ⟨_, .done _, _⟩ => inferInstanceAs (Decidable True)

/-- A numeral that was just converted is the end of the buffer. -/
theorem endsWith_itoa {d : Int32} {m m' : Machine} {p : Nat} (h : m.itoa d = some (m', p)) :
    EndsWith m'.itoaBuf.cells (decimal d) := by
  have hroom : ITOA_DIGITS = 19 := rfl
  have hdec := length_decimal_le d
  have hlen := m.itoaBuf.length_eq
  rw [EndsWith, (Machine.itoa_eq_some h).2, stamp]
  exact List.drop_left' (by rw [List.length_take]; omega)

/-- The end of the buffer, split at the first pending byte. -/
theorem cells_eq_of_endsWith {cells : Object UInt8} {b : UInt8} {pending : List UInt8}
    (h : EndsWith cells (b :: pending)) :
    cells = cells.take (ITOA_DIGITS + 1 - (b :: pending).length)
      ++ some b :: (pending.map some ++ [some 0]) := by
  have hsplit := (List.take_append_drop (ITOA_DIGITS + 1 - (b :: pending).length) cells).symm
  rw [h] at hsplit
  exact hsplit

/-- One byte less is still to come. -/
theorem endsWith_tail {cells : Object UInt8} {b : UInt8} {pending : List UInt8}
    (hlen : (b :: pending).length ≤ ITOA_DIGITS + 1) (h : EndsWith cells (b :: pending)) :
    EndsWith cells pending := by
  have hnext : ITOA_DIGITS + 1 - pending.length
      = ITOA_DIGITS + 1 - (b :: pending).length + 1 := by
    rw [List.length_cons] at hlen ⊢
    omega
  rw [EndsWith, hnext, ← List.drop_drop, h]
  rfl

/-- A step of the conversion is enabled until it is done, and keeps the invariant. -/
theorem pending_main {d : Int32} {s : ConvSys} (h : Pending d s) :
    (∃ n, s.pc = .done n) ∨ ∃ s', convStep d s .main = some s' ∧ Pending d s' := by
  obtain ⟨k, pc, sent⟩ := s
  obtain ⟨b', hitoa, -⟩ := k.kbd.mach.itoa_spec d
  have hroom : ITOA_DIGITS = 19 := rfl
  have hdec := length_decimal_le d
  cases pc with
  | pointer => exact Or.inr ⟨_, convStep_pointer sent hitoa, rfl, h⟩
  | length p =>
    obtain ⟨hp, hsent⟩ : p = ITOA_DIGITS + 1 - (decimal d).length ∧ sent = [] := h
    exact Or.inr ⟨_, convStep_length sent p hitoa, hp, rfl, Nat.zero_le _, hsent,
      endsWith_itoa hitoa⟩
  | emit p n i =>
    obtain ⟨rfl, rfl, hi, hsent, hends⟩ : p = ITOA_DIGITS + 1 - (decimal d).length ∧
      n = (decimal d).length ∧ i ≤ n ∧ sent = (decimal d).take i ∧
        EndsWith k.cells ((decimal d).drop i) := h
    -- Either a byte is still to come, or the loop of `print` ends.
    right
    rcases Nat.lt_or_eq_of_le hi with hlt | rfl
    · -- The next byte is in its cell, and the end of the buffer is one byte shorter.
      have hdrop := List.drop_eq_getElem_cons hlt
      have hlen : ((decimal d).drop i).length = (decimal d).length - i := List.length_drop
      rw [hdrop] at hends hlen
      have hp : ITOA_DIGITS + 1 - (decimal d).length + i
          = (k.cells.take (ITOA_DIGITS + 1
              - ((decimal d)[i] :: (decimal d).drop (i + 1)).length)).length := by
        rw [List.length_take, Kernel.cells, k.kbd.mach.itoaBuf.length_eq, hlen]
        omega
      refine ⟨_, convStep_emit sent (cells_eq_of_endsWith hends) hp hlt, rfl, rfl, hlt, ?_, ?_⟩
      · show sent ++ [(decimal d)[i]] = _
        rw [hsent, List.take_append_getElem hlt]
      · exact endsWith_tail (by rw [hlen]; omega) hends
    · refine ⟨_, convStep_last sent _ _, ?_⟩
      show sent = decimal d
      rw [hsent, List.take_length]
  | count => exact Or.inr ⟨_, convStep_count sent hitoa, h⟩
  | done n => exact Or.inl ⟨n, rfl⟩

/-- An interrupt that changes no pending byte keeps the invariant. -/
theorem pending_irq {d : Int32} {s : ConvSys} {intNo : UInt32} {k : Kernel} (h : Pending d s)
    (hok : Undisturbed d s (.irq intNo)) (hirq : irqHandler intNo s.kernel = some k) :
    Pending d ⟨k, s.pc, s.sent⟩ := by
  obtain ⟨k₀, pc, sent⟩ := s
  have hcells := irqHandler_cells hirq
  have hroom : ITOA_DIGITS = 19 := rfl
  have hdec := length_decimal_le d
  cases pc with
  | emit p n i =>
    obtain ⟨hp, hn, hi, hsent, hends⟩ := h
    refine ⟨hp, hn, hi, hsent, ?_⟩
    have hpending : ((decimal d).drop i).length ≤ ITOA_DIGITS + 1 := by
      rw [List.length_drop]
      omega
    have hstamped := endsWith_foldl_stamp (irqCalls intNo k₀) hpending
      k₀.kbd.mach.itoaBuf.length_eq hends
    -- The condition on the step.
    have hsame : (irqCalls intNo k₀).foldl overlay ((decimal d).drop i) = (decimal d).drop i := hok
    rw [hsame] at hstamped
    show EndsWith k.cells _
    rw [hcells]
    exact hstamped
  | pointer => exact h
  | length p => exact h
  | count => exact h
  | done n => exact h

/-- The step lemma. -/
theorem pending_step (d : Int32) (s : ConvSys) (a : ConvAct) (s' : ConvSys) (h : Pending d s)
    (hok : Undisturbed d s a) (hstep : convStep d s a = some s') : Pending d s' := by
  cases a with
  | main =>
    rcases pending_main h with ⟨n, hdone⟩ | ⟨s'', hs'', hpending⟩
    · simp [convStep, hdone] at hstep
    · rw [hs'', Option.some.injEq] at hstep
      rw [← hstep]
      exact hpending
  | irq intNo =>
    obtain ⟨k, hirq, hs'⟩ := Option.bind_eq_some_iff.mp hstep
    cases hs'
    exact pending_irq h hok hirq

/-- What holds in every state of a run: the output so far begins the numeral, the conversion
can go on until it is done, and then the output is the numeral. -/
def PrintsDecimal (d : Int32) (s : ConvSys) : Prop :=
  s.sent <+: decimal d ∧
  ((∃ n, s.pc = .done n) ∨ ∃ s', convStep d s .main = some s') ∧
  ∀ n, s.pc = .done n → s.sent = decimal d

/-- The invariant says so. -/
theorem printsDecimal_of_pending {d : Int32} {s : ConvSys} (h : Pending d s) :
    PrintsDecimal d s := by
  refine ⟨?_, ?_, fun n hn => ?_⟩
  · obtain ⟨k, pc, sent⟩ := s
    cases pc with
    | pointer =>
      have hsent : sent = [] := h
      exact hsent ▸ List.nil_prefix
    | length p =>
      have hsent : sent = [] := h.2
      exact hsent ▸ List.nil_prefix
    | emit p n i =>
      have hsent : sent = (decimal d).take i := h.2.2.2.1
      exact hsent ▸ List.take_prefix i _
    | count =>
      have hsent : sent = decimal d := h
      exact hsent ▸ List.prefix_refl _
    | done n =>
      have hsent : sent = decimal d := h
      exact hsent ▸ List.prefix_refl _
  · rcases pending_main h with hdone | ⟨s', hs', -⟩
    · exact Or.inl hdone
    · exact Or.inr ⟨s', hs'⟩
  · obtain ⟨k, pc, sent⟩ := s
    cases hn
    exact h

/-- **When `%d` survives interrupts.** Over a run of the conversion, step by step, with
interrupts between the steps, in which no interrupt changes a byte that is still to come, the
output is the decimal numeral. -/
theorem decimal_of_runs (d : Int32) (k : Kernel) (acts : List ConvAct) (s : ConvSys)
    (h : Runs (convStep d) (Undisturbed d) ⟨k, .pointer, []⟩ acts s) : PrintsDecimal d s :=
  printsDecimal_of_pending (h.invariant (Pending d) (pending_step d) rfl)

/-- The timer interrupts leave the last byte of `10` as it is. -/
theorem decimal_of_runs_timer :
    ∃ s, Runs (convStep 10) (Undisturbed 10) ⟨Kernel.early [], .pointer, []⟩
        [.main, .irq 32, .main, .irq 32, .main, .irq 32, .main, .main, .irq 37, .main] s ∧
      PrintsDecimal 10 s := by
  -- The run is executed, and the numerals of the interrupts end at the byte `0`.
  obtain ⟨s, hs⟩ := Option.isSome_iff_exists.mp
    (by decide +kernel : (exec (convStep 10) (Undisturbed 10) ⟨Kernel.early [], .pointer, []⟩
      [.main, .irq 32, .main, .irq 32, .main, .irq 32, .main, .main, .irq 37, .main]).isSome)
  exact ⟨s, runs_of_exec hs, decimal_of_runs _ _ _ _ (runs_of_exec hs)⟩

/-- A timer interrupt before the first byte of `12345` overwrites its last one. -/
theorem irq_overwrites_decimal :
    ∃ s, Runs (convStep 12345) Any ⟨Kernel.early [], .pointer, []⟩
        [.main, .main, .irq 32, .main, .main, .main, .main, .main, .main, .main] s ∧
      s.sent = ascii "12340" ∧ ¬ PrintsDecimal 12345 s := by
  have hrun : (exec (convStep 12345) Any ⟨Kernel.early [], .pointer, []⟩
      [.main, .main, .irq 32, .main, .main, .main, .main, .main, .main, .main]).map
        ConvSys.sent = some (ascii "12340") := by
    decide +kernel
  obtain ⟨s, hs, hsent⟩ := Option.map_eq_some_iff.mp hrun
  refine ⟨s, runs_of_exec hs, hsent, fun h => ?_⟩
  have hprefix := h.1
  rw [hsent] at hprefix
  revert hprefix
  decide

end Chuckles.Proofs
