import Chuckles.Lib.Segment
import Chuckles.Proofs.Ps2kb

/-!
# `Chuckles.Proofs.KeyEvents`: the key events, and what the shell echoes

A run of the handler passes one event to the shell. The first part is about all events: the
handler never loses its place in the bytes, and the flags of an event are those of the
modifier keys (`framing_round_trip`).

The second part is about the events for which `shell_key` prints a character (`echo`). The
keys of the number block have their codes in common with the arrow keys, which differ in
the prefix, and the table has the code of the arrow as their entry. Without the prefix the
shell takes this code for a character.

* `echo_eventOf`: the echo of an event.
* `character_entry`: the entries of the other keys are characters.
* `echo_follows_map_iff`: the echo follows the key map exactly in the runs in which no key of
  the number block is pressed without a control, alt or mod key.
-/

set_option autoImplicit false

namespace Chuckles.Proofs

open Lib

/-! ### Runs -/

/-- The driver with the key map installed, and the bytes of the transitions to come. -/
def installed (m : Machine) (s : Ps2kbState) (ts : List KeyTrans) (rest : List UInt8) : Keyboard :=
  ⟨m, s, some gb, ts.flatMap KeyTrans.encode ++ rest⟩

/-- The modifier flags after the first transitions. -/
def flagsAt (s : Ps2kbState) (ts : List KeyTrans) (n : Nat) : Ps2kbState :=
  (ts.take n).foldl flagsAfter s

section
variable (m : Machine) (s : Ps2kbState) (ts : List KeyTrans) (rest : List UInt8)

/-- The bytes that are left after some transitions. -/
theorem input_drop (i : Fin ts.length) :
    (ts.drop i).flatMap KeyTrans.encode
      = (ts.get i).encode ++ (ts.drop (i + 1)).flatMap KeyTrans.encode := by
  rw [List.drop_eq_getElem_cons i.isLt, List.flatMap_cons]
  rfl

/-- Before each run of the handler the next bytes are those of the next transition. -/
theorem handlerRuns_installed (i : Fin ts.length) :
    ∃ k, handlerRuns i (installed m s ts rest) = some k ∧
      k.input = (ts.get i).encode ++ ((ts.drop (i + 1)).flatMap KeyTrans.encode ++ rest) ∧
      k.kbMap = some gb ∧ k.state = flagsAt s ts i := by
  have hinput : (installed m s ts rest).input
      = (ts.take i).flatMap KeyTrans.encode ++ ((ts.drop i).flatMap KeyTrans.encode ++ rest) := by
    rw [← List.append_assoc, ← List.flatMap_append, List.take_append_drop]
    rfl
  obtain ⟨k, hrun, hleft, hmap, hstate, -⟩ := handlerRuns_spec (ts.take i) _ _ hinput rfl
  rw [List.length_take, Nat.min_eq_left (Nat.le_of_lt i.isLt)] at hrun
  rw [input_drop, List.append_assoc] at hleft
  exact ⟨k, hrun, hleft, hmap, hstate⟩

end

/-! ### Framing -/

/-- The flags of an event are those of the modifier keys, and the direction of the key. -/
structure FlagsOf (s : Ps2kbState) (make : Bool) (flags : UInt8) : Prop where
  control : flags &&& KB_FLAG_CONTROL ≠ 0 ↔ (s.lctrl || s.rctrl) = true
  shift : flags &&& KB_FLAG_SHIFT ≠ 0 ↔ (s.lshift || s.rshift) = true
  alt : flags &&& KB_FLAG_ALT ≠ 0 ↔ (s.lalt || s.ralt) = true
  mod : flags &&& KB_FLAG_MOD ≠ 0 ↔ s.mod = true
  down : flags &&& KB_FLAG_DOWN ≠ 0 ↔ make = true

/-- The shifted booleans do not overlap, so their sum sets their bits. -/
theorem flagBits (c s a m d : Bool) :
    let flags := KB_FLAG_SPECIAL
      ||| (flagBit c 1 + flagBit s 2 + flagBit a 3 + flagBit m 4 + flagBit d 7)
    (flags &&& KB_FLAG_CONTROL ≠ 0 ↔ c = true) ∧ (flags &&& KB_FLAG_SHIFT ≠ 0 ↔ s = true) ∧
      (flags &&& KB_FLAG_ALT ≠ 0 ↔ a = true) ∧ (flags &&& KB_FLAG_MOD ≠ 0 ↔ m = true) ∧
      (flags &&& KB_FLAG_DOWN ≠ 0 ↔ d = true) := by
  revert c s a m d
  decide

/-- The flags that the handler computes. -/
theorem flagsOf_keyFlags (s : Ps2kbState) (make : Bool) :
    FlagsOf s make (keyFlags s make KB_FLAG_SPECIAL) := by
  rcases flagBits (s.lctrl || s.rctrl) (s.lshift || s.rshift) (s.lalt || s.ralt) s.mod make
    with ⟨hcontrol, hshift, halt, hmod, hdown⟩
  exact ⟨hcontrol, hshift, halt, hmod, hdown⟩

/-- The bits that they are about. -/
def flagMasks : List UInt8 :=
  [KB_FLAG_CONTROL, KB_FLAG_SHIFT, KB_FLAG_ALT, KB_FLAG_MOD, KB_FLAG_DOWN]

/-- Flags with the same bits. -/
theorem FlagsOf.of_masks {s : Ps2kbState} {make : Bool} {flags flags' : UInt8}
    (h : FlagsOf s make flags) (hbits : ∀ mask ∈ flagMasks, flags' &&& mask = flags &&& mask) :
    FlagsOf s make flags' := by
  simp only [flagMasks, List.forall_mem_cons] at hbits
  rcases hbits with ⟨hcontrol, hshift, halt, hmod, hdown, -⟩
  refine ⟨?_, ?_, ?_, ?_, ?_⟩
  · rw [hcontrol]
    exact h.control
  · rw [hshift]
    exact h.shift
  · rw [halt]
    exact h.alt
  · rw [hmod]
    exact h.mod
  · rw [hdown]
    exact h.down

/-- The special bit is none of them: it can be set. -/
theorem FlagsOf.set_special {s : Ps2kbState} {make : Bool} {flags : UInt8}
    (h : FlagsOf s make flags) : FlagsOf s make (flags ||| KB_FLAG_SPECIAL) := by
  have hspecial : ∀ mask ∈ flagMasks, KB_FLAG_SPECIAL &&& mask = 0 := by
    simp only [flagMasks, List.forall_mem_cons]
    exact ⟨rfl, rfl, rfl, rfl, rfl, List.forall_mem_nil _⟩
  refine h.of_masks fun mask hmask => ?_
  rw [or_and_mask, hspecial mask hmask, UInt8.or_zero]

/-- And cleared. -/
theorem FlagsOf.clear_special {s : Ps2kbState} {make : Bool} {flags : UInt8}
    (h : FlagsOf s make flags) : FlagsOf s make (flags &&& ~~~KB_FLAG_SPECIAL) := by
  have hspecial : ∀ mask ∈ flagMasks, ~~~KB_FLAG_SPECIAL &&& mask = mask := by
    simp only [flagMasks, List.forall_mem_cons]
    exact ⟨rfl, rfl, rfl, rfl, rfl, List.forall_mem_nil _⟩
  exact h.of_masks fun mask hmask => and_and_mask (hspecial mask hmask) flags

/-- The flags of the event of a mapped code. -/
theorem flagsOf_eventOf (s : Ps2kbState) {t : KeyTrans} (h : Mapped t.code) :
    FlagsOf s t.make (eventOf s t).flags := by
  have hflags := flagsOf_keyFlags s t.make
  have hdecoded : decoded s (scanned t) = mapped s (scanned t) := if_pos h
  show FlagsOf s t.make (decoded s (scanned t)).flags
  rw [hdecoded]
  unfold mapped
  dsimp only
  split
  · exact hflags.set_special
  split
  · exact hflags.set_special
  split
  · exact hflags.clear_special
  · exact hflags.clear_special

/-- A run of the handler from `k` to `k'` consumes the bytes of the transition, and passes one
event, which is about it. -/
def Framed (t : KeyTrans) (k k' : Keyboard) : Prop :=
  ∃ e k₁, k.input = t.encode ++ k'.input ∧ keyEvent k = some (e, k₁) ∧
    afterEvent e k₁ = some k' ∧ e.code = t.code ∧ (Mapped t.code → FlagsOf k₁.state t.make e.flags)

/-- **The handler never loses its place.** Each of its runs consumes the bytes of one
transition, and passes one event with its code, its direction and the modifier flags. -/
theorem framing_round_trip (m : Machine) (s : Ps2kbState) (ts : List KeyTrans)
    (rest : List UInt8) (i : Fin ts.length) :
    ∃ k k', handlerRuns i (installed m s ts rest) = some k ∧ ps2kbHandler k = some k' ∧
      Framed (ts.get i) k k' ∧ k'.input = (ts.drop (i + 1)).flatMap KeyTrans.encode ++ rest := by
  -- The runs before have consumed the bytes of the transitions before, and no others.
  rcases handlerRuns_installed m s ts rest i with ⟨k, hrun, hinput, hmap, -⟩
  rcases keyEvent_spec k (ts.get i) _ hinput hmap with ⟨k₁, hevent, hinput₁, -, -, -⟩
  rcases afterEvent_spec (eventOf k₁.state (ts.get i)) k₁ with ⟨m', hafter, -⟩
  refine ⟨k, { k₁ with mach := m' }, hrun, ?_, ?_, hinput₁⟩
  · rw [ps2kbHandler_eq, hevent]
    exact hafter
  · refine ⟨_, k₁, ?_, hevent, hafter, rfl, flagsOf_eventOf k₁.state⟩
    show k.input = _ ++ k₁.input
    rw [hinput₁, hinput]

/-! ### The echo -/

/-- The character that `shell_key` prints for an event, when it takes its first branch. -/
def echo (e : KeyEvent) : Option UInt8 :=
  if e.flags &&& KB_FLAG_SPECIAL = 0 ∧ e.flags &&& KB_FLAG_DOWN ≠ 0 then some e.utf8 else none

/-- With an echo `shell_key` is one print of the character. -/
theorem shellKey_echo {e : KeyEvent} {b : UInt8} (h : echo e = some b) (m : Machine) :
    shellKey e m = callPrintf (ascii "%c") [.int (byteArg b)] m ∧ shellText e = [b] := by
  unfold echo at h
  split at h
  · rename_i hbranch
    cases h
    exact ⟨if_pos hbranch, by rw [shellText, if_neg hbranch.2, if_pos hbranch.1]⟩
  · cases h

/-- Without an echo the text of `shell_key` is empty, or a name in angle brackets. -/
theorem shellText_no_echo {e : KeyEvent} (h : echo e = none) :
    (shellText e).head?.all (· = '<'.toUInt8) := by
  unfold echo at h
  unfold shellText
  by_cases hdown : e.flags &&& KB_FLAG_DOWN = 0
  · rw [if_pos hdown]
    rfl
  · have hspecial : ¬e.flags &&& KB_FLAG_SPECIAL = 0 := by
      intro hspecial
      rw [if_pos ⟨hspecial, hdown⟩] at h
      cases h
    rw [if_neg hdown, if_neg hspecial]
    repeat' split
    all_goals rfl

/-- What `shell_key` does with an event. With an echo it is one print of the character. Without one
it does not take this branch, and its text is empty or a name in angle brackets. -/
def ShellEchoes (e : KeyEvent) (m : Machine) : Prop :=
  ∃ m' text, shellKey e m = some m' ∧ Prints m text [] m' ∧
    match echo e with
    | some b => shellKey e m = callPrintf (ascii "%c") [.int (byteArg b)] m ∧ text = [b]
    | none => text.head?.all (· = '<'.toUInt8)

/-- It does so with every event. -/
theorem shellEchoes (e : KeyEvent) (m : Machine) : ShellEchoes e m := by
  obtain ⟨m', hrun, hprints⟩ := shellKey_spec e m
  refine ⟨m', shellText e, hrun, hprints, ?_⟩
  cases hecho : echo e with
  | some b => exact shellKey_echo hecho m
  | none => exact shellText_no_echo hecho

/-- No modifier key but the shift keys is down. -/
def Unmodified (s : Ps2kbState) : Prop :=
  (s.lctrl || s.rctrl) = false ∧ (s.lalt || s.ralt) = false ∧ s.mod = false

instance (s : Ps2kbState) : Decidable (Unmodified s) := inferInstanceAs (Decidable (_ ∧ _ ∧ _))

/-- The entry that is printed. -/
def shiftedEntry (s : Ps2kbState) (code : UInt8) : UInt8 :=
  if (s.lshift || s.rshift) = true then entry gb.shift code else entry gb.default code

/-- A key that is not mapped gives no echo. -/
theorem echo_of_not_mapped (s : Ps2kbState) {t : KeyTrans} (h : ¬Mapped t.code) :
    echo (eventOf s t) = none := by
  have hdecoded : decoded s (scanned t) = (scanned t).e := if_neg h
  have hspecial : (eventOf s t).flags = KB_FLAG_SPECIAL := by
    show (decoded s (scanned t)).flags = _
    rw [hdecoded]
    rfl
  rw [echo, hspecial]
  exact if_neg fun hbranch => absurd hbranch.1 (by decide)

/-- An event with the special bit set gives no echo. -/
theorem echo_of_special (utf8 code flags : UInt8) :
    echo ⟨utf8, code, flags ||| KB_FLAG_SPECIAL⟩ = none := by
  refine if_neg fun hbranch => ?_
  have hzero : (flags ||| KB_FLAG_SPECIAL) &&& KB_FLAG_SPECIAL = 0 := hbranch.1
  rw [or_and_mask, UInt8.or_eq_zero_iff] at hzero
  exact absurd hzero.2 (by decide)

/-- An event with the special bit cleared gives an echo when the key goes down. -/
theorem echo_of_plain {s : Ps2kbState} {make : Bool} (utf8 code : UInt8) {flags : UInt8}
    (h : FlagsOf s make flags) :
    echo ⟨utf8, code, flags &&& ~~~KB_FLAG_SPECIAL⟩ = if make = true then some utf8 else none := by
  have hclear : (flags &&& ~~~KB_FLAG_SPECIAL) &&& KB_FLAG_SPECIAL = 0 := by
    have hmask : ~~~KB_FLAG_SPECIAL &&& KB_FLAG_SPECIAL = 0 := by decide
    rw [and_and_mask hmask, UInt8.and_zero]
  have hdown := h.clear_special.down
  unfold echo
  by_cases hmake : make = true
  · rw [if_pos ⟨hclear, hdown.mpr hmake⟩, if_pos hmake]
  · rw [if_neg fun hbranch => hmake (hdown.mp hbranch.2), if_neg hmake]

/-- The event of a mapped code with the prefix has a code already. -/
theorem extCode_ne_none_iff {t : KeyTrans} (h : Mapped t.code) :
    extCode t ≠ KEY_NONE ↔ t.ext = true := by
  rcases h with ⟨hmodifier, -, hentry⟩
  simp only [modifierKeys, List.mem_cons, List.not_mem_nil, or_false, not_or] at hmodifier
  rcases hmodifier with ⟨-, hctl, halt, -, hmod⟩
  have hzero : t.code ≠ 0 := by
    intro hzero
    rw [hzero] at hentry
    exact hentry (by decide)
  unfold extCode
  by_cases hext : t.ext = true
  · rw [if_neg]
    · exact ⟨fun _ => hext, fun _ => hzero⟩
    · rintro (h | h | h | h | h)
      · rw [hext] at h
        cases h
      · exact hctl h
      · exact halt h
      · exact hmod h
      · exact hzero h
  · rw [if_pos (Or.inl (Bool.eq_false_iff.mpr hext))]
    exact ⟨fun h => absurd rfl h, fun h => absurd h hext⟩

/-- The events that the shell takes for a character. -/
def Echoes (s : Ps2kbState) (t : KeyTrans) : Prop :=
  t.make = true ∧ t.ext = false ∧ Mapped t.code ∧ Unmodified s

instance (s : Ps2kbState) (t : KeyTrans) : Decidable (Echoes s t) :=
  inferInstanceAs (Decidable (_ ∧ _ ∧ _ ∧ _))

/-- Another modifier key is down: no echo. -/
theorem echo_mapped_of_modified {s : Ps2kbState} (t : KeyTrans) (h : ¬Unmodified s) :
    echo { mapped s (scanned t) with code := t.code } = none := by
  have hkey := flagsOf_keyFlags s t.make
  have hmodified : (s.lctrl || s.rctrl) = true ∨ (s.lalt || s.ralt) = true ∨ s.mod = true := by
    refine Decidable.byContradiction fun hnone => h ⟨?_, ?_, ?_⟩
    · exact Bool.eq_false_iff.mpr fun hcontrol => hnone (Or.inl hcontrol)
    · exact Bool.eq_false_iff.mpr fun halt => hnone (Or.inr (Or.inl halt))
    · exact Bool.eq_false_iff.mpr fun hmod => hnone (Or.inr (Or.inr hmod))
  rw [← hkey.control, ← hkey.alt, ← hkey.mod] at hmodified
  -- The first branch of the default case: the event keeps the special bit.
  have hevent : mapped s (scanned t)
      = ⟨entry gb.default t.code, extCode t,
        keyFlags s t.make KB_FLAG_SPECIAL ||| KB_FLAG_SPECIAL⟩ := if_pos hmodified
  rw [hevent]
  exact echo_of_special _ _ _

/-- No other modifier key is down, so the prefix and the shift keys decide. -/
theorem echo_mapped_of_unmodified {s : Ps2kbState} {t : KeyTrans} (hmapped : Mapped t.code)
    (h : Unmodified s) :
    echo { mapped s (scanned t) with code := t.code }
      = if t.make = true ∧ t.ext = false then some (shiftedEntry s t.code) else none := by
  have hkey := flagsOf_keyFlags s t.make
  rcases h with ⟨hcontrol, halt, hmod⟩
  have hunmodified : ¬(keyFlags s t.make KB_FLAG_SPECIAL &&& KB_FLAG_CONTROL ≠ 0
      ∨ keyFlags s t.make KB_FLAG_SPECIAL &&& KB_FLAG_ALT ≠ 0
      ∨ keyFlags s t.make KB_FLAG_SPECIAL &&& KB_FLAG_MOD ≠ 0) := by
    rw [hkey.control, hkey.alt, hkey.mod, hcontrol, halt, hmod]
    decide
  by_cases hext : t.ext = true
  · -- The prefix has left its mark in the code of the event.
    have hevent : mapped s (scanned t)
        = ⟨0, extCode t, keyFlags s t.make KB_FLAG_SPECIAL ||| KB_FLAG_SPECIAL⟩ :=
      (if_neg hunmodified).trans (if_pos ((extCode_ne_none_iff hmapped).mpr hext))
    rw [hevent, if_neg fun h => absurd hext (Bool.eq_false_iff.mp h.2)]
    exact echo_of_special _ _ _
  · have hevent : mapped s (scanned t)
        = ⟨shiftedEntry s t.code, extCode t,
          keyFlags s t.make KB_FLAG_SPECIAL &&& ~~~KB_FLAG_SPECIAL⟩ := by
      refine (if_neg hunmodified).trans
        ((if_neg fun h => hext ((extCode_ne_none_iff hmapped).mp h)).trans ?_)
      unfold shiftedEntry
      by_cases hshift : (s.lshift || s.rshift) = true
      · rw [if_pos hshift]
        exact if_pos (hkey.shift.mpr hshift)
      · rw [if_neg hshift]
        exact if_neg fun h => hshift (hkey.shift.mp h)
    rw [hevent, echo_of_plain _ _ hkey]
    by_cases hmake : t.make = true
    · rw [if_pos hmake, if_pos ⟨hmake, Bool.eq_false_iff.mpr hext⟩]
    · rw [if_neg hmake, if_neg fun h => hmake h.1]

/-- The echo of an event. -/
theorem echo_eventOf (s : Ps2kbState) (t : KeyTrans) :
    echo (eventOf s t) = if Echoes s t then some (shiftedEntry s t.code) else none := by
  by_cases hmapped : Mapped t.code
  · have hevent : eventOf s t = { mapped s (scanned t) with code := t.code } := by
      rw [eventOf, decoded, if_pos (show Mapped (scanned t).scancode from hmapped)]
    rw [hevent]
    by_cases hunmodified : Unmodified s
    · rw [echo_mapped_of_unmodified hmapped hunmodified]
      by_cases hecho : t.make = true ∧ t.ext = false
      · rw [if_pos hecho, if_pos ⟨hecho.1, hecho.2, hmapped, hunmodified⟩]
      · rw [if_neg hecho, if_neg fun h => hecho ⟨h.1, h.2.1⟩]
    · rw [echo_mapped_of_modified t hunmodified, if_neg fun h => hunmodified h.2.2.2]
  · rw [echo_of_not_mapped s hmapped, if_neg fun h => hmapped h.2.2.1]

/-! ### The keys with a character -/

/-- The codes whose entry is a navigation code: the keys of the number block. -/
def navigationKeys : List UInt8 :=
  [KEY_UP_ARROW, KEY_DOWN_ARROW, KEY_LEFT_ARROW, KEY_RIGHT_ARROW, KEY_PAGE_UP, KEY_PAGE_DOWN]

/-- A key with a character in the default layer. -/
def Character (code : UInt8) : Prop := Mapped code ∧ code ∉ navigationKeys

instance (code : UInt8) : Decidable (Character code) := inferInstanceAs (Decidable (_ ∧ _))

/-- A printing character, a tab, a newline or a backspace. -/
def TextByte (b : UInt8) : Prop := (0x20 ≤ b ∧ b ≤ 0x7E) ∨ b = 9 ∨ b = 10 ∨ b = 8

instance (b : UInt8) : Decidable (TextByte b) := inferInstanceAs (Decidable (_ ∨ _))

/-- The entries of these keys are characters, and they have an entry in the shift layer. -/
theorem character_entry {code : UInt8} (h : Character code) :
    TextByte (entry gb.default code) ∧ entry gb.shift code ≠ 0 := by
  have hall : ∀ code, Character code →
      TextByte (entry gb.default code) ∧ entry gb.shift code ≠ 0 := by
    refine forall_byte ?_
    decide +kernel
  exact hall code h

/-- The entry of a key of the number block is its own code, and there is none in the shift
layer. -/
theorem navigation_entry {code : UInt8} (h : code ∈ navigationKeys) :
    Mapped code ∧ entry gb.default code = code ∧ entry gb.shift code = 0 := by
  simp only [navigationKeys, List.mem_cons, List.not_mem_nil, or_false] at h
  rcases h with rfl | rfl | rfl | rfl | rfl | rfl
  all_goals decide +kernel

/-! ### The result -/

/-- What the key map asks for. -/
def mappedEcho (s : Ps2kbState) (t : KeyTrans) : Option UInt8 :=
  if t.make = true ∧ t.ext = false ∧ Character t.code ∧ Unmodified s then
    some (shiftedEntry s t.code)
  else none

/-- A key of the number block is pressed, and no modifier key but the shift keys is down. -/
def KeypadPress (s : Ps2kbState) (t : KeyTrans) : Prop :=
  t.make = true ∧ t.ext = false ∧ t.code ∈ navigationKeys ∧ Unmodified s

/-- The echo of an event follows the key map. -/
def EchoFollows (s : Ps2kbState) (t : KeyTrans) (e : KeyEvent) : Prop :=
  echo e = mappedEcho s t ∧ echo e ≠ some 0

/-- The key map asks for no NUL. -/
theorem mappedEcho_ne_zero (s : Ps2kbState) (t : KeyTrans) : mappedEcho s t ≠ some 0 := by
  unfold mappedEcho
  split
  · rename_i h
    rcases character_entry h.2.2.1 with ⟨htext, hshift⟩
    have hdefault : entry gb.default t.code ≠ 0 := h.2.2.1.1.2.2
    rw [ne_eq, Option.some.injEq, shiftedEntry]
    split
    · exact hshift
    · exact hdefault
  · exact nofun

/-- One event follows the key map exactly when it is no press of the number block. -/
theorem echoFollows_iff (s : Ps2kbState) (t : KeyTrans) :
    EchoFollows s t (eventOf s t) ↔ ¬KeypadPress s t := by
  unfold EchoFollows
  constructor
  · -- The number block: the handler takes its entry for a character, the key map does not.
    rintro ⟨hecho, -⟩ ⟨hmake, hext, hcode, hunmodified⟩
    have hcharacter : ¬Character t.code := fun h => h.2 hcode
    rw [echo_eventOf, if_pos ⟨hmake, hext, (navigation_entry hcode).1, hunmodified⟩, mappedEcho,
      if_neg fun h => hcharacter h.2.2.1] at hecho
    cases hecho
  · intro hpress
    have hecho : echo (eventOf s t) = mappedEcho s t := by
      rw [echo_eventOf, mappedEcho]
      by_cases hechoes : Echoes s t
      · rcases hechoes with ⟨hmake, hext, hmapped, hunmodified⟩
        have hcharacter : Character t.code :=
          ⟨hmapped, fun hcode => hpress ⟨hmake, hext, hcode, hunmodified⟩⟩
        rw [if_pos ⟨hmake, hext, hmapped, hunmodified⟩,
          if_pos ⟨hmake, hext, hcharacter, hunmodified⟩]
      · rw [if_neg hechoes, if_neg fun h => hechoes ⟨h.1, h.2.1, h.2.2.1.1, h.2.2.2⟩]
    rw [hecho]
    exact ⟨rfl, mappedEcho_ne_zero s t⟩

/-- A key that is no modifier key leaves the flags as they are. -/
theorem flagsAfter_of_not_modifier (s : Ps2kbState) {t : KeyTrans} (h : t.code ∉ modifierKeys) :
    flagsAfter s t = s := by
  simp only [modifierKeys, List.mem_cons, List.not_mem_nil, or_false, not_or] at h
  rcases h with ⟨hlshf, hlctl, hlalt, hrshf, hmod⟩
  have hext : extFlags s t = s := by
    unfold extFlags
    by_cases hprefix : t.ext = false
    · rw [if_pos hprefix]
    · -- The right control and alt keys have the codes of the left ones.
      have hrctl : ¬t.code = RCTL := hlctl
      have hralt : ¬t.code = RALT := hlalt
      rw [if_neg hprefix, if_neg hrctl, if_neg hralt, if_neg hmod]
  rw [flagsAfter, hext, plainFlags, if_neg hlshf, if_neg hlctl, if_neg hlalt, if_neg hrshf,
    if_neg hmod]

/-- So a press of the number block is the same before and after the handler's run. -/
theorem keypadPress_flagsAfter (s : Ps2kbState) (t : KeyTrans) :
    KeypadPress (flagsAfter s t) t ↔ KeypadPress s t := by
  by_cases hcode : t.code ∈ navigationKeys
  · rw [flagsAfter_of_not_modifier s (navigation_entry hcode).1.1]
  · exact ⟨fun h => absurd h.2.2.1 hcode, fun h => absurd h.2.2.1 hcode⟩

/-- Each run of the handler passes one event to `shell_key`, which prints its echo, and the echo
follows the key map. -/
def EchoesFollow (m : Machine) (s : Ps2kbState) (ts : List KeyTrans) (rest : List UInt8) : Prop :=
  ∀ i : Fin ts.length, ∃ k e k₁, handlerRuns i (installed m s ts rest) = some k ∧
    keyEvent k = some (e, k₁) ∧ ShellEchoes e k₁.mach ∧ EchoFollows k₁.state (ts.get i) e

/-- **When the echo follows the key map.** In a run, from any flags, exactly when no key of the
number block is pressed without a control, alt or mod key. -/
theorem echo_follows_map_iff (m : Machine) (s : Ps2kbState) (ts : List KeyTrans)
    (rest : List UInt8) :
    EchoesFollow m s ts rest ↔ ∀ i : Fin ts.length, ¬KeypadPress (flagsAt s ts i) (ts.get i) := by
  refine forall_congr' fun i => ?_
  rcases handlerRuns_installed m s ts rest i with ⟨k, hrun, hinput, hmap, hstate⟩
  rcases keyEvent_spec k (ts.get i) _ hinput hmap with ⟨k₁, hevent, -, -, hstate₁, -⟩
  -- The condition is about the flags before the run, the event about those after it.
  rw [← keypadPress_flagsAfter, ← hstate, ← hstate₁, ← echoFollows_iff]
  constructor
  · rintro ⟨k', e', k₁', hrun', hevent', -, hfollows⟩
    rw [hrun, Option.some.injEq] at hrun'
    rw [← hrun', hevent, Option.some.injEq, Prod.mk.injEq] at hevent'
    rw [hevent'.1, hevent'.2]
    exact hfollows
  · exact fun hfollows => ⟨k, _, k₁, hrun, hevent, shellEchoes _ _, hfollows⟩

/-- The key 8 of the number block, pressed after the start of the driver, is not echoed as the
key map asks: its entry is the up arrow, and the shell prints the character with this code. -/
theorem keypad_is_echoed :
    ¬EchoesFollow Machine.boot (physical []) [⟨false, KEY_UP_ARROW, true, by decide⟩] [] ∧
      echo (eventOf (physical []) ⟨false, KEY_UP_ARROW, true, by decide⟩) = some (ch 'u') := by
  constructor
  · intro hfollows
    rcases hfollows ⟨0, Nat.zero_lt_one⟩ with ⟨k, e, k₁, hrun, hevent, -, hfollows⟩
    cases hrun
    rcases keyEvent_spec (installed Machine.boot (physical [])
      [⟨false, KEY_UP_ARROW, true, by decide⟩] []) ⟨false, KEY_UP_ARROW, true, by decide⟩ []
      rfl rfl with ⟨k₂, hevent₂, -, -, hstate, -⟩
    rw [hevent₂, Option.some.injEq, Prod.mk.injEq] at hevent
    rw [← hevent.1, ← hevent.2] at hfollows
    refine (echoFollows_iff _ _).mp hfollows ?_
    rw [hstate]
    exact ⟨rfl, rfl, by decide, by decide⟩
  · rw [echo_eventOf]
    decide +kernel

end Chuckles.Proofs
