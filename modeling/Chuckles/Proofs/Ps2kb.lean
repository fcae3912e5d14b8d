import Chuckles.Kernel.Ps2kb
import Chuckles.Lib.Run
import Chuckles.Proofs.Printf

/-!
# `Chuckles.Proofs.Ps2kb`: the modifier flags and the physical keys

A key of the keyboard is a code with or without the prefix `E0`, and it goes down or up
(`KeyTrans`). The handler sends a prefixed code through its second switch as well, and this
switch does not know the prefix. So a key with the prefix also sets the flag of the key
without it, and the mod key shares its flag with the key `1F`.

* `shellKey_spec`: the prints of the shell return.
* `scan_spec`, `decode_spec`: the two switches. `keyEvent_spec` says which event the handler
  passes to the shell for a transition (`eventOf`), and `ps2kbHandler_spec` what its run
  does to the flags (`flagsAfter`) and to the input.
* `flagsAfter_eq_iff`: the flags agree with the keys after a transition exactly when the
  flag of another key, which the transition sets as well, gets the value it should have.
* `modifiers_track_iff`: the same for every prefix of a sequence of transitions.
-/

set_option autoImplicit false

namespace Chuckles.Proofs

open Lib.Run

/-! ### The prints of the handler -/

/-- The text that `shell_key` prints for an event. -/
def shellText (e : KeyEvent) : List UInt8 :=
  if e.flags &&& KB_FLAG_DOWN = 0 then []
  else if e.flags &&& KB_FLAG_SPECIAL = 0 then [e.utf8]
  else if e.code = KEY_UP_ARROW then ascii "<UP>"
  else if e.code = KEY_DOWN_ARROW then ascii "<DOWN>"
  else if e.code = KEY_LEFT_ARROW then ascii "<LEFT>"
  else if e.code = KEY_RIGHT_ARROW then ascii "<RIGHT>"
  else if e.code = KEY_PAGE_UP then ascii "<PG UP>"
  else if e.code = KEY_PAGE_DOWN then ascii "<PG DOWN>"
  else ascii "<0x" ++ hexText (byteArg e.code) ++ ascii ">"

/-- A byte goes through `%c` unchanged. -/
theorem charOfInt_byteArg (b : UInt8) : charOfInt (byteArg b).toInt = b := by
  have h : (byteArg b).toInt = b.toNat := by
    rw [byteArg, Int32.toInt_ofNat_of_lt]
    have := b.toNat_lt
    omega
  rw [h, charOfInt_natCast_toNat]

/-- A text around a hexadecimal numeral is short. -/
theorem hexText_room (l r : List UInt8) (x : Int32) (h : l.length + r.length ≤ 100) :
    ((l ++ hexText x ++ r).length : Int) ≤ INT_MAX := by
  have hlen := length_hexText_le x
  have hmax : INT_MAX = 2147483647 := rfl
  rw [List.length_append, List.length_append]
  omega

/-- `shell_key` returns, and prints the text of the event. -/
theorem shellKey_spec (e : KeyEvent) (m : Machine) :
    ∃ m', shellKey e m = some m' ∧ Prints m (shellText e) [] m' := by
  unfold shellKey shellText
  by_cases hdown : e.flags &&& KB_FLAG_DOWN = 0
  · have hnot : ¬ (e.flags &&& KB_FLAG_SPECIAL = 0 ∧ e.flags &&& KB_FLAG_DOWN ≠ 0) :=
      fun h => h.2 hdown
    rw [if_neg hnot, if_neg (fun h => h hdown), if_pos hdown]
    exact ⟨m, rfl, by simp, rfl, rfl⟩
  · rw [if_neg hdown]
    by_cases hspecial : e.flags &&& KB_FLAG_SPECIAL = 0
    · rw [if_pos ⟨hspecial, hdown⟩, if_pos hspecial]
      have hmatch : refFormat (ascii "%c") [.int (byteArg e.utf8)] = some ([e.utf8], []) := by
        have h : refFormat (ascii "%c") [.int (byteArg e.utf8)]
            = some ([charOfInt (byteArg e.utf8).toInt], []) := rfl
        rw [h, charOfInt_byteArg]
      exact callPrintf_spec _ _ (by decide) m hmatch (by simp [INT_MAX])
    · rw [if_neg fun h => hspecial h.1, if_pos hdown, if_neg hspecial]
      -- The texts without a conversion.
      have hname : ∀ name : List UInt8, 0 ∉ name →
          refFormat name [] = some (name, []) → itoaCalls name [] = [] → name.length ≤ INT_MAX →
          ∃ m', callPrintf name [] m = some m' ∧ Prints m name [] m' :=
        fun name hne hmatch hcalls hmax => hcalls ▸ callPrintf_spec name [] hne m hmatch hmax
      split
      · exact hname _ (by decide) rfl rfl (by decide)
      split
      · exact hname _ (by decide) rfl rfl (by decide)
      split
      · exact hname _ (by decide) rfl rfl (by decide)
      split
      · exact hname _ (by decide) rfl rfl (by decide)
      split
      · exact hname _ (by decide) rfl rfl (by decide)
      split
      · exact hname _ (by decide) rfl rfl (by decide)
      · exact callPrintf_spec _ _ (by decide) m rfl (hexText_room _ _ _ (by decide))

/-- The terminal after a text: its bytes went to `putchar`, in their order. -/
def Displays (m : Machine) (text : List UInt8) (m' : Machine) : Prop :=
  m'.console = m.console ++ text ∧ m'.tty = terminalWrite m.tty text

/-- Nothing has been displayed. -/
theorem Displays.refl (m : Machine) : Displays m [] m := ⟨(List.append_nil _).symm, rfl⟩

/-- One text behind the other. -/
theorem Displays.trans {m m₁ m' : Machine} {l l' : List UInt8} (h : Displays m l m₁)
    (h' : Displays m₁ l' m') : Displays m (l ++ l') m' := by
  constructor
  · rw [h'.1, h.1, List.append_assoc]
  · rw [h'.2, h.2]
    exact (List.foldl_append ..).symm

/-- A print shows its text. -/
theorem Prints.displays {m m' : Machine} {text : List UInt8} {calls : List Int32}
    (h : Prints m text calls m') : Displays m text m' :=
  ⟨h.1, h.2.1⟩

/-! ### The switches -/

/-- A transition of a key: its code, with or without the prefix, down or up. -/
structure KeyTrans where
  ext : Bool
  code : UInt8
  make : Bool
  code_ne : code ≠ 0xE0 ∧ code ≠ 0xF0

/-- The bytes the keyboard sends for a transition. -/
def KeyTrans.encode (t : KeyTrans) : List UInt8 :=
  (if t.ext then [0xE0] else []) ++ (if t.make then [] else [0xF0]) ++ [t.code]

/-- The flags after the first switch, which sees prefixed keys only. -/
def extFlags (s : Ps2kbState) (t : KeyTrans) : Ps2kbState :=
  if t.ext = false then s
  else if t.code = RCTL then { s with rctrl := t.make }
  else if t.code = RALT then { s with ralt := t.make }
  else if t.code = MOD then { s with mod := t.make }
  else s

/-- The flags after the second switch. -/
def plainFlags (s : Ps2kbState) (code : UInt8) (make : Bool) : Ps2kbState :=
  if code = LSHF then { s with lshift := make }
  else if code = LCTL then { s with lctrl := make }
  else if code = LALT then { s with lalt := make }
  else if code = RSHF then { s with rshift := make }
  else if code = MOD then { s with mod := make }
  else s

/-- The flags after the handler. -/
def flagsAfter (s : Ps2kbState) (t : KeyTrans) : Ps2kbState :=
  plainFlags (extFlags s t) t.code t.make

/-- The code that the first switch stores in the event. -/
def extCode (t : KeyTrans) : UInt8 :=
  if t.ext = false ∨ t.code = RCTL ∨ t.code = RALT ∨ t.code = MOD ∨ t.code = 0 then KEY_NONE
  else t.code

/-- The local variables of the handler behind the first switch. -/
def scanned (t : KeyTrans) : Scan := ⟨t.code, t.make, ⟨0, extCode t, KB_FLAG_SPECIAL⟩⟩

/-- What the handler prints up to its second switch: the reports of the code 0. -/
def scanText (t : KeyTrans) : List UInt8 :=
  if t.code = 0 then
    if t.ext = true then ascii "<Unhandled E0 scancode " ++ hexText (byteArg t.code) ++ ascii ">"
    else if t.make = true then ascii "0 scancode rx"
    else []
  else []

/-- Any other code is read silently. -/
theorem scanText_of_ne {t : KeyTrans} (h : t.code ≠ 0) : scanText t = [] := if_neg h

/-- The first switch. -/
theorem extended_spec (k : Keyboard) (t : KeyTrans) (ht : t.ext = true) :
    ∃ k', extended ⟨t.code, t.make, ⟨0, KEY_NONE, KB_FLAG_SPECIAL⟩⟩ k = some (scanned t, k') ∧
      k'.input = k.input ∧ k'.kbMap = k.kbMap ∧ k'.state = extFlags k.state t ∧
      Displays k.mach (scanText t) k'.mach := by
  have hext : ¬ t.ext = false := by simp [ht]
  have hblank : extCode t = KEY_NONE ↔
      t.code = RCTL ∨ t.code = RALT ∨ t.code = MOD ∨ t.code = 0 := by
    unfold extCode
    split
    · rename_i h
      exact ⟨fun _ => h.resolve_left hext, fun _ => rfl⟩
    · rename_i h
      exact ⟨fun hz => Or.inr (Or.inr (Or.inr hz)), fun hz => absurd (Or.inr hz) h⟩
  -- Every case but the last one is silent.
  have hsilent : t.code ≠ 0 → ∀ s, Displays k.mach (scanText t) ({ k with state := s }).mach := by
    intro hzero s
    rw [scanText_of_ne hzero]
    exact .refl k.mach
  unfold extended extFlags scanned
  rw [if_neg hext]
  dsimp only
  -- The cases of the switch, in its order.
  by_cases hctl : t.code = RCTL
  · rw [if_pos hctl, if_pos hctl, hblank.mpr (Or.inl hctl)]
    exact ⟨_, rfl, rfl, rfl, rfl, hsilent (by rw [hctl]; decide) _⟩
  rw [if_neg hctl, if_neg hctl]
  by_cases halt : t.code = RALT
  · rw [if_pos halt, if_pos halt, hblank.mpr (Or.inr (Or.inl halt))]
    exact ⟨_, rfl, rfl, rfl, rfl, hsilent (by rw [halt]; decide) _⟩
  rw [if_neg halt, if_neg halt]
  by_cases hmod : t.code = MOD
  · rw [if_pos hmod, if_pos hmod, hblank.mpr (Or.inr (Or.inr (Or.inl hmod)))]
    exact ⟨_, rfl, rfl, rfl, rfl, hsilent (by rw [hmod]; decide) _⟩
  rw [if_neg hmod, if_neg hmod]
  by_cases hzero : t.code = 0
  · obtain ⟨m', hprint, hprints⟩ := callPrintf_spec (ascii "<Unhandled E0 scancode %x>")
      [.int (byteArg t.code)] (by decide) k.mach rfl
      (hexText_room (ascii "<Unhandled E0 scancode ") (ascii ">") _ (by decide))
    have htext : scanText t
        = ascii "<Unhandled E0 scancode " ++ hexText (byteArg t.code) ++ ascii ">" := by
      rw [scanText, if_pos hzero, if_pos ht]
    rw [if_pos hzero, hblank.mpr (Or.inr (Or.inr (Or.inr hzero))), hprint, htext]
    exact ⟨_, rfl, rfl, rfl, rfl, hprints.displays⟩
  · have hkeep : extCode t = t.code := by
      rw [extCode, if_neg]
      rintro (h | h | h | h | h)
      · exact hext h
      · exact hctl h
      · exact halt h
      · exact hmod h
      · exact hzero h
    rw [if_neg hzero, hkeep]
    exact ⟨_, rfl, rfl, rfl, rfl, hsilent hzero k.state⟩

/-- The handler up to its second switch, on the bytes of a transition. -/
theorem scan_spec (k : Keyboard) (t : KeyTrans) (rest : List UInt8)
    (hinput : k.input = t.encode ++ rest) :
    ∃ k', scan k = some (scanned t, k') ∧
      k'.input = rest ∧ k'.kbMap = k.kbMap ∧ k'.state = extFlags k.state t ∧
      Displays k.mach (scanText t) k'.mach := by
  obtain ⟨m, state, kbMap, input⟩ := k
  obtain ⟨ext, code, make, hE0, hF0⟩ := t
  -- One case for each of the four encodings.
  cases ext with
  | false =>
    have hkeep : extFlags state ⟨false, code, make, hE0, hF0⟩ = state := if_pos rfl
    have hblank : extCode ⟨false, code, make, hE0, hF0⟩ = KEY_NONE := if_pos (Or.inl rfl)
    rw [hkeep, scanned, hblank]
    cases make with
    | false =>
      have hinput' : input = 0xF0 :: code :: rest := by simpa [KeyTrans.encode] using hinput
      subst hinput'
      have htext : scanText ⟨false, code, false, hE0, hF0⟩ = [] := by
        unfold scanText
        exact ite_self _
      rw [htext]
      exact ⟨_, rfl, rfl, rfl, rfl, .refl m⟩
    | true =>
      have hinput' : input = code :: rest := by simpa [KeyTrans.encode] using hinput
      subst hinput'
      by_cases hzero : code = 0
      · subst hzero
        obtain ⟨m', hprint, hprints⟩ := callPrintf_spec (ascii "0 scancode rx")
          [] (by decide) m rfl (by decide)
        refine ⟨⟨m', state, kbMap, rest⟩, ?_, rfl, rfl, rfl, hprints.displays⟩
        simp [scan, ps2Read, hprint]
      · rw [scanText_of_ne hzero]
        refine ⟨⟨m, state, kbMap, rest⟩, ?_, rfl, rfl, rfl, .refl m⟩
        simp [scan, ps2Read, hE0, hF0, hzero]
  | true =>
    cases make with
    | false =>
      have hinput' : input = 0xE0 :: 0xF0 :: code :: rest := by
        simpa [KeyTrans.encode] using hinput
      subst hinput'
      obtain ⟨k', hext, hrest⟩ := extended_spec ⟨m, state, kbMap, rest⟩
        ⟨true, code, false, hE0, hF0⟩ rfl
      refine ⟨k', ?_, hrest⟩
      simpa [scan, ps2Read] using hext
    | true =>
      have hinput' : input = 0xE0 :: code :: rest := by simpa [KeyTrans.encode] using hinput
      subst hinput'
      obtain ⟨k', hext, hrest⟩ := extended_spec ⟨m, state, kbMap, rest⟩
        ⟨true, code, true, hE0, hF0⟩ rfl
      refine ⟨k', ?_, hrest⟩
      simpa [scan, ps2Read, hF0] using hext

/-- The entry of a code in a layer of the key map. -/
def entry (layer : List UInt8) (code : UInt8) : UInt8 := layer[code.toNat]?.getD 0

/-- Both layers of the key map have an entry for every code. -/
theorem gb_layers (code : UInt8) :
    gb.default[code.toNat]? = some (entry gb.default code) ∧
      gb.shift[code.toNat]? = some (entry gb.shift code) := by
  have hdefault : gb.default.length = 256 := by decide +kernel
  have hshift : gb.shift.length = 256 := by decide +kernel
  have hcode := code.toNat_lt
  unfold entry
  rw [List.getElem?_eq_getElem (by omega), List.getElem?_eq_getElem (by omega)]
  exact ⟨rfl, rfl⟩

/-- The event behind the default case of the second switch, for a mapped code. -/
def mapped (s : Ps2kbState) (v : Scan) : KeyEvent :=
  let flags := keyFlags s v.state v.e.flags
  if flags &&& KB_FLAG_CONTROL ≠ 0 ∨ flags &&& KB_FLAG_ALT ≠ 0
      ∨ flags &&& KB_FLAG_MOD ≠ 0 then
    { v.e with utf8 := entry gb.default v.scancode, flags := flags ||| KB_FLAG_SPECIAL }
  else if v.e.code ≠ KEY_NONE then { v.e with utf8 := 0, flags := flags ||| KB_FLAG_SPECIAL }
  else if flags &&& KB_FLAG_SHIFT ≠ 0 then
    { v.e with utf8 := entry gb.shift v.scancode, flags := flags &&& ~~~KB_FLAG_SPECIAL }
  else { v.e with utf8 := entry gb.default v.scancode, flags := flags &&& ~~~KB_FLAG_SPECIAL }

/-- What the default case of the second switch prints: the report of a code without an
entry. -/
def entryText (code : UInt8) : List UInt8 :=
  if entry gb.default code = 0 then
    ascii "<Unmapped scancode " ++ hexText (byteArg code) ++ ascii ">"
  else []

/-- The default case of the second switch changes no flag. -/
theorem mapKey_spec (v : Scan) (k : Keyboard) :
    ∃ k', mapKey gb (entry gb.default v.scancode) v k
        = some ({ v with
            e := if entry gb.default v.scancode = 0 then v.e else mapped k.state v }, k') ∧
      k'.input = k.input ∧ k'.kbMap = k.kbMap ∧ k'.state = k.state ∧
      Displays k.mach (entryText v.scancode) k'.mach := by
  unfold mapKey
  by_cases hzero : entry gb.default v.scancode = 0
  · obtain ⟨m', hprint, hprints⟩ := callPrintf_spec (ascii "<Unmapped scancode %x>")
      [.int (byteArg v.scancode)] (by decide) k.mach rfl
      (hexText_room (ascii "<Unmapped scancode ") (ascii ">") _ (by decide))
    rw [if_pos hzero, if_pos hzero, hprint, entryText, if_pos hzero]
    exact ⟨_, rfl, rfl, rfl, rfl, hprints.displays⟩
  · rw [if_neg hzero, if_neg hzero, entryText, if_neg hzero]
    unfold mapped
    dsimp only
    split
    · exact ⟨_, rfl, rfl, rfl, rfl, .refl k.mach⟩
    split
    · exact ⟨_, rfl, rfl, rfl, rfl, .refl k.mach⟩
    split
    · rw [(gb_layers v.scancode).2]
      exact ⟨_, rfl, rfl, rfl, rfl, .refl k.mach⟩
    · exact ⟨_, rfl, rfl, rfl, rfl, .refl k.mach⟩

/-- The codes of the modifier keys. -/
def modifierKeys : List UInt8 := [LSHF, LCTL, LALT, RSHF, MOD]

/-- A code that the second switch looks up in the key map, and finds there. -/
def Mapped (code : UInt8) : Prop :=
  code ∉ modifierKeys ∧ code ∉ functionKeys ∧ entry gb.default code ≠ 0

instance (code : UInt8) : Decidable (Mapped code) :=
  inferInstanceAs (Decidable (_ ∧ _ ∧ _))

/-- The event behind the second switch. -/
def decoded (s : Ps2kbState) (v : Scan) : KeyEvent := if Mapped v.scancode then mapped s v else v.e

/-- What the second switch prints. -/
def decodeText (code : UInt8) : List UInt8 :=
  if code ∈ modifierKeys ∨ code ∈ functionKeys then [] else entryText code

/-- A code with an entry is decoded silently. -/
theorem decodeText_of_entry {code : UInt8} (h : entry gb.default code ≠ 0) :
    decodeText code = [] := by
  rw [decodeText, entryText, if_neg h]
  exact ite_self _

/-- A modifier code changes the flags, silently, and leaves the event as it is. -/
theorem modifier_spec {v : Scan} {k : Keyboard} (h : v.scancode ∈ modifierKeys)
    (hmap : k.kbMap = some gb) (s : Ps2kbState) :
    ∃ k', some (v, { k with state := s }) = some ({ v with e := decoded k'.state v }, k') ∧
      k'.input = k.input ∧ k'.kbMap = some gb ∧ k'.state = s ∧
      Displays k.mach (decodeText v.scancode) k'.mach := by
  have hevent : decoded s v = v.e := if_neg fun hmapped => hmapped.1 h
  have htext : decodeText v.scancode = [] := if_pos (Or.inl h)
  refine ⟨{ k with state := s }, ?_, rfl, hmap, rfl, ?_⟩
  · rw [hevent]
  · rw [htext]
    exact .refl k.mach

/-- The second switch. -/
theorem decode_spec (v : Scan) (k : Keyboard) (hmap : k.kbMap = some gb) :
    ∃ k', decode v k = some ({ v with e := decoded k'.state v }, k') ∧ k'.input = k.input ∧
      k'.kbMap = some gb ∧ k'.state = plainFlags k.state v.scancode v.state ∧
      Displays k.mach (decodeText v.scancode) k'.mach := by
  unfold decode plainFlags
  -- The modifiers first, then the function keys, then the key map.
  by_cases hlshift : v.scancode = LSHF
  · rw [if_pos hlshift, if_pos hlshift]
    exact modifier_spec (by simp [modifierKeys, hlshift]) hmap _
  rw [if_neg hlshift, if_neg hlshift]
  by_cases hlctrl : v.scancode = LCTL
  · rw [if_pos hlctrl, if_pos hlctrl]
    exact modifier_spec (by simp [modifierKeys, hlctrl]) hmap _
  rw [if_neg hlctrl, if_neg hlctrl]
  by_cases hlalt : v.scancode = LALT
  · rw [if_pos hlalt, if_pos hlalt]
    exact modifier_spec (by simp [modifierKeys, hlalt]) hmap _
  rw [if_neg hlalt, if_neg hlalt]
  by_cases hrshift : v.scancode = RSHF
  · rw [if_pos hrshift, if_pos hrshift]
    exact modifier_spec (by simp [modifierKeys, hrshift]) hmap _
  rw [if_neg hrshift, if_neg hrshift]
  by_cases hmod : v.scancode = MOD
  · rw [if_pos hmod, if_pos hmod]
    exact modifier_spec (by simp [modifierKeys, hmod]) hmap _
  rw [if_neg hmod, if_neg hmod]
  have hmodifier : v.scancode ∉ modifierKeys := by
    simp only [modifierKeys, List.mem_cons, List.not_mem_nil, or_false]
    rintro (h | h | h | h | h)
    · exact hlshift h
    · exact hlctrl h
    · exact hlalt h
    · exact hrshift h
    · exact hmod h
  by_cases hfunction : v.scancode ∈ functionKeys
  · rw [if_pos hfunction]
    rw [decodeText, if_pos (Or.inr hfunction)]
    exact ⟨_, by rw [decoded, if_neg fun h => h.2.1 hfunction], rfl, hmap, rfl, .refl k.mach⟩
  · rcases mapKey_spec v k with ⟨k', hkey, hinput, hkeep, hstate, hdisplays⟩
    -- The flags that the event takes its bits from are the ones after the switch.
    have hevent : decoded k'.state v
        = if entry gb.default v.scancode = 0 then v.e else mapped k.state v := by
      rw [decoded, hstate]
      by_cases hzero : entry gb.default v.scancode = 0
      · rw [if_neg fun h => h.2.2 hzero, if_pos hzero]
      · rw [if_pos ⟨hmodifier, hfunction, hzero⟩, if_neg hzero]
    rw [if_neg hfunction, hmap, decodeText, if_neg (not_or.mpr ⟨hmodifier, hfunction⟩)]
    simp only [Option.bind_eq_bind, Option.bind_some, (gb_layers v.scancode).1]
    exact ⟨k', by rw [hevent]; exact hkey, hinput, hkeep.trans hmap, hstate, hdisplays⟩

/-- The event that the handler passes to `shell_key`, when its flags are `s` by then. -/
def eventOf (s : Ps2kbState) (t : KeyTrans) : KeyEvent :=
  { decoded s (scanned t) with code := t.code }

/-- The handler up to its call of `shell_key`, on the bytes of a transition. -/
theorem keyEvent_spec (k : Keyboard) (t : KeyTrans) (rest : List UInt8)
    (hinput : k.input = t.encode ++ rest) (hmap : k.kbMap = some gb) :
    ∃ k', keyEvent k = some (eventOf k'.state t, k') ∧ k'.input = rest ∧ k'.kbMap = some gb ∧
      k'.state = flagsAfter k.state t ∧
      Displays k.mach (scanText t ++ decodeText t.code) k'.mach := by
  rcases scan_spec k t rest hinput with ⟨k₁, hscan, hinput₁, hmap₁, hstate₁, hdisplays₁⟩
  rcases decode_spec (scanned t) k₁ (hmap₁.trans hmap)
    with ⟨k₂, hdecode, hinput₂, hmap₂, hstate₂, hdisplays₂⟩
  refine ⟨k₂, ?_, hinput₂.trans hinput₁, hmap₂, ?_, hdisplays₁.trans hdisplays₂⟩
  · simp only [keyEvent, hscan, hdecode, Option.bind_eq_bind, Option.bind_some]
    rfl
  · rw [hstate₂, hstate₁]
    rfl

/-- The rest of the handler changes the machine only. What it sends to the serial port does
not show on the terminal. -/
theorem afterEvent_spec (e : KeyEvent) (k : Keyboard) :
    ∃ m, afterEvent e k = some { k with mach := m } ∧ Displays k.mach (shellText e) m := by
  obtain ⟨m, hshell, hprints⟩ := shellKey_spec e k.mach
  obtain ⟨buf, hserial, -⟩ := serialWrited_spec (byteArg e.utf8) (m.serial (ascii "KB:"))
  have hdisplays : Displays k.mach (shellText e)
      ({ m.serial (ascii "KB:") with
        itoaBuf := buf
        com1 := (m.serial (ascii "KB:")).com1 ++ decimal (byteArg e.utf8) } : Machine) :=
    hprints.displays
  generalize ({ m.serial (ascii "KB:") with itoaBuf := buf, com1 := _ } : Machine) = m'
    at hserial hdisplays
  refine ⟨m'.serial (ascii "\n"), ?_, hdisplays⟩
  simp only [afterEvent, hshell, hserial, Option.bind_eq_bind, Option.bind_some]

/-- What a run of the handler prints, when the flags are `s` before it. -/
def keyText (s : Ps2kbState) (t : KeyTrans) : List UInt8 :=
  scanText t ++ decodeText t.code ++ shellText (eventOf (flagsAfter s t) t)

/-- One run of the handler, on the bytes of a transition. -/
theorem ps2kbHandler_spec (k : Keyboard) (t : KeyTrans) (rest : List UInt8)
    (hinput : k.input = t.encode ++ rest) (hmap : k.kbMap = some gb) :
    ∃ k', ps2kbHandler k = some k' ∧ k'.input = rest ∧ k'.kbMap = some gb ∧
      k'.state = flagsAfter k.state t ∧ Displays k.mach (keyText k.state t) k'.mach := by
  rcases keyEvent_spec k t rest hinput hmap with ⟨k₁, hevent, hinput₁, hmap₁, hstate₁, hdisplays₁⟩
  rcases afterEvent_spec (eventOf k₁.state t) k₁ with ⟨m, hafter, hdisplays⟩
  rw [hstate₁] at hdisplays
  exact ⟨{ k₁ with mach := m }, by rw [ps2kbHandler_eq, hevent]; exact hafter, hinput₁, hmap₁,
    hstate₁, hdisplays₁.trans hdisplays⟩

/-! ### The physical keys -/

/-- A key is down when its last transition was a make. -/
def held (ts : List KeyTrans) (ext : Bool) (code : UInt8) : Bool :=
  match ts.reverse.find? (fun t => t.ext = ext ∧ t.code = code) with
  | some t => t.make
  | none => false

/-- The flags that the keys should have. -/
def physical (ts : List KeyTrans) : Ps2kbState where
  lshift := held ts false LSHF
  rshift := held ts false RSHF
  lctrl := held ts false LCTL
  rctrl := held ts true RCTL
  lalt := held ts false LALT
  ralt := held ts true RALT
  mod := held ts true MOD

/-- A transition sets the flag of another key: the key with the same code, and the prefix
the other way. -/
def SetsOther (t : KeyTrans) : Prop :=
  (t.ext = true ∧ t.code ∈ [LSHF, LCTL, LALT, RSHF]) ∨ (t.ext = false ∧ t.code = MOD)

/-- The other key is in the position that the transition reports. -/
def Agrees (ts : List KeyTrans) (t : KeyTrans) : Prop :=
  SetsOther t → held ts (!t.ext) t.code = t.make

/-- A transition of a key, and a transition of another key. -/
theorem held_append (ts : List KeyTrans) (t : KeyTrans) (ext : Bool) (code : UInt8) :
    held (ts ++ [t]) ext code
      = if t.ext = ext ∧ t.code = code then t.make else held ts ext code := by
  unfold held
  rw [List.reverse_append, List.reverse_singleton, List.singleton_append, List.find?_cons]
  by_cases h : t.ext = ext ∧ t.code = code
  · simp [h]
  · rw [if_neg h]
    simp [h]

/-- The flags agree with the keys after a transition exactly when the flag of the other key
that it sets gets the right value. -/
theorem flagsAfter_eq_iff (ts : List KeyTrans) (t : KeyTrans) :
    flagsAfter (physical ts) t = physical (ts ++ [t]) ↔ Agrees ts t := by
  obtain ⟨ext, code, make, hcode⟩ := t
  simp only [Agrees, SetsOther, flagsAfter, plainFlags, extFlags, physical, held_append, LSHF,
    LCTL, LALT, RSHF, RCTL, RALT, MOD]
  -- One case for each code of a modifier, with and without the prefix.
  by_cases hlshift : code = 0x12
  · subst hlshift
    cases ext <;> simp [eq_comm]
  by_cases hctrl : code = 0x14
  · subst hctrl
    cases ext <;> simp [eq_comm]
  by_cases halt : code = 0x11
  · subst halt
    cases ext <;> simp [eq_comm]
  by_cases hrshift : code = 0x59
  · subst hrshift
    cases ext <;> simp [eq_comm]
  by_cases hmod : code = 0x1F
  · subst hmod
    cases ext <;> simp [eq_comm]
  · cases ext <;> simp [hlshift, hctrl, halt, hrshift, hmod]

/-! ### Runs -/

/-- The handler, run a number of times. -/
def handlerRuns : Nat → Keyboard → Option Keyboard
  | 0, k => some k
  | n + 1, k => do
    let k ← ps2kbHandler k
    handlerRuns n k

/-- The run lemma: once for each transition, on the bytes of the transitions. -/
theorem handlerRuns_spec (ts : List KeyTrans) :
    ∀ (k : Keyboard) (rest : List UInt8), k.input = ts.flatMap KeyTrans.encode ++ rest →
      k.kbMap = some gb →
      ∃ k', handlerRuns ts.length k = some k' ∧ k'.input = rest ∧ k'.kbMap = some gb ∧
        k'.state = ts.foldl flagsAfter k.state ∧
        Displays k.mach (outputs flagsAfter keyText k.state ts) k'.mach := by
  induction ts with
  | nil =>
    intro k rest hinput hmap
    exact ⟨k, rfl, by simpa using hinput, hmap, rfl, .refl k.mach⟩
  | cons t ts ih =>
    intro k rest hinput hmap
    -- The first run leaves the bytes of the other transitions.
    rw [List.flatMap_cons, List.append_assoc] at hinput
    obtain ⟨k₁, hstep, hinput₁, hmap₁, hstate₁, hdisplays₁⟩ := ps2kbHandler_spec k t _ hinput hmap
    obtain ⟨k', hrun, hinput', hmap', hstate', hdisplays'⟩ := ih k₁ rest hinput₁ hmap₁
    rw [hstate₁] at hdisplays'
    refine ⟨k', ?_, hinput', hmap', ?_, hdisplays₁.trans hdisplays'⟩
    · simp only [List.length_cons, handlerRuns, hstep, Option.bind_eq_bind, Option.bind_some, hrun]
    · rw [hstate', hstate₁, List.foldl_cons]

/-- The driver after `ps2kb_init`, with the bytes of the transitions to come. -/
def started (m : Machine) (ts : List KeyTrans) (rest : List UInt8) : Keyboard :=
  ps2kbInit (Keyboard.boot m (ts.flatMap KeyTrans.encode ++ rest))

/-- The flags after the first transitions of a sequence. -/
theorem handlerRuns_started (m : Machine) (ts : List KeyTrans) (rest : List UInt8) {n : Nat}
    (hn : n ≤ ts.length) :
    ∃ k, handlerRuns n (started m ts rest) = some k ∧
      k.state = (ts.take n).foldl flagsAfter (physical []) := by
  have hinput : (started m ts rest).input
      = (ts.take n).flatMap KeyTrans.encode ++ ((ts.drop n).flatMap KeyTrans.encode ++ rest) := by
    rw [← List.append_assoc, ← List.flatMap_append, List.take_append_drop]
    rfl
  obtain ⟨k, hrun, -, -, hstate, -⟩ := handlerRuns_spec (ts.take n) _ _ hinput rfl
  rw [List.length_take, Nat.min_eq_left hn] at hrun
  exact ⟨k, hrun, hstate⟩

/-- **When the modifier flags track the keys.** After every transition of a sequence, the
flags are those of the physical keys, if and only if every transition that also sets the
flag of another key finds that key in the position it reports. -/
theorem modifiers_track_iff (m : Machine) (ts : List KeyTrans) (rest : List UInt8) :
    (∀ n ≤ ts.length, ∃ k, handlerRuns n (started m ts rest) = some k ∧
      k.state = physical (ts.take n)) ↔
    ∀ i (h : i < ts.length), Agrees (ts.take i) ts[i] := by
  have htracks := foldl_tracks_iff flagsAfter physical ts
  simp only [flagsAfter_eq_iff] at htracks
  -- Along a sequence the flags agree everywhere exactly when every step keeps the agreement.
  rw [← htracks]
  refine forall₂_congr fun n hn => ?_
  obtain ⟨k, hrun, hstate⟩ := handlerRuns_started m ts rest hn
  constructor
  · rintro ⟨k', hrun', hstate'⟩
    rw [hrun, Option.some.injEq] at hrun'
    rw [← hstate, hrun', hstate']
  · intro h
    exact ⟨k, hrun, hstate.trans h⟩

/-- The right control key sets the flag of the left one. -/
theorem right_control_sets_left :
    ¬ ∀ ts : List KeyTrans, ∃ k, handlerRuns ts.length (started Machine.boot ts []) = some k ∧
      k.state = physical ts := by
  intro hall
  obtain ⟨k', hrun', hphysical⟩ := hall [⟨true, 0x14, true, by decide⟩]
  obtain ⟨k, hrun, hstate⟩ :=
    handlerRuns_started Machine.boot [⟨true, 0x14, true, by decide⟩] [] (Nat.le_refl 1)
  have hsame : k = k' := by simpa [hrun] using hrun'
  rw [← hsame, hstate] at hphysical
  revert hphysical
  decide

end Chuckles.Proofs
