import Chuckles.Libc.Printf

/-!
# `Chuckles.Kernel.Ps2kb`: the keyboard driver

The model of `kernel/arch/i386/ps2kb.c` and of `shell_key`, which prints what was typed.

`Keyboard` is the state the driver works on: the machine, the flags of the modifier keys,
the installed key map, and the bytes that the controller still delivers. `ps2_read` waits
until there is a byte, so it has no result on an empty input. Neither has the handler before
`ps2kb_init` has installed a key map.

The handler is cut into the parts of its body: `scan` reads the bytes of a key and runs the
switch for the prefix `E0`, `decode` is the second switch, and `mapKey` is its default case.
A key with the prefix goes through both switches, as in the source.
-/

set_option autoImplicit false

namespace Chuckles

/-! ### Key codes -/

def LCTL : UInt8 := 0x14
def LALT : UInt8 := 0x11
def LSHF : UInt8 := 0x12
def RCTL : UInt8 := LCTL
def RSHF : UInt8 := 0x59
def RALT : UInt8 := LALT
def MOD : UInt8 := 0x1F

def F1 : UInt8 := 0x05
def F2 : UInt8 := 0x06
def F3 : UInt8 := 0x04
def F4 : UInt8 := 0x0C
def F5 : UInt8 := 0x03
def F6 : UInt8 := 0x0B
def F7 : UInt8 := 0x83
def F8 : UInt8 := 0x0A
def F9 : UInt8 := 0x01
def F10 : UInt8 := 0x09
def F11 : UInt8 := 0x78
def F12 : UInt8 := 0x07

def KEY_NONE : UInt8 := 0x00
def KEY_UP_ARROW : UInt8 := 0x75
def KEY_DOWN_ARROW : UInt8 := 0x72
def KEY_LEFT_ARROW : UInt8 := 0x6B
def KEY_RIGHT_ARROW : UInt8 := 0x74
def KEY_PAGE_UP : UInt8 := 0x7D
def KEY_PAGE_DOWN : UInt8 := 0x7A

def KB_FLAG_SPECIAL : UInt8 := (1 : UInt8) <<< 0
def KB_FLAG_CONTROL : UInt8 := (1 : UInt8) <<< 1
def KB_FLAG_SHIFT : UInt8 := (1 : UInt8) <<< 2
def KB_FLAG_ALT : UInt8 := (1 : UInt8) <<< 3
def KB_FLAG_MOD : UInt8 := (1 : UInt8) <<< 4
def KB_FLAG_DOWN : UInt8 := (1 : UInt8) <<< 7

/-- The cases of the second switch that are left to do. -/
def functionKeys : List UInt8 := [F1, F2, F3, F4, F5, F6, F7, F8, F9, F10, F11, F12]

/-- A character constant of the key map. -/
def ch (c : Char) : UInt8 := c.toUInt8

/-- `gb[KS_DEFAULT]`, 16 codes a line. -/
def gbDefault : List UInt8 :=
  [0, F9, 0, F5, F3, F1, F2, F12, 0, F10, F8, F6, F4, 9, 96, 0,
   0, LALT, LSHF, 0, LCTL, ch 'q', ch '1', 0, 0, 0, ch 'z', ch 's', ch 'a', ch 'w', ch '2', MOD,
   0, ch 'c', ch 'x', ch 'd', ch 'e', ch '4', ch '3', 0,
   0, 32, ch 'v', ch 'f', ch 't', ch 'r', ch '5', 0,
   0, ch 'n', ch 'b', ch 'h', ch 'g', ch 'y', ch '6', 0,
   0, 0, ch 'm', ch 'j', ch 'u', ch '7', ch '8', 0,
   0, ch ',', ch 'k', ch 'i', ch 'o', ch '0', ch '9', 0,
   0, ch '.', ch '/', ch 'l', ch ';', ch 'p', ch '-', 0,
   0, 0, 39, 0, ch '[', ch '=', 0, 0, 0, RSHF, 10, ch ']', 0, ch '#', 0, 0,
   0, 92, 0, 0, 0, 0, 8, 0, 0, 0, 0, KEY_LEFT_ARROW, 0, 0, 0, 0,
   0, 0, KEY_DOWN_ARROW, 0, KEY_RIGHT_ARROW, KEY_UP_ARROW, 0, 0,
   F11, 0, KEY_PAGE_DOWN, 0, 0, KEY_PAGE_UP, 0, 0,
   0, 0, 0, F7, 0, 0, 0, 0, 0, 0, 0, 0, 0, 0, 0, 0]
  ++ List.replicate 112 0

/-- `gb[KS_SHIFT]`. The two characters outside ASCII are two bytes in the source, and the
second one is what the table keeps. -/
def gbShift : List UInt8 :=
  [0, 0, 0, 0, 0, 0, 0, 0, 0, 0, 0, 0, 0, 9, 0xAC, 0,
   0, LALT, LSHF, 0, LCTL, ch 'Q', ch '!', 0, 0, 0, ch 'Z', ch 'S', ch 'A', ch 'W', 34, 0,
   0, ch 'C', ch 'X', ch 'D', ch 'E', ch '$', 0xA3, 0,
   0, 32, ch 'V', ch 'F', ch 'T', ch 'R', ch '%', 0,
   0, ch 'N', ch 'B', ch 'H', ch 'G', ch 'Y', ch '^', 0,
   0, 0, ch 'M', ch 'J', ch 'U', ch '&', ch '*', 0,
   0, ch '<', ch 'K', ch 'I', ch 'O', ch ')', ch '(', 0,
   0, ch '>', ch '?', ch 'L', ch ':', ch 'P', ch '_', 0,
   0, 0, ch '@', 0, 123, ch '+', 0, 0, 0, RSHF, 10, 125, 0, ch '~', 0, 0,
   0, ch '|', 0, 0, 0, 0, 8, 0, 0, 0, 0, 0, 0, 0, 0, 0]
  ++ List.replicate 144 0

/-- A key map: the default layer and the shift layer. -/
structure KeyMap where
  default : List UInt8
  shift : List UInt8

def gb : KeyMap := ⟨gbDefault, gbShift⟩

/-! ### The state -/

/-- `ps2kb_state`. -/
structure Ps2kbState where
  lshift : Bool
  rshift : Bool
  lctrl : Bool
  rctrl : Bool
  lalt : Bool
  ralt : Bool
  mod : Bool
  deriving DecidableEq

/-- `struct key_event`. -/
structure KeyEvent where
  utf8 : UInt8
  code : UInt8
  flags : UInt8

/-- The state that the driver works on. -/
structure Keyboard where
  mach : Machine
  state : Ps2kbState
  kbMap : Option KeyMap
  input : List UInt8

/-- The driver before `ps2kb_init`: static storage is zero. -/
def Keyboard.boot (m : Machine) (input : List UInt8) : Keyboard :=
  ⟨m, ⟨false, false, false, false, false, false, false⟩, none, input⟩

/-- `ps2kb_init`, after the installation of the handler. It does not reset the flag of the
mod key. -/
def ps2kbInit (k : Keyboard) : Keyboard :=
  { k with
    state := { k.state with
      lshift := false, rshift := false, lctrl := false, rctrl := false
      lalt := false, ralt := false }
    kbMap := some gb
    mach := k.mach.serial
      (ascii "ps2 keyboard installed [WARNING! THIS REALLY DOESN't WORK]\n") }

/-- `ps2_read`. -/
def ps2Read (k : Keyboard) : Option (UInt8 × Keyboard) :=
  match k.input with
  | [] => none
  | b :: input => some (b, { k with input := input })

/-! ### The shell -/

/-- `shell_key`. -/
def shellKey (e : KeyEvent) (m : Machine) : Option Machine :=
  if e.flags &&& KB_FLAG_SPECIAL = 0 ∧ e.flags &&& KB_FLAG_DOWN ≠ 0 then
    callPrintf (ascii "%c") [.int (byteArg e.utf8)] m
  else if e.flags &&& KB_FLAG_DOWN ≠ 0 then
    if e.code = KEY_UP_ARROW then callPrintf (ascii "<UP>") [] m
    else if e.code = KEY_DOWN_ARROW then callPrintf (ascii "<DOWN>") [] m
    else if e.code = KEY_LEFT_ARROW then callPrintf (ascii "<LEFT>") [] m
    else if e.code = KEY_RIGHT_ARROW then callPrintf (ascii "<RIGHT>") [] m
    else if e.code = KEY_PAGE_UP then callPrintf (ascii "<PG UP>") [] m
    else if e.code = KEY_PAGE_DOWN then callPrintf (ascii "<PG DOWN>") [] m
    else callPrintf (ascii "<0x%x>") [.int (byteArg e.code)] m
  else some m

/-! ### The handler -/

/-- The local variables of the handler. -/
structure Scan where
  scancode : UInt8
  state : Bool
  e : KeyEvent

/-- The first switch, for a key with the prefix `E0`. -/
def extended (v : Scan) (k : Keyboard) : Option (Scan × Keyboard) :=
  if v.scancode = RCTL then some (v, { k with state := { k.state with rctrl := v.state } })
  else if v.scancode = RALT then some (v, { k with state := { k.state with ralt := v.state } })
  else if v.scancode = MOD then some (v, { k with state := { k.state with mod := v.state } })
  else if v.scancode = 0 then do
    let m ← callPrintf (ascii "<Unhandled E0 scancode %x>") [.int (byteArg v.scancode)] k.mach
    some (v, { k with mach := m })
  -- Any other code, which may be one that the second switch knows without the prefix.
  else some ({ v with e := { v.e with code := v.scancode } }, k)

/-- The handler up to its second switch. -/
def scan (k : Keyboard) : Option (Scan × Keyboard) := do
  let (scancode, k) ← ps2Read k
  let e : KeyEvent := ⟨0, KEY_NONE, KB_FLAG_SPECIAL⟩
  if scancode = 0xF0 then do
    let (scancode, k) ← ps2Read k
    some (⟨scancode, false, e⟩, k)
  else if scancode = 0xE0 then do
    let (scancode, k) ← ps2Read k
    if scancode = 0xF0 then do
      let (scancode, k) ← ps2Read k
      extended ⟨scancode, false, e⟩ k
    else extended ⟨scancode, true, e⟩ k
  -- A code of 0 is reported, and goes on as any other.
  else if scancode = 0 then do
    let m ← callPrintf (ascii "0 scancode rx") [] k.mach
    some (⟨scancode, true, e⟩, { k with mach := m })
  else some (⟨scancode, true, e⟩, k)

/-- `(int)b << n`. -/
def flagBit (b : Bool) (n : UInt8) : UInt8 := b.toUInt8 <<< n

/-- `e.flags |= ...`. -/
def keyFlags (s : Ps2kbState) (down : Bool) (flags : UInt8) : UInt8 :=
  flags ||| (flagBit (s.lctrl || s.rctrl) 1 + flagBit (s.lshift || s.rshift) 2
    + flagBit (s.lalt || s.ralt) 3 + flagBit s.mod 4 + flagBit down 7)

/-- The default case of the second switch. `utf8` is the entry of the code in the default
layer. -/
def mapKey (map : KeyMap) (utf8 : UInt8) (v : Scan) (k : Keyboard) :
    Option (Scan × Keyboard) := do
  if utf8 = 0 then do
    let m ← callPrintf (ascii "<Unmapped scancode %x>") [.int (byteArg v.scancode)] k.mach
    some (v, { k with mach := m })
  else
    -- `e.flags` has the special bit from its initialisation.
    let flags := keyFlags k.state v.state v.e.flags
    if flags &&& KB_FLAG_CONTROL ≠ 0 ∨ flags &&& KB_FLAG_ALT ≠ 0
        ∨ flags &&& KB_FLAG_MOD ≠ 0 then
      some ({ v with e := { v.e with utf8 := utf8, flags := flags ||| KB_FLAG_SPECIAL } }, k)
    -- A prefixed key: its entry is not used.
    else if v.e.code ≠ KEY_NONE then
      some ({ v with e := { v.e with utf8 := 0, flags := flags ||| KB_FLAG_SPECIAL } }, k)
    else if flags &&& KB_FLAG_SHIFT ≠ 0 then do
      let shifted ← map.shift[v.scancode.toNat]?
      some ({ v with e := { v.e with utf8 := shifted, flags := flags &&& ~~~KB_FLAG_SPECIAL } }, k)
    else
      some ({ v with e := { v.e with utf8 := utf8, flags := flags &&& ~~~KB_FLAG_SPECIAL } }, k)

/-- The second switch. -/
def decode (v : Scan) (k : Keyboard) : Option (Scan × Keyboard) :=
  if v.scancode = LSHF then some (v, { k with state := { k.state with lshift := v.state } })
  else if v.scancode = LCTL then some (v, { k with state := { k.state with lctrl := v.state } })
  else if v.scancode = LALT then some (v, { k with state := { k.state with lalt := v.state } })
  else if v.scancode = RSHF then some (v, { k with state := { k.state with rshift := v.state } })
  else if v.scancode = MOD then some (v, { k with state := { k.state with mod := v.state } })
  else if v.scancode ∈ functionKeys then some (v, k)
  else do
    -- `kb_map` is null before `ps2kb_init`, and an index past a layer has no entry.
    let map ← k.kbMap
    let utf8 ← map.default[v.scancode.toNat]?
    mapKey map utf8 v k

/-- `ps2kb_handler`. -/
def ps2kbHandler (k : Keyboard) : Option Keyboard := do
  let (v, k) ← scan k
  let (v, k) ← decode v k
  let m ← shellKey { v.e with code := v.scancode } k.mach
  let m ← serialWrited (byteArg v.e.utf8) (m.serial (ascii "KB:"))
  some { k with mach := m.serial (ascii "\n") }

/-- `ps2kb_handler` up to its call of `shell_key`: the event that it passes. -/
def keyEvent (k : Keyboard) : Option (KeyEvent × Keyboard) := do
  let (v, k) ← scan k
  let (v, k) ← decode v k
  some ({ v.e with code := v.scancode }, k)

/-- The rest of the handler: `shell_key`, and the report on the serial port. -/
def afterEvent (e : KeyEvent) (k : Keyboard) : Option Keyboard := do
  let m ← shellKey e k.mach
  let m ← serialWrited (byteArg e.utf8) (m.serial (ascii "KB:"))
  some { k with mach := m.serial (ascii "\n") }

/-- The handler is its two parts, and passes one event. -/
theorem ps2kbHandler_eq (k : Keyboard) :
    ps2kbHandler k = (keyEvent k).bind fun r => afterEvent r.1 r.2 := by
  unfold ps2kbHandler keyEvent
  rcases scan k with _ | ⟨v, k₁⟩
  · rfl
  · show (decode v k₁).bind _ = ((decode v k₁).bind _).bind _
    rcases decode v k₁ with _ | ⟨v', k₂⟩
    · rfl
    · rfl

end Chuckles
