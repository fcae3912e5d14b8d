import Chuckles.Lib.Loop
import Chuckles.Libc.Stdio

/-!
# `Chuckles.Libc.Printf`: formatted output

The model of `printf` and of `serial_printf`. The two functions have the same body and
differ in the sink, so `format` takes the sink as a parameter.

The format pointer is an offset into the memory of the format string, and every access to
the format, to an argument string, to the static buffer of `itoa` and to the local buffer
of `%x` is checked. The loop is a `Lib.Loop`: a conversion is a pass, and a pass without a
result (a bad access, or a `va_arg` that does not match the arguments) is a fault.

Each branch has a specification of one form, `Piece.Passes`, which holds for every sink. A
piece of output is a text, the calls of `itoa` for it and the arguments that are left. The
pass stops when the text would overflow `written` or when the sink refuses a byte of it.
Otherwise it sends the text, adds its length to `written` and goes on (`Emits`).

* `litLoop_eq`, `passes_literalRun`: a run of literal text.
* `passes_convC`, `passes_convS`, `passes_convD`, `passes_convX`: the conversions. The text
  of `%x` is `hexText`.
* `passes_convOther`: the rest of the format, from a percent sign on.
-/

set_option autoImplicit false

namespace Chuckles

open Lib Lib.Loop Lib.Numeral

/-! ### The model -/

/-- A variadic argument: `char` is promoted to `int`. -/
inductive Arg where
  | int (i : Int32)
  | str (s : CString)

/-- A byte passed to a function with an `int` parameter. -/
def byteArg (b : UInt8) : Int32 := Int32.ofNat b.toNat

/-- The variables of `printf` at the start of a pass of its loop. -/
structure FmtState where
  format : Nat
  written : Int
  args : List Arg
  out : Out

/-- The returned value, the arguments not yet taken, and the output. -/
structure FmtResult where
  ret : Int
  args : List Arg
  out : Out

def INT_MAX : Int := 2147483647

/-- The value of an assignment to an `int`. -/
def wrapInt (n : Int) : Int := n.bmod (2 ^ 32)

/-- `size_t maxrem = INT_MAX - written;`. -/
def maxrem (written : Int) : Nat := ((INT_MAX - written) % 2 ^ 32).toNat

/-- `if (!print(data, length)) return -1;` and `written += length;`. -/
def FmtState.emit (put : Sink) (data : Object UInt8) (p length : Nat) (s : FmtState) :
    Option (Pass FmtState FmtResult) := do
  let (ok, out) ← print put data p length s.out
  if ok then some (.again { s with out := out, written := wrapInt (s.written + length) })
  else some (.exit ⟨-1, s.args, out⟩)

/-- `while (format[amount] && format[amount] != '%') amount++;`. The argument before
`amount` bounds the passes by the size of the format. -/
def litLoop (fmt : Object UInt8) (format : Nat) : Nat → Nat → Option Nat
  | 0, _ => none
  | room + 1, amount => do
    let c ← fmt.load (format + amount)
    if c ≠ 0 ∧ c ≠ '%'.toUInt8 then litLoop fmt format room (amount + 1) else some amount

/-- The branch for literal text. -/
def literalRun (put : Sink) (fmt : CString) (s : FmtState) :
    Option (Pass FmtState FmtResult) := do
  let amount ← litLoop fmt.object s.format (fmt.object.length + 1) 1
  if maxrem s.written < amount then some (.exit ⟨-1, s.args, s.out⟩)
  else ({ s with format := s.format + amount }).emit put fmt.object s.format amount

/-- The branch `'c'`. -/
def convC (put : Sink) (s : FmtState) : Option (Pass FmtState FmtResult) :=
  match s.args with
  | .int i :: args =>
    if maxrem s.written = 0 then some (.exit ⟨-1, args, s.out⟩)
    else ({ s with args := args }).emit put [some (charOfInt i.toInt)] 0 1
  | _ => none

/-- The branch `'s'`. -/
def convS (put : Sink) (s : FmtState) : Option (Pass FmtState FmtResult) :=
  match s.args with
  | .str str :: args => do
    let len ← strlen str.object 0
    if maxrem s.written < len then some (.exit ⟨-1, args, s.out⟩)
    else ({ s with args := args }).emit put str.object 0 len
  | _ => none

/-- The branch `'d'`. It calls `itoa` for the pointer, for the length to print, and for the
length to count. No call of the sink writes to the static buffer. -/
def convD (put : Sink) (s : FmtState) : Option (Pass FmtState FmtResult) :=
  match s.args with
  | .int d :: args => do
    let (m, p) ← s.out.mach.itoa d
    let (m, q) ← m.itoa d
    let n ← strlen m.itoaBuf.cells q
    let (ok, out) ← print put m.itoaBuf.cells p n { s.out with mach := m }
    if ok then do
      let (m, q) ← out.mach.itoa d
      let n ← strlen m.itoaBuf.cells q
      some (.again { s with
        args := args, out := { out with mach := m }, written := wrapInt (s.written + n) })
    else some (.exit ⟨-1, args, out⟩)
  | _ => none

/-- `hex[k]`. -/
def hexAt (k : Int) : Option UInt8 :=
  if 0 ≤ k then Object.load ((ascii "0123456789ABCDEF").map some) k.toNat else none

/-- `for (; test(x); x /= 0x10, i++) buf[i] = hex[index(x)];`. The first number bounds the
passes by the size of the buffer. -/
def hexLoop (test : Int → Bool) (index : Int → Int) :
    Nat → Int → Nat → Object UInt8 → Option (Object UInt8 × Nat)
  | 0, _, _, _ => none
  | room + 1, x, i, buf =>
    if test x then do
      let c ← hexAt (index x)
      let buf ← buf.store i c
      hexLoop test index room (x.tdiv 16) (i + 1) buf
    else some (buf, i)

/-- The three cases of `%x`: the buffer with the digits, and their number. -/
def hexDigits (x : Int32) (buf : Object UInt8) : Option (Object UInt8 × Nat) :=
  if 0 < x.toInt then
    hexLoop (fun x => 0 < x) (fun x => x.tmod 16) (buf.length + 1) x.toInt 0 buf
  else if x.toInt < 0 then
    hexLoop (fun x => x < 0) (fun x => x.tmod 16 + 15) (buf.length + 1) (x.toInt + 1) 0 buf
  else do
    let buf ← buf.store 0 '0'.toUInt8
    some (buf, 1)

/-- The branch `'x'`. `strrev` writes to the serial port. -/
def convX (put : Sink) (s : FmtState) : Option (Pass FmtState FmtResult) :=
  match s.args with
  | .int x :: args => do
    let (buf, i) ← hexDigits x (Object.fresh 17)
    let buf ← buf.store i 0
    let (_, buf, report) ← strrev buf (some 0)
    let out : Out := { s.out with mach := s.out.mach.serial report }
    ({ s with args := args, out := out }).emit put buf 0 i
  | _ => none

/-- The last branch. The format pointer is back at the percent sign. -/
def convOther (put : Sink) (fmt : CString) (s : FmtState) :
    Option (Pass FmtState FmtResult) := do
  let len ← strlen fmt.object s.format
  if maxrem s.written < len then some (.exit ⟨-1, s.args, s.out⟩)
  else ({ s with format := s.format + len }).emit put fmt.object s.format len

/-- The part of the loop body behind a percent sign that no other one follows. -/
def conversion (put : Sink) (fmt : CString) (s : FmtState) :
    Option (Pass FmtState FmtResult) := do
  let c ← fmt.object.load (s.format + 1)
  let taken := { s with format := s.format + 2 }
  if c = 'c'.toUInt8 then convC put taken
  else if c = 's'.toUInt8 then convS put taken
  else if c = 'd'.toUInt8 then convD put taken
  else if c = 'x'.toUInt8 then convX put taken
  else convOther put fmt s

/-- One pass of the loop. `format[1]` is read only behind a percent sign. -/
def formatBody (put : Sink) (fmt : CString) (s : FmtState) :
    Option (Pass FmtState FmtResult) := do
  let c ← fmt.object.load s.format
  if c = 0 then some (.exit ⟨s.written, s.args, s.out⟩)
  else if c ≠ '%'.toUInt8 then literalRun put fmt s
  else do
    let c' ← fmt.object.load (s.format + 1)
    if c' = '%'.toUInt8 then literalRun put fmt { s with format := s.format + 1 }
    else conversion put fmt s

/-- The body as a loop body: a pass without a result is a fault. -/
def formatPass (put : Sink) (fmt : CString) (s : FmtState) : Pass FmtState FmtResult :=
  (formatBody put fmt s).getD .fault

/-- The loop of `printf`. Every pass that goes on moves the format pointer, so one pass for
each cell of the format is enough (`exit_of_variant`). -/
def format (put : Sink) (fmt : CString) (args : List Arg) (m : Machine) :
    Pass FmtState FmtResult :=
  passes (formatPass put fmt) (fmt.bytes.length + 1) ⟨0, 0, args, ⟨m, []⟩⟩

/-- `printf`. -/
def printf : CString → List Arg → Machine → Pass FmtState FmtResult := format putcharSink

/-- `serial_printf`. -/
def serialPrintf : CString → List Arg → Machine → Pass FmtState FmtResult := format serialSink

/-- `printf`, for the effect on the machine. -/
def callPrintf (format : List UInt8) (args : List Arg) (m : Machine) : Option Machine :=
  if h : 0 ∉ format then
    match printf ⟨format, forall_ne_of_not_mem h⟩ args m with
    | .exit r => some r.out.mach
    | _ => none
  else none

/-! ### Sending text -/

/-- The output `o'` is `o` after the bytes were passed to the sink. In between, bytes may go
to the serial port, and `itoa` is called on the numbers of the second list, in order. -/
inductive Sends (put : Sink) (o : Out) : List UInt8 → List Int32 → Out → Prop where
  | refl : Sends put o [] [] o
  | push {l : List UInt8} {ks : List Int32} {o' : Out} (b : UInt8) :
      Sends put o l ks o' → Sends put o (l ++ [b]) ks (o'.push put b)
  | report {l : List UInt8} {ks : List Int32} {o' : Out} (bytes : List UInt8) :
      Sends put o l ks o' → Sends put o l ks { o' with mach := o'.mach.serial bytes }
  | itoa {l : List UInt8} {ks : List Int32} {o' : Out} {i : Int32} {m : Machine} {p : Nat} :
      o'.mach.itoa i = some (m, p) → Sends put o l ks o' →
      Sends put o l (ks ++ [i]) { o' with mach := m }

/-- Text after text. -/
theorem Sends.trans {put : Sink} {o o₁ o₂ : Out} {l₁ l₂ : List UInt8} {ks₁ ks₂ : List Int32}
    (h₁ : Sends put o l₁ ks₁ o₁) (h₂ : Sends put o₁ l₂ ks₂ o₂) :
    Sends put o (l₁ ++ l₂) (ks₁ ++ ks₂) o₂ := by
  induction h₂ with
  | refl => simpa using h₁
  | push b _ ih =>
    rw [← List.append_assoc]
    exact ih.push b
  | report bytes _ ih => exact ih.report bytes
  | itoa hitoa _ ih =>
    rw [← List.append_assoc]
    exact ih.itoa hitoa

/-- A sequence of bytes. -/
theorem sends_pushAll (put : Sink) (l : List UInt8) :
    ∀ o : Out, Sends put o l [] (o.pushAll put l) := by
  induction l with
  | nil => intro o; exact .refl
  | cons b l ih =>
    intro o
    have h : Sends put o [b] [] (o.push put b) := .push b .refl
    exact h.trans (ih (o.push put b))

/-- The record of the bytes. -/
theorem Sends.sent {put : Sink} {o o' : Out} {l : List UInt8} {ks : List Int32}
    (h : Sends put o l ks o') : o'.sent = o.sent ++ l := by
  induction h with
  | refl => simp
  | push b _ ih => simp [Out.push, ih]
  | report bytes _ ih => exact ih
  | itoa hitoa _ ih => exact ih

/-- `itoa` changes the static buffer only. -/
theorem Machine.itoa_eq_some {i : Int32} {m m' : Machine} {p : Nat}
    (h : m.itoa i = some (m', p)) :
    m' = { m with itoaBuf := m'.itoaBuf } ∧ m'.itoaBuf.cells = stamp m.itoaBuf.cells i := by
  obtain ⟨b', hspec, hcells⟩ := m.itoa_spec i
  rw [hspec, Option.some.injEq, Prod.mk.injEq] at h
  rw [← h.1]
  exact ⟨rfl, hcells⟩

/-- With `putchar` as the sink, the bytes reach the terminal in order, and the static buffer
holds the numerals, each over the one before it. -/
theorem Sends.terminal {o o' : Out} {l : List UInt8} {ks : List Int32}
    (h : Sends putcharSink o l ks o') :
    o'.mach.console = o.mach.console ++ l ∧ o'.mach.tty = terminalWrite o.mach.tty l ∧
      o'.mach.itoaBuf.cells = ks.foldl stamp o.mach.itoaBuf.cells := by
  induction h with
  | refl => exact ⟨by simp, rfl, rfl⟩
  | push b _ ih =>
    obtain ⟨hconsole, htty, hbuf⟩ := ih
    refine ⟨?_, ?_, hbuf⟩
    · simp [Out.push, putcharSink, putchar, hconsole]
    · simp [Out.push, putcharSink, putchar, htty, terminalWrite]
  | report bytes _ ih => exact ih
  | itoa hitoa _ ih =>
    obtain ⟨hconsole, htty, hbuf⟩ := ih
    obtain ⟨hkeep, hcells⟩ := Machine.itoa_eq_some hitoa
    rw [hkeep]
    refine ⟨hconsole, htty, ?_⟩
    rw [List.foldl_append, ← hbuf]
    exact hcells

/-- A pass that sends `l`, calls `itoa` on the numbers `ks`, and goes on at the place
`format` with the arguments `args`. -/
def Emits (put : Sink) (s : FmtState) (l : List UInt8) (ks : List Int32) (format : Nat)
    (args : List Arg) (pass : Option (Pass FmtState FmtResult)) : Prop :=
  ∃ out, pass = some (.again ⟨format, wrapInt (s.written + l.length), args, out⟩) ∧
    Sends put s.out l ks out

/-- `maxrem` while `written` is an `int` and not negative. -/
theorem maxrem_eq {written : Int} (h : 0 ≤ written) (h' : written ≤ INT_MAX) :
    maxrem written = (INT_MAX - written).toNat := by
  have hmax : INT_MAX = 2147483647 := rfl
  rw [maxrem, Int.emod_eq_of_lt (by omega) (by omega)]

/-- `written` below the overflow. -/
theorem wrapInt_eq {n : Int} (h : 0 ≤ n) (h' : n ≤ INT_MAX) : wrapInt n = n := by
  have hmax : INT_MAX = 2147483647 := rfl
  rw [wrapInt, Int.bmod_eq_of_le] <;> omega

/-- What one pass puts out, whatever the sink. `checked` says that the branch compares the
length of the text with the room for it, and `reports` that it calls `strrev`, which reports
on the serial port. -/
structure Piece where
  text : List UInt8
  calls : List Int32
  args : List Arg
  checked : Bool
  reports : Bool

/-- The text of the piece fits, or it is not compared. -/
def Piece.Fits (p : Piece) (written : Int) : Prop :=
  p.checked = true → p.text.length ≤ maxrem written

/-- A piece that is not compared always fits. -/
theorem Piece.fits_of_not_checked {p : Piece} (h : p.checked = false) (written : Int) :
    p.Fits written :=
  fun hc => absurd (h.symm.trans hc) Bool.false_ne_true

/-- The bytes that reach the serial port when the sink gets the bytes `l` of the piece: a
report, if there is one, and what the sink writes there. No report has a byte 0xFF. -/
def Piece.OnSerial (p : Piece) (put : Sink) (l : List UInt8) (o o' : Out) : Prop :=
  ∃ report, (report = [] ↔ p.reports = false) ∧ 0xFF ∉ report ∧
    ∀ f, put.WritesSerial f → o'.mach.com1 = o.mach.com1 ++ (report ++ l.flatMap f)

/-- A pass that puts out the piece and goes on at the place `format`. -/
structure Piece.Passes (p : Piece) (put : Sink) (s : FmtState) (format : Nat)
    (pass : Option (Pass FmtState FmtResult)) : Prop where
  overflow : ¬p.Fits s.written → pass = some (.exit ⟨-1, p.args, s.out⟩)
  accepted : p.Fits s.written → put.Accepts p.text →
    Emits put s p.text p.calls format p.args pass
  serial : p.Fits s.written → put.Accepts p.text →
    ∀ s', pass = some (.again s') → p.OnSerial put p.text s.out s'.out
  refused : p.Fits s.written → ∀ taken, put.Refuses p.text taken →
    ∃ out, pass = some (.exit ⟨-1, p.args, out⟩) ∧ out.sent = s.out.sent ++ taken ∧
      p.OnSerial put taken s.out out

/-- The branches with a comparison: the comparison, then the print. -/
def FmtState.guarded (put : Sink) (data : Object UInt8) (p length : Nat) (s : FmtState) :
    Option (Pass FmtState FmtResult) :=
  if maxrem s.written < length then some (.exit ⟨-1, s.args, s.out⟩)
  else s.emit put data p length

/-- The print of text that lies in an object. -/
theorem emit_accepted {put : Sink} {l : List UInt8} (hl : put.Accepts l)
    (before after : Object UInt8) (s : FmtState) {p : Nat} (hp : p = before.length) :
    s.emit put (before ++ (l.map some ++ after)) p l.length
      = some (.again ⟨s.format, wrapInt (s.written + l.length), s.args, s.out.pushAll put l⟩) := by
  simp [FmtState.emit, print_eq put l hl before after p s.out hp]

/-- The print of text that the sink refuses. -/
theorem emit_refused {put : Sink} {l taken : List UInt8} (hl : put.Refuses l taken)
    (before after : Object UInt8) (s : FmtState) {p : Nat} (hp : p = before.length) :
    s.emit put (before ++ (l.map some ++ after)) p l.length
      = some (.exit ⟨-1, s.args, s.out.pushAll put taken⟩) := by
  simp [FmtState.emit, print_refused put hl before after p s.out hp]

/-- A piece without a report: the port has what the sink writes there. -/
theorem Piece.onSerial_pushAll {p : Piece} (hp : p.reports = false) (put : Sink)
    (l : List UInt8) (o : Out) : p.OnSerial put l o (o.pushAll put l) :=
  ⟨[], ⟨fun _ => hp, fun _ => rfl⟩, List.not_mem_nil, fun _ hf => com1_pushAll hf l o⟩

/-- A branch with a comparison. -/
theorem passes_guarded (put : Sink) (l : List UInt8) (before after : Object UInt8) (s : FmtState)
    {p : Nat} (hp : p = before.length) :
    Piece.Passes ⟨l, [], s.args, true, false⟩ put s s.format
      (s.guarded put (before ++ (l.map some ++ after)) p l.length) := by
  have hfits : Piece.Fits ⟨l, [], s.args, true, false⟩ s.written
      ↔ ¬maxrem s.written < l.length := by
    rw [Nat.not_lt]
    exact ⟨fun h => h rfl, fun h _ => h⟩
  refine ⟨fun h => ?_, fun h hl => ?_, fun h hl s' hs' => ?_, fun h taken hl => ?_⟩
  · rw [hfits, Decidable.not_not] at h
    exact if_pos h
  · rw [FmtState.guarded, if_neg (hfits.mp h), emit_accepted hl before after s hp]
    exact ⟨_, rfl, sends_pushAll put l s.out⟩
  · rw [FmtState.guarded, if_neg (hfits.mp h), emit_accepted hl before after s hp] at hs'
    cases hs'
    exact Piece.onSerial_pushAll rfl put l s.out
  · rw [FmtState.guarded, if_neg (hfits.mp h)]
    exact ⟨_, emit_refused hl before after s hp, (sends_pushAll put taken s.out).sent,
      Piece.onSerial_pushAll rfl put taken s.out⟩

/-! ### Literal text -/

/-- The bytes of the format from a place in it on, in its memory. -/
theorem CString.object_split {fmt : CString} {pre l rest : List UInt8}
    (h : fmt.bytes = pre ++ (l ++ rest)) :
    fmt.object = pre.map some ++ (l.map some ++ (rest.map some ++ [some 0])) := by
  simp [CString.object, h]

/-- The byte of the format at a place in it. -/
theorem CString.load_object {fmt : CString} {pre rest : List UInt8} {c : UInt8}
    (h : fmt.bytes = pre ++ c :: rest) {p : Nat} (hp : p = pre.length) :
    fmt.object.load p = some c := by
  have hobject := CString.object_split (l := [c]) h
  rw [hobject]
  exact Object.load_append _ _ _ (by simpa using hp)

/-- The end of the format. -/
theorem CString.load_object_end (fmt : CString) {p : Nat} (hp : p = fmt.bytes.length) :
    fmt.object.load p = some 0 :=
  Object.load_append (fmt.bytes.map some) [] 0 (by simpa using hp)

/-- The first byte that no literal run continues with: the NUL, or a percent sign. -/
theorem CString.load_object_stop {fmt : CString} {pre rest : List UInt8}
    (h : fmt.bytes = pre ++ rest) (hrest : rest.head?.all (· = '%'.toUInt8)) {p : Nat}
    (hp : p = pre.length) :
    fmt.object.load p = some 0 ∨ fmt.object.load p = some '%'.toUInt8 := by
  cases rest with
  | nil => exact Or.inl (fmt.load_object_end (by simp [h, hp]))
  | cons c rest =>
    right
    have hc : c = '%'.toUInt8 := by simpa using hrest
    rw [CString.load_object h hp, hc]

/-- The inner loop counts the bytes up to the next percent sign or the NUL. -/
theorem litLoop_eq (fmt : CString) (format : Nat) (rest : List UInt8)
    (hrest : rest.head?.all (· = '%'.toUInt8)) (lit : List UInt8)
    (hlit : '%'.toUInt8 ∉ lit) :
    ∀ (pre : List UInt8) (amount room : Nat), fmt.bytes = pre ++ (lit ++ rest) →
      format + amount = pre.length → lit.length < room →
      litLoop fmt.object format room amount = some (amount + lit.length) := by
  induction lit with
  | nil =>
    intro pre amount room hfmt hpre hroom
    obtain ⟨room, rfl⟩ : ∃ k, room = k + 1 := ⟨room - 1, by simp at hroom; omega⟩
    rcases CString.load_object_stop hfmt hrest hpre with h | h <;> simp [litLoop, h]
  | cons b lit ih =>
    intro pre amount room hfmt hpre hroom
    obtain ⟨room, rfl⟩ : ∃ k, room = k + 1 := ⟨room - 1, by simp at hroom; omega⟩
    have hbytes : fmt.bytes = pre ++ b :: (lit ++ rest) := by simpa using hfmt
    have hload : fmt.object.load (format + amount) = some b := CString.load_object hbytes hpre
    have hb : b ≠ 0 := fmt.nonzero b (by simp [hfmt])
    obtain ⟨hb', hlit⟩ := List.ne_and_not_mem_of_not_mem_cons hlit
    have hb' : b ≠ '%'.toUInt8 := Ne.symm hb'
    have hrec := ih hlit (pre ++ [b]) (amount + 1) room
      (by simpa using hfmt) (by simp; omega) (by simpa using hroom)
    simp only [litLoop, hload, Option.bind_eq_bind, Option.bind_some, ne_eq, hb, hb',
      not_false_eq_true, and_self, if_true]
    rw [hrec, List.length_cons]
    congr 1
    omega

/-- A run of literal text: any first byte, and the bytes up to the next percent sign. -/
theorem passes_literalRun {put : Sink} {fmt : CString} {s : FmtState} {c : UInt8}
    {pre lit rest : List UInt8} (hfmt : fmt.bytes = pre ++ (c :: lit ++ rest))
    (hpre : s.format = pre.length) (hlit : '%'.toUInt8 ∉ lit)
    (hrest : rest.head?.all (· = '%'.toUInt8)) :
    Piece.Passes ⟨c :: lit, [], s.args, true, false⟩ put s (pre ++ c :: lit).length
      (literalRun put fmt s) := by
  have hamount : litLoop fmt.object s.format (fmt.object.length + 1) 1
      = some (c :: lit).length := by
    rw [litLoop_eq fmt s.format rest hrest lit hlit (pre ++ [c]) 1 _ (by simpa using hfmt)
      (by simp [hpre]) (by simp [CString.object, hfmt]; omega), List.length_cons, Nat.add_comm]
  have hplace : (pre ++ c :: lit).length = s.format + (c :: lit).length := by
    rw [List.length_append, hpre]
  rw [hplace, literalRun, hamount, CString.object_split hfmt]
  have h := passes_guarded put (c :: lit) (pre.map some) (rest.map some ++ [some 0])
    { s with format := s.format + (c :: lit).length } (p := s.format) (by simpa using hpre)
  exact ⟨h.overflow, h.accepted, h.serial, h.refused⟩

/-! ### The conversions -/

/-- `%c`. -/
theorem passes_convC {put : Sink} {s : FmtState} {i : Int32} {args : List Arg}
    (hargs : s.args = .int i :: args) :
    Piece.Passes ⟨[charOfInt i.toInt], [], args, true, false⟩ put s s.format (convC put s) := by
  have h := passes_guarded put [charOfInt i.toInt] [] [] { s with args := args }
    (p := 0) rfl
  have hconv : convC put s
      = ({ s with args := args } : FmtState).guarded put [some (charOfInt i.toInt)] 0 1 := by
    simp [convC, hargs, FmtState.guarded]
  rw [hconv]
  exact ⟨h.overflow, h.accepted, h.serial, h.refused⟩

/-- `%s`. -/
theorem passes_convS {put : Sink} {s : FmtState} {str : CString} {args : List Arg}
    (hargs : s.args = .str str :: args) :
    Piece.Passes ⟨str.bytes, [], args, true, false⟩ put s s.format (convS put s) := by
  have h := passes_guarded put str.bytes [] [some 0] { s with args := args }
    (p := 0) rfl
  have hconv : convS put s
      = ({ s with args := args } : FmtState).guarded put str.object 0 str.bytes.length := by
    simp [convS, hargs, FmtState.guarded, strlen_object]
  rw [hconv]
  exact ⟨h.overflow, h.accepted, h.serial, h.refused⟩

/-- `%d`. -/
theorem passes_convD {put : Sink} {s : FmtState} {d : Int32} {args : List Arg}
    (hargs : s.args = .int d :: args) :
    Piece.Passes ⟨decimal d, [d, d, d], args, false, false⟩ put s s.format (convD put s) := by
  have hroom : ITOA_DIGITS = 19 := rfl
  have hdec := length_decimal_le d
  -- In every call the numeral is in the buffer behind the same number of cells.
  have hstrlen : ∀ (b b' : ItoaBuf),
      b'.cells = stamp b.cells d →
      strlen b'.cells (ITOA_DIGITS + 1 - (decimal d).length) = some (decimal d).length := by
    intro b b' hb
    have hlen := b.length_eq
    rw [hb, stamp]
    exact strlen_eq _ [] (decimal d) (ne_zero_of_mem_decimal d) (by rw [List.length_take]; omega)
  obtain ⟨b₁, hitoa₁, hcells₁⟩ := s.out.mach.itoa_spec d
  obtain ⟨b₂, hitoa₂, hcells₂⟩ := Machine.itoa_spec d { s.out.mach with itoaBuf := b₁ }
  have hbefore : ITOA_DIGITS + 1 - (decimal d).length
      = (b₁.cells.take (ITOA_DIGITS + 1 - (decimal d).length)).length := by
    rw [List.length_take, b₁.length_eq]
    omega
  -- With a sink that takes the numeral, the result of the branch is known.
  have haccepted (hl : put.Accepts (decimal d)) : ∃ out m₃ p, out.mach.itoa d = some (m₃, p) ∧
      out = Out.pushAll put { s.out with mach := { s.out.mach with itoaBuf := b₂ } } (decimal d) ∧
      convD put s = some (.again ⟨s.format, wrapInt (s.written + (decimal d).length), args,
        { out with mach := m₃ }⟩) := by
    have hprint := print_eq put (decimal d) hl
      (b₁.cells.take (ITOA_DIGITS + 1 - (decimal d).length)) [some 0]
      (ITOA_DIGITS + 1 - (decimal d).length)
      { s.out with mach := { s.out.mach with itoaBuf := b₂ } } hbefore
    rw [← stamp, ← hcells₂] at hprint
    generalize hout : Out.pushAll put
      { s.out with mach := { s.out.mach with itoaBuf := b₂ } } (decimal d) = out at hprint
    obtain ⟨b₃, hitoa₃, hcells₃⟩ := out.mach.itoa_spec d
    refine ⟨out, _, _, hitoa₃, rfl, ?_⟩
    simp only [convD, hargs, hitoa₁, Option.bind_eq_bind, Option.bind_some, hitoa₂,
      hstrlen _ _ hcells₂, hprint, if_true, hitoa₃, hstrlen _ _ hcells₃]
  refine ⟨fun h => absurd (Piece.fits_of_not_checked rfl _) h, fun _ hl => ?_,
    fun _ hl s' hs' => ?_, fun _ taken hl => ?_⟩
  · rcases haccepted hl with ⟨out, m₃, p, hitoa₃, rfl, hconv⟩
    have hfirst : Sends put s.out [] [d]
        { s.out with mach := { s.out.mach with itoaBuf := b₁ } } := .itoa hitoa₁ .refl
    have hsecond : Sends put s.out [] [d, d]
        { s.out with mach := { s.out.mach with itoaBuf := b₂ } } := by
      refine .itoa (p := ITOA_DIGITS + 1 - (decimal d).length) ?_ hfirst
      exact hitoa₂
    have hsends := hsecond.trans (sends_pushAll put (decimal d) _)
    exact ⟨_, hconv, hsends.itoa hitoa₃⟩
  · rcases haccepted hl with ⟨out, m₃, p, hitoa₃, hout, hconv⟩
    rw [hconv] at hs'
    cases hs'
    refine ⟨[], ⟨fun _ => rfl, fun _ => rfl⟩, List.not_mem_nil, fun f hf => ?_⟩
    show m₃.com1 = _
    rw [(Machine.itoa_eq_some hitoa₃).1]
    show out.mach.com1 = _
    rw [hout, com1_pushAll hf]
    rfl
  · have hprint := print_refused put hl
      (b₁.cells.take (ITOA_DIGITS + 1 - (decimal d).length)) [some 0]
      (ITOA_DIGITS + 1 - (decimal d).length)
      { s.out with mach := { s.out.mach with itoaBuf := b₂ } } hbefore
    rw [← stamp, ← hcells₂] at hprint
    refine ⟨_, ?_, (sends_pushAll put taken
      { s.out with mach := { s.out.mach with itoaBuf := b₂ } }).sent,
      Piece.onSerial_pushAll rfl put taken _⟩
    simp only [convD, hargs, hitoa₁, Option.bind_eq_bind, Option.bind_some, hitoa₂,
      hstrlen _ _ hcells₂, hprint, Bool.false_eq_true, if_false]

/-- The symbol of a hexadecimal digit. -/
def hexDigit (d : Nat) : UInt8 := ((ascii "0123456789ABCDEF")[d]?).getD 0

/-- The text of `%x`. A negative number is the complement of the digits of `-(x + 1)`,
with no more digits than that number has. -/
def hexText (x : Int32) : List UInt8 :=
  if 0 < x.toInt then ((Nat.digits 16 x.toInt.toNat).map hexDigit).reverse
  else if x.toInt < 0 then
    ((Nat.digits 16 (-(x.toInt + 1)).toNat).map fun d => hexDigit (15 - d)).reverse
  else ['0'.toUInt8]

/-- The table of the digits. -/
theorem hexAt_eq {d : Nat} (h : d < 16) : hexAt d = some (hexDigit d) := by
  have hall : ∀ d < 16, hexAt (d : Nat) = some (hexDigit d) := by decide
  exact hall d h

/-- No digit is NUL. -/
theorem hexDigit_ne_zero {d : Nat} (h : d < 16) : hexDigit d ≠ 0 := by
  have hall : ∀ d < 16, hexDigit d ≠ 0 := by decide
  exact hall d h

/-- The text of `%x` holds digits only. -/
theorem mem_hexText {x : Int32} {b : UInt8} (h : b ∈ hexText x) : ∃ d < 16, hexDigit d = b := by
  have hlt : ∀ {n d : Nat}, d ∈ Nat.digits 16 n → d < 16 :=
    fun h => Nat.digits_lt_base (by omega) h
  unfold hexText at h
  split at h
  · simp only [List.mem_reverse, List.mem_map] at h
    obtain ⟨d, hd, rfl⟩ := h
    exact ⟨d, hlt hd, rfl⟩
  · split at h
    · simp only [List.mem_reverse, List.mem_map] at h
      obtain ⟨d, hd, rfl⟩ := h
      exact ⟨15 - d, by omega, rfl⟩
    · rw [List.mem_singleton.mp h]
      exact ⟨0, by decide, rfl⟩

/-- No digit is a NUL. -/
theorem ne_zero_of_mem_hexText (x : Int32) : ∀ b ∈ hexText x, b ≠ 0 := by
  intro b hb
  obtain ⟨d, hd, rfl⟩ := mem_hexText hb
  exact hexDigit_ne_zero hd

/-- Nor is any digit the byte 0xFF. -/
theorem eof_notMem_hexText (x : Int32) : 0xFF ∉ hexText x := by
  intro h
  have hall : ∀ d < 16, hexDigit d ≠ 0xFF := by decide
  obtain ⟨d, hd, heq⟩ := mem_hexText h
  exact hall d hd heq

/-- The loop stores the digits of the number behind the cells that are stored already. The
sign `s` is the sign of the number, and the induction follows its quotients by 16. -/
theorem hexLoop_eq (test : Int → Bool) (index : Int → Int) (s : Int) (sym : Nat → UInt8)
    (hs : s = 1 ∨ s = -1) (htest : ∀ n : Nat, test (s * n) = decide (n ≠ 0))
    (hindex : ∀ n : Nat, hexAt (index (s * n)) = some (sym (n % 16))) :
    ∀ (n room : Nat) (front mid post : Object UInt8),
      mid.length = (Nat.digits 16 n).length → mid.length < room →
      hexLoop test index room (s * n) front.length (front ++ (mid ++ post))
        = some (front ++ (((Nat.digits 16 n).map sym).map some ++ post),
            front.length + (Nat.digits 16 n).length) := by
  intro n
  induction n using Nat.strongRecOn with
  | _ n ih =>
    intro room front mid post hmid hroom
    obtain ⟨room, rfl⟩ : ∃ k, room = k + 1 := ⟨room - 1, by omega⟩
    by_cases hn : n = 0
    · subst hn
      have hnil : mid = [] := by simpa using hmid
      have hstop : test (s * (0 : Nat)) = false := by simpa using htest 0
      simp only [hexLoop, hstop, Bool.false_eq_true, if_false, hnil]
      simp
    · have hdigits := Nat.digits_def' (b := 16) (by omega) (Nat.pos_of_ne_zero hn)
      have hquot : (s * (n : Int)).tdiv 16 = s * ((n / 16 : Nat) : Int) := by
        rcases hs with rfl | rfl
        · rw [Int.one_mul, Int.one_mul, Int.ofNat_tdiv]
          rfl
        · rw [Int.neg_one_mul, Int.neg_one_mul, Int.neg_tdiv, Int.ofNat_tdiv]
          rfl
      rw [hdigits, List.length_cons] at hmid
      -- The cell that this pass writes is the first one of `mid`.
      obtain ⟨c, mid, rfl⟩ : ∃ c mid', mid = c :: mid' :=
        List.exists_cons_of_ne_nil (by intro h; simp [h] at hmid)
      have hstore := Object.store_append front (mid ++ post) c (sym (n % 16)) rfl
      have hrec := ih (n / 16) (by omega) room (front ++ [some (sym (n % 16))]) mid post
        (by simpa using hmid) (by simpa using hroom)
      have hlen : (front ++ [some (sym (n % 16))]).length = front.length + 1 := by simp
      rw [hlen, List.append_assoc, List.singleton_append] at hrec
      have hgo : test (s * (n : Int)) = true := by simpa [hn] using htest n
      simp only [hexLoop, hgo, if_true, hindex, Option.bind_eq_bind, Option.bind_some,
        List.cons_append, hstore, hquot, hrec, hdigits, List.map_cons, List.length_cons]
      congr 2
      · simp
      · omega

/-- A number has at most eight hexadecimal digits. -/
theorem length_digits_le {n : Nat} (h : n < 2 ^ 32) : (Nat.digits 16 n).length ≤ 8 := by
  rw [Nat.digits_length_le_iff (by omega)]
  omega

/-- There are eight at most. -/
theorem length_hexText_le (x : Int32) : (hexText x).length ≤ 8 := by
  have hlow := x.le_toInt
  have hhigh := x.toInt_lt
  unfold hexText
  split
  · simpa using length_digits_le (n := x.toInt.toNat) (by omega)
  · split
    · simpa using length_digits_le (n := (-(x.toInt + 1)).toNat) (by omega)
    · simp

/-- The loops on the fresh buffer. -/
theorem hexLoop_fresh (test : Int → Bool) (index : Int → Int) (s : Int) (sym : Nat → UInt8)
    (hs : s = 1 ∨ s = -1) (htest : ∀ n : Nat, test (s * n) = decide (n ≠ 0))
    (hindex : ∀ n : Nat, hexAt (index (s * n)) = some (sym (n % 16))) {n : Nat}
    (hn : (Nat.digits 16 n).length ≤ 17) :
    hexLoop test index (17 + 1) (s * n) 0 (Object.fresh 17)
      = some (((Nat.digits 16 n).map sym).map some
          ++ Object.fresh (17 - (Nat.digits 16 n).length), (Nat.digits 16 n).length) := by
  have h := hexLoop_eq test index s sym hs htest hindex n (17 + 1) []
    (Object.fresh (Nat.digits 16 n).length) (Object.fresh (17 - (Nat.digits 16 n).length))
    (by simp) (by simp; omega)
  have hsplit : Object.fresh (Nat.digits 16 n).length
      ++ Object.fresh (17 - (Nat.digits 16 n).length) = (Object.fresh 17 : Object UInt8) := by
    simp only [Object.fresh, List.replicate_append_replicate]
    congr 1
    omega
  simpa [hsplit] using h

/-- The digits in the buffer: the text of `%x`, least significant digit first. -/
theorem hexDigits_eq (x : Int32) :
    hexDigits x (Object.fresh 17)
      = some ((hexText x).reverse.map some ++ Object.fresh (17 - (hexText x).length),
          (hexText x).length) := by
  have hlow := x.le_toInt
  have hhigh := x.toInt_lt
  have hlen := length_hexText_le x
  unfold hexText at hlen ⊢
  unfold hexDigits
  rw [Object.length_fresh]
  split
  · rename_i hpos
    rw [if_pos hpos, List.length_reverse, List.length_map] at hlen
    have hmod : ∀ n : Nat, hexAt ((1 * (n : Int)).tmod 16) = some (hexDigit (n % 16)) := by
      intro n
      rw [Int.one_mul]
      exact hexAt_eq (d := n % 16) (by omega)
    have h := hexLoop_fresh (fun x => 0 < x) (fun x => x.tmod 16) 1 hexDigit (Or.inl rfl)
      (fun n => by simp [Nat.pos_iff_ne_zero]) hmod (n := x.toInt.toNat) (by omega)
    have hx : 1 * (x.toInt.toNat : Int) = x.toInt := by omega
    rw [hx] at h
    simpa using h
  · split
    · rename_i hpos hneg
      rw [if_neg hpos, if_pos hneg, List.length_reverse, List.length_map] at hlen
      -- The remainder of a negative number is the negated remainder.
      have hmod : ∀ n : Nat,
          hexAt ((-1 * (n : Int)).tmod 16 + 15) = some (hexDigit (15 - n % 16)) := by
        intro n
        have hindex : (-1 * (n : Int)).tmod 16 + 15 = ((15 - n % 16 : Nat) : Int) := by
          rw [Int.neg_one_mul, Int.neg_tmod]
          have hrem : (n : Int).tmod 16 = ((n % 16 : Nat) : Int) := rfl
          omega
        rw [hindex]
        exact hexAt_eq (by omega)
      have h := hexLoop_fresh (fun x => x < 0) (fun x => x.tmod 16 + 15) (-1)
        (fun d => hexDigit (15 - d)) (Or.inr rfl)
        (fun n => by simp [Nat.pos_iff_ne_zero]) hmod (n := (-(x.toInt + 1)).toNat) (by omega)
      have hx : -1 * ((-(x.toInt + 1)).toNat : Int) = x.toInt + 1 := by omega
      rw [hx] at h
      simpa using h
    · rfl

/-- `%x`, up to the print. No store leaves the buffer of 17 cells. `strrev` always reports
something, and never the byte 0xFF. -/
theorem convX_eq {put : Sink} {s : FmtState} {x : Int32} {args : List Arg}
    (hargs : s.args = .int x :: args) :
    ∃ report free, report ≠ [] ∧ 0xFF ∉ report ∧ convX put s
      = ({ s with args := args, out := { s.out with mach := s.out.mach.serial report } } :
          FmtState).emit put ((hexText x).map some ++ some 0 :: free) 0 (hexText x).length := by
  have hlen := length_hexText_le x
  have hdigits := hexDigits_eq x
  -- The NUL goes into the first cell that holds nothing.
  obtain ⟨free, hfree⟩ : ∃ free : Object UInt8,
      Object.fresh (17 - (hexText x).length) = none :: free := by
    obtain ⟨k, hk⟩ : ∃ k, 17 - (hexText x).length = k + 1 := ⟨16 - (hexText x).length, by omega⟩
    exact ⟨Object.fresh k, by rw [hk]; rfl⟩
  rw [hfree] at hdigits
  have hstore := Object.store_append ((hexText x).reverse.map some) free none 0
    (a := (hexText x).length) (by simp)
  obtain ⟨report, hreport, heof, hrev⟩ : ∃ report, report ≠ [] ∧ 0xFF ∉ report ∧
      strrev ((hexText x).reverse.map some ++ some 0 :: free) (some 0)
        = some (some 0, (hexText x).map some ++ some 0 :: free, report) := by
    by_cases hnil : hexText x = []
    · rw [hnil]
      exact ⟨_, by decide, by decide, strrev_nil [] free rfl⟩
    · obtain ⟨out, h, hout⟩ := strrev_eq [] free (hexText x).reverse
        (fun b hb => ne_zero_of_mem_hexText x b (List.mem_reverse.mp hb)) (by simpa using hnil) rfl
      rw [List.reverse_reverse, List.nil_append, List.nil_append] at h
      refine ⟨_, List.append_ne_nil_of_left_ne_nil (by decide) out, fun hmem => ?_, h⟩
      rcases List.mem_append.mp hmem with hmem | hmem
      · exact absurd hmem (by decide)
      · rcases hout _ hmem with hmem | hmem
        · exact eof_notMem_hexText x (List.mem_reverse.mp hmem)
        · exact absurd hmem (by decide)
  refine ⟨report, free, hreport, heof, ?_⟩
  simp only [convX, hargs, hdigits, Option.bind_eq_bind, Option.bind_some, hstore, hrev]

/-- `%x`. -/
theorem passes_convX {put : Sink} {s : FmtState} {x : Int32} {args : List Arg}
    (hargs : s.args = .int x :: args) :
    Piece.Passes ⟨hexText x, [], args, false, true⟩ put s s.format (convX put s) := by
  obtain ⟨report, free, hreport, heof, hconv⟩ := convX_eq hargs
  -- Behind the report the port gets what the sink writes.
  have hport (l : List UInt8) : Piece.OnSerial ⟨hexText x, [], args, false, true⟩ put l s.out
      (Out.pushAll put { s.out with mach := s.out.mach.serial report } l) := by
    refine ⟨report, ⟨fun h => absurd h hreport, nofun⟩, heof, fun f hf => ?_⟩
    rw [com1_pushAll hf, ← List.append_assoc]
    rfl
  have haccepted (hl : put.Accepts (hexText x)) := emit_accepted hl [] (some 0 :: free)
    { s with args := args, out := { s.out with mach := s.out.mach.serial report } } (p := 0) rfl
  refine ⟨fun h => absurd (Piece.fits_of_not_checked rfl _) h, fun _ hl => ?_,
    fun _ hl s' hs' => ?_, fun _ taken hl => ?_⟩
  · have hstart : Sends put s.out [] [] s.out := .refl
    exact ⟨_, hconv.trans (haccepted hl), (hstart.report report).trans (sends_pushAll put _ _)⟩
  · rw [hconv.trans (haccepted hl)] at hs'
    cases hs'
    exact hport (hexText x)
  · exact ⟨_, hconv.trans (emit_refused hl [] (some 0 :: free) _ rfl),
      (sends_pushAll put taken
        { s.out with mach := s.out.mach.serial report }).sent, hport taken⟩

/-- Any other conversion: the rest of the format. -/
theorem passes_convOther {put : Sink} {fmt : CString} {s : FmtState} {pre rest : List UInt8}
    (hfmt : fmt.bytes = pre ++ rest) (hpre : s.format = pre.length) :
    Piece.Passes ⟨rest, [], s.args, true, false⟩ put s fmt.bytes.length (convOther put fmt s) := by
  have hplace : fmt.bytes.length = s.format + rest.length := by
    rw [hfmt, List.length_append, hpre]
  have hobject : fmt.object = pre.map some ++ (rest.map some ++ [some 0]) := by
    have hbytes : fmt.bytes = pre ++ (rest ++ []) := by simpa using hfmt
    simpa using CString.object_split hbytes
  have h := passes_guarded put rest (pre.map some) [some 0]
    { s with format := s.format + rest.length } (p := s.format) (by simpa using hpre)
  rw [hplace, convOther, strlen_object_drop fmt pre rest hfmt hpre, hobject]
  exact ⟨h.overflow, h.accepted, h.serial, h.refused⟩

end Chuckles
