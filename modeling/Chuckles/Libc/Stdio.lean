import Chuckles.Kernel.Tty
import Chuckles.Lib.PortIo
import Chuckles.Libc.Itoa

/-!
# `Chuckles.Libc.Stdio`: the machine, and the two byte sinks

`Machine` is the part of the machine that the C library reads and writes: the terminal,
the serial port and the static buffer of `itoa`. `Machine.console` records the bytes that
were passed to `putchar`, in order. No function reads it.

`putchar` writes to the terminal (the library is built as `libk`), and `serial_writec` to
the data port of COM1, once the port is ready. Both are sinks for `print`, the loop that
`printf` and `serial_printf` share: a sink gets a byte and returns an `int`, and the loop
stops early when this is `EOF`. `Out` adds the list of the bytes passed to the sink.

`print_eq` is the specification of the loop for bytes that the sink accepts.

The namespace `Debug` has the port accesses of `libc/sys/debug.c` and `libc/include/sys/debug.h`.
The rest of the model has `Machine.serial` for them: the bytes that are sent, without the accesses.
-/

set_option autoImplicit false

namespace Chuckles

open Lib

/-- The state that the C library reads and writes. -/
structure Machine where
  tty : Tty
  console : List UInt8
  com1 : List UInt8
  itoaBuf : ItoaBuf

/-- The machine before the kernel runs: static storage is zero. -/
def Machine.boot : Machine := ⟨Tty.boot, [], [], ItoaBuf.boot⟩

def EOF : Int := -1

/-- `putchar`. -/
def putchar (ic : Int) (m : Machine) : Int × Machine :=
  let c := charOfInt ic
  (ic, { m with tty := terminalWrite m.tty [c], console := m.console ++ [c] })

/-- `serial_writec`, after the loop that waits for the port. It returns its argument as a
signed `char`. -/
def serialWritec (c : UInt8) (m : Machine) : Int × Machine :=
  (c.toInt8.toInt, { m with com1 := m.com1 ++ [c] })

/-- Bytes that C code has sent with `serial_writec`, one after the other. -/
def Machine.serial (m : Machine) (l : List UInt8) : Machine := { m with com1 := m.com1 ++ l }

/-- `serial_writes`: `for (; *s != '\0'; s++) serial_writec(*s);`. The argument before the
machine bounds the number of bytes by the size of the object. -/
def serialWritesLoop (o : Object UInt8) : Nat → Nat → Machine → Option Machine
  | _, 0, _ => none
  | s, room + 1, m => do
    let c ← o.load s
    if c ≠ 0 then serialWritesLoop o (s + 1) room (serialWritec c m).2 else some m

/-- `serial_writes`. -/
def serialWrites (o : Object UInt8) (s : Nat) (m : Machine) : Option Machine :=
  serialWritesLoop o s (o.length + 1) m

/-- `itoa` on the static buffer of the machine: the machine and the returned pointer. -/
def Machine.itoa (i : Int32) (m : Machine) : Option (Machine × Nat) := do
  let (buf, p) ← Chuckles.itoa i m.itoaBuf
  some ({ m with itoaBuf := buf }, p)

/-- `serial_writed`. -/
def serialWrited (i : Int32) (m : Machine) : Option Machine := do
  let (m, p) ← m.itoa i
  serialWrites m.itoaBuf.cells p m

/-- The loop sends the bytes up to the NUL. -/
theorem serialWritesLoop_eq (l : List UInt8) (hl : ∀ b ∈ l, b ≠ 0) :
    ∀ (before after : Object UInt8) (s room : Nat) (m : Machine),
      s = before.length → l.length < room →
      serialWritesLoop (before ++ (l.map some ++ some 0 :: after)) s room m
        = some (m.serial l) := by
  induction l with
  | nil =>
    intro before after s room m hs hroom
    obtain ⟨room, rfl⟩ : ∃ k, room = k + 1 := ⟨room - 1, by simp at hroom; omega⟩
    simp [serialWritesLoop, Object.load_append _ _ _ hs, Machine.serial]
  | cons b l ih =>
    intro before after s room m hs hroom
    obtain ⟨room, rfl⟩ : ∃ k, room = k + 1 := ⟨room - 1, by simp at hroom; omega⟩
    have hb : b ≠ 0 := hl b (by simp)
    have hrec := ih (fun b' hb' => hl b' (by simp [hb'])) (before ++ [some b]) after (s + 1) room
      (serialWritec b m).2 (by simp [hs]) (by simpa using hroom)
    rw [List.append_assoc, List.singleton_append] at hrec
    simp only [serialWritesLoop, List.map_cons, List.cons_append,
      Object.load_append _ _ _ hs, Option.bind_eq_bind, Option.bind_some, ne_eq, hb,
      not_false_eq_true, if_true]
    rw [hrec]
    simp [Machine.serial, serialWritec]

/-- `itoa` changes the static buffer only. The returned pointer is where the numeral
starts. -/
theorem Machine.itoa_spec (i : Int32) (m : Machine) :
    ∃ b' : ItoaBuf,
      m.itoa i = some ({ m with itoaBuf := b' }, ITOA_DIGITS + 1 - (decimal i).length) ∧
      b'.cells = stamp m.itoaBuf.cells i := by
  obtain ⟨b', h, hcells⟩ := Chuckles.itoa_spec i m.itoaBuf
  exact ⟨b', by simp [Machine.itoa, h], hcells⟩

/-- `serial_writed` sends the decimal numeral, and leaves it in the static buffer. -/
theorem serialWrited_spec (i : Int32) (m : Machine) :
    ∃ b' : ItoaBuf,
      serialWrited i m = some { m with itoaBuf := b', com1 := m.com1 ++ decimal i } ∧
      b'.cells = stamp m.itoaBuf.cells i := by
  obtain ⟨b', h, hcells⟩ := m.itoa_spec i
  have hlen := m.itoaBuf.length_eq
  have hdec := length_decimal_le i
  have hroom : ITOA_DIGITS = 19 := rfl
  refine ⟨b', ?_, hcells⟩
  have hwrites := serialWritesLoop_eq (decimal i) (ne_zero_of_mem_decimal i)
    (m.itoaBuf.cells.take (ITOA_DIGITS + 1 - (decimal i).length)) []
    (ITOA_DIGITS + 1 - (decimal i).length) (b'.cells.length + 1) { m with itoaBuf := b' }
    (by rw [List.length_take]; omega) (by rw [b'.length_eq]; omega)
  rw [← stamp, ← hcells] at hwrites
  simp only [serialWrited, h, Option.bind_eq_bind, Option.bind_some, serialWrites, hwrites]
  rfl

/-! ### `print` -/

/-- Where `print` sends a byte. -/
abbrev Sink := UInt8 → Machine → Int × Machine

/-- The sink of `printf`: an `unsigned char`, converted to `int`. -/
def putcharSink : Sink := fun b m => putchar b.toNat m

/-- The sink of `serial_printf`. -/
def serialSink : Sink := serialWritec

/-- The machine, and the bytes passed to the sink so far. -/
structure Out where
  mach : Machine
  sent : List UInt8

/-- One byte passed to the sink. -/
def Out.push (put : Sink) (o : Out) (b : UInt8) : Out := ⟨(put b o.mach).2, o.sent ++ [b]⟩

/-- A sequence of bytes passed to the sink. -/
def Out.pushAll (put : Sink) (o : Out) (l : List UInt8) : Out := l.foldl (Out.push put) o

/-- `print`, with the pointer `data` moved on instead of the index. -/
def print (put : Sink) (data : Object UInt8) : Nat → Nat → Out → Option (Bool × Out)
  | _, 0, o => some (true, o)
  | p, length + 1, o => do
    let b ← data.load p
    if (put b o.mach).1 = EOF then some (false, o.push put b)
    else print put data (p + 1) length (o.push put b)

/-- The sink takes all the bytes. -/
def Sink.Accepts (put : Sink) (l : List UInt8) : Prop := ∀ b ∈ l, ∀ m, (put b m).1 ≠ EOF

/-- `putchar` returns a nonnegative value for every byte. -/
theorem putcharSink_accepts (l : List UInt8) : Sink.Accepts putcharSink l := by
  intro b _ m
  show (b.toNat : Int) ≠ -1
  omega

/-- `print` passes the bytes at the pointer to the sink, in order. -/
theorem print_eq (put : Sink) (l : List UInt8) (hl : Sink.Accepts put l) :
    ∀ (before after : Object UInt8) (p : Nat) (o : Out), p = before.length →
      print put (before ++ (l.map some ++ after)) p l.length o
        = some (true, o.pushAll put l) := by
  induction l with
  | nil => intro before after p o _; rfl
  | cons b l ih =>
    intro before after p o hp
    have hload := Object.load_append before (l.map some ++ after) b hp
    have hb : (put b o.mach).1 ≠ EOF := hl b (by simp) o.mach
    have hrec := ih (fun b' hb' => hl b' (by simp [hb'])) (before ++ [some b]) after (p + 1)
      (o.push put b) (by simp [hp])
    rw [List.append_assoc, List.singleton_append] at hrec
    rw [List.map_cons, List.cons_append, List.length_cons, print, hload]
    simp only [Option.bind_eq_bind, Option.bind_some, hb, if_false]
    exact hrec

/-- The first bytes of a text, up to one for which the sink returns `EOF`. -/
def Sink.Refuses (put : Sink) (l taken : List UInt8) : Prop :=
  ∃ l₁ b l₂, l = l₁ ++ b :: l₂ ∧ taken = l₁ ++ [b] ∧ put.Accepts l₁ ∧ ∀ m, (put b m).1 = EOF

/-- Behind such a byte `print` stops. -/
theorem print_refused (put : Sink) {l taken : List UInt8} (hl : put.Refuses l taken)
    (before after : Object UInt8) (p : Nat) (o : Out) (hp : p = before.length) :
    print put (before ++ (l.map some ++ after)) p l.length o
      = some (false, o.pushAll put taken) := by
  rcases hl with ⟨l₁, b, l₂, rfl, rfl, haccepts, hb⟩
  induction l₁ generalizing before p o with
  | nil =>
    have hload := Object.load_append before (l₂.map some ++ after) b hp
    rw [List.nil_append, List.map_cons, List.cons_append, List.length_cons, print, hload]
    simp only [Option.bind_eq_bind, Option.bind_some, hb, if_true]
    rfl
  | cons a l₁ ih =>
    have hload := Object.load_append before ((l₁ ++ b :: l₂).map some ++ after) a hp
    have ha : (put a o.mach).1 ≠ EOF := haccepts a (by simp) o.mach
    have hrest := ih (before ++ [some a]) (p + 1) (o.push put a) (by simp [hp])
      (fun b' hb' => haccepts b' (by simp [hb']))
    rw [List.append_assoc, List.singleton_append] at hrest
    rw [List.cons_append, List.map_cons, List.cons_append, List.length_cons, print, hload]
    simp only [Option.bind_eq_bind, Option.bind_some, ha, if_false]
    exact hrest

/-- What the sink writes to the serial port for a byte. -/
def Sink.WritesSerial (put : Sink) (f : UInt8 → List UInt8) : Prop :=
  ∀ b m, (put b m).2.com1 = m.com1 ++ f b

/-- `serial_writec` writes the byte. -/
theorem serialSink_writesSerial : Sink.WritesSerial serialSink fun b => [b] := fun _ _ => rfl

/-- The serial port after a sequence of bytes. -/
theorem com1_pushAll {put : Sink} {f : UInt8 → List UInt8} (hput : put.WritesSerial f)
    (l : List UInt8) : ∀ o : Out, (o.pushAll put l).mach.com1 = o.mach.com1 ++ l.flatMap f := by
  induction l with
  | nil => intro o; simp [Out.pushAll]
  | cons b l ih =>
    intro o
    show ((o.push put b).pushAll put l).mach.com1 = _
    rw [ih, Out.push, hput b o.mach, List.flatMap_cons, List.append_assoc]

/-- The bytes passed to the sink are recorded. -/
theorem sent_pushAll (put : Sink) (l : List UInt8) :
    ∀ o : Out, (o.pushAll put l).sent = o.sent ++ l := by
  induction l with
  | nil => intro o; simp [Out.pushAll]
  | cons b l ih =>
    intro o
    show ((o.push put b).pushAll put l).sent = _
    rw [ih]
    simp [Out.push]

/-! ### The port accesses -/

namespace Debug

open Lib.PortIo

/-- COM1. -/
def PORT : UInt16 := 0x3f8

section
variable {ν : Type}

/-- `serial_initialise`. -/
def serialInitialise : Prog ν Unit := do
  outb (PORT + 1) 0x00
  outb (PORT + 3) 0x80
  outb (PORT + 0) 0x03
  outb (PORT + 1) 0x00
  outb (PORT + 3) 0x03
  outb (PORT + 2) 0xC7
  outb (PORT + 4) 0x0B
  outb (PORT + 4) 0

/-- `serial_writec`. -/
def serialWritec (c : UInt8) : Prog ν UInt8 := do
  let _ ← doWhile (fun status => status &&& 0x20 = 0) (inb (PORT + 5))
  outb PORT c
  return c

/-- `serial_writes`, on the bytes before the terminator. -/
def serialWrites : List UInt8 → Prog ν Unit
  | [] => pure ()
  | c :: s => do
    let _ ← serialWritec c
    serialWrites s

end
end Debug
end Chuckles
