import Chuckles.Lib.Object

/-!
# `Chuckles.Libc.String`: NUL-terminated strings

The string routines of `libc/string`, over memory objects of bytes.

* `CString`: the bytes of a C string before its NUL, none of them NUL. `CString.object`
  is the object of exactly these bytes and the NUL, so an access past the NUL has no
  result.
* `strlen` counts up to the NUL. `strlen_eq` is its specification.
* `strrev` reverses a string in place with three exclusive-ors per pair of bytes, and
  reports what it does on the serial port. `strrev_eq` and `strrev_nil` are its
  specification.
-/

set_option autoImplicit false

namespace Chuckles

open Lib

/-- The bytes of a string literal of ASCII characters. -/
def ascii (s : String) : List UInt8 := s.toList.map Char.toUInt8

/-- The bytes of a list that does not contain a byte are all different from it. -/
theorem forall_ne_of_not_mem {l : List UInt8} {c : UInt8} (h : c ∉ l) : ∀ b ∈ l, b ≠ c :=
  fun _ hb => ne_of_mem_of_not_mem hb h

/-- A NUL-terminated string: the bytes before the NUL. -/
structure CString where
  bytes : List UInt8
  nonzero : ∀ b ∈ bytes, b ≠ 0

/-- The memory of a string: its bytes, the NUL, and no cell after it. -/
def CString.object (s : CString) : Object UInt8 := s.bytes.map some ++ [some 0]

/-! ### `strlen` -/

/-- `while (str[len]) len++;`. The first argument is the number of bytes the object has
left at `str + len`, and one more. A load outside the object stops the loop before it is
used up. -/
def strlenLoop (o : Object UInt8) (str : Nat) : Nat → Nat → Option Nat
  | 0, _ => none
  | room + 1, len => do
    let c ← o.load (str + len)
    if c ≠ 0 then strlenLoop o str room (len + 1) else some len

/-- `strlen`. -/
def strlen (o : Object UInt8) (str : Nat) : Option Nat :=
  strlenLoop o str (o.length + 1) 0

/-- The loop counts the bytes up to the NUL. -/
theorem strlenLoop_eq (l : List UInt8) (hl : ∀ b ∈ l, b ≠ 0) :
    ∀ (before : Object UInt8) (rest : Object UInt8) (str len room : Nat),
      before.length = str + len → l.length < room →
      strlenLoop (before ++ (l.map some ++ some 0 :: rest)) str room len
        = some (len + l.length) := by
  induction l with
  | nil =>
    intro before rest str len room hstr hroom
    obtain ⟨room, rfl⟩ : ∃ k, room = k + 1 := ⟨room - 1, by simp at hroom; omega⟩
    simp only [strlenLoop, List.map_nil, List.nil_append, Object.load_append _ _ _ hstr.symm]
    rfl
  | cons b l ih =>
    intro before rest str len room hstr hroom
    obtain ⟨room, rfl⟩ : ∃ k, room = k + 1 := ⟨room - 1, by simp at hroom; omega⟩
    have hb : b ≠ 0 := hl b (by simp)
    have hrec := ih (fun b' hb' => hl b' (by simp [hb'])) (before ++ [some b]) rest str (len + 1)
      room (by simp; omega) (by simpa using hroom)
    simp only [List.append_assoc, List.singleton_append] at hrec
    simp only [strlenLoop, List.map_cons, List.cons_append,
      Object.load_append _ _ _ hstr.symm, Option.bind_eq_bind, Option.bind_some, ne_eq, hb,
      not_false_eq_true, if_true]
    rw [hrec, List.length_cons]
    congr 1
    omega

/-- `strlen` of a string inside an object is the number of its bytes. -/
theorem strlen_eq (before after : Object UInt8) (l : List UInt8) (hl : ∀ b ∈ l, b ≠ 0)
    {str : Nat} (hstr : str = before.length) :
    strlen (before ++ (l.map some ++ some 0 :: after)) str = some l.length := by
  have h := strlenLoop_eq l hl before after str 0
    ((before ++ (l.map some ++ some 0 :: after)).length + 1) (by simp [hstr]) (by simp; omega)
  rwa [Nat.zero_add] at h

/-- `strlen` of a string from an offset inside it. -/
theorem strlen_object_drop (s : CString) (pre rest : List UInt8) (hs : s.bytes = pre ++ rest)
    {str : Nat} (hstr : str = pre.length) : strlen s.object str = some rest.length := by
  have hrest : ∀ b ∈ rest, b ≠ 0 := fun b hb => s.nonzero b (by simp [hs, hb])
  have h := strlen_eq (pre.map some) [] rest hrest (by simpa using hstr)
  rwa [← List.append_assoc, ← List.map_append, ← hs] at h

/-- `strlen` of a string. -/
theorem strlen_object (s : CString) : strlen s.object 0 = some s.bytes.length :=
  strlen_object_drop s [] s.bytes rfl rfl

/-! ### `strrev` -/

/-- `*p ^= *q`. -/
def xorInto (o : Object UInt8) (p q : Nat) : Option (Object UInt8) := do
  let x ← o.load p
  let y ← o.load q
  o.store p (x ^^^ y)

/-- The loop of `strrev`: the object, and the bytes written to the serial port. The first
argument bounds the number of passes. A pass moves the pointers two cells closer, so the
size of the object is enough. -/
def strrevLoop : Nat → Object UInt8 → Nat → Nat → Option (Object UInt8 × List UInt8)
  | 0, o, p1, p2 => if p2 > p1 then none else some (o, [])
  | n + 1, o, p1, p2 =>
    if p2 > p1 then do
      let a ← o.load p1
      let b ← o.load p2
      let o ← xorInto o p1 p2
      let o ← xorInto o p2 p1
      let o ← xorInto o p1 p2
      let (o, out) ← strrevLoop n o (p1 + 1) (p2 - 1)
      some (o, [a, b, '\n'.toUInt8] ++ out)
    else some (o, [])

/-- `strrev` on a string in an object: the returned pointer, the reversed object and the bytes
written to the serial port. A null pointer is `none`. -/
def strrev (o : Object UInt8) : Option Nat → Option (Option Nat × Object UInt8 × List UInt8)
  | none => some (none, o, ascii "!str || !*str")
  | some str => do
    let c ← o.load str
    if c = 0 then some (some str, o, ascii "!str || !*str")
    else do
      let n ← strlen o str
      let (o, out) ← strrevLoop o.length o str (str + n - 1)
      some (some str, o, ascii "12\n" ++ out)

/-- An exclusive-or with another cell, at two split points. The first pointer is the
earlier cell. -/
theorem xorInto_left (before mid after : Object UInt8) (a b : UInt8) {p q : Nat}
    (hp : p = before.length) (hq : q = before.length + 1 + mid.length) :
    xorInto (before ++ some a :: (mid ++ some b :: after)) p q
      = some (before ++ some (a ^^^ b) :: (mid ++ some b :: after)) := by
  have hload : Object.load (before ++ some a :: (mid ++ some b :: after)) q = some b := by
    have h := Object.load_append (before ++ some a :: mid) after b (a := q) (by simp; omega)
    simpa using h
  simp only [xorInto, Object.load_append _ _ _ hp, hload, Option.bind_eq_bind,
    Option.bind_some, Object.store_append _ _ _ _ hp]

/-- The same with the later cell as the first pointer. -/
theorem xorInto_right (before mid after : Object UInt8) (a b : UInt8) {p q : Nat}
    (hp : p = before.length) (hq : q = before.length + 1 + mid.length) :
    xorInto (before ++ some a :: (mid ++ some b :: after)) q p
      = some (before ++ some a :: (mid ++ some (b ^^^ a) :: after)) := by
  have hq' : q = (before ++ some a :: mid).length := by simp; omega
  have hload := Object.load_append (before ++ some a :: mid) after b hq'
  have hstore := Object.store_append (before ++ some a :: mid) after (some b) (b ^^^ a) hq'
  simp only [List.append_assoc, List.cons_append] at hload hstore
  simp only [xorInto, Object.load_append _ _ _ hp, hload, Option.bind_eq_bind,
    Option.bind_some, hstore]

/-- Three exclusive-ors exchange two cells. -/
theorem xor_exchange (a b : UInt8) :
    (a ^^^ b) ^^^ (b ^^^ (a ^^^ b)) = b ∧ b ^^^ (a ^^^ b) = a := by
  have h : b ^^^ (a ^^^ b) = a := by
    rw [UInt8.xor_comm a b, ← UInt8.xor_assoc, UInt8.xor_self, UInt8.zero_xor]
  refine ⟨?_, h⟩
  rw [h, UInt8.xor_comm, ← UInt8.xor_assoc, UInt8.xor_self, UInt8.zero_xor]

/-- The loop reverses the string between the two pointers, and reports its bytes, with
newlines. The induction takes one byte off both ends, as a pass does. -/
theorem strrevLoop_eq (l : List UInt8) :
    ∀ (n : Nat) (before after : Object UInt8), l.length ≤ n →
      ∃ out, strrevLoop n (before ++ (l.map some ++ after)) before.length
          (before.length + l.length - 1)
        = some (before ++ (l.reverse.map some ++ after), out) ∧
        ∀ c ∈ out, c ∈ l ∨ c = '\n'.toUInt8 := by
  induction l using List.bidirectionalRec with
  | nil =>
    intro n before after _
    refine ⟨[], ?_, fun c hc => absurd hc List.not_mem_nil⟩
    have hle : ¬ before.length + ([] : List UInt8).length - 1 > before.length := by
      simp
    cases n <;> simp only [strrevLoop, if_neg hle] <;> rfl
  | singleton a =>
    intro n before after _
    refine ⟨[], ?_, fun c hc => absurd hc List.not_mem_nil⟩
    have hle : ¬ before.length + [a].length - 1 > before.length := by simp
    cases n <;> simp only [strrevLoop, if_neg hle] <;> rfl
  | cons_append a l b ih =>
    intro n before after hn
    obtain ⟨n, rfl⟩ : ∃ k, n = k + 1 := ⟨n - 1, by simp at hn; omega⟩
    obtain ⟨out, hrec, hout⟩ := ih n (before ++ [some b]) (some a :: after)
      (by simp at hn; omega)
    -- A pass reports the two ends.
    have hreport : ∀ c ∈ [a, b, '\n'.toUInt8] ++ out, c ∈ a :: (l ++ [b]) ∨ c = '\n'.toUInt8 := by
      intro c hc
      have hmem := hout c
      simp only [List.cons_append, List.nil_append, List.mem_cons, List.mem_append] at hc ⊢
      tauto
    refine ⟨[a, b, '\n'.toUInt8] ++ out, ?_, hreport⟩
    have hp2 : before.length + (a :: (l ++ [b])).length - 1
        = before.length + 1 + (l.map some).length := by
      simp
      omega
    have hsplit : (a :: (l ++ [b])).map some ++ after
        = some a :: (l.map some ++ some b :: after) := by
      simp
    have hload1 := Object.load_append before (l.map some ++ some b :: after) a rfl
    have hload2 := Object.load_append (before ++ some a :: l.map some) after b
      (a := before.length + 1 + (l.map some).length) (by simp; omega)
    simp only [List.append_assoc, List.cons_append] at hload2
    have hgt : before.length + 1 + (l.map some).length > before.length := by omega
    rw [hsplit, hp2, strrevLoop, if_pos hgt]
    simp only [hload1, hload2, Option.bind_eq_bind, Option.bind_some,
      xorInto_left before (l.map some) after _ _ rfl rfl,
      xorInto_right before (l.map some) after _ _ rfl rfl]
    rw [(xor_exchange a b).1, (xor_exchange a b).2]
    have hlen : (before ++ [some b]).length = before.length + 1 := by simp
    have hpred : before.length + 1 + (l.map some).length - 1
        = before.length + 1 + l.length - 1 := by
      simp
    rw [hlen] at hrec
    simp only [List.append_assoc, List.singleton_append] at hrec
    rw [hpred, hrec]
    simp

/-- `strrev` reverses a nonempty string in place and returns its argument. No other cell changes,
and `strrev` reports the bytes of the string on the serial port, with newlines. -/
theorem strrev_eq (before after : Object UInt8) (l : List UInt8) (hl : ∀ b ∈ l, b ≠ 0)
    (hne : l ≠ []) {str : Nat} (hstr : str = before.length) :
    ∃ out, strrev (before ++ (l.map some ++ some 0 :: after)) (some str)
      = some (some str, before ++ (l.reverse.map some ++ some 0 :: after),
          ascii "12\n" ++ out) ∧
      ∀ c ∈ out, c ∈ l ∨ c = '\n'.toUInt8 := by
  subst hstr
  obtain ⟨b, l', rfl⟩ := List.exists_cons_of_ne_nil hne
  have hb : b ≠ 0 := hl b (by simp)
  have hload := Object.load_append before (l'.map some ++ some 0 :: after) b rfl
  obtain ⟨out, hloop, hout⟩ := strrevLoop_eq (b :: l')
    (before ++ ((b :: l').map some ++ some 0 :: after)).length before (some 0 :: after)
    (by simp; omega)
  refine ⟨out, ?_, hout⟩
  have hlen := strlen_eq before after (b :: l') hl rfl
  rw [List.map_cons, List.cons_append] at hlen hloop ⊢
  simp only [strrev, hload, Option.bind_eq_bind, Option.bind_some, hb, if_false, hlen, hloop]

/-- `strrev` of the empty string changes nothing. -/
theorem strrev_nil (before after : Object UInt8) {str : Nat} (hstr : str = before.length) :
    strrev (before ++ some 0 :: after) (some str)
      = some (some str, before ++ some 0 :: after, ascii "!str || !*str") := by
  simp [strrev, Object.load_append _ _ _ hstr]

end Chuckles
