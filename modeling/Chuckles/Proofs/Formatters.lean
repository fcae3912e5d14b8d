import Chuckles.Proofs.Printf

/-!
# `Chuckles.Proofs.Formatters`: `serial_printf` against `printf`

The two formatters are copies of each other, over two sinks. `putchar` returns an
`unsigned char` value, but `serial_writec` returns its argument as a signed `char`, which is
`EOF` for the byte 0xFF. And `strrev`, which `%x` calls in both, reports on the serial port.

`putOut` is a reference for both: what a format puts out piece by piece, up to the first piece
that `written` has no room for. `Agree` says that `serial_printf` writes to the port what
`printf` passes to `putchar`, and that both return the same value.

* `printf_putOut`: `printf` puts out the reference.
* `serial_putOut`: `serial_printf` stops at the first byte 0xFF of it, and reports each `%x`
  before this byte.
* `formatters_agree_iff`: when the two agree.
* `agree_iff_of_le`: the same for a text of at most `INT_MAX` bytes.
-/

set_option autoImplicit false

namespace Chuckles.Proofs

open Lib Lib.Loop

/-- The two formatters agree on a format and its arguments. -/
def Agree (fmt : CString) (args : List Arg) (m : Machine) : Prop :=
  ∃ r r', printf fmt args m = .exit r ∧ serialPrintf fmt args m = .exit r' ∧
    r'.out.mach.com1 = m.com1 ++ r.out.sent ∧ r'.ret = r.ret

/-! ### The reference -/

/-- What is put out of a format: the text, whether there is a `%x` before the first byte 0xFF
of it, and the returned value. -/
structure PutOut where
  text : List UInt8
  hex : Bool
  ret : Int

instance (p : Piece) (written : Int) : Decidable (p.Fits written) :=
  inferInstanceAs (Decidable (_ → _))

/-- A piece in front of what is put out behind it. -/
def PutOut.cons (p : Piece) (after : PutOut) : PutOut where
  text := p.text ++ after.text
  hex := p.reports || (0xFF ∉ p.text && after.hex)
  ret := after.ret

/-- What is put out of a format with its arguments, in at most `n` pieces, when `written` bytes
have been before. A piece without room ends it. -/
def putOut : Nat → List UInt8 → List Arg → Int → PutOut
  | 0, _, _, written => ⟨[], false, written⟩
  | n + 1, fmt, args, written =>
    match refPiece fmt args with
    | none => ⟨[], false, written⟩
    | some (p, rest) =>
      if p.Fits written then .cons p (putOut n rest p.args (wrapInt (written + p.text.length)))
      else ⟨[], false, -1⟩

/-- What a whole format puts out. -/
def putOutAll (fmt : CString) (args : List Arg) : PutOut :=
  putOut (fmt.bytes.length + 1) fmt.bytes args 0

/-- The text before its first byte 0xFF. -/
def beforeEof (l : List UInt8) : List UInt8 := l.takeWhile (· ≠ 0xFF)

/-- The outputs on which the formatters agree. No `%x` comes before the first byte 0xFF. When
there is such a byte it is the last one, and `printf` returns -1 as well. -/
structure Plain (o : PutOut) : Prop where
  hex : o.hex = false
  eof : 0xFF ∈ o.text → o.text = beforeEof o.text ++ [0xFF] ∧ o.ret = -1

section
variable {fmt : CString} {pre rest : List UInt8} {args argsLeft : List Arg} {text : List UInt8}
  {p : Piece} {used rest' out : List UInt8}

/-- A piece that fits. -/
theorem putOut_of_fits (hnext : NextPiece fmt pre rest args text argsLeft p used rest' out)
    {written : Int} (hfits : p.Fits written) (n : Nat) :
    putOut (n + 1) rest args written
      = .cons p (putOut n rest' p.args (wrapInt (written + p.text.length))) := by
  rw [putOut, hnext.piece]
  exact if_pos hfits

/-- A piece without room. -/
theorem putOut_of_not_fits (hnext : NextPiece fmt pre rest args text argsLeft p used rest' out)
    {written : Int} (hfits : ¬p.Fits written) (n : Nat) :
    putOut (n + 1) rest args written = ⟨[], false, -1⟩ := by
  rw [putOut, hnext.piece]
  exact if_neg hfits

/-- The format behind a piece is shorter. -/
theorem length_rest_lt (hnext : NextPiece fmt pre rest args text argsLeft p used rest' out)
    {n : Nat} (hlen : rest.length < n + 1) : rest'.length < n := by
  have hused := List.length_pos_iff.mpr hnext.moves
  rw [hnext.split, List.length_append] at hlen
  omega

end

/-! ### `printf` -/

/-- `printf` puts out the reference. The induction is on the number of passes. -/
theorem printf_putOut {fmt : CString} {argsLeft : List Arg} (n : Nat) :
    ∀ (pre rest text : List UInt8) (s : FmtState),
      fmt.bytes = pre ++ rest → s.format = pre.length →
      refFormat rest s.args = some (text, argsLeft) → rest.length < n →
      ∃ r, passes (formatPass putcharSink fmt) n s = .exit r ∧
        r.out.sent = s.out.sent ++ (putOut n rest s.args s.written).text ∧
        r.ret = (putOut n rest s.args s.written).ret := by
  induction n with
  | zero =>
    intro pre rest text s _ _ _ hlen
    exact absurd hlen (Nat.not_lt_zero _)
  | succ n ih =>
    intro pre rest text s hfmt hformat href hlen
    by_cases hrest : rest = []
    · -- The end of the format.
      subst hrest
      have hend : s.format = fmt.bytes.length := by rw [hformat, hfmt, List.append_nil]
      exact ⟨_, passes_succ_of_exit n (formatPass_end _ hend), (List.append_nil _).symm, rfl⟩
    · obtain ⟨p, used, rest', out, hnext⟩ := exists_nextPiece hfmt hrest href
      have hpass := hnext.passes putcharSink s hformat rfl
      by_cases hfits : p.Fits s.written
      · rw [putOut_of_fits hnext hfits]
        rcases hpass.accepted hfits (putcharSink_accepts _) with ⟨out', hagain, hsends⟩
        rcases ih (pre ++ used) rest' out ⟨_, _, p.args, out'⟩
          (by rw [hfmt, hnext.split, List.append_assoc]) rfl hnext.ref
          (length_rest_lt hnext hlen) with ⟨r, hexit, hsent, hret⟩
        refine ⟨r, (passes_succ_of_again n (formatPass_eq hagain)).trans hexit, ?_, hret⟩
        rw [hsent, hsends.sent, List.append_assoc]
        rfl
      · rw [putOut_of_not_fits hnext hfits]
        exact ⟨_, passes_succ_of_exit n (formatPass_eq (hpass.overflow hfits)),
          (List.append_nil _).symm, rfl⟩

/-! ### The serial port as a sink -/

/-- `serial_writec` returns `EOF` for the byte 0xFF only. -/
theorem serialSink_eof_iff (b : UInt8) (m : Machine) : (serialSink b m).1 = EOF ↔ b = 0xFF := by
  show b.toInt8.toInt = -1 ↔ b = 0xFF
  constructor
  · intro h
    have hinj : b.toInt8 = (0xFF : UInt8).toInt8 := Int8.toInt_inj.mp h
    exact congrArg Int8.toUInt8 hinj
  · rintro rfl
    rfl

/-- A text without this byte is taken. -/
theorem serialSink_accepts {l : List UInt8} (hl : 0xFF ∉ l) : Sink.Accepts serialSink l := by
  intro b hb m heof
  rw [serialSink_eof_iff] at heof
  exact hl (heof ▸ hb)

/-- Text without the byte 0xFF, in front of other text. -/
theorem beforeEof_append {l : List UInt8} (hl : 0xFF ∉ l) (l' : List UInt8) :
    beforeEof (l ++ l') = l ++ beforeEof l' :=
  List.takeWhile_append_of_pos fun b hb => decide_eq_true fun (h : b = 0xFF) => hl (h ▸ hb)

/-- A text without this byte is all before it. -/
theorem beforeEof_eq_self {l : List UInt8} (hl : 0xFF ∉ l) : beforeEof l = l := by
  have happend := beforeEof_append hl []
  rw [List.append_nil] at happend
  exact happend.trans (List.append_nil l)

/-- A text with this byte, split at the first one. -/
theorem eq_beforeEof_append {l : List UInt8} (hl : 0xFF ∈ l) :
    0xFF ∉ beforeEof l ∧ (∃ l', l = beforeEof l ++ 0xFF :: l') ∧
      ∀ l', beforeEof (l ++ l') = beforeEof l := by
  rcases List.eq_append_cons_of_mem hl with ⟨l₁, l₂, rfl, hfirst⟩
  have hbefore (l' : List UInt8) : beforeEof (l₁ ++ 0xFF :: l') = l₁ := by
    rw [beforeEof_append hfirst]
    exact List.append_nil l₁
  refine ⟨by rwa [hbefore], ⟨l₂, by rw [hbefore]⟩, fun l' => ?_⟩
  rw [List.append_assoc, List.cons_append, hbefore, hbefore]

/-- A text with this byte is taken up to the first one. -/
theorem serialSink_refuses {l : List UInt8} (hl : 0xFF ∈ l) :
    Sink.Refuses serialSink l (beforeEof l ++ [0xFF]) := by
  rcases eq_beforeEof_append hl with ⟨hfirst, ⟨l', hsplit⟩, -⟩
  exact ⟨beforeEof l, 0xFF, l', hsplit, rfl, serialSink_accepts hfirst,
    fun m => (serialSink_eof_iff _ m).mpr rfl⟩

/-- What `serial_printf` writes to the port, and what it returns: the text before the first
byte 0xFF, with something more for each `%x` in it, and this byte. It ends the run with -1. -/
def OnPort (o : PutOut) (port : List UInt8) (ret : Int) : Prop :=
  ∃ l, port = l ++ (if 0xFF ∈ o.text then [0xFF] else []) ∧ 0xFF ∉ l ∧
    (o.hex = false → l = beforeEof o.text) ∧
    (o.hex = true → (beforeEof o.text).length < l.length) ∧
    ret = if 0xFF ∈ o.text then -1 else o.ret

/-- Nothing is put out any more. -/
theorem onPort_nil (ret : Int) : OnPort ⟨[], false, ret⟩ [] ret :=
  ⟨[], rfl, List.not_mem_nil, fun _ => rfl, fun h => absurd h Bool.false_ne_true, rfl⟩

section
variable {p : Piece} {report : List UInt8} (hreport : report = [] ↔ p.reports = false)
  (heof : 0xFF ∉ report)
include hreport heof

/-- The run ends in the piece. -/
theorem onPort_refused (hbyte : 0xFF ∈ p.text) (after : PutOut) :
    OnPort (.cons p after) (report ++ (beforeEof p.text ++ [0xFF])) (-1) := by
  rcases eq_beforeEof_append hbyte with ⟨hfirst, -, hbefore⟩
  have hmem : 0xFF ∈ (PutOut.cons p after).text := List.mem_append_left _ hbyte
  have htext : beforeEof (PutOut.cons p after).text = beforeEof p.text := hbefore after.text
  have hhex : (PutOut.cons p after).hex = p.reports := by
    show (p.reports || (decide (0xFF ∉ p.text) && after.hex)) = p.reports
    rw [decide_eq_false (not_not_intro hbyte), Bool.false_and, Bool.or_false]
  refine ⟨report ++ beforeEof p.text, ?_, ?_, fun h => ?_, fun h => ?_, (if_pos hmem).symm⟩
  · rw [if_pos hmem, List.append_assoc]
  · rw [List.mem_append, not_or]
    exact ⟨heof, hfirst⟩
  · rw [htext, hreport.mpr (hhex.symm.trans h), List.nil_append]
  · have hne : report ≠ [] := fun hnil => by
      rw [hhex, hreport.mp hnil] at h
      cases h
    have hpos := List.length_pos_iff.mpr hne
    rw [htext, List.length_append]
    omega

/-- The run goes on behind the piece. -/
theorem OnPort.cons (hbyte : 0xFF ∉ p.text) {after : PutOut} {port : List UInt8} {ret : Int}
    (h : OnPort after port ret) : OnPort (.cons p after) (report ++ p.text ++ port) ret := by
  rcases h with ⟨l, hport, hl, hplain, hmore, hret⟩
  have hmem : 0xFF ∈ (PutOut.cons p after).text ↔ 0xFF ∈ after.text := by
    show 0xFF ∈ p.text ++ after.text ↔ _
    rw [List.mem_append]
    exact ⟨fun h => h.resolve_left hbyte, Or.inr⟩
  have htext : beforeEof (PutOut.cons p after).text = p.text ++ beforeEof after.text :=
    beforeEof_append hbyte after.text
  have hhex : (PutOut.cons p after).hex = (p.reports || after.hex) := by
    show (p.reports || (decide (0xFF ∉ p.text) && after.hex)) = _
    rw [decide_eq_true hbyte, Bool.true_and]
  refine ⟨report ++ p.text ++ l, ?_, ?_, fun h => ?_, fun h => ?_, ?_⟩
  · rw [if_congr hmem rfl rfl, hport]
    exact (List.append_assoc _ l _).symm
  · rw [List.mem_append, List.mem_append, not_or, not_or]
    exact ⟨⟨heof, hbyte⟩, hl⟩
  · rw [hhex, Bool.or_eq_false_iff] at h
    rw [htext, hreport.mpr h.1, hplain h.2, List.nil_append]
  · -- The report of this piece, or what the rest has more.
    rw [htext, List.length_append, List.length_append, List.length_append]
    cases hafter : after.hex with
    | true =>
      have hlt := hmore hafter
      omega
    | false =>
      rw [hhex, hafter, Bool.or_false] at h
      have hne : report ≠ [] := fun hnil => by
        rw [hreport.mp hnil] at h
        cases h
      have hpos := List.length_pos_iff.mpr hne
      rw [hplain hafter]
      omega
  · rw [if_congr hmem rfl rfl, hret]
    rfl

end

/-- `serial_printf` against the reference. The induction is on the number of passes. -/
theorem serial_putOut {fmt : CString} {argsLeft : List Arg} (n : Nat) :
    ∀ (pre rest text : List UInt8) (s : FmtState),
      fmt.bytes = pre ++ rest → s.format = pre.length →
      refFormat rest s.args = some (text, argsLeft) → rest.length < n →
      ∃ r port, passes (formatPass serialSink fmt) n s = .exit r ∧
        r.out.mach.com1 = s.out.mach.com1 ++ port ∧
        OnPort (putOut n rest s.args s.written) port r.ret := by
  induction n with
  | zero =>
    intro pre rest text s _ _ _ hlen
    exact absurd hlen (Nat.not_lt_zero _)
  | succ n ih =>
    intro pre rest text s hfmt hformat href hlen
    by_cases hrest : rest = []
    · -- The end of the format.
      subst hrest
      have hend : s.format = fmt.bytes.length := by rw [hformat, hfmt, List.append_nil]
      exact ⟨_, [], passes_succ_of_exit n (formatPass_end _ hend), (List.append_nil _).symm,
        onPort_nil s.written⟩
    · obtain ⟨p, used, rest', out, hnext⟩ := exists_nextPiece hfmt hrest href
      have hpass := hnext.passes serialSink s hformat rfl
      by_cases hfits : p.Fits s.written
      · rw [putOut_of_fits hnext hfits]
        by_cases hbyte : 0xFF ∈ p.text
        · -- The run ends in this piece.
          rcases hpass.refused hfits _ (serialSink_refuses hbyte) with
            ⟨out', hexit, -, report, hreport, heof, hport⟩
          refine ⟨_, _, passes_succ_of_exit n (formatPass_eq hexit),
            hport _ serialSink_writesSerial, ?_⟩
          rw [List.flatMap_singleton']
          exact onPort_refused hreport heof hbyte _
        · have haccepts := serialSink_accepts hbyte
          rcases hpass.accepted hfits haccepts with ⟨out', hagain, -⟩
          rcases hpass.serial hfits haccepts _ hagain with ⟨report, hreport, heof, hport⟩
          have hbytes : out'.mach.com1 = _ := hport _ serialSink_writesSerial
          rcases ih (pre ++ used) rest' out ⟨_, _, p.args, out'⟩
            (by rw [hfmt, hnext.split, List.append_assoc]) rfl hnext.ref
            (length_rest_lt hnext hlen) with ⟨r, port, hexit, hcom1, honPort⟩
          refine ⟨r, report ++ p.text ++ port,
            (passes_succ_of_again n (formatPass_eq hagain)).trans hexit, ?_,
            honPort.cons hreport heof hbyte⟩
          rw [hcom1, hbytes, List.flatMap_singleton', List.append_assoc, List.append_assoc]
      · rw [putOut_of_not_fits hnext hfits]
        exact ⟨_, [], passes_succ_of_exit n (formatPass_eq (hpass.overflow hfits)),
          (List.append_nil _).symm, onPort_nil (-1)⟩

/-! ### The result -/

/-- The port has the text, and both values are the same, exactly for a plain output. -/
theorem OnPort.eq_iff {o : PutOut} {port : List UInt8} {ret : Int} (h : OnPort o port ret) :
    port = o.text ∧ ret = o.ret ↔ Plain o := by
  rcases h with ⟨l, rfl, hl, hplain, hmore, rfl⟩
  by_cases hmem : 0xFF ∈ o.text
  · rw [if_pos hmem, if_pos hmem]
    constructor
    · rintro ⟨htext, hret⟩
      have hbefore : beforeEof o.text = l := by
        rw [← htext, beforeEof_append hl]
        exact List.append_nil l
      refine ⟨?_, fun _ => ⟨by rw [hbefore, htext], hret.symm⟩⟩
      refine Bool.eq_false_iff.mpr fun hhex => ?_
      have hlt := hmore hhex
      rw [hbefore] at hlt
      exact absurd hlt (Nat.lt_irrefl _)
    · intro h
      rcases h.eof hmem with ⟨htext, hret⟩
      rw [hplain h.hex]
      exact ⟨htext.symm, hret.symm⟩
  · rw [if_neg hmem, if_neg hmem, List.append_nil]
    rw [beforeEof_eq_self hmem] at hplain hmore
    constructor
    · rintro ⟨rfl, -⟩
      exact ⟨Bool.eq_false_iff.mpr fun hhex => absurd (hmore hhex) (Nat.lt_irrefl _),
        fun h => absurd h hmem⟩
    · exact fun h => ⟨hplain h.hex, rfl⟩

/-- The formatters agree when what `serial_printf` makes of the reference is the reference. -/
theorem agree_iff {fmt : CString} {args argsLeft : List Arg} {text : List UInt8} (m : Machine)
    (hmatch : refFormat fmt.bytes args = some (text, argsLeft)) :
    ∃ port ret, OnPort (putOutAll fmt args) port ret ∧
      (Agree fmt args m ↔ port = (putOutAll fmt args).text ∧ ret = (putOutAll fmt args).ret) := by
  rcases printf_putOut (fmt.bytes.length + 1) [] fmt.bytes text ⟨0, 0, args, ⟨m, []⟩⟩
    (List.nil_append _).symm rfl hmatch (Nat.lt_succ_self _) with ⟨r, hexit, hsent, hret⟩
  rcases serial_putOut (fmt.bytes.length + 1) [] fmt.bytes text ⟨0, 0, args, ⟨m, []⟩⟩
    (List.nil_append _).symm rfl hmatch (Nat.lt_succ_self _) with
    ⟨r', port, hexit', hcom1, honPort⟩
  have hsent : r.out.sent = (putOutAll fmt args).text := hsent
  refine ⟨port, r'.ret, honPort, ?_⟩
  constructor
  · rintro ⟨r₁, r₁', hprintf, hserial, hport, hrets⟩
    -- The two runs of the definition are the ones above.
    rw [show printf fmt args m = _ from hexit] at hprintf
    rw [show serialPrintf fmt args m = _ from hexit'] at hserial
    cases hprintf
    cases hserial
    rw [hcom1, hsent, List.append_cancel_left_eq] at hport
    exact ⟨hport, hrets.trans hret⟩
  · rintro ⟨hport, hrets⟩
    refine ⟨r, r', hexit, hexit', ?_, hrets.trans hret.symm⟩
    rw [hcom1, hsent, hport]

/-- **The two formatters agree exactly when the output is plain**: no `%x` is reached, and no
byte 0xFF, but one at the very end of an output that overflows. -/
theorem formatters_agree_iff (fmt : CString) (args argsLeft : List Arg) (m : Machine)
    (text : List UInt8) (hmatch : refFormat fmt.bytes args = some (text, argsLeft)) :
    Agree fmt args m ↔ Plain (putOutAll fmt args) := by
  rcases agree_iff m hmatch with ⟨port, ret, honPort, hagree⟩
  rw [hagree, honPort.eq_iff]

/-- The result for a decimal conversion. -/
theorem formatters_agree_iff_decimal :
    Agree ⟨ascii "n=%d", forall_ne_of_not_mem (by decide)⟩ [.int (-40)] Machine.boot ↔
      Plain (putOutAll ⟨ascii "n=%d", forall_ne_of_not_mem (by decide)⟩ [.int (-40)]) :=
  formatters_agree_iff _ _ [] _ (ascii "n=-40") rfl

/-- The formats `%x` and the single byte 0xFF. -/
def hexFormat : CString := ⟨ascii "%x", forall_ne_of_not_mem (by decide)⟩

def eofFormat : CString := ⟨[0xFF], forall_ne_of_not_mem (by decide)⟩

/-- The formatters differ on both. -/
theorem formatters_differ :
    ¬Agree hexFormat [.int 1] Machine.boot ∧ ¬Agree eofFormat [] Machine.boot := by
  constructor
  · intro h
    have hmatch : refFormat hexFormat.bytes [.int 1] = some (ascii "1", []) := rfl
    rcases agree_iff Machine.boot hmatch with ⟨port, ret, honPort, hagree⟩
    exact absurd (honPort.eq_iff.mp (hagree.mp h)).hex (by decide)
  · intro h
    have hmatch : refFormat eofFormat.bytes [] = some ([0xFF], []) := rfl
    rcases agree_iff Machine.boot hmatch with ⟨port, ret, honPort, hagree⟩
    exact absurd ((honPort.eq_iff.mp (hagree.mp h)).eof (by decide)).2 (by decide)

/-! ### Short texts -/

/-- A text that `written` has room for is put out as a whole. -/
theorem putOut_of_le {fmt : CString} {argsLeft : List Arg} (n : Nat) :
    ∀ (pre rest text : List UInt8) (args : List Arg) (written : Int),
      fmt.bytes = pre ++ rest → refFormat rest args = some (text, argsLeft) → 0 ≤ written →
      written + text.length ≤ INT_MAX → rest.length < n →
      (putOut n rest args written).text = text ∧
        (putOut n rest args written).ret = written + text.length ∧
        (0xFF ∉ text → (putOut n rest args written).hex = hasHex rest) := by
  induction n with
  | zero =>
    intro pre rest text args written _ _ _ _ hlen
    exact absurd hlen (Nat.not_lt_zero _)
  | succ n ih =>
    intro pre rest text args written hfmt href hlow hmax hlen
    by_cases hrest : rest = []
    · subst hrest
      rw [refFormat, Option.some.injEq, Prod.mk.injEq] at href
      rcases href with ⟨rfl, -⟩
      exact ⟨rfl, (Int.add_zero written).symm, fun _ => rfl⟩
    · obtain ⟨p, used, rest', out, hnext⟩ := exists_nextPiece hfmt hrest href
      have hlength : text.length = p.text.length + out.length := by
        rw [hnext.text, List.length_append]
      have hfits : p.Fits written := by
        intro _
        rw [maxrem_eq hlow (by omega)]
        omega
      have hwritten : wrapInt (written + p.text.length) = written + p.text.length :=
        wrapInt_eq (by omega) (by omega)
      rcases ih (pre ++ used) rest' out p.args (written + p.text.length)
        (by rw [hfmt, hnext.split, List.append_assoc]) hnext.ref (by omega) (by omega)
        (length_rest_lt hnext hlen) with ⟨htext, hret, hhex⟩
      rw [putOut_of_fits hnext hfits, hwritten]
      refine ⟨?_, ?_, fun hbyte => ?_⟩
      · show p.text ++ _ = text
        rw [htext, hnext.text]
      · show (putOut n rest' p.args _).ret = _
        rw [hret]
        omega
      · rw [hnext.text, List.mem_append, not_or] at hbyte
        show (p.reports || (decide (0xFF ∉ p.text) && _)) = _
        rw [hhex hbyte.2, hnext.hex, decide_eq_true hbyte.1, Bool.true_and]

/-- A text of at most `INT_MAX` bytes: no `%x` is reached, and no byte 0xFF. -/
theorem agree_iff_of_le (fmt : CString) (args argsLeft : List Arg) (m : Machine)
    (text : List UInt8) (hmatch : refFormat fmt.bytes args = some (text, argsLeft))
    (hmax : text.length ≤ INT_MAX) :
    Agree fmt args m ↔ 0xFF ∉ text ∧ hasHex fmt.bytes = false := by
  rcases agree_iff m hmatch with ⟨port, ret, honPort, hagree⟩
  rcases putOut_of_le (fmt.bytes.length + 1) [] fmt.bytes text args 0 (List.nil_append _).symm
    hmatch (Int.le_refl 0) (by omega) (Nat.lt_succ_self _) with ⟨htext, hret, hhex⟩
  rw [hagree, honPort.eq_iff]
  constructor
  · intro h
    -- The returned value is the length of the text, and not -1.
    have hbyte : 0xFF ∉ text := by
      intro hmem
      have hneg := (h.eof (by rw [putOutAll, htext]; exact hmem)).2
      rw [putOutAll, hret] at hneg
      omega
    exact ⟨hbyte, (hhex hbyte).symm.trans h.hex⟩
  · rintro ⟨hbyte, hnone⟩
    refine ⟨(hhex hbyte).trans hnone, fun hmem => ?_⟩
    rw [putOutAll, htext] at hmem
    exact absurd hmem hbyte

end Chuckles.Proofs
