import Chuckles.Proofs.FormatPass

/-!
# `Chuckles.Proofs.Printf`: `printf` is a reference formatter

`printf_eq_refFormat` is the result: when the reference formatter gives a text of at most
`INT_MAX` bytes, `printf` ends, returns the length of the text, has passed exactly the text
to `putchar`, and leaves the arguments that the reference leaves. The proof is one
application of the rule for loops. `Formatting` is its invariant, and `good_formatPass` the
step lemma, which takes the next piece of the format.
-/

set_option autoImplicit false

namespace Chuckles.Proofs

open Lib Lib.Loop

/-! ### The loop -/

/-- The invariant: the format splits at the pointer, the output so far followed by what the
reference makes of the rest is the whole text, and `written` counts the output so far. The
calls of `itoa` split likewise. -/
def Formatting (fmt : CString) (o : Out) (text : List UInt8) (calls : List Int32)
    (argsLeft : List Arg) (s : FmtState) : Prop :=
  ∃ pre rest sent out called,
    fmt.bytes = pre ++ rest ∧ s.format = pre.length ∧
    refFormat rest s.args = some (out, argsLeft) ∧
    Sends putcharSink o sent called s.out ∧ s.written = sent.length ∧ text = sent ++ out ∧
    calls = called ++ itoaCalls rest s.args

/-- The result: the length of the text is returned, and the text has been sent. -/
def Formatted (o : Out) (text : List UInt8) (calls : List Int32) (argsLeft : List Arg)
    (r : FmtResult) : Prop :=
  r.ret = text.length ∧ r.args = argsLeft ∧ Sends putcharSink o text calls r.out

section
variable {fmt : CString} {o : Out} {text : List UInt8} {calls : List Int32}
  {argsLeft : List Arg}

/-- A branch that emits the next piece of the text keeps the invariant. -/
theorem good_of_emits (rest out : List UInt8) (hmax : text.length ≤ INT_MAX) {s s₁ : FmtState}
    {pass : Option (Pass FmtState FmtResult)} {pre sent l : List UInt8}
    {called ks : List Int32} {args : List Arg} (hsame : s₁.written = s.written ∧ s₁.out = s.out)
    (hfmt : fmt.bytes = pre ++ rest) (hformat : s.format < pre.length)
    (href : refFormat rest args = some (out, argsLeft))
    (hsent : Sends putcharSink o sent called s.out) (hwritten : s.written = sent.length)
    (htext : text = sent ++ (l ++ out)) (hcalls : calls = called ++ (ks ++ itoaCalls rest args))
    (hpass : Emits putcharSink s₁ l ks pre.length args pass) :
    (pass.getD .fault).Good (Formatting fmt o text calls argsLeft) (Formatted o text calls argsLeft)
      (fun s => fmt.bytes.length - s.format) (fmt.bytes.length - s.format) := by
  obtain ⟨out', rfl, hsends⟩ := hpass
  rw [hsame.1, hwritten]
  rw [hsame.2] at hsends
  have hwrap : wrapInt ((sent.length : Int) + l.length) = (sent ++ l).length := by
    rw [List.length_append, Int.natCast_add]
    apply wrapInt_eq
    · omega
    · rw [htext, List.length_append, List.length_append] at hmax
      omega
  rw [hwrap]
  refine ⟨⟨pre, rest, sent ++ l, out, called ++ ks, hfmt, rfl, href, hsent.trans hsends, rfl,
    ?_, ?_⟩, ?_⟩
  · rw [htext, List.append_assoc]
  · rw [hcalls, List.append_assoc]
  · show fmt.bytes.length - pre.length < fmt.bytes.length - s.format
    rw [hfmt, List.length_append]
    omega

/-- The room that the reference's text leaves for a piece of it. -/
theorem le_maxrem (out : List UInt8) (hmax : text.length ≤ INT_MAX) {s : FmtState}
    {sent l : List UInt8}
    (hwritten : s.written = sent.length) (htext : text = sent ++ (l ++ out)) :
    l.length ≤ maxrem s.written := by
  rw [htext, List.length_append, List.length_append] at hmax
  rw [hwritten, maxrem_eq (by omega) (by omega)]
  omega

/-- The step lemma: a pass sends the next piece of the text, or the text is complete. -/
theorem good_formatPass (hmax : text.length ≤ INT_MAX) (s : FmtState)
    (hs : Formatting fmt o text calls argsLeft s) :
    (formatPass putcharSink fmt s).Good (Formatting fmt o text calls argsLeft)
      (Formatted o text calls argsLeft) (fun s => fmt.bytes.length - s.format)
      (fmt.bytes.length - s.format) := by
  obtain ⟨pre, rest, sent, out, called, hfmt, hformat, href, hsent, hwritten, htext, hcalls⟩ := hs
  by_cases hrest : rest = []
  · -- The end of the format.
    subst hrest
    rw [refFormat, Option.some.injEq, Prod.mk.injEq] at href
    rcases href with ⟨rfl, hargs⟩
    rw [List.append_nil] at htext hfmt
    rw [itoaCalls, List.append_nil] at hcalls
    rw [formatPass_end putcharSink (by rw [hformat, hfmt])]
    subst htext hcalls
    exact ⟨hwritten, hargs, hsent⟩
  · obtain ⟨p, used, rest', out', hnext⟩ := exists_nextPiece hfmt hrest href
    have htext' : text = sent ++ (p.text ++ out') := by rw [htext, hnext.text]
    have hfits : p.Fits s.written := fun _ => le_maxrem out' hmax hwritten htext'
    have hpass := (hnext.passes putcharSink s hformat rfl).accepted hfits
      (putcharSink_accepts p.text)
    have hmoves := List.length_pos_iff.mpr hnext.moves
    exact good_of_emits rest' out' hmax ⟨rfl, rfl⟩ (by rw [hfmt, hnext.split, List.append_assoc])
      (by rw [List.length_append]; omega) hnext.ref hsent hwritten htext'
      (by rw [hcalls, hnext.calls]) hpass

end

/-- The run lemma. -/
theorem exists_exit_printf (fmt : CString) (args argsLeft : List Arg) (m : Machine)
    (text : List UInt8) (hmatch : refFormat fmt.bytes args = some (text, argsLeft))
    (hmax : text.length ≤ INT_MAX) :
    ∃ r, printf fmt args m = .exit r ∧
      Formatted ⟨m, []⟩ text (itoaCalls fmt.bytes args) argsLeft r := by
  have hstart : Formatting fmt ⟨m, []⟩ text (itoaCalls fmt.bytes args) argsLeft
      ⟨0, 0, args, ⟨m, []⟩⟩ :=
    ⟨[], fmt.bytes, [], text, [], rfl, rfl, hmatch, .refl, rfl, rfl, rfl⟩
  exact exit_of_variant (n := fmt.bytes.length + 1) _ _ _ (good_formatPass hmax) hstart (by simp)

/-- The machine after a text was printed on the terminal. The static buffer of `itoa` holds
the numerals of the printed numbers, each over the one before it. -/
def Prints (m : Machine) (text : List UInt8) (calls : List Int32) (m' : Machine) : Prop :=
  m'.console = m.console ++ text ∧ m'.tty = terminalWrite m.tty text ∧
    m'.itoaBuf.cells = calls.foldl stamp m.itoaBuf.cells

/-- A print with matching arguments returns. -/
theorem callPrintf_spec (format : List UInt8) (args : List Arg) {argsLeft : List Arg}
    {text : List UInt8} (hformat : 0 ∉ format) (m : Machine)
    (hmatch : refFormat format args = some (text, argsLeft)) (hmax : text.length ≤ INT_MAX) :
    ∃ m', callPrintf format args m = some m' ∧ Prints m text (itoaCalls format args) m' := by
  obtain ⟨r, hexit, -, -, hsends⟩ :=
    exists_exit_printf ⟨format, forall_ne_of_not_mem hformat⟩ args argsLeft m text hmatch hmax
  refine ⟨r.out.mach, ?_, hsends.terminal⟩
  rw [callPrintf, dif_pos hformat, hexit]

/-- **`printf` implements its format language.** When the reference formatter gives a text
of at most `INT_MAX` bytes, the loop ends, the text has been passed to `putchar` and its
length is returned, and the arguments that the reference leaves are left. -/
theorem printf_eq_refFormat (fmt : CString) (args argsLeft : List Arg) (m : Machine)
    (text : List UInt8) (hmatch : refFormat fmt.bytes args = some (text, argsLeft))
    (hmax : text.length ≤ INT_MAX) :
    ∃ m', printf fmt args m = .exit ⟨text.length, argsLeft, ⟨m', text⟩⟩ ∧
      m'.console = m.console ++ text ∧ m'.tty = terminalWrite m.tty text := by
  obtain ⟨⟨ret, left, out⟩, hexit, hret, hleft, hsends⟩ :=
    exists_exit_printf fmt args argsLeft m text hmatch hmax
  obtain ⟨hconsole, htty, -⟩ := hsends.terminal
  have hsent := hsends.sent
  obtain ⟨m', sent⟩ := out
  simp only [List.nil_append] at hret hleft hsent hconsole htty
  subst hret hleft hsent
  exact ⟨m', hexit, hconsole, htty⟩

/-- Every kind of conversion, and a percent sign at the end. -/
theorem printf_eq_refFormat_all_conversions :
    ∃ m', printf ⟨ascii "%s=%d%%, %c%x%", forall_ne_of_not_mem (by decide)⟩
        [.str ⟨ascii "n", forall_ne_of_not_mem (by decide)⟩, .int (-40), .int 48, .int 48879,
          .int 7] Machine.boot
      = .exit ⟨(ascii "n=-40%, 0BEEF%").length, [.int 7], ⟨m', ascii "n=-40%, 0BEEF%"⟩⟩ ∧
      m'.console = [] ++ ascii "n=-40%, 0BEEF%" ∧
      m'.tty = terminalWrite Tty.boot (ascii "n=-40%, 0BEEF%") :=
  printf_eq_refFormat _ _ _ _ _ rfl (by decide)

end Chuckles.Proofs
