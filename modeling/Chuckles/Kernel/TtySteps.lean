import Chuckles.Kernel.Tty
import Chuckles.Lib.Run

/-!
# `Chuckles.Kernel.TtySteps`: `terminal_putchar_attr` one statement at a time

The handler of the keyboard interrupt prints, so a call of `terminal_putchar_attr` can come
between two statements of another one. `Pc` names the statements of the function, and
`Call.exec` runs the next one. Each reads and writes `terminal_row` and `terminal_column`
at once.

`Sys` is the terminal with the call that the mainline code is in. `sysStep` is its step:
the mainline code starts a call, or executes the next statement of its call, or the
interrupt runs a complete call. `terminalPutcharAttr` is that complete call, because the
gate of the interrupt disables interrupts.

`runs_call` says that the statements of a call, with no interrupt between them, are
`terminalPutcharAttr`.
-/

set_option autoImplicit false

namespace Chuckles

open Lib.Run

/-- The statements of `terminal_putchar_attr`, by what they do. -/
inductive Pc where
  /-- Case `'\n'`: `terminal_column = 0;`. -/
  | newlineColumn
  /-- `if (terminal_row + 1 == VGA_HEIGHT)`. -/
  | newlineTest
  | newlineReset
  | newlineCls
  /-- `else terminal_row++;`. -/
  | newlineRow
  /-- The default case: `terminal_putentryat(...)`. -/
  | putentry
  | columnInc
  /-- `if (terminal_column == VGA_WIDTH)`. -/
  | columnTest
  | columnReset
  | rowInc
  /-- `if (terminal_row == VGA_HEIGHT)`. -/
  | rowTest
  | rowReset
  | cls
  /-- `update_cursor(...)`. -/
  | cursor
  deriving DecidableEq

/-- A call in progress: the next statement and the arguments. -/
structure Call where
  pc : Pc
  uc : UInt8
  attr : UInt8

/-- The call at its first statement. -/
def Call.enter (uc attr : UInt8) : Call :=
  ⟨if uc = '\n'.toUInt8 then .newlineColumn else .putentry, uc, attr⟩

/-- The call at another statement. -/
def Call.goto (k : Call) (pc : Pc) : Option Call := some { k with pc := pc }

/-- The next statement of a call: the terminal, and the call unless it has returned. -/
def Call.exec (t : Tty) (k : Call) : Tty × Option Call :=
  match k.pc with
  | .newlineColumn => ({ t with column := 0 }, k.goto .newlineTest)
  -- A test reads the row or the column anew, not what the statement before has left.
  | .newlineTest =>
    (t, if sizeSucc t.row = VGA_HEIGHT then k.goto .newlineReset else k.goto .newlineRow)
  | .newlineReset => ({ t with row := 0 }, k.goto .newlineCls)
  | .newlineCls => (terminalCls t, k.goto .cursor)
  | .newlineRow => ({ t with row := sizeSucc t.row }, k.goto .cursor)
  | .putentry => (terminalPutentryat t k.uc k.attr t.column t.row, k.goto .columnInc)
  | .columnInc => ({ t with column := sizeSucc t.column }, k.goto .columnTest)
  | .columnTest => (t, if t.column = VGA_WIDTH then k.goto .columnReset else k.goto .cursor)
  | .columnReset => ({ t with column := 0 }, k.goto .rowInc)
  | .rowInc => ({ t with row := sizeSucc t.row }, k.goto .rowTest)
  | .rowTest => (t, if t.row = VGA_HEIGHT then k.goto .rowReset else k.goto .cursor)
  | .rowReset => ({ t with row := 0 }, k.goto .cls)
  | .cls => (terminalCls t, k.goto .cursor)
  | .cursor => (updateCursor t t.column.toUInt8 t.row.toUInt8, none)

/-- The terminal and the mainline call in progress. -/
structure Sys where
  tty : Tty
  call : Option Call

/-- What happens next. -/
inductive SysAct where
  /-- The mainline code calls `terminal_putchar_attr`. -/
  | start (uc attr : UInt8)
  /-- The mainline call executes a statement. -/
  | main
  /-- The interrupt runs a call of `terminal_putchar_attr`. -/
  | irq (uc attr : UInt8)
  deriving DecidableEq

/-- The step of the system. -/
def sysStep (s : Sys) : SysAct → Option Sys
  | .start uc attr =>
    match s.call with
    | none => some { s with call := some (Call.enter uc attr) }
    | some _ => none
  | .main =>
    match s.call with
    | none => none
    | some k => some ⟨(k.exec s.tty).1, (k.exec s.tty).2⟩
  -- The gate disables interrupts, so this call is not interrupted itself.
  | .irq uc attr => some { s with tty := terminalPutcharAttr s.tty uc attr }

/-! ### Without interrupts -/

/-- The mainline call returns in the terminal `t'` when no interrupt comes. -/
def Finishes (t : Tty) (k : Call) (t' : Tty) : Prop :=
  ∃ n, Runs sysStep Any ⟨t, some k⟩ (List.replicate n .main) ⟨t', none⟩

/-- A statement, and the rest of the call. -/
theorem Finishes.step {t t₁ t' : Tty} {k k₁ : Call} (h : k.exec t = (t₁, some k₁))
    (hrest : Finishes t₁ k₁ t') : Finishes t k t' := by
  obtain ⟨n, hrest⟩ := hrest
  have hnext : sysStep ⟨t, some k⟩ .main = some ⟨t₁, some k₁⟩ := by simp [sysStep, h]
  exact ⟨n + 1, .cons trivial hnext hrest⟩

/-- The last statement. -/
theorem Finishes.last (t : Tty) (uc attr : UInt8) :
    Finishes t ⟨.cursor, uc, attr⟩ (syncCursor t) :=
  ⟨1, .cons trivial rfl .start⟩

/-- The statements of a call are the function. -/
theorem finishes_enter (t : Tty) (uc attr : UInt8) :
    Finishes t (Call.enter uc attr) (terminalPutcharAttr t uc attr) := by
  -- One case for each path through the statements, as in the lemmas about the branches.
  by_cases hc : uc = '\n'.toUInt8
  · rw [Call.enter, if_pos hc, hc]
    refine .step rfl ?_
    by_cases hrow : sizeSucc t.row = VGA_HEIGHT
    · rw [putcharAttr_newline_ends t attr hrow]
      have htest : Call.exec { t with column := 0 } ⟨.newlineTest, '\n'.toUInt8, attr⟩
          = ({ t with column := 0 }, some ⟨.newlineReset, '\n'.toUInt8, attr⟩) := by
        simp [Call.exec, Call.goto, hrow]
      exact .step htest (.step rfl (.step rfl (.last _ _ attr)))
    · rw [putcharAttr_newline_stays t attr hrow]
      have htest : Call.exec { t with column := 0 } ⟨.newlineTest, '\n'.toUInt8, attr⟩
          = ({ t with column := 0 }, some ⟨.newlineRow, '\n'.toUInt8, attr⟩) := by
        simp [Call.exec, Call.goto, hrow]
      exact .step htest (.step rfl (.last _ _ attr))
  · rw [Call.enter, if_neg hc]
    refine .step rfl (.step rfl ?_)
    by_cases hcol : sizeSucc t.column = VGA_WIDTH
    · have htest : Call.exec { terminalPutentryat t uc attr t.column t.row with
            column := sizeSucc t.column } ⟨.columnTest, uc, attr⟩
          = ({ terminalPutentryat t uc attr t.column t.row with column := sizeSucc t.column },
              some ⟨.columnReset, uc, attr⟩) := by
        simp [Call.exec, Call.goto, hcol]
      refine .step htest (.step rfl (.step rfl ?_))
      by_cases hrow : sizeSucc t.row = VGA_HEIGHT
      · rw [putcharAttr_glyph_ends t attr hc hcol hrow]
        have htest' : Call.exec { terminalPutentryat t uc attr t.column t.row with
              column := 0, row := sizeSucc t.row } ⟨.rowTest, uc, attr⟩
            = ({ terminalPutentryat t uc attr t.column t.row with
                column := 0, row := sizeSucc t.row }, some ⟨.rowReset, uc, attr⟩) := by
          simp [Call.exec, Call.goto, hrow]
        exact .step htest' (.step rfl (.step rfl (.last _ uc attr)))
      · rw [putcharAttr_glyph_wraps t attr hc hcol hrow]
        have htest' : Call.exec { terminalPutentryat t uc attr t.column t.row with
              column := 0, row := sizeSucc t.row } ⟨.rowTest, uc, attr⟩
            = ({ terminalPutentryat t uc attr t.column t.row with
                column := 0, row := sizeSucc t.row }, some ⟨.cursor, uc, attr⟩) := by
          simp [Call.exec, Call.goto, hrow]
        exact .step htest' (.last _ uc attr)
    · rw [putcharAttr_glyph_stays t attr hc hcol]
      have htest : Call.exec { terminalPutentryat t uc attr t.column t.row with
            column := sizeSucc t.column } ⟨.columnTest, uc, attr⟩
          = ({ terminalPutentryat t uc attr t.column t.row with column := sizeSucc t.column },
              some ⟨.cursor, uc, attr⟩) := by
        simp [Call.exec, Call.goto, hcol]
      exact .step htest (.last _ uc attr)

/-- A mainline call with no interrupt in it runs `terminalPutcharAttr`. -/
theorem runs_call (t : Tty) (uc attr : UInt8) :
    ∃ n, Runs sysStep Any ⟨t, none⟩ (.start uc attr :: List.replicate n .main)
      ⟨terminalPutcharAttr t uc attr, none⟩ := by
  obtain ⟨n, h⟩ := finishes_enter t uc attr
  have hstart : sysStep ⟨t, none⟩ (.start uc attr) = some ⟨t, some (Call.enter uc attr)⟩ := rfl
  exact ⟨n, .cons trivial hstart h⟩

end Chuckles
