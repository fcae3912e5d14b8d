import Chuckles.Kernel.TtySteps
import Chuckles.Proofs.TtyPage

/-!
# `Chuckles.Proofs.TtyInterrupts`: printing from the keyboard interrupt

`terminal_putchar_attr` decides to wrap with tests for equality. Between the increment that
reaches the bound and the reset, the cursor is off the screen, and a glyph that the
interrupt prints there goes off the screen and makes the test fail for good.

`SysInv` is the invariant of the interleaved system. What it says about the cursor depends on
the statement that the mainline call is at (`Admits`). `Harmless` is the condition on a
step under which the invariant is kept: no interrupt in one of these windows, and no
mainline increment of a row that an interrupt has moved to the last one since its test.

* `inv_main`, `inv_irq`: the step lemmas.
* `cursor_on_screen_of_runs`: the run lemma, from `terminal_initialise` on.
* `interrupt_leaves_screen`: without the condition the cursor can leave the screen.
-/

set_option autoImplicit false

namespace Chuckles.Proofs

open Lib.Run Lib.Page

/-! ### The effect of a complete call -/

/-- Every call of `terminal_putentryat` so far was on the screen. -/
def CallsOnScreen (t : Tty) : Prop :=
  ∀ x y, .putentryat x y ∈ t.log → x < VGA_WIDTH ∧ y < VGA_HEIGHT

/-- The cursor is on the screen. -/
def CursorOnScreen (t : Tty) : Prop := t.row < VGA_HEIGHT ∧ t.column < VGA_WIDTH

/-- Clearing the screen calls no `terminal_putentryat`. -/
theorem mem_log_terminalCls (t : Tty) (x y : Nat) :
    .putentryat x y ∈ (terminalCls t).log ↔ .putentryat x y ∈ t.log := by
  simp [terminalCls_log]

/-- Nor does the cursor update. -/
theorem mem_log_syncCursor (t : Tty) (x y : Nat) :
    .putentryat x y ∈ (syncCursor t).log ↔ .putentryat x y ∈ t.log := by
  simp [syncCursor, updateCursor, Tty.outw]

/-- `sizeSucc` of a row or a column that is at most the bound. -/
theorem sizeSucc_of_le_height {n : Nat} (h : n ≤ VGA_HEIGHT) : sizeSucc n = n + 1 :=
  sizeSucc_of_lt (by unfold VGA_HEIGHT at h; omega)

/-- The same for a column. -/
theorem sizeSucc_of_le_width {n : Nat} (h : n ≤ VGA_WIDTH) : sizeSucc n = n + 1 :=
  sizeSucc_of_lt (by unfold VGA_WIDTH at h; omega)

/-- The cursor after a newline. -/
theorem putcharAttr_newline (t : Tty) (attr : UInt8) :
    (terminalPutcharAttr t '\n'.toUInt8 attr).column = 0 ∧
    (terminalPutcharAttr t '\n'.toUInt8 attr).row
      = if sizeSucc t.row = VGA_HEIGHT then 0 else sizeSucc t.row := by
  by_cases hrow : sizeSucc t.row = VGA_HEIGHT
  · rw [putcharAttr_newline_ends t attr hrow, if_pos hrow, syncCursor_column, syncCursor_row,
      terminalCls_column, terminalCls_row]
    exact ⟨rfl, rfl⟩
  · rw [putcharAttr_newline_stays t attr hrow, if_neg hrow]
    exact ⟨rfl, rfl⟩

/-- A newline calls no `terminal_putentryat`. -/
theorem callsOnScreen_newline {t : Tty} (attr : UInt8) (h : CallsOnScreen t) :
    CallsOnScreen (terminalPutcharAttr t '\n'.toUInt8 attr) := by
  intro x y hmem
  apply h x y
  by_cases hrow : sizeSucc t.row = VGA_HEIGHT
  · rwa [putcharAttr_newline_ends t attr hrow, mem_log_syncCursor, mem_log_terminalCls] at hmem
  · rwa [putcharAttr_newline_stays t attr hrow, mem_log_syncCursor] at hmem

/-- The call for a cell on the screen. -/
theorem callsOnScreen_putentryat {t : Tty} (c attr : UInt8) (h : CallsOnScreen t)
    (hcursor : CursorOnScreen t) :
    CallsOnScreen (terminalPutentryat t c attr t.column t.row) := by
  intro x y hmem
  rw [terminalPutentryat_log] at hmem
  rcases List.mem_append.mp hmem with hmem | hmem
  · exact h x y hmem
  · have hxy : x = t.column ∧ y = t.row := by simpa using hmem
    rw [hxy.1, hxy.2]
    exact ⟨hcursor.2, hcursor.1⟩

/-- A glyph at a cursor on the screen keeps the cursor there. -/
theorem onScreen_glyph {t : Tty} {c : UInt8} (attr : UInt8) (hc : c ≠ '\n'.toUInt8)
    (h : CallsOnScreen t) (hcursor : CursorOnScreen t) :
    CallsOnScreen (terminalPutcharAttr t c attr) ∧
      CursorOnScreen (terminalPutcharAttr t c attr) := by
  have hput := callsOnScreen_putentryat c attr h hcursor
  obtain ⟨hrow, hcol⟩ := hcursor
  have hrow' := sizeSucc_of_le_height (Nat.le_of_lt hrow)
  have hcol' := sizeSucc_of_le_width (Nat.le_of_lt hcol)
  have hH₀ : 0 < VGA_HEIGHT := by decide
  have hW₀ : 0 < VGA_WIDTH := by decide
  -- The three branches of a glyph. Only the first one clears the screen.
  by_cases hwrap : sizeSucc t.column = VGA_WIDTH
  · by_cases hlast : sizeSucc t.row = VGA_HEIGHT
    · rw [putcharAttr_glyph_ends t attr hc hwrap hlast]
      refine ⟨fun x y hmem => ?_, ?_⟩
      · rw [mem_log_syncCursor, mem_log_terminalCls] at hmem
        exact hput x y hmem
      · rw [CursorOnScreen, syncCursor_column, syncCursor_row, terminalCls_column,
          terminalCls_row]
        exact ⟨hH₀, hW₀⟩
    · rw [putcharAttr_glyph_wraps t attr hc hwrap hlast]
      refine ⟨fun x y hmem => ?_, ?_⟩
      · rw [mem_log_syncCursor] at hmem
        exact hput x y hmem
      · show sizeSucc t.row < VGA_HEIGHT ∧ 0 < VGA_WIDTH
        omega
  · rw [putcharAttr_glyph_stays t attr hc hwrap]
    refine ⟨fun x y hmem => ?_, ?_⟩
    · rw [mem_log_syncCursor] at hmem
      exact hput x y hmem
    · show t.row < VGA_HEIGHT ∧ sizeSucc t.column < VGA_WIDTH
      omega

/-! ### The invariant -/

/-- What holds of the cursor when the mainline call is at a statement. It can be past the
last column from the increment to the reset, and past the last row likewise. A newline
that the interrupt prints before the reset of the row moves it further. -/
def Admits (row column : Nat) : Pc → Prop
  | .columnTest | .columnReset => row < VGA_HEIGHT ∧ column ≤ VGA_WIDTH
  | .rowTest => row ≤ VGA_HEIGHT ∧ column < VGA_WIDTH
  | .rowReset => column < VGA_WIDTH
  | _ => row < VGA_HEIGHT ∧ column < VGA_WIDTH

/-- The invariant of the interleaved system. -/
structure SysInv (s : Sys) : Prop where
  calls : CallsOnScreen s.tty
  idle : s.call = none → CursorOnScreen s.tty
  busy : ∀ k, s.call = some k → Admits s.tty.row s.tty.column k.pc

/-- The condition on a step. An interrupt prints no glyph while the mainline call has the
cursor past the last column or the last row, and no newline before the test of the row.
And a mainline newline does not increment the row to the bound, which its test excluded. -/
def Harmless (s : Sys) : SysAct → Prop
  | .start _ _ => True
  | .main => s.call.map Call.pc = some .newlineRow → s.tty.row + 1 ≠ VGA_HEIGHT
  | .irq uc _ =>
    if uc = '\n'.toUInt8 then s.call.map Call.pc = some .rowTest → s.tty.row ≠ VGA_HEIGHT
    else
      (s.call.map Call.pc ∈ [some .columnTest, some .columnReset] →
        s.tty.column ≠ VGA_WIDTH) ∧
      (s.call.map Call.pc ∈ [some .rowTest, some .rowReset] → s.tty.row < VGA_HEIGHT)

/-- A statement that goes on in the call. -/
theorem inv_goto {t : Tty} {k : Call} {pc : Pc} (hcalls : CallsOnScreen t)
    (hadmits : Admits t.row t.column pc) : SysInv ⟨t, k.goto pc⟩ := by
  refine ⟨hcalls, fun h => by simp [Call.goto] at h, fun k' hk' => ?_⟩
  have hpc : k'.pc = pc := by
    have h : { k with pc := pc } = k' := by simpa [Call.goto] using hk'
    rw [← h]
  rw [hpc]
  exact hadmits

/-- So does a call of `terminal_cls`, which leaves the cursor where it is. -/
theorem inv_cls {t : Tty} {k : Call} {pc : Pc} (hcalls : CallsOnScreen t)
    (hadmits : Admits t.row t.column pc) : SysInv ⟨terminalCls t, k.goto pc⟩ := by
  refine inv_goto (fun x y hmem => hcalls x y ((mem_log_terminalCls t x y).mp hmem)) ?_
  rw [terminalCls_row, terminalCls_column]
  exact hadmits

/-- One statement of the mainline call keeps the invariant. The cases are the statements. -/
theorem inv_main {t : Tty} {k : Call} (h : SysInv ⟨t, some k⟩)
    (hok : Harmless ⟨t, some k⟩ .main) : SysInv ⟨(k.exec t).1, (k.exec t).2⟩ := by
  have hcalls : CallsOnScreen t := h.calls
  have hbusy : Admits t.row t.column k.pc := h.busy k rfl
  have hW : 0 < VGA_WIDTH := by decide
  have hH : 0 < VGA_HEIGHT := by decide
  obtain ⟨pc, uc, attr⟩ := k
  cases pc with
  | newlineColumn => exact inv_goto hcalls ⟨hbusy.1, hW⟩
  | newlineTest =>
    simp only [Call.exec]
    split
    · exact inv_goto hcalls hbusy
    · exact inv_goto hcalls hbusy
  | newlineReset => exact inv_goto hcalls ⟨hH, hbusy.2⟩
  | newlineCls =>
    simp only [Call.exec]
    exact inv_cls hcalls hbusy
  | newlineRow =>
    -- The condition on the step: the row is not the last one.
    have hrow : t.row + 1 ≠ VGA_HEIGHT := hok rfl
    have hlt : t.row < VGA_HEIGHT := hbusy.1
    refine inv_goto hcalls ⟨?_, hbusy.2⟩
    show sizeSucc t.row < VGA_HEIGHT
    rw [sizeSucc_of_le_height (Nat.le_of_lt hlt)]
    omega
  -- The store goes to the cursor, which is on the screen at this statement.
  | putentry => exact inv_goto (callsOnScreen_putentryat uc attr hcalls hbusy) hbusy
  -- The column may reach the bound here, which the next two statements admit.
  | columnInc =>
    have hlt : t.column < VGA_WIDTH := hbusy.2
    refine inv_goto hcalls ⟨hbusy.1, ?_⟩
    show sizeSucc t.column ≤ VGA_WIDTH
    rw [sizeSucc_of_le_width (Nat.le_of_lt hlt)]
    exact hlt
  | columnTest =>
    obtain ⟨hrow, hcol⟩ : t.row < VGA_HEIGHT ∧ t.column ≤ VGA_WIDTH := hbusy
    simp only [Call.exec]
    split
    · exact inv_goto hcalls ⟨hrow, hcol⟩
    · rename_i hne
      exact inv_goto hcalls ⟨hrow, Nat.lt_of_le_of_ne hcol hne⟩
  | columnReset => exact inv_goto hcalls ⟨hbusy.1, hW⟩
  -- And the row likewise.
  | rowInc =>
    have hlt : t.row < VGA_HEIGHT := hbusy.1
    refine inv_goto hcalls ⟨?_, hbusy.2⟩
    show sizeSucc t.row ≤ VGA_HEIGHT
    rw [sizeSucc_of_le_height (Nat.le_of_lt hlt)]
    exact hlt
  | rowTest =>
    obtain ⟨hrow, hcol⟩ : t.row ≤ VGA_HEIGHT ∧ t.column < VGA_WIDTH := hbusy
    simp only [Call.exec]
    split
    · exact inv_goto hcalls hcol
    · rename_i hne
      exact inv_goto hcalls ⟨Nat.lt_of_le_of_ne hrow hne, hcol⟩
  | rowReset => exact inv_goto hcalls ⟨hH, hbusy⟩
  | cls =>
    simp only [Call.exec]
    exact inv_cls hcalls hbusy
  | cursor =>
    refine ⟨fun x y hmem => hcalls x y ((mem_log_syncCursor t x y).mp hmem), fun _ => hbusy, ?_⟩
    intro k hk
    cases hk

/-- What the invariant says of the cursor when an interrupt prints a glyph: the windows are
the only places where the cursor is off the screen. -/
theorem cursorOnScreen_of_harmless {s : Sys} {uc attr : UInt8} (h : SysInv s)
    (hc : uc ≠ '\n'.toUInt8) (hok : Harmless s (.irq uc attr)) : CursorOnScreen s.tty := by
  obtain ⟨t, call⟩ := s
  cases call with
  | none => exact h.idle rfl
  | some k =>
    have hbusy : Admits t.row t.column k.pc := h.busy k rfl
    simp only [Harmless, if_neg hc, Option.map_some] at hok
    obtain ⟨hcol, hrow⟩ := hok
    obtain ⟨pc, uc', attr'⟩ := k
    cases pc with
    | columnTest => exact ⟨hbusy.1, Nat.lt_of_le_of_ne hbusy.2 (hcol (by simp))⟩
    | columnReset => exact ⟨hbusy.1, Nat.lt_of_le_of_ne hbusy.2 (hcol (by simp))⟩
    | rowTest => exact ⟨hrow (by simp), hbusy.2⟩
    | rowReset => exact ⟨hrow (by simp), hbusy⟩
    | _ => exact hbusy

/-- A cursor on the screen is admitted at every statement. -/
theorem admits_of_onScreen {row column : Nat} (h : row < VGA_HEIGHT ∧ column < VGA_WIDTH)
    (pc : Pc) : Admits row column pc := by
  cases pc with
  | columnTest => exact ⟨h.1, Nat.le_of_lt h.2⟩
  | columnReset => exact ⟨h.1, Nat.le_of_lt h.2⟩
  | rowTest => exact ⟨Nat.le_of_lt h.1, h.2⟩
  | rowReset => exact h.2
  | _ => exact h

/-- A newline from the interrupt moves the cursor to column 0, and to a row that the
statement admits. -/
theorem admits_newline {t : Tty} (pc : Pc) (attr : UInt8) (h : Admits t.row t.column pc)
    (hok : pc = .rowTest → t.row ≠ VGA_HEIGHT) :
    Admits (terminalPutcharAttr t '\n'.toUInt8 attr).row
      (terminalPutcharAttr t '\n'.toUInt8 attr).column pc := by
  obtain ⟨hcol, hrow⟩ := putcharAttr_newline t attr
  have hW : 0 < VGA_WIDTH := by decide
  have hH : 0 < VGA_HEIGHT := by decide
  rw [hcol, hrow]
  have hnext : t.row < VGA_HEIGHT →
      (if sizeSucc t.row = VGA_HEIGHT then 0 else sizeSucc t.row) < VGA_HEIGHT := by
    intro hlt
    rw [sizeSucc_of_le_height (Nat.le_of_lt hlt)]
    split <;> omega
  cases pc with
  | rowReset => exact hW
  | rowTest => exact ⟨Nat.le_of_lt (hnext (Nat.lt_of_le_of_ne h.1 (hok rfl))), hW⟩
  | columnTest => exact ⟨hnext h.1, Nat.zero_le _⟩
  | columnReset => exact ⟨hnext h.1, Nat.zero_le _⟩
  | _ => exact ⟨hnext h.1, hW⟩

/-- A complete call from the interrupt keeps the invariant. -/
theorem inv_irq {s : Sys} (uc attr : UInt8) (h : SysInv s) (hok : Harmless s (.irq uc attr)) :
    SysInv { s with tty := terminalPutcharAttr s.tty uc attr } := by
  by_cases hc : uc = '\n'.toUInt8
  · subst hc
    refine ⟨callsOnScreen_newline attr h.calls, fun hidle => ?_, fun k hk => ?_⟩
    · -- No call in progress is as good as the last statement of one.
      exact admits_newline .cursor attr (h.idle hidle) (by simp)
    · have hpc : s.call.map Call.pc = some k.pc := by rw [hk]; rfl
      simp only [Harmless, if_true, hpc, Option.some.injEq] at hok
      exact admits_newline _ attr (h.busy k hk) hok
  · -- Outside the windows the cursor is on the screen, and a glyph keeps it there.
    obtain ⟨hcalls, hcursor⟩ := onScreen_glyph attr hc h.calls (cursorOnScreen_of_harmless h hc hok)
    exact ⟨hcalls, fun _ => hcursor, fun k _ => admits_of_onScreen hcursor k.pc⟩

/-- The step lemma. -/
theorem inv_step (s : Sys) (a : SysAct) (s' : Sys) (h : SysInv s) (hok : Harmless s a)
    (hstep : sysStep s a = some s') : SysInv s' := by
  obtain ⟨t, call⟩ := s
  cases a with
  | start uc attr =>
    cases call with
    | some k => simp [sysStep] at hstep
    | none =>
      have hs' : s' = ⟨t, some (Call.enter uc attr)⟩ := by simpa [sysStep] using hstep.symm
      rw [hs']
      exact inv_goto (k := ⟨.cursor, uc, attr⟩) h.calls (admits_of_onScreen (h.idle rfl) _)
  | main =>
    cases call with
    | none => simp [sysStep] at hstep
    | some k =>
      have hs' : s' = ⟨(k.exec t).1, (k.exec t).2⟩ := by simpa [sysStep] using hstep.symm
      rw [hs']
      exact inv_main h hok
  | irq uc attr =>
    have hs' : s' = { (⟨t, call⟩ : Sys) with tty := terminalPutcharAttr t uc attr } := by
      simpa [sysStep] using hstep.symm
    rw [hs']
    exact inv_irq uc attr h hok

/-! ### Runs -/

/-- The system right after `terminal_initialise`. -/
def Sys.init (inb : UInt16 → UInt8) (t : Tty) : Sys :=
  ⟨terminalInitialise inb { t with log := [] }, none⟩

/-- The invariant holds right after `terminal_initialise`. -/
theorem inv_init (inb : UInt16 → UInt8) (t : Tty) : SysInv (Sys.init inb t) := by
  obtain ⟨⟨hrow, hcol⟩, -, words, hlog⟩ := terminalInitialise_spec { t with log := [] } inb
  refine ⟨fun x y hmem => ?_, fun _ => ⟨?_, ?_⟩, fun k hk => by cases hk⟩
  · rw [Sys.init, hlog] at hmem
    simp at hmem
  · rw [Sys.init, hrow]
    decide
  · rw [Sys.init, hcol]
    decide

/-- What holds in every state of a run: the calls of `terminal_putentryat` so far were on
the screen, and so is the cursor when no mainline call is in progress. -/
def ScreenSafe (s : Sys) : Prop :=
  (∀ x y, .putentryat x y ∈ s.tty.log → x < VGA_WIDTH ∧ y < VGA_HEIGHT) ∧
  (s.call = none → s.tty.column < VGA_WIDTH ∧ s.tty.row < VGA_HEIGHT)

/-- **When the cursor stays on the screen.** Over a run of mainline calls, statement by
statement, with interrupts between the statements, in which every step is harmless, every
state is safe. -/
theorem cursor_on_screen_of_runs (inb : UInt16 → UInt8) (t : Tty) (as : List SysAct) (s : Sys)
    (h : Runs sysStep Harmless (Sys.init inb t) as s) : ScreenSafe s := by
  have hinv := h.invariant SysInv inv_step (inv_init inb t)
  exact ⟨hinv.calls, fun hidle => (hinv.idle hidle).symm⟩

/-- A glyph from the interrupt in the middle of a mainline glyph. -/
theorem runs_interrupted_glyph (t : Tty) :
    Runs sysStep Harmless ⟨t, none⟩ [.start 97 7, .main, .irq 98 7]
      ⟨terminalPutcharAttr (terminalPutentryat t 97 7 t.column t.row) 98 7,
        some ⟨.columnInc, 97, 7⟩⟩ := by
  have hstart : sysStep ⟨t, none⟩ (.start 97 7) = some ⟨t, some ⟨.putentry, 97, 7⟩⟩ := rfl
  have hmain : Harmless ⟨t, some ⟨.putentry, 97, 7⟩⟩ .main := by simp [Harmless]
  have hirq : Harmless ⟨terminalPutentryat t 97 7 t.column t.row, some ⟨.columnInc, 97, 7⟩⟩
      (.irq 98 7) := by
    have hne : ¬ (98 : UInt8) = '\n'.toUInt8 := by decide
    simp [Harmless, hne]
  exact .cons trivial hstart (.cons hmain rfl (.cons hirq rfl .start))

/-- It is harmless away from the wrap. -/
theorem cursor_on_screen_of_runs_glyph :
    ∃ s, Runs sysStep Harmless (Sys.init (fun _ => 0) .boot) [.start 97 7, .main, .irq 98 7] s ∧
      ScreenSafe s := by
  have h := runs_interrupted_glyph (terminalInitialise (fun _ => 0) { Tty.boot with log := [] })
  exact ⟨_, h, cursor_on_screen_of_runs (fun _ => 0) .boot _ _ h⟩

/-- Mainline calls without interrupts write a text. -/
theorem runs_writePairs (text : List (UInt8 × UInt8)) :
    ∀ t : Tty, ∃ as, Runs sysStep Any ⟨t, none⟩ as ⟨writePairs t text, none⟩ := by
  induction text with
  | nil => intro t; exact ⟨[], .start⟩
  | cons ca text ih =>
    intro t
    obtain ⟨n, hcall⟩ := runs_call t ca.1 ca.2
    obtain ⟨as, hrest⟩ := ih (terminalPutcharAttr t ca.1 ca.2)
    exact ⟨_, hcall.trans hrest⟩

/-- A glyph goes to the cursor, wherever this is. -/
theorem mem_log_glyph (t : Tty) {c : UInt8} (attr : UInt8) (hc : c ≠ '\n'.toUInt8) :
    .putentryat t.column t.row ∈ (terminalPutcharAttr t c attr).log := by
  have hput : .putentryat t.column t.row
      ∈ (terminalPutentryat t c attr t.column t.row).log := by
    rw [terminalPutentryat_log]
    simp
  by_cases hwrap : sizeSucc t.column = VGA_WIDTH
  · by_cases hlast : sizeSucc t.row = VGA_HEIGHT
    · rw [putcharAttr_glyph_ends t attr hc hwrap hlast, mem_log_syncCursor, mem_log_terminalCls]
      exact hput
    · rw [putcharAttr_glyph_wraps t attr hc hwrap hlast, mem_log_syncCursor]
      exact hput
  · rw [putcharAttr_glyph_stays t attr hc hwrap, mem_log_syncCursor]
    exact hput

/-- A glyph from the interrupt behind the mainline's increment of the column. -/
theorem runs_interrupted_wrap (t : Tty) :
    Runs sysStep Any ⟨t, none⟩ [.start 97 7, .main, .main, .irq 98 7]
      ⟨terminalPutcharAttr { terminalPutentryat t 97 7 t.column t.row with
          column := sizeSucc t.column } 98 7, some ⟨.columnTest, 97, 7⟩⟩ := by
  have hstart : sysStep ⟨t, none⟩ (.start 97 7) = some ⟨t, some ⟨.putentry, 97, 7⟩⟩ := rfl
  exact .cons trivial hstart (.cons trivial rfl (.cons trivial rfl (.cons trivial rfl .start)))

/-- After 79 glyphs, a glyph from the interrupt behind the increment of the column goes to
column 80. -/
theorem interrupt_leaves_screen :
    ¬ ∀ as s, Runs sysStep Any (Sys.init (fun _ => 0) .boot) as s → ScreenSafe s := by
  intro hall
  obtain ⟨t, ⟨as, hrun⟩, hcursor⟩ : ∃ t,
      (∃ as, Runs sysStep Any (Sys.init (fun _ => 0) .boot) as ⟨t, none⟩) ∧
        cursor t = ⟨0, 79⟩ := by
    have hshows := shows_writePairs (shows_terminalInitialise (fun _ => 0)
      { Tty.boot with log := [] }) (List.replicate 79 (97, 7))
    have hfinish : finish VGA_WIDTH origin
        (cut VGA_WIDTH VGA_HEIGHT (itemsOf (List.replicate 79 (97, 7)))).2 = ⟨0, 79⟩ := by
      decide +kernel
    exact ⟨_, runs_writePairs (List.replicate 79 (97, 7)) _, hshows.pos.trans hfinish⟩
  have hcol : t.column = 79 := congrArg Pos.col hcursor
  have hsafe := hall _ _ (hrun.trans (runs_interrupted_wrap t))
  -- The interrupt's glyph goes to the cursor, which is past the last column.
  have hmem := mem_log_glyph { terminalPutentryat t 97 7 t.column t.row with
    column := sizeSucc t.column } (c := 98) 7 (by decide)
  have hlt : sizeSucc t.column < VGA_WIDTH := (hsafe.1 _ _ hmem).1
  rw [hcol] at hlt
  exact absurd hlt (by decide)

end Chuckles.Proofs
