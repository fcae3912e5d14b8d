import Chuckles.Proofs.TtyInterrupts
import Chuckles.Proofs.TtyStores

/-!
# `Chuckles.Proofs.TtyCells`: what the cells of the screen hold

Two results about the cells of the screen after a run of the terminal.

`glyph_shown` is about one call of `terminal_putchar_attr`. The glyph is in its cell when
the call returns, unless the cell is the last one of the screen. In that case the same call
clears the page that it has filled.

`colours_honoured_iff` is about the colours. `Painted` pairs the terminal with a mark for
each cell: what was stored there last, and the colours in force then. The marks are read from
the log, so they do not depend on the values that were stored. `Honoured` compares the two.
`terminal_putchar` passes the background where `vga_attr` takes the foreground, and
`terminal_cls` uses the colours of `terminal_initialise`. So the colours are honoured exactly
as long as each glyph has equal colours and each page ends on a black background.
-/

set_option autoImplicit false

namespace Chuckles.Proofs

open Lib.Page Lib.Run

/-! ### One character -/

/-- A character keeps the cursor on the screen. -/
theorem cursorOnScreen_putcharAttr {t : Tty} (c attr : UInt8) (h : CursorOnScreen t) :
    CursorOnScreen (terminalPutcharAttr t c attr) := by
  by_cases hends : EndsAt VGA_WIDTH VGA_HEIGHT (cursor t) (itemOf c attr)
  · rw [putcharAttr_of_ends c attr h.1 h.2 hends, CursorOnScreen, updateCursor_row,
      updateCursor_column, terminalCls_row, terminalCls_column]
    show 0 < VGA_HEIGHT ∧ 0 < VGA_WIDTH
    decide
  · rw [putcharAttr_of_stays c attr h.1 h.2 hends]
    exact ⟨(finish_row_lt_iff _ _ h.1).mpr hends, next_col_lt _ _ (by decide) h.2⟩

/-- The cells after a character: a page that ends is cleared, and otherwise only the cell at
the cursor is written. -/
theorem putcharAttr_buffer {t : Tty} (c attr : UInt8) (h : CursorOnScreen t) (i : Nat) :
    (terminalPutcharAttr t c attr).buffer i
      = if EndsAt VGA_WIDTH VGA_HEIGHT (cursor t) (itemOf c attr) ∧ i ≤ VGA_MEM_SIZE
        then vgaEntry ' '.toUInt8 t.blankColour else (written t c attr).buffer i := by
  by_cases hends : EndsAt VGA_WIDTH VGA_HEIGHT (cursor t) (itemOf c attr)
  · rw [putcharAttr_of_ends c attr h.1 h.2 hends, updateCursor_buffer, terminalCls_buffer]
    simp only [hends, true_and]
    show (if i ≤ VGA_MEM_SIZE then vgaEntry _ (written t c attr).blankColour else _) = _
    rw [written_blankColour]
  · rw [putcharAttr_of_stays c attr h.1 h.2 hends, updateCursor_buffer,
      if_neg fun hboth => hends hboth.1]

/-- A glyph ends the page exactly in the last cell. -/
theorem endsAt_glyph_iff (t : Tty) {c : UInt8} (attr : UInt8) (hc : c ≠ '\n'.toUInt8) :
    EndsAt VGA_WIDTH VGA_HEIGHT (cursor t) (itemOf c attr)
      ↔ t.row + 1 = VGA_HEIGHT ∧ t.column + 1 = VGA_WIDTH := by
  rw [itemOf, if_neg hc]
  exact Iff.rfl

/-! ### Runs -/

/-- A loop of characters, whatever the attribute of each. -/
theorem cursorOnScreen_foldl {put : Tty → UInt8 → Tty}
    (hput : ∀ t c, ∃ attr, put t c = terminalPutcharAttr t c attr) (data : List UInt8) {t : Tty}
    (h : CursorOnScreen t) : CursorOnScreen (data.foldl put t) := by
  refine foldl_invariant ?_ data h
  intro t c ht
  obtain ⟨attr, hattr⟩ := hput t c
  rw [hattr]
  exact cursorOnScreen_putcharAttr c attr ht

/-- One operation. -/
theorem cursorOnScreen_run {t : Tty} (op : TtyOp) (h : CursorOnScreen t) :
    CursorOnScreen (op.run t) := by
  have hchar : ∀ t c, ∃ attr, terminalPutchar t c = terminalPutcharAttr t c attr :=
    fun t c => ⟨_, rfl⟩
  cases op with
  | putchar c => exact cursorOnScreen_putcharAttr c _ h
  | putcharAttr c attr => exact cursorOnScreen_putcharAttr c attr h
  | write data => exact cursorOnScreen_foldl hchar data h
  | writeAttr data attr => exact cursorOnScreen_foldl (fun t c => ⟨attr, rfl⟩) data h
  | writestring data => exact cursorOnScreen_foldl hchar data.bytes h
  | cls =>
      show (terminalCls t).row < VGA_HEIGHT ∧ (terminalCls t).column < VGA_WIDTH
      rw [terminalCls_row, terminalCls_column]
      exact h

/-- The run lemma. -/
theorem cursorOnScreen_runOps {t : Tty} (ops : List TtyOp) (h : CursorOnScreen t) :
    CursorOnScreen (runOps t ops) :=
  foldl_invariant (fun _ op => cursorOnScreen_run op) ops h

/-- `terminal_initialise` puts the cursor at the origin. -/
theorem cursorOnScreen_terminalInitialise (inb : UInt16 → UInt8) (t : Tty) :
    CursorOnScreen (terminalInitialise inb t) := by
  have hshows := shows_terminalInitialise inb t
  exact ⟨hshows.row_lt, hshows.column_lt⟩

/-- The cell of a glyph after the call for it. -/
theorem cell_putcharAttr {t : Tty} {c : UInt8} (attr : UInt8) (hc : c ≠ '\n'.toUInt8)
    (h : CursorOnScreen t) :
    (terminalPutcharAttr t c attr).buffer (t.row * VGA_WIDTH + t.column)
      = if t.row = 24 ∧ t.column = 79 then vgaEntry ' '.toUInt8 t.blankColour
        else vgaEntry c attr := by
  have hlt : t.row * VGA_WIDTH + t.column < VGA_MEM_SIZE :=
    offset_lt_memSize (p := cursor t) h.1 h.2
  have hlast : t.row + 1 = VGA_HEIGHT ∧ t.column + 1 = VGA_WIDTH
      ↔ t.row = 24 ∧ t.column = 79 := by
    simp only [VGA_HEIGHT, VGA_WIDTH]
    omega
  have hcell : (written t c attr).buffer (t.row * VGA_WIDTH + t.column) = vgaEntry c attr := by
    rw [written_buffer c attr h.1 h.2, if_neg hc]
    exact Function.update_self _ _ _
  rw [putcharAttr_buffer c attr h, hcell]
  simp only [endsAt_glyph_iff t attr hc, hlast, Nat.le_of_lt hlt, and_true]

/-- A glyph in the last cell clears the screen in the same call. -/
theorem cleared_putcharAttr {t : Tty} {c : UInt8} (attr : UInt8) (hc : c ≠ '\n'.toUInt8)
    (h : CursorOnScreen t) (hlast : t.row = 24 ∧ t.column = 79) :
    cursor (terminalPutcharAttr t c attr) = origin ∧ ∀ i < VGA_MEM_SIZE,
      (terminalPutcharAttr t c attr).buffer i = vgaEntry ' '.toUInt8 t.blankColour := by
  have hends : EndsAt VGA_WIDTH VGA_HEIGHT (cursor t) (itemOf c attr) := by
    rw [endsAt_glyph_iff t attr hc, hlast.1, hlast.2]
    exact ⟨rfl, rfl⟩
  constructor
  · rw [putcharAttr_of_ends c attr h.1 h.2 hends, cursor, updateCursor_row, updateCursor_column,
      terminalCls_row, terminalCls_column]
    rfl
  · intro i hi
    rw [putcharAttr_buffer c attr h, if_pos ⟨hends, Nat.le_of_lt hi⟩]

/-- **When `terminal_putchar_attr` returns, the cell of the glyph holds it, unless it was the
last cell of the screen. The glyph in the last cell completes the page: the same call clears the
screen and puts the cursor at the origin, and the cell is blank.** -/
theorem glyph_shown (inb : UInt16 → UInt8) (t : Tty) (ops : List TtyOp) (c attr : UInt8)
    (hc : c ≠ '\n'.toUInt8) :
    let s := runOps (terminalInitialise inb t) ops
    let s' := terminalPutcharAttr s c attr
    s'.buffer (s.row * VGA_WIDTH + s.column)
      = (if s.row = 24 ∧ s.column = 79 then vgaEntry ' '.toUInt8 s.blankColour
        else vgaEntry c attr) ∧
    (s.row = 24 ∧ s.column = 79 → cursor s' = origin ∧
      ∀ i < VGA_MEM_SIZE, s'.buffer i = vgaEntry ' '.toUInt8 s.blankColour) := by
  intro s s'
  have hscreen : CursorOnScreen s :=
    cursorOnScreen_runOps ops (cursorOnScreen_terminalInitialise inb t)
  exact ⟨cell_putcharAttr attr hc hscreen, cleared_putcharAttr attr hc hscreen⟩

/-- A glyph behind a line and another glyph. -/
theorem glyph_shown_third :
    let s := runOps (terminalInitialise (fun _ => 0) .boot)
      [.write (ascii "Hello\n"), .putcharAttr 'B'.toUInt8 4]
    let s' := terminalPutcharAttr s 'A'.toUInt8 7
    s'.buffer (s.row * VGA_WIDTH + s.column)
      = (if s.row = 24 ∧ s.column = 79 then vgaEntry ' '.toUInt8 s.blankColour
        else vgaEntry 'A'.toUInt8 7) ∧
    (s.row = 24 ∧ s.column = 79 → cursor s' = origin ∧
      ∀ i < VGA_MEM_SIZE, s'.buffer i = vgaEntry ' '.toUInt8 s.blankColour) :=
  glyph_shown (fun _ => 0) .boot [.write (ascii "Hello\n"), .putcharAttr 'B'.toUInt8 4]
    'A'.toUInt8 7 (by decide)

/-- 24 newlines and 79 glyphs lead to the last cell. -/
def toLastCell : List UInt8 :=
  List.replicate 24 '\n'.toUInt8 ++ List.replicate 79 'A'.toUInt8

/-- The glyph in the last cell is gone when its call returns. -/
theorem last_glyph_cleared :
    let s := runOps (terminalInitialise (fun _ => 0) .boot) [.write toLastCell]
    'B'.toUInt8 ≠ '\n'.toUInt8 ∧ s.row = 24 ∧ s.column = 79
      ∧ (terminalPutcharAttr s 'B'.toUInt8 7).buffer (s.row * VGA_WIDTH + s.column)
          ≠ vgaEntry 'B'.toUInt8 7 := by
  intro s
  have htracks := tracks_runOps [.write toLastCell]
    (tracks_terminalInitialise (fun _ => 0) .boot)
  -- The cursor is where the text ends.
  have hcursor : cursor s = ⟨24, 79⟩ := by
    refine htracks.pos.trans ?_
    decide +kernel
  obtain ⟨hrow, hcol⟩ := Pos.mk.inj hcursor
  have hc : 'B'.toUInt8 ≠ '\n'.toUInt8 := by decide
  have hscreen : CursorOnScreen s := ⟨htracks.row_lt, htracks.column_lt⟩
  refine ⟨hc, hrow, hcol, ?_⟩
  intro hsame
  rw [cell_putcharAttr 7 hc hscreen, if_pos ⟨hrow, hcol⟩] at hsame
  have hchar := congrArg UInt16.toUInt8 hsame
  rw [toUInt8_vgaEntry, toUInt8_vgaEntry] at hchar
  exact absurd hchar (by decide)

/-! ### The colours of the cells -/

/-- The bits 0 to 2 of an attribute. -/
def attrForeground (attr : UInt8) : UInt8 := attr &&& 7

/-- The bits 4 to 6 of an attribute. -/
def attrBackground (attr : UInt8) : UInt8 := (attr >>> 4) &&& 7

/-- A colour from 0 to 7, as an argument of `terminal_setcolour`. -/
def colour (k : Fin 8) : UInt8 := UInt8.ofNat k

/-- What was stored in a cell last, and the colours in force then. -/
inductive CellMark where
  /-- Nothing after `terminal_initialise`. -/
  | untouched
  | glyph (fg bg : Fin 8)
  | cleared (bg : Fin 8)

/-- An event of the log marks the cell of a store. A store that comes right after a call of
`terminal_putentryat` is the one of the glyph, and the others are those of `terminal_cls`. -/
def markEvent (glyph cleared : CellMark) :
    Bool × (Nat → CellMark) → TtyEvent → Bool × (Nat → CellMark)
  | (_, mark), .putentryat _ _ => (true, mark)
  | (true, mark), .store i _ => (false, Function.update mark i glyph)
  | (false, mark), .store i _ => (false, Function.update mark i cleared)
  | s, .outw _ _ => s

/-- The marks after events, with the colours `fg` and `bg` in force. -/
def marksAfter (fg bg : Fin 8) (mark : Nat → CellMark) (events : List TtyEvent) :
    Nat → CellMark :=
  (events.foldl (markEvent (.glyph fg bg) (.cleared bg)) (false, mark)).2

/-- The terminal, the colours in force, and the mark of each cell. -/
structure Painted where
  tty : Tty
  fg : Fin 8
  bg : Fin 8
  mark : Nat → CellMark

/-- A call of `terminal_setcolour`, or one character of a call of `terminal_write`. -/
inductive ColourStep where
  | setcolour (fg bg : Fin 8)
  | putchar (c : UInt8)

/-- One step. The colours in force are those of the last call of `terminal_setcolour`, and
the marks come from the events that the step adds to the log. -/
def Painted.step (p : Painted) : ColourStep → Painted
  | .setcolour fg bg => ⟨terminalSetcolour p.tty (colour fg) (colour bg), fg, bg, p.mark⟩
  | .putchar c =>
    let t := terminalPutchar p.tty c
    { p with tty := t, mark := marksAfter p.fg p.bg p.mark (t.log.drop p.tty.log.length) }

/-- After `terminal_initialise` the colours are green on black. -/
def Painted.start (inb : UInt16 → UInt8) (t : Tty) : Painted :=
  ⟨terminalInitialise inb t, 2, 0, fun _ => .untouched⟩

/-- The value of a cell has the colours of its mark. -/
def CellHonoured (v : UInt16) : CellMark → Prop
  | .untouched => True
  | .glyph fg bg =>
    attrForeground (entryAttr v) = colour fg ∧ attrBackground (entryAttr v) = colour bg
  | .cleared bg => attrBackground (entryAttr v) = colour bg

/-- Every cell of the screen has the colours of its mark. -/
def Honoured (p : Painted) : Prop :=
  ∀ i < VGA_MEM_SIZE, CellHonoured (p.tty.buffer i) (p.mark i)

/-- The steps that keep the colours honoured. A character that completes the page needs a black
background, because the blank cells have one. Another glyph needs equal colours, because
they are swapped. -/
def KeepsColours (p : Painted) : ColourStep → Prop
  | .setcolour _ _ => True
  | .putchar c =>
    if EndsAt VGA_WIDTH VGA_HEIGHT (cursor p.tty) (charItem c) then p.bg = 0
    else c ≠ '\n'.toUInt8 → p.fg = p.bg

/-! ### The attributes -/

/-- The attribute that `terminal_putchar` uses has the colours in the other order. -/
theorem vgaAttr_swapped (fg bg : Fin 8) :
    attrForeground (vgaAttr VGA_CTL_NOBLINK (colour fg) VGA_CTL_INTHIGH (colour bg)) = colour bg
      ∧ attrBackground (vgaAttr VGA_CTL_NOBLINK (colour fg) VGA_CTL_INTHIGH (colour bg))
        = colour fg := by
  revert fg bg
  decide

/-- So it honours equal colours only. -/
theorem glyph_honoured_iff (c : UInt8) (fg bg : Fin 8) :
    CellHonoured
        (vgaEntry c (vgaAttr VGA_CTL_NOBLINK (colour fg) VGA_CTL_INTHIGH (colour bg)))
        (.glyph fg bg)
      ↔ fg = bg := by
  show attrForeground (entryAttr _) = colour fg ∧ attrBackground (entryAttr _) = colour bg ↔ _
  obtain ⟨hfg, hbg⟩ := vgaAttr_swapped fg bg
  have hinj : colour fg = colour bg ↔ fg = bg := by
    revert fg bg
    decide
  rw [entryAttr_vgaEntry, hfg, hbg, eq_comm, and_self, hinj]

/-- The blank colour is green on black. -/
theorem cleared_honoured_iff (bg : Fin 8) :
    CellHonoured
        (vgaEntry ' '.toUInt8 (vgaEntryColour VGA_COLOUR_GREEN VGA_COLOUR_BLACK)) (.cleared bg)
      ↔ bg = 0 := by
  show attrBackground (entryAttr _) = colour bg ↔ _
  rw [entryAttr_vgaEntry]
  revert bg
  decide

/-! ### The marks -/

/-- Words written to ports mark nothing. -/
theorem foldl_markEvent_words (glyph cleared : CellMark) (words : List (UInt16 × UInt16)) :
    ∀ s, (words.map fun w => TtyEvent.outw w.1 w.2).foldl (markEvent glyph cleared) s = s := by
  induction words with
  | nil => exact fun _ => rfl
  | cons w words ih => exact fun s => ih s

/-- The stores of `terminal_cls` mark their cells as cleared. -/
theorem foldl_markEvent_stores (glyph cleared : CellMark) (v : UInt16) (cells : List Nat) :
    ∀ mark, (cells.map fun i => TtyEvent.store i v).foldl (markEvent glyph cleared) (false, mark)
      = (false, fun j => if j ∈ cells then cleared else mark j) := by
  induction cells with
  | nil =>
      intro mark
      simp
  | cons i cells ih =>
      intro mark
      show (cells.map _).foldl _ (false, Function.update mark i cleared) = _
      rw [ih, Prod.mk.injEq]
      refine ⟨rfl, ?_⟩
      funext j
      simp only [List.mem_cons, Function.update_apply]
      by_cases hj : j = i
      · simp [hj]
      · simp [hj]

/-- The event of a glyph, and its store. -/
def putEvents (t : Tty) (c attr : UInt8) : List TtyEvent :=
  if c = '\n'.toUInt8 then []
  else [.putentryat t.column t.row,
    .store ((t.row * VGA_WIDTH + t.column) % 2 ^ 32) (vgaEntry c attr)]

/-- The stores of it are logged. -/
theorem written_log (t : Tty) (c attr : UInt8) :
    (written t c attr).log = t.log ++ putEvents t c attr := by
  unfold written putEvents
  split
  · rw [List.append_nil]
  · exact terminalPutentryat_log t c attr t.column t.row

/-- A cursor update writes words to ports. -/
theorem updateCursor_log (t : Tty) (x y : UInt8) :
    ∃ words : List (UInt16 × UInt16),
      (updateCursor t x y).log = t.log ++ words.map fun w => .outw w.1 w.2 := by
  let pos := (y.toNat * VGA_WIDTH + x.toNat).toUInt16
  refine ⟨[(0x3D4, 0x0F), (0x3D5, (pos &&& 0xFF).toUInt8.toUInt16), (0x3D4, 0x0E),
    (0x3D5, ((pos >>> 8) &&& 0xFF).toUInt8.toUInt16)], ?_⟩
  simp [updateCursor, Tty.outw, pos]

/-- A glyph marks the cell at the cursor. -/
theorem foldl_markEvent_putEvents (glyph cleared : CellMark) {t : Tty} (c attr : UInt8)
    (h : CursorOnScreen t) (mark : Nat → CellMark) :
    (putEvents t c attr).foldl (markEvent glyph cleared) (false, mark)
      = (false, if c = '\n'.toUInt8 then mark
          else Function.update mark ((cursor t).offset VGA_WIDTH) glyph) := by
  have hlt := offset_lt_memSize (p := cursor t) h.1 h.2
  have hmod : (t.row * VGA_WIDTH + t.column) % 2 ^ 32 = (cursor t).offset VGA_WIDTH :=
    Nat.mod_eq_of_lt (Nat.lt_trans hlt (by decide))
  unfold putEvents
  rw [hmod]
  split <;> rfl

section
variable {t : Tty} (fg bg : Fin 8) (mark : Nat → CellMark) (c attr : UInt8)

/-- The marks after a character that stays on the page. -/
theorem marksAfter_of_stays (h : CursorOnScreen t)
    (hstays : ¬ EndsAt VGA_WIDTH VGA_HEIGHT (cursor t) (itemOf c attr)) :
    marksAfter fg bg mark ((terminalPutcharAttr t c attr).log.drop t.log.length)
      = if c = '\n'.toUInt8 then mark
        else Function.update mark ((cursor t).offset VGA_WIDTH) (.glyph fg bg) := by
  let p := (cursor t).next VGA_WIDTH (itemOf c attr)
  obtain ⟨words, hlog⟩ := updateCursor_log
    { written t c attr with row := p.row, column := p.col } p.col.toUInt8 p.row.toUInt8
  have hlog' : (terminalPutcharAttr t c attr).log
      = t.log ++ (putEvents t c attr ++ words.map fun w => .outw w.1 w.2) := by
    rw [putcharAttr_of_stays c attr h.1 h.2 hstays, hlog, ← List.append_assoc, ← written_log]
  rw [hlog', List.drop_left, marksAfter, List.foldl_append, foldl_markEvent_putEvents _ _ c attr h,
    foldl_markEvent_words]

/-- After a character that ends the page every cell is a cleared one. -/
theorem marksAfter_of_ends (h : CursorOnScreen t)
    (hends : EndsAt VGA_WIDTH VGA_HEIGHT (cursor t) (itemOf c attr)) {i : Nat}
    (hi : i < VGA_MEM_SIZE) :
    marksAfter fg bg mark ((terminalPutcharAttr t c attr).log.drop t.log.length) i
      = .cleared bg := by
  let t₁ : Tty := { written t c attr with row := 0, column := 0 }
  obtain ⟨words, hlog⟩ := updateCursor_log (terminalCls t₁) 0 0
  have hcls : (terminalCls t₁).log = t.log ++ (putEvents t c attr ++
      (List.range (VGA_MEM_SIZE + 1)).reverse.map fun j =>
        .store j (vgaEntry ' '.toUInt8 t₁.blankColour)) := by
    rw [terminalCls_log, ← List.append_assoc, ← written_log]
  have hlog' : (terminalPutcharAttr t c attr).log
      = t.log ++ (putEvents t c attr ++
          ((List.range (VGA_MEM_SIZE + 1)).reverse.map fun j =>
            .store j (vgaEntry ' '.toUInt8 t₁.blankColour))
        ++ words.map fun w => .outw w.1 w.2) := by
    rw [putcharAttr_of_ends c attr h.1 h.2 hends, hlog, hcls, List.append_assoc]
  have hmem : i ∈ (List.range (VGA_MEM_SIZE + 1)).reverse := by
    rw [List.mem_reverse, List.mem_range]
    omega
  rw [hlog', List.drop_left, marksAfter, List.foldl_append, List.foldl_append,
    foldl_markEvent_putEvents _ _ c attr h, foldl_markEvent_stores, foldl_markEvent_words]
  simp only [hmem, if_true]

/-- A character keeps the colours. -/
theorem putcharAttr_colours (h : CursorOnScreen t) :
    (terminalPutcharAttr t c attr).foreground = t.foreground
      ∧ (terminalPutcharAttr t c attr).background = t.background
      ∧ (terminalPutcharAttr t c attr).blankColour = t.blankColour := by
  have hwritten : (written t c attr).foreground = t.foreground
      ∧ (written t c attr).background = t.background := by
    unfold written
    split <;> exact ⟨rfl, rfl⟩
  by_cases hends : EndsAt VGA_WIDTH VGA_HEIGHT (cursor t) (itemOf c attr)
  · rw [putcharAttr_of_ends c attr h.1 h.2 hends, updateCursor_foreground,
      updateCursor_background, updateCursor_blankColour, terminalCls_foreground,
      terminalCls_background, terminalCls_blankColour]
    exact ⟨hwritten.1, hwritten.2, written_blankColour t c attr⟩
  · rw [putcharAttr_of_stays c attr h.1 h.2 hends]
    exact ⟨hwritten.1, hwritten.2, written_blankColour t c attr⟩

end

/-! ### The run -/

/-- What holds in every state of a run: the cursor is on the screen, the terminal has the
colours in force, and the blank colour is the one of `terminal_initialise`. -/
structure InForce (p : Painted) : Prop where
  screen : CursorOnScreen p.tty
  foreground : p.tty.foreground = colour p.fg
  background : p.tty.background = colour p.bg
  blank : p.tty.blankColour = vgaEntryColour VGA_COLOUR_GREEN VGA_COLOUR_BLACK

/-- The colours of the start are in force. -/
theorem inForce_start (inb : UInt16 → UInt8) (t : Tty) : InForce (Painted.start inb t) := by
  obtain ⟨hfg, hbg, hblank⟩ := terminalInitialise_colours t inb
  exact ⟨cursorOnScreen_terminalInitialise inb t, hfg, hbg, hblank⟩

/-- A step keeps the colours in force. -/
theorem inForce_step (p : Painted) (s : ColourStep) (h : InForce p) : InForce (p.step s) := by
  cases s with
  | setcolour fg bg => exact ⟨h.screen, rfl, rfl, h.blank⟩
  | putchar c =>
      obtain ⟨hfg, hbg, hblank⟩ := putcharAttr_colours c
        (vgaAttr VGA_CTL_NOBLINK p.tty.foreground VGA_CTL_INTHIGH p.tty.background) h.screen
      exact ⟨cursorOnScreen_putcharAttr c _ h.screen, hfg.trans h.foreground,
        hbg.trans h.background, hblank.trans h.blank⟩

/-- A character that ends the page clears the screen with a black background. -/
theorem honoured_putchar_of_ends {p : Painted} (h : InForce p) (c : UInt8)
    (hends : EndsAt VGA_WIDTH VGA_HEIGHT (cursor p.tty) (charItem c)) :
    Honoured (p.step (.putchar c)) ↔ p.bg = 0 := by
  let attr := vgaAttr VGA_CTL_NOBLINK p.tty.foreground VGA_CTL_INTHIGH p.tty.background
  have hends' := (endsAt_itemOf (cursor p.tty) c attr).mpr hends
  -- Every cell is blank, and marked as cleared.
  have hcell : ∀ i < VGA_MEM_SIZE,
      CellHonoured ((p.step (.putchar c)).tty.buffer i) ((p.step (.putchar c)).mark i)
        ↔ p.bg = 0 := by
    intro i hi
    have hmark := marksAfter_of_ends p.fg p.bg p.mark c attr h.screen hends' hi
    have hvalue := putcharAttr_buffer c attr h.screen i
    rw [if_pos ⟨hends', Nat.le_of_lt hi⟩, h.blank] at hvalue
    show CellHonoured ((terminalPutcharAttr p.tty c attr).buffer i) (marksAfter _ _ _ _ i) ↔ _
    rw [hvalue, ← cleared_honoured_iff p.bg]
    exact iff_of_eq (congrArg _ hmark)
  constructor
  · intro hall
    exact (hcell 0 (by decide)).mp (hall 0 (by decide))
  · intro hbg i hi
    exact (hcell i hi).mpr hbg

/-- The cells and the marks after a character that stays on the page: a glyph goes to the cell
at the cursor, with the colours swapped. -/
theorem putchar_of_stays {p : Painted} (h : InForce p) (c : UInt8)
    (hstays : ¬ EndsAt VGA_WIDTH VGA_HEIGHT (cursor p.tty) (charItem c)) :
    (p.step (.putchar c)).mark
        = (if c = '\n'.toUInt8 then p.mark
          else Function.update p.mark ((cursor p.tty).offset VGA_WIDTH) (.glyph p.fg p.bg))
      ∧ (p.step (.putchar c)).tty.buffer
        = if c = '\n'.toUInt8 then p.tty.buffer
          else Function.update p.tty.buffer ((cursor p.tty).offset VGA_WIDTH)
            (vgaEntry c
              (vgaAttr VGA_CTL_NOBLINK (colour p.fg) VGA_CTL_INTHIGH (colour p.bg))) := by
  let attr := vgaAttr VGA_CTL_NOBLINK p.tty.foreground VGA_CTL_INTHIGH p.tty.background
  have hstays' := mt (endsAt_itemOf (cursor p.tty) c attr).mp hstays
  refine ⟨marksAfter_of_stays p.fg p.bg p.mark c attr h.screen hstays', ?_⟩
  rw [← h.foreground, ← h.background, ← written_buffer c attr h.screen.1 h.screen.2]
  funext i
  exact (putcharAttr_buffer c attr h.screen i).trans (if_neg fun hboth => hstays' hboth.1)

/-- A character that stays on the page needs equal colours, unless it is a newline. -/
theorem honoured_putchar_of_stays {p : Painted} (h : InForce p) (hp : Honoured p) (c : UInt8)
    (hstays : ¬ EndsAt VGA_WIDTH VGA_HEIGHT (cursor p.tty) (charItem c)) :
    Honoured (p.step (.putchar c)) ↔ (c ≠ '\n'.toUInt8 → p.fg = p.bg) := by
  obtain ⟨hmark, hbuffer⟩ := putchar_of_stays h c hstays
  unfold Honoured
  rw [hmark, hbuffer]
  by_cases hc : c = '\n'.toUInt8
  · rw [if_pos hc, if_pos hc]
    exact iff_of_true hp fun hne => absurd hc hne
  · rw [if_neg hc, if_neg hc]
    have hlt := offset_lt_memSize (p := cursor p.tty) h.screen.1 h.screen.2
    constructor
    · intro hall _
      have hcell := hall _ hlt
      rw [Function.update_self, Function.update_self] at hcell
      exact (glyph_honoured_iff c p.fg p.bg).mp hcell
    · intro hsame i hi
      by_cases hcell : i = (cursor p.tty).offset VGA_WIDTH
      · rw [hcell, Function.update_self, Function.update_self]
        exact (glyph_honoured_iff c p.fg p.bg).mpr (hsame hc)
      · rw [Function.update_of_ne hcell, Function.update_of_ne hcell]
        exact hp i hi

/-- The step lemma. -/
theorem honoured_step_iff (p : Painted) (s : ColourStep) (h : InForce p) (hp : Honoured p) :
    Honoured (p.step s) ↔ KeepsColours p s := by
  cases s with
  | setcolour fg bg => exact iff_of_true hp trivial
  | putchar c =>
      unfold KeepsColours
      by_cases hends : EndsAt VGA_WIDTH VGA_HEIGHT (cursor p.tty) (charItem c)
      · simp only [hends, if_true]
        exact honoured_putchar_of_ends h c hends
      · simp only [hends, if_false]
        exact honoured_putchar_of_stays h hp c hends

/-- A call of `terminal_setcolour` or of `terminal_write`. -/
inductive ColourCall where
  | setcolour (fg bg : Fin 8)
  | write (data : List UInt8)

/-- The terminal after a call. -/
def ColourCall.run (t : Tty) : ColourCall → Tty
  | .setcolour fg bg => terminalSetcolour t (colour fg) (colour bg)
  | .write data => terminalWrite t data

/-- The steps of a call. -/
def ColourCall.steps : ColourCall → List ColourStep
  | .setcolour fg bg => [.setcolour fg bg]
  | .write data => data.map .putchar

/-- The steps of the calls lead to the terminal of the calls. -/
theorem tty_foldl_steps (calls : List ColourCall) :
    ∀ p : Painted, ((calls.flatMap ColourCall.steps).foldl Painted.step p).tty
      = calls.foldl ColourCall.run p.tty := by
  have hwrite (data : List UInt8) : ∀ p : Painted,
      ((data.map ColourStep.putchar).foldl Painted.step p).tty = terminalWrite p.tty data := by
    induction data with
    | nil => exact fun _ => rfl
    | cons c data ih => exact fun p => ih (p.step (.putchar c))
  induction calls with
  | nil => exact fun _ => rfl
  | cons call calls ih =>
      intro p
      rw [List.flatMap_cons, List.foldl_append, ih, List.foldl_cons]
      cases call with
      | setcolour fg bg => rfl
      | write data =>
          show calls.foldl ColourCall.run ((data.map ColourStep.putchar).foldl _ p).tty = _
          rw [hwrite]
          rfl

/-- **The colours are honoured in every state of a run exactly when each step keeps them: each
glyph has equal colours, and each page ends on a black background.** -/
theorem colours_honoured_iff (inb : UInt16 → UInt8) (t : Tty) (calls : List ColourCall) :
    let steps := calls.flatMap ColourCall.steps
    let state := fun n => (steps.take n).foldl Painted.step (Painted.start inb t)
    (state steps.length).tty = calls.foldl ColourCall.run (terminalInitialise inb t)
      ∧ ((∀ n ≤ steps.length, Honoured (state n))
        ↔ ∀ i (h : i < steps.length), KeepsColours (state i) steps[i]) := by
  intro steps state
  constructor
  · show ((steps.take steps.length).foldl Painted.step (Painted.start inb t)).tty = _
    rw [List.take_length]
    exact tty_foldl_steps calls (Painted.start inb t)
  · have hstart : Honoured (Painted.start inb t) := fun _ _ => trivial
    exact foldl_keeps_iff inForce_step honoured_step_iff steps (inForce_start inb t) hstart

/-- A call of `terminal_setcolour` does not move the cursor. -/
theorem cursor_setcolour (p : Painted) (fg bg : Fin 8) :
    cursor (p.step (.setcolour fg bg)).tty = cursor p.tty := rfl

/-- The first glyph of a fresh screen has the colours swapped. -/
theorem first_glyph_swapped {p : Painted} (h : InForce p) (hcursor : cursor p.tty = origin)
    {c : UInt8} (hc : c ≠ '\n'.toUInt8) :
    (p.step (.putchar c)).mark 0 = .glyph p.fg p.bg
      ∧ attrForeground (entryAttr ((p.step (.putchar c)).tty.buffer 0)) = colour p.bg
      ∧ attrBackground (entryAttr ((p.step (.putchar c)).tty.buffer 0)) = colour p.fg := by
  have hstays : ¬ EndsAt VGA_WIDTH VGA_HEIGHT (cursor p.tty) (charItem c) := by
    rw [hcursor, charItem, if_neg hc]
    exact fun hends => absurd hends.1 (by decide)
  obtain ⟨hmark, hbuffer⟩ := putchar_of_stays h c hstays
  have hoffset : origin.offset VGA_WIDTH = 0 := rfl
  rw [if_neg hc, hcursor, hoffset] at hmark hbuffer
  rw [hmark, hbuffer, Function.update_self, Function.update_self, entryAttr_vgaEntry]
  exact ⟨rfl, vgaAttr_swapped p.fg p.bg⟩

/-- A first cell with another foreground than that of its mark. -/
theorem not_honoured_of_first {p : Painted} {fg bg : Fin 8} (hmark : p.mark 0 = .glyph fg bg)
    (hfg : attrForeground (entryAttr (p.tty.buffer 0)) = colour bg)
    (hne : colour bg ≠ colour fg) : ¬ Honoured p := by
  intro hall
  have hcell := hall 0 (by decide)
  rw [hmark] at hcell
  exact hne (hfg.symm.trans hcell.1)

/-- A glyph written in colour 7 on colour 1 is shown in colour 1 on colour 7. -/
theorem glyph_colours_swapped :
    let calls : List ColourCall := [.setcolour 7 1, .write ['A'.toUInt8]]
    let p := (calls.flatMap ColourCall.steps).foldl Painted.step
      (Painted.start (fun _ => 0) .boot)
    p.mark 0 = .glyph 7 1 ∧ attrForeground (entryAttr (p.tty.buffer 0)) = 1
      ∧ attrBackground (entryAttr (p.tty.buffer 0)) = 7 ∧ ¬ Honoured p := by
  intro calls p
  have hforce := inForce_step _ (.setcolour 7 1) (inForce_start (fun _ => 0) .boot)
  have hcursor := cursor_setcolour (Painted.start (fun _ => 0) .boot) 7 1
  have horigin := (shows_terminalInitialise (fun _ => 0) Tty.boot).pos
  have hc : 'A'.toUInt8 ≠ '\n'.toUInt8 := by decide
  obtain ⟨hmark, hfg, hbg⟩ := first_glyph_swapped hforce (hcursor.trans horigin) hc
  exact ⟨hmark, hfg, hbg, not_honoured_of_first hmark hfg (by decide)⟩

end Chuckles.Proofs
