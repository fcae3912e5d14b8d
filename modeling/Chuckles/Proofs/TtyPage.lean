import Chuckles.Kernel.Tty
import Chuckles.Lib.Page

/-!
# `Chuckles.Proofs.TtyPage`: the terminal shows the last page of its text

`terminal_putchar_attr` keeps one page of text on the screen. It clears the screen when
a newline on row 24, or a glyph in the last cell, would move below it.

`putcharAttr_of_stays` and `putcharAttr_of_ends` are the two outcomes of a call, in the
terms of `Lib.Page`. `Shows t page` says that the terminal shows a page: the cursor is
where the layout of the page ends, each glyph is in its cell, and every other cell holds
a space. `shows_putcharAttr` is the step lemma and `shows_writePairs` the run lemma.

The cursor on the hardware is separate. `Crtc` replays the words written to the ports of
the CRT controller: a word written to the index port 0x3D4 sets the index with its low
byte and the data with its high byte. `crtc_updateCursor` says what the two cursor
registers have received after `update_cursor`.
-/

set_option autoImplicit false

namespace Chuckles.Proofs

open Lib.Page

/-! ### One character -/

/-- A character with its attribute, as an item of text. -/
def itemOf (c attr : UInt8) : Item (UInt8 × UInt8) :=
  if c = '\n'.toUInt8 then .newline else .glyph (c, attr)

/-- The cursor of the terminal. -/
def cursor (t : Tty) : Pos := ⟨t.row, t.column⟩

/-- The terminal with the cell of the character written, and the cursor not moved. -/
def written (t : Tty) (c attr : UInt8) : Tty :=
  if c = '\n'.toUInt8 then t else terminalPutentryat t c attr t.column t.row

/-- What a written cell leaves: the blank and the cursor. -/
@[simp] theorem written_blankColour (t : Tty) (c attr : UInt8) :
    (written t c attr).blankColour = t.blankColour := by
  unfold written
  split <;> rfl

@[simp] theorem written_column (t : Tty) (c attr : UInt8) :
    (written t c attr).column = t.column := by
  unfold written
  split <;> rfl

@[simp] theorem written_row (t : Tty) (c attr : UInt8) : (written t c attr).row = t.row := by
  unfold written
  split <;> rfl

/-- A character that does not end the page: its cell is written and the cursor moves on. -/
theorem putcharAttr_of_stays {t : Tty} (c attr : UInt8) (hrow : t.row < VGA_HEIGHT)
    (hcol : t.column < VGA_WIDTH)
    (h : ¬ EndsAt VGA_WIDTH VGA_HEIGHT (cursor t) (itemOf c attr)) :
    let p := (cursor t).next VGA_WIDTH (itemOf c attr)
    terminalPutcharAttr t c attr
      = updateCursor { written t c attr with row := p.row, column := p.col }
          p.col.toUInt8 p.row.toUInt8 := by
  intro p
  have hrow' : sizeSucc t.row = t.row + 1 := sizeSucc_of_lt (by unfold VGA_HEIGHT at hrow; omega)
  have hcol' : sizeSucc t.column = t.column + 1 :=
    sizeSucc_of_lt (by unfold VGA_WIDTH at hcol; omega)
  -- The cases are those of the source, and the page does not end in any of them.
  by_cases hc : c = '\n'.toUInt8
  · have hlast : t.row + 1 ≠ VGA_HEIGHT := by simpa [itemOf, hc, EndsAt, cursor] using h
    simp [terminalPutcharAttr, written, p, itemOf, hc, Pos.next, cursor, hrow', hlast]
  · by_cases hwrap : t.column + 1 = VGA_WIDTH
    · have hlast : t.row + 1 ≠ VGA_HEIGHT := by
        simpa [itemOf, hc, EndsAt, cursor, hwrap] using h
      simp [terminalPutcharAttr, written, p, itemOf, hc, Pos.next, cursor, hrow', hcol', hwrap,
        hlast]
    · simp [terminalPutcharAttr, written, p, itemOf, hc, Pos.next, cursor, hcol', hwrap,
        terminalPutentryat, Tty.store]

/-- A character that ends the page: its cell is written, the screen is cleared, and the
cursor moves to the origin. -/
theorem putcharAttr_of_ends {t : Tty} (c attr : UInt8) (hrow : t.row < VGA_HEIGHT)
    (hcol : t.column < VGA_WIDTH)
    (h : EndsAt VGA_WIDTH VGA_HEIGHT (cursor t) (itemOf c attr)) :
    terminalPutcharAttr t c attr
      = updateCursor (terminalCls { written t c attr with row := 0, column := 0 }) 0 0 := by
  have hrow' : sizeSucc t.row = t.row + 1 := sizeSucc_of_lt (by unfold VGA_HEIGHT at hrow; omega)
  have hcol' : sizeSucc t.column = t.column + 1 :=
    sizeSucc_of_lt (by unfold VGA_WIDTH at hcol; omega)
  by_cases hc : c = '\n'.toUInt8
  · have hlast : t.row + 1 = VGA_HEIGHT := by simpa [itemOf, hc, EndsAt, cursor] using h
    simp [terminalPutcharAttr, written, hc, hrow', hlast]
  · obtain ⟨hlast, hwrap⟩ : t.row + 1 = VGA_HEIGHT ∧ t.column + 1 = VGA_WIDTH := by
      simpa [itemOf, hc, EndsAt, cursor] using h
    simp [terminalPutcharAttr, written, hc, hrow', hcol', hlast, hwrap]

/-! ### The page on the screen -/

/-- The terminal shows the page: the cursor is where the layout of the page ends, on the
screen; each glyph is in its cell; every other cell of the screen holds a space. -/
structure Shows (t : Tty) (page : List (Item (UInt8 × UInt8))) : Prop where
  pos : cursor t = finish VGA_WIDTH origin page
  row_lt : t.row < VGA_HEIGHT
  column_lt : t.column < VGA_WIDTH
  glyph : ∀ pl ∈ layout VGA_WIDTH origin page,
    t.buffer (pl.1.offset VGA_WIDTH) = vgaEntry pl.2.1 pl.2.2
  blank : ∀ i < VGA_MEM_SIZE,
    (∀ pl ∈ layout VGA_WIDTH origin page, pl.1.offset VGA_WIDTH ≠ i) →
    (t.buffer i).toUInt8 = ' '.toUInt8

/-- A position on the screen is the position of a cell of the screen. -/
theorem offset_lt_memSize {p : Pos} (hrow : p.row < VGA_HEIGHT) (hcol : p.col < VGA_WIDTH) :
    p.offset VGA_WIDTH < VGA_MEM_SIZE := by
  simp only [Pos.offset, VGA_WIDTH, VGA_HEIGHT, VGA_MEM_SIZE] at *
  omega

/-- The screen after `terminal_initialise` shows the empty page. -/
theorem shows_terminalInitialise (inb : UInt16 → UInt8) (t : Tty) :
    Shows (terminalInitialise inb t) [] := by
  obtain ⟨⟨hrow, hcol⟩, hbuf, -⟩ := terminalInitialise_spec t inb
  refine ⟨?_, ?_, ?_, by simp [layout], fun i hi _ => ?_⟩
  · rw [cursor, hrow, hcol]
    rfl
  · rw [hrow]
    decide
  · rw [hcol]
    decide
  · rw [hbuf i, if_pos hi, toUInt8_vgaEntry]

/-- A cleared screen with the cursor at the origin shows the empty page. -/
theorem shows_cleared (t : Tty) (hrow : t.row = 0) (hcol : t.column = 0) :
    Shows (updateCursor (terminalCls t) 0 0) [] := by
  refine ⟨?_, ?_, ?_, by simp [layout], fun i hi _ => ?_⟩
  · rw [cursor, updateCursor_row, updateCursor_column, terminalCls_row, terminalCls_column, hrow,
      hcol]
    rfl
  · rw [updateCursor_row, terminalCls_row, hrow]
    decide
  · rw [updateCursor_column, terminalCls_column, hcol]
    decide
  · rw [updateCursor_buffer, terminalCls_buffer, if_pos (Nat.le_of_lt hi), toUInt8_vgaEntry]

/-- The character goes into the cell at the cursor, unless it is a newline. -/
theorem written_buffer {t : Tty} (c attr : UInt8) (hrow : t.row < VGA_HEIGHT)
    (hcol : t.column < VGA_WIDTH) :
    (written t c attr).buffer = if c = '\n'.toUInt8 then t.buffer
      else Function.update t.buffer ((cursor t).offset VGA_WIDTH) (vgaEntry c attr) := by
  unfold written
  split
  · rfl
  · have hlt := offset_lt_memSize (p := cursor t) hrow hcol
    have hmod : (t.row * VGA_WIDTH + t.column) % 2 ^ 32 = (cursor t).offset VGA_WIDTH :=
      Nat.mod_eq_of_lt (Nat.lt_trans hlt (by decide))
    rw [terminalPutentryat_buffer, hmod]

/-- The step lemma: one more character goes on the page, or completes it. -/
theorem shows_putcharAttr {t : Tty} {page : List (Item (UInt8 × UInt8))} (c attr : UInt8)
    (h : Shows t page) :
    Shows (terminalPutcharAttr t c attr)
      (if EndsAt VGA_WIDTH VGA_HEIGHT (cursor t) (itemOf c attr) then []
        else page ++ [itemOf c attr]) := by
  have hW : 0 < VGA_WIDTH := by decide
  split
  · rename_i hends
    -- The screen is cleared behind the written cell, so the page starts anew.
    rw [putcharAttr_of_ends c attr h.row_lt h.column_lt hends]
    exact shows_cleared _ rfl rfl
  · rename_i hstays
    rw [putcharAttr_of_stays c attr h.row_lt h.column_lt hstays]
    have hfin : finish VGA_WIDTH origin (page ++ [itemOf c attr])
        = (cursor t).next VGA_WIDTH (itemOf c attr) := by
      rw [finish_append_singleton, h.pos]
    have hbuf := written_buffer c attr h.row_lt h.column_lt
    refine ⟨?_, ?_, next_col_lt _ _ hW h.column_lt, fun pl hpl => ?_, fun i hi hfree => ?_⟩
    · rw [hfin]
      rfl
    · exact (finish_row_lt_iff _ _ h.row_lt).mpr hstays
    · -- A glyph of the page before sits in an earlier cell than the new one.
      show (written t c attr).buffer _ = _
      rw [hbuf]
      rw [layout_append, List.mem_append, ← h.pos] at hpl
      rcases hpl with hold | hnew
      · have hlt := offset_lt_of_mem_layout hW (p := origin) hW hold
        rw [← h.pos] at hlt
        split
        · exact h.glyph pl hold
        · rw [Function.update_of_ne (Nat.ne_of_lt hlt)]
          exact h.glyph pl hold
      · by_cases hc : c = '\n'.toUInt8
        · simp [itemOf, hc, layout] at hnew
        · simp only [itemOf, hc, if_false, layout, List.mem_singleton] at hnew
          subst hnew
          rw [if_neg hc, Function.update_self]
    · -- A cell with no glyph in it was free before, and is not the new cell.
      show ((written t c attr).buffer i).toUInt8 = _
      rw [layout_append, ← h.pos] at hfree
      have hold := h.blank i hi fun pl hpl => hfree pl (List.mem_append_left _ hpl)
      rw [hbuf]
      split
      · exact hold
      · rename_i hc
        have hne : (cursor t).offset VGA_WIDTH ≠ i :=
          hfree (cursor t, (c, attr)) (by simp [itemOf, hc, layout])
        rw [Function.update_of_ne hne.symm]
        exact hold

/-! ### A run -/

/-- `terminal_putchar_attr` on each of the characters. -/
def writePairs (t : Tty) (text : List (UInt8 × UInt8)) : Tty :=
  text.foldl (fun t ca => terminalPutcharAttr t ca.1 ca.2) t

/-- The text as items. -/
def itemsOf (text : List (UInt8 × UInt8)) : List (Item (UInt8 × UInt8)) :=
  text.map fun ca => itemOf ca.1 ca.2

/-- The run lemma: the terminal shows the last page of the text written since it was
initialised. -/
theorem shows_writePairs {t : Tty} (h : Shows t []) (text : List (UInt8 × UInt8)) :
    Shows (writePairs t text) (cut VGA_WIDTH VGA_HEIGHT (itemsOf text)).2 := by
  -- The induction takes the characters from the last one, as `cut` does.
  induction text using List.reverseRecOn with
  | nil => exact h
  | append_singleton text ca ih =>
    have hstep := shows_putcharAttr ca.1 ca.2 ih
    have hitems : itemsOf (text ++ [ca]) = itemsOf text ++ [itemOf ca.1 ca.2] := by
      simp [itemsOf]
    have hwrite : writePairs t (text ++ [ca])
        = terminalPutcharAttr (writePairs t text) ca.1 ca.2 := by
      simp [writePairs]
    rw [hitems, hwrite, cut_append_singleton, cutStep, ← ih.pos]
    by_cases hends : EndsAt VGA_WIDTH VGA_HEIGHT (cursor (writePairs t text)) (itemOf ca.1 ca.2)
    · rw [if_pos hends] at hstep ⊢
      exact hstep
    · rw [if_neg hends] at hstep ⊢
      exact hstep

/-! ### The hardware cursor -/

/-- The CRT controller: the index register, and the byte each data register received
last. -/
structure Crtc where
  index : UInt8
  sent : UInt8 → Option UInt8

/-- A byte written to a port. -/
def Crtc.outb (s : Crtc) (port : UInt16) (value : UInt8) : Crtc :=
  if port = 0x3D4 then { s with index := value }
  else if port = 0x3D5 then { s with sent := Function.update s.sent s.index (some value) }
  else s

/-- A word written to a port: the low byte to the port, the high byte to the next. -/
def Crtc.event (s : Crtc) : TtyEvent → Crtc
  | .outw port value => (s.outb port value.toUInt8).outb (port + 1) (value >>> 8).toUInt8
  | _ => s

/-- The controller after the logged events. -/
def crtc (log : List TtyEvent) : Crtc := log.foldl Crtc.event ⟨0, fun _ => none⟩

/-- What `update_cursor` sends to the two registers of the cursor position. -/
theorem crtc_updateCursor (t : Tty) (x y : UInt8) :
    let pos := (y.toNat * VGA_WIDTH + x.toNat).toUInt16
    (crtc (updateCursor t x y).log).sent 0x0F = some (pos &&& 0xFF).toUInt8 ∧
    (crtc (updateCursor t x y).log).sent 0x0E = some ((pos >>> 8) &&& 0xFF).toUInt8 := by
  intro pos
  have hlog : (updateCursor t x y).log = t.log ++ [.outw 0x3D4 0x0F,
      .outw 0x3D5 (pos &&& 0xFF).toUInt8.toUInt16, .outw 0x3D4 0x0E,
      .outw 0x3D5 ((pos >>> 8) &&& 0xFF).toUInt8.toUInt16] := by
    simp [updateCursor, Tty.outw, pos]
  rw [hlog]
  -- The data bytes do not matter for where they go.
  generalize (pos &&& 0xFF).toUInt8 = lo, ((pos >>> 8) &&& 0xFF).toUInt8 = hi
  simp [crtc, Crtc.event, Crtc.outb]

/-- The low byte of a word. -/
theorem toNat_and_low (v : UInt16) : (v &&& 0xFF).toUInt8.toNat = v.toNat % 256 := by
  have h : v.toNat &&& 255 = v.toNat % 256 := Nat.and_two_pow_sub_one_eq_mod v.toNat 8
  rw [UInt16.toNat_toUInt8, UInt16.toNat_and]
  show (v.toNat &&& 255) % 256 = v.toNat % 256
  rw [h, Nat.mod_mod]

/-- The two bytes of a position are the position. -/
theorem cursor_bytes {n : Nat} (h : n < 2 ^ 16) :
    ((n.toUInt16 >>> 8) &&& 0xFF).toUInt8.toNat * 256 + (n.toUInt16 &&& 0xFF).toUInt8.toNat
      = n := by
  have hn : n.toUInt16.toNat = n := by simpa using h
  -- The word is its high byte times 256, and its low byte.
  have hhigh : (n.toUInt16 >>> 8).toNat = n / 256 := by
    rw [UInt16.toNat_shiftRight, hn, Nat.shiftRight_eq_div_pow]
    rfl
  rw [toNat_and_low, toNat_and_low, hhigh, hn]
  omega

/-- A call of `terminal_putchar_attr` ends with `update_cursor` at the cursor it leaves. So
the two cursor registers have received that position. -/
theorem crtc_putcharAttr (t : Tty) (c attr : UInt8) :
    let t' := terminalPutcharAttr t c attr
    t'.row < VGA_HEIGHT → t'.column < VGA_WIDTH →
    ∃ lo hi, (crtc t'.log).sent 0x0F = some lo ∧ (crtc t'.log).sent 0x0E = some hi ∧
      hi.toNat * 256 + lo.toNat = VGA_WIDTH * t'.row + t'.column := by
  intro t' hrow hcol
  -- Every branch ends with `update_cursor` on the state it leaves.
  obtain ⟨w, hw⟩ : ∃ w : Tty, t' = updateCursor w w.column.toUInt8 w.row.toUInt8 := ⟨_, rfl⟩
  rw [hw] at hrow hcol ⊢
  rw [updateCursor_row] at hrow
  rw [updateCursor_column] at hcol
  obtain ⟨hlo, hhi⟩ := crtc_updateCursor w w.column.toUInt8 w.row.toUInt8
  refine ⟨_, _, hlo, hhi, ?_⟩
  have hrow' : w.row.toUInt8.toNat = w.row := by
    simp only [VGA_HEIGHT] at hrow
    simp only [Nat.toUInt8_eq, UInt8.toNat_ofNat']
    omega
  have hcol' : w.column.toUInt8.toNat = w.column := by
    simp only [VGA_WIDTH] at hcol
    simp only [Nat.toUInt8_eq, UInt8.toNat_ofNat']
    omega
  have hlt : w.row * VGA_WIDTH + w.column < VGA_MEM_SIZE :=
    offset_lt_memSize (p := cursor w) hrow hcol
  rw [hrow', hcol', cursor_bytes (Nat.lt_trans hlt (by decide)), updateCursor_row,
    updateCursor_column, Nat.mul_comm]

/-- **The terminal refines the page model.** Write a text after `terminal_initialise`, and
cut it into pages. Then the cursor is on the screen, at the position where the layout of the
last page ends. Each glyph of that page is in its own cell of the screen, with its attribute,
and every other cell holds a space. When something was written, the bytes that the two cursor
registers received last are the position of the cursor. -/
theorem terminal_refines_page (inb : UInt16 → UInt8) (t : Tty)
    (text : List (UInt8 × UInt8)) :
    let t' := writePairs (terminalInitialise inb t) text
    let pages := (cut VGA_WIDTH VGA_HEIGHT (itemsOf text)).1
    let last := (cut VGA_WIDTH VGA_HEIGHT (itemsOf text)).2
    (pages.flatten ++ last = itemsOf text ∧
      ∀ page ∈ pages, EndsPage VGA_WIDTH VGA_HEIGHT page) ∧
    (t'.row < VGA_HEIGHT ∧ t'.column < VGA_WIDTH ∧
      cursor t' = finish VGA_WIDTH origin last) ∧
    (∀ pl ∈ layout VGA_WIDTH origin last, pl.1.row < VGA_HEIGHT ∧ pl.1.col < VGA_WIDTH ∧
      t'.buffer (pl.1.offset VGA_WIDTH) = vgaEntry pl.2.1 pl.2.2) ∧
    ((layout VGA_WIDTH origin last).map fun pl => pl.1.offset VGA_WIDTH).Nodup ∧
    (∀ i < VGA_MEM_SIZE, (∀ pl ∈ layout VGA_WIDTH origin last, pl.1.offset VGA_WIDTH ≠ i) →
      (t'.buffer i).toUInt8 = ' '.toUInt8) ∧
    (text ≠ [] → ∃ lo hi, (crtc t'.log).sent 0x0F = some lo ∧ (crtc t'.log).sent 0x0E = some hi ∧
      hi.toNat * 256 + lo.toNat = VGA_WIDTH * t'.row + t'.column) := by
  intro t' pages last
  have hW : 0 < VGA_WIDTH := by decide
  have hH : 0 < VGA_HEIGHT := by decide
  have hshows : Shows t' last := shows_writePairs (shows_terminalInitialise inb t) text
  refine ⟨⟨cut_flatten _ _ _, cut_full hH _⟩, ⟨hshows.row_lt, hshows.column_lt, hshows.pos⟩,
    fun pl hpl => ?_, nodup_layout hW hW _, hshows.blank, fun hne => ?_⟩
  · -- The glyph sits in a cell before the cursor, so on a row of the screen.
    obtain ⟨-, hlt, hcol⟩ := bounds_of_mem_layout hW last origin hW pl hpl
    have hend := offset_lt_memSize (p := cursor t') hshows.row_lt hshows.column_lt
    rw [← hshows.pos] at hlt
    refine ⟨?_, hcol, hshows.glyph pl hpl⟩
    simp only [Pos.offset, VGA_WIDTH, VGA_HEIGHT, VGA_MEM_SIZE] at *
    omega
  · -- The last character is the one whose call has sent the cursor last.
    obtain ⟨text', ca, rfl⟩ : ∃ text' ca, text = text' ++ [ca] :=
      ⟨text.dropLast, text.getLast hne, (List.dropLast_append_getLast hne).symm⟩
    have hrun : t'
        = terminalPutcharAttr (writePairs (terminalInitialise inb t) text') ca.1 ca.2 := by
      simp [t', writePairs]
    have hrow := hshows.row_lt
    have hcol := hshows.column_lt
    rw [hrun] at hrow hcol ⊢
    exact crtc_putcharAttr _ _ _ hrow hcol

end Chuckles.Proofs
