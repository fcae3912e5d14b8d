import Mathlib.Algebra.Group.Nat.Defs
import Mathlib.Logic.Function.Basic
import Chuckles.Libc.String

/-!
# `Chuckles.Kernel.Tty`: the VGA text terminal

The model of `kernel/arch/i386/tty.c` and of the helpers of `vga.h` it uses.

`Tty` holds the file's static variables and the cells `terminal_buffer` points at. The
cells are a function of the index, with no bound: an index past the 2000 cells of the
screen is a store into the memory after it, as in C. `size_t` is 32 bits wide, so
`sizeSucc` wraps.

`Tty.log` records, in program order, what the functions do to the outside: each store
through `terminal_buffer`, each word written to a port, and each call of
`terminal_putentryat` with its coordinates. `Crtc` reads the log back as the writes the
VGA's CRT controller sees.
-/

set_option autoImplicit false

namespace Chuckles

/-! ### `vga.h` -/

def VGA_COLOUR_BLACK : UInt8 := 0
def VGA_COLOUR_GREEN : UInt8 := 2
def VGA_CTL_NOBLINK : UInt8 := 0
def VGA_CTL_INTHIGH : UInt8 := 1

/-- The macro `vga_attr`, as every caller uses it: converted to `uint8_t`. -/
def vgaAttr (blink bg intensity fg : UInt8) : UInt8 :=
  (blink <<< 7) ||| (bg <<< 4) ||| (intensity <<< 3) ||| fg

/-- `vga_entry_colour`. -/
def vgaEntryColour (fg bg : UInt8) : UInt8 := fg ||| bg <<< 4

/-- `vga_entry`. -/
def vgaEntry (uc colour : UInt8) : UInt16 := uc.toUInt16 ||| colour.toUInt16 <<< 8

/-- The attribute of a cell. -/
def entryAttr (v : UInt16) : UInt8 := (v >>> 8).toUInt8

/-- The attribute of a cell is its high byte. -/
theorem entryAttr_vgaEntry (uc colour : UInt8) : entryAttr (vgaEntry uc colour) = colour := by
  have hchar := uc.toNat_lt
  have hcolour := colour.toNat_lt
  apply UInt8.toNat_inj.mp
  show ((uc.toUInt16 ||| colour.toUInt16 <<< 8) >>> 8).toUInt8.toNat = colour.toNat
  -- The character is below the colour, so the word is a sum.
  have hword : uc.toNat ||| colour.toNat <<< 8 = colour.toNat <<< 8 + uc.toNat := by
    rw [Nat.or_comm, Nat.shiftLeft_add_eq_or_of_lt hchar]
  have hshift : colour.toNat <<< 8 < 2 ^ 16 := by
    rw [Nat.shiftLeft_eq]
    omega
  simp only [UInt16.toNat_toUInt8, UInt16.toNat_shiftRight, UInt16.toNat_or,
    UInt16.toNat_shiftLeft, UInt8.toNat_toUInt16]
  show (uc.toNat ||| colour.toNat <<< 8 % 2 ^ 16) >>> 8 % 2 ^ 8 = colour.toNat
  rw [Nat.mod_eq_of_lt hshift, hword, Nat.shiftLeft_eq, Nat.shiftRight_eq_div_pow]
  omega

/-- The character of a cell is its low byte. -/
theorem toUInt8_vgaEntry (uc colour : UInt8) : (vgaEntry uc colour).toUInt8 = uc := by
  -- The colour is in the high byte, which the conversion drops.
  have h : (colour.toUInt16 <<< 8).toUInt8 = 0 := by
    apply UInt8.toNat_inj.mp
    simp [Nat.shiftLeft_eq]
  rw [vgaEntry, UInt16.toUInt8_or, h]
  simp

/-! ### The terminal state -/

def VGA_WIDTH : Nat := 80
def VGA_HEIGHT : Nat := 25
def VGA_MEM_SIZE : Nat := 2000

/-- `n + 1` for a `size_t`. -/
def sizeSucc (n : Nat) : Nat := (n + 1) % 2 ^ 32

/-- What the terminal does to the outside. -/
inductive TtyEvent where
  /-- A call of `terminal_putentryat` at column `x` and row `y`. -/
  | putentryat (x y : Nat)
  /-- `terminal_buffer[index] = value`. -/
  | store (index : Nat) (value : UInt16)
  /-- `outw(port, value)`. -/
  | outw (port value : UInt16)
  deriving DecidableEq

/-- The static variables of `tty.c`, the cells behind `terminal_buffer`, and the log. -/
structure Tty where
  background : UInt8
  foreground : UInt8
  row : Nat
  column : Nat
  blankColour : UInt8
  buffer : Nat → UInt16
  log : List TtyEvent

/-- The static variables before the first call: static storage is zero. -/
def Tty.boot : Tty := ⟨0, 0, 0, 0, 0, fun _ => 0, []⟩

/-- `terminal_buffer[index] = value`. -/
def Tty.store (t : Tty) (index : Nat) (value : UInt16) : Tty :=
  { t with buffer := Function.update t.buffer index value, log := t.log ++ [.store index value] }

/-- `outw(port, value)`. -/
def Tty.outw (t : Tty) (port value : UInt16) : Tty :=
  { t with log := t.log ++ [.outw port value] }

/-- `enable_cursor`. `inb` is the byte each port answers. -/
def enableCursor (inb : UInt16 → UInt8) (t : Tty) (cursorStart cursorEnd : UInt8) : Tty :=
  (((t.outw 0x3D4 0x0A).outw 0x3D5 ((inb 0x3D5 &&& 0xC0) ||| cursorStart).toUInt16).outw
    0x3D4 0x0B).outw 0x3D5 ((inb 0x3E0 &&& 0xE0) ||| cursorEnd).toUInt16

/-- `update_cursor`. -/
def updateCursor (t : Tty) (x y : UInt8) : Tty :=
  let pos := (y.toNat * VGA_WIDTH + x.toNat).toUInt16
  (((t.outw 0x3D4 0x0F).outw 0x3D5 (pos &&& 0xFF).toUInt8.toUInt16).outw
    0x3D4 0x0E).outw 0x3D5 ((pos >>> 8) &&& 0xFF).toUInt8.toUInt16

/-- The two loops of `terminal_initialise`. -/
def fillScreen (t : Tty) : Tty :=
  (List.range VGA_HEIGHT).foldl (fun t y =>
    (List.range VGA_WIDTH).foldl (fun t x =>
      t.store (y * VGA_WIDTH + x)
        (vgaEntry ' '.toUInt8 (vgaAttr 0 t.background 1 t.foreground))) t) t

/-- `terminal_initialise`. -/
def terminalInitialise (inb : UInt16 → UInt8) (t : Tty) : Tty :=
  let t := { t with
    row := 0, column := 0, foreground := VGA_COLOUR_GREEN, background := VGA_COLOUR_BLACK
    blankColour := vgaEntryColour VGA_COLOUR_GREEN VGA_COLOUR_BLACK }
  enableCursor inb (fillScreen t) 0 15

/-- `terminal_setcolour`. -/
def terminalSetcolour (t : Tty) (fg bg : UInt8) : Tty :=
  { t with foreground := fg, background := bg }

/-- `terminal_putentryat`. -/
def terminalPutentryat (t : Tty) (c attr : UInt8) (x y : Nat) : Tty :=
  let t := { t with log := t.log ++ [TtyEvent.putentryat x y] }
  t.store ((y * VGA_WIDTH + x) % 2 ^ 32) (vgaEntry c attr)

/-- The loop of `terminal_cls`, from the index `i` down to 0. -/
def clsFrom (t : Tty) : Nat → Tty
  | 0 => t.store 0 (vgaEntry ' '.toUInt8 t.blankColour)
  | i + 1 => clsFrom (t.store (i + 1) (vgaEntry ' '.toUInt8 t.blankColour)) i

/-- `terminal_cls`. -/
def terminalCls (t : Tty) : Tty := clsFrom t (VGA_WIDTH * VGA_HEIGHT)

/-- `terminal_putchar_attr`. -/
def terminalPutcharAttr (t : Tty) (uc attr : UInt8) : Tty :=
  let t :=
    -- A newline: the next row, or a cleared screen past the last one.
    if uc = '\n'.toUInt8 then
      let t := { t with column := 0 }
      if sizeSucc t.row = VGA_HEIGHT then terminalCls { t with row := 0 }
      else { t with row := sizeSucc t.row }
    else
      -- A glyph: the next column, or the next row as above.
      let t := terminalPutentryat t uc attr t.column t.row
      let t := { t with column := sizeSucc t.column }
      if t.column = VGA_WIDTH then
        let t := { t with column := 0 }
        let t := { t with row := sizeSucc t.row }
        if t.row = VGA_HEIGHT then terminalCls { t with row := 0 } else t
      else t
  updateCursor t t.column.toUInt8 t.row.toUInt8

/-- `terminal_write_attr`, with the `size` bytes at `data`. It returns `size`. -/
def terminalWriteAttr (t : Tty) (data : List UInt8) (attr : UInt8) : Tty × Nat :=
  (data.foldl (fun t c => terminalPutcharAttr t c attr) t, data.length)

/-- `terminal_writestring_attr`. -/
def terminalWritestringAttr (t : Tty) (data : CString) (attr : UInt8) : Tty × Nat :=
  terminalWriteAttr t data.bytes attr

/-- `terminal_putchar`. The second and the fourth argument of `vga_attr` are in the order
of the source. -/
def terminalPutchar (t : Tty) (c : UInt8) : Tty :=
  terminalPutcharAttr t c (vgaAttr VGA_CTL_NOBLINK t.foreground VGA_CTL_INTHIGH t.background)

/-- `terminal_write`, with the `size` bytes at `data`. -/
def terminalWrite (t : Tty) (data : List UInt8) : Tty := data.foldl terminalPutchar t

/-- `terminal_writestring`. `strlen` gives the number of bytes before the NUL
(`strlen_object`). -/
def terminalWritestring (t : Tty) (data : CString) : Tty := terminalWrite t data.bytes

/-! ### What each function does to the state -/

/-- `sizeSucc` below the wrap. -/
theorem sizeSucc_of_lt {n : Nat} (h : n + 1 < 2 ^ 32) : sizeSucc n = n + 1 :=
  Nat.mod_eq_of_lt h

section
variable (t : Tty)

/-- What a store leaves: the cursor and the blank. -/
@[simp] theorem Tty.store_row (i : Nat) (v : UInt16) : (t.store i v).row = t.row := rfl
@[simp] theorem Tty.store_column (i : Nat) (v : UInt16) :
    (t.store i v).column = t.column := rfl
@[simp] theorem Tty.store_blankColour (i : Nat) (v : UInt16) :
    (t.store i v).blankColour = t.blankColour := rfl
/-- A store changes one cell. -/
@[simp] theorem Tty.store_buffer (i : Nat) (v : UInt16) :
    (t.store i v).buffer = Function.update t.buffer i v := rfl
/-- And it is logged. -/
@[simp] theorem Tty.store_log (i : Nat) (v : UInt16) :
    (t.store i v).log = t.log ++ [.store i v] := rfl

/-- What `enable_cursor` leaves: the cursor, the colours and the cells. -/
@[simp] theorem enableCursor_row (inb : UInt16 → UInt8) (a b : UInt8) :
    (enableCursor inb t a b).row = t.row := rfl
@[simp] theorem enableCursor_column (inb : UInt16 → UInt8) (a b : UInt8) :
    (enableCursor inb t a b).column = t.column := rfl
@[simp] theorem enableCursor_foreground (inb : UInt16 → UInt8) (a b : UInt8) :
    (enableCursor inb t a b).foreground = t.foreground := rfl
@[simp] theorem enableCursor_background (inb : UInt16 → UInt8) (a b : UInt8) :
    (enableCursor inb t a b).background = t.background := rfl
@[simp] theorem enableCursor_blankColour (inb : UInt16 → UInt8) (a b : UInt8) :
    (enableCursor inb t a b).blankColour = t.blankColour := rfl
@[simp] theorem enableCursor_buffer (inb : UInt16 → UInt8) (a b : UInt8) :
    (enableCursor inb t a b).buffer = t.buffer := rfl

/-- What `update_cursor` leaves: the cursor, the cells and the colours. -/
@[simp] theorem updateCursor_row (x y : UInt8) : (updateCursor t x y).row = t.row := rfl
@[simp] theorem updateCursor_column (x y : UInt8) :
    (updateCursor t x y).column = t.column := rfl
@[simp] theorem updateCursor_buffer (x y : UInt8) :
    (updateCursor t x y).buffer = t.buffer := rfl

@[simp] theorem updateCursor_foreground (x y : UInt8) :
    (updateCursor t x y).foreground = t.foreground := rfl
@[simp] theorem updateCursor_background (x y : UInt8) :
    (updateCursor t x y).background = t.background := rfl
@[simp] theorem updateCursor_blankColour (x y : UInt8) :
    (updateCursor t x y).blankColour = t.blankColour := rfl

/-- What `terminal_putentryat` leaves: the cursor. -/
@[simp] theorem terminalPutentryat_row (c attr : UInt8) (x y : Nat) :
    (terminalPutentryat t c attr x y).row = t.row := rfl
@[simp] theorem terminalPutentryat_column (c attr : UInt8) (x y : Nat) :
    (terminalPutentryat t c attr x y).column = t.column := rfl
/-- It changes one cell. -/
@[simp] theorem terminalPutentryat_buffer (c attr : UInt8) (x y : Nat) :
    (terminalPutentryat t c attr x y).buffer
      = Function.update t.buffer ((y * VGA_WIDTH + x) % 2 ^ 32) (vgaEntry c attr) := rfl
/-- And it is logged, with its store. -/
@[simp] theorem terminalPutentryat_log (c attr : UInt8) (x y : Nat) :
    (terminalPutentryat t c attr x y).log
      = t.log ++ [.putentryat x y,
          .store ((y * VGA_WIDTH + x) % 2 ^ 32) (vgaEntry c attr)] := by
  simp [terminalPutentryat]

/-- The clearing loop keeps the cursor and the colours, stores the blank in every cell up
to its start, and logs these stores. -/
theorem clsFrom_spec (i : Nat) : ∀ t : Tty,
    (clsFrom t i).row = t.row ∧ (clsFrom t i).column = t.column ∧
    (clsFrom t i).blankColour = t.blankColour ∧
    (∀ j, (clsFrom t i).buffer j
      = if j ≤ i then vgaEntry ' '.toUInt8 t.blankColour else t.buffer j) ∧
    (clsFrom t i).log = t.log ++ ((List.range (i + 1)).reverse.map fun j =>
      .store j (vgaEntry ' '.toUInt8 t.blankColour)) := by
  induction i with
  | zero =>
    intro t
    refine ⟨rfl, rfl, rfl, fun j => ?_, by simp [clsFrom]⟩
    simp [clsFrom, Function.update_apply]
  | succ i ih =>
    intro t
    obtain ⟨hrow, hcol, hblank, hbuf, hlog⟩ :=
      ih (t.store (i + 1) (vgaEntry ' '.toUInt8 t.blankColour))
    refine ⟨hrow, hcol, hblank, fun j => ?_, ?_⟩
    · -- The first store is at `i + 1`, and the induction has the others.
      show (clsFrom _ i).buffer j = _
      rw [hbuf j]
      simp only [Tty.store_blankColour, Tty.store_buffer, Function.update_apply]
      split <;> split <;> (try split) <;> first | rfl | omega
    · show (clsFrom _ i).log = _
      rw [hlog]
      simp [List.range_succ]

/-- The clearing loop keeps the colours for the next characters. -/
theorem clsFrom_colours (i : Nat) : ∀ t : Tty,
    (clsFrom t i).foreground = t.foreground ∧ (clsFrom t i).background = t.background := by
  induction i with
  | zero => exact fun _ => ⟨rfl, rfl⟩
  | succ i ih => exact fun t => ih (t.store (i + 1) (vgaEntry ' '.toUInt8 t.blankColour))

/-- What `terminal_cls` leaves: the colours and the cursor. -/
@[simp] theorem terminalCls_foreground : (terminalCls t).foreground = t.foreground :=
  (clsFrom_colours _ t).1
@[simp] theorem terminalCls_background : (terminalCls t).background = t.background :=
  (clsFrom_colours _ t).2
@[simp] theorem terminalCls_blankColour : (terminalCls t).blankColour = t.blankColour :=
  (clsFrom_spec _ t).2.2.1

@[simp] theorem terminalCls_row : (terminalCls t).row = t.row := (clsFrom_spec _ t).1
@[simp] theorem terminalCls_column : (terminalCls t).column = t.column :=
  (clsFrom_spec _ t).2.1

/-- The cells of the screen. -/
theorem VGA_MEM_SIZE_eq : VGA_WIDTH * VGA_HEIGHT = VGA_MEM_SIZE := rfl

/-- `terminal_cls` blanks every cell of the screen, and the one after it. -/
theorem terminalCls_buffer (j : Nat) :
    (terminalCls t).buffer j
      = if j ≤ VGA_MEM_SIZE then vgaEntry ' '.toUInt8 t.blankColour else t.buffer j := by
  rw [terminalCls, VGA_MEM_SIZE_eq]
  exact (clsFrom_spec VGA_MEM_SIZE t).2.2.2.1 j

/-- The stores of `terminal_cls`, last cell first. -/
theorem terminalCls_log :
    (terminalCls t).log = t.log ++ ((List.range (VGA_MEM_SIZE + 1)).reverse.map fun j =>
      .store j (vgaEntry ' '.toUInt8 t.blankColour)) := by
  rw [terminalCls, VGA_MEM_SIZE_eq]
  exact (clsFrom_spec VGA_MEM_SIZE t).2.2.2.2

/-- A loop of stores of one attribute's value keeps everything but the cells it stores
to, and logs the stores. The value may depend on the colours, which the loop keeps. -/
theorem foldl_store_spec (value : UInt8 → UInt8 → UInt16) (cells : List Nat) : ∀ t : Tty,
    let t' := cells.foldl (fun t i => t.store i (value t.background t.foreground)) t
    (t'.row = t.row ∧ t'.column = t.column ∧ t'.blankColour = t.blankColour) ∧
    (∀ j, t'.buffer j
      = if j ∈ cells then value t.background t.foreground else t.buffer j) ∧
    t'.log = t.log ++ cells.map fun i => .store i (value t.background t.foreground) := by
  induction cells with
  | nil => intro t; simp
  | cons i cells ih =>
    intro t
    obtain ⟨hkeep, hbuf, hlog⟩ := ih (t.store i (value t.background t.foreground))
    refine ⟨hkeep, fun j => ?_, ?_⟩
    · rw [List.foldl_cons, hbuf j]
      simp only [Tty.store_buffer, Function.update_apply, List.mem_cons]
      -- The first cell keeps its value when it comes again: the loop keeps the colours.
      by_cases hj : j = i
      · subst hj
        simp [Tty.store]
      · simp [hj, Tty.store]
    · rw [List.foldl_cons, hlog]
      simp [Tty.store]

/-- Such a loop keeps the colours, too. -/
theorem foldl_store_colours (value : UInt8 → UInt8 → UInt16) (cells : List Nat) : ∀ t : Tty,
    let t' := cells.foldl (fun t i => t.store i (value t.background t.foreground)) t
    t'.foreground = t.foreground ∧ t'.background = t.background := by
  induction cells with
  | nil => exact fun _ => ⟨rfl, rfl⟩
  | cons i cells ih => exact fun t => ih (t.store i (value t.background t.foreground))

/-- The cells in the order of the loops of `terminal_initialise`. -/
def initCells : List Nat :=
  (List.range VGA_HEIGHT).flatMap fun y => (List.range VGA_WIDTH).map fun x => y * VGA_WIDTH + x

/-- They are the cells of the screen. -/
theorem mem_initCells {j : Nat} : j ∈ initCells ↔ j < VGA_MEM_SIZE := by
  simp only [initCells, List.mem_flatMap, List.mem_map, List.mem_range, VGA_HEIGHT, VGA_WIDTH,
    VGA_MEM_SIZE]
  constructor
  · rintro ⟨y, hy, x, hx, rfl⟩
    omega
  · intro hj
    exact ⟨j / 80, by omega, j % 80, by omega, by omega⟩

/-- The loops of `terminal_initialise` are one loop over these cells. -/
theorem fillScreen_eq : fillScreen t = initCells.foldl (fun t i => t.store i
    (vgaEntry ' '.toUInt8 (vgaAttr 0 t.background 1 t.foreground))) t := by
  rw [initCells, List.foldl_flatMap]
  simp only [List.foldl_map]
  rfl

/-- `terminal_initialise` puts the cursor at the origin, fills the screen with one blank
cell, and stores to the screen only. -/
theorem terminalInitialise_spec (inb : UInt16 → UInt8) :
    let t' := terminalInitialise inb t
    let blank := vgaEntry ' '.toUInt8 (vgaAttr 0 VGA_COLOUR_BLACK 1 VGA_COLOUR_GREEN)
    (t'.row = 0 ∧ t'.column = 0) ∧
    (∀ j, t'.buffer j = if j < VGA_MEM_SIZE then blank else t.buffer j) ∧
    ∃ words : List (UInt16 × UInt16), t'.log = t.log ++ (initCells.map fun i => .store i blank)
      ++ words.map fun w => .outw w.1 w.2 := by
  intro t' blank
  let t₀ : Tty := { t with
    row := 0, column := 0, foreground := VGA_COLOUR_GREEN, background := VGA_COLOUR_BLACK
    blankColour := vgaEntryColour VGA_COLOUR_GREEN VGA_COLOUR_BLACK }
  obtain ⟨⟨hrow, hcol, -⟩, hbuf, hlog⟩ :=
    foldl_store_spec (fun bg fg => vgaEntry ' '.toUInt8 (vgaAttr 0 bg 1 fg)) initCells t₀
  rw [← fillScreen_eq] at hrow hcol hbuf hlog
  -- The colours are set before the loops, so all of them store one value.
  have ht' : t' = enableCursor inb (fillScreen t₀) 0 15 := rfl
  clear_value t'
  subst ht'
  -- Behind the stores come the four words of `enable_cursor`.
  refine ⟨⟨?_, ?_⟩, fun j => ?_,
    [(0x3D4, 0x0A), (0x3D5, ((inb 0x3D5 &&& 0xC0) ||| 0).toUInt16), (0x3D4, 0x0B),
      (0x3D5, ((inb 0x3E0 &&& 0xE0) ||| 15).toUInt16)], ?_⟩
  · rw [enableCursor_row, hrow]
  · rw [enableCursor_column, hcol]
  · rw [enableCursor_buffer, hbuf j]
    simp only [mem_initCells]
    rfl
  · simp only [enableCursor, Tty.outw, hlog, List.map_cons, List.map_nil, List.append_assoc,
      List.cons_append, List.nil_append]
    rfl

/-- `terminal_initialise` sets the colours to green on black. -/
theorem terminalInitialise_colours (inb : UInt16 → UInt8) :
    (terminalInitialise inb t).foreground = VGA_COLOUR_GREEN
      ∧ (terminalInitialise inb t).background = VGA_COLOUR_BLACK
      ∧ (terminalInitialise inb t).blankColour
        = vgaEntryColour VGA_COLOUR_GREEN VGA_COLOUR_BLACK := by
  let t₀ : Tty := { t with
    row := 0, column := 0, foreground := VGA_COLOUR_GREEN, background := VGA_COLOUR_BLACK
    blankColour := vgaEntryColour VGA_COLOUR_GREEN VGA_COLOUR_BLACK }
  obtain ⟨hfg, hbg⟩ :=
    foldl_store_colours (fun bg fg => vgaEntry ' '.toUInt8 (vgaAttr 0 bg 1 fg)) initCells t₀
  obtain ⟨⟨-, -, hblank⟩, -⟩ :=
    foldl_store_spec (fun bg fg => vgaEntry ' '.toUInt8 (vgaAttr 0 bg 1 fg)) initCells t₀
  rw [← fillScreen_eq] at hfg hbg hblank
  show (enableCursor inb (fillScreen t₀) 0 15).foreground = _
    ∧ (enableCursor inb (fillScreen t₀) 0 15).background = _
    ∧ (enableCursor inb (fillScreen t₀) 0 15).blankColour = _
  rw [enableCursor_foreground, enableCursor_background, enableCursor_blankColour]
  exact ⟨hfg, hbg, hblank⟩

/-! ### The branches of `terminal_putchar_attr` -/

/-- The end of a call: the cursor goes to the hardware. -/
def syncCursor : Tty := updateCursor t t.column.toUInt8 t.row.toUInt8

/-- What it leaves: the cursor. -/
@[simp] theorem syncCursor_row : (syncCursor t).row = t.row := rfl
@[simp] theorem syncCursor_column : (syncCursor t).column = t.column := rfl

/-- A newline on the last row. -/
theorem putcharAttr_newline_ends (attr : UInt8) (hrow : sizeSucc t.row = VGA_HEIGHT) :
    terminalPutcharAttr t '\n'.toUInt8 attr
      = syncCursor (terminalCls { t with column := 0, row := 0 }) := by
  simp [terminalPutcharAttr, syncCursor, hrow]

/-- A newline on another row. -/
theorem putcharAttr_newline_stays (attr : UInt8) (hrow : sizeSucc t.row ≠ VGA_HEIGHT) :
    terminalPutcharAttr t '\n'.toUInt8 attr
      = syncCursor { t with column := 0, row := sizeSucc t.row } := by
  simp [terminalPutcharAttr, syncCursor, hrow]

/-- A glyph before the last column. -/
theorem putcharAttr_glyph_stays {c : UInt8} (attr : UInt8) (hc : c ≠ '\n'.toUInt8)
    (hcol : sizeSucc t.column ≠ VGA_WIDTH) :
    terminalPutcharAttr t c attr
      = syncCursor { terminalPutentryat t c attr t.column t.row with
          column := sizeSucc t.column } := by
  simp [terminalPutcharAttr, syncCursor, hc, hcol]

/-- A glyph in the last column, on a row before the last one. -/
theorem putcharAttr_glyph_wraps {c : UInt8} (attr : UInt8) (hc : c ≠ '\n'.toUInt8)
    (hcol : sizeSucc t.column = VGA_WIDTH) (hrow : sizeSucc t.row ≠ VGA_HEIGHT) :
    terminalPutcharAttr t c attr
      = syncCursor { terminalPutentryat t c attr t.column t.row with
          column := 0, row := sizeSucc t.row } := by
  simp [terminalPutcharAttr, syncCursor, hc, hcol, hrow]

/-- A glyph in the last column of the last row. -/
theorem putcharAttr_glyph_ends {c : UInt8} (attr : UInt8) (hc : c ≠ '\n'.toUInt8)
    (hcol : sizeSucc t.column = VGA_WIDTH) (hrow : sizeSucc t.row = VGA_HEIGHT) :
    terminalPutcharAttr t c attr
      = syncCursor (terminalCls { terminalPutentryat t c attr t.column t.row with
          column := 0, row := 0 }) := by
  simp [terminalPutcharAttr, syncCursor, hc, hcol, hrow]

end

end Chuckles
