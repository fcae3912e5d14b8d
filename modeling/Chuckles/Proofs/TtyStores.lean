import Chuckles.Proofs.TtyPage

/-!
# `Chuckles.Proofs.TtyStores`: where the terminal stores

A run of terminal operations after `terminal_initialise` stores through
`terminal_buffer` in three places. `terminal_initialise` and `terminal_putentryat` stay on
the 2000 cells of the screen, because the cursor does. The loop of `terminal_cls` starts at
the index `VGA_WIDTH * VGA_HEIGHT`, one past the last cell.

`Tracks` is the invariant of a run: the cursor is where the text written so far leaves it,
and all stores are on the screen exactly when no page was completed and `terminal_cls` was
not called. `stores_on_screen_iff` reads it off at the end of a run.
-/

set_option autoImplicit false

namespace Chuckles.Proofs

open Lib.Page

/-- The operations of the terminal. -/
inductive TtyOp where
  | putchar (c : UInt8)
  | putcharAttr (c attr : UInt8)
  | write (data : List UInt8)
  | writeAttr (data : List UInt8) (attr : UInt8)
  | writestring (data : CString)
  | cls

/-- The terminal after an operation. -/
def TtyOp.run (t : Tty) : TtyOp → Tty
  | .putchar c => terminalPutchar t c
  | .putcharAttr c attr => terminalPutcharAttr t c attr
  | .write data => terminalWrite t data
  | .writeAttr data attr => (terminalWriteAttr t data attr).1
  | .writestring data => terminalWritestring t data
  | .cls => terminalCls t

/-- The terminal after a sequence of operations. -/
def runOps (t : Tty) (ops : List TtyOp) : Tty := ops.foldl TtyOp.run t

/-- The bytes an operation writes. -/
def TtyOp.text : TtyOp → List UInt8
  | .putchar c => [c]
  | .putcharAttr c _ => [c]
  | .write data => data
  | .writeAttr data _ => data
  | .writestring data => data.bytes
  | .cls => []

/-- A byte as an item of text. -/
def charItem (c : UInt8) : Item UInt8 := if c = '\n'.toUInt8 then .newline else .glyph c

/-- The text, written from the origin on, completes no page. -/
def FitsPage (text : List UInt8) : Prop :=
  (cut VGA_WIDTH VGA_HEIGHT (text.map charItem)).1 = []

/-- All stores of the log are on the screen. -/
def OnScreen (t : Tty) : Prop := ∀ i v, TtyEvent.store i v ∈ t.log → i < VGA_MEM_SIZE

/-- The attribute does not matter for the position after a character. -/
theorem next_itemOf (p : Pos) (c attr : UInt8) :
    p.next VGA_WIDTH (itemOf c attr) = p.next VGA_WIDTH (charItem c) := by
  unfold itemOf charItem
  split <;> rfl

/-- Nor for the end of the page. -/
theorem endsAt_itemOf (p : Pos) (c attr : UInt8) :
    EndsAt VGA_WIDTH VGA_HEIGHT p (itemOf c attr)
      ↔ EndsAt VGA_WIDTH VGA_HEIGHT p (charItem c) := by
  unfold itemOf charItem
  split <;> exact Iff.rfl

/-! ### The stores of one operation -/

/-- Words written to ports are not stores. -/
theorem onScreen_updateCursor (t : Tty) (x y : UInt8) :
    OnScreen (updateCursor t x y) ↔ OnScreen t := by
  simp [OnScreen, updateCursor, Tty.outw]

/-- The store of a character goes to the cell at the cursor. -/
theorem onScreen_written {t : Tty} (c attr : UInt8) (hrow : t.row < VGA_HEIGHT)
    (hcol : t.column < VGA_WIDTH) : OnScreen (written t c attr) ↔ OnScreen t := by
  unfold written
  split
  · exact Iff.rfl
  · have hlt : t.row * VGA_WIDTH + t.column < VGA_MEM_SIZE :=
      offset_lt_memSize (p := cursor t) hrow hcol
    -- The index does not wrap, so it is the one of the cell.
    have hmod : (t.row * VGA_WIDTH + t.column) % 2 ^ 32 < VGA_MEM_SIZE := by
      rw [Nat.mod_eq_of_lt (Nat.lt_trans hlt (by decide))]
      exact hlt
    simp only [OnScreen, terminalPutentryat_log, List.mem_append, List.mem_cons,
      List.not_mem_nil, or_false, reduceCtorEq, false_or]
    constructor
    · intro h i v hmem
      exact h i v (Or.inl hmem)
    · rintro h i v (hmem | heq)
      · exact h i v hmem
      · cases heq
        exact hmod

/-- `terminal_cls` stores one past the last cell. -/
theorem not_onScreen_terminalCls (t : Tty) : ¬ OnScreen (terminalCls t) := by
  intro h
  have hlt := h VGA_MEM_SIZE (vgaEntry ' '.toUInt8 t.blankColour) (by
    rw [terminalCls_log, List.mem_append]
    exact Or.inr (by simp))
  exact Nat.lt_irrefl _ hlt

/-- `terminal_initialise` stores on the screen. -/
theorem onScreen_terminalInitialise (inb : UInt16 → UInt8) (t : Tty) (h : OnScreen t) :
    OnScreen (terminalInitialise inb t) := by
  obtain ⟨-, -, words, hlog⟩ := terminalInitialise_spec t inb
  intro i v hmem
  rw [hlog, List.mem_append, List.mem_append] at hmem
  rcases hmem with (hold | hfill) | hword
  · exact h i v hold
  · obtain ⟨j, hj, heq⟩ := List.mem_map.mp hfill
    cases heq
    exact mem_initCells.mp hj
  · simp at hword

/-! ### The invariant of a run -/

/-- The cursor is where the text of the last page leaves it, and the stores are on the
screen exactly when no page was completed and the screen was not cleared. -/
structure Tracks (t : Tty) (s : List (List (Item UInt8)) × List (Item UInt8))
    (cleared : Prop) : Prop where
  pos : cursor t = finish VGA_WIDTH origin s.2
  row_lt : t.row < VGA_HEIGHT
  column_lt : t.column < VGA_WIDTH
  onScreen_iff : OnScreen t ↔ s.1 = [] ∧ ¬ cleared

/-- One character. -/
theorem tracks_putcharAttr {t : Tty} {s : List (List (Item UInt8)) × List (Item UInt8)}
    {cleared : Prop} (c attr : UInt8) (h : Tracks t s cleared) :
    Tracks (terminalPutcharAttr t c attr) (cutStep VGA_WIDTH VGA_HEIGHT s (charItem c))
      cleared := by
  unfold cutStep
  rw [← h.pos]
  by_cases hends : EndsAt VGA_WIDTH VGA_HEIGHT (cursor t) (charItem c)
  · have hends' := (endsAt_itemOf (cursor t) c attr).mpr hends
    rw [if_pos hends, putcharAttr_of_ends c attr h.row_lt h.column_lt hends']
    -- The completed page cleared the screen.
    have hcls := not_onScreen_terminalCls { written t c attr with row := 0, column := 0 }
    rw [← onScreen_updateCursor _ 0 0] at hcls
    have hshows := shows_cleared { written t c attr with row := 0, column := 0 } rfl rfl
    exact ⟨hshows.pos, hshows.row_lt, hshows.column_lt, iff_of_false hcls (by simp)⟩
  · have hstays : ¬ EndsAt VGA_WIDTH VGA_HEIGHT (cursor t) (itemOf c attr) :=
      fun h' => hends ((endsAt_itemOf (cursor t) c attr).mp h')
    rw [if_neg hends, putcharAttr_of_stays c attr h.row_lt h.column_lt hstays]
    -- The character goes on the page, and its store to the cell at the cursor.
    refine ⟨?_, ?_, ?_, ?_⟩
    · rw [finish_append_singleton, ← h.pos, ← next_itemOf (cursor t) c attr]
      rfl
    · exact (finish_row_lt_iff _ _ h.row_lt).mpr hstays
    · exact next_col_lt _ _ (by decide) h.column_lt
    · rw [onScreen_updateCursor]
      exact (onScreen_written c attr h.row_lt h.column_lt).trans h.onScreen_iff

/-- A loop of characters, whatever the attribute of each. -/
theorem tracks_foldl {put : Tty → UInt8 → Tty}
    (hput : ∀ t c, ∃ attr, put t c = terminalPutcharAttr t c attr) (data : List UInt8) :
    ∀ {t : Tty} {s : List (List (Item UInt8)) × List (Item UInt8)} {cleared : Prop},
      Tracks t s cleared →
      Tracks (data.foldl put t)
        ((data.map charItem).foldl (cutStep VGA_WIDTH VGA_HEIGHT) s) cleared := by
  induction data with
  | nil => intro t s cleared h; exact h
  | cons c data ih =>
    intro t s cleared h
    obtain ⟨attr, hattr⟩ := hput t c
    rw [List.foldl_cons, List.map_cons, List.foldl_cons, hattr]
    exact ih (tracks_putcharAttr c attr h)

/-- `terminal_cls` does not move the cursor. -/
theorem tracks_terminalCls {t : Tty} {s : List (List (Item UInt8)) × List (Item UInt8)}
    {cleared : Prop} (h : Tracks t s cleared) : Tracks (terminalCls t) s True := by
  refine ⟨?_, ?_, ?_, by simp [not_onScreen_terminalCls t]⟩
  · rw [← h.pos, cursor, terminalCls_row, terminalCls_column]
    rfl
  · rw [terminalCls_row]
    exact h.row_lt
  · rw [terminalCls_column]
    exact h.column_lt

/-- One operation. -/
theorem tracks_run {t : Tty} {s : List (List (Item UInt8)) × List (Item UInt8)}
    {cleared : Prop} (op : TtyOp) (h : Tracks t s cleared) :
    Tracks (op.run t) ((op.text.map charItem).foldl (cutStep VGA_WIDTH VGA_HEIGHT) s)
      (cleared ∨ op = .cls) := by
  have hchar : ∀ t c, ∃ attr, terminalPutchar t c = terminalPutcharAttr t c attr :=
    fun t c => ⟨_, rfl⟩
  cases op with
  | putchar c => simpa [TtyOp.run, TtyOp.text] using tracks_foldl hchar [c] h
  | putcharAttr c attr => simpa [TtyOp.run, TtyOp.text] using tracks_putcharAttr c attr h
  | write data =>
    simpa [TtyOp.run, TtyOp.text, terminalWrite] using tracks_foldl hchar data h
  | writeAttr data attr =>
    simpa [TtyOp.run, TtyOp.text, terminalWriteAttr] using
      tracks_foldl (fun t c => ⟨attr, rfl⟩) data h
  | writestring data =>
    simpa [TtyOp.run, TtyOp.text, terminalWritestring, terminalWrite] using
      tracks_foldl hchar data.bytes h
  | cls => simpa [TtyOp.run, TtyOp.text] using tracks_terminalCls h

/-- The run lemma. -/
theorem tracks_runOps (ops : List TtyOp) :
    ∀ {t : Tty} {s : List (List (Item UInt8)) × List (Item UInt8)} {cleared : Prop},
      Tracks t s cleared →
      Tracks (runOps t ops)
        (((ops.flatMap TtyOp.text).map charItem).foldl (cutStep VGA_WIDTH VGA_HEIGHT) s)
        (cleared ∨ .cls ∈ ops) := by
  induction ops with
  | nil => intro t s cleared h; simpa [runOps] using h
  | cons op ops ih =>
    intro t s cleared h
    have hrec := ih (tracks_run op h)
    rw [List.flatMap_cons, List.map_append, List.foldl_append]
    -- Cleared before, by this operation, or by a later one.
    have hiff : ((cleared ∨ op = .cls) ∨ TtyOp.cls ∈ ops) ↔ (cleared ∨ TtyOp.cls ∈ op :: ops) := by
      rw [List.mem_cons, or_assoc, eq_comm (a := op)]
    rwa [propext hiff] at hrec

/-- The terminal right after `terminal_initialise`, with an empty log before it. -/
theorem tracks_terminalInitialise (inb : UInt16 → UInt8) (t : Tty) :
    Tracks (terminalInitialise inb { t with log := [] }) ([], []) False := by
  have hshows := shows_terminalInitialise inb { t with log := [] }
  refine ⟨hshows.pos, hshows.row_lt, hshows.column_lt, iff_of_true ?_ (by simp)⟩
  exact onScreen_terminalInitialise inb _ fun i v h => by simp at h

/-- **When the terminal stays on the screen.** Over a run that starts with
`terminal_initialise`, every store through `terminal_buffer` goes to one of the 2000 cells
of the screen if and only if `terminal_cls` is not called and the text written in the run
does not complete a page. -/
theorem stores_on_screen_iff (inb : UInt16 → UInt8) (t : Tty) (ops : List TtyOp) :
    (∀ i v, TtyEvent.store i v ∈ (runOps (terminalInitialise inb { t with log := [] }) ops).log →
      i < VGA_MEM_SIZE)
    ↔ .cls ∉ ops ∧ FitsPage (ops.flatMap TtyOp.text) := by
  have h := (tracks_runOps ops (tracks_terminalInitialise inb t)).onScreen_iff
  rw [false_or] at h
  exact h.trans and_comm

/-- 25 newlines on a freshly initialised terminal store past the screen. -/
theorem newlines_store_past_screen :
    ¬ ∀ i v, TtyEvent.store i v ∈ (runOps (terminalInitialise (fun _ => 0) .boot)
      [.write (List.replicate 25 '\n'.toUInt8)]).log → i < VGA_MEM_SIZE := by
  intro hall
  have h := tracks_runOps [.write (List.replicate 25 '\n'.toUInt8)]
    (tracks_terminalInitialise (fun _ => 0) .boot)
  have hfits := (h.onScreen_iff.mp hall).1
  -- The cut of 25 newlines has a complete page.
  revert hfits
  decide +kernel

end Chuckles.Proofs
