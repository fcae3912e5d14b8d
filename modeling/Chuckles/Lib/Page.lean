import Mathlib.Tactic.Common
import Mathlib.Data.List.Induction
import Mathlib.Data.List.Nodup
import Mathlib.Order.Basic

/-!
# `Chuckles.Lib.Page`: laying text out on pages

Text is a list of items: newlines and glyphs. `layout W p items` places the glyphs from
the position `p` on, left to right and row by row, on rows of `W` columns, and
`finish W p items` is the position after them. A newline, and a glyph in the last
column, move to the start of the next row.

`cut W H` cuts a text into pages of `H` rows. A page ends with the item that moves below
its last row (`EndsPage`), and the next page starts at the origin. The last page is the
unfinished one.

The results:

* `next_col_lt`, `finish_row_lt_iff`: the position stays inside the `W` columns, and an item
  moves below the last row exactly when it ends the page.
* `offset_lt_of_mem_layout` and `pairwise_layout`: along a layout the cells strictly
  increase, so no two glyphs share a cell.
* `cut_flatten`, `cut_full`, `cut_last`: the cut is a cut of the text, its pages all end
  where a page ends, and the last page is on the screen.
-/

set_option autoImplicit false

namespace Lib.Page

universe u

/-- An item of text. -/
inductive Item (γ : Type u) where
  | newline
  | glyph (g : γ)
  deriving DecidableEq, Repr

/-- A position on the page. -/
structure Pos where
  row : Nat
  col : Nat
  deriving DecidableEq, Repr

/-- The top left position. -/
def origin : Pos := ⟨0, 0⟩

/-- The number of the cell at a position, row by row. -/
def Pos.offset (W : Nat) (p : Pos) : Nat := p.row * W + p.col

variable {γ : Type u}

/-- The position after one item. -/
def Pos.next (W : Nat) (p : Pos) : Item γ → Pos
  | .newline => ⟨p.row + 1, 0⟩
  | .glyph _ => if p.col + 1 = W then ⟨p.row + 1, 0⟩ else ⟨p.row, p.col + 1⟩

/-- The position after a list of items. -/
def finish (W : Nat) (p : Pos) (items : List (Item γ)) : Pos := items.foldl (Pos.next W) p

/-- The glyphs of the items, each with its position. -/
def layout (W : Nat) : Pos → List (Item γ) → List (Pos × γ)
  | _, [] => []
  | p, .newline :: rest => layout W (p.next W (.newline : Item γ)) rest
  | p, .glyph g :: rest => (p, g) :: layout W (p.next W (.glyph g)) rest

/-- Without an item the cursor stays. -/
@[simp] theorem finish_nil (W : Nat) (p : Pos) : finish W p ([] : List (Item γ)) = p := rfl

/-- The first item moves it. -/
@[simp] theorem finish_cons (W : Nat) (p : Pos) (it : Item γ) (rest : List (Item γ)) :
    finish W p (it :: rest) = finish W (p.next W it) rest := rfl

/-- One more item at the end moves on from the end. -/
@[simp] theorem finish_append_singleton (W : Nat) (p : Pos) (items : List (Item γ))
    (it : Item γ) : finish W p (items ++ [it]) = (finish W p items).next W it := by
  simp [finish]

/-- The layout of two texts, one after the other. -/
theorem layout_append (W : Nat) (p : Pos) (xs ys : List (Item γ)) :
    layout W p (xs ++ ys) = layout W p xs ++ layout W (finish W p xs) ys := by
  induction xs generalizing p with
  | nil => rfl
  | cons it xs ih =>
    cases it with
    | newline => exact ih _
    | glyph g => simp [layout, ih]

/-! ### Positions -/

/-- An item keeps the column inside the page. -/
theorem next_col_lt {W : Nat} (p : Pos) (it : Item γ) (hW : 0 < W) (hp : p.col < W) :
    (p.next W it).col < W := by
  cases it with
  | newline => exact hW
  | glyph g =>
    simp only [Pos.next]
    split
    · exact hW
    · simp only
      omega

/-- An item moves to a later cell. -/
theorem offset_lt_next {W : Nat} (p : Pos) (it : Item γ) (hp : p.col < W) :
    p.offset W < (p.next W it).offset W := by
  have hrow : (p.row + 1) * W = p.row * W + W := Nat.succ_mul _ _
  cases it with
  | newline =>
    simp only [Pos.next, Pos.offset]
    omega
  | glyph g =>
    simp only [Pos.next, Pos.offset]
    split
    · simp only
      omega
    · simp only
      omega

/-- A text does not move to an earlier cell. -/
theorem offset_le_finish {W : Nat} (hW : 0 < W) (items : List (Item γ)) :
    ∀ p : Pos, p.col < W → p.offset W ≤ (finish W p items).offset W := by
  induction items with
  | nil => intro p _; exact Nat.le_refl _
  | cons it items ih =>
    intro p hp
    exact Nat.le_trans (Nat.le_of_lt (offset_lt_next p it hp)) (ih _ (next_col_lt p it hW hp))

/-- Each glyph sits in a cell from the start of the layout to before its end, in a column
of the page. -/
theorem bounds_of_mem_layout {W : Nat} (hW : 0 < W) (items : List (Item γ)) :
    ∀ p : Pos, p.col < W → ∀ pl ∈ layout W p items,
      p.offset W ≤ pl.1.offset W ∧ pl.1.offset W < (finish W p items).offset W ∧
        pl.1.col < W := by
  induction items with
  | nil => intro p _ pl h; simp [layout] at h
  | cons it items ih =>
    intro p hp pl hpl
    have hlt := offset_lt_next p it hp
    have hrec := ih (p.next W it) (next_col_lt p it hW hp) pl
    have hend := offset_le_finish hW items (p.next W it) (next_col_lt p it hW hp)
    cases it with
    | newline =>
      obtain ⟨h1, h2, h3⟩ := hrec hpl
      exact ⟨by omega, h2, h3⟩
    | glyph g =>
      -- The first glyph is at `p`, and the others are in the layout from the next position on.
      rcases List.mem_cons.mp hpl with rfl | hpl
      · exact ⟨Nat.le_refl _, by simpa using Nat.lt_of_lt_of_le hlt hend, hp⟩
      · obtain ⟨h1, h2, h3⟩ := hrec hpl
        exact ⟨by omega, h2, h3⟩

/-- Each glyph of a layout sits before the position at the end. -/
theorem offset_lt_of_mem_layout {W : Nat} (hW : 0 < W) {p : Pos} (hp : p.col < W)
    {items : List (Item γ)} {pl : Pos × γ} (h : pl ∈ layout W p items) :
    pl.1.offset W < (finish W p items).offset W :=
  (bounds_of_mem_layout hW items p hp pl h).2.1

/-- The cells of a layout strictly increase. -/
theorem pairwise_layout {W : Nat} (hW : 0 < W) (items : List (Item γ)) :
    ∀ p : Pos, p.col < W →
      (layout W p items).Pairwise fun a b => a.1.offset W < b.1.offset W := by
  induction items with
  | nil => intro p _; exact List.Pairwise.nil
  | cons it items ih =>
    intro p hp
    have hrec := ih (p.next W it) (next_col_lt p it hW hp)
    cases it with
    | newline => exact hrec
    | glyph g =>
      -- Every later glyph is at or after the next position.
      refine List.Pairwise.cons (fun b hb => ?_) hrec
      have hlt := offset_lt_next p (.glyph g) hp
      have hb' := (bounds_of_mem_layout hW items _ (next_col_lt p (.glyph g) hW hp) b hb).1
      exact Nat.lt_of_lt_of_le hlt hb'

/-- No two glyphs of a layout share a cell. -/
theorem nodup_layout {W : Nat} (hW : 0 < W) {p : Pos} (hp : p.col < W)
    (items : List (Item γ)) : ((layout W p items).map fun pl => pl.1.offset W).Nodup := by
  rw [List.Nodup, List.pairwise_map]
  exact (pairwise_layout hW items p hp).imp fun h => Nat.ne_of_lt h

/-! ### Pages -/

/-- The item ends a page of `H` rows when it is processed at the position `p`: a newline
on the last row, or a glyph in the last cell. -/
def EndsAt (W H : Nat) (p : Pos) : Item γ → Prop
  | .newline => p.row + 1 = H
  | .glyph _ => p.row + 1 = H ∧ p.col + 1 = W

instance (W H : Nat) (p : Pos) (it : Item γ) : Decidable (EndsAt W H p it) := by
  cases it with
  | newline => exact inferInstanceAs (Decidable (p.row + 1 = H))
  | glyph g => exact inferInstanceAs (Decidable (p.row + 1 = H ∧ p.col + 1 = W))

/-- From a position on the page, an item that does not end the page stays on it. -/
theorem finish_row_lt_iff {W H : Nat} (p : Pos) (it : Item γ) (hp : p.row < H) :
    (p.next W it).row < H ↔ ¬ EndsAt W H p it := by
  cases it with
  | newline =>
    simp only [Pos.next, EndsAt]
    omega
  | glyph g =>
    simp only [Pos.next, EndsAt]
    split
    · simp only
      omega
    · simp only
      omega

/-- A page that is complete: its last item ends it, and the items before stay on it. -/
def EndsPage (W H : Nat) (page : List (Item γ)) : Prop :=
  ∃ items it, page = items ++ [it] ∧ (finish W origin items).row < H ∧
    EndsAt W H (finish W origin items) it

/-- One more item: it completes the current page, or it goes on the current page. -/
def cutStep (W H : Nat) (s : List (List (Item γ)) × List (Item γ)) (it : Item γ) :
    List (List (Item γ)) × List (Item γ) :=
  if EndsAt W H (finish W origin s.2) it then (s.1 ++ [s.2 ++ [it]], []) else (s.1, s.2 ++ [it])

/-- The complete pages of a text, and its last page. -/
def cut (W H : Nat) (items : List (Item γ)) : List (List (Item γ)) × List (Item γ) :=
  items.foldl (cutStep W H) ([], [])

/-- One item more is one step more. -/
@[simp] theorem cut_append_singleton (W H : Nat) (items : List (Item γ)) (it : Item γ) :
    cut W H (items ++ [it]) = cutStep W H (cut W H items) it := by
  simp [cut]

/-- The pages, one after the other, are the text. -/
theorem cut_flatten (W H : Nat) (items : List (Item γ)) :
    (cut W H items).1.flatten ++ (cut W H items).2 = items := by
  induction items using List.reverseRecOn with
  | nil => rfl
  | append_singleton items it ih =>
    rw [cut_append_singleton]
    unfold cutStep
    split
    · simp only [List.flatten_append, List.flatten_singleton, List.append_nil]
      rw [← List.append_assoc, ih]
    · simp only
      rw [← List.append_assoc, ih]

/-- The last page stays on the screen. -/
theorem cut_last {W H : Nat} (hH : 0 < H) (items : List (Item γ)) :
    (finish W origin (cut W H items).2).row < H := by
  induction items using List.reverseRecOn with
  | nil => exact hH
  | append_singleton items it ih =>
    rw [cut_append_singleton]
    unfold cutStep
    split
    · exact hH
    · rename_i hends
      rw [finish_append_singleton]
      exact (finish_row_lt_iff _ it ih).mpr hends

/-- Every other page is complete. -/
theorem cut_full {W H : Nat} (hH : 0 < H) (items : List (Item γ)) :
    ∀ page ∈ (cut W H items).1, EndsPage W H page := by
  induction items using List.reverseRecOn with
  | nil => intro page h; simp [cut] at h
  | append_singleton items it ih =>
    intro page hpage
    rw [cut_append_singleton] at hpage
    unfold cutStep at hpage
    split at hpage
    · rename_i hends
      rcases List.mem_append.mp hpage with h | h
      · exact ih page h
      · exact ⟨_, it, List.mem_singleton.mp h, cut_last hH items, hends⟩
    · exact ih page hpage

end Lib.Page
