import Mathlib.Tactic.Common

/-!
# `Chuckles.Lib.Loop`: loops that fault, exit or go on

A loop of an imperative program is its body: a function from the loop's state to
what one pass does (`Pass`). A pass faults (it makes an access the language leaves
undefined), exits with a result, or goes on in a new state.

`passes body n s` is the loop after at most `n` passes. It still shows `again` exactly
when the loop has not ended by then, so "the loop ends" and "the loop runs forever" are
both statements about `passes`:

* `passes_exit_mono`: an exit stays an exit when more passes are allowed, and with it
  `exit_unique`: two numbers of passes that both reach an exit reach the same one.
* `passes_add`: passes after passes.
* `exit_of_variant`: the total-correctness rule. An invariant that every pass keeps,
  and a variant that every pass which goes on decreases, give an exit within
  `variant + 1` passes, with the stated postcondition. `invariant_of_again` is its other half:
  the invariant holds whenever the loop has not ended.
-/

set_option autoImplicit false

namespace Lib.Loop

universe u v

/-- What one pass through a loop body does. -/
inductive Pass (σ : Type u) (ρ : Type v) where
  | fault
  | exit (r : ρ)
  | again (s : σ)
  deriving DecidableEq, Repr

variable {σ : Type u} {ρ : Type v}

/-- The loop after at most `n` passes from the state `s`. -/
def passes (body : σ → Pass σ ρ) : Nat → σ → Pass σ ρ
  | 0, s => .again s
  | n + 1, s =>
    match body s with
    | .again s' => passes body n s'
    | .exit r => .exit r
    | .fault => .fault

/-- One pass that goes on, then `n` more. -/
theorem passes_succ_of_again {body : σ → Pass σ ρ} {s s' : σ} (n : Nat)
    (h : body s = .again s') : passes body (n + 1) s = passes body n s' := by
  simp [passes, h]

/-- One pass that exits ends the loop. -/
theorem passes_succ_of_exit {body : σ → Pass σ ρ} {s : σ} {r : ρ} (n : Nat)
    (h : body s = .exit r) : passes body (n + 1) s = .exit r := by
  simp [passes, h]

/-- An exit within `n` passes is the exit within any larger number of passes. -/
theorem passes_exit_mono {body : σ → Pass σ ρ} {r : ρ} :
    ∀ {n m : Nat} {s : σ}, n ≤ m → passes body n s = .exit r → passes body m s = .exit r := by
  intro n
  induction n with
  | zero =>
    intro m s _ h
    simp [passes] at h
  | succ n ih =>
    intro m s hm h
    obtain ⟨m, rfl⟩ : ∃ k, m = k + 1 := ⟨m - 1, by omega⟩
    cases hb : body s with
    | fault => simp [passes, hb] at h
    | exit r' => simpa [passes, hb] using h
    | again s' =>
      rw [passes_succ_of_again _ hb] at h ⊢
      exact ih (by omega) h

/-- A loop has at most one exit. -/
theorem exit_unique {body : σ → Pass σ ρ} {s : σ} {r r' : ρ} {n m : Nat}
    (h : passes body n s = .exit r) (h' : passes body m s = .exit r') : r = r' := by
  rcases Nat.le_total n m with hle | hle
  · have := (passes_exit_mono hle h).symm.trans h'
    simpa using this
  · have := h.symm.trans (passes_exit_mono hle h')
    simpa using this

/-- Some passes that all go on, then `m` more. -/
theorem passes_add {body : σ → Pass σ ρ} {s' : σ} (m : Nat) :
    ∀ {n : Nat} {s : σ}, passes body n s = .again s' →
      passes body (n + m) s = passes body m s' := by
  intro n
  induction n with
  | zero =>
    intro s h
    cases h
    rw [Nat.zero_add]
  | succ n ih =>
    intro s h
    cases hb : body s with
    | fault => simp [passes, hb] at h
    | exit r => simp [passes, hb] at h
    | again s₁ =>
      rw [passes_succ_of_again _ hb] at h
      rw [Nat.add_right_comm, passes_succ_of_again _ hb, ih h]

/-- What a pass that keeps the invariant `I`, decreases the variant below `k` when it goes
on, and establishes `Q` when it exits may be. -/
def Pass.Good (I : σ → Prop) (Q : ρ → Prop) (variant : σ → Nat) (k : Nat) :
    Pass σ ρ → Prop
  | .fault => False
  | .exit r => Q r
  | .again s' => I s' ∧ variant s' < k

/-- The total-correctness rule: the loop exits within `variant s + 1` passes, and the
result satisfies the postcondition. -/
theorem exit_of_variant {body : σ → Pass σ ρ} (I : σ → Prop) (Q : ρ → Prop)
    (variant : σ → Nat) (hbody : ∀ s, I s → (body s).Good I Q variant (variant s)) :
    ∀ {n : Nat} {s : σ}, I s → variant s < n → ∃ r, passes body n s = .exit r ∧ Q r := by
  intro n
  induction n with
  | zero => intro s _ h; omega
  | succ n ih =>
    intro s hI hlt
    have hgood := hbody s hI
    cases hb : body s with
    | fault => rw [hb] at hgood; exact hgood.elim
    | exit r =>
      rw [hb] at hgood
      exact ⟨r, passes_succ_of_exit n hb, hgood⟩
    | again s' =>
      rw [hb] at hgood
      obtain ⟨hI', hlt'⟩ := hgood
      rw [passes_succ_of_again n hb]
      exact ih hI' (by omega)

/-- The invariant holds at the head of every pass. -/
theorem invariant_of_again {body : σ → Pass σ ρ} (I : σ → Prop) (Q : ρ → Prop)
    (variant : σ → Nat) (hbody : ∀ s, I s → (body s).Good I Q variant (variant s)) {s' : σ} :
    ∀ {n : Nat} {s : σ}, I s → passes body n s = .again s' → I s' := by
  intro n
  induction n with
  | zero =>
    intro s hI h
    cases h
    exact hI
  | succ n ih =>
    intro s hI h
    have hgood := hbody s hI
    cases hb : body s with
    | fault => simp [passes, hb] at h
    | exit r => simp [passes, hb] at h
    | again s₁ =>
      rw [hb] at hgood
      rw [passes_succ_of_again n hb] at h
      exact ih hgood.1 h

end Lib.Loop
