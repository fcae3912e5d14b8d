import Mathlib.Tactic.Common

/-!
# `Chuckles.Lib.Run`: runs of a system of partial steps

A system is a function `step : σ → α → Option σ`. An action without a result is not
enabled. `Runs step ok s as s'` says that the actions `as` lead from `s` to `s'`, and that
each of them met the condition `ok` in the state where it was taken. With the trivial
condition these are all the runs.

`Runs.invariant` is the induction over runs: what holds at the start, and is preserved by
every step that meets the condition, holds in every state that such a run reaches.

A total system is a fold. `foldl_keeps_iff` is about a property that a step keeps exactly
under a condition, and `foldl_tracks_iff` about a fold that should compute a function of the
inputs so far: it does after every input exactly when each single step does.

`outputs` collects what the steps of a fold put out. `Purged` deletes inputs from a list,
each of which may depend on the inputs before it, and `Purged.outputs_eq` is the rule for
deletions that do not show: a deleted input leaves the state and puts out nothing.
-/

set_option autoImplicit false

namespace Lib.Run

universe u v w

variable {σ : Type u} {α : Type v}

/-- The runs from the state `s` whose steps all meet the condition `ok`. -/
inductive Runs (step : σ → α → Option σ) (ok : σ → α → Prop) (s : σ) : List α → σ → Prop where
  | start : Runs step ok s [] s
  | next {as : List α} {s' s'' : σ} {a : α} :
      Runs step ok s as s' → ok s' a → step s' a = some s'' → Runs step ok s (as ++ [a]) s''

/-- The condition that every step meets. -/
def Any : σ → α → Prop := fun _ _ => True

instance (s : σ) (a : α) : Decidable (Any s a) := inferInstanceAs (Decidable True)

section
variable {step : σ → α → Option σ} {ok : σ → α → Prop}

/-- The induction over runs. -/
theorem Runs.invariant (I : σ → Prop)
    (hstep : ∀ s a s', I s → ok s a → step s a = some s' → I s') {s s' : σ} {as : List α}
    (h : Runs step ok s as s') (hs : I s) : I s' := by
  induction h with
  | start => exact hs
  | next _ hok hnext ih => exact hstep _ _ _ ih hok hnext

/-- The induction over runs, for a relation between the actions so far and the state. -/
theorem Runs.invariant_trace (I : List α → σ → Prop)
    (hstep : ∀ as s a s', I as s → ok s a → step s a = some s' → I (as ++ [a]) s') {s s' : σ}
    {as : List α} (h : Runs step ok s as s') (hs : I [] s) : I as s' := by
  induction h with
  | start => exact hs
  | next _ hok hnext ih => exact hstep _ _ _ _ ih hok hnext

/-- One run after another. -/
theorem Runs.trans {s s' s'' : σ} {as as' : List α} (h : Runs step ok s as s')
    (h' : Runs step ok s' as' s'') : Runs step ok s (as ++ as') s'' := by
  induction h' with
  | start => simpa using h
  | next _ hok hnext ih =>
    rw [← List.append_assoc]
    exact ih.next hok hnext

/-- A step before a run. -/
theorem Runs.cons {s s' s'' : σ} {a : α} {as : List α} (hok : ok s a)
    (hnext : step s a = some s') (h : Runs step ok s' as s'') :
    Runs step ok s (a :: as) s'' :=
  (Runs.start.next hok hnext : Runs step ok s [a] s').trans h

/-- A run without steps stays where it is. -/
theorem Runs.eq_of_nil {s s' : σ} (h : Runs step ok s [] s') : s' = s := by
  generalize hl : ([] : List α) = l at h
  cases h with
  | start => rfl
  | next => simp at hl

/-- The first step of a run, and the rest. -/
theorem Runs.uncons {s s'' : σ} {a : α} {as : List α} (h : Runs step ok s (a :: as) s'') :
    ∃ s', ok s a ∧ step s a = some s' ∧ Runs step ok s' as s'' := by
  generalize hl : a :: as = l at h
  induction h generalizing as with
  | start => cases hl
  | @next as' s₁ s₂ b hrun hok hnext ih =>
    cases as' with
    | nil =>
      cases hl
      rw [hrun.eq_of_nil] at hok hnext
      exact ⟨s₂, hok, hnext, .start⟩
    | cons a' as' =>
      rw [List.cons_append, List.cons.injEq] at hl
      rcases ih (congrArg (· :: as') hl.1) with ⟨s', hok', hnext', hrest⟩
      rw [hl.2]
      exact ⟨s', hok', hnext', hrest.next hok hnext⟩

/-- A run in two parts. -/
theorem Runs.of_append {as : List α} :
    ∀ {s s'' : σ} {as' : List α}, Runs step ok s (as ++ as') s'' →
      ∃ s', Runs step ok s as s' ∧ Runs step ok s' as' s'' := by
  induction as with
  | nil => exact fun {s s'' as'} h => ⟨s, .start, h⟩
  | cons a as ih =>
    intro s s'' as' h
    rcases Runs.uncons h with ⟨s₁, hok, hnext, hrest⟩
    rcases ih hrest with ⟨s', hrun, hrun'⟩
    exact ⟨s', .cons hok hnext hrun, hrun'⟩

/-- The state that a list of actions leads to, when all of them are enabled and meet the
condition. -/
def exec (step : σ → α → Option σ) (ok : σ → α → Prop) [∀ s a, Decidable (ok s a)] :
    σ → List α → Option σ
  | s, [] => some s
  | s, a :: as => if ok s a then (step s a).bind fun s' => exec step ok s' as else none

/-- An execution is a run. -/
theorem runs_of_exec [∀ s a, Decidable (ok s a)] {as : List α} :
    ∀ {s s' : σ}, exec step ok s as = some s' → Runs step ok s as s' := by
  induction as with
  | nil =>
    intro s s' h
    cases h
    exact .start
  | cons a as ih =>
    intro s s' h
    rw [exec] at h
    split at h
    · rename_i hok
      obtain ⟨s₁, hnext, hrest⟩ := Option.bind_eq_some_iff.mp h
      exact .cons hok hnext (ih hrest)
    · cases h

end

section
variable {β : Type v} {f : σ → β → σ}

/-- A fold over one more input. -/
theorem foldl_take_succ (f : σ → β → σ) (s : σ) (l : List β) (i : Nat) (h : i < l.length) :
    (l.take (i + 1)).foldl f s = f ((l.take i).foldl f s) l[i] := by
  rw [← List.take_append_getElem h, List.foldl_append]
  rfl

/-- What every step preserves holds after every input. -/
theorem foldl_invariant {R : σ → Prop} (hR : ∀ s b, R s → R (f s b)) (l : List β) :
    ∀ {s : σ}, R s → R (l.foldl f s) := by
  induction l with
  | nil => exact fun h => h
  | cons b l ih => exact fun h => ih (hR _ b h)

/-- A property holds in every state of a fold exactly when each step meets the condition,
when the condition says whether a step keeps the property. An invariant `R` of all steps may
help to say that. -/
theorem foldl_keeps_iff {R I : σ → Prop} {ok : σ → β → Prop} (hR : ∀ s b, R s → R (f s b))
    (hstep : ∀ s b, R s → I s → (I (f s b) ↔ ok s b)) (l : List β) {s : σ} (hRs : R s)
    (hs : I s) :
    (∀ n ≤ l.length, I ((l.take n).foldl f s)) ↔
      ∀ i (h : i < l.length), ok ((l.take i).foldl f s) l[i] := by
  constructor
  · intro hall i h
    rw [← hstep _ _ (foldl_invariant hR _ hRs) (hall i (Nat.le_of_lt h)),
      ← foldl_take_succ f s l i h]
    exact hall (i + 1) h
  · intro hok n
    induction n with
    | zero => exact fun _ => hs
    | succ n ih =>
      intro hn
      rw [foldl_take_succ f s l n hn, hstep _ _ (foldl_invariant hR _ hRs) (ih (Nat.le_of_lt hn))]
      exact hok n hn

end

section
variable {β : Type v} {ω : Type w}

/-- What the steps of a fold put out, one after the other. -/
def outputs (f : σ → β → σ) (out : σ → β → List ω) : σ → List β → List ω
  | _, [] => []
  | s, b :: bs => out s b ++ outputs f out (f s b) bs

/-- The lists that are left of a list of inputs when some of those that may be deleted are.
Whether an input may be deleted depends on the inputs before it, and the first argument is
the list of these. They count whether they are deleted themselves or not. -/
inductive Purged (deletable : List β → β → Prop) : List β → List β → List β → Prop where
  | nil (seen : List β) : Purged deletable seen [] []
  | keep {seen bs bs' : List β} (b : β) :
      Purged deletable (seen ++ [b]) bs bs' → Purged deletable seen (b :: bs) (b :: bs')
  | delete {seen bs bs' : List β} {b : β} :
      deletable seen b → Purged deletable (seen ++ [b]) bs bs' →
        Purged deletable seen (b :: bs) bs'

/-- Deletions do not show when an invariant, which relates the inputs so far to the state,
makes each deletable input one that changes nothing. -/
theorem Purged.outputs_eq {f : σ → β → σ} {out : σ → β → List ω} {deletable : List β → β → Prop}
    (I : List β → σ → Prop) (hstep : ∀ seen s b, I seen s → I (seen ++ [b]) (f s b))
    (hsilent : ∀ seen s b, I seen s → deletable seen b → f s b = s ∧ out s b = [])
    {seen bs bs' : List β} (h : Purged deletable seen bs bs') :
    ∀ {s : σ}, I seen s →
      outputs f out s bs = outputs f out s bs' ∧ bs.foldl f s = bs'.foldl f s := by
  induction h with
  | nil => exact fun _ => ⟨rfl, rfl⟩
  | keep b _ ih =>
      intro s hs
      have hrest := ih (hstep _ s b hs)
      constructor
      · rw [outputs, outputs, hrest.1]
      · rw [List.foldl_cons, List.foldl_cons, hrest.2]
  | delete hdelete _ ih =>
      intro s hs
      have hsame := hsilent _ s _ hs hdelete
      have hrest := ih (hstep _ s _ hs)
      rw [hsame.1] at hrest
      constructor
      · rw [outputs, hsame.1, hsame.2, hrest.1, List.nil_append]
      · rw [List.foldl_cons, hsame.1, hrest.2]

end

/-- A fold computes `spec` after every input exactly when each input leads from the value
of `spec` before it to the value after it. -/
theorem foldl_tracks_iff {β : Type v} (f : σ → β → σ) (spec : List β → σ) (l : List β) :
    (∀ n ≤ l.length, (l.take n).foldl f (spec []) = spec (l.take n)) ↔
      ∀ i (h : i < l.length), f (spec (l.take i)) l[i] = spec (l.take i ++ [l[i]]) := by
  constructor
  · intro hall i h
    rw [← hall i (Nat.le_of_lt h), ← foldl_take_succ f _ l i h, hall (i + 1) h,
      List.take_append_getElem h]
  · intro hstep n
    induction n with
    | zero => intro _; rfl
    | succ n ih =>
      intro hn
      rw [foldl_take_succ f _ l n hn, ih (by omega), hstep n hn, List.take_append_getElem hn]

end Lib.Run
