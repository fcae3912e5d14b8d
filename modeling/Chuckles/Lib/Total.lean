import Chuckles.Lib.PortIo

/-!
# `Chuckles.Lib.Total`: port programs that return, and port programs that hang

`Triple` says what holds when a program returns, and it holds of a program that never does. The
notions of this file are about a closed system, which answers the reads of the program and takes
no steps of its own. There the answers are what the system gives, and a program returns or it
does not.

* `Returns`: the program returns after finitely many answers of the system.
* `Total`: it does, and every one of its runs ends like this. There is one rule for each way to
  build a program, and `Total.whileM` has a variant beside the invariant.
* `Hangs`: it does not. A program hangs when its first part does (`Hangs.bind`), or when what
  comes behind a part that returns does (`Total.hangs`), and a loop hangs when its invariant
  implies its condition (`Hangs.whileM`).

`Total.readUntil` and `Hangs.readUntil` are about a program that reads a sequence up to a value:
it returns when the value is there, and hangs when it is not. `Total.terminates` and
`Hangs.not_terminates` lead back to the runs of the program.
-/

set_option autoImplicit false

namespace Lib.PortIo

open Lib.Run

section
variable {ν α β σ : Type} {step : σ → Event ν ⊕ Empty → Option σ}

/-- From `P` the program returns in a run beside the system, and leaves the answers that it has
not used. -/
def Returns (step : σ → Event ν ⊕ Empty → Option σ) (P : σ → Prop) (m : Prog ν α)
    (Q : α → σ → Prop) : Prop :=
  ∀ s, P s → ∃ used a s', Q a s' ∧
    ∀ more, (m.run (used ++ more)).result = some (a, more) ∧
      Beside step Any m (used ++ more) s s'

/-- From `P` the program returns, and in no run otherwise than into `Q`. -/
structure Total (step : σ → Event ν ⊕ Empty → Option σ) (P : σ → Prop) (m : Prog ν α)
    (Q : α → σ → Prop) : Prop where
  returns : Returns step P m Q
  triple : Triple step Any P m Q fun _ => True

/-- From `P` the program returns in no run. -/
def Hangs (step : σ → Event ν ⊕ Empty → Option σ) (P : σ → Prop) (m : Prog ν α) : Prop :=
  Triple step Any P m (fun _ _ => False) fun _ => True

/-- A closed system takes no step of its own. -/
theorem stable_closed (P : σ → Prop) : Stable step Any P := fun _ d => d.elim

/-! ### Returning -/

/-- One thing that the program does. -/
theorem beside_singleton {m : Prog ν α} {as : List UInt8} {s s' : σ} {e : Event ν}
    (htrace : (m.run as).trace = [e]) (hstep : step s (.inl e) = some s') :
    Beside step Any m as s s' :=
  ⟨[.inl e], .cons trivial hstep .start, by rw [htrace]; rfl⟩

/-- A stronger condition before, a weaker one after. -/
theorem Returns.mono {P P' : σ → Prop} {m : Prog ν α} {Q Q' : α → σ → Prop}
    (h : Returns step P m Q) (hP : ∀ s, P' s → P s) (hQ : ∀ a s, Q a s → Q' a s) :
    Returns step P' m Q' := by
  intro s hs
  rcases h s (hP s hs) with ⟨used, a, s', ha, hrun⟩
  exact ⟨used, a, s', hQ a s' ha, hrun⟩

/-- The rule for a result. -/
theorem Returns.pure {Q : α → σ → Prop} (a : α) : Returns step (Q a) (pure a : Prog ν α) Q :=
  fun s hs => ⟨[], a, s, hs, fun _ => ⟨rfl, [], .start, rfl⟩⟩

/-- The answers of the second program come behind those of the first. -/
theorem Returns.bind {P : σ → Prop} {m : Prog ν α} {k : α → Prog ν β} {Q : α → σ → Prop}
    {R : β → σ → Prop} (hm : Returns step P m Q) (hk : ∀ a, Returns step (Q a) (k a) R) :
    Returns step P (m >>= k) R := by
  intro s hs
  rcases hm s hs with ⟨used, a, s₁, ha, hrun⟩
  rcases hk a s₁ ha with ⟨used', b, s', hb, hrun'⟩
  refine ⟨used ++ used', b, s', hb, fun more => ?_⟩
  rcases hrun (used' ++ more) with ⟨hresult, acts, hacts, htrace⟩
  rcases hrun' more with ⟨hresult', acts', hacts', htrace'⟩
  rw [List.append_assoc, Beside, run_bind_some hresult]
  refine ⟨hresult', acts ++ acts', hacts.trans hacts', ?_⟩
  rw [List.filterMap_append, htrace, htrace']

/-- The rule for a read: the system allows some answer. -/
theorem Returns.inb {P : σ → Prop} {Q : UInt8 → σ → Prop} {port : UInt16}
    (h : ∀ s, P s → ∃ b s', step s (.inl (.inb port b)) = some s' ∧ Q b s') :
    Returns step P (inb port) Q := by
  intro s hs
  rcases h s hs with ⟨b, s', hstep, hb⟩
  exact ⟨[b], b, s', hb, fun _ => ⟨rfl, beside_singleton rfl hstep⟩⟩

/-- The rule for a write: the system allows it. -/
theorem Returns.outb {P Q : σ → Prop} {port : UInt16} {value : UInt8}
    (h : ∀ s, P s → ∃ s', step s (.inl (.outb port value)) = some s' ∧ Q s') :
    Returns step P (outb port value) fun _ => Q := by
  intro s hs
  rcases h s hs with ⟨s', hstep, hs'⟩
  exact ⟨[], (), s', hs', fun _ => ⟨rfl, beside_singleton rfl hstep⟩⟩

/-- The rule for a note. -/
theorem Returns.note {P Q : σ → Prop} {n : ν}
    (h : ∀ s, P s → ∃ s', step s (.inl (.note n)) = some s' ∧ Q s') :
    Returns step P (note n) fun _ => Q := by
  intro s hs
  rcases h s hs with ⟨s', hstep, hs'⟩
  exact ⟨[], (), s', hs', fun _ => ⟨rfl, beside_singleton rfl hstep⟩⟩

/-- A loop returns when each of its passes does, with a smaller variant. The first argument of
the invariant is the variant. -/
theorem Returns.whileM {cond : α → Prop} [DecidablePred cond] {body : α → Prog ν α}
    {I : Nat → α → σ → Prop} (hreads : ∀ x, Reads (body x))
    (hbody : ∀ n x, cond x → Returns step (I n x) (body x) fun y s => ∃ k < n, I k y s)
    (n : Nat) : ∀ x, Returns step (I n x) (whileM cond body x)
      fun y s => (∃ k, I k y s) ∧ ¬cond y := by
  induction n using Nat.strongRecOn with
  | _ n ih =>
      intro x
      rw [whileM_eq hreads]
      by_cases hx : cond x
      · rw [if_pos hx]
        refine (hbody n x hx).bind fun y => ?_
        rintro s ⟨k, hk, hs⟩
        exact ih k hk y s hs
      · rw [if_neg hx]
        intro s hs
        exact Returns.pure (Q := fun y s => (∃ k, I k y s) ∧ ¬cond y) x s ⟨⟨n, hs⟩, hx⟩

/-! ### Total correctness -/

/-- A stronger condition before, a weaker one after. -/
theorem Total.mono {P P' : σ → Prop} {m : Prog ν α} {Q Q' : α → σ → Prop}
    (h : Total step P m Q) (hP : ∀ s, P' s → P s) (hQ : ∀ a s, Q a s → Q' a s) :
    Total step P' m Q' :=
  ⟨h.returns.mono hP hQ, h.triple.mono hP hQ fun _ h => h⟩

/-- A fact that the system has no part in. -/
theorem Total.of_fact {φ : Prop} {P : σ → Prop} {m : Prog ν α} {Q : α → σ → Prop}
    (h : φ → Total step P m Q) : Total step (fun s => φ ∧ P s) m Q :=
  ⟨fun s hs => (h hs.1).returns s hs.2, fun as s s' hs => (h hs.1).triple as s s' hs.2⟩

/-- A witness that the system has no part in. -/
theorem Total.of_exists {ι : Type} {P : ι → σ → Prop} {m : Prog ν α} {Q : α → σ → Prop}
    (h : ∀ i, Total step (P i) m Q) : Total step (fun s => ∃ i, P i s) m Q := by
  constructor
  · rintro s ⟨i, hs⟩
    exact (h i).returns s hs
  · rintro as s s' ⟨i, hs⟩
    exact (h i).triple as s s' hs

/-- The rule for a result. -/
theorem Total.pure {P : σ → Prop} {Q : α → σ → Prop} (a : α) (h : ∀ s, P s → Q a s) :
    Total step P (pure a : Prog ν α) Q :=
  ⟨(Returns.pure a).mono h fun _ _ h => h,
    (Triple.pure a (stable_closed (Q a))).mono h (fun _ _ h => h) fun _ h => h⟩

/-- The rule for one program after the other. -/
theorem Total.bind {P : σ → Prop} {m : Prog ν α} {k : α → Prog ν β} {Q : α → σ → Prop}
    {R : β → σ → Prop} (hm : Total step P m Q) (hk : ∀ a, Total step (Q a) (k a) R) :
    Total step P (m >>= k) R :=
  ⟨hm.returns.bind fun a => (hk a).returns, hm.triple.bind fun a => (hk a).triple⟩

/-- The rule for a read: the system gives an answer, and each one that it may give is right. -/
theorem Total.inb {P : σ → Prop} {Q : UInt8 → σ → Prop} {port : UInt16}
    (h : ∀ s, P s → ∃ b s', step s (.inl (.inb port b)) = some s')
    (hQ : ∀ b s s', P s → step s (.inl (.inb port b)) = some s' → Q b s') :
    Total step P (inb port) Q := by
  constructor
  · refine Returns.inb fun s hs => ?_
    rcases h s hs with ⟨b, s', hstep⟩
    exact ⟨b, s', hstep, hQ b s s' hs hstep⟩
  · exact Triple.inb (stable_closed P) (fun b => stable_closed (Q b)) (fun _ _ => trivial)
      fun b s s' hs _ hstep => hQ b s s' hs hstep

/-- The rule for a write. The system is a function, so there is one state behind it. -/
theorem Total.outb {P Q : σ → Prop} {port : UInt16} {value : UInt8}
    (h : ∀ s, P s → ∃ s', step s (.inl (.outb port value)) = some s' ∧ Q s') :
    Total step P (outb port value) fun _ => Q := by
  refine ⟨Returns.outb h, Triple.outb (stable_closed P) (stable_closed Q) ?_⟩
  intro s s' hs _ hstep
  rcases h s hs with ⟨s₁, hstep₁, hs₁⟩
  rw [hstep, Option.some.injEq] at hstep₁
  rwa [hstep₁]

/-- The rule for a note. -/
theorem Total.note {P Q : σ → Prop} {n : ν}
    (h : ∀ s, P s → ∃ s', step s (.inl (.note n)) = some s' ∧ Q s') :
    Total step P (note n) fun _ => Q := by
  refine ⟨Returns.note h, Triple.note (stable_closed P) (stable_closed Q) ?_⟩
  intro s s' hs _ hstep
  rcases h s hs with ⟨s₁, hstep₁, hs₁⟩
  rw [hstep, Option.some.injEq] at hstep₁
  rwa [hstep₁]

section
variable {cond : α → Prop} [DecidablePred cond] {I : Nat → α → σ → Prop}

/-- The rule for a loop, with a variant that each pass makes smaller. -/
theorem Total.whileM {body : α → Prog ν α} (hreads : ∀ x, Reads (body x))
    (hbody : ∀ n x, cond x → Total step (I n x) (body x) fun y s => ∃ k < n, I k y s) (x : α) :
    Total step (fun s => ∃ n, I n x s) (whileM cond body x)
      fun y s => (∃ n, I n y s) ∧ ¬cond y := by
  constructor
  · rintro s ⟨n, hs⟩
    exact Returns.whileM hreads (fun n x hx => (hbody n x hx).returns) n x s hs
  · have hpass (x : α) (hx : cond x) : Triple step Any (fun s => ∃ n, I n x s) (body x)
        (fun y s => ∃ n, I n y s) fun _ => True := by
      refine Triple.of_exists fun n => (hbody n x hx).triple.mono (fun _ h => h) ?_ fun _ h => h
      rintro y s ⟨k, -, hs⟩
      exact ⟨k, hs⟩
    exact Triple.whileM (fun _ => stable_closed _) hreads hpass x

/-- The rule for a loop that tests after its body. -/
theorem Total.doWhile {body : Prog ν α} {P : σ → Prop} (hreads : Reads body)
    (hfirst : Total step P body fun y s => ∃ n, I n y s)
    (hbody : ∀ n x, cond x → Total step (I n x) body fun y s => ∃ k < n, I k y s) :
    Total step P (doWhile cond body) fun y s => (∃ n, I n y s) ∧ ¬cond y :=
  hfirst.bind fun x => Total.whileM (fun _ => hreads) hbody x

end

/-! ### Hanging -/

/-- A program that hangs in its first part. -/
theorem Hangs.bind {P : σ → Prop} {m : Prog ν α} (h : Hangs step P m) (k : α → Prog ν β) :
    Hangs step P (m >>= k) :=
  Triple.bind h fun _ _ _ _ hfalse => hfalse.elim

/-- A program that hangs behind a part that returns. -/
theorem Total.hangs {P : σ → Prop} {m : Prog ν α} {k : α → Prog ν β} {Q : α → σ → Prop}
    (hm : Total step P m Q) (hk : ∀ a, Hangs step (Q a) (k a)) : Hangs step P (m >>= k) :=
  hm.triple.bind hk

/-- A stronger condition before. -/
theorem Hangs.mono {P P' : σ → Prop} {m : Prog ν α} (h : Hangs step P m)
    (hP : ∀ s, P' s → P s) : Hangs step P' m :=
  Triple.mono h hP (fun _ _ h => h) fun _ h => h

/-- A loop whose invariant implies its condition. -/
theorem Hangs.whileM {cond : α → Prop} [DecidablePred cond] {body : α → Prog ν α}
    {I : α → σ → Prop} (hreads : ∀ x, Reads (body x))
    (hbody : ∀ x, cond x → Triple step Any (I x) (body x) I fun _ => True)
    (hcond : ∀ x s, I x s → cond x) (x : α) : Hangs step (I x) (whileM cond body x) :=
  (Triple.whileM (fun _ => stable_closed _) hreads hbody x).mono (fun _ h => h)
    (fun y s h => h.2 (hcond y s h.1)) fun _ h => h

/-! ### Reading up to a value -/

section
variable {P : Nat → σ → Prop} {val : Nat → α} {cond : α → Prop} [DecidablePred cond]
  {first : Prog ν α} {body : α → Prog ν α} {k : Nat}

/-- A program reads one value of a sequence at a time. `P i` says that the next one is `val i`.
When `val j` is the first one that ends the loop, the program returns behind it. -/
theorem Total.readUntil {j : Nat} (hreads : ∀ x, Reads (body x))
    (hfirst : Total step (P k) first fun x s => x = val k ∧ P (k + 1) s)
    (hbody : ∀ x i, k < i → i ≤ j → Total step (P i) (body x) fun y s => y = val i ∧ P (i + 1) s)
    (hj : k ≤ j) (hstop : ¬cond (val j)) (hgo : ∀ i, k ≤ i → i < j → cond (val i)) :
    Total step (P k) (first >>= PortIo.whileM cond body) fun x s => x = val j ∧ P (j + 1) s := by
  -- The variant is the number of values to come.
  let I (n : Nat) (x : α) (s : σ) : Prop := (n ≤ j - k ∧ x = val (j - n)) ∧ P (j - n + 1) s
  have hstart : Total step (P k) first fun x s => ∃ n, I n x s := by
    refine hfirst.mono (fun _ h => h) ?_
    rintro x s ⟨rfl, hs⟩
    have hk : j - (j - k) = k := Nat.sub_sub_self hj
    exact ⟨j - k, ⟨Nat.le_refl _, by rw [hk]⟩, by rw [hk]; exact hs⟩
  have hpass (n : Nat) (x : α) (hx : cond x) :
      Total step (I n x) (body x) fun y s => ∃ i < n, I i y s := by
    refine Total.of_fact fun hn => ?_
    have hne : n ≠ 0 := by
      rintro rfl
      rw [hn.2] at hx
      exact hstop hx
    have hnext : j - n + 1 = j - (n - 1) := by omega
    rw [hnext]
    refine (hbody x (j - (n - 1)) (by omega) (by omega)).mono (fun _ h => h) ?_
    rintro y s ⟨rfl, hs⟩
    exact ⟨n - 1, by omega, ⟨by omega, rfl⟩, hs⟩
  refine (hstart.bind fun x => Total.whileM hreads hpass x).mono (fun _ h => h) ?_
  rintro x s ⟨⟨n, ⟨hn, rfl⟩, hs⟩, hx⟩
  -- The loop has not ended before this value.
  have hzero : n = 0 := by
    by_contra hne
    exact hx (hgo (j - n) (by omega) (by omega))
  rw [hzero, Nat.sub_zero] at hs ⊢
  exact ⟨rfl, hs⟩

/-- When no value ends the loop, the program hangs. -/
theorem Hangs.readUntil (hreads : ∀ x, Reads (body x))
    (hfirst : Total step (P k) first fun x s => x = val k ∧ P (k + 1) s)
    (hbody : ∀ x i, k < i → Total step (P i) (body x) fun y s => y = val i ∧ P (i + 1) s)
    (hgo : ∀ i, k ≤ i → cond (val i)) : Hangs step (P k) (first >>= PortIo.whileM cond body) := by
  let I (x : α) (s : σ) : Prop := ∃ i, (k ≤ i ∧ x = val i) ∧ P (i + 1) s
  have hpass (x : α) (_ : cond x) : Triple step Any (I x) (body x) I fun _ => True := by
    refine Triple.of_exists fun i => Triple.of_fact fun hi => ?_
    refine (hbody x (i + 1) (by omega)).triple.mono (fun _ h => h) ?_ fun _ h => h
    rintro y s ⟨rfl, hs⟩
    exact ⟨i + 1, ⟨by omega, rfl⟩, hs⟩
  have hcond (x : α) (s : σ) : I x s → cond x := by
    rintro ⟨i, ⟨hi, rfl⟩, -⟩
    exact hgo i hi
  refine hfirst.hangs fun x => (Hangs.whileM hreads hpass hcond x).mono ?_
  rintro s ⟨rfl, hs⟩
  exact ⟨k, ⟨Nat.le_refl k, rfl⟩, hs⟩

end

/-! ### Runs -/

/-- The program returns in some run from the state `s`. -/
def Terminates (step : σ → Event ν ⊕ Empty → Option σ) (s : σ) (m : Prog ν α) : Prop :=
  ∃ as a rest s', (m.run as).result = some (a, rest) ∧ Beside step Any m as s s'

/-- A triple of total correctness is about a run that exists. -/
theorem Total.terminates {P : σ → Prop} {m : Prog ν α} {Q : α → σ → Prop} {s : σ}
    (h : Total step P m Q) (hs : P s) : Terminates step s m := by
  rcases h.returns s hs with ⟨used, a, s', -, hrun⟩
  rcases hrun [] with ⟨hresult, hbeside⟩
  exact ⟨_, a, [], s', hresult, hbeside⟩

/-- And no run of a program that hangs returns. -/
theorem Hangs.not_terminates {P : σ → Prop} {m : Prog ν α} {s : σ} (h : Hangs step P m)
    (hs : P s) : ¬Terminates step s m := by
  rintro ⟨as, a, rest, s', hresult, hbeside⟩
  exact (h as s s' hs hbeside).1 a rest hresult

end

end Lib.PortIo
