import Chuckles.Lib.Run

/-!
# `Chuckles.Lib.PortIo`: programs that read and write ports

A program is a function of the answers to its reads. `Prog.run` gives the trace of what the
program did, and its result, with the answers that are left. When the answers run out, the
program waits for the next one and there is no result. So the lists of answers are the
beginnings of all the runs, also of a run that polls forever.

A note in the trace is whatever else the program does that should be visible.

`Triple` is about a program beside a system that answers its reads, sees its writes, and
takes steps of its own in between. The triple says what holds of the system when the program
returns, and while it waits. There is one rule for each way to build a program:

* `Triple.pure`, `Triple.bind`, `Triple.inb`, `Triple.outb`, `Triple.note`, and
  `Triple.whileM` with the invariant of the loop.
* `whileM_eq`: a loop whose passes read ports is the loop.
* `Triple.of_does`: what is preserved by everything that the program does (`Does`).
* `Triple.foldl_run`: for a system that only watches, a triple is about a fold over the trace.
* `Triple.of_ignored`: a part of a larger program that a device of the system has no part in.
* `Triple.series_part`: a device that has a part in one of the programs of a series only.
-/

set_option autoImplicit false

namespace Lib.PortIo

open Lib.Run

/-! ### Programs -/

/-- What a program does. -/
inductive Event (ν : Type) where
  | inb (port : UInt16) (answer : UInt8)
  | outb (port : UInt16) (value : UInt8)
  | note (n : ν)

/-- What a run did, and its result with the answers that are left. -/
structure Outcome (ν α : Type) where
  trace : List (Event ν)
  result : Option (α × List UInt8)

/-- A program: its outcome on the answers to its reads. -/
structure Prog (ν α : Type) where
  run : List UInt8 → Outcome ν α
  shrinks : ∀ as a rest, (run as).result = some (a, rest) → rest.length ≤ as.length

section
variable {ν α β γ : Type}

/-- Programs with the same runs are equal. -/
theorem Prog.ext {m m' : Prog ν α} (h : ∀ as, m.run as = m'.run as) : m = m' := by
  rcases m with ⟨run, _⟩
  rcases m' with ⟨run', _⟩
  have hrun : run = run' := funext h
  subst hrun
  rfl

/-- Nothing but a result. -/
protected def Prog.pure (a : α) : Prog ν α where
  run as := ⟨[], some (a, as)⟩
  shrinks := by
    rintro as a' rest ⟨⟩
    exact Nat.le_refl _

/-- One program after the other. -/
protected def Prog.bind (m : Prog ν α) (k : α → Prog ν β) : Prog ν β where
  run as :=
    match (m.run as).result with
    | none => ⟨(m.run as).trace, none⟩
    | some (a, rest) =>
      ⟨(m.run as).trace ++ ((k a).run rest).trace, ((k a).run rest).result⟩
  shrinks := by
    intro as b rest h
    rcases hm : (m.run as).result with _ | ⟨a, left⟩
    · simp only [hm, reduceCtorEq] at h
    · simp only [hm] at h
      exact Nat.le_trans ((k a).shrinks _ _ _ h) (m.shrinks _ _ _ hm)

instance : Monad (Prog ν) where
  pure := Prog.pure
  bind := Prog.bind

/-- The run of a program that waits in its first part. -/
theorem run_bind_none {m : Prog ν α} {as : List UInt8} (h : (m.run as).result = none)
    (k : α → Prog ν β) : (m >>= k).run as = ⟨(m.run as).trace, none⟩ := by
  show (match (m.run as).result with
    | none => (⟨(m.run as).trace, none⟩ : Outcome ν β)
    | some (a, rest) => ⟨(m.run as).trace ++ ((k a).run rest).trace, ((k a).run rest).result⟩) = _
  rw [h]

/-- The run of a program that gets to its second part. -/
theorem run_bind_some {m : Prog ν α} {as rest : List UInt8} {a : α}
    (h : (m.run as).result = some (a, rest)) (k : α → Prog ν β) :
    (m >>= k).run as
      = ⟨(m.run as).trace ++ ((k a).run rest).trace, ((k a).run rest).result⟩ := by
  show (match (m.run as).result with
    | none => (⟨(m.run as).trace, none⟩ : Outcome ν β)
    | some (a, rest) => ⟨(m.run as).trace ++ ((k a).run rest).trace, ((k a).run rest).result⟩) = _
  rw [h]

/-- A program without a second part. -/
theorem Prog.id_map (m : Prog ν α) : id <$> m = m := by
  refine Prog.ext fun as => ?_
  show (m >>= fun a => pure (id a)).run as = _
  rcases h : (m.run as).result with _ | ⟨a, rest⟩
  · rw [run_bind_none h, ← h]
  · rw [run_bind_some h]
    show (⟨(m.run as).trace ++ [], some (a, rest)⟩ : Outcome ν α) = _
    rw [List.append_nil, ← h]

/-- Three programs, one after the other. -/
theorem Prog.bind_assoc (m : Prog ν α) (k : α → Prog ν β) (l : β → Prog ν γ) :
    m >>= k >>= l = m >>= fun a => k a >>= l := by
  refine Prog.ext fun as => ?_
  rcases h : (m.run as).result with _ | ⟨a, rest⟩
  · rw [run_bind_none (by rw [run_bind_none h]), run_bind_none h, run_bind_none h]
  · rw [run_bind_some h]
    rcases h' : ((k a).run rest).result with _ | ⟨b, rest'⟩
    · -- The second program waits, so the third one is not reached on either side.
      rw [run_bind_none (by rw [run_bind_some h, h']), run_bind_none h', run_bind_some h]
    · rw [run_bind_some (by rw [run_bind_some h, h']), run_bind_some h', run_bind_some h,
        List.append_assoc]

instance : LawfulMonad (Prog ν) :=
  LawfulMonad.mk' _ Prog.id_map (fun _ _ => rfl) Prog.bind_assoc

/-- A read of a port. -/
def inb (port : UInt16) : Prog ν UInt8 where
  run
    | [] => ⟨[], none⟩
    | b :: as => ⟨[.inb port b], some (b, as)⟩
  shrinks := by
    intro as b rest h
    cases as with
    | nil => cases h
    | cons b' as =>
      cases h
      exact Nat.le_succ _

/-- A write to a port. -/
def outb (port : UInt16) (value : UInt8) : Prog ν Unit where
  run as := ⟨[.outb port value], some ((), as)⟩
  shrinks := by
    rintro as a rest ⟨⟩
    exact Nat.le_refl _

/-- Something else. -/
def note (n : ν) : Prog ν Unit where
  run as := ⟨[.note n], some ((), as)⟩
  shrinks := by
    rintro as a rest ⟨⟩
    exact Nat.le_refl _

/-- Programs one after the other. -/
def series : List (Prog ν Unit) → Prog ν Unit
  | [] => pure ()
  | m :: ms => do
    m
    series ms

/-- Two series, one after the other. -/
theorem series_append (ms ms' : List (Prog ν Unit)) :
    series (ms ++ ms') = series ms >>= fun _ => series ms' := by
  induction ms with
  | nil => rfl
  | cons m ms ih => simp [series, ih]

/-! ### Loops -/

/-- A program that has no result, and does nothing. -/
def stuck : Prog ν α where
  run _ := ⟨[], none⟩
  shrinks := nofun

/-- A loop with a bound on the number of its tests. -/
def whileFuel (cond : α → Prop) [DecidablePred cond] (body : α → Prog ν α) :
    Nat → α → Prog ν α
  | 0, _ => stuck
  | n + 1, x => if cond x then body x >>= whileFuel cond body n else pure x

/-- `while (cond) body`. Each run of the body should read a port. Then the number of the
answers is a bound. -/
def whileM (cond : α → Prop) [DecidablePred cond] (body : α → Prog ν α) (x : α) :
    Prog ν α where
  run as := (whileFuel cond body (as.length + 1) x).run as
  shrinks as := (whileFuel cond body (as.length + 1) x).shrinks as

/-- `do body while (cond)`. -/
def doWhile (cond : α → Prop) [DecidablePred cond] (body : Prog ν α) : Prog ν α := do
  let x ← body
  whileM cond (fun _ => body) x

/-- Every run of the program reads a port. -/
def Reads (m : Prog ν α) : Prop :=
  ∀ as a rest, (m.run as).result = some (a, rest) → rest.length < as.length

/-- A read of a port does. -/
theorem reads_inb (port : UInt16) : Reads (inb port : Prog ν UInt8) := by
  intro as b rest h
  cases as with
  | nil => cases h
  | cons b' as =>
    cases h
    exact Nat.lt_succ_self _

/-- A program reads when its first part does. -/
theorem Reads.bind {m : Prog ν α} (h : Reads m) (k : α → Prog ν β) : Reads (m >>= k) := by
  intro as b rest hresult
  rcases hm : (m.run as).result with _ | ⟨a, left⟩
  · rw [run_bind_none hm] at hresult
    cases hresult
  · rw [run_bind_some hm] at hresult
    exact Nat.lt_of_le_of_lt ((k a).shrinks _ _ _ hresult) (h _ _ _ hm)

/-- A program reads when its second part does. -/
theorem Reads.bind_right {m : Prog ν α} {k : α → Prog ν β} (h : ∀ a, Reads (k a)) :
    Reads (m >>= k) := by
  intro as b rest hresult
  rcases hm : (m.run as).result with _ | ⟨a, left⟩
  · rw [run_bind_none hm] at hresult
    cases hresult
  · rw [run_bind_some hm] at hresult
    exact Nat.lt_of_lt_of_le (h a _ _ _ hresult) (m.shrinks _ _ _ hm)

/-- With a bound above the number of the answers, the bound does not matter. -/
theorem whileFuel_run_eq {cond : α → Prop} [DecidablePred cond] {body : α → Prog ν α}
    (hreads : ∀ x, Reads (body x)) :
    ∀ (n n' : Nat) (x : α) (as : List UInt8), as.length < n → as.length < n' →
      (whileFuel cond body n x).run as = (whileFuel cond body n' x).run as := by
  intro n
  induction n with
  | zero => exact fun _ _ _ hn => absurd hn (Nat.not_lt_zero _)
  | succ n ih =>
    intro n' x as hn hn'
    cases n' with
    | zero => exact absurd hn' (Nat.not_lt_zero _)
    | succ n' =>
      rw [whileFuel, whileFuel]
      by_cases hx : cond x
      · rw [if_pos hx, if_pos hx]
        rcases hresult : ((body x).run as).result with _ | ⟨y, rest⟩
        · rw [run_bind_none hresult, run_bind_none hresult]
        · -- The pass has read an answer, so one test less is enough for the others.
          have hrest := hreads x as y rest hresult
          rw [run_bind_some hresult, run_bind_some hresult,
            ih n' y rest (by omega) (by omega)]
      · rw [if_neg hx, if_neg hx]

/-- The equation of the loop. -/
theorem whileM_eq {cond : α → Prop} [DecidablePred cond] {body : α → Prog ν α}
    (hreads : ∀ x, Reads (body x)) (x : α) :
    whileM cond body x = if cond x then body x >>= whileM cond body else pure x := by
  refine Prog.ext fun as => ?_
  show (whileFuel cond body (as.length + 1) x).run as = _
  rw [whileFuel]
  by_cases hx : cond x
  · rw [if_pos hx, if_pos hx]
    rcases hresult : ((body x).run as).result with _ | ⟨y, rest⟩
    · rw [run_bind_none hresult, run_bind_none hresult]
    · have hrest := hreads x as y rest hresult
      have hsame : (whileM cond body y).run rest = (whileFuel cond body as.length y).run rest :=
        whileFuel_run_eq hreads _ _ y rest (Nat.lt_succ_self _) hrest
      rw [run_bind_some hresult, run_bind_some hresult, hsame]
  · rw [if_neg hx, if_neg hx]

end

/-! ### What a program does -/

section
variable {ν α β : Type} {E : Event ν → Prop}

/-- Whatever the answers are, everything that the program does meets a condition. -/
def Does (E : Event ν → Prop) (m : Prog ν α) : Prop := ∀ as, ∀ e ∈ (m.run as).trace, E e

/-- A program that does the same in all its runs. -/
theorem does_of_trace {m : Prog ν α} {t : List (Event ν)} (htrace : ∀ as, (m.run as).trace = t)
    (h : ∀ e ∈ t, E e) : Does E m := by
  intro as e he
  rw [htrace as] at he
  exact h e he

/-- A program that only writes, the same values to the same ports in all its runs. -/
theorem does_writes {m : Prog ν α} {w : List (UInt16 × UInt8)}
    (htrace : ∀ as, (m.run as).trace = w.map fun x => .outb x.1 x.2)
    (h : ∀ x ∈ w, E (.outb x.1 x.2)) : Does E m := by
  refine does_of_trace htrace fun e he => ?_
  obtain ⟨x, hx, rfl⟩ := List.mem_map.mp he
  exact h x hx

/-- A program that does nothing but these notes. -/
theorem does_notes {m : Prog ν α} {w : List ν} (htrace : ∀ as, (m.run as).trace = w.map .note)
    (h : ∀ n ∈ w, E (.note n)) : Does E m := by
  refine does_of_trace htrace fun e he => ?_
  obtain ⟨n, hn, rfl⟩ := List.mem_map.mp he
  exact h n hn

/-- A result does nothing. -/
theorem does_pure (a : α) : Does E (pure a : Prog ν α) := fun _ _ he => absurd he List.not_mem_nil

/-- What two programs do, one after the other. -/
theorem Does.bind {m : Prog ν α} {k : α → Prog ν β} (hm : Does E m) (hk : ∀ a, Does E (k a)) :
    Does E (m >>= k) := by
  intro as e he
  rcases hresult : (m.run as).result with _ | ⟨a, rest⟩
  · rw [run_bind_none hresult] at he
    exact hm as e he
  · rw [run_bind_some hresult] at he
    rcases List.mem_append.mp he with he | he
    · exact hm as e he
    · exact hk a rest e he

/-- What a series of programs does. -/
theorem does_series {ms : List (Prog ν Unit)} (h : ∀ m ∈ ms, Does E m) : Does E (series ms) := by
  induction ms with
  | nil => exact does_pure ()
  | cons m ms ih =>
    rw [List.forall_mem_cons] at h
    exact h.1.bind fun _ => ih h.2

/-- A program that branches. -/
theorem Does.ite {m m' : Prog ν α} (hm : Does E m) (hm' : Does E m') (c : Prop) [Decidable c] :
    Does E (if c then m else m') := by
  split
  · exact hm
  · exact hm'

/-- A read. -/
theorem does_inb {port : UInt16} (h : ∀ b, E (.inb port b)) : Does E (inb port : Prog ν UInt8) := by
  intro as e he
  cases as with
  | nil => exact absurd he List.not_mem_nil
  | cons b as =>
    rw [List.mem_singleton.mp he]
    exact h b

/-- A write. -/
theorem does_outb {port : UInt16} {value : UInt8} (h : E (.outb port value)) :
    Does E (outb port value) := by
  intro as e he
  rw [List.mem_singleton.mp he]
  exact h

/-- A note. -/
theorem does_note {n : ν} (h : E (.note n)) : Does E (note n) := by
  intro as e he
  rw [List.mem_singleton.mp he]
  exact h

/-- A loop does what its body does. -/
theorem does_whileM {cond : α → Prop} [DecidablePred cond] {body : α → Prog ν α}
    (hbody : ∀ x, Does E (body x)) (x : α) : Does E (whileM cond body x) := by
  have hfuel : ∀ n x, Does E (whileFuel cond body n x) := by
    intro n
    induction n with
    | zero => exact fun x as e he => absurd he List.not_mem_nil
    | succ n ih =>
      intro x
      rw [whileFuel]
      split
      · exact (hbody x).bind ih
      · exact does_pure x
  exact fun as => hfuel _ x as

/-- So does a loop that tests after its body. -/
theorem Does.doWhile {cond : α → Prop} [DecidablePred cond] {body : Prog ν α}
    (hbody : Does E body) : Does E (doWhile cond body) :=
  hbody.bind fun x => does_whileM (fun _ => hbody) x

end

/-! ### Programs beside a system -/

section
variable {ν α β σ δ : Type} {step : σ → Event ν ⊕ δ → Option σ} {ok : σ → Event ν ⊕ δ → Prop}

/-- The program runs beside a system, which takes part in everything that the program does,
and takes the steps `δ` of its own. -/
def Beside (step : σ → Event ν ⊕ δ → Option σ) (ok : σ → Event ν ⊕ δ → Prop) (m : Prog ν α)
    (as : List UInt8) (s s' : σ) : Prop :=
  ∃ acts, Runs step ok s acts s' ∧ acts.filterMap Sum.getLeft? = (m.run as).trace

/-- The system's own steps preserve a condition. -/
def Stable (step : σ → Event ν ⊕ δ → Option σ) (ok : σ → Event ν ⊕ δ → Prop) (P : σ → Prop) :
    Prop :=
  ∀ s d s', P s → ok s (.inr d) → step s (.inr d) = some s' → P s'

/-- From `P` the program runs into `Q` when it returns, and into `W` when it waits. -/
def Triple (step : σ → Event ν ⊕ δ → Option σ) (ok : σ → Event ν ⊕ δ → Prop) (P : σ → Prop)
    (m : Prog ν α) (Q : α → σ → Prop) (W : σ → Prop) : Prop :=
  ∀ as s s', P s → Beside step ok m as s s' →
    (∀ a rest, (m.run as).result = some (a, rest) → Q a s') ∧ ((m.run as).result = none → W s')

/-- Steps of the system alone. -/
theorem Stable.runs {P : σ → Prop} (hP : Stable step ok P) {s s' : σ}
    {acts : List (Event ν ⊕ δ)} (h : Runs step ok s acts s')
    (hacts : ∀ a ∈ acts, a.getLeft? = none) (hs : P s) : P s' := by
  induction h with
  | start => exact hs
  | @next as s₁ s₂ a _ hok hnext ih =>
    have hbefore := ih fun b hb => hacts b (List.mem_append_left _ hb)
    cases a with
    | inl e =>
      have hnone := hacts (.inl e) (List.mem_append_right _ (List.mem_singleton_self _))
      cases hnone
    | inr d => exact hP _ _ _ hbefore hok hnext

/-- A program that does nothing. -/
theorem Stable.of_nil {P : σ → Prop} (hP : Stable step ok P) {m : Prog ν α} {as : List UInt8}
    {s s' : σ} (h : Beside step ok m as s s') (htrace : (m.run as).trace = []) (hs : P s) :
    P s' := by
  rcases h with ⟨acts, hrun, hacts⟩
  rw [htrace] at hacts
  exact hP.runs hrun (List.filterMap_eq_nil_iff.mp hacts) hs

/-- A program that does one thing. -/
theorem Stable.of_singleton {P Q : σ → Prop} (hP : Stable step ok P) (hQ : Stable step ok Q)
    {m : Prog ν α} {as : List UInt8} {s s' : σ} {e : Event ν} (h : Beside step ok m as s s')
    (htrace : (m.run as).trace = [e])
    (hstep : ∀ s s', P s → ok s (.inl e) → step s (.inl e) = some s' → Q s') (hs : P s) :
    Q s' := by
  rcases h with ⟨acts, hrun, hacts⟩
  rw [htrace] at hacts
  -- The system's own steps stand before and after it.
  rcases List.filterMap_eq_cons_iff.mp hacts with ⟨before, a, after, rfl, hbefore, ha, hafter⟩
  rcases hrun.of_append with ⟨s₁, hrun₁, hrun₂⟩
  rcases hrun₂.uncons with ⟨s₂, hok, hnext, hrun₃⟩
  cases a with
  | inr d => cases ha
  | inl e' =>
    cases ha
    -- `P` holds up to the event, and `Q` from there on.
    have hs₁ := hP.runs hrun₁ hbefore hs
    exact hQ.runs hrun₃ (List.filterMap_eq_nil_iff.mp hafter) (hstep _ _ hs₁ hok hnext)

/-- A stronger condition before, weaker ones after. -/
theorem Triple.mono {P P' W W' : σ → Prop} {m : Prog ν α} {Q Q' : α → σ → Prop}
    (h : Triple step ok P m Q W) (hP : ∀ s, P' s → P s) (hQ : ∀ a s, Q a s → Q' a s)
    (hW : ∀ s, W s → W' s) : Triple step ok P' m Q' W' := by
  intro as s s' hs hbeside
  rcases h as s s' (hP s hs) hbeside with ⟨hreturns, hwaits⟩
  exact ⟨fun a rest hresult => hQ a s' (hreturns a rest hresult), fun hnone => hW s' (hwaits hnone)⟩

/-- A fact that the system has no part in. -/
theorem Triple.of_fact {φ : Prop} {P W : σ → Prop} {m : Prog ν α} {Q : α → σ → Prop}
    (h : φ → Triple step ok P m Q W) : Triple step ok (fun s => φ ∧ P s) m Q W :=
  fun as s s' hs => h hs.1 as s s' hs.2

/-- A witness that the system has no part in. -/
theorem Triple.of_exists {ι : Type} {P : ι → σ → Prop} {W : σ → Prop} {m : Prog ν α}
    {Q : α → σ → Prop} (h : ∀ i, Triple step ok (P i) m Q W) :
    Triple step ok (fun s => ∃ i, P i s) m Q W := by
  rintro as s s' ⟨i, hs⟩
  exact h i as s s' hs

/-- The rule for a result. -/
theorem Triple.pure {Q : α → σ → Prop} {W : σ → Prop} (a : α) (hQ : Stable step ok (Q a)) :
    Triple step ok (Q a) (pure a : Prog ν α) Q W := by
  intro as s s' hs hbeside
  refine ⟨fun a' rest hresult => ?_, nofun⟩
  cases hresult
  exact hQ.of_nil hbeside rfl hs

/-- The rule for one program after the other. -/
theorem Triple.bind {P W : σ → Prop} {m : Prog ν α} {k : α → Prog ν β} {Q : α → σ → Prop}
    {R : β → σ → Prop} (hm : Triple step ok P m Q W) (hk : ∀ a, Triple step ok (Q a) (k a) R W) :
    Triple step ok P (m >>= k) R W := by
  intro as s s' hs hbeside
  rcases hresult : (m.run as).result with _ | ⟨a, rest⟩
  · rcases hbeside with ⟨acts, hrun, hacts⟩
    rw [run_bind_none hresult] at hacts ⊢
    refine ⟨nofun, fun _ => (hm as s s' hs ⟨acts, hrun, hacts⟩).2 hresult⟩
  · rcases hbeside with ⟨acts, hrun, hacts⟩
    rw [run_bind_some hresult] at hacts ⊢
    -- The actions split where the trace does. The system's own steps in between go to
    -- either side.
    rcases List.filterMap_eq_append_iff.mp hacts with ⟨acts₁, acts₂, rfl, hacts₁, hacts₂⟩
    rcases hrun.of_append with ⟨s₁, hrun₁, hrun₂⟩
    have hs₁ := (hm as s s₁ hs ⟨acts₁, hrun₁, hacts₁⟩).1 a rest hresult
    exact hk a rest s₁ s' hs₁ ⟨acts₂, hrun₂, hacts₂⟩

/-- The rule for a read. -/
theorem Triple.inb {P W : σ → Prop} {Q : UInt8 → σ → Prop} {port : UInt16}
    (hP : Stable step ok P) (hQ : ∀ b, Stable step ok (Q b)) (hW : ∀ s, P s → W s)
    (h : ∀ b s s', P s → ok s (.inl (.inb port b)) → step s (.inl (.inb port b)) = some s' →
      Q b s') : Triple step ok P (inb port) Q W := by
  intro as s s' hs hbeside
  cases as with
  | nil => exact ⟨nofun, fun _ => hW s' (hP.of_nil hbeside rfl hs)⟩
  | cons b as =>
    refine ⟨fun a rest hresult => ?_, nofun⟩
    cases hresult
    exact hP.of_singleton (hQ b) hbeside rfl (h b) hs

/-- The rule for a write. -/
theorem Triple.outb {P Q W : σ → Prop} {port : UInt16} {value : UInt8}
    (hP : Stable step ok P) (hQ : Stable step ok Q)
    (h : ∀ s s', P s → ok s (.inl (.outb port value)) →
      step s (.inl (.outb port value)) = some s' → Q s') :
    Triple step ok P (outb port value) (fun _ => Q) W :=
  fun _ _ _ hs hbeside => ⟨fun _ _ _ => hP.of_singleton hQ hbeside rfl h hs, nofun⟩

/-- The rule for a note. -/
theorem Triple.note {P Q W : σ → Prop} {n : ν} (hP : Stable step ok P) (hQ : Stable step ok Q)
    (h : ∀ s s', P s → ok s (.inl (.note n)) → step s (.inl (.note n)) = some s' → Q s') :
    Triple step ok P (note n) (fun _ => Q) W :=
  fun _ _ _ hs hbeside => ⟨fun _ _ _ => hP.of_singleton hQ hbeside rfl h hs, nofun⟩

/-- The rule for a loop, with its invariant `I`. -/
theorem Triple.whileM {cond : α → Prop} [DecidablePred cond] {body : α → Prog ν α}
    {I : α → σ → Prop} {W : σ → Prop} (hI : ∀ x, Stable step ok (I x))
    (hreads : ∀ x, Reads (body x))
    (hbody : ∀ x, cond x → Triple step ok (I x) (body x) I W) (x : α) :
    Triple step ok (I x) (whileM cond body x) (fun y s => I y s ∧ ¬cond y) W := by
  intro as
  -- The induction is on the answers: each pass reads one of them at least.
  induction hlength : as.length using Nat.strongRecOn generalizing as x with
  | _ n ih =>
    intro s s' hs hbeside
    rw [whileM_eq hreads] at hbeside ⊢
    by_cases hx : cond x
    · rw [if_pos hx] at hbeside ⊢
      rcases hbeside with ⟨acts, hrun, hacts⟩
      rcases hresult : ((body x).run as).result with _ | ⟨y, rest⟩
      · rw [run_bind_none hresult] at hacts ⊢
        exact ⟨nofun, fun _ => (hbody x hx as s s' hs ⟨acts, hrun, hacts⟩).2 hresult⟩
      · rw [run_bind_some hresult] at hacts ⊢
        rcases List.filterMap_eq_append_iff.mp hacts with ⟨acts₁, acts₂, rfl, hacts₁, hacts₂⟩
        rcases hrun.of_append with ⟨s₁, hrun₁, hrun₂⟩
        have hs₁ := (hbody x hx as s s₁ hs ⟨acts₁, hrun₁, hacts₁⟩).1 y rest hresult
        have hrest : rest.length < n := hlength ▸ hreads x as y rest hresult
        exact ih rest.length hrest y rest rfl s₁ s' hs₁ ⟨acts₂, hrun₂, hacts₂⟩
    · rw [if_neg hx] at hbeside ⊢
      refine ⟨fun y rest hresult => ?_, nofun⟩
      cases hresult
      exact ⟨(hI x).of_nil hbeside rfl hs, hx⟩

/-- The rule for a loop that tests after its body. -/
theorem Triple.doWhile {cond : α → Prop} [DecidablePred cond] {body : Prog ν α}
    {P W : σ → Prop} {I : α → σ → Prop} (hI : ∀ x, Stable step ok (I x)) (hreads : Reads body)
    (hbody : Triple step ok P body I W) (hagain : ∀ x, cond x → ∀ s, I x s → P s) :
    Triple step ok P (doWhile cond body) (fun y s => I y s ∧ ¬cond y) W :=
  Triple.bind hbody fun x => Triple.whileM hI (fun _ => hreads)
    (fun y hy => hbody.mono (hagain y hy) (fun _ _ h => h) fun _ h => h) x

/-- What every step of the system preserves, a program preserves. -/
theorem Triple.invariant {I : σ → Prop}
    (hstep : ∀ s a s', I s → ok s a → step s a = some s' → I s') (m : Prog ν α) :
    Triple step ok I m (fun _ => I) I := by
  rintro as s s' hs ⟨acts, hrun, -⟩
  have hs' := hrun.invariant I hstep hs
  exact ⟨fun _ _ _ => hs', fun _ => hs'⟩

/-- What the system's own steps preserve, and its steps at everything that the program does. -/
theorem Triple.of_does {I : σ → Prop} (hI : Stable step ok I) {m : Prog ν α}
    (hm : Does (fun e => ∀ s s', I s → ok s (.inl e) → step s (.inl e) = some s' → I s') m) :
    Triple step ok I m (fun _ => I) I := by
  rintro as s s' hs ⟨acts, hrun, hacts⟩
  have hevents : ∀ e, .inl e ∈ acts → e ∈ (m.run as).trace := by
    intro e he
    rw [← hacts]
    exact List.mem_filterMap.mpr ⟨.inl e, he, rfl⟩
  have hs' : I s' := by
    clear hacts
    -- The induction over the run, with the events still to be in the trace.
    induction hrun with
    | start => exact hs
    | @next acts s₁ s₂ a _ hok hnext ih =>
      have hbefore := ih fun e he => hevents e (List.mem_append_left _ he)
      cases a with
      | inl e =>
        have he := hevents e (List.mem_append_right _ (List.mem_singleton_self _))
        exact hm as e he _ _ hbefore hok hnext
      | inr d => exact hI _ _ _ hbefore hok hnext
  exact ⟨fun _ _ _ => hs', fun _ => hs'⟩

end

/-! ### Systems that watch -/

section
variable {ν α σ : Type}

/-- A system that only looks on: it takes no step of its own. -/
def watch (f : σ → Event ν → σ) (s : σ) : Event ν ⊕ Empty → Option σ
  | .inl e => some (f s e)

/-- It has no steps of its own that could change anything. -/
theorem stable_watch (f : σ → Event ν → σ) (P : σ → Prop) : Stable (watch f) Any P :=
  fun _ d => d.elim

/-- It is a fold over the trace. -/
theorem beside_watch (f : σ → Event ν → σ) (m : Prog ν α) (as : List UInt8) (s : σ) :
    Beside (watch f) Any m as s ((m.run as).trace.foldl f s) := by
  refine ⟨(m.run as).trace.map .inl, ?_, ?_⟩
  · -- Only the trace matters, so the induction is on any list of events.
    generalize (m.run as).trace = t
    induction t generalizing s with
    | nil => exact .start
    | cons e t ih => exact .cons trivial rfl (ih (f s e))
  · rw [List.filterMap_map]
    exact List.filterMap_some

section
variable {f : σ → Event ν → σ} {P W : σ → Prop}

/-- The rule for a result. -/
theorem pure_watch {Q : α → σ → Prop} (a : α) (h : ∀ s, P s → Q a s) :
    Triple (watch f) Any P (pure a) Q W :=
  (Triple.pure a (stable_watch f (Q a))).mono h (fun _ _ h => h) fun _ h => h

/-- The rule for a read. -/
theorem inb_watch {Q : UInt8 → σ → Prop} {port : UInt16} (hW : ∀ s, P s → W s)
    (h : ∀ b s, P s → Q b (f s (.inb port b))) : Triple (watch f) Any P (inb port) Q W := by
  refine Triple.inb (stable_watch f P) (fun _ => stable_watch f _) hW ?_
  rintro b s s' hs - ⟨⟩
  exact h b s hs

/-- The rule for a write. -/
theorem outb_watch {Q : σ → Prop} {port : UInt16} {value : UInt8}
    (h : ∀ s, P s → Q (f s (.outb port value))) :
    Triple (watch f) Any P (outb port value) (fun _ => Q) W := by
  refine Triple.outb (stable_watch f P) (stable_watch f Q) ?_
  rintro s s' hs - ⟨⟩
  exact h s hs

/-- What everything that the program does preserves. -/
theorem of_does_watch {I : σ → Prop} {m : Prog ν α} (hm : Does (fun e => ∀ s, I s → I (f s e)) m) :
    Triple (watch f) Any I m (fun _ => I) I := by
  refine Triple.of_does (stable_watch f I) fun as e he s s' hs _ hstep => ?_
  cases hstep
  exact hm as e he s hs

/-- The rule for a note. -/
theorem note_watch {Q : σ → Prop} {n : ν} (h : ∀ s, P s → Q (f s (.note n))) :
    Triple (watch f) Any P (note n) (fun _ => Q) W := by
  refine Triple.note (stable_watch f P) (stable_watch f Q) ?_
  rintro s s' hs - ⟨⟩
  exact h s hs

end

/-- A triple beside it is about this fold. -/
theorem Triple.foldl_run {f : σ → Event ν → σ} {P W : σ → Prop} {m : Prog ν α}
    {Q : α → σ → Prop} (h : Triple (watch f) Any P m Q W) (as : List UInt8) {s : σ} (hs : P s) :
    (∀ a rest, (m.run as).result = some (a, rest) → Q a ((m.run as).trace.foldl f s)) ∧
      ((m.run as).result = none → W ((m.run as).trace.foldl f s)) :=
  h as s _ hs (beside_watch f m as s)

/-- The watcher that keeps the trace. -/
def history (t : List (Event ν)) (e : Event ν) : List (Event ν) := t ++ [e]

/-- It has the trace in the end. -/
theorem foldl_history (t t' : List (Event ν)) : t'.foldl history t = t ++ t' := by
  induction t' generalizing t with
  | nil => exact (List.append_nil t).symm
  | cons e t' ih =>
    rw [List.foldl_cons, ih, history, List.append_assoc]
    rfl

end

/-! ### Parts of a larger program -/

section
variable {ν ν' α σ δ : Type} {step : σ → Event ν ⊕ δ → Option σ} {ok : σ → Event ν ⊕ δ → Prop}

/-- An event with another kind of note. -/
def Event.map (f : ν → ν') : Event ν → Event ν'
  | .inb port answer => .inb port answer
  | .outb port value => .outb port value
  | .note n => .note (f n)

/-- A program with another kind of note. -/
def Prog.mapNotes (f : ν → ν') (m : Prog ν α) : Prog ν' α where
  run as := ⟨(m.run as).trace.map (Event.map f), (m.run as).result⟩
  shrinks := m.shrinks

/-- What a program with another kind of note does. -/
theorem Does.mapNotes {E : Event ν' → Prop} {f : ν → ν'} {m : Prog ν α}
    (h : Does (fun e => E (e.map f)) m) : Does E (m.mapNotes f) := by
  intro as e he
  obtain ⟨e', he', rfl⟩ := List.mem_map.mp he
  exact h as e' he'

/-- The system has no part in the event. -/
def Ignores (step : σ → Event ν ⊕ δ → Option σ) (e : Event ν) : Prop :=
  ∀ s s', step s (.inl e) = some s' → s' = s

/-- A program that the system has no part in. -/
theorem Triple.of_ignored {P W : σ → Prop} (hP : Stable step ok P) {m : Prog ν α}
    (h : Does (Ignores step) m) (hW : ∀ s, P s → W s) : Triple step ok P m (fun _ => P) W :=
  (Triple.of_does hP fun as e he s s' hs _ hnext => h as e he s s' hnext ▸ hs).mono
    (fun _ hs => hs) (fun _ _ hs => hs) hW

/-- A part of a series, and then parts that the system has nothing to do with. -/
theorem Triple.series_cons {P Q W : σ → Prop} {m : Prog ν Unit} {ms : List (Prog ν Unit)}
    (hQ : Stable step ok Q) (hW : ∀ s, Q s → W s) (hm : Triple step ok P m (fun _ => Q) W)
    (hms : ∀ k ∈ ms, Does (Ignores step) k) : Triple step ok P (series (m :: ms)) (fun _ => Q) W :=
  Triple.bind hm fun _ => Triple.of_ignored hQ (does_series hms) hW

/-- Nothing is said. -/
theorem Triple.trivial (m : Prog ν α) :
    Triple step ok (fun _ => True) m (fun _ _ => True) fun _ => True :=
  fun _ _ _ _ _ => ⟨fun _ _ _ => True.intro, fun _ => True.intro⟩

/-- The part of a series that the system is about, from wherever the parts before it lead. -/
theorem Triple.series_part {Q : σ → Prop} {m : Prog ν Unit} {l l' : List (Prog ν Unit)}
    (hQ : Stable step ok Q) (hm : Triple step ok (fun _ => True) m (fun _ => Q) fun _ => True)
    (hl : ∀ k ∈ l', Does (Ignores step) k) :
    Triple step ok (fun _ => True) (series (l ++ m :: l')) (fun _ => Q) fun _ => True := by
  rw [series_append]
  exact Triple.bind (Triple.trivial _) fun _ =>
    Triple.series_cons hQ (fun _ _ => True.intro) hm hl

/-- A program whose events are never refused has a run. -/
theorem Does.exists_runs {m : Prog ν α} (h : Does (fun e => ∀ s, ∃ s', step s (.inl e) = some s') m)
    (as : List UInt8) (s : σ) : ∃ s', Runs step Any s ((m.run as).trace.map .inl) s' := by
  have hevents := h as
  generalize (m.run as).trace = t at hevents
  induction t generalizing s with
  | nil => exact ⟨s, .start⟩
  | cons e t ih =>
      obtain ⟨s₁, hstep⟩ := hevents e List.mem_cons_self s
      obtain ⟨s', hrun⟩ := ih s₁ fun e he => hevents e (List.mem_cons_of_mem _ he)
      exact ⟨s', .cons True.intro hstep hrun⟩

/-- So it can run beside the system. -/
theorem Does.exists_beside {m : Prog ν α}
    (h : Does (fun e => ∀ s, ∃ s', step s (.inl e) = some s') m) (as : List UInt8) (s : σ) :
    ∃ s', Beside step Any m as s s' := by
  obtain ⟨s', hrun⟩ := h.exists_runs as s
  refine ⟨s', _, hrun, ?_⟩
  rw [List.filterMap_map]
  exact List.filterMap_some

end
end Lib.PortIo
