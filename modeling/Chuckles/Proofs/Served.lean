import Chuckles.Kernel.Timer
import Chuckles.Proofs.Interrupts

/-!
# `Chuckles.Proofs.Served`: every request is served once, and as a whole

Two results about whole runs of the system of `Chuckles.Kernel.Interrupts`.

The first is about the kernel. Its states while interrupts are on are those of a simpler system,
in which `irq_handler` is one step (`KernelEvent`). `served` computes the order of these steps
from the run. A call of `irq_handler` stands where it calls the handler, which is its second
action: what it does before and after commutes with the bytes that arrive.

The second one counts. Each rising edge of a line is a request, and each request is served by one
interrupt, withdrawn by the device before, or still waiting (`balanced_of_runs`). The lines 7 and 15
are left out: their vectors also stand for requests that are gone.

Both together say what `timer_ticks` counts.
-/

set_option autoImplicit false

namespace Chuckles.Proofs

open Lib Lib.Run Lib.Pic

/-! ### The kernel with `irq_handler` as one step -/

/-- What happens to the kernel. -/
inductive KernelEvent where
  | main (m : Machine)
  | byte (b : UInt8)
  | irq (v : UInt8)

/-- The effect on the kernel. -/
def KernelEvent.run (k : Kernel) : KernelEvent → Option Kernel
  | .main m => some (k.withMach m)
  | .byte b => some (k.addByte b)
  | .irq v => irqHandler v.toUInt32 k

/-- One event after the other. -/
def runEvents (k : Kernel) (events : List KernelEvent) : Option Kernel :=
  events.foldlM KernelEvent.run k

/-- One event more, at the end. -/
theorem runEvents_concat (k : Kernel) (events : List KernelEvent) (e : KernelEvent) :
    runEvents k (events ++ [e]) = (runEvents k events).bind fun k => e.run k := by
  rw [runEvents, List.foldlM_append]
  exact Option.bind_congr fun k _ => Option.bind_fun_some _

/-- The events so far, and the vector of the last interrupt with the number of its actions. -/
structure Serving where
  events : List KernelEvent
  vector : UInt8
  done : Nat

/-- The events of a run, step by step. -/
def serve (t : Serving) : IrqStep → Serving
  | .main m => { t with events := t.events ++ [.main m] }
  | .byte b => { t with events := t.events ++ [.byte b] }
  | .vector v => { t with vector := v, done := 0 }
  | .act =>
    { t with
      events := if t.done = 1 then t.events ++ [.irq t.vector] else t.events
      done := t.done + 1 }
  | _ => t

/-- The events of a run, in their order. -/
def serving (acts : List IrqStep) : Serving := acts.foldl serve ⟨[], 0, 0⟩

/-- One step more, at the end. -/
theorem serving_concat (acts : List IrqStep) (a : IrqStep) :
    serving (acts ++ [a]) = serve (serving acts) a := by
  rw [serving, List.foldl_append]
  rfl

/-! ### Actions that commute with the arrival of a byte -/

/-- The actions that are no call of a handler. -/
def Quiet : IrqAct Routine → Prop
  | .call _ => False
  | _ => True

/-- A report reads the buffer of `itoa` and writes to the serial port. -/
theorem report_addByte (k : Kernel) (before : List UInt8) (i : Int32) (after : List UInt8)
    (b : UInt8) :
    (k.addByte b).report before i after = (k.report before i after).map fun k => k.addByte b := by
  unfold Kernel.report
  show (serialWrited i (k.kbd.mach.serial before)).bind _ = _
  cases serialWrited i (k.kbd.mach.serial before) with
  | none => rfl
  | some m => rfl

/-- A quiet action has a result, which leaves the table as it is, and commutes with a byte. -/
theorem Quiet.run {a : IrqAct Routine} (h : Quiet a) (k : Kernel) :
    ∃ k', a.run k = some k' ∧ k'.irqRoutines = k.irqRoutines ∧
      ∀ b, a.run (k.addByte b) = some (k'.addByte b) := by
  cases a with
  | call handler => exact h.elim
  | outb port value => exact ⟨_, rfl, rfl, fun b => rfl⟩
  | report before i after =>
    obtain ⟨buf, hm, -⟩ := serialWrited_spec i (k.kbd.mach.serial before)
    obtain ⟨k', hreport⟩ : ∃ k', k.report before i after = some k' := by
      rw [Kernel.report, hm]
      exact ⟨_, rfl⟩
    refine ⟨k', hreport, Kernel.report_irqRoutines hreport, fun b => ?_⟩
    show (k.addByte b).report before i after = _
    rw [report_addByte, hreport]
    rfl

/-- So do several of them. -/
theorem runActs_quiet {acts : List (IrqAct Routine)} (h : ∀ a ∈ acts, Quiet a) (k : Kernel) :
    ∃ k', runActs k acts = some k' ∧ ∀ b, runActs (k.addByte b) acts = some (k'.addByte b) := by
  induction acts generalizing k with
  | nil => exact ⟨k, rfl, fun b => rfl⟩
  | cons a acts ih =>
      obtain ⟨k₁, hk₁, -, hbyte₁⟩ := (h a List.mem_cons_self).run k
      obtain ⟨k₂, hk₂, hbyte₂⟩ := ih (fun a ha => h a (List.mem_cons_of_mem _ ha)) k₁
      refine ⟨k₂, ?_, fun b => ?_⟩
      · rw [runActs_cons, hk₁]
        exact hk₂
      · rw [runActs_cons, hbyte₁]
        exact hbyte₂ b

/-- Only the second action may call a handler. -/
theorem irqActs_quiet {table : Vector (Option Routine) 16} {v : UInt8} (h : 32 ≤ v ∧ v < 48)
    {acts : List (IrqAct Routine)} (hacts : irqActs table v.toUInt32 = some acts) :
    ∃ first second rest, acts = first :: second :: rest ∧ Quiet first ∧ ∀ a ∈ rest, Quiet a := by
  rw [irqActs_vector table h] at hacts
  have heoi : ∀ a ∈ (eoiActs v.toUInt32 : List (IrqAct Routine)), Quiet a := by
    intro a ha
    rw [eoiActs, List.mem_append, List.mem_singleton] at ha
    rcases ha with ha | rfl
    · split at ha
      · rw [List.mem_singleton.mp ha]
        trivial
      · cases ha
    · trivial
  cases hentry : table.get (vectorLine v h) with
  | some handler =>
    rw [hentry] at hacts
    exact ⟨_, _, _, (Option.some.inj hacts).symm, trivial, heoi⟩
  | none =>
    rw [hentry] at hacts
    refine ⟨_, _, _, (Option.some.inj hacts).symm, trivial, ?_⟩
    intro a ha
    rcases List.mem_cons.mp ha with rfl | ha
    · trivial
    · exact heoi a ha

/-! ### The states with interrupts on -/

/-- How far `irq_handler` is, and what the events so far have made of the kernel: before its second
action they leave the call out, and from there on they contain it. -/
inductive InHandler (k₀ k : Kernel) (t : Serving) : List (IrqAct Routine) → Prop where
  | entered {first second : IrqAct Routine} {last : List (IrqAct Routine)} :
      t.done = 0 → Quiet first → (∀ a ∈ last, Quiet a) → runEvents k₀ t.events = some k →
      irqActs k.irqRoutines t.vector.toUInt32 = some (first :: second :: last) →
      InHandler k₀ k t (first :: second :: last)
  | reported {k₁ : Kernel} {first second : IrqAct Routine} {last : List (IrqAct Routine)} :
      t.done = 1 → Quiet first → (∀ a ∈ last, Quiet a) → runEvents k₀ t.events = some k₁ →
      irqActs k₁.irqRoutines t.vector.toUInt32 = some (first :: second :: last) →
      first.run k₁ = some k → InHandler k₀ k t (second :: last)
  | called {rest : List (IrqAct Routine)} :
      2 ≤ t.done → (∀ a ∈ rest, Quiet a) → runEvents k₀ t.events = runActs k rest →
      InHandler k₀ k t rest

/-- The invariant. -/
def ServedAs (k₀ k : Kernel) (t : Serving) : IrqPhase → Prop
  | .handling _ rest => InHandler k₀ k t rest
  | _ => runEvents k₀ t.events = some k

section
variable {k₀ k : Kernel} {t : Serving}

/-- A byte that arrives during `irq_handler`. -/
theorem InHandler.byte {rest : List (IrqAct Routine)} (h : InHandler k₀ k t rest) (b : UInt8) :
    InHandler k₀ (k.addByte b) (serve t (.byte b)) rest := by
  cases h with
  | @entered first second last hdone hfirst hlast hevents hacts =>
    refine .entered hdone hfirst hlast ?_ hacts
    show runEvents k₀ (t.events ++ [.byte b]) = _
    rw [runEvents_concat, hevents]
    rfl
  | @reported k₁ first second last hdone hfirst hlast hevents hacts hrun =>
    have hbyte : runEvents k₀ (t.events ++ [.byte b]) = some (k₁.addByte b) := by
      rw [runEvents_concat, hevents]
      rfl
    obtain ⟨k', hk', -, hcommute⟩ := hfirst.run k₁
    rw [hrun, Option.some.injEq] at hk'
    subst hk'
    exact .reported hdone hfirst hlast hbyte hacts (hcommute b)
  | called hdone hrest hevents =>
    refine .called hdone hrest ?_
    obtain ⟨k', hk', hcommute⟩ := runActs_quiet hrest k
    show runEvents k₀ (t.events ++ [.byte b]) = _
    rw [runEvents_concat, hevents, hk', hcommute b]
    rfl

/-- One action of `irq_handler`. -/
theorem InHandler.act {k' : Kernel} {a : IrqAct Routine} {rest : List (IrqAct Routine)}
    (h : InHandler k₀ k t (a :: rest)) (hrun : a.run k = some k') :
    InHandler k₀ k' (serve t .act) rest := by
  cases h with
  | entered hdone hfirst hlast hevents hacts =>
    have hkeep : (serve t .act).events = t.events := if_neg (by omega)
    refine .reported ?_ hfirst hlast (hkeep ▸ hevents) hacts hrun
    show t.done + 1 = 1
    omega
  | @reported k₁ first _ _ hdone hfirst hlast hevents hacts hreport =>
    -- The call: from here on `irq_handler` counts as run.
    have hcall : (serve t .act).events = t.events ++ [.irq t.vector] := if_pos hdone
    refine .called ?_ hlast ?_
    · show 2 ≤ t.done + 1
      omega
    · rw [hcall, runEvents_concat, hevents]
      show irqHandler t.vector.toUInt32 k₁ = _
      rw [irqHandler_eq_irqActs, hacts]
      show runActs k₁ (first :: a :: rest) = _
      rw [runActs_cons, hreport]
      show runActs k (a :: rest) = _
      rw [runActs_cons, hrun]
      rfl
  | called hdone hrest hevents =>
    have hkeep : (serve t .act).events = t.events := if_neg (by omega)
    refine .called ?_ (fun b hb => hrest b (List.mem_cons_of_mem a hb)) ?_
    · show 2 ≤ t.done + 1
      omega
    · rw [hkeep, hevents, runActs_cons, hrun]
      rfl

/-- `irq_handler` returns. -/
theorem InHandler.ret (h : InHandler k₀ k t []) : runEvents k₀ t.events = some k := by
  cases h with
  | called _ _ hevents => exact hevents

/-- `irq_handler` is entered. -/
theorem servedAs_irqEntry (h : runEvents k₀ t.events = some k) (v : UInt8) :
    ServedAs k₀ k (serve t (.vector v)) (irqEntry k v) := by
  unfold irqEntry
  split
  · rename_i hv
    cases hacts : irqActs k.irqRoutines v.toUInt32 with
    | none => exact h
    | some acts =>
      obtain ⟨first, second, last, rfl, hfirst, hlast⟩ := irqActs_quiet hv hacts
      exact .entered rfl hfirst hlast h hacts
  · exact h

/-- Every step keeps the invariant. -/
theorem ServedAs.step {s s' : IrqSys} (h : ServedAs k₀ s.kernel t s.phase) {a : IrqStep}
    (hstep : irqSysStep s a = some s') : ServedAs k₀ s'.kernel (serve t a) s'.phase := by
  cases irqMove_of_step hstep with
  | line d => exact h
  | byte b =>
    show ServedAs k₀ (s.kernel.addByte b) _ s.phase
    cases hphase : s.phase with
    | handling v rest =>
      rw [hphase] at h
      exact h.byte b
    | _ =>
      rw [hphase] at h
      have h : runEvents k₀ t.events = some s.kernel := h
      show runEvents k₀ (t.events ++ [.byte b]) = _
      rw [runEvents_concat, h]
      rfl
  | main m hrunning =>
    rw [hrunning] at h
    have h : runEvents k₀ t.events = some s.kernel := h
    show ServedAs k₀ (s.kernel.withMach m) _ s.phase
    rw [hrunning]
    show runEvents k₀ (t.events ++ [.main m]) = _
    rw [runEvents_concat, h]
    rfl
  | accept hrunning _ =>
    rw [hrunning] at h
    exact h
  | pulse haccepted =>
    rw [haccepted] at h
    exact h
  | @vector i v hanswered _ =>
    rw [hanswered] at h
    exact servedAs_irqEntry h v
  | act hhandling hrun =>
    rw [hhandling] at h
    exact InHandler.act h hrun
  | ret hhandling =>
    rw [hhandling] at h
    exact InHandler.ret h

/-- So it holds after every run. -/
theorem servedAs_of_runs {p : Pair} {s : IrqSys} {acts : List IrqStep}
    (h : Runs irqSysStep Any ⟨p, k₀, .running⟩ acts s) :
    ServedAs k₀ s.kernel (serving acts) s.phase := by
  refine h.invariant_trace
    (fun (acts : List IrqStep) (s : IrqSys) => ServedAs k₀ s.kernel (serving acts) s.phase) ?_ rfl
  intro acts s a s' hs _ hstep
  rw [serving_concat]
  exact hs.step hstep

end

/-- In every run, whenever interrupts are on, the kernel is in a state of the simpler system: calls
of `irq_handler` that nothing interrupts, between what else happened to it. -/
theorem handlers_atomic {p : Pair} {k : Kernel} {acts : List IrqStep} {s : IrqSys}
    (h : Runs irqSysStep Any ⟨p, k, .running⟩ acts s) (hrunning : s.phase = .running) :
    runEvents k (serving acts).events = some s.kernel := by
  have hserved := servedAs_of_runs h
  rw [hrunning] at hserved
  exact hserved

/-- A tick, with a byte of the keyboard controller that arrives after the counting. -/
theorem handlers_atomic_tick :
    let acts := [IrqStep.line ⟨0, true, by decide⟩, .accept, .pulse 0, .vector 0x20, .act, .act,
      .byte 0x1C, .act, .ret]
    ∃ s, Runs irqSysStep Any ⟨remappedPair, Kernel.early [], .running⟩ acts s ∧
      runEvents (Kernel.early []) [.irq 0x20, .byte 0x1C] = some s.kernel := by
  intro acts
  obtain ⟨s, hs, hrunning⟩ : ∃ s, exec irqSysStep Any ⟨remappedPair, Kernel.early [], .running⟩ acts
      = some s ∧ s.phase = .running := ⟨_, rfl, rfl⟩
  exact ⟨s, runs_of_exec hs, handlers_atomic (runs_of_exec hs) hrunning⟩

/-! ### Requests, counted -/

/-- The line rises. -/
def Rises (n : Fin 16) (g : LineView) : IrqStep → Bool
  | .line d => d.irq = n && d.high && !g.high
  | _ => false

/-- The line falls, and with it a request that has not been served. -/
def Withdraws (n : Fin 16) (g : LineView) : IrqStep → Bool
  | .line d => d.irq = n && !d.high && g.wanted
  | _ => false

/-- The processor reads the vector of the line. -/
def Serves (n : Fin 16) : IrqStep → Bool
  | .vector v => v.toNat = 32 + n.val
  | _ => false

/-- The line, with the numbers of its rising edges, of the requests withdrawn, and of the
interrupts. -/
structure Tally where
  view : LineView
  edges : Nat
  withdrawn : Nat
  served : Nat

/-- One more step. -/
def count (n : Fin 16) (t : Tally) (a : IrqStep) : Tally :=
  ⟨lineSee n t.view a, t.edges + (Rises n t.view a).toNat,
    t.withdrawn + (Withdraws n t.view a).toNat, t.served + (Serves n a).toNat⟩

/-- The numbers after some steps. -/
def tally (p₀ : Pair) (n : Fin 16) (acts : List IrqStep) : Tally :=
  acts.foldl (count n) ⟨lineView p₀ n [], 0, 0, 0⟩

/-- One step more, at the end. -/
theorem tally_concat (p₀ : Pair) (n : Fin 16) (acts : List IrqStep) (a : IrqStep) :
    tally p₀ n (acts ++ [a]) = count n (tally p₀ n acts) a := by
  rw [tally, List.foldl_append]
  rfl

/-- What the count sees of the line is the line. -/
theorem tally_view (p₀ : Pair) (n : Fin 16) (acts : List IrqStep) :
    (tally p₀ n acts).view = lineView p₀ n acts := by
  induction acts using List.reverseRecOn with
  | nil => rfl
  | append_singleton acts a ih =>
      rw [tally_concat, lineView, List.foldl_append]
      show lineSee n (tally p₀ n acts).view a = _
      rw [ih]
      rfl

/-- The master has answered for the line, and the vector is to come. -/
def underway (n : Fin 16) : IrqPhase → Nat
  | .answered i => if irqInput n = .inl i then 1 else 0
  | _ => 0

/-- Every request is accounted for. -/
structure Balanced (p₀ : Pair) (n : Fin 16) (t : Tally) (phase : IrqPhase) : Prop where
  held : t.view.wanted = true → t.view.high = true
  sum : t.served + t.withdrawn + t.view.wanted.toNat + underway n phase
    = t.edges + (decide (p₀.Wants (irqInput n))).toNat

/-- The lines whose vectors stand for nothing else. -/
def Proper (n : Fin 16) : Prop := Connected n ∧ n.val ≠ 7 ∧ n.val ≠ 15

instance (n : Fin 16) : Decidable (Proper n) := inferInstanceAs (Decidable (_ ∧ _))

/-- The lines of the master have its numbers. -/
theorem irqInput_inl_iff : ∀ (n : Fin 16) (i : Line), irqInput n = .inl i ↔ n.val = i.val := by
  decide

/-- A change of the line itself. -/
theorem count_line {n : Fin 16} (t : Tally) {d : LineChange} (h : d.irq = n) :
    count n t (.line d) = if d.high
      then ⟨⟨true, t.view.wanted || !t.view.high⟩, t.edges + (!t.view.high).toNat, t.withdrawn,
        t.served⟩
      else ⟨⟨false, false⟩, t.edges, t.withdrawn + t.view.wanted.toNat, t.served⟩ := by
  rw [count, lineSee, if_pos h]
  cases hhigh : d.high with
  | false => simp [Rises, Withdraws, Serves, h, hhigh]
  | true => simp [Rises, Withdraws, Serves, h, hhigh]

/-- A change of another line. -/
theorem count_line_of_ne {n : Fin 16} (t : Tally) {d : LineChange} (h : d.irq ≠ n) :
    count n t (.line d) = t := by
  rw [count, lineSee, if_neg h]
  simp [Rises, Withdraws, Serves, h]

section
variable {p₀ : Pair} {n : Fin 16} {t : Tally} {phase phase' : IrqPhase}

/-- A device changes a line. -/
theorem Balanced.line (h : Balanced p₀ n t phase) (d : LineChange) :
    Balanced p₀ n (count n t (.line d)) phase := by
  have hheld := h.held
  have hsum := h.sum
  by_cases hd : d.irq = n
  · rw [count_line t hd]
    cases d.high with
    | false =>
      refine ⟨nofun, ?_⟩
      show t.served + (t.withdrawn + t.view.wanted.toNat) + 0 + _ = t.edges + _
      omega
    | true =>
      refine ⟨fun _ => rfl, ?_⟩
      show t.served + t.withdrawn + (t.view.wanted || !t.view.high).toNat + _
        = t.edges + (!t.view.high).toNat + _
      cases hwanted : t.view.wanted with
      | true =>
        rw [hheld hwanted]
        rw [hwanted] at hsum
        exact hsum
      | false =>
        rw [hwanted] at hsum
        rw [Bool.false_or]
        have hsum : t.served + t.withdrawn + 0 + _ = t.edges + _ := hsum
        omega
  · rw [count_line_of_ne t hd]
    exact h

/-- A step of no device changes the level of no line, and makes no request. -/
theorem lineSee_other {a : IrqStep} (ha : ∀ d, a ≠ .line d) (g : LineView) :
    (lineSee n g a).high = g.high ∧ ((lineSee n g a).wanted = true → g.wanted = true) := by
  have hclear (c : Prop) [Decidable c] :
      (if c then { g with wanted := false } else g).high = g.high ∧
        ((if c then { g with wanted := false } else g).wanted = true → g.wanted = true) := by
    split
    · exact ⟨rfl, nofun⟩
    · exact ⟨rfl, id⟩
  cases a with
  | line d => exact absurd rfl (ha d)
  | pulse i => exact hclear _
  | vector v => exact hclear _
  | _ => exact ⟨rfl, id⟩

/-- Such a step, when it moves as much as it takes. -/
theorem Balanced.other (h : Balanced p₀ n t phase) {a : IrqStep} (ha : ∀ d, a ≠ .line d)
    (hsum : (Serves n a).toNat + (lineSee n t.view a).wanted.toNat + underway n phase'
      = t.view.wanted.toNat + underway n phase) : Balanced p₀ n (count n t a) phase' := by
  have hsee := lineSee_other (n := n) ha t.view
  have hnone : Rises n t.view a = false ∧ Withdraws n t.view a = false := by
    cases a with
    | line d => exact absurd rfl (ha d)
    | _ => exact ⟨rfl, rfl⟩
  constructor
  · intro hwanted
    exact hsee.1.trans (h.held (hsee.2 hwanted))
  · have hbefore := h.sum
    show t.served + (Serves n a).toNat + (t.withdrawn + (Withdraws n t.view a).toNat)
      + (lineSee n t.view a).wanted.toNat + _ = t.edges + (Rises n t.view a).toNat + _
    rw [hnone.1, hnone.2]
    have hzero : Bool.toNat false = 0 := rfl
    omega

/-- The first pulse. -/
theorem Balanced.pulse (h : Balanced p₀ n t .accepted) (hn : Proper n) {acts : List IrqStep}
    (ht : t.view = lineView p₀ n acts) {i : Line}
    (hanswer : PicAnswer p₀ acts .accepted (.pulse i)) :
    Balanced p₀ n (count n t (.pulse i)) (.answered i) := by
  obtain ⟨hconnected, hseven, -⟩ := hn
  refine h.other nofun ?_
  show 0 + (if irqInput n = .inl i then _ else _ : LineView).wanted.toNat
    + (if irqInput n = .inl i then 1 else 0) = t.view.wanted.toNat + 0
  by_cases hi : irqInput n = .inl i
  · rw [if_pos hi, if_pos hi]
    have hwanted : t.view.wanted = true := by
      rcases hanswer with ⟨m, hm, hw, hline, -⟩ | ⟨rfl, -⟩
      · -- The line of the answer is `n` itself.
        have hsame : irqInput m = irqInput n := by
          rw [hi]
          cases hm' : irqInput m with
          | inl j =>
            rw [masterLine, hm'] at hline
            exact congrArg Sum.inl hline
          | inr j =>
            rw [masterLine, hm'] at hline
            rw [Connected, hi, ← hline] at hconnected
            exact absurd rfl hconnected
        rw [ht, ← irqInput_injective m n hsame]
        exact hw
      · exact absurd ((irqInput_inl_iff n _).mp hi) hseven
    rw [hwanted]
    rfl
  · rw [if_neg hi, if_neg hi, Nat.zero_add]

/-- The second pulse. -/
theorem Balanced.vector {i : Line} (h : Balanced p₀ n t (.answered i)) (hn : Proper n)
    {acts : List IrqStep} (ht : t.view = lineView p₀ n acts) {v : UInt8}
    (hanswer : PicAnswer p₀ acts (.answered i) (.vector v)) (k : Kernel) :
    Balanced p₀ n (count n t (.vector v)) (irqEntry k v) := by
  obtain ⟨hconnected, -, hfifteen⟩ := hn
  refine h.other nofun ?_
  have hentry : underway n (irqEntry k v) = 0 := by
    unfold irqEntry
    split
    · split
      · rfl
      · rfl
    · rfl
  rw [hentry]
  show (decide (v.toNat = 32 + n.val)).toNat
    + (if 40 ≤ v ∧ v.toNat = 32 + n.val then _ else _ : LineView).wanted.toNat + 0
    = t.view.wanted.toNat + (if irqInput n = .inl i then 1 else 0)
  rw [PicAnswer] at hanswer
  have hnone (hv : v.toNat ≠ 32 + n.val) (hi : irqInput n ≠ .inl i) :
      (decide (v.toNat = 32 + n.val)).toNat
        + (if 40 ≤ v ∧ v.toNat = 32 + n.val then { t.view with wanted := false }
          else t.view).wanted.toNat + 0
      = t.view.wanted.toNat + (if irqInput n = .inl i then 1 else 0) := by
    rw [decide_eq_false hv, if_neg fun h => hv h.2, if_neg hi]
    exact Nat.zero_add _
  by_cases hi : i = CASCADE
  · rw [if_pos hi] at hanswer
    have hinput : irqInput n ≠ .inl i := hi ▸ hconnected
    rcases hanswer with ⟨m, hm, hw, hv, -⟩ | ⟨rfl, -⟩
    · by_cases hmn : m = n
      · subst hmn
        have hforty : 40 ≤ v := by
          rw [UInt8.le_iff_toNat_le, hv]
          show 40 ≤ 32 + m.val
          omega
        have hwanted : t.view.wanted = true := by
          rw [ht]
          exact hw
        rw [decide_eq_true hv, if_pos ⟨hforty, hv⟩, if_neg hinput, hwanted]
        rfl
      · refine hnone (fun h => hmn (Fin.ext ?_)) hinput
        omega
    · refine hnone (fun h => hfifteen ?_) hinput
      have h : 47 = 32 + n.val := h
      show n.val = 15
      omega
  · rw [if_neg hi] at hanswer
    by_cases hin : irqInput n = .inl i
    · have hval := (irqInput_inl_iff n i).mp hin
      have hv : v.toNat = 32 + n.val := by rw [hanswer, hval]
      have hlow : ¬40 ≤ v := by
        rw [UInt8.le_iff_toNat_le, hanswer]
        show ¬40 ≤ 32 + i.val
        omega
      rw [decide_eq_true hv, if_neg fun h => hlow h.1, if_pos hin]
      show 1 + t.view.wanted.toNat = t.view.wanted.toNat + 1
      exact Nat.add_comm _ _
    · refine hnone (fun h => hin ((irqInput_inl_iff n i).mpr ?_)) hin
      omega

/-- Every step keeps the account. -/
theorem Balanced.step {s s' : IrqSys} (h : Balanced p₀ n t s.phase) (hn : Proper n)
    {acts : List IrqStep} (ht : t.view = lineView p₀ n acts) {a : IrqStep}
    (hanswer : PicAnswer p₀ acts s.phase a) (hstep : irqSysStep s a = some s') :
    Balanced p₀ n (count n t a) s'.phase := by
  cases irqMove_of_step hstep with
  | line d => exact h.line d
  | byte b =>
    refine h.other nofun ?_
    show 0 + t.view.wanted.toNat + underway n s.phase = _
    rw [Nat.zero_add]
  | main m _ =>
    refine h.other nofun ?_
    show 0 + t.view.wanted.toNat + underway n s.phase = _
    rw [Nat.zero_add]
  | accept hrunning _ =>
    rw [hrunning] at h
    exact h.other nofun (Nat.zero_add _)
  | pulse haccepted =>
    rw [haccepted] at h hanswer
    exact h.pulse hn ht hanswer
  | @vector i v hanswered _ =>
    rw [hanswered] at h hanswer
    exact h.vector hn ht hanswer s.kernel
  | act hhandling _ =>
    rw [hhandling] at h
    exact h.other nofun (Nat.zero_add _)
  | ret hhandling =>
    rw [hhandling] at h
    exact h.other nofun (Nat.zero_add _)

end

/-- At the start nothing has been counted. -/
theorem balanced_start {p₀ : Pair} (hp₀ : Remapped p₀) (n : Fin 16) :
    Balanced p₀ n (tally p₀ n []) .running := by
  constructor
  · show decide (p₀.Wants (irqInput n)) = true → decide (p₀.High (irqInput n)) = true
    rw [decide_eq_true_iff, decide_eq_true_iff]
    cases irqInput n with
    | inl i => exact fun h => hp₀.masterHeld h
    | inr j => exact fun h => hp₀.slaveHeld h
  · show 0 + 0 + (decide (p₀.Wants (irqInput n))).toNat + 0
      = 0 + (decide (p₀.Wants (irqInput n))).toNat
    omega

/-- The account is right after every run. -/
theorem balanced_of_runs {p₀ : Pair} (hp₀ : Remapped p₀) {n : Fin 16} (hn : Proper n) {k : Kernel}
    {acts : List IrqStep} {s : IrqSys} (h : Runs irqSysStep Any ⟨p₀, k, .running⟩ acts s) :
    Balanced p₀ n (tally p₀ n acts) s.phase := by
  induction h with
  | start => exact balanced_start hp₀ n
  | @next acts s₁ s₂ a hruns _ hstep ih =>
      rw [tally_concat]
      have hanswer := (safe_of_runs hp₀ hruns).answers hp₀
        (fun _ hm => (sees_of_runs hp₀ hm hruns).wanted.symm) hstep
      exact ih.step hn (tally_view p₀ n acts) hanswer hstep

/-- Every rising edge of a line is served by one interrupt, unless the device has withdrawn it
before or it still waits. No interrupt has another cause. -/
theorem served_once {p₀ : Pair} (hp₀ : Remapped p₀) {n : Fin 16} (hn : Proper n) {k : Kernel}
    {acts : List IrqStep} {s : IrqSys} (h : Runs irqSysStep Any ⟨p₀, k, .running⟩ acts s)
    (hrunning : s.phase = .running) :
    let t := tally p₀ n acts
    t.served + t.withdrawn + t.view.wanted.toNat
      = t.edges + (decide (p₀.Wants (irqInput n))).toNat := by
  have hsum := (balanced_of_runs hp₀ hn h).sum
  rw [hrunning] at hsum
  exact hsum

/-- Two edges of the clock's line: the first is withdrawn, and the second one is served. -/
theorem served_once_tick :
    let acts := [IrqStep.line ⟨0, true, by decide⟩, .line ⟨0, false, by decide⟩,
      .line ⟨0, true, by decide⟩, .accept, .pulse 0, .vector 0x20, .act, .act, .act, .ret]
    let t := tally remappedPair 0 acts
    t.served + t.withdrawn + t.view.wanted.toNat = t.edges + 0 := by
  intro acts
  obtain ⟨s, hs, hrunning⟩ : ∃ s, exec irqSysStep Any ⟨remappedPair, Kernel.early [], .running⟩ acts
      = some s ∧ s.phase = .running := ⟨_, rfl, rfl⟩
  exact served_once remapped_remappedPair (n := 0) (by decide) (runs_of_exec hs) hrunning

/-! ### The clock -/

/-- The action counts a tick. -/
def IsTick : IrqAct Routine → Bool
  | .call .timerHandler => true
  | _ => false

/-- The ticks that `irq_handler` has still to count. -/
def ticksLeft : IrqPhase → Nat
  | .handling _ rest => rest.countP IsTick
  | _ => 0

/-- A call of `timer_handler` counts one. -/
theorem timerTicks_run {a : IrqAct Routine} {k k' : Kernel} (h : a.run k = some k') :
    k'.timerTicks = k.timerTicks + UInt32.ofNat (IsTick a).toNat ∧
      k'.irqRoutines = k.irqRoutines := by
  cases a with
  | outb port value =>
    cases h
    exact ⟨(UInt32.add_zero _).symm, rfl⟩
  | report before i after =>
    obtain ⟨m, -, hk'⟩ := Option.bind_eq_some_iff.mp h
    cases hk'
    exact ⟨(UInt32.add_zero _).symm, rfl⟩
  | call handler =>
    cases handler with
    | timerHandler =>
      cases h
      refine ⟨timerHandler_timerTicks k, ?_⟩
      show (if (k.timerTicks + 1) % 100 = 0 then _ else _ : Kernel).irqRoutines = _
      split
      · rfl
      · rfl
    | ps2kbHandler =>
      obtain ⟨kbd, -, hk'⟩ := Option.bind_eq_some_iff.mp h
      cases hk'
      exact ⟨(UInt32.add_zero _).symm, rfl⟩

/-- The table of the kernel has the clock on the line 0 only. -/
theorem early_timerHandler : ∀ n : Fin 16,
    (Kernel.early []).irqRoutines.get n = some .timerHandler ↔ n = 0 := by decide

/-- `irq_handler` counts a tick for the line 0 only. -/
theorem ticksLeft_irqEntry {k : Kernel} (hk : k.irqRoutines = (Kernel.early []).irqRoutines)
    (v : UInt8) : ticksLeft (irqEntry k v) = (Serves 0 (.vector v)).toNat := by
  unfold irqEntry
  by_cases hv : 32 ≤ v ∧ v < 48
  · rw [if_pos hv, hk, irqActs_vector _ hv]
    have hline : vectorLine v hv = 0 ↔ v.toNat = 32 := by
      have h32 : 32 ≤ v.toNat := UInt8.le_iff_toNat_le.mp hv.1
      rw [Fin.ext_iff]
      show v.toNat - 32 = 0 ↔ _
      omega
    have heoi : (eoiActs v.toUInt32 : List (IrqAct Routine)).countP IsTick = 0 := by
      unfold eoiActs
      split
      · rfl
      · rfl
    show (_ :: callActs v.toUInt32 ((Kernel.early []).irqRoutines.get (vectorLine v hv))
      ++ eoiActs v.toUInt32).countP IsTick = (decide (v.toNat = 32)).toNat
    rw [List.cons_append, List.countP_cons_of_neg (by exact Bool.false_ne_true),
      List.countP_append, heoi, ← decide_eq_decide.mpr hline]
    by_cases hzero : vectorLine v hv = 0
    · rw [(early_timerHandler _).mpr hzero, decide_eq_true hzero]
      rfl
    · rw [decide_eq_false hzero]
      have hentry := mt (early_timerHandler _).mp hzero
      cases hget : (Kernel.early []).irqRoutines.get (vectorLine v hv) with
      | none => rfl
      | some handler =>
        cases handler with
        | timerHandler => exact absurd hget hentry
        | ps2kbHandler => rfl
  · rw [if_neg hv]
    have hne : v.toNat ≠ 32 := by
      intro h32
      have hv' : v = 32 := UInt8.toNat_inj.mp h32
      exact hv (by rw [hv']; decide)
    show 0 = (decide (v.toNat = 32)).toNat
    rw [decide_eq_false hne]
    rfl

/-- The clock, when `served` interrupts of the line 0 have begun. -/
structure Clock (k₀ k : Kernel) (served : Nat) (phase : IrqPhase) : Prop where
  routines : k.irqRoutines = (Kernel.early []).irqRoutines
  ticks : k.timerTicks + UInt32.ofNat (ticksLeft phase) = k₀.timerTicks + UInt32.ofNat served

/-- Every step keeps it right. -/
theorem Clock.step {k₀ : Kernel} {s s' : IrqSys} {t : Tally}
    (h : Clock k₀ s.kernel t.served s.phase) {a : IrqStep} (hstep : irqSysStep s a = some s') :
    Clock k₀ s'.kernel (count 0 t a).served s'.phase := by
  have hticks := h.ticks
  cases irqMove_of_step hstep with
  | line d => exact h
  | byte b => exact ⟨h.routines, h.ticks⟩
  | main m _ => exact ⟨h.routines, h.ticks⟩
  | accept hrunning _ =>
    rw [hrunning] at h
    exact ⟨h.routines, h.ticks⟩
  | pulse haccepted =>
    rw [haccepted] at h
    exact ⟨h.routines, h.ticks⟩
  | @vector i v hanswered _ =>
    refine ⟨h.routines, ?_⟩
    rw [hanswered] at hticks
    have hticks : s.kernel.timerTicks + 0 = _ := hticks
    show s.kernel.timerTicks + UInt32.ofNat (ticksLeft (irqEntry s.kernel v))
      = k₀.timerTicks + UInt32.ofNat (t.served + (Serves 0 (.vector v)).toNat)
    rw [ticksLeft_irqEntry h.routines, UInt32.ofNat_add, ← UInt32.add_assoc, ← hticks,
      UInt32.add_zero]
  | @act v a rest k hhandling hrun =>
    obtain ⟨hrun, hroutines⟩ := timerTicks_run hrun
    refine ⟨hroutines.trans h.routines, ?_⟩
    rw [hhandling] at hticks
    show k.timerTicks + UInt32.ofNat (rest.countP IsTick) = k₀.timerTicks + UInt32.ofNat t.served
    rw [← hticks, hrun, UInt32.add_assoc, ← UInt32.ofNat_add]
    congr 2
    show _ = (a :: rest).countP IsTick
    rw [List.countP_cons, Nat.add_comm]
    cases IsTick a with
    | false => rfl
    | true => rfl
  | ret hhandling =>
    rw [hhandling] at h
    exact ⟨h.routines, h.ticks⟩

/-- In every run, the clock has counted the requests of the timer that were served. -/
theorem clock_of_runs {p₀ : Pair} {k : Kernel}
    (hk : k.irqRoutines = (Kernel.early []).irqRoutines) {acts : List IrqStep} {s : IrqSys}
    (h : Runs irqSysStep Any ⟨p₀, k, .running⟩ acts s) :
    Clock k s.kernel (tally p₀ 0 acts).served s.phase := by
  refine h.invariant_trace (fun (acts : List IrqStep) (s : IrqSys) =>
    Clock k s.kernel (tally p₀ 0 acts).served s.phase) ?_ ⟨hk, rfl⟩
  intro acts s a s' hs _ hstep
  rw [tally_concat]
  exact hs.step hstep

/-- `timer_ticks` counts the rising edges of the clock's line, except those that have been
withdrawn before the processor has heard of them, and the one that may still wait. Nothing that the
other devices do, or the interrupted code, makes a difference. -/
theorem ticks_count_edges {p₀ : Pair} (hp₀ : Remapped p₀) {k : Kernel}
    (hk : k.irqRoutines = (Kernel.early []).irqRoutines) {acts : List IrqStep} {s : IrqSys}
    (h : Runs irqSysStep Any ⟨p₀, k, .running⟩ acts s) (hrunning : s.phase = .running) :
    let t := tally p₀ 0 acts
    ∃ ticks, s.kernel.timerTicks = k.timerTicks + UInt32.ofNat ticks ∧
      ticks + t.withdrawn + t.view.wanted.toNat
        = t.edges + (decide (p₀.Wants (irqInput 0))).toNat := by
  have hclock := (clock_of_runs hk h).ticks
  have hsum := (balanced_of_runs hp₀ (n := 0) (by decide) h).sum
  rw [hrunning] at hclock hsum
  exact ⟨_, (UInt32.add_zero _).symm.trans hclock, hsum⟩

/-- Two edges, of which the second is withdrawn. -/
theorem ticks_count_edges_two :
    let acts := [IrqStep.line ⟨0, true, by decide⟩, .accept, .pulse 0, .vector 0x20,
      .line ⟨0, false, by decide⟩, .act, .act, .line ⟨0, true, by decide⟩, .act, .ret,
      .line ⟨0, false, by decide⟩]
    ∃ s, Runs irqSysStep Any ⟨remappedPair, Kernel.early [], .running⟩ acts s ∧
      ∃ ticks, s.kernel.timerTicks = 0 + UInt32.ofNat ticks ∧ ticks + 1 + 0 = 2 + 0 := by
  intro acts
  obtain ⟨s, hs, hrunning⟩ : ∃ s, exec irqSysStep Any ⟨remappedPair, Kernel.early [], .running⟩ acts
      = some s ∧ s.phase = .running := ⟨_, rfl, rfl⟩
  exact ⟨s, runs_of_exec hs,
    ticks_count_edges remapped_remappedPair rfl (runs_of_exec hs) hrunning⟩

end Chuckles.Proofs
