import Chuckles.Proofs.IsrIrq

/-!
# `Chuckles.Proofs.IrqTransparent`: hardware interrupts are transparent

A hardware interrupt pushes 19 words: three by the processor, two by the stub, twelve
registers, the argument of the handler and the return address. `pushed_enterHandler` says
that nothing else in memory changes up to the first instruction of the handler.

`HandlerCall` is what the calling convention promises about `irq_handler`. Behind it
`leave_spec` takes the words off the stack again, each into the register that it came from.

`irq_transparent` is the main result. For every state of the interrupted code and every
handler that keeps the convention, `iret` resumes in the interrupted state, and no byte of the
interrupted stack has changed.
-/

set_option autoImplicit false

namespace Chuckles.Proofs

open Lib Lib.X86

/-- The vector of a hardware interrupt. -/
def irqVector (n : Fin 16) : Fin 48 := ⟨32 + n.val, by omega⟩

/-- What the calling convention promises about a call of the handler, from the state `s` at
its first instruction to the state `s'` behind the call: it returns, it keeps all registers
but `eax`, `ecx`, `edx` and the flags, and it keeps the frame of 17 words above its argument
and the `depth` bytes above that. It may change its argument, and any other memory. -/
structure HandlerCall (depth : Nat) (s s' : State) : Prop where
  esp : s'.esp = s.esp + 4
  reg : ∀ r, r ∉ [Reg.eax, .ecx, .edx, .esp] → s'.reg r = s.reg r
  seg : s'.seg = s.seg
  mem : ∀ a, (a - (s.esp + 8)).toNat < 4 * 17 + depth → s'.mem a = s.mem a

/-- The interrupted code goes on as if nothing had happened, with the `depth` bytes from its
stack pointer on unchanged. -/
structure Resumed (depth : Nat) (s t : State) : Prop where
  eip : t.eip = s.eip
  cs : t.cs = s.cs
  eflags : t.eflags = s.eflags
  reg : t.reg = s.reg
  seg : t.seg = s.seg
  mem : ∀ a, (a - s.esp).toNat < depth → t.mem a = s.mem a

/-! ### The way in -/

/-- All stubs of hardware interrupts push a zero and the number of their vector. -/
theorem stub_irqVector : ∀ n : Fin 16,
    stub (irqVector n) = noErrorStub (.imm (BitVec.ofNat 32 (irqVector n))) .irq := by decide

/-- The processor pushes no error code. -/
theorem errorCode_irqVector (n : Fin 16) (e : BitVec 32) : errorCode (irqVector n) e = none := by
  have hnone : ∀ n : Fin 16, ¬ HasErrorCode (irqVector n) := by decide
  exact if_neg (hnone n)

/-- The words of the processor and of the stub. -/
theorem pushed_stub (mode : SegPush) (pad : BitVec 16) (gate : Gate) (n : Fin 16) (s : State) :
    Pushed s (run mode (stub (irqVector n)).code (interrupt pad none gate s)) 5 := by
  have hpushed := (Pushed.refl s).pushAll (interruptWords pad none s)
    (by simp [interruptWords])
  have hcli : Pushed s (step mode (interrupt pad none gate s) .cli) 3 := hpushed.congr rfl rfl
  rw [stub_irqVector]
  exact (hcli.push 0 (by decide)).push _ (by decide)

/-- A push of a segment register. -/
theorem pushed_pushSeg (mode : SegPush) {s t : State} {n : Nat} (h : Pushed s t n)
    (hroom : n ≤ 100) (r : Seg) : Pushed s (step mode t (.pushSeg r)) (n + 1) :=
  h.push _ (by omega)

/-- The registers. -/
theorem pushed_saved (mode : SegPush) {s t : State} {n : Nat} (h : Pushed s t n)
    (hroom : n ≤ 80) : Pushed s (saved mode t) (n + 12) := by
  have hregs : Pushed s (step mode t .pusha) (n + 8) :=
    h.pushAll (pushaOrder.map t.reg) (by simp [pushaOrder]; omega)
  have hds := pushed_pushSeg mode hregs (by omega) .ds
  have hes := pushed_pushSeg mode hds (by omega) .es
  have hfs := pushed_pushSeg mode hes (by omega) .fs
  exact pushed_pushSeg mode hfs (by omega) .gs

/-- A load into `eax` pushes nothing. -/
theorem pushed_load (mode : SegPush) (a : BitVec 32) {s t : State} {n : Nat} (h : Pushed s t n) :
    Pushed s (step mode t (.mov .eax (.mem a))) n := h.congr rfl rfl

/-- The argument and the return address. -/
theorem pushed_call (mode : SegPush) (handler ret : BitVec 32) {s t : State} {n : Nat}
    (h : Pushed s t n) (hroom : n ≤ 100) :
    Pushed s (run mode ((enter handler ret).drop 5) t) (n + 2) := by
  have hmoved : Pushed s (run mode [.movw .eax 0x10, .movSeg .ds .eax, .movSeg .es .eax,
      .movSeg .fs .eax, .movSeg .gs .eax, .mov .eax (.reg .esp)] t) n := h.congr rfl rfl
  have hloaded := pushed_load mode handler (hmoved.push t.esp (by omega))
  exact hloaded.push ret (by omega)

/-- Up to the handler, 19 words are pushed. -/
theorem pushed_enterHandler (mode : SegPush) (k : Symbols) (pad : BitVec 16) (gate : Gate)
    (n : Fin 16) (s : State) :
    Pushed s (enterHandler mode k (irqVector n) (interrupt pad none gate s)) 19 := by
  have hstub := pushed_stub mode pad gate n s
  have htarget : (stub (irqVector n)).target = .irq := by rw [stub_irqVector]; rfl
  rw [enterHandler, run_append, htarget]
  generalize run mode (stub (irqVector n)).code (interrupt pad none gate s) = t at hstub ⊢
  show Pushed s (run mode (enter k.irqHandler k.irqReturn) t) 19
  have hrun : run mode (enter k.irqHandler k.irqReturn) t
      = run mode ((enter k.irqHandler k.irqReturn).drop 5) (saved mode t) :=
    run_append mode ((enter k.irqHandler k.irqReturn).take 5) _ t
  have hsaved := pushed_saved mode hstub (by decide)
  rw [hrun]
  exact pushed_call mode _ _ hsaved (by decide)

/-- The words that the handler finds above its return address and its argument: the
interrupted registers, the two words of the stub and those of the processor. -/
theorem stacked_enterHandler (mode : SegPush) (k : Symbols) (pad : BitVec 16) (gate : Gate)
    (n : Fin 16) (s : State) :
    ∃ gs fs es ds esp ret arg num err, SegField mode gs (s.seg .gs) ∧ SegField mode fs (s.seg .fs) ∧
      SegField mode es (s.seg .es) ∧ SegField mode ds (s.seg .ds) ∧
      Stacked (enterHandler mode k (irqVector n) (interrupt pad none gate s))
        (ret :: arg :: gs :: fs :: es :: ds ::
          (pushaOrder.reverse.map (Function.update s.reg .esp esp)
            ++ [num, err, s.eip, pad ++ s.cs, s.eflags])) := by
  have hne : ∀ n : Fin 16, irqVector n ≠ 17 := by decide
  have hleaves := stub_leaves mode pad gate (hne n) 0 s
  have htarget : (stub (irqVector n)).target = .irq := by rw [stub_irqVector]; rfl
  rw [delivered, errorCode_irqVector] at hleaves
  rw [enterHandler, run_append, htarget]
  obtain ⟨gs, fs, es, ds, hgs, hfs, hes, hds, hstacked⟩ :=
    enter_spec mode k.irqHandler k.irqReturn hleaves.stacked (by simp)
  rw [hleaves.seg] at hgs hfs hes hds
  rw [hleaves.reg _ (by decide), hleaves.reg _ (by decide), hleaves.reg _ (by decide),
    hleaves.reg _ (by decide), hleaves.reg _ (by decide), hleaves.reg _ (by decide),
    hleaves.reg _ (by decide)] at hstacked
  exact ⟨gs, fs, es, ds, _, _, _, _, _, hgs, hfs, hes, hds, hstacked⟩

/-! ### The way out -/

/-- The words above the argument are still there behind a call that keeps them. -/
theorem stacked_of_kept {s s' : State} {ret arg : BitVec 32} {ws : List (BitVec 32)}
    (h : Stacked s (ret :: arg :: ws)) (hesp : s'.esp = s.esp + 4)
    (hmem : ∀ a, (a - (s.esp + 8)).toNat < 4 * ws.length → s'.mem a = s.mem a)
    (hroom : ws.length ≤ 100) : Stacked s' (s'.top :: ws) := by
  intro i w hw
  cases i with
  | zero =>
      rw [BitVec.add_zero]
      exact Option.some.inj hw
  | succ i =>
      have hw' : ws[i]? = some w := by simpa using hw
      have hi : i < ws.length := (List.getElem?_eq_some_iff.mp hw').1
      have hread := h (i + 2) w (by simpa using hw')
      have haddr : s'.esp + BitVec.ofNat 32 (4 * (i + 1))
          = s.esp + BitVec.ofNat 32 (4 * (i + 2)) := by
        rw [hesp]
        bv_omega
      rw [haddr, ← hread]
      apply Memory.read32_congr
      intro j hj
      apply hmem
      bv_omega

/-- The common stub behind the call takes every word off the stack, into the register that it
is the value of. -/
theorem leave_spec (mode : SegPush) (value : Reg → BitVec 32) {s : State}
    {w gs fs es ds num err eip cs eflags : BitVec 32}
    (h : Stacked s (w :: gs :: fs :: es :: ds ::
      (pushaOrder.reverse.map value ++ [num, err, eip, cs, eflags]))) :
    let t := run mode leave s
    Popped s t 18 ∧ t.eip = eip ∧ t.cs = cs.setWidth 16 ∧ t.eflags = eflags
      ∧ (t.seg .gs = gs.setWidth 16 ∧ t.seg .fs = fs.setWidth 16 ∧ t.seg .es = es.setWidth 16
        ∧ t.seg .ds = ds.setWidth 16)
      ∧ ∀ r, r ≠ .esp → t.reg r = value r := by
  intro t
  obtain ⟨p₁, h₁, hseg₁, -⟩ := popReg_spec mode h (r := .eax) (by decide)
  obtain ⟨p₂, h₂, hgs⟩ := popSeg_spec mode h₁ .gs
  obtain ⟨p₃, h₃, hfs⟩ := popSeg_spec mode h₂ .fs
  obtain ⟨p₄, h₄, hes⟩ := popSeg_spec mode h₃ .es
  obtain ⟨p₅, h₅, hds⟩ := popSeg_spec mode h₄ .ds
  obtain ⟨p₆, h₆, hseg₆, hreg₆⟩ := popa_spec mode value h₅
  obtain ⟨p₇, h₇, hseg₇, hreg₇⟩ := stacked_addEsp mode h₆
  obtain ⟨p₈, heip, hcs, heflags, hseg₈, hreg₈⟩ := iret_spec mode h₇
  have hseg : t.seg = Function.update (Function.update (Function.update (Function.update s.seg
      .gs (gs.setWidth 16)) .fs (fs.setWidth 16)) .es (es.setWidth 16)) .ds
      (ds.setWidth 16) := by
    rw [← hseg₁, ← hgs, ← hfs, ← hes, ← hds, ← hseg₆, ← hseg₇, ← hseg₈]
    rfl
  refine ⟨?_, heip, hcs, heflags, ?_, ?_⟩
  · exact ((((((p₁.trans p₂).trans p₃).trans p₄).trans p₅).trans p₆).trans p₇).trans p₈
  · rw [hseg]
    exact ⟨rfl, rfl, rfl, rfl⟩
  · intro r hr
    rw [← hreg₆ r hr, ← hreg₇ r hr, ← hreg₈ r hr]
    rfl

/-! ### The result -/

/-- **A hardware interrupt is transparent: the stub, any handler that keeps the calling
convention, the common stub and `iret` lead back to the interrupted state.** -/
theorem irq_transparent (mode : SegPush) (k : Symbols) (pad : BitVec 16) (gate : Gate)
    (n : Fin 16) (s : State) (depth : Nat) (hdepth : 4 * 19 + depth ≤ 2 ^ 32) (s' : State)
    (hcall : HandlerCall depth
      (enterHandler mode k (irqVector n) (interrupt pad none gate s)) s') :
    Resumed depth s (run mode leave s') := by
  have hpushed := pushed_enterHandler mode k pad gate n s
  obtain ⟨gs, fs, es, ds, esp, ret, arg, num, err, hgs, hfs, hes, hds, hstacked⟩ :=
    stacked_enterHandler mode k pad gate n s
  generalize enterHandler mode k (irqVector n) (interrupt pad none gate s) = sc
    at hcall hpushed hstacked
  -- The frame has 17 words.
  have hkept := stacked_of_kept hstacked hcall.esp
    (fun a ha => hcall.mem a (Nat.lt_of_lt_of_le ha (Nat.le_add_right _ _))) (by simp [pushaOrder])
  obtain ⟨hpopped, heip, hcs, heflags, hseg, hreg⟩ := leave_spec mode _ hkept
  generalize run mode leave s' = t at hpopped heip hcs heflags hseg hreg
  refine ⟨heip, ?_, heflags, ?_, ?_, ?_⟩
  · rw [hcs]
    apply BitVec.eq_of_getLsbD_eq
    intro i hi
    rw [BitVec.getLsbD_setWidth, BitVec.getLsbD_append]
    simp [hi]
  · funext r
    by_cases hr : r = .esp
    · -- The 18 words that are popped, and the return address, are the 19 that were pushed.
      have hesp : t.esp = s.esp := by
        rw [hpopped.esp, hcall.esp, hpushed.esp]
        bv_omega
      rw [hr]
      exact hesp
    · rw [hreg r hr, Function.update_of_ne hr]
  · funext r
    cases r with
    | ds => exact hseg.2.2.2.trans hds.1
    | es => exact hseg.2.2.1.trans hes.1
    | fs => exact hseg.2.1.trans hfs.1
    | gs => exact hseg.1.trans hgs.1
  · intro a ha
    rw [hpopped.mem, hcall.mem a, hpushed.mem a (by omega)]
    rw [hpushed.esp]
    bv_omega

/-- A handler that returns at once keeps the convention. -/
theorem handlerCall_drop (depth : Nat) (s : State) : HandlerCall depth s s.drop := by
  refine ⟨drop_esp s, fun r hr => drop_reg_of_ne s ?_, rfl, fun _ _ => rfl⟩
  rintro rfl
  exact hr (by decide)

/-- The state at the handler of the timer interrupt. -/
def timerEntry : State :=
  enterHandler .lowHalf someSymbols (irqVector 0) (interrupt 0 none ⟨0x08, 0x00105000⟩ emptyState)

/-- The timer interrupt, with a handler that returns at once. -/
theorem irq_transparent_timer :
    HandlerCall 4096 timerEntry timerEntry.drop
      ∧ Resumed 4096 emptyState (run .lowHalf leave timerEntry.drop) :=
  ⟨handlerCall_drop 4096 timerEntry,
    irq_transparent .lowHalf someSymbols 0 ⟨0x08, 0x00105000⟩ 0 emptyState 4096 (by decide)
      timerEntry.drop (handlerCall_drop 4096 timerEntry)⟩

end Chuckles.Proofs
