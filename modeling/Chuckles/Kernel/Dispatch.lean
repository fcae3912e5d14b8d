import Chuckles.Kernel.Irq

/-!
# `Chuckles.Kernel.Dispatch`: what `irq_handler` does, as a list of actions

`irqHandler` calls the two routines that the kernel installs. Nothing in the dispatch
depends on what the handlers are, so `irqActs` is the same function over a table of handlers
of any type `H`. It returns the actions of the call in order: the reports on the serial
port, the call of the handler, and the bytes sent to the interrupt controllers. The handler
returns and leaves the frame as it is.

`irqHandler_eq_irqActs` connects the two: a call of `irqHandler` is these actions, run
on the kernel.

`IrqOp` is a call of `irq_install_handler` or of `irq_uninstall_handler`, and `tableAfter`
is the table that a sequence of them leaves (`run_history` on the kernel).
-/

set_option autoImplicit false

namespace Chuckles

universe u

variable {H : Type u}

/-! ### The table -/

/-- A call that changes the table. -/
inductive IrqOp (H : Type u) where
  | install (irq : Fin 16) (handler : H)
  | uninstall (irq : Fin 16)

/-- The line that the call is about. -/
def IrqOp.irq : IrqOp H → Fin 16
  | .install irq _ => irq
  | .uninstall irq => irq

/-- The entry that the call stores. -/
def IrqOp.entry : IrqOp H → Option H
  | .install _ handler => some handler
  | .uninstall _ => none

/-- `irq_routines[irq] = handler;` or `irq_routines[irq] = 0;`. -/
def IrqOp.apply (table : Vector (Option H) 16) (op : IrqOp H) : Vector (Option H) 16 :=
  table.set op.irq op.entry

/-- The table after a sequence of calls. It starts with 16 null pointers. -/
def tableAfter (history : List (IrqOp H)) : Vector (Option H) 16 :=
  history.foldl IrqOp.apply (Vector.replicate 16 none)

/-- The calls on the kernel. -/
def IrqOp.run (k : Kernel) : IrqOp Routine → Option Kernel
  | .install irq handler => irqInstallHandler k irq handler
  | .uninstall irq => irqUninstallHandler k irq

/-- A call changes the table of the kernel and nothing else. -/
theorem IrqOp.run_eq (k : Kernel) (op : IrqOp Routine) :
    op.run k = some { k with irqRoutines := op.apply k.irqRoutines } := by
  cases op with
  | install irq handler => exact dif_pos irq.isLt
  | uninstall irq => exact dif_pos irq.isLt

/-- The calls on the kernel build the table `tableAfter`. -/
theorem run_history (k : Kernel) (history : List (IrqOp Routine)) :
    history.foldlM IrqOp.run k
      = some { k with irqRoutines := history.foldl IrqOp.apply k.irqRoutines } := by
  induction history generalizing k with
  | nil => rfl
  | cons op history ih =>
    rw [List.foldlM_cons, IrqOp.run_eq]
    exact ih _

/-! ### The actions -/

/-- One action of `irq_handler`. -/
inductive IrqAct (H : Type u) where
  /-- `serial_writes(before); serial_writed(i); serial_writes(after);` -/
  | report (before : List UInt8) (i : Int32) (after : List UInt8)
  /-- `handler(r);` -/
  | call (handler : H)
  /-- `outb(port, value);` -/
  | outb (port : UInt16) (value : UInt8)

/-- `if (handler) handler(r); else ...`. -/
def callActs (intNo : UInt32) : Option H → List (IrqAct H)
  | some handler => [.call handler]
  | none =>
    [.report (ascii "IRQ handler unavailable at IRQ: ") intNo.toInt32 (ascii " \t "),
      .report [] (intNo - 32).toInt32 (ascii "\n")]

/-- The end-of-interrupt bytes. -/
def eoiActs (intNo : UInt32) : List (IrqAct H) :=
  (if intNo ≥ 40 then [.outb 0xA0 0x20] else []) ++ [.outb 0x20 0x20]

/-- `irq_handler`. There is no result when `irq_routines` is read outside its entries. -/
def irqActs (table : Vector (Option H) 16) (intNo : UInt32) : Option (List (IrqAct H)) :=
  let first := IrqAct.report (ascii "IRQ_HANDLER #") (intNo - 32).toInt32 (ascii "\n")
  if intNo - 32 > 16 then
    some [first, .report (ascii "INT NO > 16: ") intNo.toInt32 (ascii "\n")]
  else do
    let handler ← table[(intNo - 32).toNat]?
    some (first :: callActs intNo handler ++ eoiActs intNo)

/-! ### The actions on the kernel -/

/-- One action on the kernel. -/
def IrqAct.run (k : Kernel) : IrqAct Routine → Option Kernel
  | .report before i after => k.report before i after
  | .call handler => handler.run k
  | .outb port value => some (k.outb port value)

/-- Actions one after the other. -/
def runActs (k : Kernel) (acts : List (IrqAct Routine)) : Option Kernel :=
  acts.foldlM IrqAct.run k

/-- The first act, then the others. -/
theorem runActs_cons (k : Kernel) (act : IrqAct Routine) (acts : List (IrqAct Routine)) :
    runActs k (act :: acts) = (act.run k).bind fun k => runActs k acts :=
  List.foldlM_cons

/-- Acts behind acts. -/
theorem runActs_append (k : Kernel) (acts acts' : List (IrqAct Routine)) :
    runActs k (acts ++ acts') = (runActs k acts).bind fun k => runActs k acts' :=
  List.foldlM_append

/-- A single act. -/
theorem runActs_singleton (k : Kernel) (act : IrqAct Routine) : runActs k [act] = act.run k := by
  rw [runActs_cons]
  exact Option.bind_fun_some _

/-- The call through the table. -/
theorem runActs_callActs (k : Kernel) (intNo : UInt32) (handler : Option Routine) :
    runActs k (callActs intNo handler) = irqCall intNo handler k := by
  cases handler with
  | some handler => exact runActs_singleton k _
  | none =>
    show runActs k [_, _] = _
    rw [runActs_cons]
    exact Option.bind_congr fun k _ => runActs_singleton k _

/-- The end of interrupt. -/
theorem runActs_eoiActs (k : Kernel) (intNo : UInt32) :
    runActs k (eoiActs intNo) = some (endOfInterrupt intNo k) := by
  unfold eoiActs endOfInterrupt
  split
  · rfl
  · rfl

/-- A report leaves the table as it is. -/
theorem Kernel.report_irqRoutines {k k' : Kernel} {before after : List UInt8} {i : Int32}
    (h : k.report before i after = some k') : k'.irqRoutines = k.irqRoutines := by
  rcases Option.bind_eq_some_iff.mp h with ⟨m, _, hk'⟩
  cases hk'
  rfl

/-- `irq_handler` on the kernel is its actions, one after the other. -/
theorem irqHandler_eq_irqActs (intNo : UInt32) (k : Kernel) :
    irqHandler intNo k = (irqActs k.irqRoutines intNo).bind (runActs k) := by
  unfold irqHandler irqActs
  split
  · -- The guard: two reports.
    rw [Option.bind_some, runActs_cons]
    exact Option.bind_congr fun k₁ _ => (runActs_singleton k₁ (.report _ _ _)).symm
  · -- The first report leaves the table as it is, so both read the same entry.
    rcases hentry : k.irqRoutines[(intNo - 32).toNat]? with _ | handler
    · refine Option.bind_eq_none_iff.mpr fun k₁ hk₁ => ?_
      rw [Kernel.report_irqRoutines hk₁, hentry]
      rfl
    · show _ = runActs k (_ :: callActs intNo handler ++ eoiActs intNo)
      rw [List.cons_append, runActs_cons]
      refine Option.bind_congr fun k₁ hk₁ => ?_
      rw [Kernel.report_irqRoutines hk₁, hentry, runActs_append, runActs_callActs]
      exact Option.bind_congr fun k₂ _ => (runActs_eoiActs k₂ intNo).symm

end Chuckles
