import Chuckles.Kernel.Dispatch

/-!
# `Chuckles.Proofs.Dispatch`: the contract of `irq_handler`

The guard of `irq_handler` lets the number 48 pass, whose entry would be `irq_routines[16]`.
For every other number the call keeps the contract: a line of the two controllers runs the
handler installed last, if there is one, and is acknowledged; any other number does neither.

* `tableAfter_entry`: the table after a sequence of calls holds, for each line, what the
  last call about this line stored.
* `contract_line`, `contract_refused`, `irqActs_past_table`: the contract, by the number.
* `dispatch_contract_iff`: the contract holds for every history exactly when the number is
  not 48.
-/

set_option autoImplicit false

namespace Chuckles.Proofs

universe u

variable {H : Type u}

/-! ### The table -/

/-- The handler that was installed last for the line and not uninstalled since. -/
def lastInstalled (history : List (IrqOp H)) (irq : Fin 16) : Option H :=
  (history.reverse.find? fun op => op.irq = irq).bind IrqOp.entry

/-- A call about the line decides its entry. -/
theorem lastInstalled_concat (history : List (IrqOp H)) (op : IrqOp H) (irq : Fin 16) :
    lastInstalled (history ++ [op]) irq
      = if op.irq = irq then op.entry else lastInstalled history irq := by
  rw [lastInstalled, List.reverse_append, List.reverse_singleton, List.singleton_append,
    List.find?_cons]
  by_cases hirq : op.irq = irq
  · rw [decide_eq_true hirq, if_pos hirq]
    exact Option.bind_some _ _
  · rw [decide_eq_false hirq, if_neg hirq]
    rfl

/-- The table after a sequence of calls. The induction takes the calls from the last one. -/
theorem tableAfter_entry (history : List (IrqOp H)) (irq : Fin 16) :
    (tableAfter history)[irq.val]? = some (lastInstalled history irq) := by
  induction history using List.reverseRecOn with
  | nil =>
    show (Vector.replicate 16 none)[irq.val]? = some none
    rw [Vector.getElem?_replicate, if_pos irq.isLt]
  | append_singleton history op ih =>
    have htable : tableAfter (history ++ [op]) = (tableAfter history).set op.irq op.entry := by
      rw [tableAfter, List.foldl_append]
      rfl
    rw [htable, lastInstalled_concat, Vector.getElem?_set, ih]
    -- The last call decides its own line and leaves the entries of the others.
    by_cases hirq : op.irq = irq
    · rw [if_pos (congrArg Fin.val hirq), if_pos hirq]
    · rw [if_neg (fun h => hirq (Fin.ext h)), if_neg hirq]

/-! ### The guard -/

/-- The line of a number of the two controllers. -/
theorem line_lt {intNo : UInt32} (h : 32 ≤ intNo ∧ intNo ≤ 47) : (intNo - 32).toNat < 16 := by
  have hle : intNo.toNat ≤ 47 := UInt32.le_iff_toNat_le.mp h.2
  rw [UInt32.toNat_sub_of_le _ _ h.1]
  show intNo.toNat - 32 < 16
  omega

/-- The difference `int_no - 32` wraps below 32, so the guard refuses these numbers too. -/
theorem guard_iff (intNo : UInt32) :
    intNo - 32 > 16 ↔ ¬(32 ≤ intNo ∧ intNo ≤ 48) := by
  rw [gt_iff_lt, UInt32.lt_iff_toNat_lt, UInt32.le_iff_toNat_le, UInt32.le_iff_toNat_le,
    UInt32.toNat_sub]
  show 16 < (2 ^ 32 - 32 + intNo.toNat) % 2 ^ 32 ↔ ¬(32 ≤ intNo.toNat ∧ intNo.toNat ≤ 48)
  have hlt := intNo.toNat_lt
  omega

/-! ### The actions -/

/-- The actions that the contract is about: the calls of handlers and the bytes for the
interrupt controllers. -/
def Required : IrqAct H → Bool
  | .report .. => false
  | .call _ => true
  | .outb .. => true

/-- What the contract asks for. -/
def requiredActs (history : List (IrqOp H)) (intNo : UInt32) : List (IrqAct H) :=
  if h : 32 ≤ intNo ∧ intNo ≤ 47 then
    (lastInstalled history ⟨(intNo - 32).toNat, line_lt h⟩).toList.map .call
      ++ (if intNo ≥ 40 then [.outb 0xA0 0x20] else []) ++ [.outb 0x20 0x20]
  else []

/-- The contract: the call stays inside the table, runs the handler and acknowledges. -/
def DispatchContract (history : List (IrqOp H)) (intNo : UInt32) : Prop :=
  ∃ acts, irqActs (tableAfter history) intNo = some acts ∧
    acts.filter Required = requiredActs history intNo

/-- The call of the handler, without the reports. -/
theorem filter_callActs (intNo : UInt32) (handler : Option H) :
    (callActs intNo handler).filter Required = handler.toList.map .call := by
  cases handler with
  | some handler => rfl
  | none => rfl

/-- The end of interrupt has no report. -/
theorem filter_eoiActs (intNo : UInt32) :
    (eoiActs intNo : List (IrqAct H)).filter Required = eoiActs intNo := by
  unfold eoiActs
  split
  · rfl
  · rfl

/-- A number of the two controllers. -/
theorem contract_line (history : List (IrqOp H)) {intNo : UInt32}
    (h : 32 ≤ intNo ∧ intNo ≤ 47) : DispatchContract history intNo := by
  have hguard : ¬intNo - 32 > 16 := by
    rw [guard_iff, Decidable.not_not]
    exact ⟨h.1, UInt32.le_trans h.2 (by decide)⟩
  have hentry := tableAfter_entry history ⟨(intNo - 32).toNat, line_lt h⟩
  unfold DispatchContract irqActs
  rw [if_neg hguard, hentry]
  refine ⟨_, rfl, ?_⟩
  rw [requiredActs, dif_pos h, List.filter_append, filter_eoiActs, List.filter_cons_of_neg (by
    exact Bool.false_ne_true), filter_callActs, eoiActs, List.append_assoc]

/-- A number that the guard refuses. -/
theorem contract_refused (history : List (IrqOp H)) {intNo : UInt32}
    (h : ¬(32 ≤ intNo ∧ intNo ≤ 48)) : DispatchContract history intNo := by
  have hline : ¬(32 ≤ intNo ∧ intNo ≤ 47) := fun h' =>
    h ⟨h'.1, UInt32.le_trans h'.2 (by decide)⟩
  unfold DispatchContract irqActs
  rw [if_pos ((guard_iff intNo).mpr h)]
  refine ⟨_, rfl, ?_⟩
  rw [requiredActs, dif_neg hline]
  rfl

/-- The number 48 passes the guard, and its entry is outside the table. -/
theorem irqActs_past_table (table : Vector (Option H) 16) : irqActs table 48 = none := by
  have hentry : table[16]? = none := Vector.getElem?_eq_none (Nat.le_refl 16)
  unfold irqActs
  rw [if_neg (by decide)]
  show (table[16]?).bind (fun handler => some (_ :: callActs 48 handler ++ _)) = none
  rw [hentry]
  rfl

/-- The contract of `irq_handler`, for every history of installed and uninstalled handlers
and every interrupt number. -/
theorem dispatch_contract_iff (history : List (IrqOp H)) (intNo : UInt32) :
    DispatchContract history intNo ↔ intNo ≠ 48 := by
  constructor
  · rintro ⟨acts, hacts, -⟩ rfl
    rw [irqActs_past_table] at hacts
    cases hacts
  · intro hne
    -- Without 48, the numbers that pass the guard are the lines of the two controllers.
    by_cases hguard : 32 ≤ intNo ∧ intNo ≤ 48
    · refine contract_line history ⟨hguard.1, ?_⟩
      have hne' : intNo.toNat ≠ 48 := fun h => hne (UInt32.toNat_inj.mp h)
      have hle : intNo.toNat ≤ 48 := UInt32.le_iff_toNat_le.mp hguard.2
      rw [UInt32.le_iff_toNat_le]
      show intNo.toNat ≤ 47
      omega
    · exact contract_refused history hguard

/-- No handler is installed, and the number is 48. -/
theorem dispatch_reads_past_table :
    ¬∀ (history : List (IrqOp Routine)) (intNo : UInt32), DispatchContract history intNo := by
  intro h
  rcases h [] 48 with ⟨acts, hacts, -⟩
  cases hacts

end Chuckles.Proofs
