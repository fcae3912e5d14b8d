import Chuckles.Lib.PortIo

/-!
# `Chuckles.Lib.Nested`: programs that interrupt each other

Several programs beside one system. A program can be interrupted between any two of its events,
and goes on when the program that interrupted it has returned. So the programs in execution are a
stack, and a frame of it is the rest of the program's trace.

The trace of a program is chosen when the program is called. The system answers the reads, so a
program whose next read was chosen with another answer stays where it is. A program that waits
has only the beginning of its trace. It may return at the end of it, as if it was abandoned.

`nestStep_cases` is what a step can do.
-/

set_option autoImplicit false

namespace Lib.PortIo

section
variable {ν σ δ : Type}

/-- A system with the programs in execution, the innermost first, and all events so far. -/
structure Nest (σ ν : Type) where
  system : σ
  frames : List (List (Event ν))
  past : List (Event ν)

/-- The steps: a program is called, the innermost program goes on or returns, and the system takes
a step of its own. -/
inductive NestAct (ν δ : Type) where
  | call (t : List (Event ν))
  | next
  | ret
  | own (d : δ)

/-- One step. -/
def nestStep (step : σ → Event ν ⊕ δ → Option σ) (s : Nest σ ν) :
    NestAct ν δ → Option (Nest σ ν)
  | .call t => some { s with frames := t :: s.frames }
  | .next =>
    match s.frames with
    | (e :: t) :: frames =>
      (step s.system (.inl e)).map fun system => ⟨system, t :: frames, s.past ++ [e]⟩
    | _ => none
  | .ret =>
    match s.frames with
    | [] :: frames => some { s with frames := frames }
    | _ => none
  | .own d => (step s.system (.inr d)).map fun system => { s with system := system }

/-- The programs that are called have the property `P`, and at most `depth` of them are in
execution at a time. -/
def Within (P : List (Event ν) → Prop) (depth : Nat) (s : Nest σ ν) : NestAct ν δ → Prop
  | .call t => P t ∧ s.frames.length < depth
  | _ => True

/-- The next event of a program is always allowed. -/
theorem within_next {P : List (Event ν) → Prop} {depth : Nat} (s : Nest σ ν) :
    Within P depth s (.next : NestAct ν δ) := trivial

/-- So is a return. -/
theorem within_ret {P : List (Event ν) → Prop} {depth : Nat} (s : Nest σ ν) :
    Within P depth s (.ret : NestAct ν δ) := trivial

/-- A weaker condition on the programs. -/
theorem Within.mono {P Q : List (Event ν) → Prop} {depth : Nat} {s : Nest σ ν} {a : NestAct ν δ}
    (h : Within P depth s a) (hPQ : ∀ t, P t → Q t) : Within Q depth s a := by
  cases a with
  | call t => exact ⟨hPQ t h.1, h.2⟩
  | next => trivial
  | ret => trivial
  | own d => trivial

/-- What a step can do. -/
theorem nestStep_cases {step : σ → Event ν ⊕ δ → Option σ} {s s' : Nest σ ν} {a : NestAct ν δ}
    (h : nestStep step s a = some s') :
    (∃ t, a = .call t ∧ s' = { s with frames := t :: s.frames }) ∨
    (∃ e t frames system, a = .next ∧ s.frames = (e :: t) :: frames ∧
      step s.system (.inl e) = some system ∧ s' = ⟨system, t :: frames, s.past ++ [e]⟩) ∨
    (∃ frames, a = .ret ∧ s.frames = [] :: frames ∧ s' = { s with frames := frames }) ∨
    (∃ d system, a = .own d ∧ step s.system (.inr d) = some system ∧
      s' = { s with system := system }) := by
  cases a with
  | call t => exact .inl ⟨t, rfl, by simpa [nestStep] using h.symm⟩
  | next =>
      refine .inr (.inl ?_)
      simp only [nestStep] at h
      split at h
      · rename_i e t frames hframes
        obtain ⟨system, hsystem, rfl⟩ := Option.map_eq_some_iff.mp h
        exact ⟨e, t, frames, system, rfl, hframes, hsystem, rfl⟩
      · cases h
  | ret =>
      refine .inr (.inr (.inl ?_))
      simp only [nestStep] at h
      split at h
      · rename_i frames hframes
        exact ⟨frames, rfl, hframes, by simpa using h.symm⟩
      · cases h
  | own d =>
      obtain ⟨system, hsystem, rfl⟩ := Option.map_eq_some_iff.mp h
      exact .inr (.inr (.inr ⟨d, system, rfl, hsystem, rfl⟩))

end
end Lib.PortIo
