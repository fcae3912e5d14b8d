import Chuckles.Proofs.KeyEvents

/-!
# `Chuckles.Proofs.SilentKeys`: releases and repeated modifiers do not show

Two streams of key transitions, one with more transitions than the other, leave the same
flags and the same text on the terminal when the others are of one of two kinds (`Silent`):

* a release of a key that has an entry in the default layer and is no modifier key;
* a make of a modifier key that repeats an earlier one, with the same prefix and without a
  release of the code in between.

A release changes no flag of another code, and the handler passes it to a shell that looks at
the keys that go down only (`keyText_of_release`). A repeated make finds the flags that it sets
in the position it reports. This is the invariant of the run, `RepeatsHeld`. Its step is
`flagsAfter_comm`: two transitions commute when they are of different codes or of one
direction, so what the earlier make has set is still set behind any other transition.

`silent_keys_invisible` is the result for two runs of the handler.
-/

set_option autoImplicit false

namespace Chuckles.Proofs

open Lib.Run

/-! ### The flags, one by one -/

/-- The flags after the handler. Three of them are those of one key, and the others are set by
a code with the prefix and without. -/
theorem flagsAfter_eq (s : Ps2kbState) (t : KeyTrans) :
    flagsAfter s t =
      { lshift := if t.code = LSHF then t.make else s.lshift
        rshift := if t.code = RSHF then t.make else s.rshift
        lctrl := if t.code = LCTL then t.make else s.lctrl
        rctrl := if t.ext = true ∧ t.code = RCTL then t.make else s.rctrl
        lalt := if t.code = LALT then t.make else s.lalt
        ralt := if t.ext = true ∧ t.code = RALT then t.make else s.ralt
        mod := if t.code = MOD then t.make else s.mod } := by
  rcases t with ⟨ext, code, make, hcode⟩
  simp only [flagsAfter, plainFlags, extFlags, LSHF, LCTL, LALT, RSHF, RCTL, RALT, MOD]
  -- One case for each code of a modifier.
  by_cases hlshift : code = 0x12
  · subst hlshift
    cases ext <;> simp
  by_cases hctrl : code = 0x14
  · subst hctrl
    cases ext <;> simp
  by_cases halt : code = 0x11
  · subst halt
    cases ext <;> simp
  by_cases hrshift : code = 0x59
  · subst hrshift
    cases ext <;> simp
  by_cases hmod : code = 0x1F
  · subst hmod
    cases ext <;> simp
  · cases ext <;> simp [hlshift, hctrl, halt, hrshift, hmod]

/-- Two writes commute when they do not write different values to one place. -/
theorem ite_ite_comm {p q : Prop} [Decidable p] [Decidable q] {a b x : Bool}
    (h : p → q → a = b) :
    (if p then a else if q then b else x) = if q then b else if p then a else x := by
  by_cases hp : p
  · by_cases hq : q
    · rw [if_pos hp, if_pos hq, h hp hq]
    · rw [if_pos hp, if_neg hq, if_pos hp]
  · rw [if_neg hp, if_neg hp]

/-- Two transitions commute when they are of different codes or of one direction. -/
theorem flagsAfter_comm (s : Ps2kbState) {t u : KeyTrans} (h : t.code = u.code → t.make = u.make) :
    flagsAfter (flagsAfter s u) t = flagsAfter (flagsAfter s t) u := by
  have hcode : ∀ code, t.code = code → u.code = code → t.make = u.make :=
    fun code ht hu => h (ht.trans hu.symm)
  have hfront : ∀ code, t.ext = true ∧ t.code = code → u.ext = true ∧ u.code = code →
      t.make = u.make := fun code ht hu => hcode code ht.2 hu.2
  rw [flagsAfter_eq _ t, flagsAfter_eq s u, flagsAfter_eq _ u, flagsAfter_eq s t,
    Ps2kbState.mk.injEq]
  exact ⟨ite_ite_comm (hcode _), ite_ite_comm (hcode _), ite_ite_comm (hcode _),
    ite_ite_comm (hfront _), ite_ite_comm (hcode _), ite_ite_comm (hfront _),
    ite_ite_comm (hcode _)⟩

/-- A transition that is made twice. -/
theorem flagsAfter_repeated (s : Ps2kbState) {t u : KeyTrans} (hext : t.ext = u.ext)
    (hcode : t.code = u.code) (hmake : t.make = u.make) :
    flagsAfter (flagsAfter s u) t = flagsAfter s u := by
  rw [flagsAfter_eq _ t, flagsAfter_eq s u, hext, hcode, hmake, Ps2kbState.mk.injEq]
  have htwice : ∀ (p : Prop) [Decidable p] (a x : Bool),
      (if p then a else if p then a else x) = if p then a else x := by
    intro p _ a x
    by_cases hp : p
    · rw [if_pos hp, if_pos hp]
    · rw [if_neg hp]
  exact ⟨htwice _ _ _, htwice _ _ _, htwice _ _ _, htwice _ _ _, htwice _ _ _, htwice _ _ _,
    htwice _ _ _⟩

/-! ### What is silent -/

/-- A transition repeats an earlier make of the key, and no transition in between is a release
of the code, with the prefix or without. -/
def Repeats (seen : List KeyTrans) (t : KeyTrans) : Prop :=
  ∃ before first between, seen = before ++ first :: between ∧ first.make = true ∧
    first.ext = t.ext ∧ first.code = t.code ∧ ∀ u ∈ between, u.code = t.code → u.make = true

/-- A transition that can be deleted from a stream, after the transitions `seen`. -/
def Silent (seen : List KeyTrans) (t : KeyTrans) : Prop :=
  (t.make = false ∧ t.code ∉ modifierKeys ∧ entry gb.default t.code ≠ 0) ∨
    (t.make = true ∧ t.code ∈ modifierKeys ∧ Repeats seen t)

/-- An event prints nothing when its flags do not say that a key goes down. -/
theorem shellText_of_not_down {e : KeyEvent} (h : e.flags &&& KB_FLAG_DOWN = 0) :
    shellText e = [] :=
  if_pos h

/-- A code that is not mapped leaves the event of the first switch, which has the special bit
only. -/
theorem shellText_of_not_mapped (s : Ps2kbState) {t : KeyTrans} (h : ¬Mapped t.code) :
    shellText (eventOf s t) = [] := by
  have hdecoded : decoded s (scanned t) = (scanned t).e := if_neg h
  apply shellText_of_not_down
  show (decoded s (scanned t)).flags &&& KB_FLAG_DOWN = 0
  rw [hdecoded]
  show KB_FLAG_SPECIAL &&& KB_FLAG_DOWN = 0
  decide

/-- A key with an entry is reported by neither switch. -/
theorem keyText_of_entry (s : Ps2kbState) {t : KeyTrans} (h : entry gb.default t.code ≠ 0) :
    keyText s t = shellText (eventOf (flagsAfter s t) t) := by
  have hzero : t.code ≠ 0 := by
    intro hzero
    rw [hzero] at h
    exact h rfl
  rw [keyText, scanText_of_ne hzero, decodeText_of_entry h]
  rfl

/-- A release of a key with an entry prints nothing. -/
theorem keyText_of_release (s : Ps2kbState) {t : KeyTrans} (hmake : t.make = false)
    (h : entry gb.default t.code ≠ 0) : keyText s t = [] := by
  rw [keyText_of_entry s h]
  by_cases hmapped : Mapped t.code
  · apply shellText_of_not_down
    have hdown := (flagsOf_eventOf (flagsAfter s t) hmapped).down
    rw [hmake] at hdown
    exact not_not.mp (mt hdown.mp Bool.false_ne_true)
  · exact shellText_of_not_mapped _ hmapped

/-- The modifier keys have an entry in the default layer. -/
theorem entry_of_modifier {code : UInt8} (h : code ∈ modifierKeys) :
    entry gb.default code ≠ 0 := by
  simp only [modifierKeys, List.mem_cons, List.not_mem_nil, or_false] at h
  rcases h with rfl | rfl | rfl | rfl | rfl
  all_goals decide +kernel

/-- A modifier key prints nothing. -/
theorem keyText_of_modifier (s : Ps2kbState) {t : KeyTrans} (h : t.code ∈ modifierKeys) :
    keyText s t = [] := by
  rw [keyText_of_entry s (entry_of_modifier h)]
  exact shellText_of_not_mapped _ fun hmapped => hmapped.1 h

/-! ### The invariant -/

/-- The flags that a repeated make sets have its value. -/
def RepeatsHeld (seen : List KeyTrans) (s : Ps2kbState) : Prop :=
  ∀ t : KeyTrans, t.make = true → Repeats seen t → flagsAfter s t = s

/-- Nothing is repeated at the start. -/
theorem repeatsHeld_nil (s : Ps2kbState) : RepeatsHeld [] s := by
  rintro t - ⟨before, first, between, hseen, -⟩
  exact absurd hseen (List.ne_nil_of_mem (by simp : first ∈ before ++ first :: between)).symm

/-- What is repeated after one more transition: the transition itself, or what was repeated
before it, and then it is no release of the code. -/
theorem repeats_append {seen : List KeyTrans} {u t : KeyTrans} (h : Repeats (seen ++ [u]) t) :
    (u.make = true ∧ u.ext = t.ext ∧ u.code = t.code) ∨
      (Repeats seen t ∧ (u.code = t.code → u.make = true)) := by
  rcases h with ⟨before, first, between, hseen, hmake, hext, hcode, hbetween⟩
  rcases List.eq_nil_or_concat between with rfl | ⟨between, last, rfl⟩
  · rcases List.append_inj' hseen rfl with ⟨-, hlast⟩
    cases hlast
    exact Or.inl ⟨hmake, hext, hcode⟩
  · rw [List.concat_eq_append, ← List.cons_append, ← List.append_assoc] at hseen
    rcases List.append_inj' hseen rfl with ⟨hinit, hlast⟩
    cases hlast
    right
    constructor
    · exact ⟨before, first, between, hinit, hmake, hext, hcode,
        fun v hv => hbetween v (by rw [List.concat_eq_append]; exact List.mem_append_left _ hv)⟩
    · exact hbetween u (by simp)

/-- The step: a transition keeps the flags of the keys that are repeated. -/
theorem repeatsHeld_append (seen : List KeyTrans) (s : Ps2kbState) (u : KeyTrans)
    (h : RepeatsHeld seen s) : RepeatsHeld (seen ++ [u]) (flagsAfter s u) := by
  intro t hmake hrepeats
  rcases repeats_append hrepeats with ⟨hfirst, hext, hcode⟩ | ⟨hbefore, hrelease⟩
  · exact flagsAfter_repeated s hext.symm hcode.symm (hmake.trans hfirst.symm)
  · have hcomm : t.code = u.code → t.make = u.make :=
      fun hcode => hmake.trans (hrelease hcode.symm).symm
    calc flagsAfter (flagsAfter s u) t
        = flagsAfter (flagsAfter s t) u := flagsAfter_comm s hcomm
      _ = flagsAfter s u := by rw [h t hmake hbefore]

/-- A silent transition changes no flag and prints nothing. -/
theorem silent_spec (seen : List KeyTrans) (s : Ps2kbState) (t : KeyTrans)
    (h : RepeatsHeld seen s) (ht : Silent seen t) : flagsAfter s t = s ∧ keyText s t = [] := by
  rcases ht with ⟨hmake, hcode, hentry⟩ | ⟨hmake, hcode, hrepeats⟩
  · exact ⟨flagsAfter_of_not_modifier s hcode, keyText_of_release s hmake hentry⟩
  · exact ⟨h t hmake hrepeats, keyText_of_modifier s hcode⟩

/-! ### Two runs -/

/-- **Releases and repeated modifiers do not show.** The handler, from any flags, prints the
same text for a stream and for what is left of it after silent transitions are deleted, and
leaves the same flags. -/
theorem silent_keys_invisible (m : Machine) (s : Ps2kbState) {ts ts' : List KeyTrans}
    (h : Purged Silent [] ts ts') (rest : List UInt8) :
    ∃ k k' printed, handlerRuns ts.length (installed m s ts rest) = some k ∧
      handlerRuns ts'.length (installed m s ts' rest) = some k' ∧
      k.input = rest ∧ k'.input = rest ∧
      k.mach.console = m.console ++ printed ∧ k'.mach.console = m.console ++ printed ∧
      k.mach.tty = k'.mach.tty ∧ k.state = k'.state := by
  rcases handlerRuns_spec ts (installed m s ts rest) rest rfl rfl
    with ⟨k, hrun, hinput, -, hstate, hdisplays⟩
  rcases handlerRuns_spec ts' (installed m s ts' rest) rest rfl rfl
    with ⟨k', hrun', hinput', -, hstate', hdisplays'⟩
  rcases h.outputs_eq RepeatsHeld repeatsHeld_append silent_spec (repeatsHeld_nil s)
    with ⟨htext, hflags⟩
  have hdisplays : Displays m (outputs flagsAfter keyText s ts) k.mach := hdisplays
  have hdisplays' : Displays m (outputs flagsAfter keyText s ts) k'.mach := htext ▸ hdisplays'
  exact ⟨k, k', _, hrun, hrun', hinput, hinput', hdisplays.1, hdisplays'.1,
    hdisplays.2.trans hdisplays'.2.symm, (hstate.trans hflags).trans hstate'.symm⟩

/-- A left control key that repeats, and the release of a letter. -/
theorem silent_keys_invisible_control :
    ∃ k k' printed,
      handlerRuns 4 (installed Machine.boot (physical []) [⟨false, LCTL, true, by decide⟩,
        ⟨false, 0x15, true, by decide⟩, ⟨false, LCTL, true, by decide⟩,
        ⟨false, 0x15, false, by decide⟩] []) = some k ∧
      handlerRuns 2 (installed Machine.boot (physical []) [⟨false, LCTL, true, by decide⟩,
        ⟨false, 0x15, true, by decide⟩] []) = some k' ∧
      k.input = [] ∧ k'.input = [] ∧
      k.mach.console = Machine.boot.console ++ printed ∧
      k'.mach.console = Machine.boot.console ++ printed ∧
      k.mach.tty = k'.mach.tty ∧ k.state = k'.state := by
  refine silent_keys_invisible Machine.boot (physical []) (.keep _ (.keep _ (.delete ?_
    (.delete ?_ (.nil _))))) []
  · refine Or.inr ⟨rfl, by decide, [], ⟨false, LCTL, true, by decide⟩,
      [⟨false, 0x15, true, by decide⟩], rfl, rfl, rfl, rfl, ?_⟩
    simp
  · exact Or.inl ⟨rfl, by decide, by decide +kernel⟩

end Chuckles.Proofs
