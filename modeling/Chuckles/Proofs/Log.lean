import Chuckles.Kernel.Log
import Chuckles.Proofs.TtyPage

/-!
# `Chuckles.Proofs.Log`: the log shows no level

The four levels of `lldetarr` have one attribute between them, dark grey on black, and no function
reads their names. So a run of log calls is the text of the calls on the terminal, and nothing is
left of the levels (`log_shows`).
-/

set_option autoImplicit false

namespace Chuckles.Proofs

open Lib.Page

/-- A call of one of the four functions. -/
inductive LogCall where
  | klog (str : CString)
  | kinfo (str : CString)
  | kwarn (str : CString)
  | kerror (str : CString)

/-- The text of the call. -/
def LogCall.str : LogCall → CString
  | .klog str => str
  | .kinfo str => str
  | .kwarn str => str
  | .kerror str => str

/-- The call. -/
def LogCall.run (t : Tty) : LogCall → Option (Int32 × Tty)
  | .klog str => Chuckles.klog str t
  | .kinfo str => Chuckles.kinfo str t
  | .kwarn str => Chuckles.kwarn str t
  | .kerror str => Chuckles.kerror str t

/-- The calls one after another: what they return, and the terminal. -/
def runLog (t : Tty) : List LogCall → Option (List Int32 × Tty)
  | [] => some ([], t)
  | c :: calls => do
    let (n, t) ← c.run t
    let (ns, t) ← runLog t calls
    some (n :: ns, t)

/-- The characters of the calls, all of them dark grey on black. -/
def logPairs (calls : List LogCall) : List (UInt8 × UInt8) :=
  calls.flatMap fun c => c.str.bytes.map fun b => (b, 8)

/-- The attribute is the one of every level. -/
theorem attr_lldetarr (i : Fin 4) : lldetarr[i].attr = 8 := by
  revert i
  decide

/-- A level of the table: the text is written in that attribute. -/
theorem klogs_of_lt (level : KernelLogLevel) (hlevel : level.toNat < 4) (str : CString)
    (t : Tty) :
    klogs level str t = some (Int32.ofNat str.bytes.length,
      writePairs t (str.bytes.map fun b => (b, 8))) := by
  have hattr : lldetarr[level.toNat].attr = 8 := attr_lldetarr ⟨level.toNat, hlevel⟩
  have hwrite : writePairs t (str.bytes.map fun b => (b, 8))
      = str.bytes.foldl (fun t b => terminalPutcharAttr t b 8) t := List.foldl_map
  rw [klogs, Vector.getElem?_eq_getElem hlevel, hwrite]
  show some (_, (terminalWritestringAttr t str lldetarr[level.toNat].attr).1) = _
  rw [hattr]
  rfl

/-- One call, whichever it is. -/
theorem LogCall.run_eq (t : Tty) (c : LogCall) :
    c.run t = some (Int32.ofNat c.str.bytes.length,
      writePairs t (c.str.bytes.map fun b => (b, 8))) := by
  cases c with
  | klog str => exact klogs_of_lt .log (by decide) str t
  | kinfo str => exact klogs_of_lt .info (by decide) str t
  | kwarn str => exact klogs_of_lt .warn (by decide) str t
  | kerror str => exact klogs_of_lt .error (by decide) str t

/-- Any calls. -/
theorem runLog_eq (calls : List LogCall) (t : Tty) :
    runLog t calls = some (calls.map fun c => Int32.ofNat c.str.bytes.length,
      writePairs t (logPairs calls)) := by
  induction calls generalizing t with
  | nil => rfl
  | cons c calls ih =>
      have hpairs : writePairs t (logPairs (c :: calls))
          = writePairs (writePairs t (c.str.bytes.map fun b => (b, 8))) (logPairs calls) := by
        simp [logPairs, writePairs, List.foldl_append]
      simp [runLog, LogCall.run_eq, ih, hpairs]

/-- After `terminal_initialise` the terminal shows the last page of what has been logged, in dark
grey on black. Every call returns the length of its text. Calls with the same texts leave the same
terminal, down to each store and each word to a port, so a level can not be told from another. -/
theorem log_shows (inb : UInt16 → UInt8) (t : Tty) (calls : List LogCall) :
    ∃ t', runLog (terminalInitialise inb t) calls
        = some (calls.map fun c => Int32.ofNat c.str.bytes.length, t') ∧
      Shows t' (cut VGA_WIDTH VGA_HEIGHT (itemsOf (logPairs calls))).2 ∧
      ∀ calls', calls'.map LogCall.str = calls.map LogCall.str →
        runLog (terminalInitialise inb t) calls' = runLog (terminalInitialise inb t) calls := by
  have hrun := runLog_eq calls (terminalInitialise inb t)
  refine ⟨_, hrun, shows_writePairs (shows_terminalInitialise inb t) _, ?_⟩
  intro calls' hsame
  have hlengths : calls'.map (fun c => Int32.ofNat c.str.bytes.length)
      = calls.map (fun c => Int32.ofNat c.str.bytes.length) := by
    simpa [Function.comp_def] using
      congrArg (List.map fun s : CString => Int32.ofNat s.bytes.length) hsame
  have hpairs : logPairs calls' = logPairs calls := by
    have h := congrArg (List.flatMap fun s : CString => s.bytes.map fun b => (b, (8 : UInt8))) hsame
    simpa [logPairs, List.flatMap_map] using h
  rw [runLog_eq, runLog_eq, hlengths, hpairs]

end Chuckles.Proofs
