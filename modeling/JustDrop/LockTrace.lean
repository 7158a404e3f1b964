import Mathlib.Data.List.Basic

/-!
# Locks held along a trace

A thread acquires and releases locks that are not reentrant and calls back to a
handler in between. A call that is made while no lock is held may run any code that
gives back the locks it takes: such code never waits for its own caller.
-/
namespace JustDrop

/-- What a thread does with locks, and the calls to its handler. -/
inductive LockAction (L E : Type) where
  | acquire (lock : L)
  | release (lock : L)
  | emit (event : E)
  deriving DecidableEq

namespace LockTrace
variable {L E : Type}

/-- A guard that lives as long as a part of the code. -/
def guarded (lock : L) (body : List (LockAction L E)) : List (LockAction L E) :=
  .acquire lock :: (body ++ [.release lock])

/-- The trace with what the handler does at each of its calls. -/
def expand (handler : E → List (LockAction L E)) : List (LockAction L E) → List (LockAction L E)
  | [] => []
  | .emit event :: trace => .emit event :: (handler event ++ expand handler trace)
  | action :: trace => action :: expand handler trace

/-- The calls to the handler. -/
def emitted (trace : List (LockAction L E)) : List E :=
  trace.filterMap fun
    | .emit event => some event
    | _ => none

@[simp] theorem emitted_append (trace rest : List (LockAction L E)) :
    emitted (trace ++ rest) = emitted trace ++ emitted rest :=
  List.filterMap_append

@[simp] theorem emitted_guarded (lock : L) (body : List (LockAction L E)) :
    emitted (guarded lock body) = emitted body := by
  simp [emitted, guarded]

variable [DecidableEq L]

/-- The locks held after one more action. -/
def hold (held : List L) : LockAction L E → List L
  | .acquire lock => lock :: held
  | .release lock => held.erase lock
  | .emit _ => held

/-- The locks held at the end of a trace. -/
def heldAfter (held : List L) (trace : List (LockAction L E)) : List L := trace.foldl hold held

/-- The locks held before an action satisfy a condition, for all actions of a trace. -/
def Throughout (P : List L → LockAction L E → Prop) : List L → List (LockAction L E) → Prop
  | _, [] => True
  | held, action :: trace => P held action ∧ Throughout P (hold held action) trace

/-- No lock is held when the handler is called. -/
def EmitsFree : List L → List (LockAction L E) → Prop :=
  Throughout fun held action => ∀ event, action = .emit event → held = []

/-- No lock is acquired while it is held. -/
def NeverBlocks : List L → List (LockAction L E) → Prop :=
  Throughout fun held action => ∀ lock, action = .acquire lock → lock ∉ held

variable {P : List L → LockAction L E → Prop} {held : List L} {trace rest : List (LockAction L E)}

theorem heldAfter_append : heldAfter held (trace ++ rest) = heldAfter (heldAfter held trace) rest :=
  List.foldl_append

theorem throughout_append : Throughout P held (trace ++ rest) ↔
    Throughout P held trace ∧ Throughout P (heldAfter held trace) rest := by
  induction trace generalizing held with
  | nil => simp [Throughout, heldAfter]
  | cons action trace ih => simp only [List.cons_append, Throughout, ih, and_assoc]; rfl

theorem heldAfter_guarded (lock : L) (held : List L) :
    heldAfter held (guarded lock ([] : List (LockAction L E))) = held := by
  simp [heldAfter, guarded, hold]

/-- Events go out without locks, and the thread never waits for itself. -/
def Orderly (held : List L) (trace : List (LockAction L E)) : Prop :=
  EmitsFree held trace ∧ NeverBlocks held trace

theorem orderly_nil : Orderly held ([] : List (LockAction L E)) := ⟨trivial, trivial⟩

theorem orderly_emit (event : E) : Orderly ([] : List L) [.emit event] :=
  ⟨by simp [EmitsFree, Throughout], by simp [NeverBlocks, Throughout]⟩

/-- A guard that is given back at once. -/
theorem orderly_guarded_append {lock : L} (h : Orderly [] trace) :
    Orderly [] (guarded lock [] ++ trace) := by
  rw [Orderly, EmitsFree, NeverBlocks, throughout_append, throughout_append, heldAfter_guarded]
  exact ⟨⟨by simp [guarded, Throughout], h.1⟩, by simp [guarded, Throughout], h.2⟩

theorem orderly_guarded (lock : L) : Orderly [] (guarded lock ([] : List (LockAction L E))) := by
  have h : Orderly [] (guarded lock [] ++ ([] : List (LockAction L E))) :=
    orderly_guarded_append orderly_nil
  rwa [List.append_nil] at h

/-- What the handler does at its calls, when it gives back what it takes, leaves an
orderly trace without waits. -/
theorem Orderly.expand {handler : E → List (LockAction L E)} (h : Orderly held trace)
    (hhandler : ∀ event, NeverBlocks [] (handler event) ∧ heldAfter [] (handler event) = []) :
    NeverBlocks held (expand handler trace) := by
  obtain ⟨hfree, hblocks⟩ := h
  induction trace generalizing held with
  | nil => trivial
  | cons action trace ih =>
    obtain ⟨hemit, hfree⟩ := hfree
    obtain ⟨hacquire, hblocks⟩ := hblocks
    cases action with
    | acquire lock => exact ⟨hacquire, ih hfree hblocks⟩
    | release lock => exact ⟨hacquire, ih hfree hblocks⟩
    | emit event =>
      obtain rfl : held = [] := hemit event rfl
      obtain ⟨hrun, hreturn⟩ := hhandler event
      have hheld : heldAfter (hold [] (.emit event)) (handler event) = [] := hreturn
      refine ⟨hacquire, throughout_append.mpr ⟨hrun, ?_⟩⟩
      rw [hheld]
      exact ih hfree hblocks

end LockTrace
end JustDrop
