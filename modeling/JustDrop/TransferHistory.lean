import JustDrop.Session

/-!
# Histories of a transfer

A new machine is asked for one target after the other, and the targets it accepts are
its history. They lead to completion exactly when they negotiate, transfer with any
number of pauses, verify and complete.
-/
namespace JustDrop

/-- A machine and the targets it has accepted. -/
structure TransferHistory where
  accepted : List TransferState
  machine : TransferStateMachine
  deriving DecidableEq, Repr

namespace TransferHistory

/-- One call; the target is noted when the machine accepts it. -/
def call (history : TransferHistory) (target : TransferState) : TransferHistory :=
  match history.machine.transition target with
  | (.ok (), machine) => { accepted := history.accepted ++ [target], machine }
  | (.error _, machine) => { history with machine }

/-- The calls on a new machine, one after the other. -/
def calls (targets : List TransferState) : TransferHistory :=
  targets.foldl call { accepted := [], machine := TransferStateMachine.new }

@[simp] theorem calls_nil : calls [] = { accepted := [], machine := .new } := rfl

@[simp] theorem calls_concat (targets : List TransferState) (target : TransferState) :
    calls (targets ++ [target]) = (calls targets).call target := by
  simp [calls]

theorem call_of_valid {history : TransferHistory} {target : TransferState}
    (hvalid : history.machine.isValidTransition target = true) :
    history.call target =
      { accepted := history.accepted ++ [target], machine := { state := target } } := by
  simp [call, TransferStateMachine.transition, hvalid]

theorem call_of_not_valid {history : TransferHistory} {target : TransferState}
    (hvalid : ¬history.machine.isValidTransition target = true) :
    history.call target = history := by
  simp [call, TransferStateMachine.transition, hvalid]

/-! ### The targets that lead to a state -/

/-- Pauses with the resumption after each. -/
def pauses (m : ℕ) : List TransferState := (List.replicate m [.paused, .transferring]).flatten

/-- Negotiation, `n` times renewed, and a transfer with `m` pauses. -/
def begun (n m : ℕ) : List TransferState :=
  List.replicate (n + 1) .negotiating ++ .transferring :: pauses m

/-- The course of a transfer that completes. -/
def Intended (targets : List TransferState) : Prop :=
  ∃ n m, targets = begun n m ++ [.verifying, .completed]

/-- What has been accepted on the way to a state. -/
def Leads (accepted : List TransferState) : TransferState → Prop
  | .handshaking => accepted = []
  | .negotiating => ∃ n, accepted = List.replicate (n + 1) .negotiating
  | .transferring => ∃ n m, accepted = begun n m
  | .paused => ∃ n m, accepted = begun n m ++ [.paused]
  | .verifying => ∃ n m, accepted = begun n m ++ [.verifying]
  | .completed => Intended accepted
  | .failed => ∃ earlier, accepted = earlier ++ [.failed]
  | .cancelled => ∃ earlier, accepted = earlier ++ [.cancelled]

theorem pauses_succ (m : ℕ) : pauses (m + 1) = pauses m ++ [.paused, .transferring] := by
  simp [pauses, List.replicate_succ']

theorem begun_succ (n m : ℕ) : begun n (m + 1) = begun n m ++ [.paused] ++ [.transferring] := by
  simp [begun, pauses_succ]

theorem begun_zero (n : ℕ) :
    begun n 0 = List.replicate (n + 1) .negotiating ++ [.transferring] := rfl

/-- A list that is begun ends in `transferring`. -/
theorem exists_begun_eq (n m : ℕ) : ∃ earlier, begun n m = earlier ++ [.transferring] := by
  cases m with
  | zero => exact ⟨_, begun_zero n⟩
  | succ m => exact ⟨_, begun_succ n m⟩

theorem Intended.last {targets : List TransferState} (h : Intended targets) :
    targets.getLast? = some .completed := by
  obtain ⟨n, m, rfl⟩ := h
  simp

/-- The state is the last target that was accepted. -/
theorem Leads.last {accepted : List TransferState} {state : TransferState}
    (h : Leads accepted state) (hne : accepted ≠ []) : accepted.getLast? = some state := by
  cases state with
  | handshaking => exact absurd h hne
  | negotiating =>
    obtain ⟨n, rfl⟩ := h
    simp [List.getLast?_replicate]
  | transferring =>
    obtain ⟨n, m, rfl⟩ := h
    obtain ⟨earlier, hbegun⟩ := exists_begun_eq n m
    simp [hbegun]
  | paused =>
    obtain ⟨n, m, rfl⟩ := h
    simp
  | verifying =>
    obtain ⟨n, m, rfl⟩ := h
    simp
  | completed => exact Intended.last h
  | failed =>
    obtain ⟨earlier, rfl⟩ := h
    simp
  | cancelled =>
    obtain ⟨earlier, rfl⟩ := h
    simp

/-- A transition that is valid leads on. -/
theorem Leads.step {accepted : List TransferState} {machine : TransferStateMachine}
    {target : TransferState} (h : Leads accepted machine.state)
    (hvalid : machine.isValidTransition target = true) : Leads (accepted ++ [target]) target := by
  obtain ⟨state⟩ := machine
  cases target with
  | handshaking => cases state <;> simp [TransferStateMachine.isValidTransition] at hvalid
  | negotiating =>
    cases state with
    | handshaking =>
      obtain rfl : accepted = [] := h
      exact ⟨0, rfl⟩
    | negotiating =>
      obtain ⟨n, rfl⟩ := h
      exact ⟨n + 1, List.replicate_succ'.symm⟩
    | _ => simp [TransferStateMachine.isValidTransition] at hvalid
  | transferring =>
    cases state with
    | negotiating =>
      obtain ⟨n, rfl⟩ := h
      exact ⟨n, 0, (begun_zero n).symm⟩
    | paused =>
      obtain ⟨n, m, rfl⟩ := h
      exact ⟨n, m + 1, (begun_succ n m).symm⟩
    | _ => simp [TransferStateMachine.isValidTransition] at hvalid
  | verifying =>
    cases state with
    | transferring =>
      obtain ⟨n, m, rfl⟩ := h
      exact ⟨n, m, rfl⟩
    | _ => simp [TransferStateMachine.isValidTransition] at hvalid
  | completed =>
    cases state with
    | verifying =>
      obtain ⟨n, m, rfl⟩ := h
      exact ⟨n, m, by simp⟩
    | _ => simp [TransferStateMachine.isValidTransition] at hvalid
  | failed => exact ⟨accepted, rfl⟩
  | cancelled => exact ⟨accepted, rfl⟩
  | paused =>
    cases state with
    | transferring =>
      obtain ⟨n, m, rfl⟩ := h
      exact ⟨n, m, rfl⟩
    | _ => simp [TransferStateMachine.isValidTransition] at hvalid

/-- The accepted targets lead to the state that the machine is in. -/
theorem leads_calls (targets : List TransferState) :
    Leads (calls targets).accepted (calls targets).machine.state := by
  induction targets using List.reverseRecOn with
  | nil => rfl
  | append_singleton targets target ih =>
    rw [calls_concat]
    by_cases hvalid : (calls targets).machine.isValidTransition target = true
    · rw [call_of_valid hvalid]
      exact ih.step hvalid
    · rw [call_of_not_valid hvalid]
      exact ih

/-! ### Lists that are accepted in full -/

/-- Every target is accepted, and the machine ends in a state. -/
def AcceptedInFull (targets : List TransferState) (state : TransferState) : Prop :=
  calls targets = { accepted := targets, machine := { state } }

theorem AcceptedInFull.step {targets : List TransferState} {state target : TransferState}
    (h : AcceptedInFull targets state)
    (hvalid : (TransferStateMachine.fromState state).isValidTransition target = true) :
    AcceptedInFull (targets ++ [target]) target := by
  have hmachine : (calls targets).machine.isValidTransition target = true := by
    rw [h]
    exact hvalid
  rw [AcceptedInFull, calls_concat, call_of_valid hmachine, h]

theorem acceptedInFull_negotiating (n : ℕ) :
    AcceptedInFull (List.replicate (n + 1) .negotiating) .negotiating := by
  induction n with
  | zero => rfl
  | succ n ih =>
    rw [List.replicate_succ']
    exact ih.step rfl

theorem acceptedInFull_begun (n m : ℕ) : AcceptedInFull (begun n m) .transferring := by
  induction m with
  | zero =>
    rw [begun_zero]
    exact (acceptedInFull_negotiating n).step rfl
  | succ m ih =>
    rw [begun_succ]
    have hpaused : AcceptedInFull (begun n m ++ [.paused]) .paused := ih.step rfl
    exact hpaused.step rfl

theorem Intended.acceptedInFull {targets : List TransferState} (h : Intended targets) :
    AcceptedInFull targets .completed := by
  obtain ⟨n, m, rfl⟩ := h
  have hverified : AcceptedInFull (begun n m ++ [.verifying]) .verifying :=
    (acceptedInFull_begun n m).step rfl
  have hcompleted : AcceptedInFull (begun n m ++ [.verifying] ++ [.completed]) .completed :=
    hverified.step rfl
  rwa [List.append_assoc] at hcompleted

/-- After any calls: a refused call leaves the machine, nothing is accepted in a terminal
state, the machine has completed exactly when what it accepted is the intended course,
and an intended course is accepted in full. -/
theorem completed_iff_intended (targets : List TransferState) (target : TransferState) :
    (∀ e, ((calls targets).machine.transition target).1 = .error e →
      ((calls targets).machine.transition target).2 = (calls targets).machine) ∧
    ((calls targets).machine.isTerminal = true →
      ∃ e, ((calls targets).machine.transition target).1 = .error e) ∧
    ((calls targets).machine.state = .completed ↔ Intended (calls targets).accepted) ∧
    (Intended targets → (calls targets).accepted = targets) := by
  have hleads := leads_calls targets
  refine ⟨?_, ?_, ⟨?_, ?_⟩, ?_⟩
  · intro e herror
    unfold TransferStateMachine.transition at herror ⊢
    split_ifs at herror ⊢
    rfl
  · intro hterminal
    have hrefused : (calls targets).machine.isValidTransition target = false := by
      generalize (calls targets).machine = machine at hterminal
      obtain ⟨state⟩ := machine
      cases state <;> cases target <;>
        simp [TransferStateMachine.isTerminal] at hterminal <;> rfl
    exact ⟨_, by rw [TransferStateMachine.transition, if_neg (by simp [hrefused])]⟩
  · intro hstate
    rw [hstate] at hleads
    exact hleads
  · intro hintended
    have hlast := hintended.last
    have hne : (calls targets).accepted ≠ [] := by
      intro hnil
      simp [hnil] at hlast
    rw [hleads.last hne] at hlast
    exact Option.some.inj hlast
  · intro hintended
    rw [hintended.acceptedInFull]

/-- A transfer that is paused once, with a call that the machine refuses. -/
theorem completed_iff_intended_paused :
    Intended [.negotiating, .transferring, .paused, .transferring, .verifying, .completed] ∧
      (calls [.negotiating, .transferring, .paused, .transferring, .verifying,
        .completed]).accepted =
        [.negotiating, .transferring, .paused, .transferring, .verifying, .completed] :=
  ⟨⟨0, 1, rfl⟩, (completed_iff_intended _ .failed).2.2.2 ⟨0, 1, rfl⟩⟩

end TransferHistory
end JustDrop
