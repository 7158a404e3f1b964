import JustDrop.Peer
import JustDrop.Runs

/-!
# Transfer sessions

A session is opened in `negotiating`, for sending or for receiving, and its setters
assign the state they stand for, whatever it was. The state machine of the protocol
checks every transition it is asked for.
-/
namespace JustDrop

inductive TransferSession.Direction where
  | send
  | receive
  deriving DecidableEq, Repr

structure TransferSession where
  id : TransferId
  peerFingerprint : Text
  peerName : Text
  direction : TransferSession.Direction
  state : TransferState
  manifest : Option TransferManifest
  sourcePaths : List Path
  destDir : Option Path
  bytesTransferred : UInt64
  totalBytes : UInt64
  speedBps : UInt64
  deriving DecidableEq

namespace TransferSession

def newSend (id : TransferId) (peerFingerprint peerName : Text) (paths : List Path) :
    TransferSession :=
  { id, peerFingerprint, peerName, direction := .send, state := .negotiating, manifest := none,
    sourcePaths := paths, destDir := none, bytesTransferred := 0, totalBytes := 0, speedBps := 0 }

def newReceive (transferId : TransferId) (peerFingerprint peerName : Text)
    (manifest : TransferManifest) (destDir : Path) : TransferSession :=
  { id := transferId, peerFingerprint, peerName, direction := .receive, state := .negotiating,
    manifest := some manifest, sourcePaths := [], destDir := some destDir, bytesTransferred := 0,
    totalBytes := manifest.totalSize, speedBps := 0 }

def updateProgress (session : TransferSession) (bytes speed : UInt64) : TransferSession :=
  { session with bytesTransferred := bytes, speedBps := speed, state := .transferring }

def complete (session : TransferSession) : TransferSession := { session with state := .completed }

def fail (session : TransferSession) : TransferSession := { session with state := .failed }

def cancel (session : TransferSession) : TransferSession := { session with state := .cancelled }

def isTerminal (session : TransferSession) : Bool :=
  session.state = .completed || session.state = .failed || session.state = .cancelled

end TransferSession

/-! ### The transitions of the protocol -/

structure TransferStateMachine where
  state : TransferState
  deriving DecidableEq, Repr

namespace TransferStateMachine

/-- A machine for a new session. -/
def new : TransferStateMachine := { state := .handshaking }

def fromState (state : TransferState) : TransferStateMachine := { state }

def isValidTransition (machine : TransferStateMachine) (target : TransferState) : Bool :=
  match machine.state, target with
  | .handshaking, .negotiating => true
  | .negotiating, .transferring => true
  | .transferring, .verifying => true
  | .verifying, .completed => true
  | .negotiating, .cancelled => true
  | .handshaking, .cancelled => true
  | .transferring, .cancelled => true
  | .verifying, .cancelled => true
  | .handshaking, .failed => true
  | .negotiating, .failed => true
  | .transferring, .failed => true
  | .verifying, .failed => true
  | .transferring, .paused => true
  | .paused, .transferring => true
  | .paused, .cancelled => true
  | .paused, .failed => true
  | .negotiating, .negotiating => true
  | _, _ => false

/-- The error names the state the machine is in and the one it is asked for. -/
def transition (machine : TransferStateMachine) (target : TransferState) :
    Except (TransferState × TransferState) Unit × TransferStateMachine :=
  if machine.isValidTransition target then (.ok (), { state := target })
  else (.error (machine.state, target), machine)

def isTerminal (machine : TransferStateMachine) : Bool :=
  machine.state = .completed || machine.state = .failed || machine.state = .cancelled

def isActive (machine : TransferStateMachine) : Bool := !machine.isTerminal

theorem transition_eq_ok_iff {machine machine' : TransferStateMachine} {target : TransferState} :
    machine.transition target = (.ok (), machine') ↔
      machine.isValidTransition target = true ∧ machine' = { state := target } := by
  unfold transition
  split_ifs with h <;> simp [h, eq_comm]

end TransferStateMachine

/-! ### Histories of a session -/

/-- The two ways to open a session. -/
inductive SessionOpening where
  | newSend (id : TransferId) (peerFingerprint peerName : Text) (paths : List Path)
  | newReceive (transferId : TransferId) (peerFingerprint peerName : Text)
      (manifest : TransferManifest) (destDir : Path)

def SessionOpening.session : SessionOpening → TransferSession
  | newSend id peerFingerprint peerName paths =>
    TransferSession.newSend id peerFingerprint peerName paths
  | newReceive transferId peerFingerprint peerName manifest destDir =>
    TransferSession.newReceive transferId peerFingerprint peerName manifest destDir

inductive SessionCall where
  | updateProgress (bytes speed : UInt64)
  | complete
  | fail
  | cancel
  deriving DecidableEq

/-- The state that a setter assigns. -/
def SessionCall.target : SessionCall → TransferState
  | updateProgress _ _ => .transferring
  | complete => .completed
  | fail => .failed
  | cancel => .cancelled

namespace TransferSession
variable {session session' : TransferSession}

def apply (session : TransferSession) : SessionCall → TransferSession
  | .updateProgress bytes speed => session.updateProgress bytes speed
  | .complete => session.complete
  | .fail => session.fail
  | .cancel => session.cancel

@[simp] theorem state_apply (session : TransferSession) (call : SessionCall) :
    (session.apply call).state = call.target := by
  cases call <;> rfl

/-- One call of a setter. -/
def Step (session : TransferSession) (call : SessionCall) (session' : TransferSession) : Prop :=
  session' = session.apply call

/-- A change of state is one that the state machine accepts. -/
def Accepted (session : TransferSession) (_ : SessionCall) (session' : TransferSession) : Prop :=
  session.state ≠ session'.state →
    (TransferStateMachine.fromState session.state).transition session'.state =
      (.ok (), TransferStateMachine.fromState session'.state)

/-- The states that a session goes through. -/
def Entered (session : TransferSession) : Prop :=
  session.state ≠ .handshaking ∧ session.state ≠ .verifying ∧ session.state ≠ .paused

/-- Progress is reported while the transfer goes on, a transfer fails or is cancelled
while it goes on or again, and it completes only when it has completed. -/
def Admits (session : TransferSession) : SessionCall → Prop
  | .updateProgress _ _ => session.state = .negotiating ∨ session.state = .transferring
  | .complete => session.state = .completed
  | .fail => session.state = .negotiating ∨ session.state = .transferring ∨
      session.state = .failed
  | .cancel => session.state = .negotiating ∨ session.state = .transferring ∨
      session.state = .cancelled

theorem Entered.step {call : SessionCall} (h : Step session call session') :
    session'.Entered := by
  rw [h, Entered, state_apply]
  cases call <;> simp [SessionCall.target]

/-- A setter makes a change that the machine accepts exactly when the session admits it. -/
theorem accepted_iff_admits {call : SessionCall} (hentered : session.Entered)
    (h : Step session call session') : Accepted session call session' ↔ session.Admits call := by
  have haccepted : Accepted session call session' ↔ (session.state ≠ call.target →
      (TransferStateMachine.fromState session.state).isValidTransition call.target = true) := by
    rw [h, Accepted, state_apply]
    simp only [TransferStateMachine.transition_eq_ok_iff, TransferStateMachine.fromState, and_true]
  rw [haccepted]
  unfold Admits
  unfold Entered at hentered
  generalize session.state = state at hentered ⊢
  cases call with
  | updateProgress bytes speed =>
    show _ ↔ state = .negotiating ∨ state = .transferring
    simp only [SessionCall.target]
    cases state <;> revert hentered <;> decide
  | complete => cases state <;> revert hentered <;> decide
  | fail => cases state <;> revert hentered <;> decide
  | cancel => cases state <;> revert hentered <;> decide

/-- A session is opened in `negotiating`. -/
theorem state_session (opening : SessionOpening) : opening.session.state = .negotiating := by
  cases opening <;> rfl

theorem entered_session (opening : SessionOpening) : opening.session.Entered := by
  rw [Entered, state_session]
  decide

/-- All changes of a session are ones that the state machine accepts exactly when
every call comes in a state that admits it. -/
theorem each_accepted_iff (opening : SessionOpening)
    {taken : List (TransferSession × SessionCall)} {final : TransferSession}
    (run : Run Step opening.session taken final) :
    Run.Each Accepted final taken ↔ ∀ t ∈ taken, t.1.Admits t.2 :=
  Run.each_iff (P := fun _ => True) (entered_session opening)
    (fun _ _ _ _ _ hstep => Entered.step hstep)
    (fun _ _ _ hentered _ hstep => accepted_iff_admits hentered hstep) run fun _ _ => trivial

/-- A session for no files. -/
def sampleOpening : SessionOpening :=
  .newSend (Vector.replicate 16 0) [] "Phone".toList []

/-- Progress and then completion, as in the life of every transfer that succeeds. -/
def completing : List (TransferSession × SessionCall) :=
  [(sampleOpening.session, .updateProgress 500 1000),
    (sampleOpening.session.updateProgress 500 1000, .complete)]

def completedSession : TransferSession :=
  (sampleOpening.session.updateProgress 500 1000).complete

theorem run_completing : Run Step sampleOpening.session completing completedSession :=
  .snoc (.snoc .refl rfl) rfl

theorem not_admits_complete :
    ¬(sampleOpening.session.updateProgress 500 1000).Admits .complete := by
  simp [Admits, updateProgress]

theorem each_accepted_iff_completing : ¬Run.Each Accepted completedSession completing :=
  (each_accepted_iff sampleOpening run_completing).not.mpr fun h =>
    not_admits_complete (h _ (List.mem_cons_of_mem _ List.mem_cons_self))

/-- A session that reports progress and completes skips the verification. -/
theorem not_each_accepted : ¬∀ (opening : SessionOpening)
    (taken : List (TransferSession × SessionCall)) (final : TransferSession),
    Run Step opening.session taken final → Run.Each Accepted final taken := by
  intro h
  have hlast : Accepted (sampleOpening.session.updateProgress 500 1000) .complete
      completedSession := (h sampleOpening _ _ run_completing).2.1
  have hentered : (sampleOpening.session.updateProgress 500 1000).Entered :=
    Entered.step (show Step sampleOpening.session (.updateProgress 500 1000) _ from rfl)
  exact not_admits_complete ((accepted_iff_admits hentered rfl).mp hlast)

end TransferSession
end JustDrop
