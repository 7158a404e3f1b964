import JustDrop.LiveServices
import JustDrop.Replay

/-!
# The peer events as a log of the registry

A listener that enters the devices it is told of and removes those it is told were
lost holds the registry of the browser after every event, and is told of nothing
that does not change it.
-/
namespace JustDrop

/-- What a listener does with an event. -/
def PeerEvent.apply (shown : Finmap (fun _ : Text => BrowsedDevice)) :
    PeerEvent → Finmap (fun _ : Text => BrowsedDevice)
  | .discovered device => shown.insert device.id device
  | .updated device => shown.insert device.id device
  | .lost id => shown.erase id

/-- A device is discovered when it is absent, updated and lost when it is present. -/
def PeerEvent.Apt (shown : Finmap (fun _ : Text => BrowsedDevice)) : PeerEvent → Prop
  | .discovered device => device.id ∉ shown
  | .updated device => device.id ∈ shown
  | .lost id => id ∈ shown

/-- The calls on a browser: the fingerprint of this device, and the events of the daemon. -/
inductive BrowserCall where
  | setSelfFingerprint (fingerprint : Bytes)
  | handleEvent (event : ServiceEvent)

namespace ServiceBrowser

/-- A browser that knows no peers. -/
def new (selfId : Option Text) : ServiceBrowser := { selfId, peers := ∅, events := [] }

/-- No value where taking the first eight bytes panics. -/
def setSelfFingerprint (browser : ServiceBrowser) (fingerprint : Bytes) : Option ServiceBrowser :=
  if fingerprint.length < 8 then none
  else some { browser with selfId := some (hexEncode (fingerprint.take 8)) }

/-- One call. A call that panics has changed nothing yet. -/
inductive Calls (browser : ServiceBrowser) : BrowserCall → ServiceBrowser → Prop
  | setSelfFingerprint {browser'} (fingerprint)
      (h : browser.setSelfFingerprint fingerprint = some browser') :
      Calls browser (.setSelfFingerprint fingerprint) browser'
  | setPanics (fingerprint) (h : browser.setSelfFingerprint fingerprint = none) :
      Calls browser (.setSelfFingerprint fingerprint) browser
  | handleEvent {browser'} (event) (h : Step browser event browser') :
      Calls browser (.handleEvent event) browser'
  | handlePanics (info) (h : browser.handleResolved info = none) :
      Calls browser (.handleEvent (.serviceResolved info)) browser

/-- The events so far rebuild the registry, each was apt, and every entry is stored under
the identifier that its fingerprint gives. -/
structure Logged (browser : ServiceBrowser) : Prop where
  lockstep : Replay.Lockstep PeerEvent.apply PeerEvent.Apt ∅ browser.events browser.peers
  keyed : ∀ id device, browser.peers.lookup id = some device →
    id = device.id ∧ device.id = deviceId device.fingerprint

variable {browser browser' : ServiceBrowser}

theorem logged_new (selfId : Option Text) : (new selfId).Logged where
  lockstep := Replay.Lockstep.nil ∅
  keyed id device hlookup := by simp [new] at hlookup

/-- A resolved service is ignored, or its device is entered and announced. -/
theorem handleResolved_cases {info : ServiceInfo} (h : browser.handleResolved info = some browser') :
    browser' = browser ∨ ∃ device event, device.id = deviceId device.fingerprint ∧
      (event = .updated device ∨ event = .discovered device) ∧ event.Apt browser.peers ∧
      browser' = { browser with
        peers := browser.peers.insert device.id device, events := browser.events ++ [event] } := by
  unfold handleResolved at h
  cases haddress : info.addressesV4.head? with
  | none =>
    simp only [haddress, Option.some.injEq] at h
    exact Or.inl h.symm
  | some ip =>
    simp only [haddress, Option.bind_eq_bind, Option.bind_eq_some_iff] at h
    obtain ⟨fingerprint, -, h⟩ := h
    let device : BrowsedDevice := {
      id := deviceId fingerprint, name := info.name, addr := { ip, port := info.port }, fingerprint
      platform := info.platform }
    by_cases hself : browser.selfId = some (deviceId fingerprint)
    · rw [if_pos hself] at h
      exact Or.inl (Option.some.inj h).symm
    · rw [if_neg hself] at h
      by_cases hmem : deviceId fingerprint ∈ browser.peers
      · rw [if_pos hmem] at h
        exact Or.inr ⟨device, .updated device, rfl, Or.inl rfl, hmem, (Option.some.inj h).symm⟩
      · rw [if_neg hmem] at h
        exact Or.inr ⟨device, .discovered device, rfl, Or.inr rfl, hmem,
          (Option.some.inj h).symm⟩

theorem Logged.entered (h : browser.Logged) {device : BrowsedDevice} {event : PeerEvent}
    (hid : device.id = deviceId device.fingerprint)
    (hevent : event = .updated device ∨ event = .discovered device)
    (hapt : event.Apt browser.peers) {selfId : Option Text} :
    Logged { selfId
             peers := browser.peers.insert device.id device
             events := browser.events ++ [event] } where
  lockstep := by
    have happly : event.apply browser.peers = browser.peers.insert device.id device := by
      rcases hevent with rfl | rfl <;> rfl
    rw [← happly]
    exact h.lockstep.concat hapt
  keyed id entry hlookup := by
    by_cases hsame : id = device.id
    · subst hsame
      rw [Finmap.lookup_insert, Option.some.injEq] at hlookup
      subst hlookup
      exact ⟨rfl, hid⟩
    · rw [Finmap.lookup_insert_of_ne _ hsame] at hlookup
      exact h.keyed id entry hlookup

theorem Logged.removed (h : browser.Logged) {fullname : Text} {found : Option Text}
    (hfound : browser.FindsName fullname found) : (browser.handleRemoved found).Logged := by
  cases found with
  | none => exact h
  | some id =>
    obtain ⟨device, hlookup, -⟩ := hfound
    have hapt : PeerEvent.Apt browser.peers (.lost id) := Finmap.mem_of_lookup_eq_some hlookup
    constructor
    · exact h.lockstep.concat hapt
    · intro other entry hentry
      by_cases hsame : other = id
      · subst hsame
        simp [handleRemoved] at hentry
      · simp only [handleRemoved, Finmap.lookup_erase_ne hsame] at hentry
        exact h.keyed other entry hentry

/-- Every call keeps the log right. -/
theorem Logged.step {call : BrowserCall} (h : browser.Logged) (hcall : Calls browser call browser') :
    browser'.Logged := by
  cases hcall with
  | setSelfFingerprint fingerprint hset =>
    unfold setSelfFingerprint at hset
    split_ifs at hset
    obtain rfl := Option.some.inj hset
    exact ⟨h.lockstep, h.keyed⟩
  | setPanics => exact h
  | handlePanics => exact h
  | handleEvent event hstep =>
    cases hstep with
    | serviceResolved info hhandled =>
      rcases handleResolved_cases hhandled with rfl | ⟨device, event, hid, hevent, hapt, rfl⟩
      · exact h
      · exact h.entered hid hevent hapt
    | serviceRemoved found serviceType fullname hfound => exact h.removed hfound
    | searchStarted => exact h
    | searchStopped => exact h
    | other => exact h

/-- After every call of a run the events rebuild the registry. -/
theorem always_logged {selfId : Option Text} {taken : List (ServiceBrowser × BrowserCall)}
    {final : ServiceBrowser} (run : Run Calls (new selfId) taken final) :
    Run.Always Logged taken final :=
  run.always_of (C := fun _ _ => True) (logged_new selfId)
    (fun _ _ _ hlogged _ hcall => hlogged.step hcall) fun _ _ => trivial

/-- What is resolved of a phone that listens on this port. -/
def phoneInfo (port : UInt16) : ServiceInfo :=
  { Watched.sampleService with port }.info Char.isAlphanum Watched.defaultServiceType

/-- The phone as the browser enters it. -/
def phoneAt (port : UInt16) : BrowsedDevice where
  id := Watched.sampleService.id
  name := (phoneInfo port).name
  addr := { ip := Watched.sampleService.localIp, port }
  fingerprint := Watched.sampleService.fingerprint
  platform := (phoneInfo port).platform

/-- The phone is resolved, resolved again on another port, and removed. -/
def phoneEvents : List ServiceEvent :=
  [.serviceResolved (phoneInfo 42420), .serviceResolved (phoneInfo 42421),
    .serviceRemoved Watched.defaultServiceType
      ((phoneInfo 42421).name ++ '.' :: Watched.defaultServiceType)]

theorem handleResolved_phoneInfo (port : UInt16) (hself : browser.selfId = none) :
    browser.handleResolved (phoneInfo port) = some { browser with
      peers := browser.peers.insert (phoneAt port).id (phoneAt port)
      events := browser.events ++
        [if (phoneAt port).id ∈ browser.peers then .updated (phoneAt port)
          else .discovered (phoneAt port)] } := by
  have hhead : (phoneInfo port).addressesV4.head? = some Watched.sampleService.localIp := rfl
  have hfingerprint : (phoneInfo port).fingerprint = some Watched.sampleService.fingerprint :=
    AdvertisedService.fingerprint_info ..
  simp only [handleResolved, hhead, hfingerprint, Option.bind_eq_bind, Option.bind_some, hself,
    reduceCtorEq, if_false]
  rfl

/-- The browser after each of the first two. -/
def phoneFound : ServiceBrowser where
  selfId := none
  peers := Finmap.insert (phoneAt 42420).id (phoneAt 42420) ∅
  events := [.discovered (phoneAt 42420)]

def phoneMoved : ServiceBrowser where
  selfId := none
  peers := phoneFound.peers.insert (phoneAt 42421).id (phoneAt 42421)
  events := [.discovered (phoneAt 42420), .updated (phoneAt 42421)]

theorem run_phoneEvents : ∃ taken, taken.map Prod.snd = phoneEvents.map BrowserCall.handleEvent ∧
    Run Calls (new none) taken (phoneMoved.handleRemoved (some (phoneAt 42421).id)) := by
  have hfound : (new none).handleResolved (phoneInfo 42420) = some phoneFound :=
    (handleResolved_phoneInfo 42420 rfl).trans (by simp [new, phoneFound, Finmap.notMem_empty])
  have hmoved : phoneFound.handleResolved (phoneInfo 42421) = some phoneMoved :=
    (handleResolved_phoneInfo 42421 rfl).trans (by simp [phoneMoved, phoneFound, phoneAt])
  have hnames : phoneMoved.FindsName
      ((phoneInfo 42421).name ++ '.' :: Watched.defaultServiceType)
      (some (phoneAt 42421).id) :=
    ⟨phoneAt 42421, Finmap.lookup_insert _, List.infix_append [] _ _⟩
  exact ⟨_, rfl, ((Run.refl.snoc (.handleEvent _ (.serviceResolved _ hfound))).snoc
    (.handleEvent _ (.serviceResolved _ hmoved))).snoc
      (.handleEvent _ (.serviceRemoved _ _ _ hnames))⟩

/-- The phone is discovered, updated and lost. -/
theorem always_logged_phone : ∃ taken final,
    taken.map Prod.snd = phoneEvents.map BrowserCall.handleEvent ∧
    final.events = [.discovered (phoneAt 42420), .updated (phoneAt 42421),
      .lost (phoneAt 42421).id] ∧ Run.Always Logged taken final := by
  obtain ⟨taken, hcalls, run⟩ := run_phoneEvents
  exact ⟨taken, _, hcalls, rfl, always_logged run⟩

end ServiceBrowser
end JustDrop
