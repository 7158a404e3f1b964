import JustDrop.JsonText
import JustDrop.RegistryLog
import JustDrop.Utf8

/-!
# The C interface and the apps on it

The apps keep no engine: the library holds one global state, hands out the peers it knows as
a JSON text, and takes the identifier of one of them and the paths to send as another. Calls
come from several threads; only initialisation gives up the lock on its way. Between the
listing a person sees and the tap on a device, peers come and go, and the library may be
shut down and started again under another identity.
-/
namespace JustDrop

/-- A C string, or the null pointer. -/
abbrev CText := Option Bytes

structure GlobalState where
  identity : Fingerprint
  browser : ServiceBrowser

/-- A transfer that runs in the background. -/
structure StartedTransfer where
  identity : Fingerprint
  peer : BrowsedDevice
  filePaths : List Path

/-- The directories of `entered` are those of initialisations under way. -/
structure CInterface where
  global : Option GlobalState
  preInitDataDir : Option Path
  preInitDownloadsDir : Option Path
  entered : List Path
  started : List StartedTransfer

/-- How the stages of an initialisation turn out. -/
structure InitHost where
  createDirAll : Path → Bool
  loadOrGenerate : Path → Option Fingerprint
  runtime : Bool
  registrar : Bool
  register : Bool
  startBrowsing : Bool

/-- The state that an initialisation stores, or its code. The fingerprint of the device is set
before any event of the daemon is handled. -/
def InitHost.prepare (host : InitHost) (dataDir : Path) : Except ℤ GlobalState :=
  if !host.createDirAll dataDir then .error (-1)
  else
    match host.loadOrGenerate dataDir with
    | none => .error (-2)
    | some identity =>
      if !host.runtime then .error (-3)
      else if !host.registrar then .error (-4)
      else if !host.register then .error (-5)
      else if !host.startBrowsing then .error (-6)
      else .ok { identity, browser := ServiceBrowser.new (some (deviceId identity)) }

namespace CInterface

def new : CInterface :=
  { global := none, preInitDataDir := none, preInitDownloadsDir := none, entered := []
    started := [] }

/-- A directory is taken only as UTF-8. -/
def readDir (dir : CText) : Except ℤ Path :=
  match dir with
  | none => .error (-1)
  | some bytes =>
    match Utf8.strict bytes with
    | none => .error (-2)
    | some s => .ok (Path.ofChars s)

def setDataDir (s : CInterface) (dir : CText) : ℤ × CInterface :=
  match readDir dir with
  | .error code => (code, s)
  | .ok path => (0, { s with preInitDataDir := some path })

def setDownloadsDir (s : CInterface) (dir : CText) : ℤ × CInterface :=
  match readDir dir with
  | .error code => (code, s)
  | .ok path => (0, { s with preInitDownloadsDir := some path })

/-- The argument comes before what was set, and that before the default. -/
def dataDir (s : CInterface) (defaultDir : Path) (dir : CText) : Path :=
  match dir with
  | some bytes => Path.ofChars (Utf8.lossy bytes)
  | none => s.preInitDataDir.getD defaultDir

/-- The initialisation of `dir` ends. -/
def initEnds (s : CInterface) (host : InitHost) (dir : Path) : ℤ × CInterface :=
  let s := { s with entered := s.entered.erase dir }
  match host.prepare dir with
  | .error code => (code, s)
  | .ok state => (0, { s with global := some state })

def shutdown (s : CInterface) : ℤ × CInterface := (0, { s with global := none })

/-- The members of a peer, in the order of their keys. -/
def peerObject (showAddr : SocketAddr → Text) (device : BrowsedDevice) : List Json.Member :=
  [("addr".toList, showAddr device.addr),
    ("fingerprint".toList, hexEncode device.fingerprint.toList),
    ("id".toList, device.id),
    ("name".toList, device.name),
    ("platform".toList, platformProperty device.platform)]

/-- `devices` are the peers of the running browser, in the order the table gives them. -/
def Lists (s : CInterface) (devices : List BrowsedDevice) : Prop :=
  match s.global with
  | none => devices = []
  | some state => ∃ entries : List (Sigma fun _ : Text => BrowsedDevice),
      (entries : Multiset (Sigma fun _ : Text => BrowsedDevice)) = state.browser.peers.entries ∧
        devices = entries.map Sigma.snd

/-- A text with a NUL has no C string and becomes the empty one. -/
def cString (bytes : Bytes) : Bytes := if 0 ∈ bytes then [] else bytes

def getPeers (s : CInterface) (showAddr : SocketAddr → Text) (devices : List BrowsedDevice) :
    Bytes :=
  match s.global with
  | none => Utf8.encode "[]".toList
  | some _ => cString (Utf8.encode (Json.writeObjects false (devices.map (peerObject showAddr))))

def sendFiles (s : CInterface) (peerId pathsJson : CText) : ℤ × CInterface :=
  match peerId, pathsJson with
  | some peerId, some pathsJson =>
    match Json.readStrings true (Utf8.lossy pathsJson) with
    | none => (-2, s)
    | some paths =>
      match s.global with
      | none => (-3, s)
      | some state =>
        match state.browser.peers.lookup (Utf8.lossy peerId) with
        | none => (-4, s)
        | some peer =>
          let transfer := { identity := state.identity, peer, filePaths := paths.map Path.ofChars }
          (0, { s with started := s.started ++ [transfer] })
  | _, _ => (-1, s)

/-- What happens at the interface: calls with what they return, and the events of the daemon. -/
inductive Event where
  | setDataDir (dir : CText) (code : ℤ)
  | setDownloadsDir (dir : CText) (code : ℤ)
  | initEnters (dir : CText)
  | initRunning (dir : CText)
  | initEnds (host : InitHost) (code : ℤ)
  | shutdown (code : ℤ)
  | getPeers (text : Bytes)
  | sendFiles (peerId pathsJson : CText) (code : ℤ)
  | discovery (event : ServiceEvent)

/-- One step. A call that does not return makes none; the calls that do nothing and return
zero are left out. -/
inductive Step (showAddr : SocketAddr → Text) (defaultDir : Path) (s : CInterface) :
    Event → CInterface → Prop
  | setDataDir (dir) : Step showAddr defaultDir s
      (.setDataDir dir (s.setDataDir dir).1) (s.setDataDir dir).2
  | setDownloadsDir (dir) : Step showAddr defaultDir s
      (.setDownloadsDir dir (s.setDownloadsDir dir).1) (s.setDownloadsDir dir).2
  | initEnters (dir) (h : s.global = none) : Step showAddr defaultDir s (.initEnters dir)
      { s with entered := s.dataDir defaultDir dir :: s.entered }
  | initRunning (dir) (h : s.global ≠ none) : Step showAddr defaultDir s (.initRunning dir) s
  | initEnds (host dir) (h : dir ∈ s.entered) : Step showAddr defaultDir s
      (.initEnds host (s.initEnds host dir).1) (s.initEnds host dir).2
  | shutdown : Step showAddr defaultDir s (.shutdown s.shutdown.1) s.shutdown.2
  | getPeers {devices} (h : s.Lists devices) : Step showAddr defaultDir s
      (.getPeers (s.getPeers showAddr devices)) s
  | sendFiles (peerId pathsJson) : Step showAddr defaultDir s
      (.sendFiles peerId pathsJson (s.sendFiles peerId pathsJson).1) (s.sendFiles peerId pathsJson).2
  | discovery {state browser} (event) (hglobal : s.global = some state)
      (h : ServiceBrowser.Calls state.browser (.handleEvent event) browser) :
      Step showAddr defaultDir s (.discovery event)
        { s with global := some { state with browser } }

end CInterface

/-! ### The app -/

structure DeviceUiModel where
  deviceId : Text
  name : Text
  platform : Text
  address : Option Text
  presence : Text
  trust : Text
  rssi : Option ℤ
  deriving DecidableEq

namespace DeviceUiModel

/-- The value of a key; one given twice has the later value. -/
def getField (key : String) (object : List Json.Member) : Option Text :=
  object.reverse.lookup key.toList

def ofObject (object : List Json.Member) : Option DeviceUiModel := do
  let deviceId ← getField "id" object
  let name ← getField "name" object
  pure {
    deviceId, name, platform := (getField "platform" object).getD "Unknown".toList
    address := getField "addr" object, presence := "Available".toList, trust := "Unknown".toList
    rssi := none }

/-- An object without identifier or name empties the whole list. -/
def parsePeers (json : Option Text) : List DeviceUiModel :=
  match json with
  | none => []
  | some text =>
    if text = [] ∨ text = "[]".toList then []
    else ((Json.readObjects false text).bind fun objects => objects.mapM ofObject).getD []

/-- A device as the app shows it. -/
def ofDevice (showAddr : SocketAddr → Text) (device : BrowsedDevice) : DeviceUiModel :=
  { deviceId := device.id, name := device.name, platform := platformProperty device.platform
    address := some (showAddr device.addr), presence := "Available".toList
    trust := "Unknown".toList, rssi := none }

end DeviceUiModel

/-- The bytes of a Java string for C. Without NULs and characters beyond sixteen bits, which
have spellings of their own, they are UTF-8. -/
def ModifiedUtf8 (utfChars : Text → Bytes) : Prop :=
  ∀ s, (∀ c ∈ s, c.toNat ≠ 0 ∧ c.toNat < 0x10000) → utfChars s = Utf8.encode s

namespace JustBridge

/-- The bytes that the library hands out, as a Java string. -/
def getPeers (bytes : Bytes) : Option Text := some (Utf8.lossy bytes)

def sendFiles (utfChars : Text → Bytes) (s : CInterface) (peerId pathsJson : Text) :
    ℤ × CInterface :=
  s.sendFiles (some (utfChars peerId)) (some (utfChars pathsJson))

end JustBridge

/-- The activity that shares files sends them to a device of its list. -/
def ComposeShareActivity.sendFiles (utfChars : Text → Bytes) (s : CInterface) (peerId : Text)
    (pendingFiles : List Text) : ℤ × CInterface :=
  JustBridge.sendFiles utfChars s peerId (Json.writeStrings true pendingFiles)

/-! ### What every run keeps -/

/-- The browser files its devices right, and knows and ignores this one. -/
structure GlobalState.Sound (state : GlobalState) : Prop where
  logged : state.browser.Logged
  selfId : state.browser.selfId = some (deviceId state.identity)
  foreign : deviceId state.identity ∉ state.browser.peers

theorem GlobalState.Sound.ne_own {state : GlobalState} (h : state.Sound) {id : Text}
    {peer : BrowsedDevice} (hpeer : state.browser.peers.lookup id = some peer) :
    id ≠ deviceId state.identity ∧ peer.id = id := by
  refine ⟨?_, (h.logged.keyed _ _ hpeer).1.symm⟩
  rintro rfl
  exact h.foreign (Finmap.mem_of_lookup_eq_some hpeer)

namespace CInterface
variable {showAddr : SocketAddr → Text} {defaultDir : Path} {s s' : CInterface}

/-- Nothing was sent to the device itself. -/
structure Sound (s : CInterface) : Prop where
  global : ∀ state, s.global = some state → GlobalState.Sound state
  started : ∀ transfer ∈ s.started, transfer.peer.id ≠ deviceId transfer.identity

theorem sound_new : new.Sound where
  global _ h := by cases h
  started _ h := absurd h List.not_mem_nil

theorem sound_prepare {host : InitHost} {dir : Path} {state : GlobalState}
    (h : host.prepare dir = .ok state) : GlobalState.Sound state := by
  rw [InitHost.prepare] at h
  cases hidentity : host.loadOrGenerate dir with
  | none =>
    simp only [hidentity] at h
    split_ifs at h
  | some identity =>
    simp only [hidentity] at h
    split_ifs at h
    obtain rfl := Except.ok.inj h
    exact ⟨ServiceBrowser.logged_new _, rfl, Finmap.notMem_empty⟩

/-- No event enters the device itself. -/
theorem foreign_of_calls {browser browser' : ServiceBrowser} {event : ServiceEvent} {id : Text}
    (hself : browser.selfId = some id) (hforeign : id ∉ browser.peers)
    (h : ServiceBrowser.Calls browser (.handleEvent event) browser') :
    browser'.selfId = some id ∧ id ∉ browser'.peers := by
  cases h with
  | handlePanics => exact ⟨hself, hforeign⟩
  | handleEvent _ hstep =>
    cases hstep with
    | serviceResolved info hhandled =>
      unfold ServiceBrowser.handleResolved at hhandled
      split at hhandled
      · obtain rfl := Option.some.inj hhandled
        exact ⟨hself, hforeign⟩
      · simp only [Option.bind_eq_bind, Option.bind_eq_some_iff] at hhandled
        obtain ⟨fingerprint, -, hhandled⟩ := hhandled
        split_ifs at hhandled with hown
        · obtain rfl := Option.some.inj hhandled
          exact ⟨hself, hforeign⟩
        all_goals
          obtain rfl := Option.some.inj hhandled
          refine ⟨hself, fun hmem => ?_⟩
          rcases Finmap.mem_insert.mp hmem with rfl | hbefore
          · exact hown hself
          · exact hforeign hbefore
    | serviceRemoved found serviceType fullname hfound =>
      cases found with
      | none => exact ⟨hself, hforeign⟩
      | some other => exact ⟨hself, fun hmem => hforeign (Finmap.mem_erase.mp hmem).2⟩
    | searchStarted => exact ⟨hself, hforeign⟩
    | searchStopped => exact ⟨hself, hforeign⟩
    | other => exact ⟨hself, hforeign⟩

/-- What a call to send files comes to. -/
theorem sendFiles_cases (s : CInterface) (peerId pathsJson : CText) :
    (s.sendFiles peerId pathsJson).2 = s ∨ ∃ state id peer filePaths, s.global = some state ∧
      state.browser.peers.lookup id = some peer ∧ (s.sendFiles peerId pathsJson).2 =
        { s with started := s.started ++ [{ identity := state.identity, peer, filePaths }] } := by
  unfold sendFiles
  split
  · split
    · exact Or.inl rfl
    · split
      · exact Or.inl rfl
      · rename_i state hglobal
        split
        · exact Or.inl rfl
        · rename_i peer hpeer
          exact Or.inr ⟨state, _, peer, _, hglobal, hpeer, rfl⟩
  · exact Or.inl rfl

theorem Sound.step {event : Event} (h : s.Sound) (hstep : Step showAddr defaultDir s event s') :
    s'.Sound := by
  cases hstep with
  | setDataDir dir =>
    unfold CInterface.setDataDir
    split
    · exact h
    · exact ⟨h.global, h.started⟩
  | setDownloadsDir dir =>
    unfold CInterface.setDownloadsDir
    split
    · exact h
    · exact ⟨h.global, h.started⟩
  | initEnters dir hnone => exact ⟨h.global, h.started⟩
  | initRunning => exact h
  | initEnds host dir hentered =>
    unfold CInterface.initEnds
    simp only
    split
    · exact ⟨h.global, h.started⟩
    · rename_i state hprepared
      refine ⟨fun other hother => ?_, h.started⟩
      obtain rfl := Option.some.inj hother
      exact sound_prepare hprepared
  | shutdown => exact ⟨fun _ hnone => (nomatch hnone), h.started⟩
  | getPeers => exact h
  | sendFiles peerId pathsJson =>
    rcases sendFiles_cases s peerId pathsJson with
      hsame | ⟨state, id, peer, paths, hglobal, hpeer, hs'⟩
    · rw [hsame]
      exact h
    · rw [hs']
      refine ⟨h.global, ?_⟩
      rw [List.forall_mem_append, List.forall_mem_singleton]
      obtain ⟨hne, hid⟩ := (h.global state hglobal).ne_own hpeer
      exact ⟨h.started, fun hown => hne (hid.symm.trans hown)⟩
  | discovery event hglobal hcalls =>
    refine ⟨fun other hother => ?_, h.started⟩
    obtain rfl := Option.some.inj hother
    have hsound := h.global _ hglobal
    obtain ⟨hself, hforeign⟩ := foreign_of_calls hsound.selfId hsound.foreign hcalls
    exact ⟨hsound.logged.step hcalls, hself, hforeign⟩

theorem sound_of_run {start : CInterface} {taken : List (CInterface × Event)} (h : start.Sound)
    (run : Run (Step showAddr defaultDir) start taken s) : s.Sound :=
  (run.always_of (C := fun _ _ => True) h (fun _ _ _ hs _ hstep => hs.step hstep)
    fun _ _ => trivial).2

/-! ### From a listing to a transfer -/

/-- What is handed out is the JSON text of the listed peers. -/
theorem lossy_getPeers {devices : List BrowsedDevice} (h : s.Lists devices) :
    Utf8.lossy (s.getPeers showAddr devices) =
      Json.writeObjects false (devices.map (peerObject showAddr)) := by
  unfold getPeers
  unfold Lists at h
  cases hglobal : s.global with
  | none =>
    simp only [hglobal] at h
    rw [h]
    exact Utf8.lossy_encode _
  | some state =>
    have hzero : 0 ∉ Utf8.encode
        (Json.writeObjects false (devices.map (peerObject showAddr))) := by
      refine Utf8.zero_notMem_encode fun c hc hnul => ?_
      have hcontrol : Json.IsControl c := by
        unfold Json.IsControl
        omega
      exact Json.forall_mem_writeObjects _ _ c hc hcontrol
    simp only [cString, if_neg hzero, Utf8.lossy_encode]

/-- The listed devices, each under its own identifier and none twice. -/
theorem Sound.lists (h : s.Sound) {devices : List BrowsedDevice} (hlists : s.Lists devices) :
    (devices.map BrowsedDevice.id).Nodup ∧ ∀ device ∈ devices, ∃ state,
      s.global = some state ∧ state.browser.peers.lookup device.id = some device := by
  unfold Lists at hlists
  cases hglobal : s.global with
  | none =>
    simp only [hglobal] at hlists
    subst hlists
    exact ⟨List.nodup_nil, fun _ hdevice => absurd hdevice List.not_mem_nil⟩
  | some state =>
    simp only [hglobal] at hlists
    obtain ⟨entries, hentries, rfl⟩ := hlists
    have hlookup : ∀ entry ∈ entries, state.browser.peers.lookup entry.1 = some entry.2 := by
      intro entry hentry
      rw [Finmap.lookup_eq_some_iff, ← hentries]
      exact Multiset.mem_coe.mpr hentry
    have hkeyed : ∀ entry ∈ entries, entry.2.id = entry.1 := fun entry hentry =>
      ((h.global state hglobal).logged.keyed _ _ (hlookup entry hentry)).1.symm
    constructor
    · have hkeys : (entries.map Sigma.fst).Nodup := by
        have hnodup := state.browser.peers.nodupKeys
        rw [← hentries] at hnodup
        exact Multiset.coe_nodupKeys.mp hnodup
      have hids : entries.map (BrowsedDevice.id ∘ Sigma.snd) = entries.map Sigma.fst :=
        List.map_congr_left hkeyed
      rw [List.map_map, hids]
      exact hkeys
    · intro device hdevice
      obtain ⟨entry, hentry, rfl⟩ := List.mem_map.mp hdevice
      refine ⟨state, rfl, ?_⟩
      rw [hkeyed entry hentry]
      exact hlookup entry hentry

end CInterface

theorem DeviceUiModel.ofObject_peerObject (showAddr : SocketAddr → Text)
    (device : BrowsedDevice) :
    ofObject (CInterface.peerObject showAddr device) = some (ofDevice showAddr device) := rfl

/-- The app shows what the library lists. -/
theorem DeviceUiModel.parsePeers_writeObjects (showAddr : SocketAddr → Text)
    (devices : List BrowsedDevice) :
    parsePeers (some (Json.writeObjects false (devices.map (CInterface.peerObject showAddr)))) =
      devices.map (ofDevice showAddr) := by
  have hread := Json.readObjects_writeObjects false false
    (devices.map (CInterface.peerObject showAddr))
  have hmodels : (devices.map (CInterface.peerObject showAddr)).mapM ofObject =
      some (devices.map (ofDevice showAddr)) := by
    induction devices with
    | nil => rfl
    | cons device devices ih =>
      rw [List.map_cons, List.mapM_cons, ofObject_peerObject,
        ih (Json.readObjects_writeObjects false false _)]
      rfl
  unfold parsePeers
  simp only
  split_ifs with hempty
  · -- an empty text reads as nothing, and the brackets alone as an empty list
    have hnone : devices.map (CInterface.peerObject showAddr) = [] := by
      rcases hempty with hnil | hbrackets
      · have hnothing : Json.readObjects false [] = none := by decide
        rw [hnil, hnothing] at hread
        cases hread
      · have hlist : Json.readObjects false "[]".toList = some [] := by decide
        rw [hbrackets, hlist] at hread
        exact (Option.some.inj hread).symm
    rw [List.map_eq_nil_iff.mp hnone, List.map_nil]
  · rw [hread, Option.bind_some, hmodels, Option.getD_some]

section Tapping
variable {utfChars : Text → Bytes} (hutf : ModifiedUtf8 utfChars)
include hutf

theorem lossy_utfChars {s : Text} (h : ∀ c ∈ s, c.toNat ≠ 0 ∧ c.toNat < 0x10000) :
    Utf8.lossy (utfChars s) = s := by
  rw [hutf s h, Utf8.lossy_encode]

/-- Identifiers are made of digits. -/
theorem lossy_utfChars_deviceId (fingerprint : Fingerprint) :
    Utf8.lossy (utfChars (deviceId fingerprint)) = deviceId fingerprint := by
  have hdigits : ∀ b : Fin 256,
      (Peer.hex 2 b.val).all (fun c => c.toNat ≠ 0 ∧ c.toNat < 0x10000) = true := by decide +kernel
  refine lossy_utfChars hutf fun c hc => ?_
  obtain ⟨b, -, hdigit⟩ := List.mem_flatMap.mp hc
  simpa using List.all_eq_true.mp (hdigits ⟨b.toNat, b.toNat_lt⟩) c hdigit

/-- Paths without characters beyond sixteen bits arrive as they are. -/
theorem readStrings_utfChars {files : List Text} (h : ∀ file ∈ files, ∀ c ∈ file, c.toNat < 0x10000) :
    Json.readStrings true (Utf8.lossy (utfChars (Json.writeStrings true files))) = some files := by
  have hchars : ∀ c ∈ Json.writeStrings true files, c.toNat ≠ 0 ∧ c.toNat < 0x10000 := by
    refine Json.forall_mem_writeStrings (fun c hc => ?_) fun file hfile c hc hcontrol => ?_
    · unfold Json.IsPlain Json.IsControl at hc
      omega
    · have hlt := h file hfile c hc
      unfold Json.IsControl at hcontrol
      omega
  rw [lossy_utfChars hutf hchars, Json.readStrings_writeStrings]

end Tapping

namespace CInterface

/-- What comes of a tap on a device that was listed: the library has been shut down, or the
device is gone, or the files are on their way, in the name of the present identity, to a
device with the same first eight bytes of fingerprint. -/
inductive Reaches (s : CInterface) (device : BrowsedDevice) (files : List Text) :
    ℤ × CInterface → Prop
  | notRunning (h : s.global = none) : Reaches s device files (-3, s)
  | notFound {state} (hglobal : s.global = some state) (h : device.id ∉ state.browser.peers) :
      Reaches s device files (-4, s)
  | starts {state peer} (hglobal : s.global = some state)
      (hpeer : state.browser.peers.lookup device.id = some peer)
      (hown : peer.id ≠ deviceId state.identity)
      (hsame : peer.fingerprint.toList.take 8 = device.fingerprint.toList.take 8) :
      Reaches s device files (0, { s with
        started := s.started ++ [{ identity := state.identity, peer
                                   filePaths := files.map Path.ofChars }] })

theorem Sound.reaches (h : s.Sound) {device : BrowsedDevice} {files : List Text}
    {peerId pathsJson : Bytes} (hid : device.id = deviceId device.fingerprint)
    (hpeerId : Utf8.lossy peerId = device.id)
    (hread : Json.readStrings true (Utf8.lossy pathsJson) = some files) :
    Reaches s device files (s.sendFiles (some peerId) (some pathsJson)) := by
  rcases Option.eq_none_or_eq_some s.global with hnone | ⟨state, hglobal⟩
  · have hsent : s.sendFiles (some peerId) (some pathsJson) = (-3, s) := by
      simp only [sendFiles, hread, hnone]
    rw [hsent]
    exact .notRunning hnone
  · have hsearch : state.browser.peers.lookup (Utf8.lossy peerId) =
        state.browser.peers.lookup device.id := by rw [hpeerId]
    rcases Option.eq_none_or_eq_some (state.browser.peers.lookup device.id) with
      hnone | ⟨peer, hpeer⟩
    · have hsent : s.sendFiles (some peerId) (some pathsJson) = (-4, s) := by
        simp only [sendFiles, hread, hglobal, hsearch.trans hnone]
      rw [hsent]
      exact .notFound hglobal (Finmap.lookup_eq_none.mp hnone)
    · have hsent : s.sendFiles (some peerId) (some pathsJson) = (0, { s with
            started := s.started ++ [{ identity := state.identity, peer
                                       filePaths := files.map Path.ofChars }] }) := by
        simp only [sendFiles, hread, hglobal, hsearch.trans hpeer]
      have hsound := h.global state hglobal
      obtain ⟨hne, hsame⟩ := hsound.ne_own hpeer
      rw [hsent]
      refine .starts hglobal hpeer (fun hown => hne (hsame.symm.trans hown)) ?_
      apply hexEncode_injective
      exact (hsound.logged.keyed _ _ hpeer).2.symm.trans (hsame.trans hid)

/-- The app shows each listed device once and the device itself never; and whatever has
happened since, a tap on one of them does what the person saw, or nothing at all. -/
theorem reaches_of_listed (showAddr : SocketAddr → Text) (defaultDir : Path)
    {utfChars : Text → Bytes} (hutf : ModifiedUtf8 utfChars)
    {taken : List (CInterface × Event)} {s : CInterface}
    (run : Run (Step showAddr defaultDir) new taken s)
    {devices : List BrowsedDevice} (hlists : s.Lists devices)
    {later : List (CInterface × Event)} {s' : CInterface}
    (rest : Run (Step showAddr defaultDir) s later s') :
    DeviceUiModel.parsePeers (JustBridge.getPeers (s.getPeers showAddr devices)) =
        devices.map (DeviceUiModel.ofDevice showAddr) ∧
      (devices.map BrowsedDevice.id).Nodup ∧
      (∀ device ∈ devices, ∃ state, s.global = some state ∧
        device.id ≠ deviceId state.identity) ∧
      ∀ device ∈ devices, ∀ files : List Text, (∀ file ∈ files, ∀ c ∈ file, c.toNat < 0x10000) →
        Reaches s' device files
          (ComposeShareActivity.sendFiles utfChars s' device.id files) := by
  have hsound := sound_of_run sound_new run
  obtain ⟨hnodup, hlisted⟩ := hsound.lists hlists
  refine ⟨?_, hnodup, fun device hdevice => ?_, fun device hdevice files hfiles => ?_⟩
  · rw [JustBridge.getPeers, lossy_getPeers hlists]
    exact DeviceUiModel.parsePeers_writeObjects showAddr devices
  · obtain ⟨state, hglobal, hlookup⟩ := hlisted device hdevice
    exact ⟨state, hglobal, ((hsound.global state hglobal).ne_own hlookup).1⟩
  · obtain ⟨state, hglobal, hlookup⟩ := hlisted device hdevice
    have hid := ((hsound.global state hglobal).logged.keyed _ _ hlookup).2
    have hpeerId : Utf8.lossy (utfChars device.id) = device.id := by
      rw [hid]
      exact lossy_utfChars_deviceId hutf _
    exact (sound_of_run hsound rest).reaches hid hpeerId (readStrings_utfChars hutf hfiles)

end CInterface

/-- A NUL takes two bytes, and a character beyond sixteen bits three for each half of its
surrogate pair. -/
def modifiedUtf8Char (c : Char) : Bytes :=
  let unit (n : ℕ) : Bytes :=
    [UInt8.ofNat (n / 0x1000 + 0xE0), UInt8.ofNat (n / 0x40 % 0x40 + 0x80),
      UInt8.ofNat (n % 0x40 + 0x80)]
  if c.toNat = 0 then [0xC0, 0x80]
  else if c.toNat < 0x10000 then String.utf8EncodeChar c
  else unit (0xD800 + (c.toNat - 0x10000) / 0x400) ++ unit (0xDC00 + (c.toNat - 0x10000) % 0x400)

theorem modifiedUtf8_flatMap : ModifiedUtf8 fun s => s.flatMap modifiedUtf8Char := by
  intro s h
  refine List.flatMap_congr fun c hc => ?_
  simp only [modifiedUtf8Char, if_neg (h c hc).1, if_pos (h c hc).2]

namespace CInterface

/-- A library that has just started, under a fingerprint of ones. -/
def justStarted : GlobalState :=
  { identity := Vector.replicate 32 1
    browser := ServiceBrowser.new (some (deviceId (Vector.replicate 32 1))) }

def workingHost : InitHost where
  createDirAll _ := true
  loadOrGenerate _ := some (Vector.replicate 32 1)
  runtime := true
  registrar := true
  register := true
  startBrowsing := true

/-- The same, when a phone has been found. -/
def phoneListed (device : BrowsedDevice) (events : List PeerEvent) : CInterface :=
  { new with
    global := some { justStarted with
      browser := { justStarted.browser with
        peers := justStarted.browser.peers.insert Watched.sampleService.id device, events } } }

theorem run_justStarted : ∃ taken, Run (Step (fun _ => []) ⟨true, [], false⟩) new taken
    { new with global := some justStarted } := by
  have hentered : Run (Step (fun _ => []) ⟨true, [], false⟩) new [(new, .initEnters none)]
      { new with entered := [⟨true, [], false⟩] } := .snoc .refl (.initEnters none rfl)
  exact ⟨_, hentered.snoc (.initEnds workingHost ⟨true, [], false⟩ (List.mem_cons_self ..))⟩

theorem reaches_of_listed_phone : ∃ s device, s.Lists [device] ∧
    DeviceUiModel.parsePeers (JustBridge.getPeers (s.getPeers (fun _ => []) [device])) =
      [DeviceUiModel.ofDevice (fun _ => []) device] ∧
    Reaches s device [['/', 'a']] (ComposeShareActivity.sendFiles
      (fun s => s.flatMap modifiedUtf8Char) s device.id [['/', 'a']]) := by
  obtain ⟨taken, run⟩ := run_justStarted
  obtain ⟨device, events, -, hhandled⟩ := Watched.sampleService.handleResolved_info
    Char.isAlphanum Watched.defaultServiceType justStarted.browser (by decide)
  have hfound : Run (Step (fun _ => []) ⟨true, [], false⟩) new _ (phoneListed device events) :=
    run.snoc (.discovery _ rfl (.handleEvent _ (.serviceResolved _ hhandled)))
  have hlists : (phoneListed device events).Lists [device] :=
    ⟨[⟨Watched.sampleService.id, device⟩], rfl, rfl⟩
  have hreached := reaches_of_listed (fun _ => []) ⟨true, [], false⟩ modifiedUtf8_flatMap hfound hlists
    .refl
  have hchars : ∀ file ∈ [['/', 'a']], ∀ c ∈ file, c.toNat < 0x10000 := by simp
  exact ⟨_, device, hlists, hreached.1, hreached.2.2.2 device (List.mem_singleton_self device)
    [['/', 'a']] hchars⟩

end CInterface
end JustDrop
