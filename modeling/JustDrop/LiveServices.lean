import JustDrop.Registry
import Mathlib.Data.Set.Insert

/-!
# Live services and the registry

A service is live when the last event about it was that it was resolved. The
registry holds the live services in every run exactly when the name that a removal
gives names the entry of that service and of no other. With the service type of the
program it hardly ever names any.
-/
namespace JustDrop

/-- An event about a registered service. -/
inductive ServiceChange where
  | resolved (service : AdvertisedService)
  | removed (service : AdvertisedService)

namespace ServiceChange

def service : ServiceChange → AdvertisedService
  | resolved service => service
  | removed service => service

/-- The event that the browser gets. -/
def event (isAlphanumeric : Char → Bool) (serviceType : Text) : ServiceChange → ServiceEvent
  | resolved service => .serviceResolved (service.info isAlphanumeric serviceType)
  | removed service =>
    .serviceRemoved serviceType (service.info isAlphanumeric serviceType).fullname

/-- The services that are live after the event. -/
def live (services : Set AdvertisedService) : ServiceChange → Set AdvertisedService
  | resolved service => insert service services
  | removed service => services \ {service}

end ServiceChange

/-- No two services share an instance name or the first eight bytes of a fingerprint. -/
structure DistinctServices (services : Set AdvertisedService) : Prop where
  names : ∀ service ∈ services, ∀ other ∈ services,
    service.instanceName = other.instanceName → service = other
  fingerprints : ∀ service ∈ services, ∀ other ∈ services,
    service.fingerprint.toList.take 8 = other.fingerprint.toList.take 8 → service = other

theorem DistinctServices.eq_of_id {services : Set AdvertisedService} (h : DistinctServices services)
    {service other : AdvertisedService} (hservice : service ∈ services) (hother : other ∈ services)
    (hid : service.id = other.id) : service = other :=
  h.fingerprints service hservice other hother (hexEncode_injective hid)

/-- The browser, and the services that are live. -/
abbrev Watched := ServiceBrowser × Set AdvertisedService

namespace Watched

/-- A browser that has seen no event. -/
def start (selfId : Option Text) : Watched := ({ selfId, peers := ∅, events := [] }, ∅)

section
variable (isAlphanumeric : Char → Bool) (serviceType : Text) (services : Set AdvertisedService)

/-- An event about one of the services. -/
def Follow (state : Watched) (change : ServiceChange) (state' : Watched) : Prop :=
  change.service ∈ services ∧
    ServiceBrowser.Step state.1 (change.event isAlphanumeric serviceType) state'.1 ∧
    state'.2 = change.live state.2

/-- The registry has an entry for a service exactly when it is live. -/
def Tracks (state : Watched) : Prop :=
  ∀ service ∈ services, service.id ∈ state.1.peers ↔ service ∈ state.2

/-- A removal leaves the entries of the other services. -/
def Spares (state : Watched) (change : ServiceChange) (state' : Watched) : Prop :=
  ∀ removed, change = .removed removed → ∀ service ∈ services, service ≠ removed →
    service.id ∈ state.1.peers → service.id ∈ state'.1.peers

/-- The removal of the one service names the entry of the other. -/
def Names (service other : AdvertisedService) : Prop :=
  (other.info isAlphanumeric serviceType).name <:+:
    (service.info isAlphanumeric serviceType).fullname

/-- Entries are those of services, and the browser's own identifier is of none. -/
structure Entered (state : Watched) : Prop where
  selfId : ∀ service ∈ services, state.1.selfId ≠ some service.id
  entries : ∀ id device, state.1.peers.lookup id = some device → ∃ service ∈ services,
    id = service.id ∧ device.name = (service.info isAlphanumeric serviceType).name

end

variable {isAlphanumeric : Char → Bool} {serviceType : Text} {services : Set AdvertisedService}
  {state state' : Watched}

theorem entered_start (isAlphanumeric : Char → Bool) (serviceType : Text) {selfId : Option Text}
    (hself : ∀ service ∈ services, selfId ≠ some service.id) :
    Entered isAlphanumeric serviceType services (start selfId) :=
  ⟨hself, fun id device hlookup => by simp [start] at hlookup⟩

theorem tracks_start (services : Set AdvertisedService) (selfId : Option Text) :
    Tracks services (start selfId) := by
  intro service _
  exact iff_of_false Finmap.notMem_empty (Set.notMem_empty service)

theorem Entered.resolved (h : Entered isAlphanumeric serviceType services state)
    (hdistinct : DistinctServices services) (htracks : Tracks services state)
    {service : AdvertisedService} (hservice : service ∈ services)
    (hstep : Follow isAlphanumeric serviceType services state (.resolved service) state') :
    Entered isAlphanumeric serviceType services state' ∧ Tracks services state' := by
  obtain ⟨-, hbrowser, hlive⟩ := hstep
  obtain ⟨device, events, hname, hhandled⟩ :=
    service.handleResolved_info isAlphanumeric serviceType state.1 (h.selfId service hservice)
  rw [ServiceChange.event, ServiceBrowser.step_serviceResolved_iff, hhandled,
    Option.some.injEq] at hbrowser
  refine ⟨⟨?_, fun id entry hlookup => ?_⟩, fun other hother => ?_⟩
  · rw [← hbrowser]
    exact h.selfId
  · rw [← hbrowser] at hlookup
    by_cases hid : id = service.id
    · rw [hid, Finmap.lookup_insert, Option.some.injEq] at hlookup
      exact ⟨service, hservice, hid, hlookup ▸ hname⟩
    · rw [Finmap.lookup_insert_of_ne _ hid] at hlookup
      exact h.entries id entry hlookup
  · rw [← hbrowser, hlive, Finmap.mem_insert, htracks other hother]
    show _ ↔ other ∈ insert service state.2
    rw [Set.mem_insert_iff]
    refine or_congr_left ⟨fun hid => hdistinct.eq_of_id hother hservice hid, fun heq => ?_⟩
    rw [heq]

theorem Entered.removed (h : Entered isAlphanumeric serviceType services state)
    (hdistinct : DistinctServices services) (htracks : Tracks services state)
    {service : AdvertisedService} (hservice : service ∈ services)
    (hnames : ∀ other ∈ services, Names isAlphanumeric serviceType service other ↔ service = other)
    (hstep : Follow isAlphanumeric serviceType services state (.removed service) state') :
    Entered isAlphanumeric serviceType services state' ∧ Tracks services state' := by
  obtain ⟨-, hbrowser, hlive⟩ := hstep
  have hremoved : ∀ other, other ∈ state'.2 ↔ other ∈ state.2 ∧ other ≠ service := fun other => by
    rw [hlive]
    exact Set.mem_sdiff_singleton
  rw [ServiceChange.event, ServiceBrowser.step_serviceRemoved_iff] at hbrowser
  obtain ⟨found, hfound, hbrowser⟩ := hbrowser
  cases found with
  | none =>
    have hgone : service.id ∉ state.1.peers := by
      intro hmem
      obtain ⟨device, hlookup⟩ := Finmap.mem_iff.mp hmem
      obtain ⟨other, hother, hid, hname⟩ := h.entries service.id device hlookup
      obtain rfl := hdistinct.eq_of_id hservice hother hid
      exact hfound service.id device hlookup (hname ▸ (hnames service hservice).mpr rfl)
    have hsame : state'.1 = state.1 := hbrowser
    refine ⟨⟨hsame ▸ h.selfId, hsame ▸ h.entries⟩, fun other hother => ?_⟩
    rw [hsame, hremoved, ← htracks other hother]
    refine ⟨fun hmem => ⟨hmem, ?_⟩, fun hboth => hboth.1⟩
    rintro rfl
    exact hgone hmem
  | some id =>
    obtain ⟨device, hlookup, hcontains⟩ := hfound
    obtain ⟨other, hother, rfl, hname⟩ := h.entries id device hlookup
    have hnamed : Names isAlphanumeric serviceType service other := by
      rw [Names, ← hname]
      exact hcontains
    obtain rfl := (hnames other hother).mp hnamed
    have hpeers : state'.1.peers = state.1.peers.erase service.id := by rw [hbrowser]; rfl
    have hself : state'.1.selfId = state.1.selfId := by rw [hbrowser]; rfl
    refine ⟨⟨hself ▸ h.selfId, fun id entry hentry => ?_⟩, fun other hother => ?_⟩
    · rw [hpeers] at hentry
      by_cases hid : id = service.id
      · rw [hid, Finmap.lookup_erase] at hentry
        exact absurd hentry (by simp)
      · rw [Finmap.lookup_erase_ne hid] at hentry
        exact h.entries id entry hentry
    · rw [hpeers, Finmap.mem_erase, hremoved, htracks other hother, and_comm]
      refine and_congr_right fun _ => not_congr ⟨fun hid => ?_, fun heq => ?_⟩
      · exact hdistinct.eq_of_id hother hservice hid
      · rw [heq]

theorem Entered.follow (h : Entered isAlphanumeric serviceType services state)
    (hdistinct : DistinctServices services) (htracks : Tracks services state)
    (hnames : ∀ service ∈ services, ∀ other ∈ services,
      Names isAlphanumeric serviceType service other ↔ service = other)
    {change : ServiceChange}
    (hstep : Follow isAlphanumeric serviceType services state change state') :
    Entered isAlphanumeric serviceType services state' ∧ Tracks services state' := by
  cases change with
  | resolved service => exact h.resolved hdistinct htracks hstep.1 hstep
  | removed service => exact h.removed hdistinct htracks hstep.1 (hnames service hstep.1) hstep

/-- A removal that keeps the registry right leaves the entries of the others. -/
theorem spares_of_tracks {change : ServiceChange} (htracks : Tracks services state)
    (htracks' : Tracks services state')
    (hstep : Follow isAlphanumeric serviceType services state change state') :
    Spares services state change state' := by
  rintro removed rfl service hservice hne hmem
  rw [htracks' service hservice, hstep.2.2]
  exact Set.mem_sdiff_singleton.mpr ⟨(htracks service hservice).mp hmem, hne⟩

/-- After its service was resolved, a fresh browser has one entry. -/
theorem exists_resolved (isAlphanumeric : Char → Bool) (serviceType : Text)
    {selfId : Option Text} {service : AdvertisedService}
    (hservice : service ∈ services) (hself : selfId ≠ some service.id) :
    ∃ browser device, Follow isAlphanumeric serviceType services (start selfId)
        (.resolved service) (browser, {service}) ∧
      browser.peers = Finmap.singleton service.id device ∧
      device.name = (service.info isAlphanumeric serviceType).name := by
  obtain ⟨device, events, hname, hhandled⟩ :=
    service.handleResolved_info isAlphanumeric serviceType (start selfId).1 hself
  refine ⟨_, device, ⟨hservice, .serviceResolved _ hhandled, ?_⟩, ?_, hname⟩
  · exact (insert_empty_eq service).symm
  · rfl

/-- Where the registry is right after a service was resolved and any one removed, the
removal names the entry of that service only if it is its own. -/
theorem names_iff_of_tracks {selfId : Option Text}
    (hself : ∀ service ∈ services, selfId ≠ some service.id)
    (hall : ∀ taken final, Run (Follow isAlphanumeric serviceType services) (start selfId)
      taken final → Run.Always (Tracks services) taken final)
    {service other : AdvertisedService} (hservice : service ∈ services)
    (hother : other ∈ services) :
    Names isAlphanumeric serviceType service other ↔ service = other := by
  obtain ⟨browser, device, hresolved, hpeers, hname⟩ :=
    exists_resolved isAlphanumeric serviceType hother (hself other hother)
  have hlookup : browser.peers.lookup other.id = some device := by
    rw [hpeers, Finmap.lookup_singleton_eq]
  have hfinal : ∀ found, browser.FindsName (service.info isAlphanumeric serviceType).fullname
      found → (other.id ∈ (browser.handleRemoved found).peers ↔ other ≠ service) := by
    intro found hfound
    have hremoved : Follow isAlphanumeric serviceType services (browser, {other})
        (.removed service) (browser.handleRemoved found, {other} \ {service}) :=
      ⟨hservice, .serviceRemoved found serviceType _ hfound, rfl⟩
    have htracks := (hall _ _ (.snoc (.snoc .refl hresolved) hremoved)).2 other hother
    simpa using htracks
  constructor
  · intro hnames
    by_contra hne
    have hmem := (hfinal (some other.id) ⟨device, hlookup, hname ▸ hnames⟩).mpr (Ne.symm hne)
    exact absurd hmem (by simp [ServiceBrowser.handleRemoved, Finmap.mem_erase])
  · rintro rfl
    by_contra hnot
    have hnone : browser.FindsName (service.info isAlphanumeric serviceType).fullname none := by
      intro id entry hentry
      rw [hpeers] at hentry
      obtain rfl : id = service.id :=
        (Finmap.mem_singleton _ _ _).mp (Finmap.mem_of_lookup_eq_some hentry)
      rw [Finmap.lookup_singleton_eq, Option.some.injEq] at hentry
      rw [← hentry, hname]
      exact hnot
    exact (hfinal none hnone).mp (Finmap.mem_of_lookup_eq_some hlookup) rfl

/-- The registry is right in every run, and every removal leaves the entries of the
others, exactly when a removal names the entry of its own service and no other. -/
theorem tracks_iff_names (isAlphanumeric : Char → Bool) (serviceType : Text)
    (services : Set AdvertisedService) (selfId : Option Text)
    (hdistinct : DistinctServices services)
    (hself : ∀ service ∈ services, selfId ≠ some service.id) :
    (∀ taken final, Run (Follow isAlphanumeric serviceType services) (start selfId) taken final →
      Run.Always (Tracks services) taken final ∧ Run.Each (Spares services) final taken) ↔
    ∀ service ∈ services, ∀ other ∈ services,
      Names isAlphanumeric serviceType service other ↔ service = other := by
  constructor
  · intro hall service hservice other hother
    exact names_iff_of_tracks hself (fun taken final run => (hall taken final run).1)
      hservice hother
  · intro hnames taken final run
    have hstart := And.intro (entered_start isAlphanumeric serviceType hself)
      (tracks_start services selfId)
    have hfollow : ∀ s a s', Entered isAlphanumeric serviceType services s ∧ Tracks services s →
        True → Follow isAlphanumeric serviceType services s a s' →
        Entered isAlphanumeric serviceType services s' ∧ Tracks services s' :=
      fun _ _ _ h _ hstep => h.1.follow hdistinct h.2 hnames hstep
    constructor
    · have halways := run.always_of hstart hfollow fun _ _ => trivial
      exact ⟨fun t ht => (halways.1 t ht).2, halways.2.2⟩
    · have hspares : ∀ s a s', Entered isAlphanumeric serviceType services s ∧ Tracks services s →
          True → Follow isAlphanumeric serviceType services s a s' →
          (Spares services s a s' ↔ True) := fun s a s' h _ hstep =>
        iff_true_intro (spares_of_tracks h.2 (hfollow s a s' h trivial hstep).2 hstep)
      exact (Run.each_iff (J := fun s => Entered isAlphanumeric serviceType services s ∧
        Tracks services s) (P := fun _ => True) (C := fun _ _ => True) hstart hfollow hspares run
        fun _ _ => trivial).mpr fun _ _ => trivial

/-! ### The service type of the program -/

/-- The service type of the default configuration. -/
def defaultServiceType : Text := "_justdrop._tcp.local.".toList

/-- With this service type, a host name lies in the part of the full name behind the
instance name only if it is the end of `tcp`. -/
theorem infix_serviceType_iff {host : Text} (hunderscore : '_' ∉ host) :
    host ++ ".local".toList <:+: defaultServiceType ↔ host <:+ "tcp".toList := by
  constructor
  · rintro ⟨front, rest, heq⟩
    have hplace : ∀ k < 16, ".local".toList <+: defaultServiceType.drop k → k = 14 := by decide
    have hsplit : (front ++ host) ++ (".local".toList ++ rest) = defaultServiceType := by
      rw [← heq]
      simp only [List.append_assoc]
    have hlength := congrArg List.length hsplit
    have hsize : defaultServiceType.length = 21 := rfl
    have hlocal : ".local".toList.length = 6 := rfl
    rw [List.length_append, @List.length_append _ _ rest, hsize, hlocal] at hlength
    have hk := hplace (front ++ host).length (by omega)
      ⟨rest, by rw [← hsplit, List.drop_left]⟩
    have hfront : front ++ host = "_justdrop._".toList ++ "tcp".toList := by
      have htake : defaultServiceType.take (front ++ host).length = front ++ host := by
        rw [← hsplit, List.take_left]
      rw [← htake, hk]
      rfl
    rcases List.append_eq_append_iff.mp hfront with ⟨more, hmore, rfl⟩ | ⟨more, -, hmore⟩
    · rcases List.eq_nil_or_concat more with rfl | ⟨init, last, rfl⟩
      · exact List.suffix_refl _
      · have hlast : last = '_' := by
          have hreverse := congrArg List.getLast? hmore
          simpa using hreverse.symm
        exact absurd (by simp [hlast]) hunderscore
    · exact ⟨more, hmore.symm⟩
  · rintro ⟨front, heq⟩
    refine ⟨"_justdrop._".toList ++ front, ['.'], ?_⟩
    rw [List.append_assoc _ front, ← List.append_assoc front, heq]
    rfl

/-- A host name of the length of the instance name lies behind it or not at all. -/
theorem infix_serviceType_of_infix {host instanceName : Text} (hdot : '.' ∉ host)
    (hlength : host.length = instanceName.length)
    (h : host ++ ".local".toList <:+: instanceName ++ '.' :: defaultServiceType) :
    host ++ ".local".toList <:+: defaultServiceType := by
  obtain ⟨front, rest, heq⟩ := h
  have hstart : ∀ more : Text, ".local".toList ++ more ≠ '.' :: defaultServiceType := by
    intro more h
    have hsecond : some 'l' = some '_' := congrArg (fun text : Text => text[1]?) h
    exact absurd hsecond (by decide)
  have hdots : ∀ more behind : Text, more <:+ host → more ++ (".local".toList ++ behind) ≠
      '.' :: defaultServiceType := by
    intro more behind hmore h
    cases more with
    | nil => exact hstart behind h
    | cons c more =>
      obtain rfl : c = '.' := (List.cons.inj h).1
      exact hdot (hmore.subset List.mem_cons_self)
  rw [List.append_assoc, List.append_assoc] at heq
  rcases List.append_eq_append_iff.mp heq with ⟨more, hmore, hrest⟩ | ⟨more, hfront, hrest⟩
  · rcases List.append_eq_append_iff.mp hrest with ⟨behind, hbehind, hend⟩ | ⟨behind, hhost, hend⟩
    · have hnil : behind = [] := by
        have h₁ := congrArg List.length hmore
        have h₂ := congrArg List.length hbehind
        rw [List.length_append] at h₁ h₂
        exact List.eq_nil_of_length_eq_zero (by omega)
      rw [hnil] at hend
      exact absurd hend (hstart rest)
    · exact absurd hend.symm (hdots behind rest ⟨more, hhost.symm⟩)
  · cases more with
    | nil => exact absurd hrest.symm (hdots host rest (List.suffix_refl _))
    | cons c more =>
      refine ⟨more, rest, ?_⟩
      rw [List.append_assoc, List.append_assoc]
      exact (List.cons.inj hrest).2.symm

/-- With this service type, and dots and underscores made hyphens in host names, the
registry is right only for a single service whose host name is the end of `tcp`. -/
theorem names_serviceType_iff {isAlphanumeric : Char → Bool} (hdot : isAlphanumeric '.' = false)
    (hunderscore : isAlphanumeric '_' = false) (services : Set AdvertisedService) :
    (∀ service ∈ services, ∀ other ∈ services,
      Names isAlphanumeric defaultServiceType service other ↔ service = other) ↔
    services = ∅ ∨ ∃ service, services = {service} ∧
      service.sanitized isAlphanumeric <:+ "tcp".toList := by
  have hclean : ∀ (service : AdvertisedService) c, isAlphanumeric c = false → c ≠ '-' →
      c ∉ service.sanitized isAlphanumeric := by
    intro service c hc hne hmem
    obtain ⟨d, -, hd⟩ := List.mem_map.mp hmem
    split_ifs at hd with hreplaced
    · exact hne hd.symm
    · subst hd
      simp [hc, hne] at hreplaced
  have hnames : ∀ service other : AdvertisedService,
      other.sanitized isAlphanumeric <:+ "tcp".toList →
      Names isAlphanumeric defaultServiceType service other := by
    intro service other hend
    rw [Names, AdvertisedService.name_info]
    have hinfix := (infix_serviceType_iff (hclean other '_' hunderscore (by decide))).mpr hend
    exact hinfix.trans (List.IsSuffix.isInfix ⟨service.instanceName ++ ['.'],
      List.append_assoc _ _ _⟩)
  have hself : ∀ service, Names isAlphanumeric defaultServiceType service service →
      service.sanitized isAlphanumeric <:+ "tcp".toList := by
    intro service h
    rw [Names, AdvertisedService.name_info] at h
    rw [← infix_serviceType_iff (hclean service '_' hunderscore (by decide))]
    exact infix_serviceType_of_infix (hclean service '.' hdot (by decide))
      (List.length_map _) h
  constructor
  · intro h
    rcases services.eq_empty_or_nonempty with hempty | ⟨service, hservice⟩
    · exact Or.inl hempty
    · have hend := hself service ((h service hservice service hservice).mpr rfl)
      have honly : services = {service} := by
        refine Set.eq_singleton_iff_unique_mem.mpr ⟨hservice, fun other hother => ?_⟩
        exact (h other hother service hservice).mp (hnames other service hend)
      exact Or.inr ⟨service, honly, hend⟩
  · rintro (rfl | ⟨single, rfl, hend⟩)
    · exact fun service hservice => absurd hservice (Set.notMem_empty service)
    · rintro service rfl other rfl
      exact iff_of_true (hnames _ _ hend) rfl

/-- A phone that is named by letters. -/
def sampleService : AdvertisedService where
  instanceName := "Phone".toList
  fingerprint := Vector.replicate 32 0xaa
  port := 42420
  localIp := [192, 168, 1, 5]
  platform := .android

theorem distinct_sampleService : DistinctServices {sampleService} := by
  have hsame : ∀ service ∈ ({sampleService} : Set AdvertisedService),
      ∀ other ∈ ({sampleService} : Set AdvertisedService), service = other := by
    rintro service rfl other rfl
    rfl
  exact ⟨fun service hservice other hother _ => hsame service hservice other hother,
    fun service hservice other hother _ => hsame service hservice other hother⟩

theorem not_names_sampleService :
    ¬Names Char.isAlphanum defaultServiceType sampleService sampleService := by
  rw [Names, AdvertisedService.name_info]
  decide +kernel

theorem tracks_iff_names_phone : ¬∀ taken final,
    Run (Follow Char.isAlphanum defaultServiceType {sampleService}) (start none) taken final →
      Run.Always (Tracks {sampleService}) taken final ∧
        Run.Each (Spares {sampleService}) final taken :=
  (tracks_iff_names Char.isAlphanum defaultServiceType {sampleService} none distinct_sampleService
    (by simp)).not.mpr fun h => not_names_sampleService ((h _ rfl _ rfl).mpr rfl)

/-- The entry of a phone stays when its service is removed. -/
theorem not_tracks : ¬∀ (isAlphanumeric : Char → Bool) (serviceType : Text)
    (services : Set AdvertisedService) (selfId : Option Text), DistinctServices services →
    (∀ service ∈ services, selfId ≠ some service.id) → ∀ taken final,
    Run (Follow isAlphanumeric serviceType services) (start selfId) taken final →
      Run.Always (Tracks services) taken final ∧ Run.Each (Spares services) final taken := by
  intro h
  have hself : ∀ service ∈ ({sampleService} : Set AdvertisedService), none ≠ some service.id := by
    simp
  exact not_names_sampleService ((names_iff_of_tracks hself
    (fun taken final run => (h Char.isAlphanum defaultServiceType _ none distinct_sampleService
      hself taken final run).1) rfl rfl).mpr rfl)

end Watched
end JustDrop
