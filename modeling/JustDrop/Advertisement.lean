import JustDrop.Peer
import JustDrop.Utf8

/-!
# Names in Bluetooth advertisements

Two builders and two parsers share a payload: two magic bytes, a version, a platform,
the length of a name and the name in UTF-8. One builder cuts the name after twenty
bytes, the other one after twenty characters, and traps where their length does not fit
a byte. One parser reads a cut scalar as a replacement character, the other one gives
the name up.
-/
namespace JustDrop
open Utf8

/-- How a text falls into characters, none of them empty. -/
structure Graphemes where
  characters : Text → List Text
  flatten_characters : ∀ text, (characters text).flatten = text
  ne_nil : ∀ text, ∀ character ∈ characters text, character ≠ []

namespace Advertisement

def platformOf (byte : UInt8) : Text :=
  if byte = 0x01 then "MacOS".toList
  else if byte = 0x02 then "Android".toList
  else if byte = 0x03 then "Windows".toList
  else if byte = 0x04 then "Linux".toList
  else "Unknown".toList

/-- The length byte is taken for granted. -/
def build (platform : UInt8) (nameBytes : Bytes) : Bytes :=
  [0x4A, 0x44, 0x01, platform, UInt8.ofNat nameBytes.length] ++ nameBytes

/-- The name and the platform; a name that is missing or that cannot be decoded keeps
its default. -/
def parse (decode : Bytes → Option Text) (unnamed : Text) : Option Bytes → Text × Text
  | none => (unnamed, "Unknown".toList)
  | some serviceData =>
    if 4 ≤ serviceData.length ∧ serviceData[0]? = some 0x4A ∧ serviceData[1]? = some 0x44 then
      let nameLen := (serviceData.getD 4 0).toNat
      let name :=
        if 4 < serviceData.length ∧ 5 + nameLen ≤ serviceData.length then
          (decode ((serviceData.drop 5).take nameLen)).getD unnamed
        else unnamed
      (name, platformOf (serviceData.getD 3 0))
    else (unnamed, "Unknown".toList)

end Advertisement
open Advertisement

/-! ### The two sides -/

/-- The payload that `startBle` advertises. -/
def JustDropService.payload (deviceName : Text) : Option Bytes :=
  some (build 0x02 ((encode deviceName).take 20))

/-- Malformed bytes are replaced. -/
def JustDropService.onDeviceFound : Option Bytes → Text × Text :=
  parse (fun bytes => some (lossy bytes)) "Unknown".toList

/-- The conversion of the length to a byte traps above 255. -/
def EngineViewModel.payload (graphemes : Graphemes) (deviceName : Text) : Option Bytes :=
  let nameData := encode ((graphemes.characters deviceName).take 20).flatten
  if nameData.length < 256 then some (build 0x01 nameData) else none

/-- Malformed bytes leave the default. -/
def EngineViewModel.handleBleDeviceFound : Option Bytes → Text × Text :=
  parse strict "Unknown Device".toList

namespace Advertisement

/-- A payload comes out with the platform and a prefix of the name, which is the name
where it is short enough. -/
def ReadsBack (parser : Option Bytes → Text × Text) (platform deviceName : Text)
    (payload : Bytes) : Prop :=
  (parser (some payload)).2 = platform ∧ (parser (some payload)).1 <+: deviceName ∧
    ((encode deviceName).length ≤ 20 → (parser (some payload)).1 = deviceName)

/-- A builder returns a payload, and both parsers read it back. -/
def Understood (platform deviceName : Text) (payload : Option Bytes) : Prop :=
  ∃ bytes, payload = some bytes ∧
    ReadsBack JustDropService.onDeviceFound platform deviceName bytes ∧
    ReadsBack EngineViewModel.handleBleDeviceFound platform deviceName bytes

/-- Both builders are understood. -/
def Interoperable (graphemes : Graphemes) (deviceName : Text) : Prop :=
  Understood "Android".toList deviceName (JustDropService.payload deviceName) ∧
    Understood "MacOS".toList deviceName (EngineViewModel.payload graphemes deviceName)

variable {deviceName : Text}

theorem parse_build (decode : Bytes → Option Text) (unnamed : Text) (platform : UInt8)
    {nameBytes : Bytes} (h : nameBytes.length < 256) :
    parse decode unnamed (some (build platform nameBytes)) =
      ((decode nameBytes).getD unnamed, platformOf platform) := by
  have hlength : (build platform nameBytes).length = 5 + nameBytes.length := by
    rw [build, List.length_append]
    rfl
  have hnameLen : ((build platform nameBytes).getD 4 0).toNat = nameBytes.length := by
    show (UInt8.ofNat nameBytes.length).toNat = nameBytes.length
    exact Reads.toNat_ofNat_of_lt h
  have hname : ((build platform nameBytes).drop 5).take nameBytes.length = nameBytes := by
    show nameBytes.take nameBytes.length = nameBytes
    exact List.take_length
  have hmagic : 4 ≤ (build platform nameBytes).length ∧
      (build platform nameBytes)[0]? = some 0x4A ∧ (build platform nameBytes)[1]? = some 0x44 :=
    ⟨by omega, rfl, rfl⟩
  simp only [parse]
  rw [if_pos hmagic, hnameLen, if_pos ⟨by omega, by omega⟩, hname]
  rfl

/-- A payload with a text for a name is read back by both parsers where the text is a
prefix, and the whole of a short name. -/
theorem understood_build {platform : UInt8} {text : Text} (hlength : (encode text).length < 256)
    (hbegins : text <+: deviceName)
    (hshort : (encode deviceName).length ≤ 20 → text = deviceName) :
    Understood (platformOf platform) deviceName (some (build platform (encode text))) := by
  refine ⟨_, rfl, ?_, ?_⟩
  · rw [ReadsBack, JustDropService.onDeviceFound, parse_build _ _ _ hlength, lossy_encode]
    exact ⟨rfl, hbegins, hshort⟩
  · rw [ReadsBack, EngineViewModel.handleBleDeviceFound, parse_build _ _ _ hlength,
      strict_encode]
    exact ⟨rfl, hbegins, hshort⟩

/-! ### The name cut by bytes -/

theorem encode_injective {text text' : Text} (h : encode text = encode text') : text = text' := by
  rw [← lossy_encode text, h, lossy_encode]

theorem understood_of_cutsBetween (h : CutsBetween deviceName 20) :
    Understood "Android".toList deviceName (JustDropService.payload deviceName) := by
  obtain ⟨text, hbegins, htake⟩ := h
  have hlength : (encode text).length ≤ 20 := by
    rw [← htake]
    exact List.length_take_le 20 _
  have hplatform : platformOf 0x02 = "Android".toList := rfl
  rw [JustDropService.payload, htake, ← hplatform]
  apply understood_build (by omega) hbegins
  intro hshort
  rw [List.take_of_length_le hshort] at htake
  exact (encode_injective htake).symm

/-- What the parsers make of a name that is cut through a scalar. -/
theorem parse_of_cutsThrough {pre rest : Text} {c : Char} (hname : deviceName = pre ++ c :: rest)
    (hlow : (encode pre).length < 20) (hhigh : 20 < (encode pre).length + c.utf8Size) :
    JustDropService.onDeviceFound (JustDropService.payload deviceName) =
        (pre ++ ['\uFFFD'], "Android".toList) ∧
      EngineViewModel.handleBleDeviceFound (JustDropService.payload deviceName) =
        ("Unknown Device".toList, "Android".toList) := by
  have hlength : ((encode deviceName).take 20).length < 256 :=
    lt_of_le_of_lt (List.length_take_le 20 _) (by decide)
  rw [JustDropService.onDeviceFound, EngineViewModel.handleBleDeviceFound,
    JustDropService.payload, parse_build _ _ _ hlength, parse_build _ _ _ hlength, hname,
    lossy_of_cutsThrough hlow hhigh, strict_of_cutsThrough hlow hhigh]
  exact ⟨rfl, rfl⟩

/-- A cut name is understood where the defaults of the parsers happen to fit it. -/
theorem understood_iff_of_cutsThrough {pre rest : Text} {c : Char}
    (hname : deviceName = pre ++ c :: rest) (hlow : (encode pre).length < 20)
    (hhigh : 20 < (encode pre).length + c.utf8Size) :
    Understood "Android".toList deviceName (JustDropService.payload deviceName) ↔
      "Unknown Device".toList <+: deviceName ∧ c = '\uFFFD' := by
  obtain ⟨hfound, hfound'⟩ := parse_of_cutsThrough hname hlow hhigh
  constructor
  · rintro ⟨bytes, hbytes, hkotlin, hswift⟩
    rw [hbytes] at hfound hfound'
    have hkotlin' := hkotlin.2.1
    have hswift' := hswift.2.1
    rw [hfound, hname, List.prefix_append_right_inj, List.cons_prefix_cons] at hkotlin'
    rw [hfound'] at hswift'
    exact ⟨hswift', hkotlin'.1.symm⟩
  · rintro ⟨hunnamed, rfl⟩
    have hlong : ¬(encode deviceName).length ≤ 20 := by
      rw [hname, encode_append, encode_cons, List.length_append, List.length_append,
        String.length_utf8EncodeChar]
      omega
    refine ⟨_, rfl, ?_, ?_⟩
    · rw [ReadsBack, ← JustDropService.payload, hfound]
      refine ⟨rfl, ?_, fun hshort => absurd hshort hlong⟩
      rw [hname, List.prefix_append_right_inj, List.cons_prefix_cons]
      exact ⟨rfl, List.nil_prefix⟩
    · rw [ReadsBack, ← JustDropService.payload, hfound']
      exact ⟨rfl, hunnamed, fun hshort => absurd hshort hlong⟩

theorem understood_android_iff :
    Understood "Android".toList deviceName (JustDropService.payload deviceName) ↔
      CutsBetween deviceName 20 ∨
        "Unknown Device".toList <+: deviceName ∧ CutsThrough deviceName 20 '\uFFFD' := by
  constructor
  · intro h
    rcases cutsBetween_or_cutsThrough deviceName 20 with
      hbetween | ⟨c, pre, rest, hname, hlow, hhigh⟩
    · exact Or.inl hbetween
    · obtain ⟨hunnamed, rfl⟩ := (understood_iff_of_cutsThrough hname hlow hhigh).mp h
      exact Or.inr ⟨hunnamed, pre, rest, hname, hlow, hhigh⟩
  · rintro (hbetween | ⟨hunnamed, pre, rest, hname, hlow, hhigh⟩)
    · exact understood_of_cutsBetween hbetween
    · exact (understood_iff_of_cutsThrough hname hlow hhigh).mpr ⟨hunnamed, rfl⟩

/-! ### The name cut by characters -/

theorem length_le_length_flatten {pieces : List Text} (h : ∀ piece ∈ pieces, piece ≠ []) :
    pieces.length ≤ pieces.flatten.length := by
  induction pieces with
  | nil => exact le_rfl
  | cons piece pieces ih =>
    rw [List.forall_mem_cons] at h
    have hpos := List.length_pos_iff.mpr h.1
    have hrest := ih h.2
    rw [List.flatten_cons, List.length_append, List.length_cons]
    omega

theorem understood_macos_iff {graphemes : Graphemes} :
    Understood "MacOS".toList deviceName (EngineViewModel.payload graphemes deviceName) ↔
      (encode ((graphemes.characters deviceName).take 20).flatten).length < 256 := by
  constructor
  · rintro ⟨bytes, hbytes, -⟩
    by_contra hlong
    rw [EngineViewModel.payload, if_neg hlong] at hbytes
    cases hbytes
  · intro hlength
    have hflatten := graphemes.flatten_characters deviceName
    have hplatform : platformOf 0x01 = "MacOS".toList := rfl
    rw [EngineViewModel.payload, if_pos hlength, ← hplatform]
    apply understood_build hlength
    · have hbegins := (List.take_prefix 20 (graphemes.characters deviceName)).flatten
      rwa [hflatten] at hbegins
    · intro hshort
      have hpieces := length_le_length_flatten (graphemes.ne_nil deviceName)
      have hscalars := length_le_length_encode deviceName
      rw [hflatten] at hpieces
      rw [List.take_of_length_le (by omega), hflatten]

/-- The two sides understand each other when twenty bytes of the name end with a scalar,
or go through a replacement character of a name that begins like the default name, and
when twenty characters of the name have at most 255 bytes. -/
theorem interoperable_iff (graphemes : Graphemes) (deviceName : Text) :
    Interoperable graphemes deviceName ↔
      (CutsBetween deviceName 20 ∨
        "Unknown Device".toList <+: deviceName ∧ CutsThrough deviceName 20 '\uFFFD') ∧
      (encode ((graphemes.characters deviceName).take 20).flatten).length < 256 :=
  and_congr understood_android_iff understood_macos_iff

/-- Every scalar is a character of its own. -/
def scalars : Graphemes where
  characters text := text.map fun c => [c]
  flatten_characters text := by rw [← List.flatMap_def, List.flatMap_singleton']
  ne_nil text character h := by
    obtain ⟨c, -, rfl⟩ := List.mem_map.mp h
    exact List.cons_ne_nil c []

/-- The twentieth byte of the name is the first one of its last scalar. -/
def accented : Text := 'a' :: List.replicate 10 'é'

theorem cutsThrough_accented : accented = ('a' :: List.replicate 9 'é') ++ 'é' :: [] ∧
    (encode ('a' :: List.replicate 9 'é')).length < 20 ∧
    20 < (encode ('a' :: List.replicate 9 'é')).length + 'é'.utf8Size := by decide

/-- The parser on Android reads a replacement character. -/
theorem not_interoperable : ¬∀ (graphemes : Graphemes) (deviceName : Text),
    Interoperable graphemes deviceName := by
  intro h
  obtain ⟨hname, hlow, hhigh⟩ := cutsThrough_accented
  have hcut := (understood_iff_of_cutsThrough hname hlow hhigh).mp (h scalars accented).1
  exact absurd hcut.2 (by decide)

end Advertisement
end JustDrop
