import JustDrop.Task
import JustDrop.ByteImage

/-!
# Decompression up to a limit

The reader is allowed one byte more than the limit, so that what is too large shows.
For the greatest limit this byte has no number: with overflow checks the program panics,
without them it reads nothing.
-/
namespace JustDrop

inductive CompressionError where
  | compress (message : String)
  | decompress (message : String)
  | tooLarge (size max : ℕ)
  deriving DecidableEq, Repr

/-- What a decoder hands out: bytes, and the error that ends them if there is one. -/
structure ZstdStream where
  bytes : Bytes
  failure : Option String
  deriving DecidableEq, Repr

/-- The compressor: what was encoded is decoded. -/
structure Zstd where
  encodeAll : Bytes → ℤ → Except String Bytes
  decoder : Bytes → Except String ZstdStream
  lossless : ∀ data level compressed, encodeAll data level = .ok compressed →
    decoder compressed = .ok { bytes := data, failure := none }

def DEFAULT_LEVEL : ℤ := 3

/-- `take` and `read_to_end`: behind the limit the decoder is not asked any more. -/
def ZstdStream.readToEnd (stream : ZstdStream) (limit : ℕ) : Except String Bytes :=
  if limit ≤ stream.bytes.length then .ok (stream.bytes.take limit)
  else
    match stream.failure with
    | some message => .error message
    | none => .ok stream.bytes

/-- The successor of a number of 64 bits, in a build with or without overflow checks. -/
def successor (overflowChecks : Bool) (n : UInt64) : Option ℕ :=
  if n.toNat + 1 < 2 ^ 64 then some (n.toNat + 1)
  else if overflowChecks then none
  else some 0

def compress (zstd : Zstd) (data : Bytes) : Except CompressionError Bytes :=
  match zstd.encodeAll data DEFAULT_LEVEL with
  | .ok compressed => .ok compressed
  | .error message => .error (.compress message)

def decompress (zstd : Zstd) (overflowChecks : Bool) (data : Bytes) (maxSize : UInt64) :
    Outcome CompressionError Bytes :=
  match zstd.decoder data with
  | .error message => .err (.decompress message)
  | .ok stream =>
    match successor overflowChecks maxSize with
    | none => .panic
    | some limit =>
      match stream.readToEnd limit with
      | .error message => .err (.decompress message)
      | .ok buf =>
        if maxSize.toNat < buf.length then .err (.tooLarge buf.length maxSize.toNat) else .ok buf

/-- What fits comes back, and what does not is refused as too large. -/
def RoundTrips (zstd : Zstd) (overflowChecks : Bool) (data compressed : Bytes)
    (maxSize : UInt64) : Prop :=
  if data.length ≤ maxSize.toNat then decompress zstd overflowChecks compressed maxSize = .ok data
  else ∃ size, decompress zstd overflowChecks compressed maxSize =
    .err (.tooLarge size maxSize.toNat)

section Limits
variable {zstd : Zstd} {overflowChecks : Bool} {data compressed : Bytes} {maxSize : UInt64}
  {stream : ZstdStream}

theorem decoder_of_compress (h : compress zstd data = .ok compressed) :
    zstd.decoder compressed = .ok { bytes := data, failure := none } := by
  unfold compress at h
  split at h
  · rename_i own hencode
    obtain rfl := Except.ok.inj h
    exact zstd.lossless data DEFAULT_LEVEL own hencode
  · cases h

theorem readToEnd_of_lt {limit : ℕ} (h : stream.bytes.length < limit) : stream.readToEnd limit =
    match stream.failure with
    | some message => .error message
    | none => .ok stream.bytes := by
  rw [ZstdStream.readToEnd, if_neg (not_le.mpr h)]

theorem readToEnd_of_le {limit : ℕ} (h : limit ≤ stream.bytes.length) :
    stream.readToEnd limit = .ok (stream.bytes.take limit) := by
  rw [ZstdStream.readToEnd, if_pos h]

/-- Below the greatest limit everything that fits is handed out, with the error behind it. -/
theorem decompress_of_le (hmax : maxSize.toNat + 1 < 2 ^ 64)
    (hdecoder : zstd.decoder compressed = .ok stream)
    (hfits : stream.bytes.length ≤ maxSize.toNat) :
    decompress zstd overflowChecks compressed maxSize =
      match stream.failure with
      | some message => .err (.decompress message)
      | none => .ok stream.bytes := by
  have hread := readToEnd_of_lt (Nat.lt_succ_of_le hfits)
  rw [decompress, hdecoder]
  simp only [successor, if_pos hmax, hread]
  cases stream.failure with
  | some message => rfl
  | none => exact if_neg (not_lt.mpr hfits)

/-- Below the greatest limit everything that does not fit is refused. -/
theorem decompress_of_lt (hmax : maxSize.toNat + 1 < 2 ^ 64)
    (hdecoder : zstd.decoder compressed = .ok stream)
    (hlarge : maxSize.toNat < stream.bytes.length) :
    decompress zstd overflowChecks compressed maxSize =
      .err (.tooLarge (maxSize.toNat + 1) maxSize.toNat) := by
  have hread := readToEnd_of_le (Nat.succ_le_of_lt hlarge)
  have hlength : (stream.bytes.take (maxSize.toNat + 1)).length = maxSize.toNat + 1 := by
    rw [List.length_take, Nat.min_eq_left hlarge]
  rw [decompress, hdecoder]
  simp only [successor, if_pos hmax, hread, hlength]
  exact if_pos (Nat.lt_succ_self _)

/-- With the greatest limit nothing is read. -/
theorem decompress_of_greatest (hmax : ¬maxSize.toNat + 1 < 2 ^ 64)
    (hdecoder : zstd.decoder compressed = .ok stream) :
    decompress zstd overflowChecks compressed maxSize =
      if overflowChecks then .panic else .ok [] := by
  have hsuccessor : successor overflowChecks maxSize = if overflowChecks then none else some 0 :=
    if_neg hmax
  rw [decompress, hdecoder]
  simp only [hsuccessor]
  cases overflowChecks with
  | true => rfl
  | false =>
    simp only [Bool.false_eq_true, if_false, readToEnd_of_le (Nat.zero_le _), List.take_zero,
      List.length_nil]
    exact if_neg (Nat.not_lt_zero _)

/-- Compressed data round-trips below the greatest limit, and with it only where nothing
was to be read and no overflow is looked for. -/
theorem roundTrips_iff (hcompress : compress zstd data = .ok compressed) (overflowChecks : Bool)
    (maxSize : UInt64) : RoundTrips zstd overflowChecks data compressed maxSize ↔
      maxSize.toNat + 1 < 2 ^ 64 ∨ overflowChecks = false ∧ data = [] := by
  have hdecoder := decoder_of_compress hcompress
  by_cases hmax : maxSize.toNat + 1 < 2 ^ 64
  · refine iff_of_true ?_ (Or.inl hmax)
    rw [RoundTrips]
    split_ifs with hfits
    · rw [decompress_of_le hmax hdecoder hfits]
    · exact ⟨_, decompress_of_lt hmax hdecoder (not_le.mp hfits)⟩
  · rw [or_iff_right hmax, RoundTrips, decompress_of_greatest hmax hdecoder]
    cases overflowChecks with
    | true => simp
    | false =>
      have hzero : data = [] → data.length ≤ maxSize.toNat := by
        rintro rfl
        exact Nat.zero_le _
      by_cases hnil : data = []
      · simp [hnil]
      · split_ifs <;> simp [hnil, eq_comm]

end Limits

/-- A compressor that stores the data as they are. -/
def Zstd.stored : Zstd where
  encodeAll data _ := .ok data
  decoder data := .ok { bytes := data, failure := none }
  lossless data _ compressed h := by rw [Except.ok.inj h]

theorem roundTrips_iff_stored : RoundTrips Zstd.stored true [1, 2, 3] [1, 2, 3] 2 :=
  (roundTrips_iff rfl true 2).mpr (Or.inl (by decide))

/-- The greatest limit. -/
def greatestSize : UInt64 := 0xFFFFFFFFFFFFFFFF

theorem toNat_greatestSize : greatestSize.toNat = 2 ^ 64 - 1 := rfl

/-- With the greatest limit one byte panics, or comes back as none. -/
theorem not_roundTrips : ¬RoundTrips Zstd.stored true [1] [1] greatestSize ∧
    ¬RoundTrips Zstd.stored false [1] [1] greatestSize := by
  have hdecoder : Zstd.stored.decoder [1] = .ok { bytes := [1], failure := none } := rfl
  have hmax : ¬greatestSize.toNat + 1 < 2 ^ 64 := by
    rw [toNat_greatestSize]
    omega
  have hfits : [(1 : UInt8)].length ≤ greatestSize.toNat := by
    rw [toNat_greatestSize, List.length_singleton]
    omega
  constructor
  · rw [RoundTrips, if_pos hfits, decompress_of_greatest hmax hdecoder]
    simp
  · rw [RoundTrips, if_pos hfits, decompress_of_greatest hmax hdecoder]
    simp

end JustDrop
