import JustDrop.BinaryFormat
import JustDrop.Bincode
import Mathlib.Data.Nat.Digits.Defs

/-!
# Numbers, byte strings and texts as bytes

Numbers are written in full width, lowest byte first, or in groups of seven bits
with a mark on every byte but the last. The second kind has room for padding, so a
number has several spellings there. The writer leaves the padding out.
-/
namespace JustDrop
namespace Format

/-! ### Full width -/

section Fixed

theorem ofDigits_leBytes {width n : ℕ} (h : n < 256 ^ width) :
    Nat.ofDigits 256 ((Bincode.leBytes width n).map UInt8.toNat) = n := by
  induction width generalizing n with
  | zero => simp only [pow_zero, Nat.lt_one_iff] at h; simp [Bincode.leBytes, h]
  | succ width ih =>
    have hhigh : n / 256 < 256 ^ width := by
      rw [Nat.div_lt_iff_lt_mul (by omega)]
      simpa [pow_succ] using h
    simp only [Bincode.leBytes, List.map_cons, Nat.ofDigits_cons, ih hhigh, UInt8.toNat_ofNat']
    omega

theorem leBytes_ofDigits (spelling : Bytes) :
    Bincode.leBytes spelling.length (Nat.ofDigits 256 (spelling.map UInt8.toNat)) = spelling := by
  induction spelling with
  | nil => rfl
  | cons b spelling ih =>
    have hb := b.toNat_lt
    have hlow : UInt8.ofNat (b.toNat + 256 * Nat.ofDigits 256 (spelling.map UInt8.toNat)) = b := by
      apply UInt8.toNat_inj.mp
      rw [UInt8.toNat_ofNat']
      omega
    have hhigh : (b.toNat + 256 * Nat.ofDigits 256 (spelling.map UInt8.toNat)) / 256 =
        Nat.ofDigits 256 (spelling.map UInt8.toNat) := by omega
    simp only [List.length_cons, List.map_cons, Nat.ofDigits_cons, Bincode.leBytes, hlow, hhigh,
      ih]

/-- A number in a fixed number of bytes, lowest first. -/
def fixed (width : ℕ) : Format ℕ where
  encode := Bincode.leBytes width
  decode bytes :=
    if width ≤ bytes.length then
      some (Nat.ofDigits 256 ((bytes.take width).map UInt8.toNat), bytes.drop width)
    else none
  Fits n := n < 256 ^ width
  Spells n spelling :=
    spelling.length = width ∧ Nat.ofDigits 256 (spelling.map UInt8.toNat) = n
  decode_eq_some_iff bytes n rest := by
    constructor
    · intro h
      split_ifs at h with hlength
      simp only [Option.some.injEq, Prod.mk.injEq] at h
      exact ⟨bytes.take width, ⟨by simpa using hlength, h.1⟩, by simp [← h.2]⟩
    · rintro ⟨spelling, ⟨rfl, rfl⟩, rfl⟩
      simp
  spells_encode n h := ⟨Bincode.length_leBytes width n, ofDigits_leBytes h⟩
  shortest n spelling h := by
    obtain ⟨rfl, rfl⟩ := h
    exact Or.inl (leBytes_ofDigits spelling).symm

end Fixed

/-! ### Groups of seven bits -/

section Varint

/-- At most so many bytes with a mark come in front of the last one. -/
def encodeVarint : ℕ → ℕ → Bytes
  | 0, n => [UInt8.ofNat n]
  | marked + 1, n =>
    if n < 128 then [UInt8.ofNat n]
    else UInt8.ofNat (n % 128 + 128) :: encodeVarint marked (n / 128)

/-- The last byte there is room for is at most `top`. -/
def decodeVarint (top : ℕ) : ℕ → Bytes → Option (ℕ × Bytes)
  | _, [] => none
  | 0, b :: rest => if b.toNat ≤ top then some (b.toNat, rest) else none
  | marked + 1, b :: rest =>
    if b.toNat < 128 then some (b.toNat, rest)
    else do
      let (high, rest) ← decodeVarint top marked rest
      pure (b.toNat % 128 + 128 * high, rest)

/-- The bytes with a mark, and the last one without. -/
def Continued : Bytes → Prop
  | [] => False
  | b :: rest => (rest = [] ∧ b.toNat < 128) ∨ (128 ≤ b.toNat ∧ Continued rest)

/-- The number that the low seven bits of the bytes add up to. -/
def varintValue (spelling : Bytes) : ℕ := Nat.ofDigits 128 (spelling.map (·.toNat % 128))

@[simp] theorem varintValue_nil : varintValue [] = 0 := rfl

@[simp] theorem varintValue_cons (b : UInt8) (spelling : Bytes) :
    varintValue (b :: spelling) = b.toNat % 128 + 128 * varintValue spelling := by
  simp [varintValue, Nat.ofDigits_cons]

def SpellsVarint (top marked n : ℕ) (spelling : Bytes) : Prop :=
  spelling.length ≤ marked + 1 ∧ Continued spelling ∧ varintValue spelling = n ∧
    n < 128 ^ marked * (top + 1)

variable {top : ℕ}

theorem SpellsVarint.nonempty {marked n : ℕ} {spelling : Bytes}
    (h : SpellsVarint top marked n spelling) : ∃ b rest, spelling = b :: rest := by
  cases spelling with
  | nil => exact absurd h.2.1 id
  | cons b rest => exact ⟨b, rest, rfl⟩

theorem spellsVarint_zero_iff (htop : top < 128) {n : ℕ} {b : UInt8} {spelling : Bytes} :
    SpellsVarint top 0 n (b :: spelling) ↔ spelling = [] ∧ b.toNat = n ∧ n ≤ top := by
  constructor
  · rintro ⟨hlength, hcontinued, rfl, hbound⟩
    have hnil : spelling = [] := List.eq_nil_of_length_eq_zero (by simpa using hlength)
    subst hnil
    have hb : b.toNat < 128 := by simpa [Continued] using hcontinued
    simp only [varintValue_cons, varintValue_nil, pow_zero] at hbound ⊢
    exact ⟨trivial, by omega, by omega⟩
  · rintro ⟨rfl, rfl, hb⟩
    refine ⟨by simp, by simp [Continued]; omega, ?_, ?_⟩
    · simp only [varintValue_cons, varintValue_nil]
      omega
    · simp only [pow_zero]
      omega

/-- A byte without a mark is the whole spelling, one with a mark carries the lowest group. -/
theorem spellsVarint_succ_iff {marked n : ℕ} {b : UInt8} {spelling : Bytes} :
    SpellsVarint top (marked + 1) n (b :: spelling) ↔
      (spelling = [] ∧ b.toNat = n ∧ n < 128) ∨
        (128 ≤ b.toNat ∧ ∃ high, SpellsVarint top marked high spelling ∧
          n = b.toNat % 128 + 128 * high) := by
  have hpow : 128 ^ (marked + 1) * (top + 1) = 128 * (128 ^ marked * (top + 1)) := by ring
  have hpos : 0 < 128 ^ marked * (top + 1) := by positivity
  constructor
  · rintro ⟨hlength, hcontinued, rfl, hbound⟩
    rw [varintValue_cons] at hbound ⊢
    obtain ⟨rfl, hb⟩ | ⟨hb, hrest⟩ := hcontinued
    · simp only [varintValue_nil]
      exact Or.inl ⟨trivial, by omega, by omega⟩
    · refine Or.inr ⟨hb, varintValue spelling, ⟨by simpa using hlength, hrest, rfl, ?_⟩, rfl⟩
      omega
  · rintro (⟨rfl, rfl, hb⟩ | ⟨hb, high, ⟨hlength, hcontinued, rfl, hbound⟩, rfl⟩)
    · refine ⟨by simp, Or.inl ⟨rfl, hb⟩, by simp; omega, by omega⟩
    · exact ⟨by simpa using hlength, Or.inr ⟨hb, hcontinued⟩, by simp, by omega⟩

theorem decodeVarint_eq_some_iff (htop : top < 128) (marked : ℕ) (bytes : Bytes) (n : ℕ)
    (rest : Bytes) :
    decodeVarint top marked bytes = some (n, rest) ↔
      ∃ spelling, SpellsVarint top marked n spelling ∧ bytes = spelling ++ rest := by
  induction marked generalizing bytes n rest with
  | zero =>
    constructor
    · intro h
      cases bytes with
      | nil => simp [decodeVarint] at h
      | cons b bytes =>
        simp only [decodeVarint] at h
        split_ifs at h with hb
        simp only [Option.some.injEq, Prod.mk.injEq] at h
        obtain ⟨rfl, rfl⟩ := h
        exact ⟨[b], (spellsVarint_zero_iff htop).mpr ⟨rfl, rfl, hb⟩, rfl⟩
    · rintro ⟨spelling, hspells, rfl⟩
      obtain ⟨b, tail, rfl⟩ := hspells.nonempty
      obtain ⟨rfl, rfl, hb⟩ := (spellsVarint_zero_iff htop).mp hspells
      simp [decodeVarint, hb]
  | succ marked ih =>
    constructor
    · intro h
      cases bytes with
      | nil => simp [decodeVarint] at h
      | cons b bytes =>
        simp only [decodeVarint] at h
        split_ifs at h with hb
        · simp only [Option.some.injEq, Prod.mk.injEq] at h
          obtain ⟨rfl, rfl⟩ := h
          exact ⟨[b], spellsVarint_succ_iff.mpr (Or.inl ⟨rfl, rfl, hb⟩), rfl⟩
        · simp only [Option.bind_eq_bind, Option.bind_eq_some_iff, Prod.exists, ih,
            Option.pure_def, Option.some.injEq, Prod.mk.injEq] at h
          obtain ⟨high, _, ⟨spelling, hspells, rfl⟩, rfl, rfl⟩ := h
          exact ⟨b :: spelling,
            spellsVarint_succ_iff.mpr (Or.inr ⟨by omega, high, hspells, rfl⟩), rfl⟩
    · rintro ⟨spelling, hspells, rfl⟩
      obtain ⟨b, tail, rfl⟩ := hspells.nonempty
      obtain ⟨rfl, rfl, hb⟩ | ⟨hb, high, htail, rfl⟩ := spellsVarint_succ_iff.mp hspells
      · simp [decodeVarint, hb]
      · have hhigh := (ih (tail ++ rest) high rest).mpr ⟨tail, htail, rfl⟩
        simp [decodeVarint, show ¬b.toNat < 128 by omega, hhigh]

theorem spellsVarint_encodeVarint (htop : top < 128) {marked n : ℕ}
    (h : n < 128 ^ marked * (top + 1)) :
    SpellsVarint top marked n (encodeVarint marked n) := by
  induction marked generalizing n with
  | zero =>
    simp only [pow_zero] at h
    refine (spellsVarint_zero_iff htop).mpr ⟨rfl, ?_, by omega⟩
    rw [UInt8.toNat_ofNat']
    omega
  | succ marked ih =>
    rw [encodeVarint]
    split_ifs with hn
    · refine spellsVarint_succ_iff.mpr (Or.inl ⟨rfl, ?_, hn⟩)
      rw [UInt8.toNat_ofNat']
      omega
    · have hpow : 128 ^ (marked + 1) * (top + 1) = 128 * (128 ^ marked * (top + 1)) := by ring
      have hbyte : (UInt8.ofNat (n % 128 + 128)).toNat = n % 128 + 128 := by
        rw [UInt8.toNat_ofNat']
        omega
      exact spellsVarint_succ_iff.mpr
        (Or.inr ⟨by omega, n / 128, ih (by omega), by omega⟩)

theorem shortest_varint (htop : top < 128) {marked n : ℕ} {spelling : Bytes}
    (h : SpellsVarint top marked n spelling) :
    spelling = encodeVarint marked n ∨ (encodeVarint marked n).length < spelling.length := by
  induction marked generalizing n spelling with
  | zero =>
    obtain ⟨b, tail, rfl⟩ := h.nonempty
    obtain ⟨rfl, rfl, -⟩ := (spellsVarint_zero_iff htop).mp h
    exact Or.inl (by simp [encodeVarint])
  | succ marked ih =>
    obtain ⟨b, tail, rfl⟩ := h.nonempty
    obtain ⟨rfl, rfl, hb⟩ | ⟨hb, high, htail, rfl⟩ := spellsVarint_succ_iff.mp h
    · exact Or.inl (by simp [encodeVarint, hb])
    · rw [encodeVarint]
      split_ifs with hn
      · obtain ⟨c, tail, rfl⟩ := htail.nonempty
        exact Or.inr (by simp)
      · have hbound := b.toNat_lt
        have hbyte : UInt8.ofNat ((b.toNat % 128 + 128 * high) % 128 + 128) = b := by
          apply UInt8.toNat_inj.mp
          rw [UInt8.toNat_ofNat']
          omega
        have hhigh : (b.toNat % 128 + 128 * high) / 128 = high := by omega
        rw [hbyte, hhigh]
        obtain heq | hlt := ih htail
        · exact Or.inl (by rw [← heq])
        · exact Or.inr (by simpa using hlt)

/-- A number in at most `marked + 1` groups of seven bits, the last of them at most `top`. -/
def varint (marked top : ℕ) (htop : top < 128) : Format ℕ where
  encode := encodeVarint marked
  decode := decodeVarint top marked
  Fits n := n < 128 ^ marked * (top + 1)
  Spells := SpellsVarint top marked
  decode_eq_some_iff := decodeVarint_eq_some_iff htop marked
  spells_encode _ h := spellsVarint_encodeVarint htop h
  shortest _ _ h := shortest_varint htop h

end Varint
end Format
end JustDrop
