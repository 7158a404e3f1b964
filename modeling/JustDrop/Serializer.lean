import JustDrop.NumberFormat

/-!
# Serializers

A serializer walks a type field by field. What it chooses is how integers, lengths
and variant indices are written; everything else is put together from them. Bincode
writes them in full width, Postcard in groups of seven bits.
-/
namespace JustDrop

namespace Format
variable {α β : Type}

/-- The values that one constructor builds. -/
def built (f : Format β) (build : β → α) (field : α → Option β)
    (h : ∀ a b, field a = some b ↔ build b = a) : Format α :=
  f.via {
    toFun := field
    invFun := fun b => some (build b)
    inv := by simp [h] }

theorem built_spells {f : Format β} {build : β → α} {field : α → Option β}
    {h : ∀ a b, field a = some b ↔ build b = a} {a : α} {spelling : Bytes} :
    (f.built build field h).Spells a spelling ↔ ∃ b, build b = a ∧ f.Spells b spelling := by
  simp [built, via, h]

theorem built_encode {f : Format β} {build : β → α} {field : α → Option β}
    {h : ∀ a b, field a = some b ↔ build b = a} {b : β} :
    (f.built build field h).encode (build b) = f.encode b := by
  have hfield : field (build b) = some b := (h _ _).mpr rfl
  simp [built, via, hfield]

/-- The fields of a record, in the order in which they are written. -/
def record (f : Format β) (fields : α ≃ β) : Format α := f.via fields.toPEquiv

theorem record_fits {f : Format β} {fields : α ≃ β} {a : α} :
    (f.record fields).Fits a ↔ f.Fits (fields a) := by
  simp [record, via]

theorem record_encode {f : Format β} {fields : α ≃ β} {a : α} :
    (f.record fields).encode a = f.encode (fields a) := by
  simp [record, via]

/-- The constructors of an enumeration, numbered in their order. -/
def numbered [DecidableEq α] (values : List α) (hnodup : values.Nodup) : α ≃. ℕ where
  toFun a := if a ∈ values then some (values.idxOf a) else none
  invFun i := values[i]?
  inv a i := by
    rw [List.getElem?_eq_some_iff]
    constructor
    · rintro ⟨hi, rfl⟩
      rw [if_pos (List.getElem_mem hi), List.Nodup.idxOf_getElem hnodup]
    · intro h
      split_ifs at h with hmem
      simp only [Option.some.injEq] at h
      subst h
      exact ⟨List.idxOf_lt_length_of_mem hmem, List.getElem_idxOf _⟩

/-- A list of one length is a vector. -/
def vectorOf (α : Type) (n : ℕ) : Vector α n ≃. List α where
  toFun v := some v.toList
  invFun as := if h : as.toArray.size = n then some ⟨as.toArray, h⟩ else none
  inv v as := by
    constructor
    · intro h
      split_ifs at h with hsize
      simp only [Option.some.injEq] at h
      subst h
      rfl
    · intro h
      simp only [Option.some.injEq] at h
      subst h
      simp [Vector.toList]

/-- A text is the bytes of its UTF-8 form. -/
def utf8Text : String ≃. Bytes where
  toFun t := some (Bincode.utf8 t)
  invFun b := String.fromUTF8? ⟨b.toArray⟩
  inv t b := by
    rw [String.fromUTF8?, Option.some.injEq, Bincode.utf8]
    constructor
    · intro h
      split_ifs at h with hvalid
      simp only [Option.some.injEq] at h
      subst h
      rfl
    · intro h
      subst h
      have hvalid : ByteArray.IsValidUTF8 ⟨t.toUTF8.data.toList.toArray⟩ := by
        simpa using t.isValidUTF8
      rw [dif_pos hvalid, Option.some.injEq, ← String.toByteArray_inj]
      rfl

def word16 : UInt16 ≃. ℕ where
  toFun n := some n.toNat
  invFun k := if k < 2 ^ 16 then some (UInt16.ofNat k) else none
  inv n k := by
    constructor
    · intro h
      split_ifs at h with hk
      simp only [Option.some.injEq] at h
      subst h
      rw [UInt16.toNat_ofNat_of_lt' hk]
    · intro h
      simp only [Option.some.injEq] at h
      subst h
      rw [if_pos n.toNat_lt, UInt16.ofNat_toNat]

def word32 : UInt32 ≃. ℕ where
  toFun n := some n.toNat
  invFun k := if k < 2 ^ 32 then some (UInt32.ofNat k) else none
  inv n k := by
    constructor
    · intro h
      split_ifs at h with hk
      simp only [Option.some.injEq] at h
      subst h
      rw [UInt32.toNat_ofNat_of_lt' hk]
    · intro h
      simp only [Option.some.injEq] at h
      subst h
      rw [if_pos n.toNat_lt, UInt32.ofNat_toNat]

def word64 : UInt64 ≃. ℕ where
  toFun n := some n.toNat
  invFun k := if k < 2 ^ 64 then some (UInt64.ofNat k) else none
  inv n k := by
    constructor
    · intro h
      split_ifs at h with hk
      simp only [Option.some.injEq] at h
      subst h
      rw [UInt64.toNat_ofNat_of_lt' hk]
    · intro h
      simp only [Option.some.injEq] at h
      subst h
      rw [if_pos n.toNat_lt, UInt64.ofNat_toNat]

/-- A byte that is zero or one. -/
def bool : Format Bool := (fixed 1).via (numbered [false, true] (by decide))

/-- A byte that says whether a value follows. -/
def option (f : Format α) : Format (Option α) :=
  choice (fixed 1) (fun o => if o.isSome then 1 else 0)
    (fun
      | 0 => unit.built (fun _ => none) (fun o => if o.isSome then none else some ())
          (by intro o b; cases o <;> simp)
      | 1 => f.built some id (by intro o b; simp [eq_comm])
      | _ => nothing)
    (by
      intro i o spelling h
      match i, h with
      | 0, h =>
        obtain ⟨b, rfl, -⟩ := built_spells.mp h
        rfl
      | 1, h =>
        obtain ⟨b, rfl, -⟩ := built_spells.mp h
        rfl
      | i + 2, h => exact absurd h id)

end Format

/-- How integers, the length of a sequence and the index of a variant are written. -/
structure Serializer where
  u32 : Format UInt32
  u64 : Format UInt64
  length : Format ℕ
  variant : Format ℕ
  fits_u32 : ∀ n, u32.Fits n
  fits_u64 : ∀ n, u64.Fits n
  fits_length : ∀ n, length.Fits n ↔ n < 2 ^ 64
  fits_variant : ∀ n, variant.Fits n ↔ n < 2 ^ 32

namespace Serializer
open Format

/-- Fixed width, lowest byte first. -/
def bincode : Serializer where
  u32 := (fixed 4).via word32
  u64 := (fixed 8).via word64
  length := fixed 8
  variant := fixed 4
  fits_u32 n := ⟨n.toNat, rfl, n.toNat_lt⟩
  fits_u64 n := ⟨n.toNat, rfl, n.toNat_lt⟩
  fits_length _ := Iff.rfl
  fits_variant _ := Iff.rfl

/-- At most five groups for 32 bits and ten for 64, the last with the bits that remain. -/
def postcard : Serializer where
  u32 := (varint 4 15 (by omega)).via word32
  u64 := (varint 9 1 (by omega)).via word64
  length := varint 9 1 (by omega)
  variant := varint 4 15 (by omega)
  fits_u32 n := ⟨n.toNat, rfl, n.toNat_lt⟩
  fits_u64 n := ⟨n.toNat, rfl, n.toNat_lt⟩
  fits_length _ := Iff.rfl
  fits_variant _ := Iff.rfl

/-- Postcard's form of 16 bits: at most three groups. -/
def postcardU16 : Format UInt16 := (varint 2 3 (by omega)).via word16

@[simp] theorem fits_postcardU16 (n : UInt16) : postcardU16.Fits n := ⟨n.toNat, rfl, n.toNat_lt⟩

variable (s : Serializer)

def bytes : Format Bytes := Format.list s.length byte

def string : Format String := s.bytes.via utf8Text

def array (n : ℕ) : Format (Vector UInt8 n) := Format.vector n byte

/-- The constructors of an enumeration without fields. -/
def enumeration {α : Type} [DecidableEq α] (values : List α) (hnodup : values.Nodup) : Format α :=
  s.variant.via (numbered values hnodup)

@[simp] theorem fits_bytes (b : Bytes) : s.bytes.Fits b ↔ b.length < 2 ^ 64 := by
  simp [bytes, Format.list, s.fits_length, byte]

@[simp] theorem fits_string (t : String) :
    s.string.Fits t ↔ (Bincode.utf8 t).length < 2 ^ 64 := by
  simp [string, via, utf8Text]

@[simp] theorem fits_array {n : ℕ} (v : Vector UInt8 n) : (array n).Fits v := by
  simp [array, Format.vector, byte]

@[simp] theorem fits_seq {α : Type} (f : Format α) (as : List α) :
    (Format.list s.length f).Fits as ↔ as.length < 2 ^ 64 ∧ ∀ a ∈ as, f.Fits a := by
  simp [Format.list, s.fits_length]

@[simp] theorem fits_option {α : Type} (f : Format α) (o : Option α) :
    (Format.option f).Fits o ↔ ∀ a ∈ o, f.Fits a := by
  cases o with
  | none => simp [Format.option, choice, fixed, built, via, unit]
  | some a => simp [Format.option, choice, fixed, built, via]

@[simp] theorem fits_bool (b : Bool) : Format.bool.Fits b := by
  cases b <;> simp [Format.bool, via, fixed, numbered]

theorem fits_enumeration {α : Type} [DecidableEq α] {values : List α} {hnodup : values.Nodup}
    (hlength : values.length < 2 ^ 32) {a : α} (ha : a ∈ values) :
    (s.enumeration values hnodup).Fits a := by
  have hindex := List.idxOf_lt_length_of_mem ha
  exact ⟨values.idxOf a, if_pos ha, (s.fits_variant _).mpr (by omega)⟩

/-! ### What stands for a text -/

/-- A text is its length and its bytes. -/
theorem string_spells_iff {t : String} {spelling : Bytes} : s.string.Spells t spelling ↔
    ∃ p, s.length.Spells (Bincode.utf8 t).length p ∧ spelling = p ++ Bincode.utf8 t := by
  have hmany : ∀ b q : Bytes, byte.SpellsMany b q ↔ q = b := by
    intro b
    induction b with
    | nil => exact fun q => Iff.rfl
    | cons b bytes ih =>
      intro q
      constructor
      · rintro ⟨p, q, hp, hq, rfl⟩
        obtain rfl : p = [b] := hp
        rw [(ih q).mp hq]
        rfl
      · rintro rfl
        exact ⟨[b], bytes, rfl, (ih bytes).mpr rfl, rfl⟩
  simp [string, via, utf8Text, bytes, Format.list, hmany]

/-- A small first byte is the whole length. -/
theorem postcard_string_head {t : String} {b : UInt8} {data tail : Bytes} (hb : b.toNat < 128)
    (h : ∃ spelling, postcard.string.Spells t spelling ∧ b :: data = spelling ++ tail) :
    (Bincode.utf8 t).length = b.toNat ∧ data = Bincode.utf8 t ++ tail := by
  obtain ⟨spelling, hspells, hdata⟩ := h
  obtain ⟨p, hlength, rfl⟩ := postcard.string_spells_iff.mp hspells
  obtain ⟨c, q, rfl⟩ := SpellsVarint.nonempty hlength
  simp only [List.cons_append, List.cons.injEq] at hdata
  obtain ⟨rfl, hdata⟩ := hdata
  obtain ⟨rfl, hvalue, -⟩ | ⟨hmarked, -⟩ := spellsVarint_succ_iff.mp hlength
  · exact ⟨hvalue.symm, by simpa using hdata⟩
  · omega

/-- What may be missing begins with a byte that is zero or one. -/
theorem option_spells_head {α : Type} {f : Format α} {o : Option α} {spelling : Bytes}
    (h : (Format.option f).Spells o spelling) :
    ∃ b rest, spelling = b :: rest ∧ b.toNat ≤ 1 := by
  obtain ⟨p, q, ⟨hlength, hvalue⟩, -, rfl⟩ := h
  match p, hlength with
  | [b], _ =>
    refine ⟨b, q, rfl, ?_⟩
    simp only [List.map_cons, List.map_nil, Nat.ofDigits_singleton] at hvalue
    rw [hvalue]
    split_ifs <;> omega

/-! ### What bincode writes -/

section Bincode

theorem encode_byte_flatMap (b : Bytes) : b.flatMap byte.encode = b := by
  simp [byte]

theorem bincode_bytes (b : Bytes) : bincode.bytes.encode b = Bincode.bytes b := by
  simp only [bytes, Format.list, encode_byte_flatMap]
  rfl

theorem bincode_string (t : String) : bincode.string.encode t = Bincode.string t :=
  bincode_bytes _

theorem encode_array {n : ℕ} (v : Vector UInt8 n) : (array n).encode v = Bincode.array v :=
  encode_byte_flatMap _

theorem bincode_option {α : Type} (f : Format α) (o : Option α) :
    (Format.option f).encode o = Bincode.option f.encode o := by
  cases o with
  | none => rfl
  | some a => rfl

theorem encode_bool (b : Bool) : Format.bool.encode b = Bincode.bool b := by
  cases b <;> rfl

end Bincode

end Serializer
end JustDrop
