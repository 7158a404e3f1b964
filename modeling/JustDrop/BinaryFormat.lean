import JustDrop.ByteImage
import Mathlib.Data.PEquiv
import Mathlib.Data.Vector.Basic

/-!
# Binary formats

A format writes values as bytes and reads them back from the front of an input.
Its spellings say which bytes stand for a value: the reader consumes exactly a
spelling, and what the writer produces is the shortest one. Formats are put
together from smaller ones the way a serializer walks a type.
-/
namespace JustDrop

structure Format (α : Type) where
  encode : α → Bytes
  /-- The value at the front of an input and the bytes behind it. -/
  decode : Bytes → Option (α × Bytes)
  /-- The values the format has room for. -/
  Fits : α → Prop
  Spells : α → Bytes → Prop
  decode_eq_some_iff : ∀ bytes a rest,
    decode bytes = some (a, rest) ↔ ∃ spelling, Spells a spelling ∧ bytes = spelling ++ rest
  spells_encode : ∀ a, Fits a → Spells a (encode a)
  shortest : ∀ a spelling, Spells a spelling →
    spelling = encode a ∨ (encode a).length < spelling.length

namespace Format

variable {α β : Type}

section Laws
variable (f : Format α)

theorem decode_spelling {a : α} {spelling : Bytes} (rest : Bytes) (h : f.Spells a spelling) :
    f.decode (spelling ++ rest) = some (a, rest) :=
  (f.decode_eq_some_iff _ _ _).mpr ⟨spelling, h, rfl⟩

/-- What was written is read back, whatever follows. -/
theorem decode_encode {a : α} (rest : Bytes) (h : f.Fits a) :
    f.decode (f.encode a ++ rest) = some (a, rest) :=
  f.decode_spelling rest (f.spells_encode a h)

theorem length_encode_le {a : α} {spelling : Bytes} (h : f.Spells a spelling) :
    (f.encode a).length ≤ spelling.length := by
  obtain rfl | hlt := f.shortest a spelling h
  · exact Nat.le_refl _
  · omega

theorem eq_encode_of_length_le {a : α} {spelling : Bytes} (h : f.Spells a spelling)
    (hlength : spelling.length ≤ (f.encode a).length) : spelling = f.encode a := by
  obtain heq | hlt := f.shortest a spelling h
  · exact heq
  · omega

/-- Two shortest spellings, one after the other, are the shortest of both. -/
theorem shortest_append {p q p' q' : Bytes} (hp : p = p' ∨ p'.length < p.length)
    (hq : q = q' ∨ q'.length < q.length) :
    p ++ q = p' ++ q' ∨ (p' ++ q').length < (p ++ q).length := by
  simp only [List.length_append]
  obtain rfl | hp := hp
  · obtain rfl | hq := hq
    · exact Or.inl rfl
    · exact Or.inr (by omega)
  · obtain rfl | hq := hq
    · exact Or.inr (by omega)
    · exact Or.inr (by omega)

end Laws

/-- The format of no value. -/
def nothing : Format α where
  encode _ := []
  decode _ := none
  Fits _ := False
  Spells _ _ := False
  decode_eq_some_iff := by simp
  spells_encode := by simp
  shortest := by simp

/-- The format of the one value that takes no bytes. -/
def unit : Format Unit where
  encode _ := []
  decode bytes := some ((), bytes)
  Fits _ := True
  Spells _ spelling := spelling = []
  decode_eq_some_iff := by simp
  spells_encode := by simp
  shortest := by simp

def byte : Format UInt8 where
  encode b := [b]
  decode
    | [] => none
    | b :: rest => some (b, rest)
  Fits _ := True
  Spells b spelling := spelling = [b]
  decode_eq_some_iff bytes b rest := by cases bytes <;> simp
  spells_encode := by simp
  shortest := by simp

def pair (f : Format α) (g : Format β) : Format (α × β) where
  encode v := f.encode v.1 ++ g.encode v.2
  decode bytes := do
    let (a, rest) ← f.decode bytes
    let (b, rest) ← g.decode rest
    pure ((a, b), rest)
  Fits v := f.Fits v.1 ∧ g.Fits v.2
  Spells v spelling := ∃ p q, f.Spells v.1 p ∧ g.Spells v.2 q ∧ spelling = p ++ q
  decode_eq_some_iff bytes v rest := by
    obtain ⟨a, b⟩ := v
    simp only [Option.bind_eq_bind, Option.bind_eq_some_iff, Prod.exists, f.decode_eq_some_iff,
      g.decode_eq_some_iff, Option.pure_def, Option.some.injEq, Prod.mk.injEq]
    constructor
    · rintro ⟨a', _, ⟨p, hp, rfl⟩, b', _, ⟨q, hq, rfl⟩, ⟨rfl, rfl⟩, rfl⟩
      exact ⟨p ++ q, ⟨p, q, hp, hq, rfl⟩, by simp⟩
    · rintro ⟨_, ⟨p, q, hp, hq, rfl⟩, rfl⟩
      exact ⟨a, q ++ rest, ⟨p, hp, by simp⟩, b, rest, ⟨q, hq, rfl⟩, ⟨rfl, rfl⟩, rfl⟩
  spells_encode v h := ⟨_, _, f.spells_encode v.1 h.1, g.spells_encode v.2 h.2, rfl⟩
  shortest v spelling h := by
    obtain ⟨p, q, hp, hq, rfl⟩ := h
    exact shortest_append (f.shortest v.1 p hp) (g.shortest v.2 q hq)

/-- A format seen through a partial bijection: what the bijection leaves out is refused. -/
def via (f : Format β) (e : α ≃. β) : Format α where
  encode a := ((e a).map f.encode).getD []
  decode bytes := do
    let (b, rest) ← f.decode bytes
    let a ← e.symm b
    pure (a, rest)
  Fits a := ∃ b, e a = some b ∧ f.Fits b
  Spells a spelling := ∃ b, e a = some b ∧ f.Spells b spelling
  decode_eq_some_iff bytes a rest := by
    simp only [Option.bind_eq_bind, Option.bind_eq_some_iff, Prod.exists, f.decode_eq_some_iff,
      e.eq_some_iff, Option.pure_def, Option.some.injEq, Prod.mk.injEq]
    constructor
    · rintro ⟨b, _, ⟨p, hp, rfl⟩, a', hb, rfl, rfl⟩
      exact ⟨p, ⟨b, hb, hp⟩, rfl⟩
    · rintro ⟨p, ⟨b, hb, hp⟩, rfl⟩
      exact ⟨b, rest, ⟨p, hp, rfl⟩, a, hb, rfl, rfl⟩
  spells_encode a h := by
    obtain ⟨b, hb, hfits⟩ := h
    exact ⟨b, hb, by simpa [hb] using f.spells_encode b hfits⟩
  shortest a spelling h := by
    obtain ⟨b, hb, hspells⟩ := h
    simpa [hb] using f.shortest b spelling hspells

/-- An index, and behind it a value of the variant with this index. -/
def choice (index : Format ℕ) (indexOf : α → ℕ) (variants : ℕ → Format α)
    (h : ∀ i a spelling, (variants i).Spells a spelling → indexOf a = i) : Format α where
  encode a := index.encode (indexOf a) ++ (variants (indexOf a)).encode a
  decode bytes := do
    let (i, rest) ← index.decode bytes
    (variants i).decode rest
  Fits a := index.Fits (indexOf a) ∧ (variants (indexOf a)).Fits a
  Spells a spelling := ∃ p q, index.Spells (indexOf a) p ∧ (variants (indexOf a)).Spells a q ∧
    spelling = p ++ q
  decode_eq_some_iff bytes a rest := by
    simp only [Option.bind_eq_bind, Option.bind_eq_some_iff, Prod.exists,
      index.decode_eq_some_iff, Format.decode_eq_some_iff]
    constructor
    · rintro ⟨i, _, ⟨p, hp, rfl⟩, q, hq, rfl⟩
      obtain rfl := h i a q hq
      exact ⟨p ++ q, ⟨p, q, hp, hq, rfl⟩, by simp⟩
    · rintro ⟨_, ⟨p, q, hp, hq, rfl⟩, rfl⟩
      exact ⟨_, q ++ rest, ⟨p, hp, by simp⟩, q, hq, rfl⟩
  spells_encode a hfits :=
    ⟨_, _, index.spells_encode _ hfits.1, Format.spells_encode _ a hfits.2, rfl⟩
  shortest a spelling hspells := by
    obtain ⟨p, q, hp, hq, rfl⟩ := hspells
    exact shortest_append (index.shortest _ p hp) (Format.shortest _ a q hq)

/-! ### Sequences -/

/-- As many values one after the other. -/
def decodeMany (f : Format α) : ℕ → Bytes → Option (List α × Bytes)
  | 0, bytes => some ([], bytes)
  | n + 1, bytes => do
    let (a, rest) ← f.decode bytes
    let (as, rest) ← decodeMany f n rest
    pure (a :: as, rest)

/-- Spellings of values one after the other. -/
def SpellsMany (f : Format α) : List α → Bytes → Prop
  | [], spelling => spelling = []
  | a :: as, spelling => ∃ p q, f.Spells a p ∧ SpellsMany f as q ∧ spelling = p ++ q

section Many
variable (f : Format α)

theorem decodeMany_eq_some_iff (n : ℕ) (bytes : Bytes) (as : List α) (rest : Bytes) :
    f.decodeMany n bytes = some (as, rest) ↔
      as.length = n ∧ ∃ spelling, f.SpellsMany as spelling ∧ bytes = spelling ++ rest := by
  induction n generalizing bytes as rest with
  | zero =>
    cases as with
    | nil => simp [decodeMany, SpellsMany]
    | cons a as => simp [decodeMany]
  | succ n ih =>
    simp only [decodeMany, Option.bind_eq_bind, Option.bind_eq_some_iff, Prod.exists,
      f.decode_eq_some_iff, ih, Option.pure_def, Option.some.injEq, Prod.mk.injEq]
    constructor
    · rintro ⟨a, _, ⟨p, hp, rfl⟩, as', _, ⟨hlength, q, hq, rfl⟩, rfl, rfl⟩
      exact ⟨by simp [hlength], p ++ q, ⟨p, q, hp, hq, rfl⟩, by simp⟩
    · rintro ⟨hlength, spelling, hspells, rfl⟩
      cases as with
      | nil => simp at hlength
      | cons a as =>
        obtain ⟨p, q, hp, hq, rfl⟩ := hspells
        exact ⟨a, q ++ rest, ⟨p, hp, by simp⟩, as, rest, ⟨by simpa using hlength, q, hq, rfl⟩,
          rfl, rfl⟩

theorem spellsMany_flatMap (as : List α) (h : ∀ a ∈ as, f.Fits a) :
    f.SpellsMany as (as.flatMap f.encode) := by
  induction as with
  | nil => rfl
  | cons a as ih =>
    exact ⟨_, _, f.spells_encode a (h a (by simp)), ih fun b hb => h b (by simp [hb]), by simp⟩

theorem shortest_many (as : List α) (spelling : Bytes) (h : f.SpellsMany as spelling) :
    spelling = as.flatMap f.encode ∨ (as.flatMap f.encode).length < spelling.length := by
  induction as generalizing spelling with
  | nil => exact Or.inl h
  | cons a as ih =>
    obtain ⟨p, q, hp, hq, rfl⟩ := h
    exact shortest_append (f.shortest a p hp) (ih q hq)

end Many

/-- A length, and behind it so many values. -/
def list (length : Format ℕ) (f : Format α) : Format (List α) where
  encode as := length.encode as.length ++ as.flatMap f.encode
  decode bytes := do
    let (n, rest) ← length.decode bytes
    f.decodeMany n rest
  Fits as := length.Fits as.length ∧ ∀ a ∈ as, f.Fits a
  Spells as spelling := ∃ p q, length.Spells as.length p ∧ f.SpellsMany as q ∧ spelling = p ++ q
  decode_eq_some_iff bytes as rest := by
    simp only [Option.bind_eq_bind, Option.bind_eq_some_iff, Prod.exists,
      length.decode_eq_some_iff, decodeMany_eq_some_iff]
    constructor
    · rintro ⟨n, _, ⟨p, hp, rfl⟩, rfl, q, hq, rfl⟩
      exact ⟨p ++ q, ⟨p, q, hp, hq, rfl⟩, by simp⟩
    · rintro ⟨_, ⟨p, q, hp, hq, rfl⟩, rfl⟩
      exact ⟨_, q ++ rest, ⟨p, hp, by simp⟩, rfl, q, hq, rfl⟩
  spells_encode as h := ⟨_, _, length.spells_encode _ h.1, f.spellsMany_flatMap as h.2, rfl⟩
  shortest as spelling h := by
    obtain ⟨p, q, hp, hq, rfl⟩ := h
    exact shortest_append (length.shortest _ p hp) (f.shortest_many as q hq)

/-- A fixed number of values, without their number. -/
def vector (n : ℕ) (f : Format α) : Format (Vector α n) where
  encode v := v.toList.flatMap f.encode
  decode bytes := do
    let (as, rest) ← f.decodeMany n bytes
    if h : as.toArray.size = n then pure (⟨as.toArray, h⟩, rest) else none
  Fits v := ∀ a ∈ v.toList, f.Fits a
  Spells v spelling := f.SpellsMany v.toList spelling
  decode_eq_some_iff bytes v rest := by
    simp only [Option.bind_eq_bind, Option.bind_eq_some_iff, Prod.exists, decodeMany_eq_some_iff]
    constructor
    · rintro ⟨as, _, ⟨hlength, p, hp, rfl⟩, hread⟩
      rw [dif_pos (by simpa using hlength)] at hread
      simp only [Option.pure_def, Option.some.injEq, Prod.mk.injEq] at hread
      obtain ⟨rfl, rfl⟩ := hread
      exact ⟨p, hp, rfl⟩
    · rintro ⟨p, hp, rfl⟩
      exact ⟨v.toList, rest, ⟨by simp, p, hp, rfl⟩, by simp [Vector.toList]⟩
  spells_encode v h := f.spellsMany_flatMap v.toList h
  shortest v spelling h := f.shortest_many v.toList spelling h

end Format
end JustDrop
