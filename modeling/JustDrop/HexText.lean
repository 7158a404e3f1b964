import JustDrop.Hex
import JustDrop.Utf8

/-!
# What the decoder takes for hexadecimal text

The integer parser reads a sign where a digit should stand, and slicing panics where
two bytes do not end with a character. Apart from these the decoder reads the texts of
digits, an even number of them, and no others.
-/
namespace JustDrop
open Utf8 (CutsBetween cutsBetween_cons_iff)

def hexDigits : Text := "0123456789abcdefABCDEF".toList

def IsHexDigit (c : Char) : Prop := c ∈ hexDigits

instance (c : Char) : Decidable (IsHexDigit c) := inferInstanceAs (Decidable (_ ∈ _))

/-- Pairs of digits, with a sign allowed for the first one. -/
def Readable : Text → Prop
  | [] => True
  | [_] => False
  | c :: d :: rest => ((IsHexDigit c ∨ c = '+') ∧ IsHexDigit d) ∧ Readable rest

/-- The text spells the bytes with two digits each, in either case. -/
structure SpellsHex (s : Text) (bytes : Bytes) : Prop where
  even : s.length % 2 = 0
  digits : ∀ c ∈ s, IsHexDigit c
  encode_eq : hexEncode bytes = s.map Char.toLower

/-- The decoder returns, with the bytes that are spelled and no others. -/
def DecodesExactly (s : Text) : Prop :=
  ∃ result, hexDecode s = some result ∧ ∀ bytes, result = some bytes ↔ SpellsHex s bytes

/-! ### Pairs of characters -/

section Pairs
variable {c d : Char}

theorem exists_hexDigit_iff : (∃ n, hexDigit c = some n) ↔ IsHexDigit c := by
  constructor
  · rintro ⟨n, h⟩
    have hrange : ('0' ≤ c ∧ c ≤ '9') ∨ ('a' ≤ c ∧ c ≤ 'f') ∨ ('A' ≤ c ∧ c ≤ 'F') := by
      unfold hexDigit at h
      split_ifs at h with h1 h2 h3
      · exact Or.inl h1
      · exact Or.inr (Or.inl h2)
      · exact Or.inr (Or.inr h3)
    have hmem : ∀ k : Fin 128, (48 ≤ k.val ∧ k.val ≤ 57) ∨ (97 ≤ k.val ∧ k.val ≤ 102) ∨
        (65 ≤ k.val ∧ k.val ≤ 70) → IsHexDigit (Char.ofNat k.val) := by decide
    have hbounds : (48 ≤ c.toNat ∧ c.toNat ≤ 57) ∨ (97 ≤ c.toNat ∧ c.toNat ≤ 102) ∨
        (65 ≤ c.toNat ∧ c.toNat ≤ 70) := hrange
    have hdigit := hmem ⟨c.toNat, by omega⟩ hbounds
    rwa [Char.ofNat_toNat] at hdigit
  · intro h
    have hall : hexDigits.all (fun c => (hexDigit c).isSome) = true := by decide
    exact Option.isSome_iff_exists.mp (List.all_eq_true.mp hall c h)

theorem exists_hexPair_iff :
    (∃ b, hexPair c d = some b) ↔ (IsHexDigit c ∨ c = '+') ∧ IsHexDigit d := by
  simp only [← exists_hexDigit_iff (c := d), ← exists_hexDigit_iff (c := c)]
  unfold hexPair
  by_cases hplus : c = '+'
  · simp [hplus, Option.bind_eq_some_iff]
  · simp [hplus, Option.bind_eq_some_iff, and_comm]

theorem utf8Size_of_isHexDigit (h : IsHexDigit c) : c.utf8Size = 1 := by
  have hall : hexDigits.all (fun c => decide (c.utf8Size = 1)) = true := by decide
  exact of_decide_eq_true (List.all_eq_true.mp hall c h)

theorem utf8Size_of_isHexDigit_or (h : IsHexDigit c ∨ c = '+') : c.utf8Size = 1 := by
  rcases h with h | rfl
  · exact utf8Size_of_isHexDigit h
  · rfl

/-- Two digits are written back in lower case. -/
theorem hex_of_hexPair (hc : IsHexDigit c) (hd : IsHexDigit d) {b : UInt8}
    (h : hexPair c d = some b) : Peer.hex 2 b.toNat = [c.toLower, d.toLower] := by
  have hall : hexDigits.all (fun c => hexDigits.all fun d => (hexPair c d).all fun b =>
      decide (Peer.hex 2 b.toNat = [c.toLower, d.toLower])) = true := by decide +kernel
  have hpair := List.all_eq_true.mp (List.all_eq_true.mp hall c hc) d hd
  rw [h] at hpair
  exact of_decide_eq_true hpair

end Pairs

/-! ### Texts -/

section Texts
variable {s : Text} {bytes : Bytes}

@[simp] theorem utf8Length_nil : utf8Length [] = 0 := rfl

theorem utf8Length_cons (c : Char) (s : Text) : utf8Length (c :: s) = c.utf8Size + utf8Length s :=
  rfl

theorem hexPairs_of_reads {c d : Char} {b : UInt8} (h : hexPair c d = some b) (rest : Text) :
    hexPairs (c :: d :: rest) = (hexPairs rest).map (Option.map (b :: ·)) := by
  obtain ⟨hc, hd⟩ := exists_hexPair_iff.mp ⟨b, h⟩
  rw [hexPairs, if_pos ⟨utf8Size_of_isHexDigit_or hc, utf8Size_of_isHexDigit hd⟩, h]

theorem exists_hexPairs_of_readable (h : Readable s) :
    ∃ bytes, hexPairs s = some (some bytes) := by
  induction s using Readable.induct with
  | case1 => exact ⟨[], rfl⟩
  | case2 c => exact absurd h id
  | case3 c d rest ih =>
    obtain ⟨hpair, hrest⟩ := h
    obtain ⟨b, hb⟩ := exists_hexPair_iff.mpr hpair
    obtain ⟨bytes, hbytes⟩ := ih hrest
    exact ⟨b :: bytes, by rw [hexPairs_of_reads hb, hbytes]; rfl⟩

/-- The bytes that are read begin with that of the first pair. -/
theorem exists_of_hexPairs_cons {c d : Char} {rest : Text}
    (h : hexPairs (c :: d :: rest) = some (some bytes)) :
    ∃ b tail, hexPair c d = some b ∧ hexPairs rest = some (some tail) ∧ bytes = b :: tail := by
  have hreads : ∃ b, hexPair c d = some b := by
    unfold hexPairs at h
    split_ifs at h
    · cases hpair : hexPair c d with
      | none => simp [hpair] at h
      | some b => exact ⟨b, rfl⟩
    · simp at h
  obtain ⟨b, hb⟩ := hreads
  rw [hexPairs_of_reads hb] at h
  obtain ⟨result, hrest, hresult⟩ := Option.map_eq_some_iff.mp h
  obtain ⟨tail, rfl, rfl⟩ := Option.map_eq_some_iff.mp hresult
  exact ⟨b, tail, hb, hrest, rfl⟩

/-- Only pairs are read, and the digits among them stand for the bytes. -/
theorem readable_of_hexPairs (h : hexPairs s = some (some bytes)) :
    Readable s ∧ ('+' ∉ s → SpellsHex s bytes) := by
  induction s using Readable.induct generalizing bytes with
  | case1 =>
    obtain rfl : [] = bytes := by simpa [hexPairs] using h
    exact ⟨trivial, fun _ => ⟨rfl, by simp, rfl⟩⟩
  | case2 c =>
    unfold hexPairs at h
    split_ifs at h
    simp at h
  | case3 c d rest ih =>
    obtain ⟨b, tail, hb, hrest, rfl⟩ := exists_of_hexPairs_cons h
    have hpair := exists_hexPair_iff.mp ⟨b, hb⟩
    obtain ⟨hreadable, hspells⟩ := ih hrest
    refine ⟨⟨hpair, hreadable⟩, fun hplus => ?_⟩
    simp only [List.mem_cons, not_or] at hplus
    obtain ⟨heven, hdigits, hencode⟩ := hspells hplus.2.2
    have hc : IsHexDigit c := hpair.1.resolve_right (Ne.symm hplus.1)
    refine ⟨?_, ?_, ?_⟩
    · simp only [List.length_cons]
      omega
    · simp only [List.forall_mem_cons]
      exact ⟨hc, hpair.2, hdigits⟩
    · rw [hexEncode_cons, hex_of_hexPair hc hpair.2 hb, hencode]
      rfl

theorem utf8Length_of_digits (h : ∀ c ∈ s, IsHexDigit c) : utf8Length s = s.length := by
  induction s with
  | nil => rfl
  | cons c s ih =>
    rw [List.forall_mem_cons] at h
    rw [utf8Length_cons, utf8Size_of_isHexDigit h.1, ih h.2, List.length_cons, Nat.add_comm]

theorem SpellsHex.readable (h : SpellsHex s bytes) : Readable s := by
  obtain ⟨heven, hdigits, -⟩ := h
  induction s using Readable.induct with
  | case1 => trivial
  | case2 c => simp at heven
  | case3 c d rest ih =>
    simp only [List.forall_mem_cons] at hdigits
    simp only [List.length_cons] at heven
    exact ⟨⟨Or.inl hdigits.1, hdigits.2.1⟩, ih (by omega) hdigits.2.2⟩

theorem SpellsHex.unique {other : Bytes} (h : SpellsHex s bytes) (h' : SpellsHex s other) :
    bytes = other :=
  hexEncode_injective (h.encode_eq.trans h'.encode_eq.symm)

theorem not_isHexDigit_plus : ¬IsHexDigit '+' := by decide

theorem cutsBetween_two_iff {c d : Char} {rest : Text} :
    CutsBetween (c :: d :: rest) 2 ↔ c.utf8Size = 2 ∨ c.utf8Size = 1 ∧ d.utf8Size = 1 := by
  have hc := c.utf8Size_pos
  have hd := d.utf8Size_pos
  rw [cutsBetween_cons_iff, cutsBetween_cons_iff]
  constructor
  · rintro (hzero | ⟨hle, hzero | ⟨hle', -⟩⟩)
    · omega
    · omega
    · omega
  · rintro (hsize | ⟨hsize, hsize'⟩)
    · exact Or.inr ⟨by omega, Or.inl (by omega)⟩
    · refine Or.inr ⟨by omega, Or.inr ⟨by omega, [], List.nil_prefix, ?_⟩⟩
      rw [hsize, hsize']
      rfl

/-- What is behind the pairs of a text is the text itself or behind its first pair. -/
theorem forall_behind_pairs_iff {P : Text → Prop} {c d : Char} {rest : Text} :
    (∀ pre tail, c :: d :: rest = pre ++ tail → Readable pre → P tail) ↔
      P (c :: d :: rest) ∧ ((IsHexDigit c ∨ c = '+') ∧ IsHexDigit d →
        ∀ pre tail, rest = pre ++ tail → Readable pre → P tail) := by
  constructor
  · intro h
    refine ⟨h [] _ rfl trivial, fun hpair pre tail hsplit hreadable => ?_⟩
    exact h (c :: d :: pre) tail (by rw [hsplit]; rfl) ⟨hpair, hreadable⟩
  · rintro ⟨hself, hrest⟩ pre tail hsplit hreadable
    match pre, hreadable with
    | [], _ =>
      rw [List.nil_append] at hsplit
      exact hsplit ▸ hself
    | _ :: _ :: pre, hreadable =>
      simp only [List.cons_append, List.cons.injEq] at hsplit
      obtain ⟨rfl, rfl, hsplit⟩ := hsplit
      exact hrest hreadable.1 pre tail hsplit hreadable.2

theorem forall_behind_pairs_singleton_iff {P : Text → Prop} {c : Char} :
    (∀ pre tail, [c] = pre ++ tail → Readable pre → P tail) ↔ P [c] := by
  refine ⟨fun h => h [] [c] rfl trivial, fun h pre tail hsplit hreadable => ?_⟩
  match pre, hreadable with
  | [], _ =>
    rw [List.nil_append] at hsplit
    exact hsplit ▸ h
  | _ :: _ :: _, _ => simp at hsplit

/-- The decoder returns where two bytes behind pairs always end with a character. -/
theorem hexPairs_isSome_iff (heven : utf8Length s % 2 = 0) : (hexPairs s).isSome ↔
    ∀ pre tail, s = pre ++ tail → Readable pre → CutsBetween tail 2 := by
  induction s using Readable.induct with
  | case1 =>
    refine iff_of_true rfl fun pre tail hsplit _ => ?_
    obtain ⟨-, rfl⟩ := List.append_eq_nil_iff.mp hsplit.symm
    exact Utf8.cutsBetween_nil 2
  | case2 c =>
    have hpos := c.utf8Size_pos
    simp only [utf8Length_cons, utf8Length_nil] at heven
    have hvalue : (hexPairs [c]).isSome ↔ c.utf8Size = 2 := by
      unfold hexPairs
      split_ifs <;> simp_all
    have hcut : CutsBetween [c] 2 ↔ c.utf8Size = 2 := by
      rw [cutsBetween_cons_iff]
      constructor
      · rintro (hzero | ⟨hle, -⟩) <;> omega
      · exact fun hsize => Or.inr ⟨by omega, Utf8.cutsBetween_nil _⟩
    rw [hvalue, forall_behind_pairs_singleton_iff, hcut]
  | case3 c d rest ih =>
    rw [forall_behind_pairs_iff]
    by_cases hpair : ∃ b, hexPair c d = some b
    · obtain ⟨b, hb⟩ := hpair
      have hreads := exists_hexPair_iff.mp ⟨b, hb⟩
      have hc := utf8Size_of_isHexDigit_or hreads.1
      have hd := utf8Size_of_isHexDigit hreads.2
      have hcut : CutsBetween (c :: d :: rest) 2 := cutsBetween_two_iff.mpr (Or.inr ⟨hc, hd⟩)
      simp only [utf8Length_cons] at heven
      rw [hexPairs_of_reads hb, Option.isSome_map, ih (by omega)]
      exact ⟨fun h => ⟨hcut, fun _ => h⟩, fun h => h.2 hreads⟩
    · have hnone : hexPair c d = none := by
        rw [Option.eq_none_iff_forall_ne_some]
        exact not_exists.mp hpair
      have hvalue : (hexPairs (c :: d :: rest)).isSome ↔ CutsBetween (c :: d :: rest) 2 := by
        rw [cutsBetween_two_iff, hexPairs, hnone]
        split_ifs <;> simp_all
      rw [hvalue]
      exact ⟨fun h => ⟨h, fun hreads => absurd (exists_hexPair_iff.mpr hreads) hpair⟩, And.left⟩

/-- What is encoded is decoded. The decoder returns exactly what a text spells when its
length is odd, or when it is not made of pairs with a sign among them and two bytes behind
its first pairs always end with a character. -/
theorem decodesExactly_iff (bytes : Bytes) (s : Text) :
    hexDecode (hexEncode bytes) = some (some bytes) ∧
    (DecodesExactly s ↔ utf8Length s % 2 = 1 ∨ (Readable s → '+' ∉ s) ∧
      ∀ pre tail, s = pre ++ tail → Readable pre → CutsBetween tail 2) := by
  refine ⟨hexDecode_of_hexEncode bytes, ?_⟩
  by_cases hodd : utf8Length s % 2 = 1
  · refine iff_of_true ⟨none, by rw [hexDecode, if_pos (by omega)], fun bytes => ?_⟩ (Or.inl hodd)
    refine iff_of_false (by simp) fun h => ?_
    have hlength := utf8Length_of_digits h.digits
    have heven := h.even
    omega
  have heven : utf8Length s % 2 = 0 := by omega
  rw [or_iff_right hodd, ← hexPairs_isSome_iff heven, DecodesExactly, hexDecode,
    if_neg (by omega)]
  constructor
  · rintro ⟨result, hresult, hspelled⟩
    refine ⟨fun hreadable hplus => ?_, by rw [hresult]; rfl⟩
    obtain ⟨bytes, hbytes⟩ := exists_hexPairs_of_readable hreadable
    rw [hresult, Option.some.injEq] at hbytes
    exact not_isHexDigit_plus (((hspelled bytes).mp hbytes).digits _ hplus)
  · rintro ⟨hplus, hsome⟩
    obtain ⟨result, hresult⟩ := Option.isSome_iff_exists.mp hsome
    refine ⟨result, hresult, fun bytes => ⟨?_, fun hspells => ?_⟩⟩
    · rintro rfl
      obtain ⟨hreadable, hspells⟩ := readable_of_hexPairs hresult
      exact hspells (hplus hreadable)
    · obtain ⟨own, hown⟩ := exists_hexPairs_of_readable hspells.readable
      obtain ⟨-, hspells'⟩ := readable_of_hexPairs hown
      rw [hresult, Option.some.injEq] at hown
      rw [hown, hspells.unique (hspells' (hplus hspells.readable))]

/-- A sign is read as a digit, and a slice through a character panics. -/
theorem not_decodesExactly : ¬DecodesExactly ['+', 'a'] ∧ ¬DecodesExactly ['a', 'é', 'a'] := by
  constructor
  · rintro ⟨result, hresult, hspelled⟩
    obtain rfl : some [10] = result := Option.some.inj hresult
    exact not_isHexDigit_plus (((hspelled [10]).mp rfl).digits _ (by simp))
  · rintro ⟨result, hresult, -⟩
    have hpanics : hexDecode ['a', 'é', 'a'] = none := by decide
    rw [hpanics] at hresult
    cases hresult

end Texts
end JustDrop
