import JustDrop.Peer

/-!
# Hexadecimal text

Bytes are written with two lower-case digits each. The decoder slices its text two
bytes at a time: it has no value where the slice would cut a character, and it reads
what the integer parser reads, a leading plus sign included.
-/
namespace JustDrop

def hexEncode (bytes : Bytes) : Text := bytes.flatMap fun b => Peer.hex 2 b.toNat

/-- The value of a digit, in either case. -/
def hexDigit (c : Char) : Option ℕ :=
  if '0' ≤ c ∧ c ≤ '9' then some (c.toNat - '0'.toNat)
  else if 'a' ≤ c ∧ c ≤ 'f' then some (c.toNat - 'a'.toNat + 10)
  else if 'A' ≤ c ∧ c ≤ 'F' then some (c.toNat - 'A'.toNat + 10)
  else none

/-- The integer that two characters stand for. -/
def hexPair (c d : Char) : Option UInt8 := do
  let low ← hexDigit d
  if c = '+' then pure (UInt8.ofNat low)
  else
    let high ← hexDigit c
    pure (UInt8.ofNat (16 * high + low))

/-- The slices of two bytes one after the other, up to the first that is not a number. -/
def hexPairs : Text → Option (Option Bytes)
  | [] => some (some [])
  | [c] => if c.utf8Size = 2 then some none else none
  | c :: d :: rest =>
    if c.utf8Size = 1 ∧ d.utf8Size = 1 then
      match hexPair c d with
      | none => some none
      | some b => (hexPairs rest).map (Option.map (b :: ·))
    else if c.utf8Size = 2 then some none
    else none

/-- The length of a text in bytes. -/
def utf8Length (s : Text) : ℕ := (s.map Char.utf8Size).sum

/-- A text of odd length is refused; the outer option is empty where slicing panics. -/
def hexDecode (s : Text) : Option (Option Bytes) :=
  if utf8Length s % 2 ≠ 0 then some none else hexPairs s

theorem hexEncode_cons (b : UInt8) (bytes : Bytes) :
    hexEncode (b :: bytes) = Peer.hex 2 b.toNat ++ hexEncode bytes := rfl

/-- The digits of a byte are two characters that read back as the byte. -/
theorem hexPair_hex : ∀ b : Fin 256, ∃ c d, Peer.hex 2 b.val = [c, d] ∧ c.utf8Size = 1 ∧
    d.utf8Size = 1 ∧ hexPair c d = some (UInt8.ofNat b.val) := by
  have hdigits : ∀ b : Fin 256, (match Peer.hex 2 b.val with
      | [c, d] => decide (c.utf8Size = 1 ∧ d.utf8Size = 1 ∧
          hexPair c d = some (UInt8.ofNat b.val))
      | _ => false) = true := by decide +kernel
  intro b
  have h := hdigits b
  split at h
  · rename_i c d heq
    exact ⟨c, d, heq, by simpa using h⟩
  · exact absurd h Bool.false_ne_true

theorem hexPairs_hexEncode (bytes : Bytes) : hexPairs (hexEncode bytes) = some (some bytes) := by
  induction bytes with
  | nil => rfl
  | cons b bytes ih =>
    obtain ⟨c, d, hdigits, hc, hd, hpair⟩ := hexPair_hex ⟨b.toNat, b.toNat_lt⟩
    rw [hexEncode_cons, hdigits]
    simp only [List.cons_append, List.nil_append, hexPairs, hc, hd, and_self, if_true, hpair,
      UInt8.ofNat_toNat, ih, Option.map_some]

theorem utf8Length_hexEncode (bytes : Bytes) :
    utf8Length (hexEncode bytes) = 2 * bytes.length := by
  induction bytes with
  | nil => rfl
  | cons b bytes ih =>
    obtain ⟨c, d, hdigits, hc, hd, -⟩ := hexPair_hex ⟨b.toNat, b.toNat_lt⟩
    rw [hexEncode_cons, hdigits]
    unfold utf8Length at ih ⊢
    simp only [List.cons_append, List.nil_append, List.map_cons, List.sum_cons, hc, hd, ih,
      List.length_cons]
    omega

/-- What was encoded is decoded. -/
theorem hexDecode_of_hexEncode (bytes : Bytes) :
    hexDecode (hexEncode bytes) = some (some bytes) := by
  have heven : ¬utf8Length (hexEncode bytes) % 2 ≠ 0 := by
    rw [utf8Length_hexEncode]
    omega
  rw [hexDecode, if_neg heven, hexPairs_hexEncode]

/-- Encoding and cutting commute. -/
theorem take_hexEncode (bytes : Bytes) (n : ℕ) :
    (hexEncode bytes).take (2 * n) = hexEncode (bytes.take n) := by
  induction bytes generalizing n with
  | nil => rw [List.take_nil]; exact List.take_nil
  | cons b bytes ih =>
    cases n with
    | zero => rfl
    | succ n =>
      obtain ⟨c, d, hdigits, -⟩ := hexPair_hex ⟨b.toNat, b.toNat_lt⟩
      rw [List.take_succ_cons, hexEncode_cons, hexEncode_cons, hdigits, ← ih, Nat.mul_add_one]
      rfl

theorem hexEncode_injective : Function.Injective hexEncode := by
  intro bytes other h
  have hdecode := hexDecode_of_hexEncode other
  rw [← h, hexDecode_of_hexEncode] at hdecode
  simpa using hdecode

end JustDrop
