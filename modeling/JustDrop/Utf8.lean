import JustDrop.ByteImage

/-!
# UTF-8 read byte by byte

A machine reads bytes and gives out scalars, and an error for every longest stretch
that begins no scalar. A text that was encoded comes back as it was; of a text that was
cut, the whole scalars come back, and one error where the cut goes through a scalar.
-/
namespace JustDrop.Utf8

/-- A scalar that has begun: the bytes it still needs, the range of the next one, and
the value so far. -/
structure Pending where
  owed : ℕ
  low : ℕ
  high : ℕ
  value : ℕ
  deriving DecidableEq, Repr

def Pending.next (p : Pending) (b : ℕ) : Pending where
  owed := p.owed - 1
  low := 0x80
  high := 0xBF
  value := p.value * 64 + (b - 0x80)

/-- A byte between two scalars, with what it gives out; `none` is an error. -/
def start (b : ℕ) : List (Option Char) × Option Pending :=
  if b ≤ 0x7F then ([some (Char.ofNat b)], none)
  else if 0xC2 ≤ b ∧ b ≤ 0xDF then ([], some ⟨1, 0x80, 0xBF, b - 0xC0⟩)
  else if 0xE0 ≤ b ∧ b ≤ 0xEF then
    ([], some ⟨2, if b = 0xE0 then 0xA0 else 0x80, if b = 0xED then 0x9F else 0xBF, b - 0xE0⟩)
  else if 0xF0 ≤ b ∧ b ≤ 0xF4 then
    ([], some ⟨3, if b = 0xF0 then 0x90 else 0x80, if b = 0xF4 then 0x8F else 0xBF, b - 0xF0⟩)
  else ([none], none)

/-- A byte that cannot follow begins anew. -/
def step : Option Pending → ℕ → List (Option Char) × Option Pending
  | none, b => start b
  | some p, b =>
    if p.low ≤ b ∧ b ≤ p.high then
      if p.owed = 1 then ([some (Char.ofNat (p.value * 64 + (b - 0x80)))], none)
      else ([], some (p.next b))
    else (none :: (start b).1, (start b).2)

def run : Option Pending → Bytes → List (Option Char) × Option Pending
  | p, [] => ([], p)
  | p, b :: bytes =>
    ((step p b.toNat).1 ++ (run (step p b.toNat).2 bytes).1, (run (step p b.toNat).2 bytes).2)

/-- What was begun and not ended is an error. -/
def decode (bytes : Bytes) : List (Option Char) :=
  (run none bytes).1 ++ if (run none bytes).2.isSome then [none] else []

/-- With a replacement character for every error. -/
def lossy (bytes : Bytes) : List Char := (decode bytes).map fun scalar => scalar.getD '\uFFFD'

/-- Without any error. -/
def strict (bytes : Bytes) : Option (List Char) := (decode bytes).mapM id

def encode (text : List Char) : Bytes := text.flatMap String.utf8EncodeChar

/-! ### One scalar -/

theorem run_append (p : Option Pending) (first rest : Bytes) : run p (first ++ rest) =
    ((run p first).1 ++ (run (run p first).2 rest).1, (run (run p first).2 rest).2) := by
  induction first generalizing p with
  | nil => rfl
  | cons b first ih => simp only [List.cons_append, run, ih, List.append_assoc]

/-- Bytes that give out one scalar, with the last of them and nothing before. -/
structure Reads (p : Option Pending) (c : Char) (bytes : Bytes) : Prop where
  whole : run p bytes = ([some c], none)
  part : ∀ j, 0 < j → j < bytes.length → ∃ q, run p (bytes.take j) = ([], some q)

namespace Reads
variable {p : Option Pending} {q : Pending} {c : Char} {b : UInt8} {bytes : Bytes}
  {owed low high value x : ℕ}

theorem single (h : step p b.toNat = ([some c], none)) : Reads p c [b] where
  whole := by simp only [run, h, List.append_nil]
  part j hpos hlt := by
    rw [List.length_singleton] at hlt
    omega

theorem cons (h : step p b.toNat = ([], some q)) (hrest : Reads (some q) c bytes) :
    Reads p c (b :: bytes) where
  whole := by simp only [run, h, hrest.whole, List.nil_append]
  part j hpos hlt := by
    cases j with
    | zero => exact absurd hpos (lt_irrefl 0)
    | succ j =>
      rw [List.length_cons] at hlt
      rw [List.take_succ_cons]
      simp only [run, h, List.nil_append]
      by_cases hj : j = 0
      · exact ⟨q, by rw [hj, List.take_zero]; rfl⟩
      · exact hrest.part j (by omega) (by omega)

theorem toNat_ofNat_of_lt {n : ℕ} (h : n < 256) : (UInt8.ofNat n).toNat = n := by
  rw [UInt8.toNat_ofNat']
  exact Nat.mod_eq_of_lt h

/-- The last byte of a scalar. -/
theorem last (hlow : low ≤ x % 0x40 + 0x80) (hhigh : x % 0x40 + 0x80 ≤ high)
    (hvalue : value * 64 + x % 0x40 = c.toNat) :
    Reads (some ⟨1, low, high, value⟩) c [UInt8.ofNat (x % 0x40 + 0x80)] := by
  apply single
  rw [toNat_ofNat_of_lt (by omega), step, if_pos ⟨hlow, hhigh⟩, if_pos rfl,
    Nat.add_sub_cancel, hvalue, Char.ofNat_toNat]

/-- A byte of a scalar that needs more. -/
theorem more (howed : owed ≠ 0) (hlow : low ≤ x % 0x40 + 0x80)
    (hhigh : x % 0x40 + 0x80 ≤ high)
    (hrest : Reads (some ⟨owed, 0x80, 0xBF, value * 64 + x % 0x40⟩) c bytes) :
    Reads (some ⟨owed + 1, low, high, value⟩) c (UInt8.ofNat (x % 0x40 + 0x80) :: bytes) := by
  refine cons ?_ hrest
  rw [toNat_ofNat_of_lt (by omega), step, if_pos ⟨hlow, hhigh⟩, if_neg (by simpa using howed),
    Pending.next, Nat.add_sub_cancel, Nat.add_sub_cancel]

theorem one (h : c.toNat ≤ 0x7F) : Reads none c [UInt8.ofNat c.toNat] := by
  apply single
  rw [toNat_ofNat_of_lt (by omega), step, start, if_pos h, Char.ofNat_toNat]

theorem two (h : 2 ≤ x % 0x20)
    (hrest : Reads (some ⟨1, 0x80, 0xBF, x % 0x20⟩) c bytes) :
    Reads none c (UInt8.ofNat (x % 0x20 + 0xC0) :: bytes) := by
  refine cons ?_ hrest
  rw [toNat_ofNat_of_lt (by omega), step, start, if_neg (by omega),
    if_pos ⟨by omega, by omega⟩, Nat.add_sub_cancel]

theorem three (hrest : Reads (some ⟨2, if x % 0x10 = 0 then 0xA0 else 0x80,
      if x % 0x10 = 13 then 0x9F else 0xBF, x % 0x10⟩) c bytes) :
    Reads none c (UInt8.ofNat (x % 0x10 + 0xE0) :: bytes) := by
  refine cons ?_ hrest
  have hfirst : x % 0x10 + 0xE0 = 0xE0 ↔ x % 0x10 = 0 := by omega
  have hsurrogate : x % 0x10 + 0xE0 = 0xED ↔ x % 0x10 = 13 := by omega
  rw [toNat_ofNat_of_lt (by omega), step, start, if_neg (by omega), if_neg (by omega),
    if_pos ⟨by omega, by omega⟩, Nat.add_sub_cancel]
  simp only [hfirst, hsurrogate]

theorem four (h : x % 0x08 ≤ 4) (hrest : Reads (some ⟨3, if x % 0x08 = 0 then 0x90 else 0x80,
      if x % 0x08 = 4 then 0x8F else 0xBF, x % 0x08⟩) c bytes) :
    Reads none c (UInt8.ofNat (x % 0x08 + 0xF0) :: bytes) := by
  refine cons ?_ hrest
  have hfirst : x % 0x08 + 0xF0 = 0xF0 ↔ x % 0x08 = 0 := by omega
  have hlast : x % 0x08 + 0xF0 = 0xF4 ↔ x % 0x08 = 4 := by omega
  rw [toNat_ofNat_of_lt (by omega), step, start, if_neg (by omega), if_neg (by omega),
    if_neg (by omega), if_pos ⟨by omega, by omega⟩, Nat.add_sub_cancel]
  simp only [hfirst, hlast]

end Reads

theorem reads_utf8EncodeChar (c : Char) : Reads none c (String.utf8EncodeChar c) := by
  have hvalid := c.valid
  have hvalue : c.val.toNat = c.toNat := rfl
  unfold String.utf8EncodeChar
  simp only [hvalue]
  split_ifs with h1 h2 h3
  · exact .one h1
  · exact .two (by omega) (.last (by omega) (by omega) (by omega))
  · refine .three (.more one_ne_zero ?_ ?_ (.last (by omega) (by omega) (by omega)))
    · split_ifs <;> omega
    · split_ifs
      · have hsurrogate : c.toNat < 0xD800 ∨ 0xDFFF < c.toNat ∧ c.toNat < 0x110000 := hvalid
        omega
      · omega
  · have hlarge : c.toNat < 0x110000 := by
      have hscalar : c.toNat < 0xD800 ∨ 0xDFFF < c.toNat ∧ c.toNat < 0x110000 := hvalid
      omega
    refine .four (by omega) (.more two_ne_zero ?_ ?_ (.more one_ne_zero (by omega) (by omega)
      (.last (by omega) (by omega) (by omega))))
    · split_ifs <;> omega
    · split_ifs <;> omega

/-! ### Texts, whole and cut -/

@[simp] theorem encode_nil : encode [] = [] := rfl

@[simp] theorem encode_cons (c : Char) (text : List Char) :
    encode (c :: text) = String.utf8EncodeChar c ++ encode text := List.flatMap_cons

theorem encode_append (text rest : List Char) : encode (text ++ rest) =
    encode text ++ encode rest := List.flatMap_append

/-- A text takes at least a byte for each scalar. -/
theorem length_le_length_encode (text : List Char) : text.length ≤ (encode text).length := by
  induction text with
  | nil => exact le_rfl
  | cons c text ih =>
    have hpos := c.utf8Size_pos
    rw [encode_cons, List.length_append, String.length_utf8EncodeChar, List.length_cons]
    omega

/-- Only the scalar zero has a zero byte. -/
theorem zero_notMem_encode {text : List Char} (h : ∀ c ∈ text, c.toNat ≠ 0) : 0 ∉ encode text := by
  have hbyte : ∀ n, n % 256 ≠ 0 → (0 : UInt8) ≠ UInt8.ofNat n := by
    intro n hn hzero
    have hvalue := congrArg UInt8.toNat hzero
    rw [UInt8.toNat_ofNat'] at hvalue
    exact hn hvalue.symm
  intro hzero
  obtain ⟨c, hc, hmem⟩ := List.mem_flatMap.mp hzero
  have hpos := h c hc
  have hvalue : c.val.toNat = c.toNat := rfl
  unfold String.utf8EncodeChar at hmem
  simp only [hvalue] at hmem
  split_ifs at hmem <;> simp only [List.mem_cons, List.not_mem_nil, or_false] at hmem
  · exact hbyte _ (by omega) hmem
  · rcases hmem with h1 | h2
    · exact hbyte _ (by omega) h1
    · exact hbyte _ (by omega) h2
  · rcases hmem with h1 | h2 | h3
    · exact hbyte _ (by omega) h1
    · exact hbyte _ (by omega) h2
    · exact hbyte _ (by omega) h3
  · rcases hmem with h1 | h2 | h3 | h4
    · exact hbyte _ (by omega) h1
    · exact hbyte _ (by omega) h2
    · exact hbyte _ (by omega) h3
    · exact hbyte _ (by omega) h4

theorem run_encode (text : List Char) (rest : Bytes) : run none (encode text ++ rest) =
    (text.map some ++ (run none rest).1, (run none rest).2) := by
  induction text with
  | nil => rfl
  | cons c text ih =>
    rw [encode_cons, List.append_assoc, run_append, (reads_utf8EncodeChar c).whole, ih]
    rfl

/-- A text comes back scalar by scalar. -/
theorem decode_encode (text : List Char) : decode (encode text) = text.map some := by
  have hrun := run_encode text []
  rw [List.append_nil] at hrun
  rw [decode, hrun]
  simp [run]

/-- The first bytes of a scalar behind a text are an error. -/
theorem decode_encode_append (text : List Char) {c : Char} {j : ℕ} (hpos : 0 < j)
    (hlt : j < c.utf8Size) : decode (encode text ++ (String.utf8EncodeChar c).take j) =
      text.map some ++ [none] := by
  obtain ⟨p, hpart⟩ := (reads_utf8EncodeChar c).part j hpos
    (by rwa [String.length_utf8EncodeChar])
  rw [decode, run_encode, hpart]
  simp

theorem lossy_encode (text : List Char) : lossy (encode text) = text := by
  rw [lossy, decode_encode, List.map_map]
  exact List.map_id text

theorem mapM_map_some (text : List Char) (rest : List (Option Char)) :
    (text.map some ++ rest).mapM id = (rest.mapM id).map (text ++ ·) := by
  induction text with
  | nil => simp
  | cons c text ih =>
    rw [List.map_cons, List.cons_append, List.mapM_cons, ih]
    cases rest.mapM id <;> rfl

theorem strict_encode (text : List Char) : strict (encode text) = some text := by
  have hmap := mapM_map_some text []
  rw [List.append_nil] at hmap
  rw [strict, decode_encode, hmap]
  simp

/-- The first `n` bytes end with a scalar. -/
def CutsBetween (text : List Char) (n : ℕ) : Prop :=
  ∃ pre, pre <+: text ∧ (encode text).take n = encode pre

/-- The first `n` bytes end inside the scalar `c`. -/
def CutsThrough (text : List Char) (n : ℕ) (c : Char) : Prop :=
  ∃ pre rest, text = pre ++ c :: rest ∧ (encode pre).length < n ∧
    n < (encode pre).length + c.utf8Size

theorem cutsBetween_of_length_le {text : List Char} {n : ℕ} (h : (encode text).length ≤ n) :
    CutsBetween text n :=
  ⟨text, List.prefix_rfl, List.take_of_length_le h⟩

/-- A cut in a text is behind its first scalar, or in front of it. -/
theorem cutsBetween_cons_iff {c : Char} {text : List Char} {n : ℕ} :
    CutsBetween (c :: text) n ↔ n = 0 ∨ c.utf8Size ≤ n ∧ CutsBetween text (n - c.utf8Size) := by
  have hsize : (String.utf8EncodeChar c).length = c.utf8Size := String.length_utf8EncodeChar c
  have hpos := c.utf8Size_pos
  constructor
  · rintro ⟨pre, hpre, htake⟩
    by_cases hzero : n = 0
    · exact Or.inl hzero
    have hlength := congrArg List.length htake
    rw [List.length_take, encode_cons, List.length_append, hsize] at hlength
    cases pre with
    | nil =>
      rw [encode_nil, List.length_nil] at hlength
      omega
    | cons d pre =>
      obtain ⟨rfl, hrest⟩ := List.cons_prefix_cons.mp hpre
      rw [encode_cons, List.length_append, hsize] at hlength
      refine Or.inr ⟨by omega, pre, hrest, ?_⟩
      rw [encode_cons, encode_cons, List.take_append, hsize,
        List.take_of_length_le (by omega)] at htake
      exact List.append_cancel_left htake
  · rintro (rfl | ⟨hle, pre, hpre, htake⟩)
    · exact ⟨[], List.nil_prefix, List.take_zero⟩
    · refine ⟨c :: pre, List.cons_prefix_cons.mpr ⟨rfl, hpre⟩, ?_⟩
      rw [encode_cons, encode_cons, List.take_append, hsize, htake,
        List.take_of_length_le (by omega)]

@[simp] theorem cutsBetween_nil (n : ℕ) : CutsBetween [] n :=
  ⟨[], List.prefix_rfl, List.take_nil⟩

theorem cutsBetween_or_cutsThrough (text : List Char) (n : ℕ) :
    CutsBetween text n ∨ ∃ c, CutsThrough text n c := by
  induction text generalizing n with
  | nil => exact Or.inl (cutsBetween_nil n)
  | cons c text ih =>
    by_cases hzero : n = 0
    · exact Or.inl ⟨[], List.nil_prefix, by rw [hzero]; rfl⟩
    by_cases hfirst : n < c.utf8Size
    · refine Or.inr ⟨c, [], text, rfl, by simpa using Nat.pos_of_ne_zero hzero, ?_⟩
      simpa using hfirst
    have hsize : (String.utf8EncodeChar c).length = c.utf8Size := String.length_utf8EncodeChar c
    rcases ih (n - c.utf8Size) with ⟨pre, hpre, htake⟩ | ⟨d, pre, rest, rfl, hlow, hhigh⟩
    · exact Or.inl (cutsBetween_cons_iff.mpr (Or.inr ⟨not_lt.mp hfirst, pre, hpre, htake⟩))
    · refine Or.inr ⟨d, c :: pre, rest, rfl, ?_, ?_⟩ <;>
        rw [encode_cons, List.length_append, hsize] <;> omega

/-- What a cut through a scalar leaves. -/
theorem take_encode_of_cutsThrough {pre rest : List Char} {c : Char} {n : ℕ}
    (hlow : (encode pre).length < n) (hhigh : n < (encode pre).length + c.utf8Size) :
    (encode (pre ++ c :: rest)).take n =
      encode pre ++ (String.utf8EncodeChar c).take (n - (encode pre).length) := by
  have hsize : (String.utf8EncodeChar c).length = c.utf8Size := String.length_utf8EncodeChar c
  rw [encode_append, encode_cons, List.take_append, List.take_append,
    List.take_of_length_le hlow.le, hsize]
  rw [Nat.sub_eq_zero_of_le (by omega : n - (encode pre).length ≤ c.utf8Size), List.take_zero,
    List.append_nil]

/-- The cut scalar comes back as one replacement character. -/
theorem lossy_of_cutsThrough {pre rest : List Char} {c : Char} {n : ℕ}
    (hlow : (encode pre).length < n) (hhigh : n < (encode pre).length + c.utf8Size) :
    lossy ((encode (pre ++ c :: rest)).take n) = pre ++ ['�'] := by
  rw [take_encode_of_cutsThrough hlow hhigh, lossy,
    decode_encode_append pre (by omega) (by omega), List.map_append, List.map_map]
  congr 1
  exact List.map_id pre

theorem strict_of_cutsThrough {pre rest : List Char} {c : Char} {n : ℕ}
    (hlow : (encode pre).length < n) (hhigh : n < (encode pre).length + c.utf8Size) :
    strict ((encode (pre ++ c :: rest)).take n) = none := by
  rw [take_encode_of_cutsThrough hlow hhigh, strict,
    decode_encode_append pre (by omega) (by omega), mapM_map_some]
  rfl

end JustDrop.Utf8
