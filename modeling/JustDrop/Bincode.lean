import JustDrop.ByteImage

/-!
# Bincode with fixed-width integers

Integers are little-endian at their full width, a sequence or a string is
prefixed by its length as eight bytes, an enumeration by its variant index as
four bytes. Arrays of fixed length have no prefix.
-/
namespace JustDrop.Bincode

variable {α : Type*}

/-- The `width` lowest bytes of a number, lowest first. -/
def leBytes : ℕ → ℕ → Bytes
  | 0, _ => []
  | width + 1, n => UInt8.ofNat n :: leBytes width (n / 256)

def u8 (n : UInt8) : Bytes := [n]

def u32 (n : UInt32) : Bytes := leBytes 4 n.toNat

def u64 (n : UInt64) : Bytes := leBytes 8 n.toNat

def variant (index : ℕ) : Bytes := leBytes 4 index

def bool (b : Bool) : Bytes := [if b then 1 else 0]

def array {n : ℕ} (v : Vector UInt8 n) : Bytes := v.toList

def bytes (b : Bytes) : Bytes := leBytes 8 b.length ++ b

def utf8 (s : String) : Bytes := s.toUTF8.data.toList

def string (s : String) : Bytes := bytes (utf8 s)

def seq (encode : α → Bytes) (xs : List α) : Bytes :=
  leBytes 8 xs.length ++ xs.flatMap encode

def option (encode : α → Bytes) : Option α → Bytes
  | none => [0]
  | some a => 1 :: encode a

theorem utf8_append (s t : String) : utf8 (s ++ t) = utf8 s ++ utf8 t := by
  simp [utf8]

theorem utf8_ofList (l : List Char) : utf8 (String.ofList l) = l.flatMap String.utf8EncodeChar := by
  simp [utf8, String.toUTF8, List.utf8Encode]

@[simp] theorem length_leBytes (width n : ℕ) : (leBytes width n).length = width := by
  induction width generalizing n with
  | zero => rfl
  | succ width ih => simp [leBytes, ih]

@[simp] theorem length_u8 (n : UInt8) : (u8 n).length = 1 := rfl
@[simp] theorem length_u32 (n : UInt32) : (u32 n).length = 4 := length_leBytes _ _
@[simp] theorem length_u64 (n : UInt64) : (u64 n).length = 8 := length_leBytes _ _
@[simp] theorem length_variant (index : ℕ) : (variant index).length = 4 := length_leBytes _ _
@[simp] theorem length_bool (b : Bool) : (bool b).length = 1 := rfl
@[simp] theorem length_array {n : ℕ} (v : Vector UInt8 n) : (array v).length = n := by
  simp [array]
@[simp] theorem length_bytes (b : Bytes) : (bytes b).length = 8 + b.length := by simp [bytes]
@[simp] theorem length_string (s : String) : (string s).length = 8 + (utf8 s).length := by
  simp [string]

@[simp] theorem length_seq (encode : α → Bytes) (xs : List α) :
    (seq encode xs).length = 8 + (xs.map fun x => (encode x).length).sum := by
  simp [seq, List.length_flatMap]

end JustDrop.Bincode
