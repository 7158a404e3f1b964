import Mathlib.Data.List.Basic
import Mathlib.Tactic.Common
import Mathlib.Tactic.IntervalCases

/-!
# JSON texts

Strings with escapes, lists of what has a text of its own, and objects whose members are
strings. Writers differ in what they escape, readers in what they let pass; what any of the
writers puts out every reader reads back, whatever follows.
-/
namespace JustDrop.Json

/-! ### Strings -/

def quote : Char := Char.ofNat 0x22
def backslash : Char := Char.ofNat 0x5C

/-- The characters with an escape of one letter. -/
def shortEscapes : List (Char × Char) :=
  [(quote, quote), (backslash, backslash), (Char.ofNat 8, 'b'), (Char.ofNat 9, 't'),
    (Char.ofNat 10, 'n'), (Char.ofNat 12, 'f'), (Char.ofNat 13, 'r')]

/-- Whether a character must not stand in a string as it is. -/
def IsControl (c : Char) : Prop := c.toNat < 0x20

instance (c : Char) : Decidable (IsControl c) := inferInstanceAs (Decidable (_ < _))

/-- How a character is written; some writers escape the solidus as well. -/
def escapeChar (solidus : Bool) (c : Char) : List Char :=
  match shortEscapes.lookup c with
  | some letter => [backslash, letter]
  | none =>
    if solidus ∧ c = '/' then [backslash, '/']
    else if IsControl c then
      [backslash, 'u', '0', '0', Nat.digitChar (c.toNat / 16), Nat.digitChar (c.toNat % 16)]
    else [c]

def escape (solidus : Bool) (s : List Char) : List Char := s.flatMap (escapeChar solidus)

def writeString (solidus : Bool) (s : List Char) : List Char :=
  quote :: escape solidus s ++ [quote]

def hexValue (c : Char) : Option ℕ :=
  if '0' ≤ c ∧ c ≤ '9' then some (c.toNat - '0'.toNat)
  else if 'a' ≤ c ∧ c ≤ 'f' then some (c.toNat - 'a'.toNat + 10)
  else if 'A' ≤ c ∧ c ≤ 'F' then some (c.toNat - 'A'.toNat + 10)
  else none

/-- The number of four digits, and what is behind them. -/
def readHex (text : List Char) : Option (ℕ × List Char) := do
  let digits ← (text.take 4).mapM hexValue
  if digits.length = 4 then some (digits.foldl (fun n digit => 16 * n + digit) 0, text.drop 4)
  else none

/-- Characters beyond sixteen bits are escaped as surrogate pairs; half a pair is none. -/
def readUnicode (text : List Char) : Option (Char × List Char) := do
  let (high, rest) ← readHex text
  if high < 0xD800 ∨ 0xE000 ≤ high then some (Char.ofNat high, rest)
  else if high < 0xDC00 ∧ rest.take 2 = [backslash, 'u'] then
    let (low, rest) ← readHex (rest.drop 2)
    if 0xDC00 ≤ low ∧ low < 0xE000 then
      some (Char.ofNat (0x10000 + (high - 0xD800) * 0x400 + (low - 0xDC00)), rest)
    else none
  else none

/-- What an escape stands for, behind its backslash. -/
def unescape : List Char → Option (Char × List Char)
  | [] => none
  | letter :: rest =>
    if letter = 'u' then readUnicode rest
    else if letter = '/' then some ('/', rest)
    else (shortEscapes.find? fun escaped => escaped.2 = letter).map fun escaped =>
      (escaped.1, rest)

/-- What stands up to the closing quote, and what is behind it, for as many characters as the
fuel allows. A strict reader refuses control characters. -/
def readEscaped (strict : Bool) : ℕ → List Char → Option (List Char × List Char)
  | 0, _ => none
  | _ + 1, [] => none
  | fuel + 1, c :: rest =>
    if c = quote then some ([], rest)
    else if c = backslash then do
      let (c, rest) ← unescape rest
      let (s, rest) ← readEscaped strict fuel rest
      pure (c :: s, rest)
    else if strict ∧ IsControl c then none
    else do
      let (s, rest) ← readEscaped strict fuel rest
      pure (c :: s, rest)

def readString (strict : Bool) : List Char → Option (List Char × List Char)
  | [] => none
  | c :: rest => if c = quote then readEscaped strict rest.length rest else none

theorem hexValue_digitChar {n : ℕ} (h : n < 16) : hexValue (Nat.digitChar n) = some n := by
  interval_cases n <;> decide

/-- The marks of the format and the digits are such characters. -/
def IsPlain (c : Char) : Prop := ¬IsControl c ∧ c.toNat < 0x80

instance (c : Char) : Decidable (IsPlain c) := inferInstanceAs (Decidable (_ ∧ _))

theorem lookup_shortEscapes {c letter : Char} (h : shortEscapes.lookup c = some letter) :
    IsPlain letter ∧ ∀ rest, unescape (letter :: rest) = some (c, rest) := by
  have hall : ∀ escaped ∈ shortEscapes, IsPlain escaped.2 ∧ escaped.2 ≠ 'u' ∧ escaped.2 ≠ '/' ∧
      shortEscapes.find? (fun other => other.2 = escaped.2) = some escaped := by decide
  obtain ⟨before, after, hmem, -⟩ := List.lookup_eq_some_iff.mp h
  obtain ⟨hplain, hu, hsolidus, hfind⟩ := hall (c, letter) (by simp [hmem])
  refine ⟨hplain, fun rest => ?_⟩
  rw [unescape, if_neg hu, if_neg hsolidus, hfind, Option.map_some]

/-- A control character is escaped by its number. -/
theorem unescape_control {c : Char} (h : IsControl c) (rest : List Char) :
    unescape ('u' :: '0' :: '0' :: Nat.digitChar (c.toNat / 16) ::
      Nat.digitChar (c.toNat % 16) :: rest) = some (c, rest) := by
  have hlt : c.toNat < 32 := h
  have hzero : hexValue '0' = some 0 := by decide
  have hhigh := hexValue_digitChar (show c.toNat / 16 < 16 by omega)
  have hlow := hexValue_digitChar (show c.toNat % 16 < 16 by omega)
  have hvalue : 16 * (16 * (16 * (16 * 0 + 0) + 0) + c.toNat / 16) + c.toNat % 16 = c.toNat := by
    omega
  have hread : readHex ('0' :: '0' :: Nat.digitChar (c.toNat / 16) ::
      Nat.digitChar (c.toNat % 16) :: rest) = some (c.toNat, rest) := by
    simp only [readHex, List.take_succ_cons, List.take_zero, List.mapM_cons, List.mapM_nil, hzero,
      hhigh, hlow, Option.bind_eq_bind, Option.bind_some, Option.pure_def, List.length_cons,
      List.length_nil, Nat.zero_add, Nat.reduceAdd, if_true, List.foldl_cons, List.foldl_nil,
      hvalue, List.drop_succ_cons, List.drop_zero]
  have hsingle : c.toNat < 0xD800 ∨ 0xE000 ≤ c.toNat := Or.inl (by omega)
  simp only [unescape, if_true, readUnicode, hread, Option.bind_eq_bind, Option.bind_some,
    if_pos hsingle, Char.ofNat_toNat]

theorem readEscaped_escapeChar (strict solidus : Bool) (c : Char) (fuel : ℕ) (rest : List Char) :
    readEscaped strict (fuel + 1) (escapeChar solidus c ++ rest) =
      (readEscaped strict fuel rest).map fun read => (c :: read.1, read.2) := by
  have hbind : ∀ (o : Option (List Char × List Char)) (c : Char),
      (do
        let (s, rest) ← o
        pure (c :: s, rest)) = o.map fun read => (c :: read.1, read.2) := by
    intro o c
    cases o <;> rfl
  have hescape : ∀ text, unescape text = some (c, rest) →
      readEscaped strict (fuel + 1) (backslash :: text) =
        (readEscaped strict fuel rest).map fun read => (c :: read.1, read.2) := by
    intro text htext
    have hquote : backslash ≠ quote := by decide
    simp only [readEscaped, if_neg hquote, if_true, htext, Option.bind_eq_bind, Option.bind_some]
    exact hbind _ c
  unfold escapeChar
  split
  · rename_i letter hletter
    exact hescape _ ((lookup_shortEscapes hletter).2 rest)
  · rename_i hnone
    split_ifs with hsolidus hcontrol
    · obtain ⟨-, rfl⟩ := hsolidus
      exact hescape _ rfl
    · exact hescape _ (unescape_control hcontrol rest)
    · have hplain : c ≠ quote ∧ c ≠ backslash := by
        constructor
        · rintro rfl
          simp [shortEscapes] at hnone
        · rintro rfl
          exact absurd hnone (by decide)
      have hpass : ¬(strict = true ∧ IsControl c) := fun h => hcontrol h.2
      rw [List.cons_append, List.nil_append, readEscaped]
      simp only [if_neg hplain.1, if_neg hplain.2, if_neg hpass]
      exact hbind _ c

theorem length_le_escape (solidus : Bool) (s : List Char) : s.length ≤ (escape solidus s).length := by
  induction s with
  | nil => simp
  | cons c s ih =>
    have hpos : 0 < (escapeChar solidus c).length := by
      unfold escapeChar
      split
      · simp
      · split_ifs <;> simp
    rw [escape, List.flatMap_cons, List.length_append, List.length_cons]
    unfold escape at ih
    omega

theorem readEscaped_escape (strict solidus : Bool) (s rest : List Char) {fuel : ℕ}
    (h : s.length < fuel) :
    readEscaped strict fuel (escape solidus s ++ quote :: rest) = some (s, rest) := by
  induction s generalizing fuel with
  | nil =>
    cases fuel with
    | zero => simp at h
    | succ fuel =>
      rw [escape, List.flatMap_nil, List.nil_append, readEscaped]
      exact if_pos rfl
  | cons c s ih =>
    cases fuel with
    | zero => simp at h
    | succ fuel =>
      have hcons : escape solidus (c :: s) ++ quote :: rest =
          escapeChar solidus c ++ (escape solidus s ++ quote :: rest) := by
        simp [escape]
      rw [hcons, readEscaped_escapeChar, ih (Nat.lt_of_succ_lt_succ h)]
      rfl

/-- What was written is read back. -/
theorem readString_writeString (strict solidus : Bool) (s rest : List Char) :
    readString strict (writeString solidus s ++ rest) = some (s, rest) := by
  have hlength := length_le_escape solidus s
  have hfuel : s.length < (escape solidus s ++ quote :: rest).length := by
    rw [List.length_append, List.length_cons]
    omega
  simpa [writeString, readString] using readEscaped_escape strict solidus s rest hfuel

/-- A text has plain characters and those of the string that are no control characters. -/
theorem forall_mem_writeString {P : Char → Prop} {solidus : Bool} {s : List Char}
    (hplain : ∀ c, IsPlain c → P c) (hs : ∀ c ∈ s, ¬IsControl c → P c) :
    ∀ c ∈ writeString solidus s, P c := by
  have hmarks : IsPlain quote ∧ IsPlain backslash := by decide
  have hdigit : ∀ n < 16, IsPlain (Nat.digitChar n) := by decide
  have hescape : ∀ d ∈ s, ∀ c ∈ escapeChar solidus d, P c := by
    intro d hd c hc
    unfold escapeChar at hc
    split at hc
    · rename_i letter hletter
      rcases List.mem_pair.mp hc with rfl | rfl
      · exact hplain _ hmarks.2
      · exact hplain _ (lookup_shortEscapes hletter).1
    · split_ifs at hc with hsolidus hcontrol
      · rcases List.mem_pair.mp hc with rfl | rfl
        · exact hplain _ hmarks.2
        · exact hplain _ (by decide)
      · have hlt : d.toNat < 32 := hcontrol
        simp only [List.mem_cons, List.not_mem_nil, or_false] at hc
        rcases hc with rfl | rfl | rfl | rfl | rfl | rfl
        · exact hplain _ hmarks.2
        · exact hplain _ (by decide)
        · exact hplain _ (by decide)
        · exact hplain _ (by decide)
        · exact hplain _ (hdigit _ (by omega))
        · exact hplain _ (hdigit _ (by omega))
      · obtain rfl := List.mem_singleton.mp hc
        exact hs c hd hcontrol
  intro c hc
  simp only [writeString, escape, List.cons_append, List.mem_cons, List.mem_append,
    List.mem_flatMap, List.not_mem_nil, or_false] at hc
  rcases hc with rfl | ⟨d, hd, hc⟩ | rfl
  · exact hplain _ hmarks.1
  · exact hescape d hd c hc
  · exact hplain _ hmarks.1

/-! ### Lists -/

section Lists
variable {α : Type*}

def comma : Char := Char.ofNat 0x2C

/-- The texts of some items, a comma between any two. -/
def separated (write : α → List Char) : List α → List Char
  | [] => []
  | [a] => write a
  | a :: b :: items => write a ++ comma :: separated write (b :: items)

def writeList (write : α → List Char) (opening closing : Char) (items : List α) : List Char :=
  opening :: separated write items ++ [closing]

def IsSpace (c : Char) : Prop := c.toNat ∈ [0x20, 0x09, 0x0A, 0x0D]

instance (c : Char) : Decidable (IsSpace c) := inferInstanceAs (Decidable (_ ∈ _))

/-- Blanks may stand around every value and every mark. -/
def skip (text : List Char) : List Char := text.dropWhile IsSpace

theorem skip_cons {c : Char} (h : ¬IsSpace c) (rest : List Char) : skip (c :: rest) = c :: rest :=
  List.dropWhile_cons_of_neg (by simpa using h)

/-- One item or more up to the closing mark, as many as the fuel allows. -/
def readItems (read : List Char → Option (α × List Char)) (closing : Char) :
    ℕ → List Char → Option (List α × List Char)
  | 0, _ => none
  | fuel + 1, text => do
    let (a, rest) ← read (skip text)
    match skip rest with
    | [] => none
    | mark :: rest =>
      if mark = closing then some ([a], rest)
      else if mark = comma then do
        let (items, rest) ← readItems read closing fuel rest
        pure (a :: items, rest)
      else none

def readList (read : List Char → Option (α × List Char)) (opening closing : Char)
    (text : List Char) : Option (List α × List Char) :=
  match skip text with
  | [] => none
  | first :: rest =>
    if first = opening then
      match skip rest with
      | [] => none
      | second :: rest =>
        if second = closing then some ([], rest)
        else readItems read closing (second :: rest).length (second :: rest)
    else none

variable {write : α → List Char} {read : List Char → Option (α × List Char)}
  {opening closing : Char}

/-- A text that begins with neither a blank nor the closing mark. -/
def Opens (closing : Char) (text : List Char) : Prop :=
  ∃ first tail, text = first :: tail ∧ first ≠ closing ∧ ¬IsSpace first

theorem skip_append_of_opens {text : List Char} (h : Opens closing text) (rest : List Char) :
    skip (text ++ rest) = text ++ rest := by
  obtain ⟨first, tail, rfl, -, hspace⟩ := h
  rw [List.cons_append, skip_cons hspace]

/-- The closing mark is told from blanks and commas. -/
def IsMark (closing : Char) : Prop := closing ≠ comma ∧ ¬IsSpace closing

theorem readItems_separated {items : List α} (hne : items ≠ []) (hclosing : IsMark closing)
    (hread : ∀ a ∈ items, ∀ rest, read (write a ++ rest) = some (a, rest))
    (hopens : ∀ a ∈ items, Opens closing (write a)) (rest : List Char)
    {fuel : ℕ} (hfuel : items.length ≤ fuel) :
    readItems read closing fuel (separated write items ++ closing :: rest) =
      some (items, rest) := by
  induction items generalizing fuel with
  | nil => exact absurd rfl hne
  | cons a items ih =>
    rw [List.forall_mem_cons] at hread hopens
    cases fuel with
    | zero => simp at hfuel
    | succ fuel =>
      cases items with
      | nil =>
        simp only [separated, readItems, skip_append_of_opens hopens.1, hread.1,
          Option.bind_eq_bind, Option.bind_some, skip_cons hclosing.2, if_true]
      | cons b items =>
        have htail := ih (List.cons_ne_nil b items) hread.2 hopens.2
          (Nat.le_of_succ_le_succ hfuel)
        have hsplit : separated write (a :: b :: items) ++ closing :: rest =
            write a ++ comma :: (separated write (b :: items) ++ closing :: rest) := by
          simp [separated]
        have hcomma : ¬IsSpace comma := by decide
        rw [hsplit]
        simp only [readItems, skip_append_of_opens hopens.1, hread.1, Option.bind_eq_bind,
          Option.bind_some, skip_cons hcomma, if_neg hclosing.1.symm, if_true, htail,
          Option.pure_def]

theorem length_le_separated {items : List α} (hopens : ∀ a ∈ items, Opens closing (write a)) :
    items.length ≤ (separated write items).length := by
  induction items with
  | nil => simp
  | cons a items ih =>
    rw [List.forall_mem_cons] at hopens
    obtain ⟨first, tail, hwrite, -⟩ := hopens.1
    have hpos : 0 < (write a).length := by simp [hwrite]
    cases items with
    | nil =>
      rw [separated, List.length_singleton]
      omega
    | cons b items =>
      have htail := ih hopens.2
      have hcons : separated write (a :: b :: items) =
          write a ++ comma :: separated write (b :: items) := rfl
      rw [hcons]
      simp only [List.length_append, List.length_cons] at htail ⊢
      omega

/-- A list of what is read back, and begins with no closing mark, is read back. -/
theorem readList_writeList {items : List α} (hopening : ¬IsSpace opening)
    (hclosing : IsMark closing)
    (hread : ∀ a ∈ items, ∀ rest, read (write a ++ rest) = some (a, rest))
    (hopens : ∀ a ∈ items, Opens closing (write a)) (rest : List Char) :
    readList read opening closing (writeList write opening closing items ++ rest) =
      some (items, rest) := by
  have hwhole : writeList write opening closing items ++ rest =
      opening :: (separated write items ++ closing :: rest) := by
    simp [writeList]
  rw [hwhole, readList, skip_cons hopening]
  cases items with
  | nil => simp [separated, skip_cons hclosing.2]
  | cons a items =>
    have hlength : (a :: items).length ≤
        (separated write (a :: items) ++ closing :: rest).length := by
      have hle := length_le_separated hopens
      rw [List.length_append]
      omega
    have hitems := readItems_separated (List.cons_ne_nil a items) hclosing hread hopens rest hlength
    have hstarts : Opens closing (separated write (a :: items) ++ closing :: rest) := by
      obtain ⟨first, tail, hwrite, hne⟩ := hopens a (List.mem_cons_self ..)
      cases items with
      | nil => exact ⟨first, tail ++ closing :: rest, by simp [separated, hwrite], hne⟩
      | cons b items =>
        exact ⟨first, _, by rw [separated, hwrite, List.cons_append, List.cons_append], hne⟩
    obtain ⟨first, tail, hfirst, hne, hspace⟩ := hstarts
    rw [hfirst] at hitems ⊢
    simpa only [if_true, skip_cons hspace, if_neg hne] using hitems

theorem forall_mem_writeList {P : Char → Prop} {items : List α}
    (hmarks : P opening ∧ P comma ∧ P closing) (hitems : ∀ a ∈ items, ∀ c ∈ write a, P c) :
    ∀ c ∈ writeList write opening closing items, P c := by
  have hseparated : ∀ c ∈ separated write items, P c := by
    induction items with
    | nil => exact fun c hc => absurd hc List.not_mem_nil
    | cons a items ih =>
      rw [List.forall_mem_cons] at hitems
      cases items with
      | nil => exact hitems.1
      | cons b items =>
        rw [separated, List.forall_mem_append, List.forall_mem_cons]
        exact ⟨hitems.1, hmarks.2.1, ih hitems.2⟩
  rw [writeList, List.cons_append, List.forall_mem_cons, List.forall_mem_append,
    List.forall_mem_singleton]
  exact ⟨hmarks.1, hseparated, hmarks.2.2⟩

end Lists

/-! ### Objects with strings -/

def colon : Char := Char.ofNat 0x3A

abbrev Member := List Char × List Char

def writeMember (solidus : Bool) (m : Member) : List Char :=
  writeString solidus m.1 ++ colon :: writeString solidus m.2

def readMember (strict : Bool) (text : List Char) : Option (Member × List Char) := do
  let (key, rest) ← readString strict (skip text)
  match skip rest with
  | [] => none
  | mark :: rest =>
    if mark = colon then do
      let (value, rest) ← readString strict (skip rest)
      pure ((key, value), rest)
    else none

def openBrace : Char := Char.ofNat 0x7B
def closeBrace : Char := Char.ofNat 0x7D
def openBracket : Char := Char.ofNat 0x5B
def closeBracket : Char := Char.ofNat 0x5D

def writeObject (solidus : Bool) (members : List Member) : List Char :=
  writeList (writeMember solidus) openBrace closeBrace members

def readObject (strict : Bool) : List Char → Option (List Member × List Char) :=
  readList (readMember strict) openBrace closeBrace

theorem opens_writeString {closing : Char} (h : quote ≠ closing) (solidus : Bool)
    (s : List Char) : Opens closing (writeString solidus s) :=
  ⟨quote, _, rfl, h, by decide⟩

theorem skip_writeString (solidus : Bool) (s rest : List Char) :
    skip (writeString solidus s ++ rest) = writeString solidus s ++ rest := by
  have hquote : quote ≠ closeBrace := by decide
  exact skip_append_of_opens (opens_writeString hquote solidus s) rest

theorem readMember_writeMember (strict solidus : Bool) (m : Member) (rest : List Char) :
    readMember strict (writeMember solidus m ++ rest) = some (m, rest) := by
  have hsplit : writeMember solidus m ++ rest =
      writeString solidus m.1 ++ colon :: (writeString solidus m.2 ++ rest) := by
    simp [writeMember]
  have hcolon : ¬IsSpace colon := by decide
  rw [hsplit]
  simp only [readMember, skip_writeString, readString_writeString, Option.bind_eq_bind,
    Option.bind_some, skip_cons hcolon, if_true, Option.pure_def]

theorem readObject_writeObject (strict solidus : Bool) (members : List Member)
    (rest : List Char) :
    readObject strict (writeObject solidus members ++ rest) = some (members, rest) := by
  refine readList_writeList (by decide) ⟨by decide, by decide⟩ ?_ ?_ rest
  · exact fun m _ => readMember_writeMember strict solidus m
  · exact fun m _ => ⟨quote, _, rfl, by decide, by decide⟩

/-! ### Whole texts -/

/-- Nothing but blanks is left behind the value. -/
def whole {α : Type*} (read : Option (α × List Char)) : Option α := do
  let (a, rest) ← read
  if skip rest = [] then some a else none

def writeStrings (solidus : Bool) (items : List (List Char)) : List Char :=
  writeList (writeString solidus) openBracket closeBracket items

def readStrings (strict : Bool) (text : List Char) : Option (List (List Char)) :=
  whole (readList (readString strict) openBracket closeBracket text)

def writeObjects (solidus : Bool) (items : List (List Member)) : List Char :=
  writeList (writeObject solidus) openBracket closeBracket items

def readObjects (strict : Bool) (text : List Char) : Option (List (List Member)) :=
  whole (readList (readObject strict) openBracket closeBracket text)

theorem readStrings_writeStrings (strict solidus : Bool) (items : List (List Char)) :
    readStrings strict (writeStrings solidus items) = some items := by
  have hlist : readList (readString strict) openBracket closeBracket
      (writeStrings solidus items ++ []) = some (items, []) := by
    refine readList_writeList (by decide) ⟨by decide, by decide⟩ ?_ ?_ []
    · exact fun s _ => readString_writeString strict solidus s
    · exact fun s _ => opens_writeString (by decide) solidus s
  rw [List.append_nil] at hlist
  rw [readStrings, hlist]
  rfl

theorem readObjects_writeObjects (strict solidus : Bool) (items : List (List Member)) :
    readObjects strict (writeObjects solidus items) = some items := by
  have hlist : readList (readObject strict) openBracket closeBracket
      (writeObjects solidus items ++ []) = some (items, []) := by
    refine readList_writeList (by decide) ⟨by decide, by decide⟩ ?_ ?_ []
    · exact fun members _ => readObject_writeObject strict solidus members
    · exact fun members _ => ⟨openBrace, _, rfl, by decide, by decide⟩
  rw [List.append_nil] at hlist
  rw [readObjects, hlist]
  rfl

theorem forall_mem_writeStrings {P : Char → Prop} {solidus : Bool} {items : List (List Char)}
    (hplain : ∀ c, IsPlain c → P c) (hitems : ∀ s ∈ items, ∀ c ∈ s, ¬IsControl c → P c) :
    ∀ c ∈ writeStrings solidus items, P c :=
  forall_mem_writeList ⟨hplain _ (by decide), hplain _ (by decide), hplain _ (by decide)⟩
    fun s hs => forall_mem_writeString hplain (hitems s hs)

/-- No control character is left. -/
theorem forall_mem_writeObjects (solidus : Bool) (items : List (List Member)) :
    ∀ c ∈ writeObjects solidus items, ¬IsControl c := by
  have hplain : ∀ c, IsPlain c → ¬IsControl c := fun c hc => hc.1
  have hstring : ∀ s, ∀ c ∈ writeString solidus s, ¬IsControl c :=
    fun s => forall_mem_writeString hplain fun c _ hcontrol => hcontrol
  have hmember : ∀ m : Member, ∀ c ∈ writeMember solidus m, ¬IsControl c := by
    intro m
    rw [writeMember, List.forall_mem_append, List.forall_mem_cons]
    exact ⟨hstring m.1, by decide, hstring m.2⟩
  have hmarks : ¬IsControl openBrace ∧ ¬IsControl comma ∧ ¬IsControl closeBrace := by decide
  have hbrackets : ¬IsControl openBracket ∧ ¬IsControl comma ∧ ¬IsControl closeBracket := by
    decide
  exact forall_mem_writeList hbrackets fun members _ =>
    forall_mem_writeList hmarks fun m _ => hmember m

end JustDrop.Json
