import JustDrop.Serializer
import Mathlib.Data.Countable.Defs

/-!
# Files written in place

A file is written by cutting it to nothing and then filling it. A crash can stop
this before the cut or behind any number of bytes. A text format reads back what it
printed and refuses a text that was cut off.
-/
namespace JustDrop

/-- Bytes by path; where there are none there is no file. -/
abbrev Files (π : Type*) := π → Option Bytes

/-- Where a crash stops a write: before the file is cut, or behind so many bytes. -/
inductive CrashPoint where
  | before
  | written (count : ℕ)
  deriving DecidableEq, Repr

namespace Files
variable {π : Type*} [DecidableEq π]

def write (path : π) (content : Bytes) (files : Files π) : Files π :=
  Function.update files path (some content)

@[simp] theorem write_same (path : π) (content : Bytes) (files : Files π) :
    files.write path content path = some content := Function.update_self ..

end Files

namespace CrashPoint
variable {π : Type*} [DecidableEq π]

/-- The files after a crash during a write. -/
def leaves (path : π) (content : Bytes) (files : Files π) : CrashPoint → Files π
  | before => files
  | written count => files.write path (content.take count)

/-- Nothing of the write has happened, or all of it. -/
def Harmless (content : Bytes) : CrashPoint → Prop
  | before => True
  | written count => content.length ≤ count

end CrashPoint

inductive ReadFailure where
  | notUtf8
  | malformed
  deriving DecidableEq, Repr

/-- Values as texts. What was cut off is refused. -/
structure TextFormat (α : Type*) where
  print : α → String
  parse : String → Option α
  parse_print : ∀ a, parse (print a) = some a
  parse_cut : ∀ a text, Bincode.utf8 text <+: Bincode.utf8 (print a) → text ≠ print a →
    parse text = none

namespace TextFormat
variable {α : Type*} (f : TextFormat α)

/-- The bytes of a printed value. -/
def content (a : α) : Bytes := Bincode.utf8 (f.print a)

def read (bytes : Bytes) : Except ReadFailure α :=
  match Format.utf8Text.symm bytes with
  | none => .error .notUtf8
  | some text =>
    match f.parse text with
    | none => .error .malformed
    | some a => .ok a

theorem read_content (a : α) : f.read (f.content a) = .ok a := by
  have htext : Format.utf8Text.symm (f.content a) = some (f.print a) :=
    Format.utf8Text.eq_some_iff.mpr rfl
  simp only [read, htext, f.parse_print]

/-- A strict prefix of a printed value is not read. -/
theorem read_cut {a : α} {bytes : Bytes} (hcut : bytes <+: f.content a)
    (hne : bytes ≠ f.content a) : ∃ failure, f.read bytes = .error failure := by
  rw [read]
  cases htext : Format.utf8Text.symm bytes with
  | none => exact ⟨_, rfl⟩
  | some text =>
    have hbytes : Bincode.utf8 text = bytes :=
      Option.some.inj (Format.utf8Text.eq_some_iff.mp htext)
    have hparse : f.parse text = none := by
      apply f.parse_cut a text
      · rw [hbytes]
        exact hcut
      · rintro rfl
        exact hne hbytes.symm
    simp only [hparse]
    exact ⟨_, rfl⟩

/-- The first bytes of a printed value are read if and only if they are all of it. -/
theorem read_take_iff (a : α) (count : ℕ) :
    (∃ b, f.read ((f.content a).take count) = .ok b) ↔ (f.content a).length ≤ count := by
  constructor
  · rintro ⟨b, hread⟩
    by_contra hlt
    obtain ⟨failure, hfails⟩ := f.read_cut (List.take_prefix count (f.content a)) (fun heq => by
      have hlength := congrArg List.length heq
      rw [List.length_take] at hlength
      omega)
    rw [hread] at hfails
    exact absurd hfails (by simp)
  · intro hle
    rw [List.take_of_length_le hle]
    exact ⟨a, f.read_content a⟩

/-- Loading what can be read, and the value itself, takes a file that was cut exactly when
nothing is missing. -/
theorem exists_load_take_iff {ε γ : Type*} (load : Bytes → Except ε γ) {a : α}
    (hread : ∀ bytes loaded, load bytes = .ok loaded → ∃ b, f.read bytes = .ok b)
    (hload : ∃ loaded, load (f.content a) = .ok loaded) (count : ℕ) :
    (∃ loaded, load ((f.content a).take count) = .ok loaded) ↔ (f.content a).length ≤ count := by
  constructor
  · rintro ⟨loaded, hloaded⟩
    exact (f.read_take_iff a count).mp (hread _ loaded hloaded)
  · intro hle
    rwa [List.take_of_length_le hle]

open Classical in
/-- Texts of which none starts another are a format. -/
noncomputable def ofPrefixFree (print : α → String)
    (h : ∀ a b, Bincode.utf8 (print a) <+: Bincode.utf8 (print b) → a = b) : TextFormat α where
  print := print
  parse text := if h : ∃ a, print a = text then some h.choose else none
  parse_print a := by
    have hex : ∃ b, print b = print a := ⟨a, rfl⟩
    rw [dif_pos hex, Option.some.injEq]
    exact h _ _ (by rw [hex.choose_spec])
  parse_cut a text hcut hne := by
    refine dif_neg ?_
    rintro ⟨b, rfl⟩
    exact hne (congrArg print (h b a hcut))

/-! ### Formats that exist -/

section Tally

/-- A number as so many ones. -/
def tally (n : ℕ) : String := String.ofList (List.replicate n '1' ++ ['0'])

theorem utf8_tally (n : ℕ) : Bincode.utf8 (tally n) = List.replicate n 49 ++ [48] := by
  have hone : String.utf8EncodeChar '1' = [49] := by decide
  have hzero : String.utf8EncodeChar '0' = [48] := by decide
  rw [tally, Bincode.utf8_ofList, List.flatMap_append, List.flatMap_replicate, hone]
  simp [hzero]

theorem tally_inj {m n : ℕ} (h : Bincode.utf8 (tally m) <+: Bincode.utf8 (tally n)) :
    m = n := by
  rw [utf8_tally, utf8_tally] at h
  induction m generalizing n with
  | zero =>
    cases n with
    | zero => rfl
    | succ n => simp [List.replicate_succ] at h
  | succ m ih =>
    cases n with
    | zero => simp [List.replicate_succ] at h
    | succ n =>
      simp only [List.replicate_succ, List.cons_append, List.cons_prefix_cons, true_and] at h
      rw [ih h]

theorem head_utf8_tally (n : ℕ) : (Bincode.utf8 (tally n)).head? ≠ some 0x7b := by
  rw [utf8_tally]
  cases n with
  | zero => decide
  | succ n => simp [List.replicate_succ]

/-- The text of one value begins the text of no other. -/
def Distinguishable (texts : List (α × String)) : Prop :=
  ∀ p ∈ texts, ∀ q ∈ texts, Bincode.utf8 p.2 <+: Bincode.utf8 q.2 → p.1 = q.1

instance [DecidableEq α] (texts : List (α × String)) : Decidable (Distinguishable texts) :=
  inferInstanceAs (Decidable (∀ _ ∈ texts, _))

theorem distinguishable_singleton (given : α × String) : Distinguishable [given] := by
  intro p hp q hq _
  rw [List.mem_singleton.mp hp, List.mem_singleton.mp hq]

/-- The given values are printed as objects with these texts behind their braces, the others
are counted. -/
noncomputable def printing [DecidableEq α] [Countable α] (texts : List (α × String))
    (hfree : Distinguishable texts) : TextFormat α :=
  ofPrefixFree
    (fun b => match texts.find? (·.1 = b) with
      | some given => "\x7b" ++ given.2
      | none => tally ((exists_injective_nat α).choose b))
    (by
      have hbrace : ∀ body, Bincode.utf8 ("\x7b" ++ body) = 0x7b :: Bincode.utf8 body := by
        intro body
        rw [Bincode.utf8_append]
        rfl
      intro b c h
      cases hb : texts.find? (·.1 = b) with
      | some given =>
        cases hc : texts.find? (·.1 = c) with
        | some other =>
          simp only [hb, hc, hbrace, List.cons_prefix_cons, true_and] at h
          have heq := hfree _ (List.mem_of_find?_eq_some hb) _ (List.mem_of_find?_eq_some hc) h
          have hgiven : given.1 = b := by simpa using List.find?_some hb
          have hother : other.1 = c := by simpa using List.find?_some hc
          rw [← hgiven, heq, hother]
        | none =>
          simp only [hb, hc, hbrace] at h
          obtain ⟨rest, hrest⟩ := h
          refine absurd ?_ (head_utf8_tally ((exists_injective_nat α).choose c))
          rw [← hrest, List.cons_append, List.head?_cons]
      | none =>
        cases hc : texts.find? (·.1 = c) with
        | some other =>
          simp only [hb, hc, hbrace] at h
          obtain ⟨rest, hrest⟩ := h
          refine absurd ?_ (head_utf8_tally ((exists_injective_nat α).choose b))
          rw [utf8_tally] at hrest
          rw [utf8_tally]
          cases hn : (exists_injective_nat α).choose b with
          | zero => simp [hn] at hrest
          | succ n => simp [hn, List.replicate_succ] at hrest
        | none =>
          simp only [hb, hc] at h
          exact (exists_injective_nat α).choose_spec (tally_inj h))

theorem content_printing [DecidableEq α] [Countable α] {texts : List (α × String)}
    (hfree : Distinguishable texts) {a : α} {body : String}
    (h : texts.find? (·.1 = a) = some (a, body)) :
    (printing texts hfree).content a = 0x7b :: Bincode.utf8 body := by
  have hprint : (printing texts hfree).print a = "\x7b" ++ body := by
    simp only [printing, ofPrefixFree, h]
  rw [content, hprint, Bincode.utf8_append]
  rfl

end Tally

end TextFormat

/-! ### A value kept in one file -/

section Start
variable {π α ε : Type*} [DecidableEq π]

/-- A value is loaded where its file exists; otherwise it is generated and written. -/
def startFrom (path : π) (load : Files π → Except ε α) (content : α → Bytes)
    (generated : Except ε α) (files : Files π) : Except ε α × Files π :=
  if (files path).isSome then (load files, files)
  else match generated with
    | .error failure => (.error failure, files)
    | .ok a => (.ok a, files.write path (content a))

/-- The files after a crash of a start. -/
def startCrash (path : π) (content : α → Bytes) (generated : Except ε α) (point : CrashPoint)
    (files : Files π) : Files π :=
  if (files path).isSome then files
  else match generated with
    | .error _ => files
    | .ok a => point.leaves path (content a) files

/-- Starts one after the other, each with what it would generate. -/
def starts (path : π) (load : Files π → Except ε α) (content : α → Bytes) :
    List (Except ε α) → Files π → List (Except ε α)
  | [], _ => []
  | generated :: later, files =>
    (startFrom path load content generated files).1 ::
      starts path load content later (startFrom path load content generated files).2

variable {path : π} {load : Files π → Except ε α} {content : α → Bytes}

theorem startFrom_existing {files : Files π} (h : (files path).isSome) (generated : Except ε α) :
    startFrom path load content generated files = (load files, files) := if_pos h

theorem startFrom_missing {files : Files π} (h : files path = none) (a : α) :
    startFrom path load content (.ok a) files = (.ok a, files.write path (content a)) := by
  simp [startFrom, h]

/-- A first start that crashed is made up for by the next one if and only if the crash was
harmless. -/
theorem startFrom_startCrash_iff {files : Files π} (hmissing : files path = none) {first next : α}
    (hload : ∀ count, (∃ a, load (files.write path ((content first).take count)) = .ok a) ↔
      (content first).length ≤ count) (point : CrashPoint) :
    (∃ a, (startFrom path load content (.ok next)
      (startCrash path content (.ok first : Except ε α) point files)).1 = .ok a) ↔
      point.Harmless (content first) := by
  have hcrash : startCrash path content (.ok first : Except ε α) point files =
      point.leaves path (content first) files := by
    simp [startCrash, hmissing]
  rw [hcrash]
  cases point with
  | before =>
    simp only [CrashPoint.leaves, CrashPoint.Harmless, iff_true]
    rw [startFrom_missing hmissing]
    exact ⟨next, rfl⟩
  | written count =>
    simp only [CrashPoint.leaves, CrashPoint.Harmless]
    rw [startFrom_existing (by simp), hload]

/-- A file that does not load is never replaced. -/
theorem starts_fail {files : Files π} (h : (files path).isSome) {failure : ε}
    (hload : load files = .error failure) (draws : List (Except ε α)) :
    ∀ result ∈ starts path load content draws files, result = .error failure := by
  induction draws with
  | nil => simp [starts]
  | cons generated later ih =>
    rw [starts, startFrom_existing h, List.forall_mem_cons]
    exact ⟨hload, ih⟩

end Start
end JustDrop
