import JustDrop.Rounds

/-!
# Incremental hashing

A hasher takes its input in parts and gives its value at the end. What was taken before
counts as one part, so the value depends on the input alone. A loop that reads until
nothing comes hashes what it has read.
-/
namespace JustDrop
open Rounds

/-- The state of a hash: parts of the input go in, the value comes out. -/
structure Hasher (σ β η : Type*) where
  new : σ
  update : σ → List β → σ
  finalize : σ → η
  update_nil : ∀ s, update s [] = s
  update_append : ∀ s a b, update s (a ++ b) = update (update s a) b

namespace Hasher
variable {σ β η ε : Type*}

/-- The value of a whole input. -/
def hash (h : Hasher σ β η) (input : List β) : η := h.finalize (h.update h.new input)

/-- A hasher that keeps its input until the end. -/
def collecting (value : List β → η) : Hasher (List β) β η where
  new := []
  update := (· ++ ·)
  finalize := value
  update_nil := List.append_nil
  update_append s a b := (List.append_assoc s a b).symm

@[simp] theorem hash_collecting (value : List β → η) (input : List β) :
    (collecting value).hash input = value input := rfl

theorem foldl_update (h : Hasher σ β η) (parts : List (List β)) (s : σ) :
    parts.foldl h.update s = h.update s parts.flatten := by
  induction parts generalizing s with
  | nil => simp [h.update_nil]
  | cons part parts ih => rw [List.foldl_cons, ih, List.flatten_cons, h.update_append]

/-- However the input is cut, the value is that of the whole. -/
theorem finalize_foldl (h : Hasher σ β η) (parts : List (List β)) :
    h.finalize (parts.foldl h.update h.new) = h.hash parts.flatten := by
  rw [foldl_update, hash]

/-! ### Reading to the end -/

/-- A round: a failed read ends the loop, and so does one that returns nothing. -/
def readTurn (h : Hasher σ β η) (s : σ) : Except ε (List β) → Turn σ ε
  | .error e => .fail e s
  | .ok [] => .leave s
  | .ok (b :: part) => .next (h.update s (b :: part))

/-- The value when the reads have come to an end; none if the loop would ask further. -/
def readAll (h : Hasher σ β η) (reads : List (Except ε (List β))) : Option (Except ε η) :=
  (loop (fun _ => true) (readTurn h) reads h.new).map fun
    | .left s => .ok (h.finalize s)
    | .failed e _ => .error e

/-- What some reads returned. -/
def taken (reads : List (Except ε (List β))) : List β :=
  reads.flatMap fun
    | .ok part => part
    | .error _ => []

/-- What the reads so far have led to: all of them returned something. -/
structure ReadSoFar (h : Hasher σ β η) (reads : List (Except ε (List β))) (s : σ) : Prop where
  state : s = h.update h.new (taken reads)
  filled : ∀ read ∈ reads, ∃ part, part ≠ [] ∧ read = .ok part

theorem ReadSoFar.next {h : Hasher σ β η} {seen : List (Except ε (List β))}
    {a : Except ε (List β)} {s s' : σ} (hs : ReadSoFar h seen s)
    (hturn : readTurn h s a = .next s') : ReadSoFar h (seen ++ [a]) s' := by
  rcases a with e | _ | ⟨b, part⟩
  · simp [readTurn] at hturn
  · simp [readTurn] at hturn
  · obtain rfl : h.update s (b :: part) = s' := by simpa [readTurn] using hturn
    constructor
    · rw [hs.state, ← h.update_append]
      simp [taken]
    · exact forall_mem_concat hs.filled ⟨b :: part, List.cons_ne_nil _ _, rfl⟩

theorem readAll_reached {h : Hasher σ β η} {reads : List (Except ε (List β))}
    {ending : Ending σ ε} (hloop : loop (fun _ => true) (readTurn h) reads h.new = some ending) :
    Reached (ReadSoFar h) (fun _ => true) (readTurn h) reads ending := by
  refine reached ⟨?_, fun _ hmem => absurd hmem List.not_mem_nil⟩ ?_ hloop
  · exact (h.update_nil h.new).symm
  · exact fun _ _ _ _ hs _ hturn => hs.next hturn

/-- Reads end with an empty one after parts that are hashed, or with the first failure. -/
theorem readAll_eq_some {h : Hasher σ β η} {reads : List (Except ε (List β))}
    {result : Except ε η} (hread : readAll h reads = some result) :
    ∃ seen last, reads = seen ++ [last] ∧
      (∀ read ∈ seen, ∃ part, part ≠ [] ∧ read = .ok part) ∧
      (last = .ok [] ∧ result = .ok (h.hash (taken reads)) ∨
        ∃ e, last = .error e ∧ result = .error e) := by
  obtain ⟨ending, hloop, hresult⟩ := Option.map_eq_some_iff.mp hread
  cases readAll_reached hloop with
  | done inv stop => simp at stop
  | @left seen s a s' inv go last all =>
    rcases a with e | _ | ⟨b, part⟩
    · simp [readTurn] at last
    · obtain rfl : s = s' := by simpa [readTurn] using last
      have htaken : taken reads = taken seen := by simp [all, taken]
      refine ⟨seen, .ok [], all, inv.filled, Or.inl ⟨rfl, hresult.symm.trans ?_⟩⟩
      rw [htaken, hash, ← inv.state]
    · simp [readTurn] at last
  | @failed seen s a e s' inv go last all =>
    rcases a with e' | _ | ⟨b, part⟩
    · obtain ⟨rfl, rfl⟩ : e' = e ∧ s = s' := by simpa [readTurn] using last
      exact ⟨seen, .error e', all, inv.filled, Or.inr ⟨e', rfl, hresult.symm⟩⟩
    · simp [readTurn] at last
    · simp [readTurn] at last

/-- A list has a first element without a property, or all have it. -/
theorem forall_or_exists_first {α : Type*} (P : α → Prop) (l : List α) :
    (∀ a ∈ l, P a) ∨ ∃ seen last rest, l = seen ++ last :: rest ∧ (∀ a ∈ seen, P a) ∧ ¬P last := by
  induction l with
  | nil => exact Or.inl fun _ h => absurd h List.not_mem_nil
  | cons a l ih =>
    by_cases ha : P a
    · rcases ih with hall | ⟨seen, last, rest, rfl, hseen, hlast⟩
      · exact Or.inl (List.forall_mem_cons.mpr ⟨ha, hall⟩)
      · exact Or.inr ⟨a :: seen, last, rest, rfl, List.forall_mem_cons.mpr ⟨ha, hseen⟩, hlast⟩
    · exact Or.inr ⟨[], a, l, rfl, fun _ h => absurd h List.not_mem_nil, ha⟩

/-- Parts and then the end or a failure make a whole reading. -/
theorem readAll_of_filled {h : Hasher σ β η} {seen : List (Except ε (List β))}
    {last : Except ε (List β)} (hfilled : ∀ read ∈ seen, ∃ part, part ≠ [] ∧ read = .ok part)
    (hlast : ¬∃ part, part ≠ [] ∧ last = .ok part) :
    ∃ result, readAll h (seen ++ [last]) = some result := by
  suffices ∀ s, ∃ ending, loop (fun _ => true) (readTurn h) (seen ++ [last]) s = some ending by
    obtain ⟨ending, hloop⟩ := this h.new
    exact ⟨_, Option.map_eq_some_iff.mpr ⟨ending, hloop, rfl⟩⟩
  induction seen with
  | nil =>
    intro s
    rcases last with e | _ | ⟨b, part⟩
    · exact ⟨.failed e s, rfl⟩
    · exact ⟨.left s, rfl⟩
    · exact absurd ⟨b :: part, List.cons_ne_nil _ _, rfl⟩ hlast
  | cons read seen ih =>
    intro s
    rw [List.forall_mem_cons] at hfilled
    obtain ⟨⟨_ | ⟨b, part⟩, hne, rfl⟩, hfilled⟩ := hfilled
    · exact absurd rfl hne
    · exact ih hfilled (h.update s (b :: part))

end Hasher
end JustDrop
