import Mathlib.Data.List.Infix
import Mathlib.Tactic.Common

/-!
# Unix paths and their lexical resolution

A path is kept as its components, as the Rust standard library compares paths:
repeated separators are gone, and a `.` survives only at the head of a relative
path. What the text has behind its last component is a flag, since the kernel finds
only a directory there. `locate` resolves `.` and `..` lexically against a working
directory and yields the list of names from the root.
-/
namespace JustDrop

abbrev Name := List Char

inductive Component where
  | curDir
  | parentDir
  | normal (name : Name)
  deriving DecidableEq, Repr

/-- `trailing` is set when a separator or a `.` ends the text. -/
structure Path where
  absolute : Bool
  comps : List Component
  trailing : Bool
  deriving DecidableEq, Repr

/-- A resolved place in the file tree: the names from the root down. -/
abbrev Loc := List Name

/-- `(before, after)` around the last dot of a name. -/
def splitLastDot (name : Name) : Option (Name × Name) :=
  match name.reverse.dropWhile (· ≠ '.') with
  | [] => none
  | _ :: before => some (before.reverse, (name.reverse.takeWhile (· ≠ '.')).reverse)

/-- A leading dot alone does not start an extension. -/
def stemOf (name : Name) : Name :=
  match splitLastDot name with
  | some (before, _) => if before = [] then name else before
  | none => name

def extensionOf (name : Name) : Option Name :=
  match splitLastDot name with
  | some (before, after) => if before = [] then none else some after
  | none => none

namespace Path

def component (name : Name) : Component :=
  if name = ['.'] then .curDir else if name = ['.', '.'] then .parentDir else .normal name

def ofChars (s : List Char) : Path :=
  let parts := s.splitOn '/'
  let comps := (parts.filter (· ≠ [])).map component
  let trailing := parts.getLast? = some [] || parts.getLast? = some ['.']
  if s.head? = some '/' then ⟨true, comps.filter (· ≠ .curDir), trailing⟩
  else match comps with
    | [] => ⟨false, [], trailing⟩
    | c :: cs => ⟨false, c :: cs.filter (· ≠ .curDir), trailing⟩

def ofString (s : String) : Path := ofChars s.toList

/-- An absolute argument replaces the base. -/
def join (base p : Path) : Path :=
  if p.absolute then p
  else if base.absolute = false ∧ base.comps = [] then p
  else ⟨base.absolute, base.comps ++ p.comps.filter (· ≠ .curDir), p.trailing⟩

/-- `join` with a single ordinary name. -/
def child (base : Path) (name : Name) : Path :=
  ⟨base.absolute, base.comps ++ [.normal name], false⟩

/-- The path without its last component. -/
def above (p : Path) : Path := ⟨p.absolute, p.comps.dropLast, false⟩

def parent (p : Path) : Option Path := if p.comps = [] then none else some p.above

def fileName (p : Path) : Option Name :=
  match p.comps.getLast? with
  | some (.normal name) => some name
  | _ => none

def fileStem (p : Path) : Option Name := p.fileName.map stemOf

def extension (p : Path) : Option Name := p.fileName.bind extensionOf

/-- Only a directory can stand where a path leads that does not end in a name. -/
def dirOnly (p : Path) : Bool := p.trailing || p.fileName.isNone

/-- A path cut behind the dot of its extension. A name of the form `..x` is cut to `..`,
which is a name no longer; with a separator at its end the text is cut further behind,
where the stem is still the same. -/
def cutExtension (p : Path) : Path :=
  match p.fileName with
  | some name =>
    if (extensionOf name).isNone || p.trailing then p
    else ⟨p.absolute, p.comps.dropLast ++ [component (stemOf name ++ ['.'])], false⟩
  | none => p

/-- A path without a file name is left as it is. -/
def setExtension (p : Path) (ext : Name) : Path :=
  match p.fileName with
  | some name => p.above.child (stemOf name ++ '.' :: ext)
  | none => p

/-- The old extension goes first, and the new one is set on what is left. -/
def withExtension (p : Path) (ext : Name) : Path := p.cutExtension.setExtension ext

def resolveStep (loc : Loc) : Component → Loc
  | .curDir => loc
  | .parentDir => loc.dropLast
  | .normal name => loc ++ [name]

def locate (cwd : Loc) (p : Path) : Loc :=
  p.comps.foldl resolveStep (if p.absolute then [] else cwd)

theorem locate_concat (cwd : Loc) (absolute : Bool) (comps : List Component) (c : Component)
    (trailing : Bool) : locate cwd ⟨absolute, comps ++ [c], trailing⟩ =
      resolveStep (locate cwd ⟨absolute, comps, false⟩) c := by
  rw [locate, List.foldl_append]
  rfl

@[simp] theorem locate_child (cwd : Loc) (p : Path) (name : Name) :
    locate cwd (p.child name) = locate cwd p ++ [name] :=
  locate_concat cwd p.absolute p.comps (.normal name) false

@[simp] theorem above_child (p : Path) (name : Name) :
    (p.child name).above = ⟨p.absolute, p.comps, false⟩ := by
  simp [above, child]

@[simp] theorem dirOnly_child (p : Path) (name : Name) : (p.child name).dirOnly = false := by
  simp [dirOnly, fileName, child]

@[simp] theorem fileName_child (p : Path) (name : Name) : (p.child name).fileName = some name := by
  simp [fileName, child]

/-- A path with a file name leads to that name in the directory above. -/
theorem locate_of_fileName {p : Path} {name : Name} (h : p.fileName = some name) (cwd : Loc) :
    locate cwd p = locate cwd p.above ++ [name] := by
  unfold fileName at h
  split at h
  · rename_i other hlast
    obtain rfl := Option.some.inj h
    obtain ⟨parents, hcomps⟩ := List.getLast?_eq_some_iff.mp hlast
    obtain ⟨absolute, comps, trailing⟩ := p
    obtain rfl : comps = parents ++ [.normal other] := hcomps
    rw [locate_concat, above, List.dropLast_concat]
    rfl
  · simp at h

/-! ### Setting an extension -/

theorem splitLastDot_concat_dot (stem : Name) : splitLastDot (stem ++ ['.']) = some (stem, []) := by
  simp [splitLastDot]

/-- A stem with nothing but a dot behind it is found again. -/
theorem stemOf_concat_dot {stem : Name} (h : stem ≠ []) : stemOf (stem ++ ['.']) = stem := by
  simp [stemOf, splitLastDot_concat_dot, h]

theorem stemOf_ne_nil {name : Name} (h : extensionOf name ≠ none) : stemOf name ≠ [] := by
  unfold extensionOf at h
  unfold stemOf
  split at h
  · rename_i before after hsplit
    split_ifs at h with hbefore
    · exact absurd rfl h
    · simp [hbefore]
  · exact absurd rfl h

theorem component_concat_dot {stem : Name} (hne : stem ≠ []) (hdot : stem ≠ ['.']) :
    component (stem ++ ['.']) = .normal (stem ++ ['.']) := by
  have hcur : stem ++ ['.'] ≠ ['.'] := by simpa using hne
  have hparent : stem ++ ['.'] ≠ ['.', '.'] := fun h =>
    hdot (List.append_cancel_right (h.trans (List.singleton_append (x := '.') (l := ['.'])).symm))
  rw [component, if_neg hcur, if_neg hparent]

@[simp] theorem above_cutExtension (p : Path) : p.cutExtension.above = p.above := by
  unfold cutExtension
  split
  · split_ifs
    · rfl
    · simp [above]
  · rfl

/-- A name whose stem is not a single dot keeps this stem when its extension is cut off. -/
theorem exists_cutExtension {p : Path} {name : Name} (h : p.fileName = some name)
    (hkept : stemOf name ≠ ['.'] ∨ p.trailing = true) :
    ∃ cut, p.cutExtension.fileName = some cut ∧ stemOf cut = stemOf name := by
  unfold cutExtension
  simp only [h]
  split_ifs with hwhole
  · exact ⟨name, h, rfl⟩
  · simp only [Bool.or_eq_true, Option.isNone_iff_eq_none, not_or] at hwhole
    have hne := stemOf_ne_nil hwhole.1
    have hdot := hkept.resolve_right hwhole.2
    exact ⟨stemOf name ++ ['.'], by simp [fileName, component_concat_dot hne hdot],
      stemOf_concat_dot hne⟩

/-- A name that is lost with its extension leaves the directory above its own. -/
theorem locate_cutExtension {p : Path} {name : Name} (h : p.fileName = some name)
    (hlost : p.cutExtension.fileName = none) (cwd : Loc) :
    locate cwd p.cutExtension = (locate cwd p.above).dropLast := by
  have hdot : stemOf name = ['.'] := by
    by_contra hkept
    obtain ⟨cut, hcut, -⟩ := exists_cutExtension h (Or.inl hkept)
    simp [hlost] at hcut
  unfold cutExtension at hlost ⊢
  simp only [h] at hlost ⊢
  split_ifs at hlost ⊢ with hwhole
  · simp [h] at hlost
  · rw [locate_concat, hdot]
    rfl

/-- Where a name is left, the new extension stands behind its stem. -/
theorem withExtension_of_name {p : Path} {cut : Name} (h : p.cutExtension.fileName = some cut)
    (ext : Name) : p.withExtension ext = p.above.child (stemOf cut ++ '.' :: ext) := by
  simp [withExtension, setExtension, h]

theorem locate_withExtension {p : Path} {cut : Name} (h : p.cutExtension.fileName = some cut)
    (cwd : Loc) (ext : Name) :
    locate cwd (p.withExtension ext) = locate cwd p.above ++ [stemOf cut ++ '.' :: ext] := by
  rw [withExtension_of_name h, locate_child]

theorem withExtension_of_none {p : Path} (h : p.cutExtension.fileName = none) (ext : Name) :
    p.withExtension ext = p.cutExtension := by
  simp [withExtension, setExtension, h]

/-- Where no name is left, only a directory can stand at the new path. -/
theorem dirOnly_withExtension {p : Path} (ext : Name) :
    (p.withExtension ext).dirOnly = p.cutExtension.fileName.isNone := by
  cases h : p.cutExtension.fileName with
  | some cut => simp [withExtension_of_name h]
  | none => simp [withExtension_of_none h, h, dirOnly]

/-- The paths of the directories above and including `p`, outermost first. -/
def ancestors (p : Path) : List Path :=
  p.comps.inits.tail.map fun cs => ⟨p.absolute, cs, false⟩

theorem mem_ancestors {p q : Path} :
    q ∈ p.ancestors ↔ q.absolute = p.absolute ∧ (q.comps ≠ [] ∧ q.comps <+: p.comps) ∧
      q.trailing = false := by
  have hinits : ∀ cs, cs ∈ p.comps.inits.tail ↔ cs ≠ [] ∧ cs <+: p.comps := by
    intro cs
    cases p.comps with
    | nil => simp
    | cons c comps => cases cs <;> simp [List.inits, and_comm, eq_comm]
  obtain ⟨absolute, comps, trailing⟩ := q
  simp only [ancestors, List.mem_map, hinits, mk.injEq]
  constructor
  · rintro ⟨_, hcs, rfl, rfl, rfl⟩
    exact ⟨rfl, hcs, rfl⟩
  · rintro ⟨rfl, hcs, rfl⟩
    exact ⟨comps, hcs, rfl, rfl, rfl⟩

end Path

/-! ### Lying inside a directory -/

/-- Strictly below `dir` in the tree. -/
def Loc.Inside (dir loc : Loc) : Prop := dir <+: loc ∧ dir ≠ loc

instance (dir loc : Loc) : Decidable (Loc.Inside dir loc) :=
  inferInstanceAs (Decidable (_ ∧ _))

theorem Loc.inside_concat {dir loc : Loc} {name : Name} :
    Loc.Inside dir (loc ++ [name]) ↔ dir <+: loc := by
  unfold Loc.Inside
  constructor
  · rintro ⟨hpre, hne⟩
    rcases List.prefix_concat_iff.mp hpre with h | h
    · exact absurd h hne
    · exact h
  · intro h
    refine ⟨h.trans (List.prefix_append _ _), fun he => ?_⟩
    have hlen := h.length_le
    have hlen' : dir.length = loc.length + 1 := by simp [he]
    omega

theorem Loc.inside_append {dir names : Loc} (h : names ≠ []) : Loc.Inside dir (dir ++ names) := by
  refine ⟨List.prefix_append _ _, fun heq => h ?_⟩
  simpa using heq

example : Path.locate [] ((Path.ofString "/home/u/JustDrop").join (Path.ofString "../x")) =
    ["home".toList, "u".toList, "x".toList] := by decide

example : (Path.ofString "/dl/..foo").withExtension "part".toList = Path.ofString "/dl/.." := by
  decide

end JustDrop
