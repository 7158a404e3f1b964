import JustDrop.ByteImage
import JustDrop.Task
import JustDrop.UnixPath
import Mathlib.Data.Finmap

/-!
# A file tree and its system calls

The tree maps resolved locations to files and directories. A call fails by
itself when a node is missing or of the wrong kind, or when a file is asked for
where only a directory can stand (`dirOnly`, said by the path); whether it fails for
another reason (space, permissions) is the environment's choice, listed call by call
in `faults`, where `some n` fails a write after its first `n` bytes. `touched`
records every location handed to a call that creates, opens, resizes, writes or
renames.
-/
namespace JustDrop
open ByteImage

inductive Node where
  | file (bytes : Bytes)
  | dir
  deriving DecidableEq, Repr

inductive IoError where
  | notFound
  | isDirectory
  | notADirectory
  | invalidData
  | fault
  deriving DecidableEq, Repr

structure Disk where
  nodes : Finmap (fun _ : Loc => Node)
  touched : List Loc
  faults : List (Option ℕ)

namespace Disk

def lookup (d : Disk) (loc : Loc) : Option Node := d.nodes.lookup loc

/-- Whether a lookup finds something; the kernel does not find a file where only a
directory can stand. -/
def exists? (d : Disk) (loc : Loc) (dirOnly : Bool) : Bool :=
  match d.lookup loc with
  | some .dir => true
  | some (.file _) => !dirOnly
  | none => false

/-- The bytes of a file, empty where there is none. -/
def contents (d : Disk) (loc : Loc) : Bytes :=
  match d.lookup loc with
  | some (.file bytes) => bytes
  | _ => []

def set (loc : Loc) (node : Node) (d : Disk) : Disk := { d with nodes := d.nodes.insert loc node }

def erase (loc : Loc) (d : Disk) : Disk := { d with nodes := d.nodes.erase loc }

def touch (loc : Loc) (d : Disk) : Disk := { d with touched := d.touched ++ [loc] }

theorem lookup_set (d : Disk) (loc l : Loc) (node : Node) :
    (d.set loc node).lookup l = if l = loc then some node else d.lookup l := by
  unfold lookup set
  split_ifs with h
  · rw [h, Finmap.lookup_insert]
  · rw [Finmap.lookup_insert_of_ne _ h]

theorem lookup_erase (d : Disk) (loc l : Loc) :
    (d.erase loc).lookup l = if l = loc then none else d.lookup l := by
  unfold lookup erase
  split_ifs with h
  · rw [h, Finmap.lookup_erase]
  · rw [Finmap.lookup_erase_ne h]

@[simp] theorem lookup_touch (d : Disk) (loc l : Loc) : (d.touch loc).lookup l = d.lookup l := rfl
@[simp] theorem lookup_faults (d : Disk) (fs : List (Option ℕ)) (l : Loc) :
    ({ d with faults := fs } : Disk).lookup l = d.lookup l := rfl
@[simp] theorem touched_set (d : Disk) (loc : Loc) (node : Node) :
    (d.set loc node).touched = d.touched := rfl
@[simp] theorem touched_erase (d : Disk) (loc : Loc) : (d.erase loc).touched = d.touched := rfl
@[simp] theorem touched_touch (d : Disk) (loc : Loc) :
    (d.touch loc).touched = d.touched ++ [loc] := rfl
@[simp] theorem faults_set (d : Disk) (loc : Loc) (node : Node) :
    (d.set loc node).faults = d.faults := rfl
@[simp] theorem faults_erase (d : Disk) (loc : Loc) : (d.erase loc).faults = d.faults := rfl
@[simp] theorem faults_touch (d : Disk) (loc : Loc) : (d.touch loc).faults = d.faults := rfl

theorem contents_eq_of_lookup {d : Disk} {loc : Loc} {bytes : Bytes}
    (h : d.lookup loc = some (.file bytes)) : d.contents loc = bytes := by
  simp [contents, h]

theorem contents_congr {d d' : Disk} {loc : Loc} (h : d'.lookup loc = d.lookup loc) :
    d'.contents loc = d.contents loc := by
  simp [contents, h]

/-! ### System calls -/

/-- The next entry of the fault list, `none` past its end. -/
def nextFault : Task Disk IoError (Option ℕ) := fun d =>
  (.ok (d.faults.head?.join), { d with faults := d.faults.tail })

def attempt : Task Disk IoError Unit := do
  match ← nextFault with
  | none => pure ()
  | some _ => Task.fail .fault

/-- Create what is missing of `locs`, the directories of a path from the outermost on. -/
def createDirAll : List Loc → Task Disk IoError Unit
  | [] => pure ()
  | loc :: locs => do
    let d ← Task.get
    match d.lookup loc with
    | some .dir => createDirAll locs
    | some (.file _) => Task.fail .notADirectory
    | none => do
      Task.modify (touch loc)
      attempt
      Task.modify (set loc .dir)
      createDirAll locs

/-- Open for writing, creating an empty file where there is none. -/
def openCreate (loc : Loc) (dirOnly : Bool) : Task Disk IoError Unit := do
  Task.modify (touch loc)
  attempt
  let d ← Task.get
  if dirOnly then Task.fail .isDirectory
  else match d.lookup loc with
    | some .dir => Task.fail .isDirectory
    | some (.file _) => pure ()
    | none => Task.modify (set loc (.file []))

/-- Resize an open file. -/
def setLen (loc : Loc) (n : ℕ) : Task Disk IoError Unit := do
  Task.modify (touch loc)
  attempt
  Task.modify fun d => d.set loc (.file (resize (d.contents loc) n))

/-- Open an existing file for writing. -/
def openExisting (loc : Loc) : Task Disk IoError Unit := do
  Task.modify (touch loc)
  attempt
  let d ← Task.get
  match d.lookup loc with
  | some .dir => Task.fail .isDirectory
  | some (.file _) => pure ()
  | none => Task.fail .notFound

/-- Seek in an open file and write the block; a failed write may leave a part of it. -/
def writeAll (loc : Loc) (offset : ℕ) (block : Bytes) : Task Disk IoError Unit := do
  Task.modify (touch loc)
  match ← nextFault with
  | none => Task.modify fun d => d.set loc (.file (writeAt (d.contents loc) offset block))
  | some n => do
    Task.modify fun d => d.set loc (.file (writeAt (d.contents loc) offset (block.take n)))
    Task.fail .fault

/-- Rename a file, replacing a file at the target. -/
def rename (src dst : Loc) (dirOnly : Bool) : Task Disk IoError Unit := do
  Task.modify fun d => (d.touch src).touch dst
  attempt
  let d ← Task.get
  match d.lookup src, d.lookup dst with
  | none, _ => Task.fail .notFound
  | some (.file _), some .dir => Task.fail .isDirectory
  | some .dir, some (.file _) => Task.fail .notADirectory
  | some (.file bytes), _ =>
    if dirOnly then Task.fail .notADirectory
    else Task.modify fun d => (d.erase src).set dst (.file bytes)
  | some .dir, _ => Task.modify fun d => (d.erase src).set dst .dir

/-! ### What a call that returned has done -/

theorem nextFault_bind_run {β : Type} (f : Option ℕ → Task Disk IoError β) (d : Disk) :
    (nextFault >>= f) d = f d.faults.head?.join { d with faults := d.faults.tail } := rfl

theorem attempt_cases (d : Disk) :
    attempt d = (.ok (), { d with faults := d.faults.tail }) ∨
      attempt d = (.err .fault, { d with faults := d.faults.tail }) := by
  rw [attempt, nextFault_bind_run]
  cases d.faults.head?.join
  · exact Or.inl rfl
  · exact Or.inr rfl

theorem attempt_of_spared {d : Disk} (h : d.faults.head?.join = none) :
    attempt d = (.ok (), { d with faults := d.faults.tail }) := by
  rw [attempt, nextFault_bind_run, h]
  rfl

theorem spared_of_attempt {β : Type} {f : Unit → Task Disk IoError β} {d d' : Disk} {b : β}
    (h : (attempt >>= f) d = (.ok b, d')) : d.faults.head?.join = none := by
  rw [attempt] at h
  cases hfault : d.faults.head?.join with
  | none => rfl
  | some n => simp [bind, nextFault, hfault] at h

theorem attempt_of_calm {d : Disk} (h : d.faults = []) : attempt d = (.ok (), d) := by
  cases d
  subst h
  rfl

theorem attempt_bind_eq_ok {β : Type} {f : Unit → Task Disk IoError β} {d d' : Disk} {b : β}
    (h : (attempt >>= f) d = (.ok b, d')) :
    f () { d with faults := d.faults.tail } = (.ok b, d') := by
  rcases attempt_cases d with he | he
  · rwa [Task.bind_of_ok he] at h
  · rw [Task.bind_of_err he] at h
    simp at h

/-- Creating directories fills empty places of the list and nothing else. -/
theorem createDirAll_lookup {locs : List Loc} {d d' : Disk}
    (h : createDirAll locs d = (.ok (), d')) (l : Loc) :
    d'.lookup l = d.lookup l ∨ d.lookup l = none ∧ d'.lookup l = some .dir := by
  induction locs generalizing d with
  | nil =>
    obtain rfl := (Prod.mk.inj h).2
    exact Or.inl rfl
  | cons loc locs ih =>
    simp only [createDirAll, Task.get_bind_run] at h
    cases hl : d.lookup loc with
    | some node =>
      cases node with
      | dir =>
        simp only [hl] at h
        exact ih h
      | file bytes => simp [hl] at h
    | none =>
      simp only [hl, Task.modify_bind_run] at h
      rcases ih (attempt_bind_eq_ok h) with h' | ⟨h', h''⟩ <;> rw [lookup_set] at h'
      · split_ifs at h' with he
        · exact Or.inr ⟨he ▸ hl, h'⟩
        · exact Or.inl h'
      · split_ifs at h' with he
        exact Or.inr ⟨h', h''⟩

theorem createDirAll_contents {locs : List Loc} {d d' : Disk}
    (h : createDirAll locs d = (.ok (), d')) (l : Loc) : d'.contents l = d.contents l := by
  rcases createDirAll_lookup h l with hl | ⟨hn, hd⟩
  · exact contents_congr hl
  · simp [contents, hn, hd]

theorem createDirAll_of_dirs {locs : List Loc} {d : Disk}
    (h : ∀ loc ∈ locs, d.lookup loc = some .dir) : createDirAll locs d = (.ok (), d) := by
  induction locs with
  | nil => rfl
  | cons loc locs ih =>
    simp only [createDirAll, Task.get_bind_run, h loc (by simp)]
    exact ih fun l hl => h l (by simp [hl])

theorem openCreate_of_calm {d : Disk} (h : d.faults = []) {loc : Loc}
    (hl : d.lookup loc ≠ some .dir) :
    ∃ d', openCreate loc false d = (.ok (), d') ∧ d'.faults = [] := by
  simp only [openCreate, Task.modify_bind_run]
  rw [Task.bind_of_ok (attempt_of_calm (by simpa using h))]
  simp only [Task.get_bind_run, Bool.false_eq_true, if_false, lookup_touch]
  cases hn : d.lookup loc with
  | none => exact ⟨_, rfl, h⟩
  | some node =>
    cases node with
    | dir => exact absurd hn hl
    | file bytes => exact ⟨_, rfl, h⟩

/-- Where only a directory can stand, nothing is opened and nothing is made. -/
theorem openCreate_of_dirOnly (loc : Loc) (d : Disk) :
    ∃ e d', openCreate loc true d = (.err e, d') ∧ ∀ l, d'.lookup l = d.lookup l := by
  simp only [openCreate, Task.modify_bind_run]
  rcases attempt_cases (d.touch loc) with hok | hfault
  · rw [Task.bind_of_ok hok]
    exact ⟨_, _, rfl, fun _ => rfl⟩
  · rw [Task.bind_of_err hfault]
    exact ⟨_, _, rfl, fun _ => rfl⟩

theorem setLen_of_calm {d : Disk} (h : d.faults = []) (loc : Loc) (n : ℕ) :
    ∃ d', setLen loc n d = (.ok (), d') ∧ d'.faults = [] := by
  cases d
  subst h
  exact ⟨_, rfl, rfl⟩

/-- Only what a path that ends in a name leads to is opened. -/
theorem dirOnly_of_openCreate {d d' : Disk} {loc : Loc} {dirOnly : Bool}
    (h : openCreate loc dirOnly d = (.ok (), d')) : dirOnly = false := by
  simp only [openCreate, Task.modify_bind_run] at h
  have h₂ := attempt_bind_eq_ok h
  simp only [Task.get_bind_run] at h₂
  cases dirOnly with
  | false => rfl
  | true => simp at h₂

theorem openCreate_lookup {d d' : Disk} {loc : Loc} {dirOnly : Bool}
    (h : openCreate loc dirOnly d = (.ok (), d')) (l : Loc) :
    d'.lookup l = if l = loc then some (.file (d.contents loc)) else d.lookup l := by
  obtain rfl := dirOnly_of_openCreate h
  simp only [openCreate, Task.modify_bind_run] at h
  have h₂ := attempt_bind_eq_ok h
  simp only [Task.get_bind_run, Bool.false_eq_true, if_false, lookup_faults, lookup_touch] at h₂
  cases hl : d.lookup loc with
  | some node =>
    cases node with
    | dir => simp [hl] at h₂
    | file bytes =>
      simp only [hl, Task.pure_run] at h₂
      obtain rfl := (Prod.mk.inj h₂).2
      split_ifs with he
      · rw [he, contents_eq_of_lookup hl, ← hl]
        rfl
      · rfl
  | none =>
    simp only [hl, Task.modify_run] at h₂
    obtain rfl := (Prod.mk.inj h₂).2
    rw [lookup_set]
    simp [contents, hl]
    rfl

theorem setLen_lookup {d d' : Disk} {loc : Loc} {n : ℕ} (h : setLen loc n d = (.ok (), d'))
    (l : Loc) :
    d'.lookup l = if l = loc then some (.file (resize (d.contents loc) n)) else d.lookup l := by
  simp only [setLen, Task.modify_bind_run] at h
  obtain rfl := (Prod.mk.inj (attempt_bind_eq_ok h)).2
  rw [lookup_set]
  rfl

theorem openExisting_lookup {d d' : Disk} {loc : Loc} (h : openExisting loc d = (.ok (), d')) :
    d.lookup loc = some (.file (d.contents loc)) ∧ ∀ l, d'.lookup l = d.lookup l := by
  simp only [openExisting, Task.modify_bind_run] at h
  have h₂ := attempt_bind_eq_ok h
  simp only [Task.get_bind_run, lookup_faults, lookup_touch] at h₂
  cases hl : d.lookup loc with
  | none => simp [hl] at h₂
  | some node =>
    cases node with
    | dir => simp [hl] at h₂
    | file bytes =>
      simp only [hl, Task.pure_run] at h₂
      obtain rfl := (Prod.mk.inj h₂).2
      exact ⟨by rw [contents_eq_of_lookup hl], fun _ => rfl⟩

theorem openExisting_of_calm {d : Disk} (h : d.faults = []) {loc : Loc} {bytes : Bytes}
    (hl : d.lookup loc = some (.file bytes)) : openExisting loc d = (.ok (), d.touch loc) := by
  simp only [openExisting, Task.modify_bind_run]
  rw [Task.bind_of_ok (attempt_of_calm (by simpa using h))]
  simp [hl]

theorem openExisting_of_spared {d : Disk} {loc : Loc} {bytes : Bytes}
    (h : d.faults.head?.join = none) (hl : d.lookup loc = some (.file bytes)) :
    openExisting loc d = (.ok (), { d.touch loc with faults := d.faults.tail }) := by
  simp only [openExisting, Task.modify_bind_run]
  rw [Task.bind_of_ok (attempt_of_spared (by simpa using h))]
  simp only [Task.get_bind_run, lookup_faults, lookup_touch, hl, Task.pure_run, faults_touch]

theorem openExisting_faults {d d' : Disk} {loc : Loc}
    (h : openExisting loc d = (.ok (), d')) :
    d.faults.head?.join = none ∧ d'.faults = d.faults.tail := by
  simp only [openExisting, Task.modify_bind_run] at h
  have hspared := spared_of_attempt h
  have h₂ := attempt_bind_eq_ok h
  simp only [Task.get_bind_run, lookup_faults, lookup_touch] at h₂
  rcases hl : d.lookup loc with _ | ⟨bytes | _⟩
  · simp [hl] at h₂
  · simp only [hl, Task.pure_run, Prod.mk.injEq, true_and] at h₂
    exact ⟨hspared, by rw [← h₂, faults_touch]⟩
  · simp [hl] at h₂

theorem writeAll_of_spared {d : Disk} (h : d.faults.head?.join = none) (loc : Loc) (offset : ℕ)
    (block : Bytes) : ∃ d', writeAll loc offset block d = (.ok (), d') := by
  simp only [writeAll, Task.modify_bind_run, nextFault_bind_run]
  rw [faults_touch, h]
  exact ⟨_, rfl⟩

theorem writeAll_faults {d d' : Disk} {loc : Loc} {offset : ℕ} {block : Bytes}
    (h : writeAll loc offset block d = (.ok (), d')) : d.faults.head?.join = none := by
  simp only [writeAll, Task.modify_bind_run, nextFault_bind_run] at h
  rw [faults_touch] at h
  cases hf : d.faults.head?.join with
  | none => rfl
  | some n => simp [hf] at h

theorem writeAll_lookup {d d' : Disk} {loc : Loc} {offset : ℕ} {block : Bytes}
    (h : writeAll loc offset block d = (.ok (), d')) (l : Loc) :
    d'.lookup l =
      if l = loc then some (.file (writeAt (d.contents loc) offset block)) else d.lookup l := by
  simp only [writeAll, Task.modify_bind_run, nextFault_bind_run] at h
  rw [faults_touch] at h
  cases hf : d.faults.head?.join with
  | none =>
    simp only [hf, Task.modify_run] at h
    obtain rfl := (Prod.mk.inj h).2
    rw [lookup_set]
    rfl
  | some n => simp [hf] at h

theorem writeAll_of_calm {d : Disk} (h : d.faults = []) (loc : Loc) (offset : ℕ) (block : Bytes) :
    writeAll loc offset block d =
      (.ok (), (d.touch loc).set loc (.file (writeAt (d.contents loc) offset block))) := by
  cases d
  subst h
  rfl

/-- What a rename finds and what it makes of it. -/
theorem rename_eq_ok {d d' : Disk} {src dst : Loc} {dirOnly : Bool}
    (h : rename src dst dirOnly d = (.ok (), d')) :
    ∃ node, d.lookup src = some node ∧
      (∀ bytes, node = .file bytes → dirOnly = false) ∧
      (∀ bytes, d.lookup dst = some (.file bytes) → node ≠ .dir) ∧
      ∀ l, d'.lookup l = if l = dst then some node else if l = src then none else d.lookup l := by
  simp only [rename, Task.modify_bind_run] at h
  have h₂ := attempt_bind_eq_ok h
  simp only [Task.get_bind_run, lookup_faults, lookup_touch] at h₂
  have hlookup : ∀ node, (erase src { (d.touch src).touch dst with
      faults := d.faults.tail }).set dst node = d' → ∀ l,
      d'.lookup l = if l = dst then some node else if l = src then none else d.lookup l := by
    rintro node rfl l
    rw [lookup_set, lookup_erase]
    rfl
  rcases hsrc : d.lookup src with _ | ⟨bytes | _⟩
  · simp [hsrc] at h₂
  · refine ⟨.file bytes, rfl, fun _ _ => ?_, by simp, hlookup _ ?_⟩
    · cases dirOnly with
      | false => rfl
      | true => rcases hdst : d.lookup dst with _ | ⟨other | _⟩ <;> simp [hsrc, hdst] at h₂
    · rcases hdst : d.lookup dst with _ | ⟨other | _⟩ <;> cases dirOnly <;>
        simp only [hsrc, hdst, if_true, if_false, Bool.false_eq_true, Task.modify_run,
          Task.fail_run, Prod.mk.injEq, reduceCtorEq, false_and, true_and] at h₂ <;> exact h₂
  · refine ⟨.dir, rfl, by simp, ?_, hlookup _ ?_⟩
    · intro other hdst
      simp [hsrc, hdst] at h₂
    · rcases hdst : d.lookup dst with _ | ⟨other | _⟩ <;>
        simp only [hsrc, hdst, Task.modify_run, Task.fail_run, Prod.mk.injEq, reduceCtorEq,
          false_and, true_and] at h₂ <;> exact h₂

theorem rename_lookup {d d' : Disk} {src dst : Loc} {dirOnly : Bool}
    (h : rename src dst dirOnly d = (.ok (), d')) :
    ∃ node, d.lookup src = some node ∧
      ∀ l, d'.lookup l = if l = dst then some node else if l = src then none else d.lookup l := by
  obtain ⟨node, hnode, -, -, hlookup⟩ := rename_eq_ok h
  exact ⟨node, hnode, hlookup⟩

/-- A target that was looked for in vain is free when the rename has taken place: a file
is not put where only a directory can stand, nor a directory onto a file. -/
theorem free_of_rename {d d' : Disk} {src dst : Loc} {dirOnly : Bool}
    (h : rename src dst dirOnly d = (.ok (), d')) (hmissing : d.exists? dst dirOnly = false) :
    d.lookup dst = none := by
  obtain ⟨node, -, hfile, hdir, -⟩ := rename_eq_ok h
  unfold exists? at hmissing
  rcases hdst : d.lookup dst with _ | ⟨bytes | _⟩
  · rfl
  · rcases node with other | _
    · simp [hdst, hfile other rfl] at hmissing
    · exact absurd rfl (hdir bytes hdst)
  · simp [hdst] at hmissing

/-- A rename takes place or leaves every node where it is. -/
theorem rename_cases (src dst : Loc) (dirOnly : Bool) (d : Disk) :
    (∃ d', rename src dst dirOnly d = (.ok (), d')) ∨
      ∃ e d', rename src dst dirOnly d = (.err e, d') ∧ ∀ l, d'.lookup l = d.lookup l := by
  simp only [rename, Task.modify_bind_run]
  rcases attempt_cases ((d.touch src).touch dst) with hok | hfault
  · rw [Task.bind_of_ok hok]
    simp only [Task.get_bind_run, lookup_faults, lookup_touch]
    rcases d.lookup src with _ | ⟨bytes | _⟩
    · exact Or.inr ⟨_, _, rfl, fun _ => rfl⟩
    · rcases d.lookup dst with _ | ⟨bytes' | _⟩ <;> cases dirOnly
      · exact Or.inl ⟨_, rfl⟩
      · exact Or.inr ⟨_, _, rfl, fun _ => rfl⟩
      · exact Or.inl ⟨_, rfl⟩
      · exact Or.inr ⟨_, _, rfl, fun _ => rfl⟩
      · exact Or.inr ⟨_, _, rfl, fun _ => rfl⟩
      · exact Or.inr ⟨_, _, rfl, fun _ => rfl⟩
    · rcases d.lookup dst with _ | ⟨bytes' | _⟩
      · exact Or.inl ⟨_, rfl⟩
      · exact Or.inr ⟨_, _, rfl, fun _ => rfl⟩
      · exact Or.inl ⟨_, rfl⟩
  · rw [Task.bind_of_err hfault]
    exact Or.inr ⟨_, _, rfl, fun _ => rfl⟩

/-! ### Predicates the calls keep -/

/-- Calls at `loc` cannot break `I`: consuming a fault, touching, filling and
emptying the location all keep it. -/
structure StableAt (I : Disk → Prop) (loc : Loc) : Prop where
  fault : ∀ d, I d → I { d with faults := d.faults.tail }
  touch : ∀ d, I d → I (d.touch loc)
  set : ∀ d node, I d → I (d.set loc node)
  erase : ∀ d, I d → I (d.erase loc)

section Keeps
variable {I : Disk → Prop} {loc : Loc}

theorem keeps_nextFault (hfault : ∀ d, I d → I { d with faults := d.faults.tail }) :
    Task.Keeps I nextFault := hfault

theorem keeps_attempt (hfault : ∀ d, I d → I { d with faults := d.faults.tail }) :
    Task.Keeps I attempt := by
  refine Task.Keeps.bind (keeps_nextFault hfault) fun o => ?_
  cases o with
  | none => exact Task.Keeps.pure _
  | some n => exact Task.Keeps.fail _

theorem keeps_openCreate (h : StableAt I loc) (dirOnly : Bool) :
    Task.Keeps I (openCreate loc dirOnly) := by
  refine Task.Keeps.bind (Task.Keeps.modify h.touch) fun _ => ?_
  refine Task.Keeps.bind (keeps_attempt h.fault) fun _ => ?_
  refine Task.Keeps.bind Task.Keeps.get fun d => ?_
  split_ifs
  · exact Task.Keeps.fail _
  · split
    · exact Task.Keeps.fail _
    · exact Task.Keeps.pure _
    · exact Task.Keeps.modify fun d => h.set d _

theorem keeps_setLen (h : StableAt I loc) (n : ℕ) : Task.Keeps I (setLen loc n) := by
  refine Task.Keeps.bind (Task.Keeps.modify h.touch) fun _ => ?_
  refine Task.Keeps.bind (keeps_attempt h.fault) fun _ => ?_
  exact Task.Keeps.modify fun d => h.set d _

theorem keeps_openExisting (h : StableAt I loc) : Task.Keeps I (openExisting loc) := by
  refine Task.Keeps.bind (Task.Keeps.modify h.touch) fun _ => ?_
  refine Task.Keeps.bind (keeps_attempt h.fault) fun _ => ?_
  refine Task.Keeps.bind Task.Keeps.get fun d => ?_
  split
  · exact Task.Keeps.fail _
  · exact Task.Keeps.pure _
  · exact Task.Keeps.fail _

theorem keeps_writeAll (h : StableAt I loc) (offset : ℕ) (block : Bytes) :
    Task.Keeps I (writeAll loc offset block) := by
  refine Task.Keeps.bind (Task.Keeps.modify h.touch) fun _ => ?_
  refine Task.Keeps.bind (keeps_nextFault h.fault) fun o => ?_
  cases o with
  | none => exact Task.Keeps.modify fun d => h.set d _
  | some n =>
    exact Task.Keeps.bind (Task.Keeps.modify fun d => h.set d _) fun _ => Task.Keeps.fail _

theorem keeps_rename {dst : Loc} (h : StableAt I loc) (hdst : StableAt I dst) (dirOnly : Bool) :
    Task.Keeps I (rename loc dst dirOnly) := by
  refine Task.Keeps.bind (Task.Keeps.modify fun d hd => hdst.touch _ (h.touch d hd)) fun _ => ?_
  refine Task.Keeps.bind (keeps_attempt h.fault) fun _ => ?_
  refine Task.Keeps.bind Task.Keeps.get fun d => ?_
  have hmove : ∀ node, Task.Keeps I
      (Task.modify fun d => (d.erase loc).set dst node : Task Disk IoError Unit) :=
    fun node => Task.Keeps.modify fun d hd => hdst.set _ node (h.erase d hd)
  split
  · exact Task.Keeps.fail _
  · exact Task.Keeps.fail _
  · exact Task.Keeps.fail _
  · split_ifs
    · exact Task.Keeps.fail _
    · exact hmove _
  · exact hmove _

/-- Directories that exist already need no stability. -/
theorem keeps_createDirAll {locs : List Loc}
    (h : ∀ loc ∈ locs, StableAt I loc ∨ ∀ d, I d → d.lookup loc = some .dir) :
    Task.Keeps I (createDirAll locs) := by
  induction locs with
  | nil => exact Task.Keeps.pure _
  | cons loc locs ih =>
    have hrest := ih fun l hl => h l (List.mem_cons_of_mem _ hl)
    intro d hd
    simp only [createDirAll, Task.get_bind_run]
    rcases h loc (List.mem_cons_self ..) with hstable | hdir
    · cases d.lookup loc with
      | some node =>
        cases node with
        | dir => exact hrest d hd
        | file bytes => exact hd
      | none =>
        refine (Task.Keeps.bind (Task.Keeps.modify hstable.touch) fun _ => ?_) d hd
        refine Task.Keeps.bind (keeps_attempt hstable.fault) fun _ => ?_
        exact Task.Keeps.bind (Task.Keeps.modify fun d => hstable.set d _) fun _ => hrest
    · rw [hdir d hd]
      exact hrest d hd

/-- Directories are created in empty places only. -/
theorem keeps_createDirAll_lookup (locs : List Loc) (l : Loc) (node : Node) :
    Task.Keeps (fun d => d.lookup l = some node) (createDirAll locs) := by
  induction locs with
  | nil => exact Task.Keeps.pure _
  | cons loc locs ih =>
    intro d hd
    simp only [createDirAll, Task.get_bind_run]
    cases hloc : d.lookup loc with
    | some other =>
      cases other with
      | dir => exact ih d hd
      | file bytes => exact hd
    | none =>
      have hne : l ≠ loc := by
        rintro rfl
        simp [hloc] at hd
      have hset : Task.Keeps (fun d => d.lookup l = some node)
          (Task.modify (set loc .dir) : Task Disk IoError Unit) := fun d h => by
        simpa only [Task.modify_run, lookup_set, if_neg hne] using h
      have hcreate : Task.Keeps (fun d => d.lookup l = some node) (do
          Task.modify (touch loc)
          attempt
          Task.modify (set loc .dir)
          createDirAll locs) := by
        refine Task.Keeps.bind (Task.Keeps.modify fun _ h => h) fun _ => ?_
        exact Task.Keeps.bind (keeps_attempt fun _ h => h) fun _ => hset.bind fun _ => ih
      exact hcreate d hd

end Keeps

/-- Calls elsewhere leave a node where it is. -/
theorem stableAt_lookup {l loc : Loc} (h : l ≠ loc) (node : Node) :
    StableAt (fun d => d.lookup l = some node) loc where
  fault _ hd := hd
  touch _ hd := hd
  set d other hd := by rwa [lookup_set, if_neg h]
  erase d hd := by rwa [lookup_erase, if_neg h]

/-! ### No call panics -/

theorem noPanic_attempt : Task.NoPanic attempt :=
  Task.NoPanic.bind (fun _ _ => trivial) fun o => by cases o <;> exact fun _ _ => trivial

theorem noPanic_createDirAll (locs : List Loc) : Task.NoPanic (createDirAll locs) := by
  induction locs with
  | nil => exact fun _ _ => trivial
  | cons loc locs ih =>
    refine Task.NoPanic.bind (fun _ _ => trivial) fun d => ?_
    split
    · exact ih
    · exact fun _ _ => trivial
    · refine Task.NoPanic.bind (fun _ _ => trivial) fun _ => ?_
      refine Task.NoPanic.bind noPanic_attempt fun _ => ?_
      exact Task.NoPanic.bind (fun _ _ => trivial) fun _ => ih

theorem noPanic_openCreate (loc : Loc) (dirOnly : Bool) :
    Task.NoPanic (openCreate loc dirOnly) := by
  refine Task.NoPanic.bind (fun _ _ => trivial) fun _ => ?_
  refine Task.NoPanic.bind noPanic_attempt fun _ => ?_
  refine Task.NoPanic.bind (fun _ _ => trivial) fun d => ?_
  split_ifs
  · exact fun _ _ => trivial
  · split <;> exact fun _ _ => trivial

theorem noPanic_setLen (loc : Loc) (n : ℕ) : Task.NoPanic (setLen loc n) :=
  Task.NoPanic.bind (fun _ _ => trivial) fun _ =>
    Task.NoPanic.bind noPanic_attempt fun _ _ _ => trivial

theorem noPanic_openExisting (loc : Loc) : Task.NoPanic (openExisting loc) := by
  refine Task.NoPanic.bind (fun _ _ => trivial) fun _ => ?_
  refine Task.NoPanic.bind noPanic_attempt fun _ => ?_
  refine Task.NoPanic.bind (fun _ _ => trivial) fun d => ?_
  split <;> exact fun _ _ => trivial

theorem noPanic_writeAll (loc : Loc) (offset : ℕ) (block : Bytes) :
    Task.NoPanic (writeAll loc offset block) := by
  refine Task.NoPanic.bind (fun _ _ => trivial) fun _ => ?_
  refine Task.NoPanic.bind (fun _ _ => trivial) fun o => ?_
  cases o <;> exact fun _ _ => trivial

theorem noPanic_rename (src dst : Loc) (dirOnly : Bool) :
    Task.NoPanic (rename src dst dirOnly) := by
  refine Task.NoPanic.bind (fun _ _ => trivial) fun _ => ?_
  refine Task.NoPanic.bind noPanic_attempt fun _ => ?_
  refine Task.NoPanic.bind (fun _ _ => trivial) fun d => ?_
  split
  · exact fun _ _ => trivial
  · exact fun _ _ => trivial
  · exact fun _ _ => trivial
  · split_ifs <;> exact fun _ _ => trivial
  · exact fun _ _ => trivial

/-- The next two calls are not made to fail. -/
def WriteSpared (faults : List (Option ℕ)) : Prop :=
  faults.head?.join = none ∧ faults.tail.head?.join = none

instance (faults : List (Option ℕ)) : Decidable (WriteSpared faults) :=
  inferInstanceAs (Decidable (_ ∧ _))

/-- No call of the coming ones is made to fail. -/
def Calm (d : Disk) : Prop := d.faults = []

theorem stableAt_calm (loc : Loc) : StableAt Calm loc where
  fault d hd := by simp_all [Calm]
  touch _ hd := hd
  set _ _ hd := hd
  erase _ hd := hd

end Disk
end JustDrop
