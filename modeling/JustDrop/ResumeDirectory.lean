import JustDrop.CrashSafety
import JustDrop.Hex
import JustDrop.Runs
import JustDrop.SavedState

/-!
# The directory of resume states

What the resume manager is for: it keeps what is left of every interrupted transfer until
the transfer is complete. Whatever the saves, removals and crashes were, loading and
listing find what a shelf with one place for each transfer would hold, and the receiver
finds what it takes for its store.
-/
namespace JustDrop

/-! ### Names of the files -/

theorem extensionOf_append {stem ext : Name} (hstem : stem ≠ []) (hext : '.' ∉ ext) :
    extensionOf (stem ++ '.' :: ext) = some ext := by
  have hall : ∀ c ∈ ext.reverse, decide (c ≠ '.') = true := by
    intro c hc
    rw [decide_eq_true_eq]
    rintro rfl
    exact hext (List.mem_reverse.mp hc)
  have hreverse : (stem ++ '.' :: ext).reverse = ext.reverse ++ '.' :: stem.reverse := by simp
  have hsplit : splitLastDot (stem ++ '.' :: ext) = some (stem, ext) := by
    unfold splitLastDot
    rw [hreverse, List.dropWhile_append_of_pos hall, List.takeWhile_append_of_pos hall]
    simp
  simp [extensionOf, hsplit, hstem]

theorem hexEncode_ne_dash (bytes : Bytes) : '-' ∉ hexEncode bytes := by
  have hdigits : ∀ b : Fin 256, (Peer.hex 2 b.val).all (· ≠ '-') = true := by decide +kernel
  intro h
  obtain ⟨b, -, hdash⟩ := List.mem_flatMap.mp h
  have hall := List.all_eq_true.mp (hdigits ⟨b.toNat, b.toNat_lt⟩) '-' hdash
  simp at hall

/-- Without its hyphens the text of an identifier is its digits. -/
theorem filter_uuidText (id : TransferId) :
    (uuidText id).filter (· ≠ '-') = hexEncode id.toList := by
  have hdigits : ∀ c ∈ hexEncode id.toList, decide (c ≠ '-') = true := by
    intro c hc
    rw [decide_eq_true_eq]
    rintro rfl
    exact hexEncode_ne_dash _ hc
  have hkeep : ∀ part : Text, part ⊆ hexEncode id.toList → part.filter (· ≠ '-') = part :=
    fun part hpart => List.filter_eq_self.mpr fun c hc => hdigits c (hpart hc)
  have huuid : uuidText id = (hexEncode id.toList).take 8 ++
      '-' :: ((hexEncode id.toList).drop 8).take 4 ++
      '-' :: ((hexEncode id.toList).drop 12).take 4 ++
      '-' :: ((hexEncode id.toList).drop 16).take 4 ++
      '-' :: (hexEncode id.toList).drop 20 := rfl
  rw [huuid]
  generalize hexEncode id.toList = digits at hkeep ⊢
  have hdash : decide ('-' ≠ '-') = false := by decide
  simp only [List.filter_append, List.filter_cons, hdash, Bool.false_eq_true, if_false]
  rw [hkeep _ (List.take_subset _ _), hkeep _ (List.drop_subset _ _),
    hkeep _ (List.Subset.trans (List.take_subset _ _) (List.drop_subset _ _)),
    hkeep _ (List.Subset.trans (List.take_subset _ _) (List.drop_subset _ _)),
    hkeep _ (List.Subset.trans (List.take_subset _ _) (List.drop_subset _ _))]
  have hcut : ∀ n, (digits.drop n).take 4 ++ digits.drop (n + 4) = digits.drop n := by
    intro n
    rw [← List.drop_drop]
    exact List.take_append_drop 4 _
  rw [List.append_assoc, hcut 16, List.append_assoc, hcut 12, List.append_assoc, hcut 8,
    List.take_append_drop]

theorem uuidText_injective : Function.Injective uuidText := by
  intro id other h
  have hdigits : hexEncode id.toList = hexEncode other.toList := by
    rw [← filter_uuidText, h, filter_uuidText]
  exact Vector.toList_inj.mp (hexEncode_injective hdigits)

namespace ResumeManager
variable {manager : ResumeManager}

theorem statePath_injective : Function.Injective manager.statePath := by
  intro id other h
  simp only [statePath, Path.child, Path.mk.injEq, List.append_cancel_left_eq,
    List.cons.injEq, Component.normal.injEq, and_true, true_and] at h
  exact uuidText_injective (List.append_cancel_right h)

/-- Every state has a file that is taken for one. -/
theorem extension_statePath (transferId : TransferId) :
    (manager.statePath transferId).extension = some "json".toList := by
  have hname : (manager.statePath transferId).fileName =
      some (uuidText transferId ++ '.' :: "json".toList) := by
    simp [statePath, Path.child, Path.fileName]
  rw [Path.extension, hname, Option.bind_some]
  refine extensionOf_append ?_ (by decide)
  intro hempty
  have hlength := congrArg List.length hempty
  simp [uuidText] at hlength

end ResumeManager

/-! ### Calls of the manager -/

def Files.delete {π : Type*} [DecidableEq π] (path : π) (files : Files π) : Files π :=
  Function.update files path none

/-- A save, and where its write stopped if it did; a removal, and what fails of it. -/
inductive ResumeCall where
  | save (saved : DatedResumeState) (stop : Option CrashPoint)
  | remove (transferId : TransferId) (hidden : Bool) (fault : Option IoError)

namespace ResumeManager
variable (json : TextFormat DatedResumeState) (manager : ResumeManager)

/-- A file that cannot be looked for counts as missing. -/
def remove (transferId : TransferId) (hidden : Bool) (fault : Option IoError)
    (files : Files Path) : Except StorageError Unit × Files Path :=
  if hidden = false ∧ (files (manager.statePath transferId)).isSome then
    match fault with
    | some source => (.error (.io (manager.statePath transferId) source), files)
    | none => (.ok (), files.delete (manager.statePath transferId))
  else (.ok (), files)

/-- The names that are read from a directory before an error ends the reading. -/
def yielded : List (Except IoError Name) → List Name
  | .ok name :: results => name :: yielded results
  | _ => []

/-- The state in a file. Files that cannot be read or parsed are skipped. -/
def pendingAt (files : Files Path) (path : Path) : Option DatedResumeState :=
  if path.extension = some "json".toList then
    (files path).bind fun bytes => (json.read bytes).toOption
  else none

def listPending (directory : Except IoError (List (Except IoError Name))) (files : Files Path) :
    Except StorageError (List DatedResumeState) :=
  match directory with
  | .error source => .error (.io manager.stateDir source)
  | .ok results => .ok ((yielded results).filterMap fun name =>
      pendingAt json files (manager.stateDir.child name))

/-- What a receiver takes from the file: an error counts as no state. -/
def foundStates (files : Files Path) : ResumeStore := fun transferId =>
  (manager.load json transferId files).toOption.join.map (·.state)

/-- The files after a call. -/
def call (files : Files Path) : ResumeCall → Files Path
  | .save saved none => manager.save json saved files
  | .save saved (some point) => manager.saveCrash json saved point files
  | .remove transferId hidden fault => (manager.remove transferId hidden fault files).2

def Step (files : Files Path) (call : ResumeCall) (files' : Files Path) : Prop :=
  files' = manager.call json files call

end ResumeManager

/-! ### The shelf -/

/-- What is kept for a transfer: a state, or the beginning of one. -/
inductive Kept where
  | torn
  | state (saved : DatedResumeState)

abbrev Shelf := TransferId → Option Kept

section Shelf
variable (json : TextFormat DatedResumeState)

/-- What a save leaves; nothing if its write has not begun. -/
def keptBy (saved : DatedResumeState) : Option CrashPoint → Option Kept
  | none => some (.state saved)
  | some .before => none
  | some (.written count) =>
    some (if (json.content saved).length ≤ count then .state saved else .torn)

namespace Shelf

def empty : Shelf := fun _ => none

def apply (shelf : Shelf) : ResumeCall → Shelf
  | .save saved stop =>
    match keptBy json saved stop with
    | none => shelf
    | some kept => Function.update shelf saved.state.transferId (some kept)
  | .remove transferId hidden fault =>
    if hidden = false ∧ fault = none then Function.update shelf transferId none else shelf

/-- The states without the torn ones. -/
def store (shelf : Shelf) : ResumeStore := fun transferId =>
  match shelf transferId with
  | some (.state saved) => some saved.state
  | _ => none

end Shelf

/-- The effect of a call on the store of a receiver. A torn state is a lost one. -/
def ResumeCall.onStore (store : ResumeStore) : ResumeCall → ResumeStore
  | .save saved stop =>
    match keptBy json saved stop with
    | none => store
    | some (.state _) => store.save saved.state
    | some .torn => store.remove saved.state.transferId
  | .remove transferId hidden fault =>
    if hidden = false ∧ fault = none then store.remove transferId else store

variable {json}

theorem eq_of_keptBy {saved saved' : DatedResumeState} {stop : Option CrashPoint}
    (h : keptBy json saved stop = some (.state saved')) : saved' = saved := by
  cases stop with
  | none => simpa [keptBy, eq_comm] using h
  | some point =>
    cases point with
    | before => simp [keptBy] at h
    | written count =>
      simp only [keptBy, Option.some.injEq] at h
      split_ifs at h
      simpa [eq_comm] using h

theorem Shelf.store_update (shelf : Shelf) (transferId : TransferId) (kept : Option Kept) :
    Shelf.store (Function.update shelf transferId kept) =
      Function.update shelf.store transferId (match kept with
        | some (.state saved) => some saved.state
        | _ => none) := by
  funext other
  by_cases hother : other = transferId
  · rw [hother, Function.update_self, Shelf.store, Function.update_self]
  · rw [Function.update_of_ne hother, Shelf.store, Shelf.store, Function.update_of_ne hother]

/-- A call has the same effect on the shelf and on the store. -/
theorem Shelf.store_apply (shelf : Shelf) (call : ResumeCall) :
    (shelf.apply json call).store = call.onStore json shelf.store := by
  cases call with
  | save saved stop =>
    simp only [Shelf.apply, ResumeCall.onStore]
    cases hkept : keptBy json saved stop with
    | none => rfl
    | some kept =>
      cases kept with
      | torn => exact Shelf.store_update _ _ _
      | state saved' =>
        obtain rfl := eq_of_keptBy hkept
        exact Shelf.store_update _ _ _
  | remove transferId hidden fault =>
    simp only [Shelf.apply, ResumeCall.onStore]
    split_ifs
    · exact Shelf.store_update _ _ _
    · rfl

end Shelf

/-! ### The directory holds a shelf -/

def keptIn (json : TextFormat DatedResumeState) (bytes : Bytes) : Kept :=
  match json.read bytes with
  | .ok saved => .state saved
  | .error _ => .torn

namespace ResumeManager
variable {json : TextFormat DatedResumeState} {manager : ResumeManager} {files files' : Files Path}

/-- What the files of the manager hold. -/
def shelf (json : TextFormat DatedResumeState) (manager : ResumeManager) (files : Files Path) :
    Shelf := fun transferId => (files (manager.statePath transferId)).map (keptIn json)

/-- All files in the directory are those of transfers, and the states in them are theirs. -/
structure Tidy (json : TextFormat DatedResumeState) (manager : ResumeManager)
    (files : Files Path) : Prop where
  named : ∀ name, files (manager.stateDir.child name) ≠ none →
    ∃ transferId, manager.stateDir.child name = manager.statePath transferId
  own : ∀ transferId saved, manager.shelf json files transferId = some (.state saved) →
    saved.state.transferId = transferId

theorem shelf_update (files : Files Path) (transferId : TransferId) (content : Option Bytes) :
    manager.shelf json (Function.update files (manager.statePath transferId) content) =
      Function.update (manager.shelf json files) transferId (content.map (keptIn json)) := by
  funext other
  by_cases hother : other = transferId
  · rw [hother, shelf, Function.update_self, Function.update_self]
  · have hpath : manager.statePath other ≠ manager.statePath transferId :=
      fun h => hother (statePath_injective h)
    rw [shelf, Function.update_of_ne hpath, Function.update_of_ne hother, shelf]

theorem Tidy.update (h : manager.Tidy json files) {transferId : TransferId}
    {content : Option Bytes}
    (hown : ∀ saved, content.map (keptIn json) = some (.state saved) →
      saved.state.transferId = transferId) :
    manager.Tidy json (Function.update files (manager.statePath transferId) content) := by
  constructor
  · intro name hname
    by_cases hpath : manager.stateDir.child name = manager.statePath transferId
    · exact ⟨transferId, hpath⟩
    · rw [Function.update_of_ne hpath] at hname
      exact h.named name hname
  · intro other saved hkept
    rw [shelf_update] at hkept
    by_cases hother : other = transferId
    · rw [hother, Function.update_self] at hkept
      rw [hother, hown saved hkept]
    · rw [Function.update_of_ne hother] at hkept
      exact h.own other saved hkept

/-- The first bytes of a state hold it if they are all of it. -/
theorem keptIn_take (saved : DatedResumeState) (count : ℕ) :
    keptIn json ((json.content saved).take count) =
      if (json.content saved).length ≤ count then .state saved else .torn := by
  unfold keptIn
  split_ifs with hle
  · rw [List.take_of_length_le hle, json.read_content]
  · cases hread : json.read ((json.content saved).take count) with
    | error failure => rfl
    | ok other => exact absurd ((json.read_take_iff saved count).mp ⟨other, hread⟩) hle

theorem keptIn_content (saved : DatedResumeState) :
    keptIn json (json.content saved) = .state saved := by
  rw [keptIn, json.read_content]

variable (manager) in
/-- A save writes what it leaves, if its write begins. -/
theorem call_save (files : Files Path) (saved : DatedResumeState) (stop : Option CrashPoint) :
    (keptBy json saved stop = none ∧ manager.call json files (.save saved stop) = files) ∨
      ∃ bytes, keptBy json saved stop = some (keptIn json bytes) ∧
        manager.call json files (.save saved stop) =
          files.write (manager.statePath saved.state.transferId) bytes := by
  cases stop with
  | none => exact Or.inr ⟨json.content saved, by rw [keptIn_content]; rfl, rfl⟩
  | some point =>
    cases point with
    | before => exact Or.inl ⟨rfl, rfl⟩
    | written count =>
      exact Or.inr ⟨(json.content saved).take count, by rw [keptIn_take]; rfl, rfl⟩

/-- A call keeps the directory tidy and applies itself to the shelf. -/
theorem Step.spec {call : ResumeCall} (htidy : manager.Tidy json files)
    (hstep : manager.Step json files call files') :
    manager.Tidy json files' ∧
      manager.shelf json files' = (manager.shelf json files).apply json call := by
  obtain rfl : files' = manager.call json files call := hstep
  cases call with
  | save saved stop =>
    rcases call_save manager files saved stop with
      ⟨hkept, hsame⟩ | ⟨bytes, hkept, hwrite⟩
    · rw [hsame, Shelf.apply, hkept]
      exact ⟨htidy, rfl⟩
    · rw [hwrite, Shelf.apply, hkept]
      refine ⟨htidy.update ?_, shelf_update _ _ _⟩
      intro saved' hsaved
      rw [Option.map_some, ← hkept] at hsaved
      rw [eq_of_keptBy hsaved]
  | remove transferId hidden fault =>
    simp only [call, remove, Shelf.apply]
    by_cases hremoves : hidden = false ∧ fault = none
    · obtain ⟨rfl, rfl⟩ := hremoves
      simp only [true_and, and_self, if_true]
      split_ifs with hfile
      · exact ⟨htidy.update fun saved h => by simp at h, shelf_update _ _ _⟩
      · -- There was no file, and the place on the shelf was empty.
        refine ⟨htidy, (Function.update_eq_self_iff.mpr ?_).symm⟩
        simp only [shelf, Option.not_isSome_iff_eq_none.mp hfile, Option.map_none]
    · rw [if_neg hremoves]
      split_ifs with hfile
      · cases fault with
        | none => exact absurd ⟨hfile.1, rfl⟩ hremoves
        | some source => exact ⟨htidy, rfl⟩
      · exact ⟨htidy, rfl⟩

/-! ### Answers from a shelf -/

/-- What reading the directory yields are names of files in it, none of them twice. -/
structure Reads (manager : ResumeManager) (files : Files Path)
    (results : List (Except IoError Name)) : Prop where
  nodup : (yielded results).Nodup
  exist : ∀ name ∈ yielded results, files (manager.stateDir.child name) ≠ none

/-- Loading and listing answer from a shelf. A listing whose reading broke off misses states
but has no others. -/
structure Answers (json : TextFormat DatedResumeState) (manager : ResumeManager)
    (files : Files Path) (shelf : Shelf) : Prop where
  missing : ∀ transferId, shelf transferId = none → manager.load json transferId files = .ok none
  found : ∀ transferId saved, shelf transferId = some (.state saved) →
    manager.load json transferId files = .ok (some saved)
  torn : ∀ transferId, shelf transferId = some .torn →
    ∃ e, manager.load json transferId files = .error e
  listed : ∀ results, manager.Reads files results →
    ∃ states, manager.listPending json (.ok results) files = .ok states ∧ states.Nodup ∧
      (∀ saved ∈ states, shelf saved.state.transferId = some (.state saved)) ∧
      ((∀ name, files (manager.stateDir.child name) ≠ none → name ∈ yielded results) →
        ∀ transferId saved, shelf transferId = some (.state saved) → saved ∈ states)

variable (json manager) in
theorem load_eq (transferId : TransferId) (files : Files Path) :
    (∀ saved, manager.shelf json files transferId = some (.state saved) →
      manager.load json transferId files = .ok (some saved)) ∧
    (manager.shelf json files transferId = some .torn →
      ∃ e, manager.load json transferId files = .error e) ∧
    (manager.shelf json files transferId = none →
      manager.load json transferId files = .ok none) := by
  unfold shelf load
  cases files (manager.statePath transferId) with
  | none => simp
  | some bytes =>
    cases hread : json.read bytes with
    | error failure => cases failure <;> simp [keptIn, hread]
    | ok saved => simp [keptIn, hread]

/-- A file with a state in it is on the shelf at the place of the state. -/
theorem Tidy.shelf_of_pendingAt (h : manager.Tidy json files) {name : Name}
    {saved : DatedResumeState}
    (hpending : pendingAt json files (manager.stateDir.child name) = some saved) :
    manager.stateDir.child name = manager.statePath saved.state.transferId ∧
      manager.shelf json files saved.state.transferId = some (.state saved) := by
  unfold pendingAt at hpending
  split_ifs at hpending
  obtain ⟨bytes, hfile, hread⟩ := Option.bind_eq_some_iff.mp hpending
  obtain ⟨transferId, hpath⟩ := h.named name (by rw [hfile]; exact Option.some_ne_none _)
  have hread : json.read bytes = .ok saved := by
    cases hresult : json.read bytes with
    | error failure => simp [hresult, Except.toOption] at hread
    | ok other => simpa [hresult, Except.toOption] using hread
  have hkept : manager.shelf json files transferId = some (.state saved) := by
    rw [shelf, ← hpath, hfile, Option.map_some, keptIn, hread]
  obtain rfl := h.own transferId saved hkept
  exact ⟨hpath, hkept⟩

theorem pendingAt_of_shelf {transferId : TransferId} {saved : DatedResumeState}
    (h : manager.shelf json files transferId = some (.state saved)) :
    pendingAt json files (manager.statePath transferId) = some saved := by
  obtain ⟨bytes, hfile, hkept⟩ := Option.map_eq_some_iff.mp h
  rw [pendingAt, if_pos (extension_statePath transferId), hfile, Option.bind_some]
  unfold keptIn at hkept
  split at hkept
  · rename_i other hread
    rw [hread]
    simpa [Except.toOption] using hkept
  · exact absurd hkept (by simp)

theorem Tidy.answers (h : manager.Tidy json files) :
    manager.Answers json files (manager.shelf json files) where
  missing transferId := (load_eq json manager transferId files).2.2
  found transferId := (load_eq json manager transferId files).1
  torn transferId := (load_eq json manager transferId files).2.1
  listed results hreads := by
    refine ⟨_, rfl, ?_, ?_, ?_⟩
    · refine List.Nodup.filterMap ?_ hreads.nodup
      intro name name' saved hname hname'
      have hpath := (h.shelf_of_pendingAt (Option.mem_def.mp hname)).1
      rw [← (h.shelf_of_pendingAt (Option.mem_def.mp hname')).1] at hpath
      simpa [Path.child] using hpath
    · intro saved hsaved
      obtain ⟨name, -, hpending⟩ := List.mem_filterMap.mp hsaved
      exact (h.shelf_of_pendingAt hpending).2
    · intro hall transferId saved hkept
      obtain ⟨bytes, hfile, -⟩ := Option.map_eq_some_iff.mp hkept
      have hname := hall (uuidText transferId ++ ".json".toList) (by
        rw [← statePath, hfile]
        exact Option.some_ne_none _)
      exact List.mem_filterMap.mpr ⟨_, hname, pendingAt_of_shelf hkept⟩

theorem foundStates_eq (files : Files Path) :
    manager.foundStates json files = (manager.shelf json files).store := by
  funext transferId
  obtain ⟨hstate, htorn, hnone⟩ := load_eq json manager transferId files
  unfold foundStates Shelf.store
  cases hkept : manager.shelf json files transferId with
  | none => simp [hnone hkept, Except.toOption]
  | some kept =>
    cases kept with
    | torn =>
      obtain ⟨e, he⟩ := htorn hkept
      simp [he, Except.toOption]
    | state saved => simp [hstate saved hkept, Except.toOption]

/-! ### Runs -/

variable (json) in
theorem tidy_of_empty (hempty : ∀ name, files (manager.stateDir.child name) = none) :
    manager.Tidy json files ∧ manager.shelf json files = Shelf.empty := by
  have hshelf : manager.shelf json files = Shelf.empty := by
    funext transferId
    rw [shelf, statePath, hempty]
    rfl
  refine ⟨⟨fun name h => absurd (hempty name) h, fun transferId saved h => ?_⟩, hshelf⟩
  rw [hshelf] at h
  simp [Shelf.empty] at h

theorem tidy_of_run {taken : List (Files Path × ResumeCall)}
    (hempty : ∀ name, files (manager.stateDir.child name) = none)
    (run : Run (manager.Step json) files taken files') :
    manager.Tidy json files' ∧ manager.shelf json files' =
      (taken.map Prod.snd).foldl (Shelf.apply json) Shelf.empty := by
  obtain ⟨htidy, hshelf⟩ := tidy_of_empty json hempty
  rw [← hshelf]
  exact run.replays (manager.shelf json) (Shelf.apply json) htidy fun _ _ _ h hstep => hstep.spec h

/-- A state is saved. The save of the next one stops in the middle and is made again. -/
def savedTwice : List ResumeCall :=
  [.save anOldState none, .save aState (some (.written 5)), .save aState none]

theorem run_savedTwice :
    Run (Step aJson ⟨aDir⟩) (fun _ => none)
      [(fun _ => none, .save anOldState none),
        (aStored, .save aState (some (.written 5))),
        (call aJson ⟨aDir⟩ aStored (.save aState (some (.written 5))), .save aState none)]
      (savedTwice.foldl (call aJson ⟨aDir⟩) fun _ => none) :=
  .snoc (.snoc (.snoc .refl rfl) rfl) rfl

/-- After any saves, crashes of saves and removals, loading and listing answer from the shelf
of these calls. -/
theorem answers_of_calls {taken : List (Files Path × ResumeCall)}
    (hempty : ∀ name, files (manager.stateDir.child name) = none)
    (run : Run (manager.Step json) files taken files') :
    manager.Answers json files' ((taken.map Prod.snd).foldl (Shelf.apply json) Shelf.empty) := by
  obtain ⟨htidy, hshelf⟩ := tidy_of_run hempty run
  rw [← hshelf]
  exact htidy.answers

theorem answers_of_calls_savedTwice :
    Answers aJson ⟨aDir⟩ (savedTwice.foldl (call aJson ⟨aDir⟩) fun _ => none)
      (savedTwice.foldl (Shelf.apply aJson) Shelf.empty) := by
  have h := answers_of_calls (fun _ => rfl) run_savedTwice
  exact h

/-- What a receiver finds is the store of the calls that were made. -/
theorem foundStates_of_calls {taken : List (Files Path × ResumeCall)}
    (hempty : ∀ name, files (manager.stateDir.child name) = none)
    (run : Run (manager.Step json) files taken files') :
    manager.foundStates json files' =
      (taken.map Prod.snd).foldl (ResumeCall.onStore json) fun _ => none := by
  obtain ⟨-, hshelf⟩ := tidy_of_run hempty run
  rw [foundStates_eq, hshelf]
  exact (List.foldl_hom Shelf.store (fun shelf call => (Shelf.store_apply shelf call).symm)).symm

theorem foundStates_of_calls_savedTwice :
    foundStates aJson ⟨aDir⟩ (savedTwice.foldl (call aJson ⟨aDir⟩) fun _ => none) =
      savedTwice.foldl (ResumeCall.onStore aJson) fun _ => none := by
  have h := foundStates_of_calls (fun _ => rfl) run_savedTwice
  exact h

end ResumeManager
end JustDrop
