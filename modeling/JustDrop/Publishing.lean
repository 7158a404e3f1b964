import JustDrop.WriterPool

/-!
# Publishing one system call at a time

Finalizing a file probes one name after the other and then renames. Between a probe
that finds a name free and the rename onto it, other tasks take their own steps, and
a rename replaces whatever has come to the name meanwhile.
-/
namespace JustDrop

/-! ### The names that are tried -/

/-- The `n`-th name that is probed for a destination. -/
def candidate (path : Path) (n : ℕ) : Path :=
  if n = 0 then path
  else (path.parent.getD (Path.ofString ".")).child
    (numberedName (path.fileStem.getD "file".toList) (path.extension.getD []) n)

/-- The name made with an identifier when all others are taken. -/
def fallback (path : Path) (uuid : Name) : Path :=
  (path.parent.getD (Path.ofString ".")).child
    (joinExtension (path.fileStem.getD "file".toList ++ '_' :: uuid) (path.extension.getD []))

/-- On a disk that nobody else changes, the first free name is taken. -/
theorem uniquePath_eq_candidate (host : Host) (d : Disk) (path : Path) :
    uniquePath host d path =
      match (List.range 1000).find? fun n => !host.tryExists d (candidate path n) with
      | some n => candidate path n
      | none => fallback path (host.newV4 d) := by
  have hrange : List.range 1000 = 0 :: List.range' 1 999 := by decide +kernel
  have hzero : candidate path 0 = path := if_pos rfl
  have hcongr : (List.range' 1 999).find? (fun n => !host.tryExists d (candidate path n)) =
      (List.range' 1 999).find? fun i => !host.tryExists d
        ((path.parent.getD (Path.ofString ".")).child
          (numberedName (path.fileStem.getD "file".toList) (path.extension.getD []) i)) := by
    refine List.find?_congr fun i hi => ?_
    have hpos : i ≠ 0 := by
      have := (List.mem_range'_1.mp hi).1
      omega
    rw [candidate, if_neg hpos]
  rw [hrange, List.find?_cons, hzero, uniquePath]
  by_cases hexists : host.tryExists d path = true
  · rw [if_pos hexists, hexists]
    simp only [Bool.not_true, hcongr]
    cases hfind : (List.range' 1 999).find? fun i => !host.tryExists d
        ((path.parent.getD (Path.ofString ".")).child
          (numberedName (path.fileStem.getD "file".toList) (path.extension.getD []) i)) with
    | none => rfl
    | some i =>
      have hpos : i ≠ 0 := by
        have := (List.mem_range'_1.mp (List.mem_of_find?_eq_some hfind)).1
        omega
      exact (if_neg hpos).symm
  · rw [if_neg hexists]
    simp [hexists, hzero]

/-! ### Steps of many tasks -/

/-- How far a call of `finalize` has come. -/
inductive Phase where
  | probing (n : ℕ)
  | naming
  | chosen (dest : Path)
  | done
  | failed
  deriving DecidableEq

structure Finalizing where
  writer : ChunkWriter
  phase : Phase
  deriving DecidableEq

structure Publishing (κ : Type) where
  disk : Disk
  tasks : κ → Option Finalizing
  published : List (Loc × Node)

/-- The next system call of a task; identifiers and faults are the environment's choice. -/
inductive PublishCall (κ : Type) where
  | probe (k : κ)
  | name (k : κ) (uuid : Name)
  | rename (k : κ) (faults : List (Option ℕ))

namespace Publishing
variable {κ : Type} {host : Host} {s s' : Publishing κ}

/-- All calls are about to probe their own destination. -/
def start (disk : Disk) (writers : κ → Option ChunkWriter) : Publishing κ :=
  { disk, tasks := fun k => (writers k).map fun writer => { writer, phase := .probing 0 },
    published := [] }

/-- What a probe of the `n`-th name leads to. -/
def probed (host : Host) (disk : Disk) (path : Path) (n : ℕ) : Phase :=
  if host.tryExists disk (candidate path n) then
    if n < 999 then .probing (n + 1) else .naming
  else .chosen (candidate path n)

/-- A new identifier occurs in no name on the disk or about to be given. -/
def FreshId (host : Host) (s : Publishing κ) (uuid : Name) : Prop :=
  ∀ loc name, uuid <:+: name → s.disk.lookup (loc ++ [name]) = none ∧
    ∀ k task dest, s.tasks k = some task → task.phase = .chosen dest →
      host.locate dest ≠ loc ++ [name]

section Step
variable [DecidableEq κ]

def setPhase (s : Publishing κ) (k : κ) (task : Finalizing) (phase : Phase) : Publishing κ :=
  { s with tasks := Function.update s.tasks k (some { task with phase }) }

theorem setPhase_cases {k j : κ} {task other : Finalizing} {phase : Phase}
    (h : Function.update s.tasks k (some { task with phase }) j = some other) :
    j = k ∧ other = { task with phase } ∨ j ≠ k ∧ s.tasks j = some other := by
  rw [Function.update_apply] at h
  split_ifs at h with hjk
  · exact Or.inl ⟨hjk, (Option.some.inj h).symm⟩
  · exact Or.inr ⟨hjk, h⟩

/-- Rename, and note what was published where. -/
def renamed (host : Host) (s : Publishing κ) (k : κ) (task : Finalizing) (dest : Path)
    (faults : List (Option ℕ)) : Publishing κ :=
  let temp := host.locate task.writer.tempPath
  match Disk.rename temp (host.locate dest) dest.dirOnly { s.disk with faults } with
  | (.ok (), disk) => { s.setPhase k task .done with
      disk
      published := s.published ++ [(host.locate dest, (s.disk.lookup temp).getD .dir)] }
  | (_, disk) => { s.setPhase k task .failed with disk }

inductive Step (host : Host) (s : Publishing κ) : PublishCall κ → Publishing κ → Prop
  | probe (k task n) (hk : s.tasks k = some task) (hphase : task.phase = .probing n) :
      Step host s (.probe k)
        (s.setPhase k task (probed host s.disk task.writer.destPath n))
  | name (k task uuid) (hk : s.tasks k = some task) (hphase : task.phase = .naming)
      (hfresh : FreshId host s uuid) :
      Step host s (.name k uuid) (s.setPhase k task (.chosen (fallback task.writer.destPath uuid)))
  | rename (k task dest faults) (hk : s.tasks k = some task) (hphase : task.phase = .chosen dest) :
      Step host s (.rename k faults) (s.renamed host k task dest faults)

end Step

/-- A probe that finds its name free does so while no other task has settled on it. -/
def Uncontested (host : Host) (s : Publishing κ) : PublishCall κ → Prop
  | .probe k => ∀ task n, s.tasks k = some task → task.phase = .probing n →
    host.tryExists s.disk (candidate task.writer.destPath n) = false →
    ∀ j other dest, j ≠ k → s.tasks j = some other → other.phase = .chosen dest →
      host.locate dest ≠ host.locate (candidate task.writer.destPath n)
  | _ => True

/-- What lay on the disk before is there unchanged, apart from the temporary files that
have been renamed, and so is what was published, each file at a place of its own that
was free or a temporary file's. -/
structure Preserves (host : Host) (before : Disk) (writers : κ → Option ChunkWriter)
    (s : Publishing κ) : Prop where
  kept : ∀ l node, before.lookup l = some node →
    (∀ k writer, writers k = some writer → host.locate writer.tempPath ≠ l) →
    s.disk.lookup l = some node
  pending : ∀ k task, s.tasks k = some task → task.phase ≠ .done →
    s.disk.lookup (host.locate task.writer.tempPath) =
      before.lookup (host.locate task.writer.tempPath)
  published : ∀ p ∈ s.published, s.disk.lookup p.1 = some p.2
  distinct : (s.published.map Prod.fst).Nodup
  added : ∀ p ∈ s.published, before.lookup p.1 = none ∨
    ∃ k writer, writers k = some writer ∧ host.locate writer.tempPath = p.1

/-- What a rename that replaces nothing rests on. -/
structure Inv (host : Host) (before : Disk) (writers : κ → Option ChunkWriter)
    (s : Publishing κ) : Prop extends Preserves host before writers s where
  writer : ∀ k task, s.tasks k = some task → writers k = some task.writer
  temp : ∀ k task, s.tasks k = some task →
    ∃ node, before.lookup (host.locate task.writer.tempPath) = some node
  notTemp : ∀ p ∈ s.published, ∀ k task, s.tasks k = some task → task.phase ≠ .done →
    p.1 ≠ host.locate task.writer.tempPath
  free : ∀ k task dest, s.tasks k = some task → task.phase = .chosen dest →
    host.tryExists s.disk dest = false
  apart : ∀ j k task other dest dest', j ≠ k → s.tasks j = some task → s.tasks k = some other →
    task.phase = .chosen dest → other.phase = .chosen dest' →
    host.locate dest ≠ host.locate dest'

section Inv
variable {before : Disk} {writers : κ → Option ChunkWriter}

theorem inv_start (hexist : ∀ k writer, writers k = some writer →
      ∃ node, before.lookup (host.locate writer.tempPath) = some node) :
    Inv host before writers (start before writers) := by
  have htask : ∀ k task, (start before writers).tasks k = some task →
      writers k = some task.writer ∧ task.phase = .probing 0 := by
    intro k task hk
    obtain ⟨writer, hwriter, rfl⟩ := Option.map_eq_some_iff.mp hk
    exact ⟨hwriter, rfl⟩
  constructor
  · exact ⟨fun _ _ h _ => h, fun _ _ _ _ => rfl, fun _ h => absurd h List.not_mem_nil,
      List.nodup_nil, fun _ h => absurd h List.not_mem_nil⟩
  · exact fun k task hk => (htask k task hk).1
  · exact fun k task hk => hexist k task.writer (htask k task hk).1
  · exact fun _ h => absurd h List.not_mem_nil
  · intro k task dest hk hphase
    rw [(htask k task hk).2] at hphase
    cases hphase
  · intro j k task other dest dest' _ hj _ hphase
    rw [(htask j task hj).2] at hphase
    cases hphase

theorem tryExists_congr {d d' : Disk} {p : Path}
    (h : d'.lookup (host.locate p) = d.lookup (host.locate p)) :
    host.tryExists d' p = host.tryExists d p := by
  simp [Host.tryExists, Disk.exists?, h]

/-- A rename to a name that is still free leaves everything but the temporary file. -/
theorem survives {temp dest l : Loc} {node other : Node} {d disk : Disk}
    (hfree : d.lookup dest = none) (hlookup : ∀ l, disk.lookup l = if l = dest then some node
      else if l = temp then none else d.lookup l)
    (hl : l ≠ temp) (hother : d.lookup l = some other) :
    l ≠ dest ∧ disk.lookup l = some other := by
  have hne : l ≠ dest := by
    rintro rfl
    simp [hfree] at hother
  refine ⟨hne, ?_⟩
  rw [hlookup, if_neg hne, if_neg hl, hother]

/-- The temporary file of another call lies elsewhere and stays through a rename. -/
theorem Inv.pending_rename (h : Inv host before writers s)
    (hdistinct : ∀ j k v w, j ≠ k → writers j = some v → writers k = some w →
      host.locate v.tempPath ≠ host.locate w.tempPath)
    {k : κ} {task : Finalizing} {dest : Path} (hk : s.tasks k = some task)
    (hfree : s.disk.lookup (host.locate dest) = none) {node : Node} {disk : Disk}
    (hlookup : ∀ l, disk.lookup l = if l = host.locate dest then some node
      else if l = host.locate task.writer.tempPath then none else s.disk.lookup l)
    {j : κ} {other : Finalizing} (hjk : j ≠ k) (hj : s.tasks j = some other)
    (hnotDone : other.phase ≠ .done) :
    host.locate other.writer.tempPath ≠ host.locate dest ∧
      disk.lookup (host.locate other.writer.tempPath) =
        before.lookup (host.locate other.writer.tempPath) := by
  have hne := hdistinct j k _ _ hjk (h.writer j other hj) (h.writer k task hk)
  obtain ⟨file, hfile⟩ := h.temp j other hj
  have hthere := (h.pending j other hj hnotDone).trans hfile
  obtain ⟨hdest, hstays⟩ := survives hfree hlookup hne hthere
  exact ⟨hdest, hstays.trans hfile.symm⟩

variable [DecidableEq κ]

/-- A task moves on without a rename, to a free name that no other task has settled on. -/
theorem Inv.setPhase (h : Inv host before writers s) {k : κ} {task : Finalizing}
    (hk : s.tasks k = some task) (hunfinished : task.phase ≠ .done) {phase : Phase}
    (hfree : ∀ dest, phase = .chosen dest → host.tryExists s.disk dest = false)
    (hapart : ∀ dest, phase = .chosen dest → ∀ j other dest', j ≠ k → s.tasks j = some other →
      other.phase = .chosen dest' → host.locate dest' ≠ host.locate dest) :
    Inv host before writers (s.setPhase k task phase) := by
  constructor
  · refine ⟨h.kept, fun j other hj hphase => ?_, h.published, h.distinct, h.added⟩
    rcases setPhase_cases hj with ⟨rfl, rfl⟩ | ⟨-, hother⟩
    · exact h.pending j task hk hunfinished
    · exact h.pending j other hother hphase
  · intro j other hj
    rcases setPhase_cases hj with ⟨rfl, rfl⟩ | ⟨-, hother⟩
    · exact h.writer j task hk
    · exact h.writer j other hother
  · intro j other hj
    rcases setPhase_cases hj with ⟨rfl, rfl⟩ | ⟨-, hother⟩
    · exact h.temp j task hk
    · exact h.temp j other hother
  · intro p hp j other hj hphase
    rcases setPhase_cases hj with ⟨rfl, rfl⟩ | ⟨-, hother⟩
    · exact h.notTemp p hp j task hk hunfinished
    · exact h.notTemp p hp j other hother hphase
  · intro j other dest hj hphase
    rcases setPhase_cases hj with ⟨rfl, rfl⟩ | ⟨-, hother⟩
    · exact hfree dest hphase
    · exact h.free j other dest hother hphase
  · intro i j first second dest dest' hij hi hj hphase hphase'
    rcases setPhase_cases hi with ⟨rfl, rfl⟩ | ⟨hik, hfirst⟩ <;>
      rcases setPhase_cases hj with ⟨rfl, rfl⟩ | ⟨hjk, hsecond⟩
    · exact absurd rfl hij
    · exact (hapart dest hphase j second dest' hjk hsecond hphase').symm
    · exact hapart dest' hphase' i first dest hik hfirst hphase
    · exact h.apart i j first second dest dest' hij hfirst hsecond hphase hphase'

/-- Renaming to a free name adds the one file, at a place that was free before the run. -/
theorem Inv.preserves_publish (h : Inv host before writers s)
    (hdistinct : ∀ j k v w, j ≠ k → writers j = some v → writers k = some w →
      host.locate v.tempPath ≠ host.locate w.tempPath)
    {k : κ} {task : Finalizing} {dest : Path} (hk : s.tasks k = some task)
    (hphase : task.phase = .chosen dest) (hfree : s.disk.lookup (host.locate dest) = none)
    {node : Node} {disk : Disk}
    (hlookup : ∀ l, disk.lookup l = if l = host.locate dest then some node
      else if l = host.locate task.writer.tempPath then none else s.disk.lookup l) :
    Preserves host before writers { s.setPhase k task .done with
      disk
      published := s.published ++ [(host.locate dest, node)] } := by
  have hunfinished : task.phase ≠ .done := by
    rw [hphase]
    simp
  have hold : ∀ p ∈ s.published, p.1 ≠ host.locate dest ∧ disk.lookup p.1 = some p.2 :=
    fun p hp => survives hfree hlookup (h.notTemp p hp k task hk hunfinished) (h.published p hp)
  constructor
  · intro l other hother htemps
    exact (survives hfree hlookup (htemps k task.writer (h.writer k task hk)).symm
      (h.kept l other hother htemps)).2
  · intro j other hj hnotDone
    rcases setPhase_cases hj with ⟨rfl, rfl⟩ | ⟨hjk, hother⟩
    · exact absurd rfl hnotDone
    · exact (h.pending_rename hdistinct hk hfree hlookup hjk hother hnotDone).2
  · intro p hp
    rcases List.mem_append.mp hp with hin | hnew
    · exact (hold p hin).2
    · obtain rfl := List.mem_singleton.mp hnew
      rw [hlookup, if_pos rfl]
  · rw [List.map_append, List.map_singleton]
    refine List.nodup_append_comm.mpr (List.nodup_cons.mpr ⟨fun hmem => ?_, h.distinct⟩)
    obtain ⟨p, hp, hloc⟩ := List.mem_map.mp hmem
    exact (hold p hp).1 hloc
  · intro p hp
    rcases List.mem_append.mp hp with hin | hnew
    · exact h.added p hin
    · obtain rfl := List.mem_singleton.mp hnew
      by_contra hneither
      rw [not_or] at hneither
      obtain ⟨old, hbefore⟩ := Option.ne_none_iff_exists'.mp hneither.1
      have hstill := h.kept (host.locate dest) old hbefore fun j writer hj heq =>
        hneither.2 ⟨j, writer, hj, heq⟩
      simp [hfree] at hstill

/-- Renaming to a name that is still free keeps the invariant. -/
theorem Inv.publish (h : Inv host before writers s)
    (hdistinct : ∀ j k v w, j ≠ k → writers j = some v → writers k = some w →
      host.locate v.tempPath ≠ host.locate w.tempPath)
    {k : κ} {task : Finalizing} {dest : Path} (hk : s.tasks k = some task)
    (hphase : task.phase = .chosen dest) (hfree : s.disk.lookup (host.locate dest) = none)
    {node : Node} {disk : Disk}
    (hlookup : ∀ l, disk.lookup l = if l = host.locate dest then some node
      else if l = host.locate task.writer.tempPath then none else s.disk.lookup l) :
    Inv host before writers { s.setPhase k task .done with
      disk
      published := s.published ++ [(host.locate dest, node)] } := by
  constructor
  · exact h.preserves_publish hdistinct hk hphase hfree hlookup
  · intro j other hj
    rcases setPhase_cases hj with ⟨rfl, rfl⟩ | ⟨-, hother⟩
    · exact h.writer j task hk
    · exact h.writer j other hother
  · intro j other hj
    rcases setPhase_cases hj with ⟨rfl, rfl⟩ | ⟨-, hother⟩
    · exact h.temp j task hk
    · exact h.temp j other hother
  · intro p hp j other hj hnotDone
    rcases setPhase_cases hj with ⟨rfl, rfl⟩ | ⟨hjk, hother⟩
    · exact absurd rfl hnotDone
    · rcases List.mem_append.mp hp with hin | hnew
      · exact h.notTemp p hin j other hother hnotDone
      · obtain rfl := List.mem_singleton.mp hnew
        exact (h.pending_rename hdistinct hk hfree hlookup hjk hother hnotDone).1.symm
  · intro j other dest' hj hchosen
    rcases setPhase_cases hj with ⟨rfl, rfl⟩ | ⟨hjk, hother⟩
    · cases hchosen
    · have hne := h.apart j k other task dest' dest hjk hother hk hchosen hphase
      by_cases htemp : host.locate dest' = host.locate task.writer.tempPath
      · exact Host.tryExists_of_free (by rw [hlookup, if_neg hne, if_pos htemp])
      · rw [tryExists_congr (d := s.disk) (by rw [hlookup, if_neg hne, if_neg htemp])]
        exact h.free j other dest' hother hchosen
  · intro i j first second dest₁ dest₂ hij hi hj hchosen₁ hchosen₂
    rcases setPhase_cases hi with ⟨rfl, rfl⟩ | ⟨-, hfirst⟩
    · cases hchosen₁
    · rcases setPhase_cases hj with ⟨rfl, rfl⟩ | ⟨-, hsecond⟩
      · cases hchosen₂
      · exact h.apart i j first second dest₁ dest₂ hij hfirst hsecond hchosen₁ hchosen₂

theorem Inv.renamed (h : Inv host before writers s)
    (hdistinct : ∀ j k v w, j ≠ k → writers j = some v → writers k = some w →
      host.locate v.tempPath ≠ host.locate w.tempPath)
    {k : κ} {task : Finalizing} {dest : Path} (hk : s.tasks k = some task)
    (hphase : task.phase = .chosen dest) (faults : List (Option ℕ)) :
    Inv host before writers (s.renamed host k task dest faults) := by
  rcases Disk.rename_cases (host.locate task.writer.tempPath) (host.locate dest) dest.dirOnly
    { s.disk with faults } with ⟨disk, hok⟩ | ⟨e, disk, herr, hlookup⟩
  · obtain ⟨node, hnode, hlookup⟩ := Disk.rename_lookup hok
    have hfree := Disk.free_of_rename hok (h.free k task dest hk hphase)
    rw [Disk.lookup_faults] at hnode hfree
    have hpublish := h.publish hdistinct hk hphase hfree hlookup
    simp only [Publishing.renamed, hok, hnode, Option.getD_some]
    exact hpublish
  · have hunfinished : task.phase ≠ .done := by
      rw [hphase]
      simp
    have hfailed : Inv host before writers (s.setPhase k task .failed) :=
      h.setPhase hk hunfinished (fun _ hchosen => by cases hchosen)
        (fun _ hchosen => by cases hchosen)
    simp only [Publishing.renamed, herr]
    have hsame : ∀ l, disk.lookup l = (s.setPhase k task .failed).disk.lookup l := hlookup
    constructor
    · exact ⟨fun l node hl htemps => (hsame l).trans (hfailed.kept l node hl htemps),
        fun j other hj hnotDone => (hsame _).trans (hfailed.pending j other hj hnotDone),
        fun p hp => (hsame p.1).trans (hfailed.published p hp), hfailed.distinct, hfailed.added⟩
    · exact hfailed.writer
    · exact hfailed.temp
    · exact hfailed.notTemp
    · exact fun j other dest' hj hchosen =>
        (tryExists_congr (hsame _)).trans (hfailed.free j other dest' hj hchosen)
    · exact hfailed.apart

theorem Inv.step (h : Inv host before writers s)
    (hdistinct : ∀ j k v w, j ≠ k → writers j = some v → writers k = some w →
      host.locate v.tempPath ≠ host.locate w.tempPath)
    {call : PublishCall κ} (huncontested : Uncontested host s call)
    (hstep : Step host s call s') : Inv host before writers s' := by
  cases hstep with
  | probe k task n hk hphase =>
    have hunfinished : task.phase ≠ .done := by
      rw [hphase]
      simp
    have hchosen : ∀ dest, probed host s.disk task.writer.destPath n = .chosen dest →
        dest = candidate task.writer.destPath n ∧
          host.tryExists s.disk (candidate task.writer.destPath n) = false := by
      intro dest hdest
      unfold probed at hdest
      split_ifs at hdest with hexists hlast
      exact ⟨(Phase.chosen.inj hdest).symm, by simpa using hexists⟩
    refine h.setPhase hk hunfinished ?_ ?_
    · intro dest hdest
      obtain ⟨rfl, hfree⟩ := hchosen dest hdest
      exact hfree
    · intro dest hdest j other dest' hjk hj hother
      obtain ⟨rfl, hfree⟩ := hchosen dest hdest
      exact huncontested task n hk hphase hfree j other dest' hjk hj hother
  | name k task uuid hk hphase hfresh =>
    have hunfinished : task.phase ≠ .done := by
      rw [hphase]
      simp
    obtain ⟨hnone, hother⟩ := hfresh
      (host.locate (task.writer.destPath.parent.getD (Path.ofString "."))) _
      (infix_joinExtension (task.writer.destPath.fileStem.getD "file".toList)
        (task.writer.destPath.extension.getD []) uuid)
    rw [Host.locate, ← Path.locate_child] at hnone hother
    refine h.setPhase hk hunfinished ?_ ?_
    · intro dest hdest
      obtain rfl := Phase.chosen.inj hdest
      exact Host.tryExists_of_free hnone
    · intro dest hdest j other dest' _ hj hchosen
      obtain rfl := Phase.chosen.inj hdest
      exact hother j other dest' hj hchosen
  | rename k task dest faults hk hphase => exact h.renamed hdistinct hk hphase faults

/-- In a run whose probes are uncontested, no rename replaces a file: what was there
before, temporary files that wait to be renamed among it, and what was published stays,
each published file at a new place. -/
theorem always_preserves (host : Host) (before : Disk) (writers : κ → Option ChunkWriter)
    (hexist : ∀ k writer, writers k = some writer →
      ∃ node, before.lookup (host.locate writer.tempPath) = some node)
    (hdistinct : ∀ j k v w, j ≠ k → writers j = some v → writers k = some w →
      host.locate v.tempPath ≠ host.locate w.tempPath)
    {taken : List (Publishing κ × PublishCall κ)} {final : Publishing κ}
    (run : Run (Step host) (start before writers) taken final)
    (huncontested : ∀ t ∈ taken, Uncontested host t.1 t.2) :
    Run.Always (Preserves host before writers) taken final := by
  have hinv := run.always_of (inv_start hexist)
    (fun _ _ _ hinv hcall hstep => hinv.step hdistinct hcall hstep) huncontested
  exact ⟨fun t ht => (hinv.1 t ht).toPreserves, hinv.2.toPreserves⟩

end Inv

/-! ### Two destinations with a common name -/

open WriterPool (sampleHost)

def at_ (name : String) : Loc := ["dl".toList, name.toList]

/-- A file that is there already, and the temporary files of two writers. -/
def sampleBefore : Disk :=
  { nodes := (((Finmap.singleton (at_ "a.txt") (.file [0])).insert
      (at_ "a.justdrop_partial") (.file [1])).insert (at_ "a (1).justdrop_partial") (.file [2]))
    touched := []
    faults := [] }

def sampleWriter (name : String) : ChunkWriter :=
  ChunkWriter.fresh (Vector.replicate 16 0) 0 ((Path.ofString "/dl").join (Path.ofString name)) 4 1

def sampleWriters (k : ℕ) : Option ChunkWriter :=
  match k with
  | 0 => some (sampleWriter "a.txt")
  | 1 => some (sampleWriter "a (1).txt")
  | _ => none

theorem hexist_sample (k : ℕ) (writer : ChunkWriter) (h : sampleWriters k = some writer) :
    ∃ node, sampleBefore.lookup (sampleHost.locate writer.tempPath) = some node := by
  have hboth : ∀ name ∈ ["a.txt", "a (1).txt"],
      (sampleBefore.lookup (sampleHost.locate (sampleWriter name).tempPath)).isSome = true := by
    decide +kernel
  match k, h with
  | 0, h =>
    obtain rfl := Option.some.inj h
    exact Option.isSome_iff_exists.mp (hboth "a.txt" (by simp))
  | 1, h =>
    obtain rfl := Option.some.inj h
    exact Option.isSome_iff_exists.mp (hboth "a (1).txt" (by simp))

theorem hdistinct_sample (j k : ℕ) (v w : ChunkWriter) (hjk : j ≠ k)
    (hv : sampleWriters j = some v) (hw : sampleWriters k = some w) :
    sampleHost.locate v.tempPath ≠ sampleHost.locate w.tempPath := by
  have hne : sampleHost.locate (sampleWriter "a.txt").tempPath ≠
      sampleHost.locate (sampleWriter "a (1).txt").tempPath := by
    decide +kernel
  match j, k, hv, hw with
  | 0, 0, _, _ => exact absurd rfl hjk
  | 1, 1, _, _ => exact absurd rfl hjk
  | 0, 1, hv, hw =>
    obtain rfl := Option.some.inj hv
    obtain rfl := Option.some.inj hw
    exact hne
  | 1, 0, hv, hw =>
    obtain rfl := Option.some.inj hv
    obtain rfl := Option.some.inj hw
    exact hne.symm

/-- The task that publishes `name`, in a phase of its call. -/
def sampleTask (name : String) (phase : Phase) : Finalizing :=
  { writer := sampleWriter name, phase }

/-- The destination that both tasks settle on. -/
def contested : Path := (sampleWriter "a (1).txt").destPath

section After
variable [DecidableEq κ]

def afterProbe (s : Publishing κ) (k : κ) (name : String) (n : ℕ) : Publishing κ :=
  s.setPhase k (sampleTask name (.probing n))
    (probed sampleHost s.disk (sampleWriter name).destPath n)

def afterRename (s : Publishing κ) (k : κ) (name : String) (dest : Path) : Publishing κ :=
  s.renamed sampleHost k (sampleTask name (.chosen dest)) dest []

end After

def probedTaken : Publishing ℕ := afterProbe (start sampleBefore sampleWriters) 0 "a.txt" 0

def probedFirst : Publishing ℕ := afterProbe probedTaken 0 "a.txt" 1

def probedBoth : Publishing ℕ := afterProbe probedFirst 1 "a (1).txt" 0

def renamedFirst : Publishing ℕ := afterRename probedBoth 0 "a.txt" contested

def renamedBoth : Publishing ℕ := afterRename renamedFirst 1 "a (1).txt" contested

theorem tasks_probedBoth :
    probedTaken.tasks 0 = some (sampleTask "a.txt" (.probing 1)) ∧
      probedFirst.tasks 1 = some (sampleTask "a (1).txt" (.probing 0)) ∧
      probedBoth.tasks 0 = some (sampleTask "a.txt" (.chosen contested)) ∧
      renamedFirst.tasks 1 = some (sampleTask "a (1).txt" (.chosen contested)) := by
  decide +kernel

/-- The interleaving of the two tasks, each step with the state it is taken in. -/
def sampleSteps : List (Publishing ℕ × PublishCall ℕ) :=
  [(start sampleBefore sampleWriters, .probe 0), (probedTaken, .probe 0),
    (probedFirst, .probe 1), (probedBoth, .rename 0 []), (renamedFirst, .rename 1 [])]

theorem run_sampleSteps :
    Run (Step sampleHost) (start sampleBefore sampleWriters) sampleSteps renamedBoth := by
  obtain ⟨htaken, hfirst, hboth, hrenamed⟩ := tasks_probedBoth
  have hprobed : Run (Step sampleHost) (start sampleBefore sampleWriters)
      (sampleSteps.take 3) probedBoth :=
    .snoc (.snoc (.snoc .refl (.probe 0 _ 0 rfl rfl)) (.probe 0 _ 1 htaken rfl))
      (.probe 1 _ 0 hfirst rfl)
  exact .snoc (.snoc hprobed (.rename 0 _ _ [] hboth rfl)) (.rename 1 _ _ [] hrenamed rfl)

theorem published_renamedBoth : ¬(renamedBoth.published.map Prod.fst).Nodup := by
  decide +kernel

/-- Both writers find `a (1).txt` free, and the second rename replaces the first file. -/
theorem not_always_preserves : ¬∀ (host : Host) (before : Disk) (writers : ℕ → Option ChunkWriter)
    (taken : List (Publishing ℕ × PublishCall ℕ)) (final : Publishing ℕ),
    (∀ k writer, writers k = some writer →
      ∃ node, before.lookup (host.locate writer.tempPath) = some node) →
    (∀ j k v w, j ≠ k → writers j = some v → writers k = some w →
      host.locate v.tempPath ≠ host.locate w.tempPath) →
    Run (Step host) (start before writers) taken final →
    Run.Always (Preserves host before writers) taken final := by
  intro h
  have hall := h sampleHost sampleBefore sampleWriters _ _ hexist_sample hdistinct_sample
    run_sampleSteps
  exact published_renamedBoth hall.2.distinct

/-! ### One after the other -/

/-- The same writers, for two tasks. -/
def pairWriters (k : Bool) : Option ChunkWriter := sampleWriters k.toNat

/-- `a.txt` is taken; then the other task publishes `a (1).txt`, which the first one finds
taken as well, so that it goes on to `a (2).txt`. -/
def pairMoves : List (Publishing Bool → Publishing Bool) :=
  [(afterProbe · false "a.txt" 0), (afterProbe · true "a (1).txt" 0),
    (afterRename · true "a (1).txt" contested), (afterProbe · false "a.txt" 1),
    (afterProbe · false "a.txt" 2),
    (afterRename · false "a.txt" (sampleWriter "a (2).txt").destPath)]

def pairState (n : ℕ) : Publishing Bool :=
  (pairMoves.take n).foldl (fun s move => move s) (start sampleBefore pairWriters)

/-- The calls of both tasks, each with the state it is made in. -/
def pairSteps : List (Publishing Bool × PublishCall Bool) :=
  [(pairState 0, .probe false), (pairState 1, .probe true), (pairState 2, .rename true []),
    (pairState 3, .probe false), (pairState 4, .probe false), (pairState 5, .rename false [])]

theorem tasks_pairState :
    (pairState 1).tasks true = some (sampleTask "a (1).txt" (.probing 0)) ∧
      (pairState 2).tasks true = some (sampleTask "a (1).txt" (.chosen contested)) ∧
      (pairState 3).tasks false = some (sampleTask "a.txt" (.probing 1)) ∧
      (pairState 4).tasks false = some (sampleTask "a.txt" (.probing 2)) ∧
      (pairState 5).tasks false =
        some (sampleTask "a.txt" (.chosen (sampleWriter "a (2).txt").destPath)) := by
  decide +kernel

theorem run_pairSteps :
    Run (Step sampleHost) (start sampleBefore pairWriters) pairSteps (pairState 6) := by
  obtain ⟨h₁, h₂, h₃, h₄, h₅⟩ := tasks_pairState
  have hpublished : Run (Step sampleHost) (start sampleBefore pairWriters)
      (pairSteps.take 3) (pairState 3) :=
    .snoc (.snoc (.snoc .refl (.probe false _ 0 rfl rfl)) (.probe true _ 0 h₁ rfl))
      (.rename true _ _ [] h₂ rfl)
  exact .snoc (.snoc (.snoc hpublished (.probe false _ 1 h₃ rfl)) (.probe false _ 2 h₄ rfl))
    (.rename false _ _ [] h₅ rfl)

/-- Nobody has settled on a name while another one is probed. -/
theorem unsettled_pairState : ∀ n ∈ [0, 1, 3, 4], ∀ k, ∀ task ∈ (pairState n).tasks k,
    task.phase ∈ [.probing 0, .probing 1, .probing 2, .done] := by
  decide +kernel

theorem uncontested_pairState {n : ℕ} (hn : n ∈ [0, 1, 3, 4]) (k : Bool) :
    Uncontested sampleHost (pairState n) (.probe k) := by
  intro _ _ _ _ _ j other dest _ hj hchosen
  have hphase := unsettled_pairState n hn j other hj
  simp [hchosen] at hphase

/-- Both tasks publish, and what was there before stays. -/
theorem always_preserves_pairSteps :
    Run.Always (Preserves sampleHost sampleBefore pairWriters) pairSteps (pairState 6) ∧
      (pairState 6).published =
        [(at_ "a (1).txt", .file [2]), (at_ "a (2).txt", .file [1])] := by
  refine ⟨always_preserves sampleHost sampleBefore pairWriters (fun k => hexist_sample k.toNat)
    (fun j k v w hjk => hdistinct_sample j.toNat k.toNat v w fun h => hjk (by decide +revert))
    run_pairSteps ?_, by decide +kernel⟩
  simp only [pairSteps, List.forall_mem_cons, List.not_mem_nil, false_implies, implies_true,
    and_true]
  exact ⟨uncontested_pairState (by simp) _, uncontested_pairState (by simp) _, trivial,
    uncontested_pairState (by simp) _, uncontested_pairState (by simp) _, trivial⟩

end Publishing
end JustDrop
