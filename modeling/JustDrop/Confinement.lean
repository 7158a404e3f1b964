import JustDrop.Writer

/-!
# What a new writer touches

A writer makes the directories of its destination and its temporary file beside it.
Which places it touches depends on the names in the path and on what stands in its
way; the environment can only cut it short.
-/
namespace JustDrop

/-- What stands at each place. -/
abbrev Tree := Loc → Option Node

/-- What lies inside a directory has its parent there or in the directory itself. -/
theorem Path.prefix_parent_of_inside {dir cwd : Loc} {p : Path}
    (h : Loc.Inside dir (p.locate cwd)) :
    dir <+: (p.parent.getD (Path.ofString ".")).locate cwd := by
  obtain ⟨absolute, comps, trailing⟩ := p
  rcases List.eq_nil_or_concat' comps with rfl | ⟨parents, last, rfl⟩
  · cases absolute with
    | false => exact h.1
    | true => exact absurd (List.prefix_nil.mp h.1) h.2
  · have hparent : Path.parent ⟨absolute, parents ++ [last], trailing⟩ =
        some ⟨absolute, parents, false⟩ := by
      simp [Path.parent, Path.above]
    rw [Path.locate_concat] at h
    rw [hparent, Option.getD_some]
    cases last with
    | curDir => exact h.1
    | parentDir => exact h.1.trans (List.dropLast_prefix _)
    | normal name => exact Loc.inside_concat.mp h

namespace Disk

/-- All that has been touched after `before` lies inside the directory. -/
def Confined (dir : Loc) (before : List Loc) (d : Disk) : Prop :=
  ∃ new, d.touched = before ++ new ∧ ∀ loc ∈ new, Loc.Inside dir loc

/-- Something outside the directory has been touched after `before`. -/
def Escaped (dir : Loc) (before : List Loc) (d : Disk) : Prop :=
  ∃ new, d.touched = before ++ new ∧ ∃ loc ∈ new, ¬Loc.Inside dir loc

variable {dir loc : Loc} {before : List Loc} {d d' : Disk} {locs : List Loc}

theorem confined_start (dir : Loc) (d : Disk) : Confined dir d.touched d :=
  ⟨[], (List.append_nil _).symm, fun _ h => absurd h List.not_mem_nil⟩

theorem confined_nil_iff : Confined dir [] d ↔ ∀ loc ∈ d.touched, Loc.Inside dir loc := by
  constructor
  · rintro ⟨new, hnew, hinside⟩
    rwa [hnew, List.nil_append]
  · intro hinside
    exact ⟨d.touched, rfl, hinside⟩

theorem Escaped.not_confined (h : Escaped dir before d) : ¬Confined dir before d := by
  rintro ⟨new, hnew, hinside⟩
  obtain ⟨new', hnew', loc, hloc, hout⟩ := h
  obtain rfl := List.append_cancel_left (hnew.symm.trans hnew')
  exact hout (hinside loc hloc)

theorem Confined.escaped_touch (h : Confined dir before d) (hout : ¬Loc.Inside dir loc) :
    Escaped dir before (d.touch loc) := by
  obtain ⟨new, hnew, -⟩ := h
  refine ⟨new ++ [loc], ?_, loc, by simp, hout⟩
  rw [touched_touch, hnew, List.append_assoc]

/-- Calls inside the directory touch nothing else. -/
theorem stableAt_confined (h : Loc.Inside dir loc) : StableAt (Confined dir before) loc where
  fault _ hd := hd
  touch d hd := by
    obtain ⟨new, hnew, hinside⟩ := hd
    refine ⟨new ++ [loc], by rw [touched_touch, hnew, List.append_assoc], fun l hl => ?_⟩
    rcases List.mem_append.mp hl with hl | hl
    · exact hinside l hl
    · rwa [List.mem_singleton.mp hl]
  set _ _ hd := hd
  erase _ hd := hd

/-- What has been touched stays touched. -/
theorem stableAt_escaped (loc : Loc) : StableAt (Escaped dir before) loc where
  fault _ hd := hd
  touch d hd := by
    obtain ⟨new, hnew, l, hl, hout⟩ := hd
    refine ⟨new ++ [loc], by rw [touched_touch, hnew, List.append_assoc], l, ?_, hout⟩
    exact List.mem_append_left _ hl
  set _ _ hd := hd
  erase _ hd := hd

/-! ### Creating directories -/

/-- A file stands there. -/
def blocked (tree : Tree) (loc : Loc) : Bool :=
  match tree loc with
  | some (.file _) => true
  | _ => false

/-- The directories up to the first file that stands in the way. -/
def walked (tree : Tree) (locs : List Loc) : List Loc := locs.takeWhile fun loc => !blocked tree loc

/-- The disk with a missing directory made. -/
def mkdir (loc : Loc) (d : Disk) : Disk :=
  { d.touch loc with faults := d.faults.tail }.set loc .dir

@[simp] theorem touched_mkdir (loc : Loc) (d : Disk) :
    (d.mkdir loc).touched = d.touched ++ [loc] := rfl
@[simp] theorem faults_mkdir (loc : Loc) (d : Disk) : (d.mkdir loc).faults = d.faults.tail := rfl

theorem lookup_mkdir (d : Disk) (loc l : Loc) :
    (d.mkdir loc).lookup l = if l = loc then some .dir else d.lookup l := by
  rw [mkdir, lookup_set]
  rfl

theorem blocked_mkdir (h : d.lookup loc = none) :
    blocked (d.mkdir loc).lookup = blocked d.lookup := by
  funext l
  unfold blocked
  rw [lookup_mkdir]
  split_ifs with hl
  · rw [hl, h]
  · rfl

theorem walked_mkdir (h : d.lookup loc = none) (locs : List Loc) :
    walked (d.mkdir loc).lookup locs = walked d.lookup locs := by
  rw [walked, walked, blocked_mkdir h]

theorem walked_cons_of_clear {tree : Tree} (h : blocked tree loc = false) (locs : List Loc) :
    walked tree (loc :: locs) = loc :: walked tree locs := by
  simp [walked, h]

theorem createDirAll_of_dir (h : d.lookup loc = some .dir) (locs : List Loc) :
    createDirAll (loc :: locs) d = createDirAll locs d := by
  simp only [createDirAll, Task.get_bind_run, h]

theorem createDirAll_of_file {bytes : Bytes} (h : d.lookup loc = some (.file bytes))
    (locs : List Loc) : createDirAll (loc :: locs) d = (.err .notADirectory, d) := by
  simp only [createDirAll, Task.get_bind_run, h, Task.fail_run]

/-- A missing directory is made unless the environment fails the call. -/
theorem createDirAll_of_missing (h : d.lookup loc = none) (locs : List Loc) :
    (createDirAll (loc :: locs) d = (.err .fault, { d.touch loc with faults := d.faults.tail }) ∧
        ¬d.Calm) ∨
      createDirAll (loc :: locs) d = createDirAll locs (d.mkdir loc) := by
  simp only [createDirAll, Task.get_bind_run, h, Task.modify_bind_run]
  rcases attempt_cases (d.touch loc) with hok | hfault
  · right
    rw [Task.bind_of_ok hok]
    rfl
  · left
    rw [Task.bind_of_err hfault]
    refine ⟨rfl, fun hcalm => ?_⟩
    rw [attempt_of_calm (d := d.touch loc) hcalm] at hfault
    simp at hfault

theorem confined_createDirAll (h : Confined dir before d)
    (hmissing : ∀ loc ∈ walked d.lookup locs, d.lookup loc = none → Loc.Inside dir loc) :
    Confined dir before (createDirAll locs d).2 := by
  induction locs generalizing d with
  | nil => exact h
  | cons loc locs ih =>
    rcases hl : d.lookup loc with _ | ⟨bytes | _⟩
    · rw [walked_cons_of_clear (by simp [blocked, hl]), List.forall_mem_cons] at hmissing
      have htouched : Confined dir before (d.touch loc) :=
        (stableAt_confined (hmissing.1 hl)).touch d h
      rcases createDirAll_of_missing hl locs with ⟨hrun, -⟩ | hrun <;> rw [hrun]
      · exact htouched
      · refine ih htouched fun l hwalked hnone => hmissing.2 l ?_ ?_
        · rwa [walked_mkdir hl] at hwalked
        · rw [lookup_mkdir] at hnone
          split_ifs at hnone
          exact hnone
    · rw [createDirAll_of_file hl]
      exact h
    · rw [walked_cons_of_clear (by simp [blocked, hl]), List.forall_mem_cons] at hmissing
      rw [createDirAll_of_dir hl]
      exact ih h hmissing.2

/-- Without faults every missing directory on the way is touched. -/
theorem escaped_createDirAll (hcalm : d.Calm) (h : Confined dir before d)
    (hloc : loc ∈ walked d.lookup locs) (hmissing : d.lookup loc = none)
    (hout : ¬Loc.Inside dir loc) : Escaped dir before (createDirAll locs d).2 := by
  induction locs generalizing d with
  | nil => simp [walked] at hloc
  | cons l locs ih =>
    rcases hl : d.lookup l with _ | ⟨bytes | _⟩
    · rcases createDirAll_of_missing hl locs with ⟨-, hfault⟩ | hrun
      · exact absurd hcalm hfault
      rw [hrun]
      by_cases hin : Loc.Inside dir l
      · have hne : loc ≠ l := by
          rintro rfl
          exact hout hin
        rw [walked_cons_of_clear (by simp [blocked, hl]), List.mem_cons] at hloc
        refine ih ?_ ((stableAt_confined hin).touch d h) ?_ ?_
        · rw [Calm, faults_mkdir, hcalm, List.tail_nil]
        · rw [walked_mkdir hl]
          exact hloc.resolve_left hne
        · rw [lookup_mkdir, if_neg hne, hmissing]
      · have hkeep : Task.Keeps (Escaped dir before) (createDirAll locs) :=
          keeps_createDirAll fun l _ => Or.inl (stableAt_escaped l)
        exact hkeep (d.mkdir l) (h.escaped_touch hin)
    · simp [walked, blocked, hl] at hloc
    · have hne : loc ≠ l := by
        rintro rfl
        simp [hl] at hmissing
      rw [walked_cons_of_clear (by simp [blocked, hl]), List.mem_cons] at hloc
      rw [createDirAll_of_dir hl]
      exact ih hcalm h (hloc.resolve_left hne) hmissing

/-- Directories that are all there afterwards had no file in their way. -/
theorem createDirAll_eq_ok (h : createDirAll locs d = (.ok (), d')) :
    (∀ loc ∈ locs, blocked d.lookup loc = false) ∧
      ∀ l, d'.lookup l = if l ∈ locs then some .dir else d.lookup l := by
  induction locs generalizing d with
  | nil =>
    obtain rfl := (Prod.mk.inj h).2
    simp
  | cons loc locs ih =>
    rcases hl : d.lookup loc with _ | ⟨bytes | _⟩
    · rcases createDirAll_of_missing hl locs with ⟨hrun, -⟩ | hrun
      · simp [hrun] at h
      · obtain ⟨hclear, hlookup⟩ := ih (hrun.symm.trans h)
        rw [blocked_mkdir hl] at hclear
        refine ⟨List.forall_mem_cons.mpr ⟨by simp [blocked, hl], hclear⟩, fun l => ?_⟩
        rw [hlookup, lookup_mkdir]
        simp only [List.mem_cons]
        split_ifs <;> simp_all
    · simp [createDirAll_of_file hl] at h
    · obtain ⟨hclear, hlookup⟩ := ih ((createDirAll_of_dir hl locs).symm.trans h)
      refine ⟨List.forall_mem_cons.mpr ⟨by simp [blocked, hl], hclear⟩, fun l => ?_⟩
      rw [hlookup]
      simp only [List.mem_cons]
      split_ifs <;> simp_all

theorem createDirAll_of_clear (hcalm : d.Calm)
    (hclear : ∀ loc ∈ locs, blocked d.lookup loc = false) :
    ∃ d', createDirAll locs d = (.ok (), d') ∧ d'.Calm := by
  induction locs generalizing d with
  | nil => exact ⟨d, rfl, hcalm⟩
  | cons loc locs ih =>
    rw [List.forall_mem_cons] at hclear
    rcases hl : d.lookup loc with _ | ⟨bytes | _⟩
    · rcases createDirAll_of_missing hl locs with ⟨-, hfault⟩ | hrun
      · exact absurd hcalm hfault
      rw [hrun]
      refine ih ?_ ?_
      · rw [Calm, faults_mkdir, hcalm, List.tail_nil]
      · rw [blocked_mkdir hl]
        exact hclear.2
    · simp [blocked, hl] at hclear
    · rw [createDirAll_of_dir hl]
      exact ih hcalm hclear.2

theorem escaped_openCreate (h : Confined dir before d) (hout : ¬Loc.Inside dir loc)
    (dirOnly : Bool) : Escaped dir before (openCreate loc dirOnly d).2 := by
  have hstable : StableAt (Escaped dir before) loc := stableAt_escaped loc
  refine Task.Keeps.after (I := Escaped dir before) (h.escaped_touch hout) fun _ => ?_
  refine Task.Keeps.bind (keeps_attempt hstable.fault) fun _ => ?_
  refine Task.Keeps.bind Task.Keeps.get fun d => ?_
  split_ifs
  · exact Task.Keeps.fail _
  · split
    · exact Task.Keeps.fail _
    · exact Task.Keeps.pure _
    · exact Task.Keeps.modify fun d => hstable.set d _

theorem openCreate_ne_dir {dirOnly : Bool} (h : openCreate loc dirOnly d = (.ok (), d')) :
    d.lookup loc ≠ some .dir := by
  intro hl
  simp only [openCreate, Task.modify_bind_run] at h
  have hopen := attempt_bind_eq_ok h
  simp only [Task.get_bind_run, lookup_faults, lookup_touch, hl] at hopen
  split_ifs at hopen
  · simp at hopen
  · simp at hopen

end Disk

namespace ChunkWriter

variable {host : Host} {destPath : Path} {fileSize : ℕ} {dir : Loc} {before : List Loc}
  {d d' : Disk}

/-- The directories that a writer asks for, from the outermost on. -/
def dirsOf (host : Host) (destPath : Path) : List Loc :=
  match destPath.parent with
  | some parent => parent.ancestors.map host.locate
  | none => []

theorem createParent_eq (host : Host) (destPath : Path) :
    ∃ f, createParent host destPath = Task.mapErr f (Disk.createDirAll (dirsOf host destPath)) := by
  unfold createParent dirsOf
  cases destPath.parent with
  | some parent => exact ⟨_, rfl⟩
  | none => exact ⟨StorageError.io destPath, rfl⟩

/-- No file stands in the way of the directories. -/
def Clear (host : Host) (destPath : Path) (tree : Tree) : Prop :=
  ∀ loc ∈ dirsOf host destPath, Disk.blocked tree loc = false

/-- The temporary path ends in a name, and no directory stands at its place either. -/
structure Ready (host : Host) (destPath : Path) (tree : Tree) : Prop where
  clear : Clear host destPath tree
  named : (tempOf destPath).dirOnly = false
  temp : host.locate (tempOf destPath) ∉ dirsOf host destPath ∧
    tree (host.locate (tempOf destPath)) ≠ some .dir

/-- What stands where once the directories and the temporary file are there. -/
def prepared (host : Host) (destPath : Path) (fileSize : ℕ) (tree : Tree) : Tree := fun l =>
  if l = host.locate (tempOf destPath) then
    some (.file (ByteImage.resize (match tree l with
      | some (.file bytes) => bytes
      | _ => []) fileSize))
  else if l ∈ dirsOf host destPath then some .dir
  else tree l

/-- Every missing directory on the way to the temporary file, and if nothing stands in
the way that file, lies inside a directory. -/
structure Within (host : Host) (dir : Loc) (destPath : Path) (tree : Tree) : Prop where
  dirs : ∀ loc ∈ Disk.walked tree (dirsOf host destPath), tree loc = none → Loc.Inside dir loc
  temp : Clear host destPath tree → Loc.Inside dir (host.locate (tempOf destPath))

theorem prepare_eq_ok (h : prepare host destPath fileSize d = (.ok (), d')) :
    Ready host destPath d.lookup ∧ d'.lookup = prepared host destPath fileSize d.lookup := by
  obtain ⟨f, hcreate⟩ := createParent_eq host destPath
  rw [prepare, hcreate] at h
  obtain ⟨_, d₁, hdirs, h₁⟩ := Task.bind_eq_ok.mp h
  obtain ⟨_, d₂, hopen, hlen⟩ := Task.bind_eq_ok.mp h₁
  rw [Task.mapErr_eq_ok] at hdirs hopen hlen
  obtain ⟨hclear, hlookup₁⟩ := Disk.createDirAll_eq_ok hdirs
  have hne := Disk.openCreate_ne_dir hopen
  have hlookup₂ := Disk.openCreate_lookup hopen
  have hlookup := Disk.setLen_lookup hlen
  have htemp : host.locate (tempOf destPath) ∉ dirsOf host destPath := by
    intro hmem
    rw [hlookup₁, if_pos hmem] at hne
    exact hne rfl
  rw [hlookup₁, if_neg htemp] at hne
  refine ⟨⟨hclear, Disk.dirOnly_of_openCreate hopen, htemp, hne⟩, funext fun l => ?_⟩
  rw [hlookup, prepared]
  split_ifs with hl hmem
  · subst hl
    rw [Disk.contents_eq_of_lookup (by rw [hlookup₂, if_pos rfl]),
      Disk.contents_congr (d := d) (by rw [hlookup₁, if_neg htemp])]
    rfl
  · rw [hlookup₂, if_neg hl, hlookup₁, if_pos hmem]
  · rw [hlookup₂, if_neg hl, hlookup₁, if_neg hmem]

theorem prepare_of_calm (fileSize : ℕ) (hcalm : d.Calm) (h : Ready host destPath d.lookup) :
    ∃ d', prepare host destPath fileSize d = (.ok (), d') ∧ d'.Calm := by
  obtain ⟨f, hcreate⟩ := createParent_eq host destPath
  obtain ⟨d₁, hdirs, hcalm₁⟩ := Disk.createDirAll_of_clear hcalm h.clear
  have hlookup₁ := (Disk.createDirAll_eq_ok hdirs).2
  have hne : d₁.lookup (host.locate (tempOf destPath)) ≠ some .dir := by
    rw [hlookup₁, if_neg h.temp.1]
    exact h.temp.2
  obtain ⟨d₂, hopen, hcalm₂⟩ := Disk.openCreate_of_calm hcalm₁ hne
  obtain ⟨d₃, hlen, hcalm₃⟩ :=
    Disk.setLen_of_calm hcalm₂ (host.locate (tempOf destPath)) fileSize
  refine ⟨d₃, ?_, hcalm₃⟩
  rw [← h.named] at hopen
  rw [prepare, hcreate, Task.bind_of_ok (Task.mapErr_of_ok hdirs),
    Task.bind_of_ok (Task.mapErr_of_ok hopen)]
  exact Task.mapErr_of_ok hlen

/-- What opens and sizes the temporary file keeps what calls there cannot break. -/
theorem keeps_openTemp {I : Disk → Prop}
    (htemp : Disk.StableAt I (host.locate (tempOf destPath))) (fileSize : ℕ) :
    Task.Keeps I (do
      Task.mapErr (.io (tempOf destPath))
        (Disk.openCreate (host.locate (tempOf destPath)) (tempOf destPath).dirOnly)
      Task.mapErr (.io (tempOf destPath))
        (Disk.setLen (host.locate (tempOf destPath)) fileSize) : Task Disk StorageError Unit) :=
  Task.Keeps.bind (Task.Keeps.mapErr _ (Disk.keeps_openCreate htemp _)) fun _ =>
    Task.Keeps.mapErr _ (Disk.keeps_setLen htemp _)

theorem confined_prepare (fileSize : ℕ) (h : Disk.Confined dir before d)
    (hwithin : Within host dir destPath d.lookup) :
    Disk.Confined dir before (prepare host destPath fileSize d).2 := by
  obtain ⟨f, hcreate⟩ := createParent_eq host destPath
  have hdirs := Disk.confined_createDirAll h hwithin.dirs
  rw [prepare, hcreate]
  rcases hrun : Disk.createDirAll (dirsOf host destPath) d with ⟨_ | e | _, d₁⟩ <;>
    rw [hrun] at hdirs
  · rw [Task.bind_of_ok (Task.mapErr_of_ok hrun)]
    have hinside := hwithin.temp (Disk.createDirAll_eq_ok hrun).1
    exact keeps_openTemp (Disk.stableAt_confined hinside) fileSize d₁ hdirs
  · rw [Task.bind_of_err (Task.mapErr_of_err hrun)]
    exact hdirs
  · exact absurd (congrArg Prod.fst hrun) ((Disk.noPanic_createDirAll _).ne_panic trivial)

theorem keeps_prepare_escaped (host : Host) (destPath : Path) (fileSize : ℕ) :
    Task.Keeps (Disk.Escaped dir before) (prepare host destPath fileSize) := by
  refine Task.Keeps.bind (keeps_createParent fun _ _ _ _ => Or.inl (Disk.stableAt_escaped _))
    fun _ => ?_
  exact keeps_openTemp (Disk.stableAt_escaped _) fileSize

/-- Without faults the calls touch all that they are said to. -/
theorem escaped_prepare (fileSize : ℕ) (hcalm : d.Calm) (h : Disk.Confined dir before d)
    (hnot : ¬Within host dir destPath d.lookup) :
    Disk.Escaped dir before (prepare host destPath fileSize d).2 := by
  obtain ⟨f, hcreate⟩ := createParent_eq host destPath
  rw [prepare, hcreate]
  by_cases hdirs : ∀ loc ∈ Disk.walked d.lookup (dirsOf host destPath),
      d.lookup loc = none → Loc.Inside dir loc
  · have hclear : Clear host destPath d.lookup := by
      by_contra hblocked
      exact hnot ⟨hdirs, fun hclear => absurd hclear hblocked⟩
    have hout : ¬Loc.Inside dir (host.locate (tempOf destPath)) := fun hinside =>
      hnot ⟨hdirs, fun _ => hinside⟩
    obtain ⟨d₁, hrun, -⟩ := Disk.createDirAll_of_clear hcalm hclear
    have hconfined := Disk.confined_createDirAll h hdirs
    rw [hrun] at hconfined
    rw [Task.bind_of_ok (Task.mapErr_of_ok hrun)]
    refine Task.Keeps.after (I := Disk.Escaped dir before) ?_ fun _ =>
      Task.Keeps.mapErr _ (Disk.keeps_setLen (Disk.stableAt_escaped _) _)
    rw [Task.mapErr_snd]
    exact Disk.escaped_openCreate hconfined hout _
  · simp only [not_forall] at hdirs
    obtain ⟨loc, hwalked, hmissing, hout⟩ := hdirs
    have hescaped := Disk.escaped_createDirAll hcalm h hwalked hmissing hout
    refine Task.Keeps.after (I := Disk.Escaped dir before) ?_ fun _ =>
      keeps_openTemp (Disk.stableAt_escaped _) fileSize
    rwa [Task.mapErr_snd]

theorem inside_of_tempOf (h : Loc.Inside dir (host.locate (tempOf destPath))) :
    Loc.Inside dir (host.locate destPath) := by
  cases hname : destPath.fileName with
  | none => simpa [tempOf, Path.withExtension, Path.setExtension, Path.cutExtension, hname] using h
  | some name =>
    rw [Host.locate, Path.locate_of_fileName hname, Loc.inside_concat]
    cases hcut : destPath.cutExtension.fileName with
    | some cut =>
      rwa [Host.locate, tempOf, Path.locate_withExtension hcut, Loc.inside_concat] at h
    | none =>
      rw [Host.locate, tempOf, Path.withExtension_of_none hcut,
        Path.locate_cutExtension hname hcut] at h
      exact h.1.trans (List.dropLast_prefix _)

/-- Beside a temporary file inside a directory the free names lie inside too. -/
theorem inside_uniquePath (h : Loc.Inside dir (host.locate (tempOf destPath))) (d : Disk) :
    Loc.Inside dir (host.locate (uniquePath host d destPath)) := by
  have hdest := inside_of_tempOf h
  have hparent := Path.prefix_parent_of_inside hdest
  unfold uniquePath
  split_ifs
  · dsimp only
    split
    · rwa [Host.locate, Path.locate_child, Loc.inside_concat]
    · rwa [Host.locate, Path.locate_child, Loc.inside_concat]
  · exact hdest

end ChunkWriter

end JustDrop
