import JustDrop.ByteImage
import JustDrop.Rounds
import JustDrop.Task

/-!
# Sending a file region to a socket

Three loops send a region of a file, by two system calls of different contracts and by
a copy through userspace. Each asks the kernel again until the region is out. The
macOS call tells how many bytes went out before it was interrupted; the loop that
starts over without them sends them again. The copy through userspace sends nothing.
-/
namespace JustDrop.Sendfile
open Rounds

inductive Errno where
  | eintr
  | eagain
  | other (code : ℕ)
  deriving DecidableEq, Repr

/-- An answer of the kernel: how many bytes it is willing to move, or an error and how
many bytes went out before it. -/
inductive Reply where
  | moved (n : ℕ)
  | error (e : Errno) (n : ℕ)
  deriving DecidableEq, Repr

structure SendfileResult where
  bytesSent : ℕ
  deriving DecidableEq, Repr

/-- The counters of a loop, and the bytes that reached the socket. -/
structure Sending where
  totalSent : ℕ
  fileOffset : ℕ
  socket : Bytes
  deriving DecidableEq, Repr

/-- What a call moves from a position: nothing behind the end of the file only. -/
def block (file : Bytes) (pos room n : ℕ) : Bytes := (file.drop pos).take (min room (max 1 n))

/-- What went out before an error. -/
def cutBlock (file : Bytes) (pos room n : ℕ) : Bytes := (file.drop pos).take (min room n)

def Sending.advance (s : Sending) (moved : Bytes) : Sending where
  totalSent := s.totalSent + moved.length
  fileOffset := s.fileOffset + moved.length
  socket := s.socket ++ moved

/-- An offset beyond the end of the file is subtracted all the same. -/
def bytesToSend (fileSize offset count : ℕ) : Option ℕ := do
  let rest ← checkedSub fileSize offset
  pure (if count = 0 then rest else min count rest)

/-- How a loop ended decides what is returned. -/
def finish : Ending Sending Errno → Outcome Errno SendfileResult × Bytes
  | .left s => (.ok ⟨s.totalSent⟩, s.socket)
  | .failed e s => (.err e, s.socket)

/-- A loop over the calls, from the counters at the start to the result. -/
def sendWith (turn : ℕ → Sending → Reply → Turn Sending Errno) (file : Bytes)
    (offset count : ℕ) (replies : List Reply) : Option (Outcome Errno SendfileResult × Bytes) :=
  match bytesToSend file.length offset count with
  | none => if replies.isEmpty then some (.panic, []) else none
  | some toSend =>
    (loop (fun s => s.totalSent < toSend) (turn toSend) replies ⟨0, offset, []⟩).map finish

/-- The call advances the offset by what it returns; an error has moved nothing. -/
def linuxTurn (file : Bytes) (toSend : ℕ) (s : Sending) : Reply → Turn Sending Errno
  | .moved n =>
    let moved := block file s.fileOffset (min (toSend - s.totalSent) (1024 * 1024)) n
    if 0 < moved.length then .next (s.advance moved) else .leave s
  | .error e _ => .fail e s

def sendfileLinux (file : Bytes) : ℕ → ℕ → List Reply →
    Option (Outcome Errno SendfileResult × Bytes) :=
  sendWith (linuxTurn file) file

/-- The bytes of an interrupted call are out, but not counted. -/
def macosTurn (file : Bytes) (toSend : ℕ) (s : Sending) : Reply → Turn Sending Errno
  | .moved n =>
    let moved := block file s.fileOffset (min (toSend - s.totalSent) (1024 * 1024)) n
    if moved.length = 0 then .leave s else .next (s.advance moved)
  | .error e n =>
    let moved := cutBlock file s.fileOffset (min (toSend - s.totalSent) (1024 * 1024)) n
    if e = .eintr then .next { s with socket := s.socket ++ moved }
    else if e = .eagain ∧ 0 < moved.length then .next (s.advance moved)
    else .fail e { s with socket := s.socket ++ moved }

def sendfileMacos (file : Bytes) : ℕ → ℕ → List Reply →
    Option (Outcome Errno SendfileResult × Bytes) :=
  sendWith (macosTurn file) file

/-- The bytes are read and counted; what remains is cut to `usize` first. -/
def fallbackTurn (usizeBits : ℕ) (file : Bytes) (toSend : ℕ) (s : Sending) :
    Reply → Turn Sending Errno
  | .moved n =>
    let toRead := min ((toSend - s.totalSent) % 2 ^ usizeBits) (256 * 1024)
    let got := block file s.fileOffset toRead n
    if got.length = 0 then .leave s
    else .next { s.advance got with socket := s.socket }
  | .error e _ => .fail e s

def sendfileFallback (usizeBits : ℕ) (file : Bytes) : ℕ → ℕ → List Reply →
    Option (Outcome Errno SendfileResult × Bytes) :=
  sendWith (fallbackTurn usizeBits file) file

/-! ### What a call should send -/

/-- What is asked for and there. -/
def wanted (fileSize offset count : ℕ) : ℕ :=
  if count = 0 then fileSize - offset else min count (fileSize - offset)

/-- A call that returns has sent the region that it should, in order and once, and no
call underflows. -/
def Exact (file : Bytes) (offset count : ℕ) : Outcome Errno SendfileResult × Bytes → Prop
  | (.ok result, socket) => socket = (file.drop offset).take result.bytesSent ∧
      result.bytesSent = wanted file.length offset count
  | (.err _, _) => True
  | (.panic, _) => False

/-- An interruption behind bytes that are out. -/
def Reply.Repeats : Reply → Prop
  | .error .eintr n => 0 < n
  | _ => False

/-- An answer with which the macOS loop gives up. -/
def Reply.MacosFails : Reply → Prop
  | .error .eagain n => n = 0
  | .error (.other _) _ => True
  | _ => False

theorem Reply.Repeats.not_macosFails {a : Reply} (h : a.Repeats) : ¬a.MacosFails := by
  cases a with
  | moved n => exact not_false
  | error e n =>
    cases e with
    | eintr => exact not_false
    | eagain => exact h.elim
    | other code => exact h.elim

def Reply.IsError : Reply → Prop
  | .error _ _ => True
  | .moved _ => False

theorem wanted_le (fileSize offset count : ℕ) : wanted fileSize offset count ≤ fileSize - offset := by
  unfold wanted
  split_ifs <;> omega

theorem bytesToSend_of_le {fileSize offset : ℕ} (h : offset ≤ fileSize) (count : ℕ) :
    bytesToSend fileSize offset count = some (wanted fileSize offset count) := by
  have hrest : checkedSub fileSize offset = some (fileSize - offset) :=
    checkedSub_eq_some.mpr ⟨h, rfl⟩
  rw [bytesToSend, hrest]
  rfl

theorem bytesToSend_of_lt {fileSize offset : ℕ} (h : fileSize < offset) (count : ℕ) :
    bytesToSend fileSize offset count = none := by
  rw [bytesToSend, checkedSub, if_neg (by omega)]
  rfl

/-! ### Following the file -/

section Loops
variable {file : Bytes} {offset toSend count : ℕ} {s s' : Sending} {replies : List Reply}
  {result : Outcome Errno SendfileResult × Bytes}

/-- The counters are at one place of a region that the file has. -/
structure Following (file : Bytes) (offset toSend : ℕ) (s : Sending) : Prop where
  inside : offset + toSend ≤ file.length
  within : s.totalSent ≤ toSend
  position : s.fileOffset = offset + s.totalSent

theorem following_start (h : offset ≤ file.length) (count : ℕ) :
    Following file offset (wanted file.length offset count) ⟨0, offset, []⟩ := by
  have hle := wanted_le file.length offset count
  exact ⟨by omega, Nat.zero_le _, rfl⟩

/-- Where something is left to send, a call moves something. -/
theorem Following.length_block (h : Following file offset toSend s)
    (hgo : s.totalSent < toSend) {room : ℕ} (hroom : 0 < room)
    (hle : room ≤ toSend - s.totalSent) (n : ℕ) :
    0 < (block file s.fileOffset room n).length ∧
      (block file s.fileOffset room n).length ≤ toSend - s.totalSent := by
  have hinside := h.inside
  rw [block, List.length_take, List.length_drop, h.position]
  omega

/-- An error lets through as much as it says. -/
theorem Following.length_cutBlock (h : Following file offset toSend s)
    (hgo : s.totalSent < toSend) {room : ℕ} (hroom : 0 < room)
    (hle : room ≤ toSend - s.totalSent) (n : ℕ) :
    (0 < (cutBlock file s.fileOffset room n).length ↔ 0 < n) ∧
      (cutBlock file s.fileOffset room n).length ≤ toSend - s.totalSent := by
  have hinside := h.inside
  rw [cutBlock, List.length_take, List.length_drop, h.position]
  omega

theorem Following.advance (h : Following file offset toSend s) {moved : Bytes}
    (hmoved : moved.length ≤ toSend - s.totalSent) :
    Following file offset toSend (s.advance moved) := by
  have hwithin := h.within
  have hposition := h.position
  refine ⟨h.inside, ?_, ?_⟩
  · show s.totalSent + moved.length ≤ toSend
    omega
  · show s.fileOffset + moved.length = offset + (s.totalSent + moved.length)
    omega

/-- The bytes on the socket are no part of it. -/
theorem Following.withSocket (h : Following file offset toSend s) (socket : Bytes) :
    Following file offset toSend { s with socket } := ⟨h.inside, h.within, h.position⟩

/-- What is counted is out, in order and once. -/
def Faithful (file : Bytes) (offset : ℕ) (s : Sending) : Prop :=
  s.socket = (file.drop offset).take s.totalSent

theorem Faithful.advance (h : Faithful file offset s) (hfollows : Following file offset toSend s)
    (room : ℕ) : Faithful file offset (s.advance ((file.drop s.fileOffset).take room)) := by
  show s.socket ++ (file.drop s.fileOffset).take room = (file.drop offset).take
    (s.totalSent + ((file.drop s.fileOffset).take room).length)
  rw [h, hfollows.position, ← List.drop_drop, List.take_add]
  congr 1
  rw [List.take_eq_take_iff, List.length_take]
  omega

/-- A loop that has sent all it should, faithfully, is exact. -/
theorem exact_of_faithful (hfaithful : Faithful file offset s)
    (hall : s.totalSent = wanted file.length offset count) :
    Exact file offset count (.ok ⟨s.totalSent⟩, s.socket) := ⟨hfaithful, hall⟩

variable {turn : ℕ → Sending → Reply → Turn Sending Errno}

theorem sendWith_of_lt (h : file.length < offset)
    (hsend : sendWith turn file offset count replies = some result) : result = (.panic, []) := by
  rw [sendWith, bytesToSend_of_lt h] at hsend
  simp only at hsend
  split_ifs at hsend
  exact (Option.some.inj hsend).symm

theorem sendWith_of_le (h : offset ≤ file.length)
    (hsend : sendWith turn file offset count replies = some result) :
    ∃ ending, loop (fun s => s.totalSent < wanted file.length offset count)
      (turn (wanted file.length offset count)) replies ⟨0, offset, []⟩ = some ending ∧
      result = finish ending := by
  rw [sendWith, bytesToSend_of_le h] at hsend
  obtain ⟨ending, hending, hresult⟩ := Option.map_eq_some_iff.mp hsend
  exact ⟨ending, hending, hresult.symm⟩

/-- Beyond the end of the file no call is exact. -/
theorem le_of_exact (hsend : sendWith turn file offset count replies = some result)
    (hexact : Exact file offset count result) : offset ≤ file.length := by
  by_contra hlt
  rw [sendWith_of_lt (not_le.mp hlt) hsend] at hexact
  exact hexact

/-- The loop goes on while the count is below the region. -/
theorem lt_of_goes (hgo : (fun s : Sending => decide (s.totalSent < toSend)) s = true) :
    s.totalSent < toSend := of_decide_eq_true hgo

theorem Following.eq_of_stops (h : Following file offset toSend s)
    (hstop : (fun s : Sending => decide (s.totalSent < toSend)) s = false) :
    s.totalSent = toSend :=
  le_antisymm h.within (not_lt.mp (of_decide_eq_false hstop))

theorem exact_iff_of_inside {C : Prop}
    (hsend : sendWith turn file offset count replies = some result)
    (h : offset ≤ file.length → (Exact file offset count result ↔ C)) :
    Exact file offset count result ↔ offset ≤ file.length ∧ C := by
  constructor
  · intro hexact
    have hle := le_of_exact hsend hexact
    exact ⟨hle, (h hle).mp hexact⟩
  · intro hcases
    exact (h hcases.1).mpr hcases.2

/-! ### Linux -/

theorem linuxTurn_moved (h : Following file offset toSend s) (hgo : s.totalSent < toSend)
    (n : ℕ) : ∃ room, linuxTurn file toSend s (.moved n) =
        .next (s.advance ((file.drop s.fileOffset).take room)) ∧
      ((file.drop s.fileOffset).take room).length ≤ toSend - s.totalSent := by
  obtain ⟨hpos, hle⟩ := h.length_block hgo
    (by omega : 0 < min (toSend - s.totalSent) (1024 * 1024)) (min_le_left _ _) n
  exact ⟨_, if_pos hpos, hle⟩

/-- A call of Linux inside the file sends exactly its region. -/
theorem exact_linux (hoffset : offset ≤ file.length)
    (hsend : sendfileLinux file offset count replies = some result) :
    Exact file offset count result := by
  obtain ⟨ending, hloop, rfl⟩ := sendWith_of_le hoffset hsend
  have hreached := reached
    (I := fun _ s => Following file offset (wanted file.length offset count) s ∧
      Faithful file offset s)
    ⟨following_start hoffset count, rfl⟩ (fun seen s a s' hs hgo hturn => by
      cases a with
      | error e n => simp [linuxTurn] at hturn
      | moved n =>
        obtain ⟨room, hmoved, hle⟩ := linuxTurn_moved hs.1 (lt_of_goes hgo) n
        rw [hmoved] at hturn
        obtain rfl := Turn.next.inj hturn
        exact ⟨hs.1.advance hle, hs.2.advance hs.1 room⟩) hloop
  cases hreached with
  | done hs hstop => exact exact_of_faithful hs.2 (hs.1.eq_of_stops hstop)
  | @left seen s a s' hs hgo hlast hall =>
    cases a with
    | error e n => simp [linuxTurn] at hlast
    | moved n =>
      obtain ⟨room, hmoved, -⟩ := linuxTurn_moved hs.1 (lt_of_goes hgo) n
      rw [hmoved] at hlast
      simp at hlast
  | failed hs hgo hlast hall => exact trivial

/-! ### macOS -/

theorem macosTurn_moved (h : Following file offset toSend s) (hgo : s.totalSent < toSend)
    (n : ℕ) : ∃ room, macosTurn file toSend s (.moved n) =
        .next (s.advance ((file.drop s.fileOffset).take room)) ∧
      ((file.drop s.fileOffset).take room).length ≤ toSend - s.totalSent := by
  obtain ⟨hpos, hle⟩ := h.length_block hgo
    (by omega : 0 < min (toSend - s.totalSent) (1024 * 1024)) (min_le_left _ _) n
  exact ⟨_, if_neg hpos.ne', hle⟩

/-- A round of the macOS loop: bytes are sent and counted, or sent and not counted, or
the loop gives up. -/
inductive MacosRound (file : Bytes) (toSend : ℕ) (s : Sending) : Reply → Turn Sending Errno → Prop
  | counted {a} (room : ℕ)
      (hle : ((file.drop s.fileOffset).take room).length ≤ toSend - s.totalSent)
      (hcounts : ¬a.Repeats) (hgoes : ¬a.MacosFails) :
      MacosRound file toSend s a (.next (s.advance ((file.drop s.fileOffset).take room)))
  | repeated {a} (moved : Bytes) (hpos : 0 < moved.length) (hrepeats : a.Repeats) :
      MacosRound file toSend s a (.next { s with socket := s.socket ++ moved })
  | failed {a} (e : Errno) (s' : Sending) (hfails : a.MacosFails) :
      MacosRound file toSend s a (.fail e s')

theorem macosRound (h : Following file offset toSend s) (hgo : s.totalSent < toSend)
    (a : Reply) : MacosRound file toSend s a (macosTurn file toSend s a) := by
  have hroom : 0 < min (toSend - s.totalSent) (1024 * 1024) := by omega
  cases a with
  | moved n =>
    obtain ⟨room, hmoved, hle⟩ := macosTurn_moved h hgo n
    rw [hmoved]
    exact .counted room hle not_false not_false
  | error e n =>
    obtain ⟨hpos, hle⟩ := h.length_cutBlock hgo hroom (min_le_left _ _) n
    cases e with
    | eintr =>
      rw [macosTurn, if_pos rfl]
      by_cases hn : 0 < n
      · exact .repeated _ (hpos.mpr hn) hn
      · have hnone : cutBlock file s.fileOffset (min (toSend - s.totalSent) (1024 * 1024)) n =
            [] := List.eq_nil_of_length_eq_zero (by omega)
        have hsame : { s with socket := s.socket ++ [] } =
            s.advance ((file.drop s.fileOffset).take 0) := by simp [Sending.advance]
        rw [hnone, hsame]
        exact .counted 0 (Nat.zero_le _) hn not_false
    | eagain =>
      rw [macosTurn, if_neg (by simp)]
      by_cases hn : 0 < n
      · rw [if_pos ⟨rfl, hpos.mpr hn⟩]
        exact .counted _ hle not_false hn.ne'
      · rw [if_neg fun hmoved => hn (hpos.mp hmoved.2)]
        exact .failed _ _ (Nat.eq_zero_of_not_pos hn)
    | other code =>
      rw [macosTurn, if_neg (by simp), if_neg (by simp)]
      exact .failed _ _ trivial

/-- The macOS loop behind some answers: none made it give up, and the socket has what is
counted, or more than that where bytes were repeated. -/
structure MacosSending (file : Bytes) (offset toSend : ℕ) (seen : List Reply) (s : Sending) :
    Prop where
  follows : Following file offset toSend s
  goes : ∀ a ∈ seen, ¬a.MacosFails
  sends : (∀ a ∈ seen, ¬a.Repeats) ∧ Faithful file offset s ∨
    (∃ a ∈ seen, a.Repeats) ∧ s.totalSent < s.socket.length

theorem Faithful.length_socket (h : Faithful file offset s)
    (hfollows : Following file offset toSend s) : s.socket.length = s.totalSent := by
  have hinside := hfollows.inside
  have hwithin := hfollows.within
  rw [h, List.length_take, List.length_drop]
  omega

theorem MacosSending.next {seen : List Reply} {a : Reply}
    (h : MacosSending file offset toSend seen s) (hgo : s.totalSent < toSend)
    (hturn : macosTurn file toSend s a = .next s') :
    MacosSending file offset toSend (seen ++ [a]) s' := by
  have hround := macosRound h.follows hgo a
  rw [hturn] at hround
  cases hround with
  | counted room hle hcounts hgoes =>
    refine ⟨h.follows.advance hle, forall_mem_concat h.goes hgoes, ?_⟩
    rcases h.sends with ⟨hnone, hfaithful⟩ | ⟨hsome, hmore⟩
    · exact Or.inl ⟨forall_mem_concat hnone hcounts, hfaithful.advance h.follows room⟩
    · obtain ⟨b, hb, hrepeats⟩ := hsome
      refine Or.inr ⟨⟨b, List.mem_append_left _ hb, hrepeats⟩, ?_⟩
      simp only [Sending.advance, List.length_append]
      omega
  | repeated moved hpos hrepeats =>
    refine ⟨h.follows.withSocket _, forall_mem_concat h.goes hrepeats.not_macosFails,
      Or.inr ⟨⟨a, by simp, hrepeats⟩, ?_⟩⟩
    show s.totalSent < (s.socket ++ moved).length
    rw [List.length_append]
    rcases h.sends with ⟨-, hfaithful⟩ | ⟨-, hmore⟩
    · have hlength := hfaithful.length_socket h.follows
      omega
    · omega

/-- A call of macOS inside the file is exact when it fails or repeats nothing. -/
theorem exact_macos_iff (hoffset : offset ≤ file.length)
    (hsend : sendfileMacos file offset count replies = some result) :
    Exact file offset count result ↔
      (∃ a ∈ replies, a.MacosFails) ∨ ∀ a ∈ replies, ¬a.Repeats := by
  obtain ⟨ending, hloop, rfl⟩ := sendWith_of_le hoffset hsend
  have hreached := reached (I := MacosSending file offset (wanted file.length offset count))
    ⟨following_start hoffset count, by simp, Or.inl ⟨by simp, rfl⟩⟩
    (fun seen s a s' hs hgo hturn => hs.next (lt_of_goes hgo) hturn) hloop
  cases hreached with
  | @done s hs hstop =>
    have hall := hs.follows.eq_of_stops hstop
    rcases hs.sends with ⟨hnone, hfaithful⟩ | ⟨⟨a, ha, hrepeats⟩, hmore⟩
    · exact iff_of_true (exact_of_faithful hfaithful hall) (Or.inr hnone)
    · refine iff_of_false (fun hexact => ?_) (fun hcases => ?_)
      · have hlength : s.socket.length = ((file.drop offset).take s.totalSent).length :=
          congrArg List.length hexact.1
        rw [List.length_take] at hlength
        omega
      · rcases hcases with ⟨b, hb, hfails⟩ | hnone
        · exact hs.goes b hb hfails
        · exact hnone a ha hrepeats
  | @left seen s a s' hs hgo hlast hall =>
    have hround := macosRound hs.follows (lt_of_goes hgo) a
    rw [hlast] at hround
    cases hround
  | @failed seen s a e s' hs hgo hlast hall =>
    have hround := macosRound hs.follows (lt_of_goes hgo) a
    rw [hlast] at hround
    cases hround with
    | failed _ _ hfails => exact iff_of_true trivial (Or.inl ⟨a, by simp [hall], hfails⟩)

/-! ### The copy through userspace -/

/-- The copy behind some answers: nothing is out. -/
structure CopySending (file : Bytes) (offset toSend : ℕ) (seen : List Reply) (s : Sending) :
    Prop where
  follows : Following file offset toSend s
  reads : ∀ a ∈ seen, ¬a.IsError
  silent : s.socket = []

theorem CopySending.next {usizeBits : ℕ} {seen : List Reply} {a : Reply}
    (h : CopySending file offset toSend seen s)
    (hturn : fallbackTurn usizeBits file toSend s a = .next s') :
    CopySending file offset toSend (seen ++ [a]) s' := by
  cases a with
  | error e n => simp [fallbackTurn] at hturn
  | moved n =>
    simp only [fallbackTurn] at hturn
    split_ifs at hturn with hnone
    obtain rfl := Turn.next.inj hturn
    have hmod := Nat.mod_le (toSend - s.totalSent) (2 ^ usizeBits)
    have hle : (block file s.fileOffset
        (min ((toSend - s.totalSent) % 2 ^ usizeBits) (256 * 1024)) n).length ≤
          toSend - s.totalSent := by
      rw [block, List.length_take]
      omega
    exact ⟨(h.follows.advance hle).withSocket _, forall_mem_concat h.reads not_false, h.silent⟩

theorem wanted_eq_zero_iff (hoffset : offset ≤ file.length) (count : ℕ) :
    wanted file.length offset count = 0 ↔ offset = file.length := by
  unfold wanted
  split_ifs <;> omega

/-- A copy inside the file is exact when a read fails or nothing is there to send. -/
theorem exact_fallback_iff {usizeBits : ℕ} (hoffset : offset ≤ file.length)
    (hsend : sendfileFallback usizeBits file offset count replies = some result) :
    Exact file offset count result ↔ (∃ a ∈ replies, a.IsError) ∨ offset = file.length := by
  obtain ⟨ending, hloop, rfl⟩ := sendWith_of_le hoffset hsend
  have hreached := reached (I := CopySending file offset (wanted file.length offset count))
    ⟨following_start hoffset count, by simp, rfl⟩
    (fun seen s a s' hs hgo hturn => hs.next hturn) hloop
  have hwanted := wanted_eq_zero_iff hoffset count
  have hle := wanted_le file.length offset count
  cases hreached with
  | @done s hs hstop =>
    have hall : s.totalSent = wanted file.length offset count :=
      hs.follows.eq_of_stops hstop
    rw [← hwanted]
    constructor
    · intro hexact
      have hlength : s.socket.length = ((file.drop offset).take s.totalSent).length :=
        congrArg List.length hexact.1
      rw [hs.silent, List.length_take, List.length_drop, List.length_nil] at hlength
      right
      omega
    · rintro (⟨a, ha, herror⟩ | hzero)
      · exact absurd herror (hs.reads a ha)
      · refine ⟨?_, hall⟩
        rw [hs.silent, hall, hzero, List.take_zero]
  | @left seen s a s' hs hgo hlast hall =>
    have hlt : s.totalSent < wanted file.length offset count := lt_of_goes hgo
    cases a with
    | error e n => simp [fallbackTurn] at hlast
    | moved n =>
      simp only [fallbackTurn] at hlast
      split_ifs at hlast with hnone
      obtain rfl := Turn.leave.inj hlast
      refine iff_of_false (fun hexact => hlt.ne hexact.2) ?_
      rintro (⟨a, ha, herror⟩ | hend)
      · rw [hall, List.mem_append, List.mem_singleton] at ha
        rcases ha with ha | rfl
        · exact hs.reads a ha herror
        · exact herror
      · have hzero := hwanted.mpr hend
        omega
  | @failed seen s a e s' hs hgo hlast hall =>
    cases a with
    | moved n =>
      simp only [fallbackTurn] at hlast
      split_ifs at hlast
    | error e n => exact iff_of_true trivial (Or.inl ⟨.error e n, by simp [hall], trivial⟩)

end Loops

/-- On every platform a call is exact inside the file only: always on Linux, on macOS
when it fails or repeats nothing, and as a copy when it fails or there is nothing to
send. -/
theorem exact_iff (file : Bytes) (offset count : ℕ) (replies : List Reply)
    (result : Outcome Errno SendfileResult × Bytes) :
    (sendfileLinux file offset count replies = some result →
      (Exact file offset count result ↔ offset ≤ file.length)) ∧
    (sendfileMacos file offset count replies = some result →
      (Exact file offset count result ↔ offset ≤ file.length ∧
        ((∃ a ∈ replies, a.MacosFails) ∨ ∀ a ∈ replies, ¬a.Repeats))) ∧
    ∀ usizeBits, sendfileFallback usizeBits file offset count replies = some result →
      (Exact file offset count result ↔ offset ≤ file.length ∧
        ((∃ a ∈ replies, a.IsError) ∨ offset = file.length)) := by
  refine ⟨fun hsend => ?_, fun hsend => ?_, fun usizeBits hsend => ?_⟩
  · exact ⟨le_of_exact hsend, fun hle => exact_linux hle hsend⟩
  · exact exact_iff_of_inside hsend fun hle => exact_macos_iff hle hsend
  · exact exact_iff_of_inside hsend fun hle => exact_fallback_iff hle hsend

/-- The first byte goes out before an interruption. -/
def interrupted : List Reply := [.error .eintr 1, .moved 2]

theorem sendfileMacos_interrupted :
    sendfileMacos [1, 2] 0 0 interrupted = some (.ok ⟨2⟩, [1, 1, 2]) := by decide

theorem exact_iff_interrupted : ¬Exact [1, 2] 0 0 (.ok ⟨2⟩, [1, 1, 2]) ∧
    Exact [1, 2] 0 0 (.ok ⟨2⟩, [1, 2]) ∧ ¬Exact [1, 2] 0 0 (.ok ⟨2⟩, []) := by
  have hmacos := (exact_iff [1, 2] 0 0 interrupted _).2.1 sendfileMacos_interrupted
  have hlinux := (exact_iff [1, 2] 0 0 [.moved 2] (.ok ⟨2⟩, [1, 2])).1 (by decide)
  have hfallback := (exact_iff [1, 2] 0 0 [.moved 2] (.ok ⟨2⟩, [])).2.2 64 (by decide)
  refine ⟨hmacos.not.mpr fun h => ?_, hlinux.mpr (by decide), hfallback.not.mpr fun h => ?_⟩
  · rcases h.2 with ⟨a, ha, hfails⟩ | hnone
    · simp only [interrupted, List.mem_cons, List.not_mem_nil, or_false] at ha
      rcases ha with rfl | rfl <;> exact hfails
    · exact hnone (.error .eintr 1) List.mem_cons_self one_pos
  · rcases h.2 with ⟨a, ha, herror⟩ | hend
    · obtain rfl := List.mem_singleton.mp ha
      exact herror
    · exact absurd hend (by decide)

/-- The interrupted call on macOS sends the first byte twice. -/
theorem not_exact : ¬∀ (file : Bytes) (offset count : ℕ) (replies : List Reply)
    (result : Outcome Errno SendfileResult × Bytes),
    (sendfileLinux file offset count replies = some result → Exact file offset count result) ∧
    (sendfileMacos file offset count replies = some result → Exact file offset count result) ∧
    ∀ usizeBits, sendfileFallback usizeBits file offset count replies = some result →
      Exact file offset count result := by
  intro h
  have hexact := (h [1, 2] 0 0 interrupted _).2.1 sendfileMacos_interrupted
  exact absurd hexact.1 (by decide)

end JustDrop.Sendfile
