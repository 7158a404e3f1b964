import JustDrop.Receive

/-!
# What progress events say

Both ends count bytes and report the count after every chunk. A list of events is
truthful when no report exceeds the size of the transfer and none falls behind the
one before it. A run that only ever adds to its count reports truthfully as long as
the count stays below the size.
-/
namespace JustDrop

def TransferEvent.progressOf : TransferEvent → Option TransferProgress
  | .progress p => some p
  | _ => none

/-- The reports among the events, in their order. -/
def reports (events : List TransferEvent) : List TransferProgress :=
  events.filterMap TransferEvent.progressOf

/-- No report is of more than all bytes, and none of less than the one before it. -/
structure TruthfulReports (events : List TransferEvent) : Prop where
  bounded : ∀ p ∈ reports events, p.bytesTransferred ≤ p.totalBytes
  climbing : (reports events).Pairwise fun p q => p.bytesTransferred ≤ q.bytesTransferred

/-- The events after `before` report a transfer of `total` bytes, climbing to at most
`bytes` of them. -/
def Reported (total bytes : ℕ) (before after : List TransferEvent) : Prop :=
  ∃ added, after = before ++ added ∧
    (∀ p ∈ reports added, p.totalBytes = total ∧ p.bytesTransferred ≤ bytes) ∧
      (reports added).Pairwise fun p q => p.bytesTransferred ≤ q.bytesTransferred

namespace Reported
variable {total bytes bytes' : ℕ} {before after : List TransferEvent}

theorem refl (total bytes : ℕ) (before : List TransferEvent) :
    Reported total bytes before before :=
  ⟨[], (List.append_nil before).symm, by simp [reports], List.Pairwise.nil⟩

theorem mono (h : Reported total bytes before after) (hle : bytes ≤ bytes') :
    Reported total bytes' before after := by
  obtain ⟨added, hafter, hbound, hclimb⟩ := h
  exact ⟨added, hafter, fun p hp => ⟨(hbound p hp).1, (hbound p hp).2.trans hle⟩, hclimb⟩

/-- An event that is no report says nothing. -/
theorem quiet (h : Reported total bytes before after) {event : TransferEvent}
    (hquiet : event.progressOf = none) : Reported total bytes before (after ++ [event]) := by
  obtain ⟨added, rfl, hbound, hclimb⟩ := h
  have hreports : reports (added ++ [event]) = reports added := by
    simp [reports, hquiet]
  refine ⟨added ++ [event], List.append_assoc before added [event], ?_, ?_⟩
  · rwa [hreports]
  · rwa [hreports]

/-- The next report is of a count that has not fallen. -/
theorem progress (h : Reported total bytes before after) {progress : TransferProgress}
    (hle : bytes ≤ progress.bytesTransferred) (htotal : progress.totalBytes = total) :
    Reported total progress.bytesTransferred before (after ++ [.progress progress]) := by
  obtain ⟨added, rfl, hbound, hclimb⟩ := h
  have hreports : reports (added ++ [.progress progress]) = reports added ++ [progress] := by
    simp [reports, TransferEvent.progressOf]
  refine ⟨added ++ [.progress progress], List.append_assoc before added _, ?_, ?_⟩
  · rw [hreports]
    intro p hp
    rcases List.mem_append.mp hp with hp | hp
    · exact ⟨(hbound p hp).1, (hbound p hp).2.trans hle⟩
    · obtain rfl := List.mem_singleton.mp hp
      exact ⟨htotal, le_rfl⟩
  · rw [hreports, List.pairwise_append]
    refine ⟨hclimb, List.pairwise_singleton _ _, ?_⟩
    intro p hp q hq
    obtain rfl := List.mem_singleton.mp hq
    exact (hbound p hp).2.trans hle

/-- A count that stays below the size is reported truthfully. -/
theorem truthful (h : Reported total bytes before after) (hle : bytes ≤ total) :
    ∃ added, after = before ++ added ∧ TruthfulReports added := by
  obtain ⟨added, hafter, hbound, hclimb⟩ := h
  refine ⟨added, hafter, ?_, hclimb⟩
  intro p hp
  obtain ⟨htotal, hbytes⟩ := hbound p hp
  rw [htotal]
  exact hbytes.trans hle

end Reported

/-! ### The data in flight -/

/-- The length of the chunk data, zero for control messages. -/
def Message.dataSize : Message → ℕ
  | .chunkData _ data => data.length
  | _ => 0

/-- The chunk data of several messages together. -/
def dataBytes (messages : List Message) : ℕ := (messages.map Message.dataSize).sum

@[simp] theorem dataBytes_nil : dataBytes [] = 0 := rfl

@[simp] theorem dataBytes_cons (message : Message) (messages : List Message) :
    dataBytes (message :: messages) = message.dataSize + dataBytes messages := rfl

@[simp] theorem dataBytes_append (messages others : List Message) :
    dataBytes (messages ++ others) = dataBytes messages + dataBytes others := by
  simp [dataBytes]

theorem dataBytes_le_of_prefix {messages others : List Message} (h : messages <+: others) :
    dataBytes messages ≤ dataBytes others := by
  obtain ⟨rest, rfl⟩ := h
  rw [dataBytes_append]
  exact Nat.le_add_right _ _

end JustDrop
