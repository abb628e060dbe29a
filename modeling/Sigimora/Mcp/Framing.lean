import Sigimora.Library.ByteStream
import Sigimora.Library.ByteString
import Sigimora.Mcp.Error

/-!
# Frames

A message is sent behind its length in four bytes. The length is cut down to these
before it is compared with the limit, so that a message of four gigabytes or more
can pass as a short one.
-/

namespace Sigimora.Mcp

open ByteStream

/-- The length of the longest message. -/
def maxMsgSize : UInt32 := 1048576

/-- Write the length of the data, the data, and flush. -/
def writeFramed (data : List UInt8) : Stateful Sink McpError Unit := do
  let len := UInt32.ofNat data.length
  if len > maxMsgSize then Stateful.fail (.networkError "message too large")
  else
    Stateful.mapErr (fun e => .networkError s!"write length: {e}")
      (writeAll (ByteString.bigEndian 4 len.toNat))
    Stateful.mapErr (fun e => .networkError s!"write data: {e}") (writeAll data)
    Stateful.mapErr (fun e => .networkError s!"flush: {e}") flush

/-- Read a length and as many bytes. -/
def readFramed : Stateful (List UInt8) McpError (List UInt8) := do
  let lenBuf ← Stateful.mapErr (fun e => .networkError s!"read length: {e}") (readExact 4)
  let len := UInt32.ofNat (ByteString.ofBigEndian lenBuf)
  if len > maxMsgSize then Stateful.fail (.networkError "message too large")
  else Stateful.mapErr (fun e => .networkError s!"read data: {e}") (readExact len.toNat)

/-- Write messages in turn. -/
def writeMessages : List (List UInt8) → Stateful Sink McpError Unit
  | [] => pure ()
  | data :: rest => do
    writeFramed data
    writeMessages rest

/-- Read that many messages in turn. -/
def readMessages : ℕ → Stateful (List UInt8) McpError (List (List UInt8))
  | 0 => pure []
  | k + 1 => do
    let data ← readFramed
    let rest ← readMessages k
    return data :: rest

/-- The bytes of a message on the stream. -/
def frame (data : List UInt8) : List UInt8 :=
  ByteString.bigEndian 4 (data.length % 2 ^ 32) ++ data

/-- Whether a message passes the comparison with the limit. -/
def Passes (data : List UInt8) : Prop := data.length % 2 ^ 32 ≤ maxMsgSize.toNat

variable {data source rest : List UInt8} {messages : List (List UInt8)} {sink sink' : Sink}

/-! ## One message -/

/-- The length in 32 bits is too large just if the frame does not pass. -/
theorem len_gt_iff : UInt32.ofNat data.length > maxMsgSize ↔ ¬ Passes data := by
  rw [gt_iff_lt, UInt32.lt_iff_toNat_lt, UInt32.toNat_ofNat', Passes, not_le]

/-- A message that does not pass is refused, and nothing is written. -/
theorem writeFramed_of_not_passes (h : ¬ Passes data) (sink : Sink) :
    writeFramed data sink = (Outcome.fail (.networkError "message too large"), sink) := by
  unfold writeFramed
  rw [if_pos (len_gt_iff.mpr h)]
  rfl

/-- A frame is written whole just if it passes and none of its three writes fails. -/
theorem writeFramed_eq_ok_iff : writeFramed data sink = (.ok (), sink') ↔
    Passes data ∧ (∀ i < 3, sink.faults i = none) ∧
      sink' = ⟨sink.written ++ frame data, sink.faults.drop 3⟩ := by
  by_cases hpasses : Passes data
  · have hfaults : (∀ i < 3, sink.faults i = none) ↔
        sink.faults 0 = none ∧ sink.faults 1 = none ∧ sink.faults 2 = none := by
      constructor
      · intro h
        exact ⟨h 0 (by decide), h 1 (by decide), h 2 (by decide)⟩
      · rintro ⟨h0, h1, h2⟩ i hi
        interval_cases i
        · exact h0
        · exact h1
        · exact h2
    have hwritten : (⟨sink.written ++ ByteString.bigEndian 4 (UInt32.ofNat data.length).toNat ++
        data, ((sink.faults.drop 1).drop 1).drop 1⟩ : Sink) =
        ⟨sink.written ++ frame data, sink.faults.drop 3⟩ := by
      rw [UInt32.toNat_ofNat', List.append_assoc, Program.Faults.drop_drop,
        Program.Faults.drop_drop, frame]
    rw [and_iff_right hpasses, hfaults]
    unfold writeFramed
    rw [if_neg (fun hlong => len_gt_iff.mp hlong hpasses)]
    simp only [Stateful.bind_run_eq_ok, Stateful.mapErr_run_eq_ok, writeAll_eq_ok_iff,
      flush_eq_ok_iff]
    constructor
    · rintro ⟨_, _, ⟨h0, rfl⟩, _, _, ⟨h1, rfl⟩, h2, rfl⟩
      exact ⟨⟨h0, h1, h2⟩, hwritten⟩
    · rintro ⟨⟨h0, h1, h2⟩, rfl⟩
      exact ⟨(), _, ⟨h0, rfl⟩, (), _, ⟨h1, rfl⟩, h2, hwritten.symm⟩
  · refine iff_of_false ?_ fun h => hpasses h.1
    rw [writeFramed_of_not_passes hpasses]
    exact fun h => by cases (Prod.mk.inj h).1

/-- What is read is a short message, and the rest of the stream stays. -/
theorem readFramed_eq_ok_iff : readFramed source = (.ok data, rest) ↔
    data.length ≤ maxMsgSize.toNat ∧
      source = ByteString.bigEndian 4 data.length ++ data ++ rest := by
  have hlen {n : ℕ} (hn : n < 256 ^ 4) : (UInt32.ofNat n).toNat = n := by
    rw [UInt32.toNat_ofNat']
    exact Nat.mod_eq_of_lt (lt_of_lt_of_le hn (by decide))
  unfold readFramed
  simp only [Stateful.bind_run_eq_ok, Stateful.mapErr_run_eq_ok, readExact_eq_ok_iff]
  constructor
  · rintro ⟨lenBuf, next, ⟨hfour, rfl⟩, h⟩
    have hn : ByteString.ofBigEndian lenBuf < 256 ^ 4 := hfour ▸ ByteString.ofBigEndian_lt lenBuf
    have hbytes := ByteString.bigEndian_ofBigEndian lenBuf
    split at h
    · cases h
    · next hshort =>
      obtain ⟨hdata, rfl⟩ := readExact_eq_ok_iff.mp (Stateful.mapErr_run_eq_ok.mp h)
      rw [gt_iff_lt, UInt32.lt_iff_toNat_lt, not_lt, ← hdata] at hshort
      rw [hlen hn] at hdata
      rw [hfour, ← hdata] at hbytes
      rw [hbytes, List.append_assoc]
      exact ⟨hshort, rfl⟩
  · rintro ⟨hshort, rfl⟩
    have hn : data.length < 256 ^ 4 := lt_of_le_of_lt hshort (by decide)
    refine ⟨_, data ++ rest, ⟨ByteString.length_bigEndian 4 data.length, ?_⟩, ?_⟩
    · rw [List.append_assoc]
    · rw [ByteString.ofBigEndian_bigEndian_of_lt hn, if_neg, Stateful.mapErr_run_eq_ok,
        readExact_eq_ok_iff, hlen hn]
      · exact ⟨rfl, rfl⟩
      · rw [gt_iff_lt, UInt32.lt_iff_toNat_lt, not_lt, hlen hn]
        exact hshort

/-! ## Sequences of messages -/

/-- If all writes succeed, all the messages pass and their frames are written in order. -/
theorem writeMessages_eq_ok (h : writeMessages messages sink = (.ok (), sink')) :
    (∀ data ∈ messages, Passes data) ∧
      sink'.written = sink.written ++ messages.flatMap frame := by
  induction messages generalizing sink with
  | nil =>
    cases h
    simp
  | cons data messages ih =>
    obtain ⟨_, next, hdata, hrest⟩ := Stateful.bind_run_eq_ok.mp h
    obtain ⟨hpasses, _, rfl⟩ := writeFramed_eq_ok_iff.mp hdata
    obtain ⟨hmessages, hwritten⟩ := ih hrest
    refine ⟨List.forall_mem_cons.mpr ⟨hpasses, hmessages⟩, ?_⟩
    rw [hwritten, List.flatMap_cons, List.append_assoc]

/-- On a sink without faults messages that pass are written. -/
theorem exists_writeMessages (h : ∀ data ∈ messages, Passes data) (written : List UInt8) :
    ∃ sink, writeMessages messages ⟨written, Program.Faults.never⟩ = (.ok (), sink) := by
  induction messages generalizing written with
  | nil => exact ⟨_, rfl⟩
  | cons data messages ih =>
    obtain ⟨hpasses, hmessages⟩ := List.forall_mem_cons.mp h
    obtain ⟨sink, hsink⟩ := ih hmessages (written ++ frame data)
    refine ⟨sink, Stateful.bind_run_eq_ok.mpr ⟨(), _, ?_, hsink⟩⟩
    exact writeFramed_eq_ok_iff.mpr ⟨hpasses, fun _ _ => rfl, rfl⟩

/-- Messages that are read are short. -/
theorem length_le_of_readMessages {k : ℕ} (h : readMessages k source = (.ok messages, rest)) :
    ∀ data ∈ messages, data.length ≤ maxMsgSize.toNat := by
  induction k generalizing source messages with
  | zero =>
    cases h
    exact nofun
  | succ k ih =>
    obtain ⟨data, next, hdata, hrest⟩ := Stateful.bind_run_eq_ok.mp h
    obtain ⟨others, last, hothers, hcons⟩ := Stateful.bind_run_eq_ok.mp hrest
    cases hcons
    exact List.forall_mem_cons.mpr ⟨(readFramed_eq_ok_iff.mp hdata).1, ih hothers⟩

/-- The frames of short messages are read as these messages. -/
theorem readMessages_frames (h : ∀ data ∈ messages, data.length ≤ maxMsgSize.toNat) :
    readMessages messages.length (messages.flatMap frame) = (.ok messages, []) := by
  induction messages with
  | nil => rfl
  | cons data messages ih =>
    obtain ⟨hdata, hmessages⟩ := List.forall_mem_cons.mp h
    have hframe : frame data = ByteString.bigEndian 4 data.length ++ data := by
      rw [frame, Nat.mod_eq_of_lt (lt_of_le_of_lt hdata (by decide))]
    refine Stateful.bind_run_eq_ok.mpr ⟨data, messages.flatMap frame, ?_, ?_⟩
    · rw [readFramed_eq_ok_iff, List.flatMap_cons, hframe]
      exact ⟨hdata, rfl⟩
    · exact Stateful.bind_run_eq_ok.mpr ⟨messages, [], ih hmessages, rfl⟩

/-- Messages that were written in turn on a new stream are what is read from it. -/
def Delivered (messages : List (List UInt8)) : Prop :=
  ∀ faults sink, writeMessages messages ⟨[], faults⟩ = (.ok (), sink) →
    readMessages messages.length sink.written = (.ok messages, [])

/-- A message above the limit is refused, and nothing is written. -/
def RefusedIfLong (data : List UInt8) : Prop :=
  maxMsgSize.toNat < data.length → ∀ sink, ∃ e, writeFramed data sink = (.error (.err e), sink)

/-- Messages are delivered just if one of them is refused or all are short enough. -/
theorem delivered_iff : Delivered messages ↔
    (∃ data ∈ messages, ¬ Passes data) ∨ ∀ data ∈ messages, data.length < 2 ^ 32 := by
  by_cases hpasses : ∀ data ∈ messages, Passes data
  · have hnone : ¬ ∃ data ∈ messages, ¬ Passes data := by
      push Not
      exact hpasses
    rw [or_iff_right hnone]
    constructor
    · intro h data hdata
      obtain ⟨sink, hsink⟩ := exists_writeMessages hpasses []
      exact lt_of_le_of_lt (length_le_of_readMessages (h _ sink hsink) data hdata) (by decide)
    · intro hshort faults sink hsink
      rw [(writeMessages_eq_ok hsink).2, List.nil_append]
      refine readMessages_frames fun data hdata => ?_
      have hsame := hpasses data hdata
      rwa [Passes, Nat.mod_eq_of_lt (hshort data hdata)] at hsame
  · refine iff_of_true ?_ (Or.inl ?_)
    · intro faults sink hsink
      exact absurd (writeMessages_eq_ok hsink).1 hpasses
    · push Not at hpasses
      exact hpasses

/-- A long message is refused just if its length in 32 bits is too large as well. -/
theorem refusedIfLong_iff : RefusedIfLong data ↔ data.length < 2 ^ 32 ∨ ¬ Passes data := by
  by_cases hpasses : Passes data
  · rw [or_iff_left (not_not.mpr hpasses)]
    constructor
    · intro h
      by_contra hlong
      have habove : maxMsgSize.toNat < data.length :=
        lt_of_lt_of_le (by decide) (Nat.le_of_not_lt hlong)
      obtain ⟨e, he⟩ := h habove ⟨[], Program.Faults.never⟩
      rw [writeFramed_eq_ok_iff.mpr ⟨hpasses, fun _ _ => rfl, rfl⟩] at he
      cases (Prod.mk.inj he).1
    · intro hshort habove
      rw [Passes, Nat.mod_eq_of_lt hshort] at hpasses
      exact absurd habove (Nat.not_lt.mpr hpasses)
  · refine iff_of_true (fun _ sink => ⟨_, writeFramed_of_not_passes hpasses sink⟩) (Or.inr hpasses)

/-- **Framing.** Messages are delivered exactly if one of them is refused, so that they are not
all written, or all are shorter than four gigabytes. A long message is refused exactly if it is
shorter than that, or what its length is cut down to is above the limit. -/
theorem framing_iff (messages : List (List UInt8)) (data : List UInt8) :
    (Delivered messages ↔
      (∃ data ∈ messages, ¬ Passes data) ∨ ∀ data ∈ messages, data.length < 2 ^ 32) ∧
    (RefusedIfLong data ↔ data.length < 2 ^ 32 ∨ ¬ Passes data) :=
  ⟨delivered_iff, refusedIfLong_iff⟩

/-- A message of four gigabytes passes as an empty one. -/
theorem four_gigabytes_pass :
    ¬ ((∀ messages, Delivered messages) ∧ ∀ data, RefusedIfLong data) := by
  have hlength : (List.replicate (2 ^ 32) (0 : UInt8)).length = 2 ^ 32 := List.length_replicate
  rintro ⟨_, h⟩
  rcases refusedIfLong_iff.mp (h (List.replicate (2 ^ 32) 0)) with hshort | hrefused
  · rw [hlength] at hshort
    exact absurd hshort (by decide)
  · refine hrefused ?_
    rw [Passes, hlength]
    decide

end Sigimora.Mcp
