import Sigimora.Library.Fifo
import Sigimora.Mcp.Framing
import Sigimora.Mcp.Handshake

/-!
# The way of a message

A message that one participant sends to another passes a bounded queue, the task that
writes the queue to the connection, the bytes on the way, and the task that reads them
and publishes the messages it can decode. The tasks run in any order, a write may
fail half-way, and the connection may break. All of it together is a channel that
may be severed.
-/

namespace Sigimora.Mcp

open ByteStream

variable [Curve]

/-- How many messages wait for the writer. -/
def queueCapacity : ℕ := 64

/-- One direction of a connection, from the sender's table of peers to the messages that the
receiver has published. The messages whose sending has returned are kept as a history. -/
structure Channel where
  sender : ParticipantId
  receiver : ParticipantId
  accepted : List McpMessage
  registered : Bool
  queue : List (List UInt8)
  writerRuns : Bool
  wire : List UInt8
  connected : Bool
  readerRuns : Bool
  published : List (ParticipantId × McpMessage)

/-- What one of the tasks or the network does. -/
inductive ChannelStep
  | sendTo (msg : McpMessage)
  | unregister
  | write (faults : Program.Faults WriteFault)
  | disconnect (kept : ℕ)
  | read

omit [Curve] in
/-- The reader has not got a whole message yet, and goes on waiting for one. -/
def awaitsMore (wire : List UInt8) : Bool :=
  if wire.length < 4 then true
  else
    let len := UInt32.ofNat (ByteString.ofBigEndian (wire.take 4))
    decide (len ≤ maxMsgSize) && decide (wire.length < 4 + len.toNat)

namespace Channel

/-- The channel of a new connection. -/
def new (sender receiver : ParticipantId) : Channel where
  sender := sender
  receiver := receiver
  accepted := []
  registered := true
  queue := []
  writerRuns := true
  wire := []
  connected := true
  readerRuns := true
  published := []

variable [Bincode]

/-- Put a message into the queue of a peer; `none` while the queue is full. -/
def sendTo (channel : Channel) (msg : McpMessage) : Option (Outcome McpError Unit × Channel) :=
  let data := Bincode.serialize msg
  if ¬ channel.registered then
    some (Outcome.fail (.networkError s!"peer {channel.receiver} not connected"), channel)
  else if ¬ channel.writerRuns then
    some (Outcome.fail (.networkError s!"peer {channel.receiver} disconnected"), channel)
  else if channel.queue.length < queueCapacity then
    some (.ok (), { channel with
      queue := channel.queue ++ [data]
      accepted := channel.accepted ++ [msg] })
  else none

omit [Bincode] in
/-- The writer takes the next message. It ends when the peer is no longer registered and the
queue is empty, or when a write fails; then the queue is dropped. -/
def write (channel : Channel) (faults : Program.Faults WriteFault) : Channel :=
  if ¬ channel.writerRuns then channel
  else
    match channel.queue with
    | [] => { channel with writerRuns := channel.registered }
    | data :: rest =>
      let (result, sink) := writeFramed data ⟨channel.wire, faults⟩
      let wire := if channel.connected then sink.written else channel.wire
      match result with
      | .ok () => { channel with queue := rest, wire }
      | .error _ => { channel with queue := [], wire, writerRuns := false }

/-- The reader takes the next message and publishes it if it can be decoded. While more bytes
may come it waits for a whole message, and otherwise it ends. -/
def read (channel : Channel) : Channel :=
  if ¬ channel.readerRuns then channel
  else if awaitsMore channel.wire ∧ channel.writerRuns ∧ channel.connected then channel
  else
    match readFramed channel.wire with
    | (.ok data, rest) =>
      match Bincode.deserialize data with
      | .ok msg =>
        { channel with
          wire := rest
          published := channel.published ++ [(channel.sender, msg)] }
      | .error _ => { channel with wire := rest }
    | (.error _, _) => { channel with readerRuns := false }

/-- The channel after a step. A step that has to wait has no effect. -/
def step (channel : Channel) : ChannelStep → Channel
  | .sendTo msg =>
    match channel.sendTo msg with
    | some (_, next) => next
    | none => channel
  | .unregister => { channel with registered := false }
  | .write faults => channel.write faults
  | .disconnect kept =>
    { channel with connected := false, wire := channel.wire.take kept }
  | .read => channel.read

end Channel

/-! ## Frames on the way -/

section Frames

variable {data tail rest : List UInt8} {frames : List (List UInt8)} {sink sink' : Sink}

omit [Curve] in
/-- A short message is framed behind its own length. -/
theorem frame_of_short (h : data.length ≤ maxMsgSize.toNat) :
    frame data = ByteString.bigEndian 4 data.length ++ data := by
  rw [frame, Nat.mod_eq_of_lt (lt_of_le_of_lt h (by decide))]

omit [Curve] in
/-- A frame has four bytes more than its data. -/
theorem length_frame (data : List UInt8) : (frame data).length = 4 + data.length := by
  rw [frame, List.length_append, ByteString.length_bigEndian]

/-- The beginning of a frame that has not been written to its end. -/
def Unfinished (tail : List UInt8) : Prop :=
  ∃ data : List UInt8, data.length ≤ maxMsgSize.toNat ∧ tail <+: frame data ∧
    tail.length < (frame data).length

omit [Curve] in
/-- No bytes are the beginning of a frame. -/
theorem unfinished_nil : Unfinished [] :=
  ⟨[], Nat.zero_le _, List.nil_prefix, by rw [length_frame]; decide⟩

omit [Curve] in
/-- A message that passes is written as its frame, or as the beginning of it. -/
theorem writes_writeFramed (h : Passes data) : Writes (frame data) (writeFramed data) := by
  have hlen : (UInt32.ofNat data.length).toNat = data.length % 2 ^ 32 := UInt32.toNat_ofNat'
  have hbody := (writes_writeAll (ByteString.bigEndian 4 (UInt32.ofNat data.length).toNat)).mapErr
    (fun e => McpError.networkError s!"write length: {e}") |>.andThen <|
      ((writes_writeAll data).mapErr fun e => McpError.networkError s!"write data: {e}").andThen
        ((writes_writeAll []).mapErr fun e => McpError.networkError s!"flush: {e}")
  rw [List.append_nil, hlen] at hbody
  unfold writeFramed
  rw [if_neg (fun hlong => len_gt_iff.mp hlong h)]
  exact hbody

omit [Curve] in
/-- A frame is read back, and the bytes behind it are left. -/
theorem readFramed_frame (h : data.length ≤ maxMsgSize.toNat) (rest : List UInt8) :
    readFramed (frame data ++ rest) = (.ok data, rest) := by
  rw [readFramed_eq_ok_iff, frame_of_short h]
  exact ⟨h, rfl⟩

omit [Curve] in
/-- No message is read from the beginning of one. -/
theorem readFramed_unfinished (h : Unfinished tail) :
    readFramed tail ≠ (.ok data, rest) := by
  obtain ⟨whole, hshort, ⟨missing, hwhole⟩, hlength⟩ := h
  intro hread
  obtain ⟨hdata, rfl⟩ := readFramed_eq_ok_iff.mp hread
  rw [frame_of_short hshort, List.append_assoc, List.append_assoc] at hwhole
  obtain ⟨hlengths, _⟩ := List.append_inj hwhole (by
    rw [ByteString.length_bigEndian, ByteString.length_bigEndian])
  have hsame := congrArg ByteString.ofBigEndian hlengths
  rw [ByteString.ofBigEndian_bigEndian_of_lt (lt_of_le_of_lt hdata (by decide)),
    ByteString.ofBigEndian_bigEndian_of_lt (lt_of_le_of_lt hshort (by decide))] at hsame
  rw [length_frame, ← hsame, List.length_append, List.length_append,
    ByteString.length_bigEndian] at hlength
  omega

omit [Curve] in
/-- What remains of frames that are cut off somewhere. -/
theorem exists_take_frames (hshort : ∀ data ∈ frames, data.length ≤ maxMsgSize.toNat)
    (htail : Unfinished tail) (n : ℕ) :
    ∃ k rest, (frames.flatMap frame ++ tail).take n = (frames.take k).flatMap frame ++ rest ∧
      Unfinished rest := by
  induction frames generalizing n with
  | nil =>
    obtain ⟨data, hdata, hpart, hlength⟩ := htail
    refine ⟨0, tail.take n, rfl, data, hdata, (List.take_prefix n tail).trans hpart, ?_⟩
    rw [List.length_take]
    omega
  | cons data frames ih =>
    obtain ⟨hdata, hframes⟩ := List.forall_mem_cons.mp hshort
    by_cases hcut : n < (frame data).length
    · refine ⟨0, (frame data).take n, ?_, data, hdata, List.take_prefix n _, ?_⟩
      · rw [List.flatMap_cons, List.append_assoc, List.take_append_of_le_length hcut.le]
        rfl
      · rw [List.length_take]
        omega
    · obtain ⟨k, rest, hrest, hunfinished⟩ := ih hframes (n - (frame data).length)
      refine ⟨k + 1, rest, ?_, hunfinished⟩
      rw [List.flatMap_cons, List.append_assoc, List.take_append, hrest,
        List.take_of_length_le (Nat.le_of_not_lt hcut), List.take_succ_cons, List.flatMap_cons,
        List.append_assoc]

omit [Curve] in
/-- Nothing more has to come for a frame that is there. -/
theorem awaitsMore_frame (h : data.length ≤ maxMsgSize.toNat) (rest : List UInt8) :
    awaitsMore (frame data ++ rest) = false := by
  have hfour : (ByteString.bigEndian 4 data.length).length = 4 := ByteString.length_bigEndian _ _
  have hlen : (UInt32.ofNat data.length).toNat = data.length := by
    rw [UInt32.toNat_ofNat']
    exact Nat.mod_eq_of_lt (lt_of_le_of_lt h (by decide))
  have htake : (frame data ++ rest).take 4 = ByteString.bigEndian 4 data.length := by
    rw [frame_of_short h, List.append_assoc, ← hfour]
    exact List.take_left
  have hlength : (frame data ++ rest).length = 4 + data.length + rest.length := by
    rw [List.length_append, length_frame]
  unfold awaitsMore
  rw [if_neg (by omega), htake,
    ByteString.ofBigEndian_bigEndian_of_lt (lt_of_le_of_lt h (by decide))]
  have hwhole : ¬ 4 + data.length + rest.length < 4 + data.length := by omega
  simp only [hlen, hlength, hwhole, decide_false, Bool.and_false]

end Frames

/-! ## The channel that the tasks make up -/

variable [Bincode]

/-- A message that can be decoded from its bytes, of which there are less than four gigabytes. -/
def Sendable (msg : McpMessage) : Prop :=
  Bincode.deserialize (Bincode.serialize msg) = .ok msg ∧ (Bincode.serialize msg).length < 2 ^ 32

/-- A message that is below the limit. -/
def Short (msg : McpMessage) : Prop := (Bincode.serialize msg).length ≤ maxMsgSize.toNat

/-- The bytes of a message on the connection. -/
def wireForm (msg : McpMessage) : List UInt8 := frame (Bincode.serialize msg)

namespace Channel

/-- The state of a channel that has not been severed: `way` is on the connection, `queued` in
the queue. The tasks end only when nothing is left for them. -/
structure Whole (channel : Channel) (way queued : List McpMessage) (tail : List UInt8) : Prop where
  connected : channel.connected = true
  tail_eq : tail = []
  queue_eq : channel.queue = queued.map Bincode.serialize
  writer : channel.writerRuns = false → channel.registered = false ∧ queued = []
  reader : channel.readerRuns = false → way = [] ∧ channel.writerRuns = false

/-- The channel `ideal` is what the tasks make up: `way` is on the connection, before the
beginning `tail` of a frame, and `queued` in the queue. -/
structure Represents (P : McpMessage → Prop) (channel : Channel) (ideal : Fifo McpMessage)
    (way queued : List McpMessage) (tail : List UInt8) : Prop where
  sent_eq : ideal.sent = channel.accepted
  published_eq : channel.published = ideal.delivered.map fun msg => (channel.sender, msg)
  transit_eq : ideal.transit = way ++ queued
  wire_eq : channel.wire = way.flatMap wireForm ++ tail
  unfinished : Unfinished tail
  sent : ∀ msg ∈ channel.accepted, P msg
  short : ∀ msg ∈ way, Short msg
  whole : ideal.severed = false → channel.Whole way queued tail
  broken : ideal.severed = true →
    queued = [] ∧ (channel.writerRuns = true → channel.connected = false)

/-- The tasks make up the channel `ideal`. -/
def Refines (P : McpMessage → Prop) (channel : Channel) (ideal : Fifo McpMessage) : Prop :=
  ∃ way queued tail, channel.Represents P ideal way queued tail

/-- A step without a fault. -/
def Undisturbed : ChannelStep → Prop
  | .write faults => ∀ i < 3, faults i = none
  | .disconnect _ => False
  | _ => True

/-- A step that sends, if anything, a message with the property. -/
def Sends (P : McpMessage → Prop) : ChannelStep → Prop
  | .sendTo msg => P msg
  | _ => True

variable {P : McpMessage → Prop} {channel : Channel} {ideal : Fifo McpMessage}
  {way queued : List McpMessage} {tail : List UInt8}

/-- A new channel refines an empty queue. -/
theorem refines_new (P : McpMessage → Prop) (sender receiver : ParticipantId) :
    (new sender receiver).Refines P Fifo.new :=
  ⟨[], [], [], rfl, rfl, rfl, rfl, unfinished_nil, nofun, nofun,
    fun _ => ⟨rfl, rfl, rfl, nofun, nofun⟩, nofun⟩

/-- A message on the way was sent. -/
theorem Represents.mem_accepted (h : channel.Represents P ideal way queued tail)
    {msg : McpMessage} (hmsg : msg ∈ way ++ queued) : msg ∈ channel.accepted := by
  rw [← h.sent_eq, Fifo.sent, h.transit_eq]
  exact List.mem_append_left _ (List.mem_append_right _ hmsg)

/-- A message is accepted while the writer runs and the queue has room, or nothing changes. -/
theorem sendTo_cases (channel : Channel) (msg : McpMessage) :
    (channel.writerRuns = true ∧ channel.sendTo msg = some (.ok (), { channel with
      queue := channel.queue ++ [Bincode.serialize msg]
      accepted := channel.accepted ++ [msg] })) ∨
    (∃ e, channel.sendTo msg = some (.error e, channel)) ∨ channel.sendTo msg = none := by
  unfold sendTo
  by_cases hregistered : channel.registered = true
  · rw [if_neg (not_not.mpr hregistered)]
    by_cases hruns : channel.writerRuns = true
    · rw [if_neg (not_not.mpr hruns)]
      by_cases hroom : channel.queue.length < queueCapacity
      · rw [if_pos hroom]
        exact Or.inl ⟨hruns, rfl⟩
      · rw [if_neg hroom]
        exact Or.inr (Or.inr rfl)
    · rw [if_pos hruns]
      exact Or.inr (Or.inl ⟨_, rfl⟩)
  · rw [if_pos hregistered]
    exact Or.inr (Or.inl ⟨_, rfl⟩)

/-- What is on the way or queued has been accepted. -/
theorem Represents.length_le (h : channel.Represents P ideal way queued tail) :
    way.length + queued.length ≤ channel.accepted.length := by
  rw [← h.sent_eq, Fifo.sent, h.transit_eq]
  simp only [List.length_append]
  omega

/-- Sending puts the message into the queue, behind what is there. -/
theorem Represents.sendTo (h : channel.Represents P ideal way queued tail) {msg : McpMessage}
    (hmsg : P msg) :
    (channel.step (.sendTo msg)).Refines P ideal ∨
      (channel.step (.sendTo msg)).Refines P (ideal.send msg) := by
  rcases sendTo_cases channel msg with ⟨hruns, haccepted⟩ | ⟨e, hrefused⟩ | hfull
  · have hsent : ∀ other ∈ channel.accepted ++ [msg], P other := by
      intro other hother
      rcases List.mem_append.mp hother with hold | hnew
      · exact h.sent other hold
      · rw [List.mem_singleton.mp hnew]
        exact hmsg
    simp only [step, haccepted]
    right
    cases hsevered : ideal.severed with
    | true =>
      obtain ⟨rfl, hconnected⟩ := h.broken hsevered
      refine ⟨way, [], tail, ?_, h.published_eq, ?_, h.wire_eq, h.unfinished, hsent, h.short, ?_,
        fun _ => ⟨rfl, hconnected⟩⟩
      · rw [Fifo.sent_send, h.sent_eq]
      · rw [Fifo.send_transit_of_severed hsevered, h.transit_eq]
      · intro hintact
        exact absurd (hintact.symm.trans hsevered) Bool.false_ne_true
    | false =>
      have hwhole := h.whole hsevered
      refine ⟨way, queued ++ [msg], tail, ?_, h.published_eq, ?_, h.wire_eq, h.unfinished, hsent,
        h.short, fun _ => ⟨hwhole.connected, hwhole.tail_eq, ?_, ?_, hwhole.reader⟩, ?_⟩
      · rw [Fifo.sent_send, h.sent_eq]
      · rw [Fifo.send_transit_of_intact hsevered, h.transit_eq, List.append_assoc]
      · simp only [hwhole.queue_eq, List.map_append, List.map_cons, List.map_nil]
      · intro hstopped
        exact absurd (hstopped.symm.trans hruns) Bool.false_ne_true
      · intro hbroken
        exact absurd (hsevered.symm.trans hbroken) Bool.false_ne_true
  · simp only [step, hrefused]
    exact Or.inl ⟨way, queued, tail, h⟩
  · simp only [step, hfull]
    exact Or.inl ⟨way, queued, tail, h⟩

/-- Taking the peer out of the table touches nothing that was sent. -/
theorem Represents.unregister (h : channel.Represents P ideal way queued tail) :
    (channel.step .unregister).Represents P ideal way queued tail where
  sent_eq := h.sent_eq
  published_eq := h.published_eq
  transit_eq := h.transit_eq
  wire_eq := h.wire_eq
  unfinished := h.unfinished
  sent := h.sent
  short := h.short
  whole hintact :=
    { h.whole hintact with
      writer := fun hstopped => ⟨rfl, ((h.whole hintact).writer hstopped).2⟩ }
  broken := h.broken

omit [Bincode] in
/-- With nothing to write the writer goes on while the peer is registered. -/
theorem write_nil {faults : Program.Faults WriteFault} (hruns : channel.writerRuns = true)
    (hqueue : channel.queue = []) :
    channel.write faults = { channel with writerRuns := channel.registered } := by
  rw [write, if_neg (not_not.mpr hruns), hqueue]

omit [Bincode] in
/-- What the writer does with the message at the front of the queue. -/
theorem write_cons (faults : Program.Faults WriteFault) {data : List UInt8}
    {rest : List (List UInt8)} (hruns : channel.writerRuns = true)
    (hqueue : channel.queue = data :: rest) :
    (∃ part, part <+: frame data ∧ (¬ Passes data → part = []) ∧
      channel.write faults = { channel with
        queue := []
        wire := if channel.connected then channel.wire ++ part else channel.wire
        writerRuns := false } ∧ ¬ (Passes data ∧ ∀ i < 3, faults i = none)) ∨
    Passes data ∧ channel.write faults = { channel with
      queue := rest
      wire := if channel.connected then channel.wire ++ frame data else channel.wire } := by
  unfold write
  rw [if_neg (not_not.mpr hruns), hqueue]
  by_cases hpasses : Passes data
  · obtain ⟨part, hpart, hwritten, hall⟩ := writes_writeFramed hpasses ⟨channel.wire, faults⟩
    match hrun : writeFramed data ⟨channel.wire, faults⟩ with
    | (.ok (), sink) =>
      rw [hrun] at hwritten hall
      rw [hall rfl] at hwritten
      change sink.written = channel.wire ++ frame data at hwritten
      right
      simp only [hrun, hwritten]
      exact ⟨hpasses, trivial⟩
    | (.error e, sink) =>
      rw [hrun] at hwritten
      change sink.written = channel.wire ++ part at hwritten
      left
      refine ⟨part, hpart, fun hlong => absurd hpasses hlong, ?_, ?_⟩
      · simp only [hrun, hwritten]
      · rintro ⟨_, hclear⟩
        rw [writeFramed_eq_ok_iff.mpr ⟨hpasses, hclear, rfl⟩] at hrun
        cases (Prod.mk.inj hrun).1
  · left
    refine ⟨[], List.nil_prefix, fun _ => rfl, ?_, fun hclear => hpasses hclear.1⟩
    simp only [writeFramed_of_not_passes hpasses, Outcome.fail, List.append_nil]

omit [Curve] [Bincode] in
/-- Below 2^32 bytes the check is the one on the length. -/
theorem passes_iff_of_lt {data : List UInt8} (h : data.length < 2 ^ 32) :
    Passes data ↔ data.length ≤ maxMsgSize.toNat := by
  rw [Passes, Nat.mod_eq_of_lt h]

theorem flatMap_wireForm (msgs : List McpMessage) :
    msgs.flatMap wireForm = (msgs.map Bincode.serialize).flatMap frame := by
  rw [List.flatMap_map]
  rfl

/-- A connection that ends behind some of the messages is a severed channel. -/
theorem Represents.severed (h : channel.Represents P ideal way queued tail) {next : Channel}
    {k : ℕ} (rest : List UInt8) (haccepted : next.accepted = channel.accepted)
    (hpublished : next.published = channel.published) (hsender : next.sender = channel.sender)
    (hwire : next.wire = ((way ++ queued).take k).flatMap wireForm ++ rest)
    (hrest : Unfinished rest) (hshort : ∀ msg ∈ (way ++ queued).take k, Short msg)
    (hstopped : next.writerRuns = true → next.connected = false) :
    next.Refines P (ideal.sever k) := by
  refine ⟨(way ++ queued).take k, [], rest, ?_, ?_, ?_, hwire, hrest, ?_, hshort, nofun,
    fun _ => ⟨rfl, hstopped⟩⟩
  · rw [Fifo.sent_sever, h.sent_eq, haccepted]
  · rw [hpublished, hsender, h.published_eq]
    rfl
  · rw [List.append_nil, ← h.transit_eq]
    rfl
  · rw [haccepted]
    exact h.sent

/-- With an empty queue the writer waits, or ends with the registration of the peer. -/
theorem Represents.write_idle (h : channel.Represents P ideal way queued tail)
    (hruns : channel.writerRuns = true) (hqueue : channel.queue = [])
    (faults : Program.Faults WriteFault) :
    (channel.write faults).Represents P ideal way queued tail := by
  rw [write_nil hruns hqueue]
  refine ⟨h.sent_eq, h.published_eq, h.transit_eq, h.wire_eq, h.unfinished, h.sent, h.short,
    fun hintact => ?_, fun hsevered => ?_⟩
  · have hwhole := h.whole hintact
    have hempty : queued = [] := by
      have hmap := hwhole.queue_eq
      rw [hqueue] at hmap
      exact List.map_eq_nil_iff.mp hmap.symm
    refine ⟨hwhole.connected, hwhole.tail_eq, by rw [hempty]; exact hqueue, ?_, ?_⟩
    · intro hregistered
      exact ⟨hregistered, hempty⟩
    · intro hreader
      exact absurd ((hwhole.reader hreader).2.symm.trans hruns) Bool.false_ne_true
  · obtain ⟨hempty, hconnected⟩ := h.broken hsevered
    exact ⟨hempty, fun _ => hconnected hruns⟩

/-- What is written to a broken connection gets lost. -/
theorem Represents.write_broken (h : channel.Represents P ideal way queued tail)
    (hruns : channel.writerRuns = true) {data : List UInt8} {rest : List (List UInt8)}
    (hqueue : channel.queue = data :: rest) (hsevered : ideal.severed = true)
    (faults : Program.Faults WriteFault) :
    (channel.write faults).Represents P ideal way queued tail := by
  obtain ⟨hempty, hconnected⟩ := h.broken hsevered
  have hbroken : channel.connected = false := hconnected hruns
  have hwire (written : List UInt8) :
      (if channel.connected then written else channel.wire) = channel.wire := by
    rw [hbroken]
    exact if_neg Bool.false_ne_true
  have hwhole {next : Channel} (hintact : ideal.severed = false) :
      next.Whole way queued tail := absurd (hintact.symm.trans hsevered) Bool.false_ne_true
  rcases write_cons faults hruns hqueue with ⟨part, _, _, hwrite, _⟩ | ⟨_, hwrite⟩
  · rw [hwrite, hwire]
    exact ⟨h.sent_eq, h.published_eq, h.transit_eq, h.wire_eq, h.unfinished, h.sent, h.short,
      hwhole, fun _ => ⟨hempty, fun _ => hbroken⟩⟩
  · rw [hwrite, hwire]
    exact ⟨h.sent_eq, h.published_eq, h.transit_eq, h.wire_eq, h.unfinished, h.sent, h.short,
      hwhole, fun _ => ⟨hempty, fun _ => hbroken⟩⟩

/-- A write that fails severs the channel behind the messages that were written before, or
behind the last one if the fault came after its last byte. -/
theorem Represents.write_fault {msg : McpMessage} {others : List McpMessage}
    (h : channel.Represents P ideal way (msg :: others) tail) (hsendable : Sendable msg)
    {next : Channel} {part : List UInt8} (haccepted : next.accepted = channel.accepted)
    (hpublished : next.published = channel.published) (hsender : next.sender = channel.sender)
    (hwire : next.wire = way.flatMap wireForm ++ part)
    (hpart : part <+: frame (Bincode.serialize msg))
    (hnone : ¬ Passes (Bincode.serialize msg) → part = []) (hstopped : next.writerRuns = false) :
    ∃ k, next.Refines P (ideal.sever k) := by
  have hends : next.writerRuns = true → next.connected = false := fun hruns =>
    absurd (hstopped.symm.trans hruns) Bool.false_ne_true
  by_cases hall : Short msg ∧ part = frame (Bincode.serialize msg)
  · have htake : (way ++ msg :: others).take (way.length + 1) = way ++ [msg] :=
      List.take_length_add_append 1
    refine ⟨way.length + 1, h.severed [] haccepted hpublished hsender ?_ unfinished_nil
      ?_ hends⟩
    · rw [htake, List.flatMap_append, List.flatMap_singleton, List.append_nil, hwire, hall.2]
      rfl
    · rw [htake]
      intro other hother
      rcases List.mem_append.mp hother with hway | hmsg
      · exact h.short other hway
      · rw [List.mem_singleton.mp hmsg]
        exact hall.1
  · refine ⟨way.length, h.severed part haccepted hpublished hsender ?_ ?_ ?_ hends⟩
    · rw [List.take_left, hwire]
    · by_cases hshort : Short msg
      · refine ⟨_, hshort, hpart, lt_of_le_of_ne hpart.length_le fun hlength => ?_⟩
        exact hall ⟨hshort, hpart.eq_of_length hlength⟩
      · rw [hnone fun hpasses => hshort ((passes_iff_of_lt hsendable.2).mp hpasses)]
        exact unfinished_nil
    · rw [List.take_left]
      exact h.short

/-- The message that the writer takes is put behind those on the connection. -/
theorem Represents.write_front {msg : McpMessage} {others : List McpMessage}
    (h : channel.Represents P ideal way (msg :: others) tail) (hintact : ideal.severed = false)
    (hruns : channel.writerRuns = true) (hshort : Short msg) :
    Represents P { channel with
      queue := others.map Bincode.serialize
      wire := way.flatMap wireForm ++ wireForm msg } ideal (way ++ [msg]) others [] := by
  have hwhole := h.whole hintact
  refine ⟨h.sent_eq, h.published_eq, ?_, ?_, unfinished_nil, h.sent, ?_,
    fun _ => ⟨hwhole.connected, rfl, rfl, ?_, ?_⟩, ?_⟩
  · rw [h.transit_eq, List.append_assoc]
    rfl
  · rw [List.flatMap_append, List.append_nil, List.flatMap_singleton]
  · intro other hother
    rcases List.mem_append.mp hother with hway | hmsg
    · exact h.short other hway
    · rw [List.mem_singleton.mp hmsg]
      exact hshort
  · intro hstopped
    exact absurd (hstopped.symm.trans hruns) Bool.false_ne_true
  · intro hreader
    exact absurd ((hwhole.reader hreader).2.symm.trans hruns) Bool.false_ne_true
  · intro hbroken
    exact absurd (hintact.symm.trans hbroken) Bool.false_ne_true

/-- The writer puts the next message onto the connection, or ends. -/
theorem Represents.write (hP : ∀ msg, P msg → Sendable msg)
    (h : channel.Represents P ideal way queued tail) (faults : Program.Faults WriteFault) :
    (channel.write faults).Refines P ideal ∨
      (∃ k, (channel.write faults).Refines P (ideal.sever k)) ∧
        ¬ ((∀ msg ∈ channel.accepted, Short msg) ∧ (∀ i < 3, faults i = none) ∧
          ideal.severed = false) := by
  by_cases hruns : channel.writerRuns = true
  · cases hqueue : channel.queue with
    | nil => exact Or.inl ⟨way, queued, tail, h.write_idle hruns hqueue faults⟩
    | cons data rest =>
      cases hsevered : ideal.severed with
      | true => exact Or.inl ⟨way, queued, tail, h.write_broken hruns hqueue hsevered faults⟩
      | false =>
        have hwhole := h.whole hsevered
        obtain ⟨msg, others, rfl, rfl, rfl⟩ :=
          List.map_eq_cons_iff.mp (hwhole.queue_eq.symm.trans hqueue)
        have haccepted : msg ∈ channel.accepted := h.mem_accepted (by simp)
        have hsendable := hP msg (h.sent msg haccepted)
        have hwire (written : List UInt8) : (if channel.connected then channel.wire ++ written
            else channel.wire) = way.flatMap wireForm ++ written := by
          rw [hwhole.connected, if_pos rfl, h.wire_eq, hwhole.tail_eq, List.append_nil]
        rcases write_cons faults hruns hqueue with
          ⟨part, hpart, hnone, hwrite, hfault⟩ | ⟨hpasses, hwrite⟩
        · right
          rw [hwrite, hwire]
          exact ⟨h.write_fault hsendable rfl rfl rfl rfl hpart hnone rfl, fun hclear =>
            hfault ⟨(passes_iff_of_lt hsendable.2).mpr (hclear.1 msg haccepted), hclear.2.1⟩⟩
        · left
          rw [hwrite, hwire]
          exact ⟨_, _, _, h.write_front hsevered hruns ((passes_iff_of_lt hsendable.2).mp hpasses)⟩
  · left
    rw [Channel.write, if_pos hruns]
    exact ⟨way, queued, tail, h⟩

/-- A connection that breaks keeps some of the messages on the way. -/
theorem Represents.disconnect (h : channel.Represents P ideal way queued tail) (kept : ℕ) :
    ∃ k, (channel.step (.disconnect kept)).Refines P (ideal.sever k) := by
  have hframes : ∀ data ∈ way.map Bincode.serialize, data.length ≤ maxMsgSize.toNat := by
    intro data hdata
    obtain ⟨msg, hmsg, rfl⟩ := List.mem_map.mp hdata
    exact h.short msg hmsg
  obtain ⟨k, rest, hrest, hunfinished⟩ := exists_take_frames hframes h.unfinished kept
  have htake : (way ++ queued).take (min k way.length) = way.take k := by
    rw [List.take_append_of_le_length (min_le_right _ _)]
    rcases le_total k way.length with hk | hk
    · rw [min_eq_left hk]
    · rw [min_eq_right hk, List.take_length, List.take_of_length_le hk]
  refine ⟨min k way.length, h.severed rest rfl rfl rfl ?_ hunfinished ?_ fun _ => rfl⟩
  · rw [htake, flatMap_wireForm, List.map_take, ← hrest, ← flatMap_wireForm, ← h.wire_eq]
    rfl
  · rw [htake]
    exact fun msg hmsg => h.short msg (List.mem_of_mem_take hmsg)

/-- The reader publishes the first message on the connection. -/
theorem Represents.read_cons (hP : ∀ msg, P msg → Sendable msg) {msg : McpMessage}
    (h : channel.Represents P ideal (msg :: way) queued tail) (hreads : channel.readerRuns = true) :
    channel.read.Represents P ideal.deliver way queued tail := by
  have hdecode := (hP msg (h.sent msg (h.mem_accepted (by simp)))).1
  have hshort := h.short msg (List.mem_cons_self ..)
  have hwire : channel.wire =
      frame (Bincode.serialize msg) ++ (way.flatMap wireForm ++ tail) := by
    rw [h.wire_eq, List.flatMap_cons, List.append_assoc]
    rfl
  have hread : channel.read = { channel with
      wire := way.flatMap wireForm ++ tail
      published := channel.published ++ [(channel.sender, msg)] } := by
    have hwaits : ¬ (awaitsMore channel.wire = true ∧ channel.writerRuns = true ∧
        channel.connected = true) := by
      rw [hwire, awaitsMore_frame hshort]
      exact fun hwaits => Bool.false_ne_true hwaits.1
    rw [read, if_neg (not_not.mpr hreads), if_neg hwaits, hwire, readFramed_frame hshort]
    simp only [hdecode]
  have htransit : ideal.transit = msg :: (way ++ queued) := h.transit_eq
  rw [hread, Fifo.deliver_of_transit htransit]
  refine ⟨?_, ?_, rfl, rfl, h.unfinished, h.sent, fun other hother =>
    h.short other (List.mem_cons_of_mem _ hother), fun hintact => ?_, h.broken⟩
  · rw [← Fifo.deliver_of_transit htransit, Fifo.sent_deliver, h.sent_eq]
  · rw [h.published_eq, List.map_append]
    rfl
  · have hwhole := h.whole hintact
    refine ⟨hwhole.connected, hwhole.tail_eq, hwhole.queue_eq, hwhole.writer, fun hstopped => ?_⟩
    exact absurd (hstopped.symm.trans hreads) Bool.false_ne_true

/-- Without a whole message on the connection the reader waits or ends. -/
theorem Represents.read_nil (h : channel.Represents P ideal [] queued tail) :
    channel.read.Represents P ideal [] queued tail := by
  have hwire : channel.wire = tail := by rw [h.wire_eq, List.flatMap_nil, List.nil_append]
  by_cases hreads : channel.readerRuns = true
  · by_cases hwaits : awaitsMore channel.wire = true ∧ channel.writerRuns = true ∧
        channel.connected = true
    · rw [read, if_neg (not_not.mpr hreads), if_pos hwaits]
      exact h
    · have hread : channel.read = { channel with readerRuns := false } := by
        rw [read, if_neg (not_not.mpr hreads), if_neg hwaits]
        match hframe : readFramed channel.wire with
        | (.ok data, rest) =>
          rw [hwire] at hframe
          exact absurd hframe (readFramed_unfinished h.unfinished)
        | (.error _, _) => rfl
      rw [hread]
      refine ⟨h.sent_eq, h.published_eq, h.transit_eq, h.wire_eq, h.unfinished, h.sent, h.short,
        fun hintact => ?_, h.broken⟩
      have hwhole := h.whole hintact
      refine ⟨hwhole.connected, hwhole.tail_eq, hwhole.queue_eq, hwhole.writer, fun _ => ⟨rfl, ?_⟩⟩
      by_contra hruns
      refine hwaits ⟨?_, by simpa using hruns, hwhole.connected⟩
      rw [hwire, hwhole.tail_eq]
      rfl
  · rw [read, if_pos hreads]
    exact h

/-- A read of the stream delivers the next message or none. -/
theorem Represents.read (hP : ∀ msg, P msg → Sendable msg)
    (h : channel.Represents P ideal way queued tail) :
    channel.read.Refines P ideal ∨ channel.read.Refines P ideal.deliver := by
  cases way with
  | nil => exact Or.inl ⟨[], queued, tail, h.read_nil⟩
  | cons msg way =>
    by_cases hreads : channel.readerRuns = true
    · exact Or.inr ⟨way, queued, tail, h.read_cons hP hreads⟩
    · rw [Channel.read, if_pos hreads]
      exact Or.inl ⟨msg :: way, queued, tail, h⟩

/-! ## Runs -/

/-- Every step is what may happen on a channel, and only a fault severs it. -/
theorem Refines.simulates (hP : ∀ msg, P msg → Sendable msg) (h : channel.Refines P ideal)
    {action : ChannelStep} (haction : Sends P action) :
    ∃ answer, (channel.step action).Refines P (Run.after Fifo.step ideal answer) ∧
      ((∀ msg, P msg → Short msg) → Undisturbed action → ideal.severed = false →
        (Run.after Fifo.step ideal answer).severed = false) := by
  obtain ⟨way, queued, tail, h⟩ := h
  cases action with
  | sendTo msg =>
    rcases h.sendTo haction with hsame | hsent
    · exact ⟨[], hsame, fun _ _ hintact => hintact⟩
    · exact ⟨[.send msg], hsent, fun _ _ hintact => hintact⟩
  | unregister => exact ⟨[], ⟨way, queued, tail, h.unregister⟩, fun _ _ hintact => hintact⟩
  | write faults =>
    rcases h.write hP faults with hsame | ⟨⟨k, hsevered⟩, hfault⟩
    · exact ⟨[], hsame, fun _ _ hintact => hintact⟩
    · refine ⟨[.sever k], hsevered, fun hshort hclear hintact => ?_⟩
      exact absurd ⟨fun msg hmsg => hshort msg (h.sent msg hmsg), hclear, hintact⟩ hfault
  | disconnect kept =>
    obtain ⟨k, hsevered⟩ := h.disconnect kept
    exact ⟨[.sever k], hsevered, fun _ hclear _ => hclear.elim⟩
  | read =>
    rcases h.read hP with hsame | hdelivered
    · exact ⟨[], hsame, fun _ _ hintact => hintact⟩
    · refine ⟨[.deliver], hdelivered, fun _ _ hintact => ?_⟩
      rw [← hintact]
      change ideal.deliver.severed = ideal.severed
      unfold Fifo.deliver
      split <;> rfl

omit [Bincode] in
/-- The writer leaves the sender's id and the history alone. -/
theorem write_frame (channel : Channel) (faults : Program.Faults WriteFault) :
    (channel.write faults).sender = channel.sender ∧
      (channel.write faults).accepted = channel.accepted := by
  unfold write
  split
  · exact ⟨rfl, rfl⟩
  · split
    · exact ⟨rfl, rfl⟩
    · dsimp only
      split <;> exact ⟨rfl, rfl⟩

/-- The reader leaves the sender's id, the history and the queue alone. -/
theorem read_frame (channel : Channel) :
    channel.read.sender = channel.sender ∧ channel.read.accepted = channel.accepted := by
  unfold read
  split
  · exact ⟨rfl, rfl⟩
  · split
    · exact ⟨rfl, rfl⟩
    · split
      · split <;> exact ⟨rfl, rfl⟩
      · exact ⟨rfl, rfl⟩

/-- No step changes who sends. -/
theorem step_sender (channel : Channel) (action : ChannelStep) :
    (channel.step action).sender = channel.sender := by
  cases action with
  | sendTo msg =>
    rcases sendTo_cases channel msg with ⟨_, haccepted⟩ | ⟨e, hrefused⟩ | hfull
    · simp only [step, haccepted]
    · simp only [step, hrefused]
    · simp only [step, hfull]
  | unregister => rfl
  | write faults => exact (channel.write_frame faults).1
  | disconnect kept => rfl
  | read => exact channel.read_frame.1

/-- Nor do any steps. -/
theorem after_sender (channel : Channel) (actions : List ChannelStep) :
    (Run.after step channel actions).sender = channel.sender := by
  induction actions generalizing channel with
  | nil => rfl
  | cons action actions ih => rw [Run.after_cons, ih, step_sender]

/-- Without faults the writer empties the queue. -/
theorem Refines.drain_queue (hP : ∀ msg, P msg → Sendable msg ∧ Short msg)
    (h : channel.Refines P ideal) (hintact : ideal.severed = false) {k : ℕ}
    (hk : channel.queue.length ≤ k) :
    let drained := Run.after step channel (List.replicate k (.write Program.Faults.never))
    drained.Refines P ideal ∧ drained.queue = [] ∧ drained.accepted = channel.accepted := by
  induction k generalizing channel with
  | zero => exact ⟨h, List.eq_nil_of_length_eq_zero (Nat.le_zero.mp hk), rfl⟩
  | succ k ih =>
    obtain ⟨way, queued, tail, h⟩ := h
    have hclear : ∀ i < 3, (Program.Faults.never : Program.Faults WriteFault) i = none :=
      fun _ _ => rfl
    have hshort : ∀ msg ∈ channel.accepted, Short msg := fun msg hmsg =>
      (hP msg (h.sent msg hmsg)).2
    have hwrite : (channel.write Program.Faults.never).Refines P ideal := by
      rcases h.write (fun msg hmsg => (hP msg hmsg).1) Program.Faults.never with hsame | hfault
      · exact hsame
      · exact absurd ⟨hshort, hclear, hintact⟩ hfault.2
    have hqueue : (channel.write Program.Faults.never).queue = channel.queue.tail := by
      have hwhole := h.whole hintact
      by_cases hruns : channel.writerRuns = true
      · match hdata : channel.queue with
        | [] =>
          rw [write_nil hruns hdata]
          exact hdata
        | data :: rest =>
          rcases write_cons Program.Faults.never hruns hdata with
            ⟨_, _, _, _, hfault⟩ | ⟨_, hwritten⟩
          · obtain ⟨msg, others, rfl, rfl, _⟩ :=
              List.map_eq_cons_iff.mp (hwhole.queue_eq.symm.trans hdata)
            have hmsg := hP msg (h.sent msg (h.mem_accepted (by simp)))
            exact absurd ⟨(passes_iff_of_lt hmsg.1.2).mpr hmsg.2, hclear⟩ hfault
          · rw [hwritten, List.tail_cons]
      · rw [Channel.write, if_pos hruns, hwhole.queue_eq,
          (hwhole.writer (by simpa using hruns)).2]
        rfl
    obtain ⟨hrest, hempty, haccepted⟩ := ih hwrite (by rw [hqueue, List.length_tail]; omega)
    rw [(channel.write_frame _).2] at haccepted
    exact ⟨hrest, hempty, haccepted⟩

/-- With an empty queue the reader publishes what is left. -/
theorem Represents.drain_wire (hP : ∀ msg, P msg → Sendable msg)
    (h : channel.Represents P ideal way [] tail) (hintact : ideal.severed = false) {k : ℕ}
    (hk : way.length ≤ k) :
    (Run.after step channel (List.replicate k .read)).published =
      channel.accepted.map fun msg => (channel.sender, msg) := by
  induction k generalizing channel ideal way with
  | zero =>
    obtain rfl := List.eq_nil_of_length_eq_zero (Nat.le_zero.mp hk)
    rw [List.replicate_zero, Run.after_nil, h.published_eq,
      Fifo.delivered_eq_sent hintact h.transit_eq, h.sent_eq]
  | succ k ih =>
    have hframe := channel.read_frame
    cases way with
    | nil =>
      have hrest := ih h.read_nil hintact (Nat.zero_le k)
      rw [hframe.1, hframe.2] at hrest
      exact hrest
    | cons msg way =>
      have hreads : channel.readerRuns = true := by
        by_contra hstopped
        have hempty := ((h.whole hintact).reader (by simpa using hstopped)).1
        cases hempty
      have hdelivered := h.read_cons hP hreads
      rw [Fifo.deliver_of_transit h.transit_eq] at hdelivered
      have hrest := ih hdelivered hintact (Nat.le_of_succ_le_succ hk)
      rw [hframe.1, hframe.2] at hrest
      exact hrest

/-- **Delivery in order.** As long as all messages can be sent, the tasks make up a channel that
delivers a front of what was accepted, whatever their order and wherever the connection breaks;
without faults everything that was accepted is published once the tasks have run. -/
theorem delivers_in_order (sender receiver : ParticipantId) (actions : List ChannelStep)
    (hsendable : ∀ msg, .sendTo msg ∈ actions → Sendable msg) :
    let channel := Run.after step (new sender receiver) actions
    (∃ answers, (Run.after Fifo.step Fifo.new answers).sent = channel.accepted ∧
      channel.published = (Run.after Fifo.step Fifo.new answers).delivered.map
        fun msg => (sender, msg)) ∧
    (channel.published <+: channel.accepted.map fun msg => (sender, msg)) ∧
    ((∀ msg, .sendTo msg ∈ actions → Short msg) → (∀ action ∈ actions, Undisturbed action) →
      ∀ k, channel.accepted.length ≤ k →
        (Run.after step channel (List.replicate k (.write Program.Faults.never) ++
          List.replicate k .read)).published = channel.accepted.map fun msg => (sender, msg)) := by
  intro channel
  let P : McpMessage → Prop := fun msg => .sendTo msg ∈ actions
  have hsends : ∀ action ∈ actions, Sends P action := by
    intro action haction
    cases action with
    | sendTo msg => exact haction
    | _ => trivial
  have hsender : channel.sender = sender := after_sender _ actions
  obtain ⟨answers, hrefines⟩ := Run.exists_after_of_simulates (G := Sends P) (R := Refines P)
    (fun _ _ _ haction h => (h.simulates hsendable haction).imp fun _ hstep => hstep.1)
    (refines_new P sender receiver) hsends
  obtain ⟨way, queued, tail, h⟩ := hrefines
  have hpublished := h.published_eq
  rw [hsender] at hpublished
  refine ⟨⟨answers, h.sent_eq, hpublished⟩, ?_, ?_⟩
  · rw [hpublished, ← h.sent_eq]
    exact (Fifo.delivered_prefix _).map _
  · intro hshort hundisturbed k hk
    obtain ⟨answers, hrefines, hintact⟩ := Run.exists_after_of_simulates
      (G := fun action => Sends P action ∧ Undisturbed action)
      (R := fun channel ideal => Refines P channel ideal ∧ ideal.severed = false)
      (fun channel ideal action haction h => by
        obtain ⟨answer, hstep, hwhole⟩ := h.1.simulates hsendable haction.1
        exact ⟨answer, hstep, hwhole hshort haction.2 h.2⟩)
      ⟨refines_new P sender receiver, rfl⟩
      fun action haction => ⟨hsends action haction, hundisturbed action haction⟩
    obtain ⟨way, queued, tail, h⟩ := id hrefines
    have hlength : way.length + queued.length ≤ channel.accepted.length := h.length_le
    have hqueue : channel.queue.length ≤ k := by
      rw [(h.whole hintact).queue_eq, List.length_map]
      omega
    obtain ⟨hdrained, hempty, haccepted⟩ := hrefines.drain_queue
      (fun msg hmsg => ⟨hsendable msg hmsg, hshort msg hmsg⟩) hintact hqueue
    obtain ⟨way, queued, tail, h⟩ := hdrained
    obtain rfl : queued = [] := by
      have hmap := (h.whole hintact).queue_eq
      rw [hempty] at hmap
      exact List.map_eq_nil_iff.mp hmap.symm
    have hway : way.length ≤ channel.accepted.length :=
      (Nat.le_add_right _ _).trans (h.length_le.trans (congrArg List.length haccepted).le)
    rw [Run.after_append, h.drain_wire hsendable hintact (hway.trans hk), haccepted, after_sender,
      hsender]

omit [Curve] [Bincode] in
/-- Two handshakes, of which the second is cut off on its way. -/
theorem delivers_in_order_cut :
    letI := exponentCurve
    letI := emptyProofBincode
    let hello : McpMessage := .handshake 7 G2Point.generator [] 0
    let channel := Run.after step (new 7 1) [.sendTo hello, .sendTo hello,
      .write Program.Faults.never, .write Program.Faults.never, .disconnect 200, .read, .read]
    channel.published <+: channel.accepted.map fun msg => (7, msg) := by
  let := exponentCurve
  let := emptyProofBincode
  intro hello
  refine (delivers_in_order 7 1 _ fun msg hmsg => ?_).2.1
  obtain rfl : msg = hello := by simpa using hmsg
  refine ⟨if_pos rfl, ?_⟩
  have hlength : (encodeHandshake 7 (G2Point.generator : G2Point) [] 0).length = 126 := by
    simp only [encodeHandshake, List.length_append, ByteString.length_littleEndian,
      G2Point.length_toBytes, G2Point.byteSize, List.length_nil]
  exact hlength.trans_lt (by norm_num)

end Channel

end Sigimora.Mcp
