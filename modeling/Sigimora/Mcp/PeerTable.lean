import Sigimora.Library.Run
import Sigimora.Mcp.Handshake

/-!
# The table of peers

The tasks of the connections of one participant, interleaved in any order. A task
registers its connection after the handshake and its reader removes the peer when the
connection ends. Both go by the id of the peer: a later connection of the same peer
replaces an earlier one, and the end of either one removes what is there. The reader
of an outgoing connection runs before the connection is registered.
-/

namespace Sigimora.Mcp

/-- Which side opened the connection. -/
inductive Direction
  | incoming
  | outgoing
  deriving DecidableEq

/-- A connection after its handshake. It is open until its reader has removed the peer. -/
structure ConnectionTask where
  connection : PeerConnection
  direction : Direction
  registered : Bool
  isOpen : Bool

/-- A connection in the table. The channel is the one to the writer of a task. -/
structure RegisteredPeer where
  connection : PeerConnection
  tx : ℕ

/-- The connections in the order of their handshakes and the table of peers. -/
structure PeerNetwork where
  tasks : List ConnectionTask
  peers : ByParticipant RegisteredPeer

/-- A step of one of the tasks. -/
inductive NetworkStep
  | handshake (connection : PeerConnection) (direction : Direction)
  | insert (task : ℕ)
  | disconnect (task : ℕ)

namespace PeerNetwork

/-- No connections. -/
def new : PeerNetwork where
  tasks := []
  peers := ∅

/-- Whether the task is about to register its connection. -/
def Inserts (network : PeerNetwork) (i : ℕ) (task : ConnectionTask) : Prop :=
  network.tasks[i]? = some task ∧ task.registered = false

/-- Whether the reader of the task runs: on an incoming connection after it is registered. -/
def Reads (network : PeerNetwork) (i : ℕ) (task : ConnectionTask) : Prop :=
  network.tasks[i]? = some task ∧ task.isOpen = true ∧
    (task.direction = .incoming → task.registered = true)

/-- The network after a step. A step of a task that is not about to take it has no effect. -/
def step (network : PeerNetwork) : NetworkStep → PeerNetwork
  | .handshake connection direction =>
    { network with
      tasks := network.tasks ++ [{ connection, direction, registered := false, isOpen := true }] }
  | .insert i =>
    match network.tasks[i]? with
    | none => network
    | some task =>
      if task.registered = true then network
      else
        { tasks := network.tasks.set i { task with registered := true }
          peers := network.peers.insert task.connection.nodeId ⟨task.connection, i⟩ }
  | .disconnect i =>
    match network.tasks[i]? with
    | none => network
    | some task =>
      if task.isOpen = true ∧ (task.direction = .incoming → task.registered = true) then
        { tasks := network.tasks.set i { task with isOpen := false }
          peers := network.peers.erase task.connection.nodeId }
      else network

/-- The task has registered a connection to the peer that is open. -/
def Live (network : PeerNetwork) (i : ℕ) (peer : ParticipantId) : Prop :=
  ∃ task, network.tasks[i]? = some task ∧ task.connection.nodeId = peer ∧
    task.registered = true ∧ task.isOpen = true

/-- A peer is in the table exactly when it has an open connection that is registered, and
the channel in the table is the one of such a connection. -/
structure Tracks (network : PeerNetwork) : Prop where
  mem_iff : ∀ peer, peer ∈ network.peers ↔ ∃ i, network.Live i peer
  sender : ∀ peer entry, network.peers.lookup peer = some entry → network.Live entry.tx peer

/-- Every task is past its registration. -/
def Settled (network : PeerNetwork) : Prop :=
  ∀ task ∈ network.tasks, task.registered = true

instance (network : PeerNetwork) : Decidable network.Settled :=
  inferInstanceAs (Decidable (∀ task ∈ network.tasks, task.registered = true))

/-- A connection is registered only while it is open, and only the last open connection of
a peer ends. -/
def Orderly (network : PeerNetwork) : NetworkStep → Prop
  | .handshake _ _ => True
  | .insert i => ∀ task, network.Inserts i task → task.isOpen = true
  | .disconnect i => ∀ task, network.Reads i task →
    ∀ j, j ≠ i → ¬ network.Live j task.connection.nodeId

variable {network : PeerNetwork} {i j : ℕ} {task : ConnectionTask} {peer : ParticipantId}

/-! ## Steps -/

/-- A task that inserts its connection puts it into the table. -/
theorem step_insert (h : network.Inserts i task) : network.step (.insert i) =
    { tasks := network.tasks.set i { task with registered := true }
      peers := network.peers.insert task.connection.nodeId ⟨task.connection, i⟩ } := by
  simp [step, h.1, h.2]

/-- Other tasks do not. -/
theorem step_insert_idle (h : ∀ task, ¬ network.Inserts i task) :
    network.step (.insert i) = network := by
  cases htask : network.tasks[i]? with
  | none => simp [step, htask]
  | some task =>
    have hregistered : task.registered = true := by
      by_contra hnot
      exact h task ⟨htask, Bool.not_eq_true _ ▸ hnot⟩
    simp [step, htask, hregistered]

/-- A task whose connection ends takes the peer out of the table. -/
theorem step_disconnect (h : network.Reads i task) : network.step (.disconnect i) =
    { tasks := network.tasks.set i { task with isOpen := false }
      peers := network.peers.erase task.connection.nodeId } := by
  rw [step, h.1]
  exact if_pos h.2

/-- Other tasks do not. -/
theorem step_disconnect_idle (h : ∀ task, ¬ network.Reads i task) :
    network.step (.disconnect i) = network := by
  cases htask : network.tasks[i]? with
  | none => simp [step, htask]
  | some task =>
    rw [step, htask]
    exact if_neg fun hreads => h task ⟨htask, hreads⟩

/-- Replacing a task replaces what is live at its position. -/
theorem live_set {peers : ByParticipant RegisteredPeer} {next : ConnectionTask}
    (htask : network.tasks[i]? = some task) :
    Live ⟨network.tasks.set i next, peers⟩ j peer ↔
      if j = i then next.connection.nodeId = peer ∧ next.registered = true ∧ next.isOpen = true
      else network.Live j peer := by
  have hi : i < network.tasks.length := (List.getElem?_eq_some_iff.mp htask).1
  unfold Live
  split
  · next hj =>
    rw [hj, List.getElem?_set_self hi]
    simp
  · next hj => rw [List.getElem?_set_ne (Ne.symm hj)]

/-- A connection that is not registered is not live. -/
theorem live_handshake (connection : PeerConnection) (direction : Direction) :
    (network.step (.handshake connection direction)).Live j peer ↔ network.Live j peer := by
  constructor
  · rintro ⟨task, htask, hpeer, hregistered, hopen⟩
    rcases List.mem_append.mp (List.mem_of_getElem? htask) with hold | hnew
    · have hj : j < network.tasks.length := by
        by_contra hout
        rw [step, List.getElem?_append_right (by omega)] at htask
        have hlast := List.mem_of_getElem? htask
        rw [List.mem_singleton.mp hlast] at hregistered
        cases hregistered
      refine ⟨task, ?_, hpeer, hregistered, hopen⟩
      rwa [step, List.getElem?_append_left hj] at htask
    · rw [List.mem_singleton.mp hnew] at hregistered
      cases hregistered
  · rintro ⟨task, htask, hrest⟩
    have hj : j < network.tasks.length := (List.getElem?_eq_some_iff.mp htask).1
    exact ⟨task, by rwa [step, List.getElem?_append_left hj], hrest⟩

/-- A task that is about to register its connection has none that is live. -/
theorem Inserts.not_live (h : network.Inserts i task) : ¬ network.Live i peer := by
  rintro ⟨other, hother, _, hregistered, _⟩
  rw [h.1, Option.some.injEq] at hother
  rw [← hother, h.2] at hregistered
  cases hregistered

/-- A live connection to a peer is with that peer. -/
theorem Live.nodeId_eq (h : network.Live i peer) (htask : network.tasks[i]? = some task) :
    task.connection.nodeId = peer := by
  obtain ⟨other, hother, hpeer, _, _⟩ := h
  rw [htask, Option.some.injEq] at hother
  rwa [hother]

/-- A handshake does not touch the table. -/
theorem tracks_handshake (h : network.Tracks) (connection : PeerConnection)
    (direction : Direction) : (network.step (.handshake connection direction)).Tracks where
  mem_iff peer := by
    simp only [live_handshake]
    exact h.mem_iff peer
  sender peer entry hentry := (live_handshake connection direction).mpr (h.sender peer entry hentry)

/-- Registering keeps the table right exactly when the connection is still open. -/
theorem tracks_insert_iff (h : network.Tracks) (htask : network.Inserts i task) :
    (network.step (.insert i)).Tracks ↔ task.isOpen = true := by
  rw [step_insert htask]
  constructor
  · intro hnext
    have hlive := (live_set htask.1).mp (hnext.sender _ _ (Finmap.lookup_insert _))
    rw [if_pos rfl] at hlive
    exact hlive.2.2
  · intro hopen
    refine ⟨?_, ?_⟩
    · intro peer
      rw [Finmap.mem_insert, h.mem_iff]
      simp only [live_set htask.1]
      constructor
      · rintro (rfl | ⟨j, hlive⟩)
        · refine ⟨i, ?_⟩
          rw [if_pos rfl]
          exact ⟨rfl, trivial, hopen⟩
        · refine ⟨j, ?_⟩
          rwa [if_neg fun hj => htask.not_live (hj ▸ hlive)]
      · rintro ⟨j, hlive⟩
        split at hlive
        · exact Or.inl hlive.1.symm
        · exact Or.inr ⟨j, hlive⟩
    · intro peer entry hentry
      rw [live_set htask.1]
      by_cases hpeer : peer = task.connection.nodeId
      · subst hpeer
        rw [Finmap.lookup_insert, Option.some.injEq] at hentry
        subst hentry
        rw [if_pos rfl]
        exact ⟨rfl, rfl, hopen⟩
      · rw [Finmap.lookup_insert_of_ne _ hpeer] at hentry
        have hlive := h.sender peer entry hentry
        rwa [if_neg fun hj => htask.not_live (hj ▸ hlive)]

/-- The end of a connection keeps the table right exactly when the peer has no other one. -/
theorem tracks_disconnect_iff (h : network.Tracks) (htask : network.Reads i task) :
    (network.step (.disconnect i)).Tracks ↔
      ∀ j, j ≠ i → ¬ network.Live j task.connection.nodeId := by
  rw [step_disconnect htask]
  constructor
  · intro hnext j hj hlive
    have hmem := (hnext.mem_iff task.connection.nodeId).mpr
      ⟨j, (live_set htask.1).mpr (by rwa [if_neg hj])⟩
    exact (Finmap.mem_erase.mp hmem).1 rfl
  · intro honly
    refine ⟨?_, ?_⟩
    · intro peer
      rw [Finmap.mem_erase, h.mem_iff]
      simp only [live_set htask.1]
      constructor
      · rintro ⟨hpeer, j, hlive⟩
        refine ⟨j, ?_⟩
        rwa [if_neg fun hj => hpeer ((hj ▸ hlive).nodeId_eq htask.1).symm]
      · rintro ⟨j, hlive⟩
        split at hlive
        · cases hlive.2.2
        · next hj => exact ⟨fun hpeer => honly j hj (hpeer ▸ hlive), j, hlive⟩
    · intro peer entry hentry
      have hpeer : peer ≠ task.connection.nodeId := by
        rintro rfl
        rw [Finmap.lookup_erase] at hentry
        cases hentry
      rw [Finmap.lookup_erase_ne hpeer] at hentry
      have hlive := h.sender peer entry hentry
      rw [live_set htask.1]
      rwa [if_neg fun hj => hpeer ((hj ▸ hlive).nodeId_eq htask.1).symm]

/-- What holds of the task at a position holds of every task that takes the step there. -/
theorem forall_task_iff {Takes P : ConnectionTask → Prop}
    (hposition : ∀ other, Takes other → network.tasks[i]? = some other) (htask : Takes task) :
    P task ↔ ∀ other, Takes other → P other := by
  constructor
  · intro hP other hother
    have hsame : task = other :=
      Option.some.inj ((hposition task htask).symm.trans (hposition other hother))
    rwa [← hsame]
  · intro hall
    exact hall task htask

/-- One step keeps the table right exactly when it is orderly. -/
theorem tracks_step_iff (h : network.Tracks) (taken : NetworkStep) :
    (network.step taken).Tracks ↔ network.Orderly taken := by
  cases taken with
  | handshake connection direction =>
    exact iff_of_true (tracks_handshake h connection direction) trivial
  | insert i =>
    by_cases hidle : ∀ task, ¬ network.Inserts i task
    · rw [step_insert_idle hidle]
      exact iff_of_true h fun task htask => absurd htask (hidle task)
    · push Not at hidle
      obtain ⟨task, htask⟩ := hidle
      rw [tracks_insert_iff h htask]
      exact forall_task_iff (P := fun task => task.isOpen = true) (fun _ hother => hother.1) htask
  | disconnect i =>
    by_cases hidle : ∀ task, ¬ network.Reads i task
    · rw [step_disconnect_idle hidle]
      exact iff_of_true h fun task htask => absurd htask (hidle task)
    · push Not at hidle
      obtain ⟨task, htask⟩ := hidle
      rw [tracks_disconnect_iff h htask]
      exact forall_task_iff (P := fun task => ∀ j, j ≠ i → ¬ network.Live j task.connection.nodeId)
        (fun _ hother => hother.1) htask

/-- The empty table tracks the connections. -/
theorem tracks_new : Tracks new where
  mem_iff peer := by simp [new, Live, Finmap.notMem_empty]
  sender peer entry hentry := by simp [new] at hentry

/-- **Live peers.** The table is right in every state of a run exactly when connections are
registered while they are open and only the last open one of a peer ends; in particular
it is then right whenever all tasks are past their registration. -/
theorem tracks_throughout_iff (steps : List NetworkStep) :
    (Run.Throughout step Tracks new steps ↔ Run.Guarded step Orderly new steps) ∧
      (Run.Guarded step Orderly new steps →
        Run.Throughout step (fun network => network.Settled → network.Tracks) new steps) := by
  have hiff : Run.Throughout step Tracks new steps ↔ Run.Guarded step Orderly new steps :=
    Run.throughout_iff_guarded (fun _ taken h => tracks_step_iff h taken) tracks_new
  exact ⟨hiff, fun horderly done hdone _ => hiff.mpr horderly done hdone⟩

/-- A peer connects twice, and the end of the first connection removes the second one. -/
theorem reconnected_peer_removed :
    ¬ ∀ steps : List NetworkStep,
      Run.Throughout step (fun network => network.Settled → network.Tracks) new steps := by
  intro h
  let connection : PeerConnection := { nodeId := 2, addr := "", authenticated := true }
  have htracks := (h [.handshake connection .incoming, .insert 0, .handshake connection .incoming,
    .insert 1, .disconnect 0]).last (by decide)
  have hlive : Live (Run.after step new [.handshake connection .incoming, .insert 0,
      .handshake connection .incoming, .insert 1, .disconnect 0]) 1 2 :=
    ⟨_, rfl, rfl, rfl, rfl⟩
  exact absurd ((htracks.mem_iff 2).mpr ⟨1, hlive⟩) (by decide)

end PeerNetwork

end Sigimora.Mcp
