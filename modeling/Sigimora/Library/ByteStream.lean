import Sigimora.Library.Faulty
import Sigimora.Library.Stateful

/-!
# Byte streams

A sink takes bytes until a call fails, which may be in the middle of the bytes. A
source hands its bytes out in order and fails at its end. What one side has written
is what the other side reads.
-/

namespace ByteStream

/-- A write that fails, after taking some of the bytes. -/
structure WriteFault where
  taken : ℕ
  error : String

/-- The bytes that were written so far, and the faults to come. -/
structure Sink where
  written : List UInt8
  faults : Program.Faults WriteFault

/-- Write all the bytes. -/
def writeAll (bytes : List UInt8) : Stateful Sink String Unit := fun sink =>
  match sink.faults 0 with
  | none => (.ok (), ⟨sink.written ++ bytes, sink.faults.drop 1⟩)
  | some fault =>
    (Outcome.fail fault.error, ⟨sink.written ++ bytes.take fault.taken, sink.faults.drop 1⟩)

/-- Flush what was written. -/
def flush : Stateful Sink String Unit := writeAll []

/-- Read exactly `n` bytes. -/
def readExact (n : ℕ) : Stateful (List UInt8) String (List UInt8) := fun source =>
  if source.length < n then (Outcome.fail "early eof", [])
  else (.ok (source.take n), source.drop n)

variable {bytes source rest : List UInt8} {sink sink' : Sink} {n : ℕ} {u : Unit}

/-- A write that succeeds appends all the bytes. -/
theorem writeAll_eq_ok_iff : writeAll bytes sink = (.ok u, sink') ↔
    sink.faults 0 = none ∧ sink' = ⟨sink.written ++ bytes, sink.faults.drop 1⟩ := by
  unfold writeAll
  cases sink.faults 0 with
  | none => simp only [Prod.mk.injEq, true_and, eq_comm]
  | some fault => exact iff_of_false (fun h => by cases (Prod.mk.inj h).1) fun h => by cases h.1

/-- A flush that succeeds writes nothing. -/
theorem flush_eq_ok_iff : flush sink = (.ok u, sink') ↔
    sink.faults 0 = none ∧ sink' = ⟨sink.written, sink.faults.drop 1⟩ := by
  rw [flush, writeAll_eq_ok_iff, List.append_nil]

/-! ## Writes that fail half-way -/

/-- The call writes the bytes, or the beginning of them if it fails. -/
def Writes {ε : Type} (bytes : List UInt8) (call : Stateful Sink ε Unit) : Prop :=
  ∀ sink, ∃ part, part <+: bytes ∧ (call sink).2.written = sink.written ++ part ∧
    ((call sink).1 = .ok () → part = bytes)

/-- A write writes its bytes, or a part of them if it fails. -/
theorem writes_writeAll (bytes : List UInt8) : Writes bytes (writeAll bytes) := by
  intro sink
  unfold writeAll
  cases sink.faults 0 with
  | none => exact ⟨bytes, List.prefix_refl _, rfl, fun _ => rfl⟩
  | some fault => exact ⟨bytes.take fault.taken, List.take_prefix _ _, rfl, nofun⟩

variable {ε δ : Type} {first second : Stateful Sink ε Unit} {more : List UInt8}

/-- Another error does not change what is written. -/
theorem Writes.mapErr (f : ε → δ) (h : Writes bytes first) :
    Writes bytes (Stateful.mapErr f first) := by
  intro sink
  obtain ⟨part, hpart, hwritten, hall⟩ := h sink
  exact ⟨part, hpart, hwritten, fun hok => hall (Outcome.mapErr_eq_ok_iff.mp hok)⟩

/-- One call after the other. -/
theorem Writes.andThen (hfirst : Writes bytes first) (hsecond : Writes more second) :
    Writes (bytes ++ more) (first >>= fun _ => second) := by
  intro sink
  obtain ⟨part, hpart, hwritten, hall⟩ := hfirst sink
  match hrun : first sink with
  | (.error e, next) =>
    rw [hrun] at hwritten
    rw [Stateful.bind_run_error hrun]
    exact ⟨part, hpart.trans (List.prefix_append _ _), hwritten, nofun⟩
  | (.ok (), next) =>
    rw [hrun] at hwritten hall
    obtain ⟨rest, hrest, hnext, hend⟩ := hsecond next
    rw [Stateful.bind_run_ok hrun, hall rfl] at *
    refine ⟨bytes ++ rest, (List.prefix_append_right_inj bytes).mpr hrest, ?_, ?_⟩
    · rw [hnext, hwritten, List.append_assoc]
    · intro hok
      rw [hend hok]

/-- What is read is the front of the source, and the rest stays. -/
theorem readExact_eq_ok_iff : readExact n source = (.ok bytes, rest) ↔
    bytes.length = n ∧ source = bytes ++ rest := by
  unfold readExact
  split
  · next hshort =>
    refine iff_of_false (fun h => by cases (Prod.mk.inj h).1) ?_
    rintro ⟨hlength, rfl⟩
    rw [List.length_append] at hshort
    omega
  · next henough =>
    rw [Prod.mk.injEq, Except.ok.injEq]
    constructor
    · rintro ⟨rfl, rfl⟩
      exact ⟨List.length_take_of_le (Nat.le_of_not_lt henough), (List.take_append_drop n _).symm⟩
    · rintro ⟨rfl, rfl⟩
      exact ⟨List.take_left, List.drop_left⟩

end ByteStream
