import Sigimora.Library.Faulty
import Sigimora.Server.Routes

/-!
# Failing statements

A request on a database whose statements can fail. Up to the reads that it
starts with, a request that stops leaves the database as it was.
-/

namespace Sigimora.Server

open Handler Program

/-- Execute a statement, unless it fails. -/
def execFaulty : (s : Stmt) → Db × Faults DbError → Reply s × (Db × Faults DbError) :=
  faulty exec fun _ e => .error e

variable {α : Type} {db : Db} {faults : Faults DbError}

/-- Computing in two steps is one program. -/
theorem lift_bind {β : Type} (result : Outcome ApiError α) (f : α → Outcome ApiError β) :
    lift (result >>= f) = lift result >>= fun a => lift (f a) := by
  cases result <;> rfl

/-- A value that was computed ends a program. -/
theorem lift_ok (a : α) : lift (.ok a : Outcome ApiError α) = .finish (.ok a) := rfl

/-- So does a value that is returned. -/
theorem lift_pure (a : α) : lift (pure a : Outcome ApiError α) = .finish (.ok a) := rfl

/-- Execute a statement for its effect. -/
def execute (s : Stmt) : Handler Unit := do
  let _ ← query s
  return ()

/-- A statement without a fault is executed. -/
theorem execFaulty_of_none (h : faults 0 = none) (s : Stmt) (db : Db) :
    execFaulty s (db, faults) = ((exec s db).1, (exec s db).2, faults.drop 1) :=
  faulty_of_none h s db

/-- A statement with a fault is refused. -/
theorem execFaulty_of_some {e : DbError} (h : faults 0 = some e) (s : Stmt) (db : Db) :
    execFaulty s (db, faults) = (.error e, db, faults.drop 1) :=
  faulty_of_some h s db

/-- A query that fails ends the request. -/
theorem run_query_of_fault {s : Stmt} {f : s.Value → Handler α} {e : DbError}
    (h : faults 0 = some e) : (query s >>= f).run execFaulty (db, faults) =
      (.error (.err (.database e)), db, faults.drop 1) := by
  rw [query, call_bind, run_call, execFaulty_of_some h]
  rfl

/-- So does one that the database refuses. -/
theorem run_query_of_refused {s : Stmt} {f : s.Value → Handler α} {e : DbError} {db' : Db}
    (h : faults 0 = none) (hexec : exec s db = (.error e, db')) :
    (query s >>= f).run execFaulty (db, faults) =
      (.error (.err (.database e)), db', faults.drop 1) := by
  rw [query, call_bind, run_call, execFaulty_of_none h, hexec]
  rfl

/-- Otherwise the request goes on. -/
theorem run_query_of_ok {s : Stmt} {f : s.Value → Handler α} {value : s.Value} {db' : Db}
    (h : faults 0 = none) (hexec : exec s db = (.ok value, db')) :
    (query s >>= f).run execFaulty (db, faults) =
      (f value).run execFaulty (db', faults.drop 1) := by
  rw [query, call_bind, run_call, execFaulty_of_none h, hexec]
  rfl

/-- Reads that do not fail return the stored rows. -/
theorem run_fetchNetwork_of_some {networkId : String} {net : NetworkRow} (h : faults 0 = none)
    (hnet : db.getNetwork networkId = some net) :
    (fetchNetwork networkId).run execFaulty (db, faults) = (.ok net, db, faults.drop 1) := by
  rw [fetchNetwork, run_query_of_ok h rfl, hnet]
  rfl

/-- The rows are read when they are as many as the network has nodes. -/
theorem run_loadNodes_of_length {networkId : String} {n : ℕ} (h : faults 0 = none)
    (hlength : (db.getNodesByNetwork networkId).length = n) :
    (loadNodes networkId n).run execFaulty (db, faults) =
      (.ok (db.getNodesByNetwork networkId), db, faults.drop 1) := by
  rw [loadNodes, run_query_of_ok h rfl, if_neg (not_not.mpr hlength)]
  rfl

/-- Fetching the network: the request is refused, or goes on with its row. -/
theorem run_fetchNetwork_faulty (networkId : String) (f : NetworkRow → Handler α) :
    ((faults 0 ≠ none ∨ db.getNetwork networkId = none) ∧ ∃ e,
      (fetchNetwork networkId >>= f).run execFaulty (db, faults) =
        (.error (.err e), db, faults.drop 1)) ∨
    ∃ net, faults 0 = none ∧ db.getNetwork networkId = some net ∧
      (fetchNetwork networkId >>= f).run execFaulty (db, faults) =
        (f net).run execFaulty (db, faults.drop 1) := by
  rw [fetchNetwork, bind_assoc]
  cases hfault : faults 0 with
  | some e => exact Or.inl ⟨Or.inl nofun, _, run_query_of_fault hfault⟩
  | none =>
    have hexec : exec (.getNetwork networkId) db = (.ok (db.getNetwork networkId), db) := rfl
    rw [run_query_of_ok hfault hexec]
    cases hnet : db.getNetwork networkId with
    | none => exact Or.inl ⟨Or.inr rfl, _, rfl⟩
    | some net => exact Or.inr ⟨net, rfl, rfl, rfl⟩

/-- Loading the nodes: the request is refused, or goes on with their rows. -/
theorem run_loadNodes_faulty (networkId : String) (n : ℕ) (f : List NodeRow → Handler α) :
    ((faults 0 ≠ none ∨ (db.getNodesByNetwork networkId).length ≠ n) ∧ ∃ e,
      (loadNodes networkId n >>= f).run execFaulty (db, faults) =
        (.error (.err e), db, faults.drop 1)) ∨
    (faults 0 = none ∧ (db.getNodesByNetwork networkId).length = n ∧
      (loadNodes networkId n >>= f).run execFaulty (db, faults) =
        (f (db.getNodesByNetwork networkId)).run execFaulty (db, faults.drop 1)) := by
  rw [loadNodes, bind_assoc]
  cases hfault : faults 0 with
  | some e => exact Or.inl ⟨Or.inl nofun, _, run_query_of_fault hfault⟩
  | none =>
    have hexec : exec (.getNodesByNetwork networkId) db =
        (.ok (db.getNodesByNetwork networkId), db) := rfl
    rw [run_query_of_ok hfault hexec]
    split
    · rename_i hlength
      exact Or.inl ⟨Or.inr hlength, _, rfl⟩
    · rename_i hlength
      exact Or.inr ⟨rfl, not_not.mp hlength, rfl⟩

/-! ## Updates -/

/-- The statements that rewrite rows of networks and nodes. They are never refused. -/
def Stmt.isUpdate : Stmt → Bool
  | .updateNetworkState _ _ _ => true
  | .updateNodeSecret _ _ _ => true
  | .updateNodeEpoch _ _ => true
  | _ => false

/-- The database after the statements. -/
def execAll (stmts : List Stmt) (db : Db) : Db := stmts.foldl (fun db s => (exec s db).2) db

/-- An update does not fail by itself. -/
theorem exec_of_isUpdate {s : Stmt} (hs : s.isUpdate = true) (db : Db) :
    ∃ value, exec s db = (.ok value, (exec s db).2) := by
  cases s with
  | updateNetworkState id state collectivePk => exact ⟨(), rfl⟩
  | updateNodeSecret networkId nodeId secretKey => exact ⟨(), rfl⟩
  | updateNodeEpoch id epoch => exact ⟨(), rfl⟩
  | _ => cases hs

/-- Updates none of which fails. -/
theorem run_updates_of_clear {stmts : List Stmt} (hupdate : ∀ s ∈ stmts, s.isUpdate = true)
    (hclear : ∀ i < stmts.length, faults i = none) :
    (stmts.forM execute).run execFaulty (db, faults) =
      (.ok (), execAll stmts db, faults.drop stmts.length) := by
  induction stmts generalizing db faults with
  | nil =>
    have hsame : faults.drop 0 = faults := funext fun i => congrArg faults (Nat.zero_add i)
    rw [List.length_nil, hsame]
    rfl
  | cons s stmts ih =>
    obtain ⟨value, hexec⟩ := exec_of_isUpdate (hupdate s List.mem_cons_self) db
    have hhead : (execute s).run execFaulty (db, faults) =
        (.ok (), (exec s db).2, faults.drop 1) :=
      run_query_of_ok (hclear 0 (by simp)) hexec
    have htail : ∀ i < stmts.length, faults.drop 1 i = none := fun i hi =>
      hclear (1 + i) (by rw [List.length_cons]; omega)
    refine (run_bind_of_ok hhead).trans ?_
    rw [ih (fun s hs => hupdate s (List.mem_cons_of_mem _ hs)) htail, Faults.drop_drop,
      List.length_cons, Nat.add_comm 1]
    rfl

/-- The first update that fails ends the request, the ones before it are done. -/
theorem run_updates_of_first {stmts : List Stmt} (hupdate : ∀ s ∈ stmts, s.isUpdate = true)
    {k : ℕ} {e : DbError} (hfirst : faults.First k e) (hk : k < stmts.length) :
    (stmts.forM execute).run execFaulty (db, faults) =
      (.error (.err (.database e)), execAll (stmts.take k) db, faults.drop (k + 1)) := by
  induction stmts generalizing db faults k with
  | nil => exact absurd hk (Nat.not_lt_zero k)
  | cons s stmts ih =>
    cases k with
    | zero =>
      have hhead : (execute s).run execFaulty (db, faults) =
          (.error (.err (.database e)), db, faults.drop 1) := run_query_of_fault hfirst.1
      exact run_bind_of_error hhead
    | succ k =>
      obtain ⟨value, hexec⟩ := exec_of_isUpdate (hupdate s List.mem_cons_self) db
      have hnone : faults 0 = none := hfirst.2 0 k.succ_pos
      have hhead : (execute s).run execFaulty (db, faults) =
          (.ok (), (exec s db).2, faults.drop 1) := run_query_of_ok hnone hexec
      have htail : (faults.drop 1).First k e := by
        rw [Faults.first_drop_iff fun i hi => by rwa [Nat.lt_one_iff.mp hi], Nat.add_comm]
        exact hfirst
      refine (run_bind_of_ok hhead).trans ?_
      rw [ih (fun s hs => hupdate s (List.mem_cons_of_mem _ hs)) htail
        (Nat.lt_of_succ_lt_succ hk), Faults.drop_drop, Nat.add_comm 1]
      rfl

end Sigimora.Server
