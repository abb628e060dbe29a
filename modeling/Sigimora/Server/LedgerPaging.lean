import Sigimora.Library.Paging
import Sigimora.Server.LedgerAtomicity
import Sigimora.Server.Privilege

/-!
# Paging through the ledger

A client asks for the ledger of a network page by page, while the server goes on
with other requests. Blocks are only appended, and the newest ones are listed
first, so a client that goes on until a page comes back short has seen every
block that was there when it started.
-/

namespace Sigimora.Server

open Handler Program Paging

/-! ## Listings of a ledger -/

/-- The blocks of a network, in the order of their indices. -/
def Db.blocksOf (db : Db) (networkId : String) : List LedgerRow :=
  db.ledger.filter fun row => row.networkId = networkId

/-- A block in a listing. -/
def ledgerEntry [JsonIds] [Rfc3339] (row : LedgerRow) (now : String) : LedgerEntry where
  blockIndex := row.blockIndex
  txId := row.txId
  payloadHashHex := ByteString.hexEncode row.messageHash
  signers := (JsonIds.fromStr row.signers).getD []
  epoch := row.epoch
  timestamp := storedTime row.createdAt now
  signatureHex := (row.signature.map ByteString.hexEncode).getD ""

variable {db : Db} {networkId : String}

/-- The listing of the database is a page of the blocks. -/
theorem Db.getLedgerByNetwork_eq_page {offset : ℕ} (hoffset : offset < 2 ^ 63) (limit : ℕ) :
    db.getLedgerByNetwork networkId offset limit = Paging.page offset limit
      (db.blocksOf networkId) := by
  have hall : db.ledger.Pairwise fun a b => a.blockIndex < b.blockIndex := by
    rw [← List.pairwise_map, db.ledger_id]
    exact List.pairwise_lt_range'
  rw [getLedgerByNetwork, blocksOf, Paging.insertionSort_eq_reverse (hall.filter _), Db.page,
    if_pos hoffset, Paging.page]

/-! ## The ledger only grows -/

/-- A later database: networks have stayed, and blocks were only appended. -/
structure Db.Later (db db' : Db) : Prop where
  networks : ∀ id ∈ db.networks.map NetworkRow.id, id ∈ db'.networks.map NetworkRow.id
  ledger : db.ledger <+: db'.ledger

/-- A database is as late as itself. -/
theorem Db.Later.refl (db : Db) : db.Later db := ⟨fun _ h => h, List.prefix_refl _⟩

/-- What is later than a later database is later. -/
theorem Db.Later.trans {db db' db'' : Db} (h : db.Later db') (h' : db'.Later db'') :
    db.Later db'' :=
  ⟨fun id hid => h'.networks id (h.networks id hid), h.ledger.trans h'.ledger⟩

/-- A later database has further blocks of a network. -/
theorem Db.Later.blocksOf {db' : Db} (h : db.Later db') (networkId : String) :
    db.blocksOf networkId <+: db'.blocksOf networkId := by
  obtain ⟨added, hadded⟩ := h.ledger
  rw [Db.blocksOf, Db.blocksOf, ← hadded, List.filter_append]
  exact List.prefix_append _ _

/-- No statement removes a network or a block. -/
theorem Db.later_exec (s : Stmt) (db : Db) : db.Later (exec s db).2 := by
  constructor
  · intro id hid
    by_cases hs : s.writes = some .networks
    · cases s with
      | insertNetwork net =>
        simp only [exec, Db.insertNetwork]
        split
        · exact hid
        · rw [List.map_append]
          exact List.mem_append_left _ hid
      | updateNetworkState =>
        simp only [exec, Db.updateNetworkState, Db.mapNetworks, List.map_map]
        obtain ⟨row, hrow, rfl⟩ := List.mem_map.mp hid
        refine List.mem_map.mpr ⟨row, hrow, ?_⟩
        rw [Function.comp_apply]
        split <;> rfl
      | _ => cases hs
    · have hnetworks : (exec s db).2.networks = db.networks := exec_agree hs db
      rwa [hnetworks]
  · by_cases hs : s.writes = some .ledger
    · cases s with
      | insertLedgerEntry entry =>
        simp only [exec, Db.insertLedgerEntry]
        split
        · exact List.prefix_append _ _
        · exact List.prefix_refl _
      | _ => cases hs
    · have hledger : (exec s db).2.ledger = db.ledger := exec_agree hs db
      rw [hledger]

/-- No request and no start does. -/
theorem Db.later_run {α : Type} (p : Handler α) (db : Db) : db.Later (p.run exec db).2 :=
  Only.run (J := db.Later) (only_true p) (fun s store _ h => h.trans (later_exec s store))
    (Later.refl db)

section Browsing

variable [Curve] [Cipher] [JsonIds] [Rfc3339] {ι : Type}

/-- Every event leads to a later database. -/
theorem Db.later_apply (db : Db) (event : ServerEvent ι) : db.Later (event.apply db) := by
  cases event with
  | start bootstrapKeys draws => exact later_run _ db
  | request who req => exact later_run _ db

/-- So do all events. -/
theorem Db.later_after (db : Db) (events : List (ServerEvent ι)) :
    db.Later (Run.after ServerEvent.apply db events) := by
  induction events generalizing db with
  | nil => exact Later.refl db
  | cons event events ih => exact (later_apply db event).trans (ih _)

/-! ## Browsing -/

/-- A client asks for one page after another from the `k`-th on; the events of a gap happen
before each of its requests. -/
def browseLedger (networkId : String) (limit : ℕ) (now : ℕ → String) :
    ℕ → Db → List (List (ServerEvent ι)) → List (Except (Fault ApiError) LedgerResponse)
  | _, _, [] => []
  | k, db, gap :: gaps =>
    let db := Run.after ServerEvent.apply db gap
    let answer := (getLedger networkId ⟨some (k * limit), some limit⟩ now).run exec db
    answer.1 :: browseLedger networkId limit now (k + 1) answer.2 gaps

/-- The blocks of the network at the client's requests. -/
def blocksAt (networkId : String) : Db → List (List (ServerEvent ι)) → List (List LedgerRow)
  | _, [] => []
  | db, gap :: gaps =>
    let db := Run.after ServerEvent.apply db gap
    db.blocksOf networkId :: blocksAt networkId db gaps

/-- The client sees the ledger grow. -/
theorem isChain_blocksAt (networkId : String) (db : Db) (gaps : List (List (ServerEvent ι))) :
    (db.blocksOf networkId :: blocksAt networkId db gaps).IsChain (· <+: ·) := by
  induction gaps generalizing db with
  | nil => exact List.isChain_singleton _
  | cons gap gaps ih =>
    exact List.isChain_cons_cons.mpr ⟨(db.later_after gap).blocksOf networkId, ih _⟩

/-- The response that shows the blocks. -/
def ledgerResponse (total : ℕ) (now : ℕ → String) (shown : List LedgerRow) : LedgerResponse where
  entries := shown.zipIdx.map fun entry => ledgerEntry entry.1 (now entry.2)
  total

omit [Cipher] [Curve] in
/-- A page of a ledger. -/
theorem run_getLedger {offset limit : ℕ} (hnet : networkId ∈ db.networks.map NetworkRow.id)
    (hoffset : offset < 2 ^ 63) (hlimit : limit ≤ 1000) (now : ℕ → String) :
    (getLedger networkId ⟨some offset, some limit⟩ now).run exec db =
      (.ok (ledgerResponse (db.countLedgerByNetwork networkId) now
        (Paging.page offset limit (db.blocksOf networkId))), db) := by
  obtain ⟨net, hfound⟩ := Option.isSome_iff_exists.mp (Db.mem_networks_iff.mp hnet)
  have hclamp : (PaginationParams.mk (some offset) (some limit)).limit = limit :=
    min_eq_left hlimit
  rw [getLedger, run_bind_of_ok (run_fetchNetwork_eq_ok.mpr ⟨hfound, rfl⟩),
    run_bind_of_ok (run_query_eq_ok.mpr rfl), run_bind_of_ok (run_query_eq_ok.mpr rfl), hclamp]
  rw [← Db.getLedgerByNetwork_eq_page hoffset]
  rfl

/-- The client is answered with pages of the blocks. -/
theorem browseLedger_eq_pages {limit k : ℕ} (hlimit : limit ≤ 1000)
    (hnet : networkId ∈ db.networks.map NetworkRow.id) {gaps : List (List (ServerEvent ι))}
    (hoffset : (k + gaps.length) * limit < 2 ^ 63) (now : ℕ → String) :
    ∃ responses : List LedgerResponse,
      browseLedger networkId limit now k db gaps = responses.map .ok ∧
      List.Forall₂ (fun response shown => ∃ total, response = ledgerResponse total now shown)
        responses (pages limit k (blocksAt networkId db gaps)) := by
  induction gaps generalizing k db with
  | nil => exact ⟨[], rfl, List.Forall₂.nil⟩
  | cons gap gaps ih =>
    have hnet := (db.later_after gap).networks networkId hnet
    have hfirst : k * limit < 2 ^ 63 :=
      lt_of_le_of_lt (Nat.mul_le_mul_right limit (Nat.le_add_right _ _)) hoffset
    have hrun := run_getLedger hnet hfirst hlimit now
    rw [List.length_cons, Nat.add_comm gaps.length, ← Nat.add_assoc] at hoffset
    obtain ⟨responses, hresponses, hpages⟩ := ih hnet hoffset
    let after := Run.after ServerEvent.apply db gap
    refine ⟨ledgerResponse (after.countLedgerByNetwork networkId) now
      (page (k * limit) limit (after.blocksOf networkId)) :: responses, ?_,
      List.Forall₂.cons ⟨after.countLedgerByNetwork networkId, rfl⟩ hpages⟩
    rw [browseLedger, hrun, List.map_cons, hresponses]

/-- **Nothing is missed.** All requests of the client are answered, and when the last page comes
back short, every block that the ledger had at the start was on one of the pages. -/
theorem browseLedger_complete {limit : ℕ} (hlimit : limit ≤ 1000)
    (hnet : networkId ∈ db.networks.map NetworkRow.id) {gaps : List (List (ServerEvent ι))}
    (hoffset : gaps.length * limit < 2 ^ 63) (now : ℕ → String) :
    ∃ responses : List LedgerResponse,
      browseLedger networkId limit now 0 db gaps = responses.map .ok ∧
      ∀ last, responses.getLast? = some last → last.entries.length < limit →
        ∀ row ∈ db.ledger, row.networkId = networkId →
          ∃ response ∈ responses, ∃ entry ∈ response.entries, ∃ readAt,
            entry = ledgerEntry row readAt := by
  obtain ⟨responses, hresponses, hpages⟩ :=
    browseLedger_eq_pages hlimit hnet (by rwa [Nat.zero_add]) now
  refine ⟨responses, hresponses, fun last hlast hshort row hrow hnetwork => ?_⟩
  -- the client has asked at least once, and the block was there at its first request
  cases gaps with
  | nil =>
    cases hpages
    cases hlast
  | cons gap gaps =>
    have hblock : row ∈ (Run.after ServerEvent.apply db gap).blocksOf networkId :=
      ((db.later_after gap).blocksOf networkId).subset
        (List.mem_filter.mpr ⟨hrow, decide_eq_true hnetwork⟩)
    obtain ⟨p, hp⟩ := List.mem_iff_getElem?.mp hblock
    have hgrows := (List.isChain_cons_cons.mp (isChain_blocksAt networkId db (gap :: gaps))).2
    have hlength (response : LedgerResponse) (shown : List LedgerRow)
        (h : ∃ total, response = ledgerResponse total now shown) :
        shown.length = response.entries.length := by
      obtain ⟨total, rfl⟩ := h
      rw [ledgerResponse, List.length_map, List.length_zipIdx]
    have hlastPage : ∀ shown, (pages limit 0 (blocksAt networkId db (gap :: gaps))).getLast? =
        some shown → shown.length < limit := by
      intro shown hshown
      obtain ⟨response, hresponse, hmade⟩ := forall₂_getLast? hpages hshown
      rw [hlast, Option.some.injEq] at hresponse
      rw [hlength response shown hmade, ← hresponse]
      exact hshort
    obtain ⟨shown, hshown, hmem⟩ := exists_mem_pages hgrows hp
      (by rw [Nat.zero_mul, Nat.zero_add]; exact (List.getElem?_eq_some_iff.mp hp).1) hlastPage
    obtain ⟨response, hresponse, total, rfl⟩ := Outcome.exists_of_forall₂ hpages.flip hshown
    obtain ⟨j, hj⟩ := List.mem_iff_getElem?.mp hmem
    exact ⟨_, hresponse, ledgerEntry row (now j),
      List.mem_map.mpr ⟨(row, j), List.mk_mem_zipIdx_iff_getElem?.mpr hj, rfl⟩, _, rfl⟩

omit [Curve] [Cipher] [JsonIds] [Rfc3339] in
/-- A ledger with one block, in pages of one block; before the second page a key is registered. -/
theorem browseLedger_complete_one_block :
    letI := exponentCurve
    letI := plainCipher
    letI := unreadIds
    letI := unreadTimes
    let db := (exec (.insertLedgerEntry ⟨0, "tx", "a", [], none, "[]", 0, ""⟩)
      (exec (.insertNetwork ⟨"a", 2, 1, 0, 2, none, none, none, "created", ""⟩) Db.empty).2).2
    let gaps : List (List (ServerEvent Unit)) :=
      [[], [.start ["key"] ⟨⟨[], "k0", ""⟩, fun _ => ("k1", "")⟩]]
    ∃ responses : List LedgerResponse,
      browseLedger "a" 1 (fun _ => "") 0 db gaps = responses.map .ok ∧
      ∀ last, responses.getLast? = some last → last.entries.length < 1 →
        ∀ row ∈ db.ledger, row.networkId = "a" →
          ∃ response ∈ responses, ∃ entry ∈ response.entries, ∃ readAt,
            entry = ledgerEntry row readAt := by
  let := exponentCurve
  let := plainCipher
  let := unreadIds
  let := unreadTimes
  intro db gaps
  exact browseLedger_complete (by decide) (by decide) (by decide) fun _ => ""

end Browsing

end Sigimora.Server
