import Sigimora.Library.Faulty
import Sigimora.Server.Error

/-!
# Schema migrations

Whoever opens the database brings its schema up to date: the migrations that are not
recorded yet are applied in order, statement by statement and outside of any
transaction. Several servers may open the same database at once, each of them may
stop at any statement, and statements may fail.
-/

namespace Sigimora.Server

open Program

/-! ## The schema -/

/-- A column with its declaration. -/
structure Column where
  name : String
  declaration : String
  deriving DecidableEq, Repr

/-- What a statement of a migration creates, unless it exists. -/
inductive SchemaObject
  | table (name : String) (columns : List Column) (constraints : List String)
  | index (name table column : String)
  deriving DecidableEq, Repr

def SchemaObject.name : SchemaObject → String
  | .table name _ _ => name
  | .index name _ _ => name

def SchemaObject.isTable : SchemaObject → Bool
  | .table _ _ _ => true
  | .index _ _ _ => false

/-- One versioned migration, with the statements between the semicolons of its text. -/
structure Migration where
  version : ℕ
  name : String
  sql : List SchemaObject

/-- The table of the applied migrations. -/
def schemaVersionTable : SchemaObject :=
  .table "schema_version"
    [⟨"version", "INTEGER PRIMARY KEY"⟩, ⟨"name", "TEXT NOT NULL"⟩,
      ⟨"applied_at", "TEXT NOT NULL"⟩] []

/-- Ordered list of schema migrations. -/
def migrations : List Migration := [
  { version := 1
    name := "initial_schema"
    sql := [
      schemaVersionTable,
      .table "api_keys"
        [⟨"id", "TEXT PRIMARY KEY"⟩, ⟨"key_hash", "TEXT NOT NULL"⟩,
          ⟨"key_prefix", "TEXT NOT NULL"⟩, ⟨"label", "TEXT NOT NULL"⟩,
          ⟨"role", "TEXT NOT NULL DEFAULT 'user'"⟩, ⟨"created_at", "TEXT NOT NULL"⟩,
          ⟨"last_used_at", "TEXT"⟩] [],
      .table "networks"
        [⟨"id", "TEXT PRIMARY KEY"⟩, ⟨"n", "INTEGER NOT NULL"⟩, ⟨"t", "INTEGER NOT NULL"⟩,
          ⟨"f", "INTEGER NOT NULL"⟩, ⟨"quorum", "INTEGER NOT NULL"⟩, ⟨"collective_pk", "BLOB"⟩,
          ⟨"tracking_pk", "BLOB"⟩, ⟨"tracking_sk", "BLOB"⟩,
          ⟨"state", "TEXT NOT NULL DEFAULT 'created'"⟩, ⟨"created_at", "TEXT NOT NULL"⟩] [],
      .table "nodes"
        [⟨"id", "INTEGER PRIMARY KEY AUTOINCREMENT"⟩, ⟨"node_id", "INTEGER NOT NULL"⟩,
          ⟨"network_id", "TEXT NOT NULL REFERENCES networks(id)"⟩,
          ⟨"public_key", "BLOB NOT NULL"⟩, ⟨"secret_key", "BLOB NOT NULL"⟩,
          ⟨"company_name", "TEXT"⟩, ⟨"epoch", "INTEGER NOT NULL DEFAULT 0"⟩,
          ⟨"created_at", "TEXT NOT NULL"⟩] ["UNIQUE(node_id, network_id)"],
      .table "ledger"
        [⟨"block_index", "INTEGER PRIMARY KEY AUTOINCREMENT"⟩, ⟨"tx_id", "TEXT NOT NULL"⟩,
          ⟨"network_id", "TEXT NOT NULL REFERENCES networks(id)"⟩,
          ⟨"message_hash", "BLOB NOT NULL"⟩, ⟨"signature", "BLOB"⟩, ⟨"signers", "TEXT NOT NULL"⟩,
          ⟨"epoch", "INTEGER NOT NULL DEFAULT 0"⟩, ⟨"created_at", "TEXT NOT NULL"⟩] [],
      .table "signed_txs"
        [⟨"tx_id", "TEXT PRIMARY KEY"⟩, ⟨"network_id", "TEXT NOT NULL REFERENCES networks(id)"⟩,
          ⟨"message", "BLOB NOT NULL"⟩, ⟨"signature", "BLOB NOT NULL"⟩,
          ⟨"quorum", "TEXT NOT NULL"⟩, ⟨"created_at", "TEXT NOT NULL"⟩] [],
      .index "idx_ledger_network" "ledger" "network_id",
      .index "idx_nodes_network" "nodes" "network_id",
      .index "idx_signed_txs_network" "signed_txs" "network_id"] },
  { version := 2
    name := "audit_log_table"
    sql := [
      .table "audit_log"
        [⟨"id", "INTEGER PRIMARY KEY AUTOINCREMENT"⟩, ⟨"timestamp", "TEXT NOT NULL"⟩,
          ⟨"action", "TEXT NOT NULL"⟩, ⟨"actor", "TEXT NOT NULL"⟩, ⟨"target", "TEXT NOT NULL"⟩,
          ⟨"details", "TEXT NOT NULL"⟩] []] }]

/-- A row of the table of applied migrations. -/
structure SchemaVersionRow where
  version : ℕ
  name : String
  appliedAt : String

/-- The tables and indexes of a database file and its record of applied migrations. -/
structure Schema where
  objects : List SchemaObject
  versions : List SchemaVersionRow
  objects_nodup : (objects.map SchemaObject.name).Nodup
  versions_nodup : (versions.map SchemaVersionRow.version).Nodup

namespace Schema

/-- A new file. -/
def empty : Schema := ⟨[], [], List.nodup_nil, List.nodup_nil⟩

/-- Whether an index finds its table and the column of it. -/
def admits (schema : Schema) : SchemaObject → Except DbError Unit
  | .table _ _ _ => .ok ()
  | .index _ tableName column =>
    match schema.objects.find? fun object => object.isTable ∧ object.name = tableName with
    | some (.table _ columns _) =>
      if column ∈ columns.map Column.name then .ok ()
      else .error (.constraint s!"no such column: {column}")
    | _ => .error (.constraint s!"no such table: main.{tableName}")

/-- `CREATE TABLE IF NOT EXISTS` and `CREATE INDEX IF NOT EXISTS`. -/
def create (schema : Schema) (object : SchemaObject) : Except DbError Unit × Schema :=
  if h : object.name ∈ schema.objects.map SchemaObject.name then
    if ∃ old ∈ schema.objects, old.name = object.name ∧ old.isTable = object.isTable then
      (.ok (), schema)
    else (.error (.constraint s!"there is already an object named {object.name}"), schema)
  else
    match schema.admits object with
    | .error e => (.error e, schema)
    | .ok () => (.ok (), { schema with
        objects := schema.objects ++ [object]
        objects_nodup := by
          rw [List.map_append]
          exact schema.objects_nodup.append (List.nodup_singleton _) (by simpa using h) })

/-- Whether there is a record of applied migrations. -/
def hasVersionTable (schema : Schema) : Bool :=
  schema.objects.any fun object => object.isTable && object.name = "schema_version"

/-- `SELECT version FROM schema_version ORDER BY version`. -/
def selectVersions (schema : Schema) : Except DbError (List ℕ) :=
  if schema.hasVersionTable = true then
    .ok ((schema.versions.map SchemaVersionRow.version).insertionSort (· ≤ ·))
  else .error (.constraint "no such table: schema_version")

/-- `INSERT INTO schema_version`. -/
def insertVersion (schema : Schema) (row : SchemaVersionRow) : Except DbError Unit × Schema :=
  if ¬ schema.hasVersionTable = true then
    (.error (.constraint "no such table: schema_version"), schema)
  else if h : row.version ∈ schema.versions.map SchemaVersionRow.version then
    (.error (.constraint "UNIQUE constraint failed: schema_version.version"), schema)
  else
    (.ok (), { schema with
      versions := schema.versions ++ [row]
      versions_nodup := by
        rw [List.map_append]
        exact schema.versions_nodup.append (List.nodup_singleton _) (by simpa using h) })

end Schema

/-! ## Opening the database -/

/-- The statements of the migrations. -/
inductive SchemaStmt
  | create (object : SchemaObject)
  | selectVersions
  | insertVersion (row : SchemaVersionRow)

/-- What a successful statement returns. -/
@[reducible] def SchemaStmt.Value : SchemaStmt → Type
  | .selectVersions => List ℕ
  | _ => Unit

/-- The answer to a statement. -/
abbrev SchemaReply (s : SchemaStmt) : Type := Except DbError s.Value

/-- Execute a statement. -/
def execSchema : (s : SchemaStmt) → Schema → SchemaReply s × Schema
  | .create object, schema => schema.create object
  | .selectVersions, schema => (schema.selectVersions, schema)
  | .insertVersion row, schema => schema.insertVersion row

/-- Execute a statement, unless it fails. -/
def execSchemaFaulty : (s : SchemaStmt) → Schema × Faults DbError →
    SchemaReply s × (Schema × Faults DbError) :=
  faulty execSchema fun _ e => .error e

/-- Execute a statement; an error ends the opening. -/
def schemaQuery (s : SchemaStmt) : Program SchemaReply ApiError s.Value :=
  .call s fun
    | .ok value => .finish (.ok value)
    | .error e => .finish (.error (.database e))

/-- Apply a migration and record it. -/
def applyMigration (now : String) (migration : Migration) :
    Program SchemaReply ApiError PUnit := do
  migration.sql.forM fun object => schemaQuery (.create object)
  schemaQuery (.insertVersion ⟨migration.version, migration.name, now⟩)

/-- Run all pending versioned migrations in order. -/
def runVersionedMigrations (now : ℕ → String) : Program SchemaReply ApiError PUnit := do
  schemaQuery (.create schemaVersionTable)
  let applied ← schemaQuery .selectVersions
  migrations.forM fun migration =>
    if applied.contains migration.version then pure ⟨⟩
    else applyMigration (now migration.version) migration

/-! ## What every opening keeps -/

/-- What the migrations create. -/
def schemaObjects : List SchemaObject := migrations.flatMap Migration.sql

/-- The objects of the schema have different names. -/
theorem schemaObjects_inj : ∀ object ∈ schemaObjects, ∀ other ∈ schemaObjects,
    object.name = other.name → object = other := by
  decide +kernel

/-- The table of versions is one of them. -/
theorem schemaVersionTable_mem : schemaVersionTable ∈ schemaObjects := by
  decide +kernel

/-- The migrations have different versions. -/
theorem versions_inj : ∀ migration ∈ migrations, ∀ other ∈ migrations,
    migration.version = other.version → migration = other := by
  intro migration hmigration other hother hversion
  have hnodup : (migrations.map Migration.version).Nodup := by decide
  exact List.inj_on_of_nodup_map hnodup hmigration hother hversion

namespace Schema

variable {schema schema' : Schema} {object : SchemaObject}

/-- The migration with this version has been recorded. -/
def Recorded (schema : Schema) (version : ℕ) : Prop :=
  version ∈ schema.versions.map SchemaVersionRow.version

/-- Everything in the schema comes from a migration. A recorded migration has been applied
completely, and so have the migrations before it. -/
structure Sound (schema : Schema) : Prop where
  known : ∀ object ∈ schema.objects, object ∈ schemaObjects
  recorded : ∀ row ∈ schema.versions, ∃ before migration after,
    migrations = before ++ migration :: after ∧
    row.version = migration.version ∧ row.name = migration.name ∧
    (∀ object ∈ migration.sql, object ∈ schema.objects) ∧
    ∀ earlier ∈ before, schema.Recorded earlier.version

/-- All migrations have been applied. -/
structure Complete (schema : Schema) : Prop extends schema.Sound where
  all_recorded : ∀ migration ∈ migrations, schema.Recorded migration.version

/-- Nothing has been removed. -/
structure Grows (schema schema' : Schema) : Prop where
  objects : schema.objects <+: schema'.objects
  versions : schema.versions <+: schema'.versions

/-- A schema grows into itself. -/
theorem Grows.refl (schema : Schema) : schema.Grows schema :=
  ⟨List.prefix_refl _, List.prefix_refl _⟩

/-- Growing twice is growing. -/
theorem Grows.trans {schema'' : Schema} (h : schema.Grows schema') (h' : schema'.Grows schema'') :
    schema.Grows schema'' :=
  ⟨h.objects.trans h'.objects, h.versions.trans h'.versions⟩

/-- A version that is recorded stays recorded. -/
theorem Grows.recorded (h : schema.Grows schema') {version : ℕ}
    (hversion : schema.Recorded version) : schema'.Recorded version :=
  (h.versions.map _).subset hversion

/-- The empty schema is sound. -/
theorem sound_empty : empty.Sound := ⟨nofun, nofun⟩

/-- A complete schema has all tables and indexes. -/
theorem Complete.mem_objects (h : schema.Complete) (hobject : object ∈ schemaObjects) :
    object ∈ schema.objects := by
  obtain ⟨migration, hmigration, hsql⟩ := List.mem_flatMap.mp hobject
  obtain ⟨row, hrow, hversion⟩ := List.mem_map.mp (h.all_recorded migration hmigration)
  obtain ⟨before, applied, after, hall, hsame, _, happlied, _⟩ := h.recorded row hrow
  have hmem : applied ∈ migrations := by
    rw [hall]
    exact List.mem_append_right _ List.mem_cons_self
  rw [versions_inj migration hmigration applied hmem (hversion.symm.trans hsame)] at hsql
  exact happlied object hsql

/-- What a statement that creates an object does to a sound schema. -/
theorem Sound.create (h : schema.Sound) (hobject : object ∈ schemaObjects)
    {reply : Except DbError Unit} (hcreate : schema.create object = (reply, schema')) :
    schema'.Sound ∧ schema.Grows schema' ∧ schema'.versions = schema.versions ∧
      (reply = .ok () → object ∈ schema'.objects) := by
  have hsame {reply : Except DbError Unit} (hreply : reply = .ok () → object ∈ schema.objects) :
      schema.Sound ∧ schema.Grows schema ∧ schema.versions = schema.versions ∧
        (reply = .ok () → object ∈ schema.objects) :=
    ⟨h, Grows.refl schema, rfl, hreply⟩
  unfold Schema.create at hcreate
  split at hcreate
  · next hname =>
    obtain ⟨old, hold, hnames⟩ := List.mem_map.mp hname
    obtain rfl := schemaObjects_inj old (h.known old hold) object hobject hnames
    split at hcreate
    · cases hcreate
      exact hsame fun _ => hold
    · cases hcreate
      exact hsame fun _ => hold
  · split at hcreate
    · cases hcreate
      exact hsame nofun
    · cases hcreate
      have hgrows : schema.objects <+: schema.objects ++ [object] := List.prefix_append _ _
      refine ⟨⟨?_, ?_⟩, ⟨hgrows, List.prefix_refl _⟩, rfl,
        fun _ => List.mem_append_right _ (by simp)⟩
      · intro other hother
        rcases List.mem_append.mp hother with hold | hnew
        · exact h.known other hold
        · rw [List.mem_singleton.mp hnew]
          exact hobject
      · intro row hrow
        obtain ⟨before, migration, after, hall, hversion, hname, hsql, hbefore⟩ :=
          h.recorded row hrow
        exact ⟨before, migration, after, hall, hversion, hname,
          fun other hother => hgrows.subset (hsql other hother), hbefore⟩

/-- Recording a migration that has been applied after those before it. -/
theorem Sound.insertVersion (h : schema.Sound) {row : SchemaVersionRow}
    {before after : List Migration} {migration : Migration}
    (hall : migrations = before ++ migration :: after) (hversion : row.version = migration.version)
    (hname : row.name = migration.name) (hsql : ∀ object ∈ migration.sql, object ∈ schema.objects)
    (hbefore : ∀ earlier ∈ before, schema.Recorded earlier.version)
    {reply : Except DbError Unit} (hinsert : schema.insertVersion row = (reply, schema')) :
    schema'.Sound ∧ schema.Grows schema' ∧
      (reply = .ok () → schema'.Recorded row.version) := by
  unfold Schema.insertVersion at hinsert
  split at hinsert
  · cases hinsert
    exact ⟨h, Grows.refl schema, nofun⟩
  · split at hinsert
    · cases hinsert
      exact ⟨h, Grows.refl schema, nofun⟩
    · cases hinsert
      have hlater {version : ℕ} (hversion : schema.Recorded version) :
          version ∈ (schema.versions ++ [row]).map SchemaVersionRow.version :=
        ((List.prefix_append _ _).map _).subset hversion
      refine ⟨⟨h.known, ?_⟩, ⟨List.prefix_refl _, List.prefix_append _ _⟩, fun _ => ?_⟩
      · intro other hother
        rcases List.mem_append.mp hother with hold | hnew
        · obtain ⟨before, migration, after, hall, hversion, hname, hsql, hbefore⟩ :=
            h.recorded other hold
          exact ⟨before, migration, after, hall, hversion, hname, hsql,
            fun earlier hearlier => hlater (hbefore earlier hearlier)⟩
        · rw [List.mem_singleton.mp hnew]
          exact ⟨before, migration, after, hall, hversion, hname, hsql,
            fun earlier hearlier => hlater (hbefore earlier hearlier)⟩
      · exact List.mem_map_of_mem (List.mem_append_right _ (by simp))

end Schema

/-! ## Openings side by side -/

section Histories

variable {h : List (Event SchemaReply)}

/-- The event shows that the migration has been recorded. -/
def ShowsRecorded (version : ℕ) : Event SchemaReply → Prop
  | ⟨.selectVersions, .ok versions⟩ => version ∈ versions
  | ⟨.insertVersion row, .ok _⟩ => row.version = version
  | _ => False

/-- The event shows that the table or index is there. -/
def ShowsCreated (object : SchemaObject) : Event SchemaReply → Prop
  | ⟨.create other, .ok _⟩ => other = object
  | _ => False

theorem showsCreated_create {object other : SchemaObject} {reply : Except DbError Unit}
    (h : ShowsCreated other ⟨.create object, reply⟩) : reply = .ok () ∧ object = other := by
  cases reply with
  | error e => exact h.elim
  | ok value => exact ⟨rfl, h⟩

theorem showsRecorded_insert {row : SchemaVersionRow} {version : ℕ} {reply : Except DbError Unit}
    (h : ShowsRecorded version ⟨.insertVersion row, reply⟩) :
    reply = .ok () ∧ row.version = version := by
  cases reply with
  | error e => exact h.elim
  | ok value => exact ⟨rfl, h⟩

theorem showsRecorded_select {version : ℕ} {reply : Except DbError (List ℕ)}
    (h : ShowsRecorded version ⟨.selectVersions, reply⟩) :
    ∃ versions, reply = .ok versions ∧ version ∈ versions := by
  cases reply with
  | error e => exact h.elim
  | ok versions => exact ⟨versions, rfl, h⟩

/-- What an opening issues: it records a migration after everything in it and everything
before it. -/
def MigrationStmt (h : List (Event SchemaReply)) : SchemaStmt → Prop
  | .create object => object ∈ schemaObjects
  | .selectVersions => True
  | .insertVersion row => ∃ before migration after, migrations = before ++ migration :: after ∧
      row.version = migration.version ∧ row.name = migration.name ∧
      (∀ object ∈ migration.sql, ∃ event ∈ h, ShowsCreated object event) ∧
      ∀ earlier ∈ before, ∃ event ∈ h, ShowsRecorded earlier.version event

/-- An opening returns when all migrations are recorded. -/
def AllShown (h : List (Event SchemaReply)) : Prop :=
  ∀ migration ∈ migrations, ∃ event ∈ h, ShowsRecorded migration.version event

theorem meets_schemaQuery {Q : List (Event SchemaReply) → SchemaStmt → Prop} {s : SchemaStmt}
    {Post : List (Event SchemaReply) → s.Value → Prop} (hs : Q h s)
    (hpost : ∀ value, Post (h ++ [⟨s, .ok value⟩]) value) : Meets Q Post h (schemaQuery s) := by
  refine meets_call.mpr ⟨hs, fun reply => ?_⟩
  cases reply with
  | error e => exact meets_error _
  | ok value => exact meets_ok.mpr (hpost value)

/-- Creating the objects of a list shows them, and what was shown before. -/
theorem meets_creates {objects : List SchemaObject} (hobjects : ∀ object ∈ objects,
    object ∈ schemaObjects) (h : List (Event SchemaReply)) :
    Meets MigrationStmt (fun h' _ => h <+: h' ∧
        ∀ object ∈ objects, ∃ event ∈ h', ShowsCreated object event) h
      (objects.forM fun object => schemaQuery (.create object)) := by
  induction objects generalizing h with
  | nil => exact meets_ok.mpr ⟨List.prefix_refl h, nofun⟩
  | cons object objects ih =>
    obtain ⟨hfirst, hrest⟩ := List.forall_mem_cons.mp hobjects
    refine Meets.bind (Q := fun h' _ => h <+: h' ∧ ∃ event ∈ h', ShowsCreated object event)
      (meets_schemaQuery hfirst fun _ => ⟨List.prefix_append _ _, _,
        List.mem_append_right _ (List.mem_singleton_self _), rfl⟩) ?_
    rintro h' ⟨⟩ ⟨hpart, event, hevent, hshown⟩
    refine (ih hrest h').mono fun h'' _ hafter => ⟨hpart.trans hafter.1, ?_⟩
    exact List.forall_mem_cons.mpr ⟨⟨event, hafter.1.subset hevent, hshown⟩, hafter.2⟩

/-- The loop over the migrations that are left. -/
theorem meets_migrations (now : ℕ → String) {applied : List ℕ} {before rest : List Migration}
    (hall : migrations = before ++ rest)
    (hbefore : ∀ earlier ∈ before, ∃ event ∈ h, ShowsRecorded earlier.version event)
    (happlied : ∀ version ∈ applied, ∃ event ∈ h, ShowsRecorded version event) :
    Meets MigrationStmt (fun h' _ => AllShown h') h (rest.forM fun migration =>
      if applied.contains migration.version then pure ⟨⟩
      else applyMigration (now migration.version) migration) := by
  induction rest generalizing h before with
  | nil =>
    rw [List.append_nil] at hall
    refine meets_ok.mpr fun migration hmigration => ?_
    rw [hall] at hmigration
    exact hbefore migration hmigration
  | cons migration rest ih =>
    refine Meets.bind (Q := fun h' _ => h <+: h' ∧
      ∃ event ∈ h', ShowsRecorded migration.version event) ?_ ?_
    · beta_reduce
      split
      · next hcontains =>
        exact meets_ok.mpr ⟨List.prefix_refl h, happlied _ (List.contains_iff_mem.mp hcontains)⟩
      · have hsql : ∀ object ∈ migration.sql, object ∈ schemaObjects := fun object hobject =>
          List.mem_flatMap.mpr ⟨migration, by rw [hall]; simp, hobject⟩
        refine Meets.bind (meets_creates hsql h) ?_
        rintro h' ⟨⟩ ⟨hpart, hcreated⟩
        refine meets_schemaQuery ⟨before, migration, rest, hall, rfl, rfl, hcreated, ?_⟩
          fun _ => ⟨hpart.trans (List.prefix_append _ _), _,
            List.mem_append_right _ (List.mem_singleton_self _), rfl⟩
        intro earlier hearlier
        obtain ⟨event, hevent, hshown⟩ := hbefore earlier hearlier
        exact ⟨event, hpart.subset hevent, hshown⟩
    · rintro h' ⟨⟩ ⟨hpart, hrecorded⟩
      have hlater {version : ℕ} (hshown : ∃ event ∈ h, ShowsRecorded version event) :
          ∃ event ∈ h', ShowsRecorded version event := by
        obtain ⟨event, hevent, hshown⟩ := hshown
        exact ⟨event, hpart.subset hevent, hshown⟩
      have hsplit : migrations = (before ++ [migration]) ++ rest := by
        rw [hall, List.append_assoc]
        rfl
      refine ih hsplit ?_ ?_
      · intro earlier hearlier
        rcases List.mem_append.mp hearlier with hold | hnew
        · exact hlater (hbefore earlier hold)
        · rw [List.mem_singleton.mp hnew]
          exact hrecorded
      · exact fun version hversion => hlater (happlied version hversion)

/-- The migrations run their own statements, and end with everything shown. -/
theorem meets_runVersionedMigrations (now : ℕ → String) (h : List (Event SchemaReply)) :
    Meets MigrationStmt (fun h' _ => AllShown h') h (runVersionedMigrations now) := by
  refine Meets.bind (Q := fun _ _ => True)
    (meets_schemaQuery schemaVersionTable_mem fun _ => trivial) fun h ⟨⟩ _ => ?_
  refine Meets.bind (Q := fun h applied => ∀ version ∈ applied, ∃ event ∈ h,
    ShowsRecorded version event) (meets_schemaQuery trivial fun versions version hversion => ⟨_,
      List.mem_append_right _ (List.mem_singleton_self _), hversion⟩) fun h applied happlied => ?_
  exact meets_migrations now (List.nil_append migrations).symm nofun happlied

end Histories

section Invariant

variable {ι : Type} [DecidableEq ι] {log : List (ι × Event SchemaReply)} {schema schema' : Schema}

/-- What the event shows is true of the schema. -/
structure Certified (event : Event SchemaReply) (schema : Schema) : Prop where
  created : ∀ object, ShowsCreated object event → object ∈ schema.objects
  recorded : ∀ version, ShowsRecorded version event → schema.Recorded version

omit [DecidableEq ι] in
/-- What a reply certifies stays true as the schema grows. -/
theorem Certified.grows {event : Event SchemaReply} (h : Certified event schema)
    (hgrows : schema.Grows schema') : Certified event schema' :=
  ⟨fun object hshown => hgrows.objects.subset (h.created object hshown),
    fun version hshown => hgrows.recorded (h.recorded version hshown)⟩

/-- The schema is sound, and whatever an opening was told of it is true. -/
structure SchemaInvariant (log : List (ι × Event SchemaReply)) (schema : Schema) : Prop where
  sound : schema.Sound
  certified : ∀ entry ∈ log, Certified entry.2 schema

/-- What a program has been shown stays true. -/
theorem SchemaInvariant.of_history (h : SchemaInvariant log schema) {i : ι}
    {event : Event SchemaReply} (hevent : event ∈ history i log) : Certified event schema := by
  obtain ⟨entry, hentry, hsome⟩ := List.mem_filterMap.mp hevent
  split at hsome
  · cases hsome
    exact h.certified entry hentry
  · cases hsome

omit [DecidableEq ι] in
/-- The invariant goes on to the next reply. -/
theorem SchemaInvariant.append (h : SchemaInvariant log schema) (hsound : schema'.Sound)
    (hgrows : schema.Grows schema') (i : ι) {event : Event SchemaReply}
    (hevent : Certified event schema') : SchemaInvariant (log ++ [(i, event)]) schema' := by
  refine ⟨hsound, fun entry hentry => ?_⟩
  rcases List.mem_append.mp hentry with hold | hnew
  · exact (h.certified entry hold).grows hgrows
  · rw [List.mem_singleton.mp hnew]
    exact hevent

/-- A statement of an opening keeps the schema sound and shows what is true. -/
theorem SchemaInvariant.exec (h : SchemaInvariant log schema) (i : ι) {s : SchemaStmt}
    (hs : MigrationStmt (history i log) s) :
    (execSchema s schema).2.Sound ∧ schema.Grows (execSchema s schema).2 ∧
      Certified ⟨s, (execSchema s schema).1⟩ (execSchema s schema).2 := by
  cases s with
  | create object =>
    obtain ⟨hsound, hgrows, _, hcreated⟩ :=
      h.sound.create (show object ∈ schemaObjects from hs) (Prod.eta (schema.create object)).symm
    refine ⟨hsound, hgrows, fun other hshown => ?_, fun version hshown => ?_⟩
    · obtain ⟨hok, rfl⟩ := showsCreated_create hshown
      exact hcreated hok
    · exact hshown.elim
  | selectVersions =>
    refine ⟨h.sound, Schema.Grows.refl schema, fun object hshown => hshown.elim,
      fun version hshown => ?_⟩
    obtain ⟨versions, hselect, hversion⟩ := showsRecorded_select hshown
    simp only [execSchema, Schema.selectVersions] at hselect
    split at hselect
    · cases hselect
      exact (List.mem_insertionSort _).mp hversion
    · cases hselect
  | insertVersion row =>
    obtain ⟨before, migration, after, hall, hversion, hname, hsql, hbefore⟩ := hs
    have hcreated : ∀ object ∈ migration.sql, object ∈ schema.objects := by
      intro object hobject
      obtain ⟨event, hevent, hshown⟩ := hsql object hobject
      exact (h.of_history hevent).created object hshown
    have hearlier : ∀ earlier ∈ before, schema.Recorded earlier.version := by
      intro earlier hmem
      obtain ⟨event, hevent, hshown⟩ := hbefore earlier hmem
      exact (h.of_history hevent).recorded earlier.version hshown
    obtain ⟨hsound, hgrows, hrecorded⟩ := h.sound.insertVersion hall hversion hname hcreated
      hearlier (Prod.eta (schema.insertVersion row)).symm
    refine ⟨hsound, hgrows, fun object hshown => hshown.elim, fun version hshown => ?_⟩
    obtain ⟨hok, rfl⟩ := showsRecorded_insert hshown
    exact hrecorded hok

/-- So does a statement that may fail. -/
theorem SchemaInvariant.execFaulty {store : Schema × Faults DbError}
    (h : SchemaInvariant log store.1) (i : ι) {s : SchemaStmt}
    (hs : MigrationStmt (history i log) s) :
    SchemaInvariant (log ++ [(i, ⟨s, (execSchemaFaulty s store).1⟩)])
      (execSchemaFaulty s store).2.1 := by
  obtain ⟨schema, faults⟩ := store
  cases hfault : faults 0 with
  | none =>
    rw [execSchemaFaulty, faulty_of_none hfault]
    obtain ⟨hsound, hgrows, hcertified⟩ := h.exec i hs
    exact h.append hsound hgrows i hcertified
  | some e =>
    rw [execSchemaFaulty, faulty_of_some hfault]
    refine h.append h.sound (Schema.Grows.refl schema) i ⟨fun object hshown => ?_,
      fun version hshown => ?_⟩
    · cases s <;> exact hshown.elim
    · cases s <;> exact hshown.elim

end Invariant

/-! ## An opening that is not disturbed -/

/-- Whether the table and the column of an index are among the objects. -/
def SchemaObject.coveredBy (done : List SchemaObject) : SchemaObject → Bool
  | .table _ _ _ => true
  | .index _ tableName column => done.any fun
    | .table name columns _ => name = tableName && (columns.map Column.name).contains column
    | .index _ _ _ => false

/-- Every index comes after its table. -/
def indexesCovered : List SchemaObject → List SchemaObject → Bool
  | _, [] => true
  | done, object :: rest => object.coveredBy done && indexesCovered (done ++ [object]) rest

/-- Every index of a migration is on a table that it has created before. -/
theorem migrations_indexesCovered : ∀ migration ∈ migrations,
    indexesCovered [] migration.sql = true := by
  decide +kernel

namespace Schema

variable {schema : Schema} {object : SchemaObject}

/-- An index whose table is there is created. -/
theorem Sound.admits (h : schema.Sound) {done : List SchemaObject}
    (hdone : ∀ object ∈ done, object ∈ schema.objects) (hcovered : object.coveredBy done = true) :
    schema.admits object = .ok () := by
  cases object with
  | table name columns constraints => rfl
  | index name tableName column =>
    obtain ⟨found, hfound, hmatch⟩ := List.any_eq_true.mp hcovered
    cases found with
    | index _ _ _ => cases hmatch
    | table foundName columns constraints =>
      rw [Bool.and_eq_true, decide_eq_true_iff, List.contains_iff_mem] at hmatch
      obtain ⟨rfl, hcolumn⟩ := hmatch
      have hmem := hdone _ hfound
      have hfind : schema.objects.find?
          (fun other => decide (other.isTable = true ∧ other.name = foundName)) =
          some (.table foundName columns constraints) := by
        have hfound : (schema.objects.find?
            fun other => decide (other.isTable = true ∧ other.name = foundName)).isSome = true :=
          List.find?_isSome.mpr ⟨_, hmem, decide_eq_true ⟨rfl, rfl⟩⟩
        obtain ⟨other, hother⟩ := Option.isSome_iff_exists.mp hfound
        have hname : other.isTable = true ∧ other.name = foundName := by
          simpa using List.find?_some hother
        rw [hother, schemaObjects_inj other (h.known other (List.mem_of_find?_eq_some hother)) _
          (h.known _ hmem) hname.2]
      simp only [Schema.admits, hfind, if_pos hcolumn]

/-- An object of the schema that is admitted is created. -/
theorem Sound.create_eq_ok (h : schema.Sound) (hobject : object ∈ schemaObjects)
    (hadmits : schema.admits object = .ok ()) :
    ∃ schema', schema.create object = (.ok (), schema') := by
  unfold Schema.create
  split
  · next hname =>
    obtain ⟨old, hold, hnames⟩ := List.mem_map.mp hname
    rw [if_pos ⟨old, hold, hnames, by
      rw [schemaObjects_inj old (h.known old hold) object hobject hnames]⟩]
    exact ⟨schema, rfl⟩
  · rw [hadmits]
    exact ⟨_, rfl⟩

/-- The table of versions is there once it has been created. -/
theorem hasVersionTable_of_mem (h : schemaVersionTable ∈ schema.objects) :
    schema.hasVersionTable = true :=
  List.any_eq_true.mpr ⟨_, h, by decide⟩

/-- What is there is not created again. -/
theorem create_of_mem (h : object ∈ schema.objects) :
    schema.create object = (.ok (), schema) := by
  unfold Schema.create
  rw [dif_pos (List.mem_map_of_mem h), if_pos ⟨object, h, rfl, rfl⟩]

/-- A version that is not recorded can be. -/
theorem insertVersion_eq_ok (htable : schema.hasVersionTable = true) (row : SchemaVersionRow)
    (hnew : ¬ schema.Recorded row.version) :
    ∃ schema', schema.insertVersion row = (.ok (), schema') ∧
      schema'.versions = schema.versions ++ [row] := by
  unfold Schema.insertVersion
  rw [if_neg (not_not.mpr htable)]
  split
  · next hold => exact absurd hold hnew
  · exact ⟨_, rfl, rfl⟩

/-- A statement that succeeds returns its value and the new schema. -/
theorem run_schemaQuery_of_ok {s : SchemaStmt} {value : s.Value} {schema' : Schema}
    (h : execSchema s schema = (.ok value, schema')) :
    (schemaQuery s).run execSchema schema = (.ok value, schema') := by
  unfold schemaQuery
  rw [run_call, h]
  rfl

/-- Creating objects that are covered. -/
theorem Sound.run_creates {schema : Schema} (h : schema.Sound) (done : List SchemaObject)
    {objects : List SchemaObject} (hdone : ∀ object ∈ done, object ∈ schema.objects)
    (hobjects : ∀ object ∈ objects, object ∈ schemaObjects)
    (hcovered : indexesCovered done objects = true) :
    ∃ schema', (objects.forM fun object => schemaQuery (.create object)).run execSchema schema =
        (.ok ⟨⟩, schema') ∧
      schema'.Sound ∧ schema.Grows schema' ∧ schema'.versions = schema.versions ∧
      ∀ object ∈ objects, object ∈ schema'.objects := by
  induction objects generalizing schema done with
  | nil => exact ⟨schema, rfl, h, Grows.refl schema, rfl, nofun⟩
  | cons object objects ih =>
    obtain ⟨hobject, hrest⟩ := List.forall_mem_cons.mp hobjects
    obtain ⟨hfirst, hlater⟩ := Bool.and_eq_true_iff.mp hcovered
    obtain ⟨middle, hcreate⟩ := h.create_eq_ok hobject (h.admits hdone hfirst)
    obtain ⟨hsound, hgrows, hversions, hcreated⟩ := h.create hobject hcreate
    have hthere : ∀ other ∈ done ++ [object], other ∈ middle.objects := by
      intro other hother
      rcases List.mem_append.mp hother with hold | hnew
      · exact hgrows.objects.subset (hdone other hold)
      · rw [List.mem_singleton.mp hnew]
        exact hcreated rfl
    obtain ⟨schema', hrun, hsound', hgrows', hversions', hall⟩ := ih hsound _ hthere hrest hlater
    refine ⟨schema', ?_, hsound', hgrows.trans hgrows', hversions'.trans hversions, ?_⟩
    · exact run_bind_eq_ok.mpr ⟨(), middle, run_schemaQuery_of_ok hcreate, hrun⟩
    · exact List.forall_mem_cons.mpr ⟨hgrows'.objects.subset (hcreated rfl), hall⟩

/-- The loop has come to the end of some migrations: these are recorded, and so are those that had
been recorded before the loop, and no others. -/
structure Midway (schema : Schema) (applied : List ℕ) (before : List Migration) : Prop
    extends schema.Sound where
  table : schemaVersionTable ∈ schema.objects
  all_before : ∀ earlier ∈ before, schema.Recorded earlier.version
  all_applied : ∀ version ∈ applied, schema.Recorded version
  only : ∀ version, schema.Recorded version →
    version ∈ applied ∨ ∃ earlier ∈ before, earlier.version = version

section Midway

variable {applied : List ℕ} {before rest : List Migration} {migration : Migration}

/-- A recorded migration is passed over. -/
theorem Midway.skip (h : schema.Midway applied before)
    (hcontains : applied.contains migration.version = true) :
    schema.Midway applied (before ++ [migration]) where
  toSound := h.toSound
  table := h.table
  all_before := List.forall_mem_append.mpr ⟨h.all_before, List.forall_mem_singleton.mpr
    (h.all_applied _ (List.contains_iff_mem.mp hcontains))⟩
  all_applied := h.all_applied
  only version hversion := (h.only version hversion).imp_right fun ⟨earlier, hearlier, hsame⟩ =>
    ⟨earlier, List.mem_append_left _ hearlier, hsame⟩

/-- The next migration is recorded only if it had been before the loop. -/
theorem Midway.not_recorded (h : schema.Midway applied before)
    (hall : migrations = before ++ migration :: rest)
    (hcontains : ¬ applied.contains migration.version = true) :
    ¬ schema.Recorded migration.version := by
  intro hrecorded
  rcases h.only _ hrecorded with hold | ⟨earlier, hearlier, hsame⟩
  · exact hcontains (List.contains_iff_mem.mpr hold)
  · have hnodup : (migrations.map Migration.version).Nodup := by decide
    rw [hall, List.map_append, List.map_cons] at hnodup
    exact (List.nodup_append.mp hnodup).2.2 _ (List.mem_map_of_mem hearlier) _
      List.mem_cons_self hsame

/-- Any other migration is applied and recorded. -/
theorem Midway.run_applyMigration (h : schema.Midway applied before)
    (hall : migrations = before ++ migration :: rest)
    (hcontains : ¬ applied.contains migration.version = true) (now : String) :
    ∃ next, (applyMigration now migration).run execSchema schema = (.ok ⟨⟩, next) ∧
      next.Midway applied (before ++ [migration]) ∧ schema.Grows next := by
  have hmem : migration ∈ migrations := by
    rw [hall]
    exact List.mem_append_right _ List.mem_cons_self
  have hsql : ∀ object ∈ migration.sql, object ∈ schemaObjects := fun object hobject =>
    List.mem_flatMap.mpr ⟨migration, hmem, hobject⟩
  obtain ⟨middle, hcreates, hsound, hgrows, hversions, hcreated⟩ :=
    h.run_creates [] nofun hsql (migrations_indexesCovered migration hmem)
  have hnew : ¬ middle.Recorded migration.version := by
    rw [Recorded, hversions]
    exact h.not_recorded hall hcontains
  have htable := hgrows.objects.subset h.table
  obtain ⟨next, hinsert, hnext⟩ := insertVersion_eq_ok (hasVersionTable_of_mem htable)
    ⟨migration.version, migration.name, now⟩ hnew
  obtain ⟨hsound', hgrows', hrecorded⟩ := hsound.insertVersion hall rfl rfl hcreated
    (fun earlier hearlier => hgrows.recorded (h.all_before earlier hearlier)) hinsert
  have hkept {version : ℕ} (hversion : schema.Recorded version) : next.Recorded version :=
    hgrows'.recorded (hgrows.recorded hversion)
  refine ⟨next, run_bind_eq_ok.mpr ⟨⟨⟩, middle, hcreates, run_schemaQuery_of_ok hinsert⟩,
    { toSound := hsound'
      table := hgrows'.objects.subset htable
      all_before := ?_
      all_applied := fun version hversion => hkept (h.all_applied version hversion)
      only := fun version hversion => ?_ }, hgrows.trans hgrows'⟩
  · exact List.forall_mem_append.mpr ⟨fun earlier hearlier => hkept (h.all_before earlier hearlier),
      List.forall_mem_singleton.mpr (hrecorded rfl)⟩
  · rw [Recorded, hnext, hversions, List.map_append] at hversion
    rcases List.mem_append.mp hversion with hold | hlast
    · exact (h.only version hold).imp_right fun ⟨earlier, hearlier, hsame⟩ =>
        ⟨earlier, List.mem_append_left _ hearlier, hsame⟩
    · exact Or.inr ⟨migration, List.mem_append_right _ (List.mem_singleton_self _),
        (List.mem_singleton.mp hlast).symm⟩

/-- The loop over the migrations that are left applies those that are not recorded. -/
theorem Midway.run_migrations {schema : Schema} (h : schema.Midway applied before)
    (now : ℕ → String) (hall : migrations = before ++ rest) :
    ∃ schema', (rest.forM fun migration =>
        if applied.contains migration.version then pure ⟨⟩
        else applyMigration (now migration.version) migration).run execSchema schema =
          (.ok ⟨⟩, schema') ∧
      schema'.Complete ∧ schema.Grows schema' := by
  induction rest generalizing schema before with
  | nil =>
    rw [List.append_nil] at hall
    exact ⟨schema, rfl, ⟨h.toSound, hall ▸ h.all_before⟩, Grows.refl schema⟩
  | cons migration rest ih =>
    have hsplit : migrations = (before ++ [migration]) ++ rest := by
      rw [hall, List.append_assoc]
      rfl
    by_cases hcontains : applied.contains migration.version = true
    · obtain ⟨schema', hrun, hcomplete, hgrows⟩ := ih (h.skip hcontains) hsplit
      refine ⟨schema', run_bind_eq_ok.mpr ⟨⟨⟩, schema, ?_, hrun⟩, hcomplete, hgrows⟩
      beta_reduce
      rw [if_pos hcontains]
      rfl
    · obtain ⟨next, happly, hnext, hgrows⟩ := h.run_applyMigration hall hcontains
        (now migration.version)
      obtain ⟨schema', hrun, hcomplete, hlater⟩ := ih hnext hsplit
      refine ⟨schema', run_bind_eq_ok.mpr ⟨⟨⟩, next, ?_, hrun⟩, hcomplete, hgrows.trans hlater⟩
      beta_reduce
      rw [if_neg hcontains]
      exact happly

end Midway

/-- An opening that is not disturbed completes a sound schema. -/
theorem Sound.run_opening (h : schema.Sound) (now : ℕ → String) :
    ∃ schema', (runVersionedMigrations now).run execSchema schema = (.ok ⟨⟩, schema') ∧
      schema'.Complete ∧ schema.Grows schema' := by
  obtain ⟨middle, hcreate⟩ := h.create_eq_ok schemaVersionTable_mem rfl
  obtain ⟨hsound, hgrows, _, hcreated⟩ := h.create schemaVersionTable_mem hcreate
  have htable := hcreated rfl
  let applied := (middle.versions.map SchemaVersionRow.version).insertionSort (· ≤ ·)
  have hselect : middle.selectVersions = .ok applied := by
    rw [selectVersions, if_pos (hasVersionTable_of_mem htable)]
  have happlied {version : ℕ} : version ∈ applied ↔ middle.Recorded version :=
    List.mem_insertionSort _
  have hmidway : middle.Midway applied [] :=
    ⟨hsound, htable, nofun, fun _ => happlied.mp, fun _ hversion =>
      Or.inl (happlied.mpr hversion)⟩
  obtain ⟨schema', hrun, hcomplete, hlater⟩ :=
    hmidway.run_migrations now (List.nil_append migrations).symm
  refine ⟨schema', ?_, hcomplete, hgrows.trans hlater⟩
  exact run_bind_eq_ok.mpr ⟨(), middle, run_schemaQuery_of_ok hcreate, run_bind_eq_ok.mpr
    ⟨applied, middle, run_schemaQuery_of_ok (Prod.ext hselect rfl), hrun⟩⟩

/-- On a complete schema an opening changes nothing. -/
theorem Complete.run_opening (h : schema.Complete) (now : ℕ → String) :
    (runVersionedMigrations now).run execSchema schema = (.ok ⟨⟩, schema) := by
  have htable := h.mem_objects schemaVersionTable_mem
  let applied := (schema.versions.map SchemaVersionRow.version).insertionSort (· ≤ ·)
  have hselect : schema.selectVersions = .ok applied := by
    rw [selectVersions, if_pos (hasVersionTable_of_mem htable)]
  have hskipped : ∀ migration ∈ migrations, ∀ schema : Schema,
      ((if applied.contains migration.version then pure ⟨⟩
        else applyMigration (now migration.version) migration :
          Program SchemaReply ApiError PUnit)).run execSchema schema = (.ok ⟨⟩, schema) := by
    intro migration hmigration schema
    rw [if_pos (List.contains_iff_mem.mpr
      ((List.mem_insertionSort _).mpr (h.all_recorded migration hmigration)))]
    rfl
  have hloop := run_forM_eq_ok (fun schema _ => schema) hskipped schema
  have hfold : migrations.foldl (fun schema _ => schema) schema = schema := by
    induction migrations with
    | nil => rfl
    | cons _ _ ih => exact ih
  rw [hfold] at hloop
  exact run_bind_eq_ok.mpr ⟨(), schema, run_schemaQuery_of_ok (create_of_mem htable),
    run_bind_eq_ok.mpr ⟨applied, schema, run_schemaQuery_of_ok (Prod.ext hselect rfl), hloop⟩⟩

end Schema

/-! ## Recovery -/

section Recovery

variable {ι : Type} [DecidableEq ι]

/-- Openings of one database file; which statements fail is part of the store. -/
def openings (now : ι → ℕ → String) (schema : Schema) (faults : Faults DbError) :
    System SchemaReply ApiError (fun _ : ι => PUnit) (Schema × Faults DbError) where
  store := (schema, faults)
  programs i := runVersionedMigrations (now i)
  log := []

/-- **Recovery.** However many openings run side by side, wherever they stop and whichever
statements fail, the schema stays sound: a recorded migration has been applied completely. An
opening returns only on a complete schema. A later opening that is not disturbed completes the
schema, and changes nothing if it is complete. -/
theorem openings_recover {schema : Schema} (hsound : schema.Sound) (now : ι → ℕ → String)
    (faults : Faults DbError) (schedule : List ι) :
    let after := (openings now schema faults).runSchedule execSchemaFaulty schedule
    after.store.1.Sound ∧
    (∀ i, after.programs i = .finish (.ok ⟨⟩) → after.store.1.Complete) ∧
    ∀ later, ∃ recovered,
      (runVersionedMigrations later).run execSchema after.store.1 = (.ok ⟨⟩, recovered) ∧
      recovered.Complete ∧ after.store.1.Grows recovered ∧
      (after.store.1.Complete → recovered = after.store.1) := by
  intro after
  have hinvariant : after.Invariant (fun _ h s => MigrationStmt h s) (fun _ h _ => AllShown h)
      (fun log store => SchemaInvariant log store.1) := by
    refine System.Invariant.runSchedule (fun log store i s hJ hs => hJ.execFaulty i hs) ?_ schedule
    exact ⟨⟨hsound, nofun⟩, fun i => meets_runVersionedMigrations (now i) _⟩
  obtain ⟨hschema, hprograms⟩ := hinvariant
  refine ⟨hschema.sound, fun i hfinished => ⟨hschema.sound, fun migration hmigration => ?_⟩,
    fun later => ?_⟩
  · have hmeets := hprograms i
    rw [hfinished] at hmeets
    obtain ⟨event, hevent, hshown⟩ := meets_ok.mp hmeets migration hmigration
    exact (hschema.of_history hevent).recorded _ hshown
  · obtain ⟨recovered, hrun, hcomplete, hgrows⟩ := hschema.sound.run_opening later
    refine ⟨recovered, hrun, hcomplete, hgrows, fun hdone => ?_⟩
    rw [hdone.run_opening later] at hrun
    cases hrun
    rfl

/-- Two servers that open a new file. The first one stops in the middle of a migration, and
then a statement of the second one fails. -/
theorem openings_recover_two :
    let after := (openings (fun (_ : Bool) _ => "now") Schema.empty
      fun k => if k = 7 then some (.constraint "database is locked") else none).runSchedule
        execSchemaFaulty [true, true, true, true, false, false, false, false, false]
    after.store.1.Sound ∧
    (∀ i, after.programs i = .finish (.ok ⟨⟩) → after.store.1.Complete) ∧
    ∀ later, ∃ recovered,
      (runVersionedMigrations later).run execSchema after.store.1 = (.ok ⟨⟩, recovered) ∧
      recovered.Complete ∧ after.store.1.Grows recovered ∧
      (after.store.1.Complete → recovered = after.store.1) :=
  openings_recover Schema.sound_empty _ _ _

end Recovery

end Sigimora.Server
