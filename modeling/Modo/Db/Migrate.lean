import Mathlib.Data.List.Sort
import Modo.Encoding.Hex
import Modo.Lib.Utf8

/-!
# Migrations

`migrate` reads the `*.sql` files of a directory in the order of their names and runs
each file that the table `_migrations` does not record yet, in a transaction that also
records it with a checksum.  It stops at the first file that fails, or whose checksum
differs from the recorded one.

What a script does to the database is a parameter, and it may do anything, also to the
table `_migrations`.  Scripts that leave the table alone are applied as they should be
(`migrate_applies_pending`); one that does not can have files applied twice
(`tracking_lost`).
-/

namespace Modo.Migrations

/-! ## The files -/

/-- `fnv1a_hex` before it is written out. -/
def fnv1a (data : List UInt8) : UInt64 :=
  data.foldl (fun hash byte => (hash ^^^ byte.toUInt64) * 0x100000001b3) 0xcbf29ce484222325

def fnv1aHex (data : List UInt8) : String :=
  String.ofList ((List.range 16).map fun i => Hex.digit ((fnv1a data).toNat / 16 ^ (15 - i) % 16))

/-- An entry of a directory; `contents` is missing when `read_to_string` fails. -/
structure DirEntry where
  fileName : List UInt8
  contents : Option String
  deriving DecidableEq

/-- What `read_dir` finds; entries that cannot be read are missing. -/
inductive Directory where
  | absent
  | unreadable
  | entries (entries : List (Option DirEntry))

/-- `Path::extension`: what follows the last dot, unless the name begins with that dot. -/
def extension (fileName : List UInt8) : Option (List UInt8) :=
  match fileName.reverse.span (fun byte => byte != 46) with
  | (after, _ :: before) => if before = [] then none else some after.reverse
  | (_, []) => none

/-- The extension is `sql`. -/
def isSql (entry : DirEntry) : Bool := decide (extension entry.fileName = some [115, 113, 108])

/-- `to_string_lossy`. -/
def toStringLossy (fileName : List UInt8) : String := String.ofList (Utf8.decodeLossy fileName)

/-- The errors, with what their messages name. -/
inductive MigrateError where
  /-- "failed to read migrations directory". -/
  | readDirectory (dir : String)
  /-- "failed to read migration file". -/
  | readFile (name : String)
  /-- "checksum mismatch — file was modified after applying". -/
  | checksumMismatch (name existing checksum : String)
  /-- "failed to apply migration". -/
  | apply (name : String)
  /-- An error of the database, as it is. -/
  | database
  deriving DecidableEq

/-- A migration file. -/
structure File where
  fileName : List UInt8
  sql : String
  deriving DecidableEq

/-- The name under which the file is recorded. -/
def File.name (file : File) : String := toStringLossy file.fileName

def File.checksum (file : File) : String := fnv1aHex (Utf8.asBytes file.sql)

/-- The `*.sql` entries of a directory. -/
def Directory.sqlEntries : Directory → List DirEntry
  | absent | unreadable => []
  | entries found => (found.filterMap id).filter isSql

/-- Read the entries in turn. -/
def readAll : List DirEntry → Except MigrateError (List File)
  | [] => .ok []
  | entry :: rest =>
      match entry.contents with
      | none => .error (.readFile (toStringLossy entry.fileName))
      | some sql => (readAll rest).map fun files => ⟨entry.fileName, sql⟩ :: files

/-- The part of `migrate` on the blocking thread. -/
def readFiles (dir : String) (directory : Directory) : Except MigrateError (List File) :=
  match directory with
  | .absent => .ok []
  | .unreadable => .error (.readDirectory dir)
  | .entries _ =>
      readAll (directory.sqlEntries.insertionSort fun entry other =>
        entry.fileName ≤ other.fileName)

/-! ## The database -/

/-- A row of `_migrations`. -/
structure Record where
  name : String
  checksum : String
  appliedAt : String
  deriving DecidableEq

/-- The table `_migrations`, if there is one, and everything else. -/
structure Database (Schema : Type*) where
  schema : Schema
  migrations : Option (List Record)
  deriving DecidableEq

variable {Schema : Type*}

namespace Database

/-- `CREATE TABLE IF NOT EXISTS _migrations`. -/
def createTable (db : Database Schema) : Database Schema :=
  { db with migrations := some (db.migrations.getD []) }

/-- `SELECT checksum FROM _migrations WHERE name = ?1`; it fails without the table. -/
def select (name : String) (db : Database Schema) : Option (Option String) :=
  db.migrations.map fun records =>
    (records.find? fun record => decide (record.name = name)).map Record.checksum

/-- `INSERT INTO _migrations`; it fails without the table or when the name is taken. -/
def insert (record : Record) (db : Database Schema) : Option (Database Schema) :=
  match db.migrations with
  | none => none
  | some records =>
      if record.name ∈ records.map Record.name then none
      else some { db with migrations := some (records ++ [record]) }

end Database

/-- What the database does with a script, and whether a transaction that ends in a
state can be committed. -/
structure Sqlite (Schema : Type*) where
  executeBatch : String → Database Schema → Option (Database Schema)
  constraintsHold : Database Schema → Bool

/-- The statements of `migrate`. -/
inductive Statement where
  | createTable
  | select (name : String)
  | begin (name : String)
  | executeBatch (name : String)
  | insert (name : String)
  | commit (name : String)
  deriving DecidableEq

/-- One call: the statements that fail for reasons of their own, and the value of
`datetime('now')` when a file is recorded. -/
structure Env where
  fails : Statement → Bool
  datetimeNow : String → String

section Migrate

variable (sqlite : Sqlite Schema) (env : Env)

/-- The transaction that applies a file.  An error rolls it back. -/
def apply (file : File) (db : Database Schema) : Except MigrateError (Database Schema) :=
  if env.fails (.executeBatch file.name) then .error (.apply file.name)
  else
    match sqlite.executeBatch file.sql db with
    | none => .error (.apply file.name)
    | some executed =>
        if env.fails (.insert file.name) then .error .database
        else
          match executed.insert ⟨file.name, file.checksum, env.datetimeNow file.name⟩ with
          | none => .error .database
          | some recorded =>
              if env.fails (.commit file.name) || !sqlite.constraintsHold recorded then
                .error .database
              else .ok recorded

/-- One round of the loop. -/
def migrateFile (file : File) (db : Database Schema) : Except MigrateError (Database Schema) :=
  if env.fails (.select file.name) then .error .database
  else
    match db.select file.name with
    | none => .error .database
    | some (some existing) =>
        if existing ≠ file.checksum then
          .error (.checksumMismatch file.name existing file.checksum)
        else .ok db
    | some none =>
        if env.fails (.begin file.name) then .error .database else apply sqlite env file db

/-- The loop, with the database it leaves behind. -/
def migrateFiles : List File → Database Schema → Except MigrateError Unit × Database Schema
  | [], db => (.ok (), db)
  | file :: rest, db =>
      match migrateFile sqlite env file db with
      | .error error => (.error error, db)
      | .ok next => migrateFiles rest next

def migrate (dir : String) (directory : Directory) (db : Database Schema) :
    Except MigrateError Unit × Database Schema :=
  if env.fails .createTable then (.error .database, db)
  else
    match readFiles dir directory with
    | .error error => (.error error, db.createTable)
    | .ok files => migrateFiles sqlite env files db.createTable

end Migrate

/-! ## Recorded files -/

/-- The checksum recorded under a name. -/
def recorded (db : Database Schema) (name : String) : Option String := (db.select name).join

/-- The files that are not recorded. -/
def pending (db : Database Schema) (files : List File) : List File :=
  files.filter fun file => (recorded db file.name).isNone

/-- The script does not touch the table `_migrations`. -/
def LeavesTracking (sqlite : Sqlite Schema) (sql : String) : Prop :=
  ∀ db after, sqlite.executeBatch sql db = some after → after.migrations = db.migrations

/-- Apply the files one after the other. -/
def applyAll (sqlite : Sqlite Schema) (env : Env) :
    List File → Database Schema → Option (Database Schema)
  | [], db => some db
  | file :: rest, db => (apply sqlite env file db).toOption.bind (applyAll sqlite env rest)

/-- The loop stops at a file: it was recorded with another checksum at `start`, or it was
not recorded and cannot be applied to `db`, or its statements fail. -/
def Stops (sqlite : Sqlite Schema) (env : Env) (start db : Database Schema) (file : File) : Prop :=
  (∃ existing, recorded start file.name = some existing ∧ existing ≠ file.checksum) ∨
    (recorded start file.name = none ∧ ∃ error, apply sqlite env file db = .error error) ∨
    env.fails (.select file.name) = true ∨ env.fails (.begin file.name) = true

section Lemmas

variable {sqlite : Sqlite Schema} {env : Env} {db next : Database Schema} {file : File}

theorem select_eq_some (htable : db.migrations.isSome) (name : String) :
    db.select name = some (recorded db name) := by
  obtain ⟨records, hrecords⟩ := Option.isSome_iff_exists.mp htable
  simp [recorded, Database.select, hrecords]

theorem recorded_createTable (db : Database Schema) (name : String) :
    recorded db.createTable name = recorded db name := by
  cases hrecords : db.migrations with
  | none => simp [recorded, Database.select, Database.createTable, hrecords]
  | some records => simp [recorded, Database.select, Database.createTable, hrecords]

theorem createTable_of_isSome (htable : db.migrations.isSome) : db.createTable = db := by
  obtain ⟨records, hrecords⟩ := Option.isSome_iff_exists.mp htable
  unfold Database.createTable
  rw [hrecords, Option.getD_some, ← hrecords]

/-- An insert records the checksum under the name, and nothing else. -/
theorem recorded_insert {record : Record} (hinsert : db.insert record = some next) :
    next.migrations.isSome ∧ ∀ name, recorded next name =
      if name = record.name then some record.checksum else recorded db name := by
  unfold Database.insert at hinsert
  split at hinsert
  · cases hinsert
  rename_i records hrecords
  rw [Option.ite_none_left_eq_some, Option.some.injEq] at hinsert
  obtain ⟨hfree, rfl⟩ := hinsert
  refine ⟨rfl, ?_⟩
  intro name
  have hnone : ∀ found ∈ records, found.name ≠ record.name := by
    intro found hfound heq
    exact hfree (List.mem_map.mpr ⟨found, hfound, heq⟩)
  simp only [recorded, Database.select, hrecords, Option.map_some, Option.join_some,
    List.find?_append]
  by_cases hname : name = record.name
  · subst hname
    have hmissing : records.find? (fun found => decide (found.name = record.name)) = none := by
      rw [List.find?_eq_none]
      intro found hfound
      simpa using hnone found hfound
    simp [hmissing]
  · have hother : [record].find? (fun found => decide (found.name = name)) = none := by
      simp [Ne.symm hname]
    rw [hother, Option.or_none, if_neg hname]

/-- A file that is applied is recorded, and the other records stay. -/
theorem recorded_apply (halone : LeavesTracking sqlite file.sql)
    (happly : apply sqlite env file db = .ok next) :
    next.migrations.isSome ∧ ∀ name, recorded next name =
      if name = file.name then some file.checksum else recorded db name := by
  unfold apply at happly
  split at happly
  · cases happly
  split at happly
  · cases happly
  rename_i executed hexecute
  split at happly
  · cases happly
  split at happly
  · cases happly
  rename_i after hinsert
  split at happly
  · cases happly
  rw [Except.ok.injEq] at happly
  subst happly
  obtain ⟨htable, hrecorded⟩ := recorded_insert hinsert
  refine ⟨htable, ?_⟩
  intro name
  have hsame : recorded executed name = recorded db name := by
    rw [recorded, recorded, Database.select, Database.select, halone db executed hexecute]
  rw [hrecorded, hsame]

/-- Everything a round of the loop can do. -/
theorem migrateFile_cases (sqlite : Sqlite Schema) (env : Env) (file : File)
    (htable : db.migrations.isSome) :
    (∃ error, migrateFile sqlite env file db = .error error ∧ Stops sqlite env db db file) ∨
    (recorded db file.name = some file.checksum ∧ migrateFile sqlite env file db = .ok db) ∨
    ∃ next, recorded db file.name = none ∧ apply sqlite env file db = .ok next ∧
      migrateFile sqlite env file db = .ok next := by
  unfold migrateFile
  rw [select_eq_some htable]
  by_cases hselect : env.fails (.select file.name) = true
  · rw [if_pos hselect]
    exact Or.inl ⟨_, rfl, Or.inr (Or.inr (Or.inl hselect))⟩
  rw [if_neg hselect]
  cases hrecorded : recorded db file.name with
  | some existing =>
      by_cases hsame : existing = file.checksum
      · exact Or.inr (Or.inl ⟨congrArg some hsame, if_neg (not_not.mpr hsame)⟩)
      · exact Or.inl ⟨_, if_pos hsame, Or.inl ⟨existing, hrecorded, hsame⟩⟩
  | none =>
      by_cases hbegin : env.fails (.begin file.name) = true
      · exact Or.inl ⟨_, if_pos hbegin, Or.inr (Or.inr (Or.inr hbegin))⟩
      · simp only [if_neg hbegin]
        cases happly : apply sqlite env file db with
        | error error =>
            exact Or.inl ⟨error, rfl, Or.inr (Or.inl ⟨hrecorded, error, happly⟩)⟩
        | ok next =>
            refine Or.inr (Or.inr ⟨next, ?_, rfl, rfl⟩)
            trivial

/-- What is stopped by a database in which only other names were recorded. -/
theorem Stops.of_recorded {start other : Database Schema}
    (hsame : recorded other file.name = recorded start file.name)
    (hstops : Stops sqlite env other db file) : Stops sqlite env start db file := by
  rcases hstops with ⟨existing, hexisting, hne⟩ | ⟨hnone, happly⟩ | hfails
  · exact Or.inl ⟨existing, hsame ▸ hexisting, hne⟩
  · exact Or.inr (Or.inl ⟨hsame ▸ hnone, happly⟩)
  · exact Or.inr (Or.inr hfails)

theorem pending_congr {other : Database Schema} {files : List File}
    (hsame : ∀ file ∈ files, recorded other file.name = recorded db file.name) :
    pending other files = pending db files := by
  apply List.filter_congr
  intro file hfile
  rw [hsame file hfile]

end Lemmas

/-! ## The loop -/

section Loop

variable {sqlite : Sqlite Schema} {env : Env}

/-- How the loop over `files` went from `db`: the pending files among `before` were applied,
and it stopped at the first file of `after`, or `after` is empty. -/
structure Went (sqlite : Sqlite Schema) (env : Env) (files : List File) (db : Database Schema)
    (outcome : Except MigrateError Unit × Database Schema) (before after : List File) : Prop where
  split : files = before ++ after
  applied : applyAll sqlite env (pending db before) db = some outcome.2
  completed : outcome.1 = .ok () → after = []
  stopped : ∀ error, outcome.1 = .error error →
    ∃ file rest, after = file :: rest ∧ Stops sqlite env db outcome.2 file
  /-- The files that were passed are recorded with their checksums. -/
  table : outcome.2.migrations.isSome
  passed : ∀ file ∈ before, recorded outcome.2 file.name = some file.checksum
  /-- Those that were recorded before had the same checksum. -/
  matched : ∀ file ∈ before, ∀ existing, recorded db file.name = some existing →
    existing = file.checksum
  /-- Nothing else is recorded. -/
  others : ∀ name, (∀ file ∈ before, name ≠ file.name) →
    recorded outcome.2 name = recorded db name

variable {files before after : List File} {file : File} {db next : Database Schema}
  {outcome : Except MigrateError Unit × Database Schema}

theorem went_nil (htable : db.migrations.isSome) : Went sqlite env [] db (.ok (), db) [] [] where
  split := rfl
  applied := rfl
  completed := fun _ => rfl
  stopped := fun _ herror => by cases herror
  table := htable
  passed := by simp
  matched := by simp
  others := fun _ _ => rfl

theorem went_stop (htable : db.migrations.isSome) {error : MigrateError}
    (hstops : Stops sqlite env db db file) :
    Went sqlite env (file :: files) db (.error error, db) [] (file :: files) where
  split := rfl
  applied := rfl
  completed := fun hok => by cases hok
  stopped := fun _ _ => ⟨file, files, rfl, hstops⟩
  table := htable
  passed := by simp
  matched := by simp
  others := fun _ _ => rfl

/-- A recorded file in front. -/
theorem Went.skip (hwent : Went sqlite env files db outcome before after)
    (hnames : ∀ other ∈ files, other.name ≠ file.name)
    (hrecorded : recorded db file.name = some file.checksum) :
    Went sqlite env (file :: files) db outcome (file :: before) after where
  split := by rw [hwent.split, List.cons_append]
  applied := by
    rw [pending, List.filter_cons_of_neg (by simp [hrecorded])]
    exact hwent.applied
  completed := hwent.completed
  stopped := hwent.stopped
  table := hwent.table
  passed := by
    rw [List.forall_mem_cons]
    refine ⟨?_, hwent.passed⟩
    rw [hwent.others file.name, hrecorded]
    intro other hother
    exact (hnames other (hwent.split ▸ List.mem_append_left _ hother)).symm
  matched := by
    rw [List.forall_mem_cons]
    refine ⟨?_, hwent.matched⟩
    intro existing hexisting
    rw [hrecorded, Option.some.injEq] at hexisting
    exact hexisting.symm
  others := by
    intro name hname
    rw [List.forall_mem_cons] at hname
    exact hwent.others name hname.2

/-- A file that is applied in front. -/
theorem Went.apply (hwent : Went sqlite env files next outcome before after)
    (hnames : ∀ other ∈ files, other.name ≠ file.name)
    (halone : LeavesTracking sqlite file.sql) (hnone : recorded db file.name = none)
    (happly : Migrations.apply sqlite env file db = .ok next) :
    Went sqlite env (file :: files) db outcome (file :: before) after := by
  have hrecords := (recorded_apply halone happly).2
  have hsame : ∀ other ∈ files, recorded next other.name = recorded db other.name := by
    intro other hother
    rw [hrecords, if_neg (hnames other hother)]
  have hbefore : ∀ other ∈ before, other ∈ files := by
    intro other hother
    exact hwent.split ▸ List.mem_append_left _ hother
  constructor
  · rw [hwent.split, List.cons_append]
  · rw [pending, List.filter_cons_of_pos (by simp [hnone]), applyAll, happly]
    have hpending : pending next before = pending db before :=
      pending_congr fun other hother => hsame other (hbefore other hother)
    show applyAll sqlite env (pending db before) next = some outcome.2
    rw [← hpending]
    exact hwent.applied
  · exact hwent.completed
  · intro error herror
    obtain ⟨stop, rest, rfl, hstops⟩ := hwent.stopped error herror
    have hmem : stop ∈ files := hwent.split ▸ List.mem_append_right _ List.mem_cons_self
    exact ⟨stop, rest, rfl, hstops.of_recorded (hsame stop hmem)⟩
  · exact hwent.table
  · rw [List.forall_mem_cons]
    refine ⟨?_, hwent.passed⟩
    rw [hwent.others file.name, hrecords, if_pos rfl]
    intro other hother
    exact (hnames other (hbefore other hother)).symm
  · rw [List.forall_mem_cons]
    refine ⟨by simp [hnone], ?_⟩
    intro other hother existing hexisting
    rw [← hsame other (hbefore other hother)] at hexisting
    exact hwent.matched other hother existing hexisting
  · intro name hname
    rw [List.forall_mem_cons] at hname
    rw [hwent.others name hname.2, hrecords, if_neg hname.1]

/-- **The loop applies the pending files up to the one it stops at.** -/
theorem migrateFiles_went (sqlite : Sqlite Schema) (env : Env) (htable : db.migrations.isSome)
    (hdistinct : (files.map File.name).Nodup)
    (halone : ∀ file ∈ files, LeavesTracking sqlite file.sql) :
    ∃ before after, Went sqlite env files db (migrateFiles sqlite env files db) before after := by
  induction files generalizing db with
  | nil => exact ⟨[], [], went_nil htable⟩
  | cons file rest ih =>
      rw [List.map_cons, List.nodup_cons] at hdistinct
      rw [List.forall_mem_cons] at halone
      have hnames : ∀ other ∈ rest, other.name ≠ file.name := by
        intro other hother heq
        exact hdistinct.1 (heq ▸ List.mem_map_of_mem hother)
      rw [migrateFiles]
      rcases migrateFile_cases sqlite env file htable with
        ⟨error, hfile, hstops⟩ | ⟨hrecorded, hfile⟩ | ⟨next, hnone, happly, hfile⟩
      · rw [hfile]
        exact ⟨[], file :: rest, went_stop htable hstops⟩
      · rw [hfile]
        obtain ⟨before, after, hwent⟩ := ih htable hdistinct.2 halone.2
        exact ⟨file :: before, after, hwent.skip hnames hrecorded⟩
      · rw [hfile]
        have hnext := (recorded_apply halone.1 happly).1
        obtain ⟨before, after, hwent⟩ := ih hnext hdistinct.2 halone.2
        exact ⟨file :: before, after, hwent.apply hnames halone.1 hnone happly⟩

/-- Files that are all recorded with their checksums are passed over. -/
theorem migrateFiles_of_recorded (htable : db.migrations.isSome)
    (hselect : ∀ name, env.fails (.select name) = false)
    (hrecorded : ∀ file ∈ files, recorded db file.name = some file.checksum) :
    migrateFiles sqlite env files db = (.ok (), db) := by
  induction files with
  | nil => rfl
  | cons file rest ih =>
      rw [List.forall_mem_cons] at hrecorded
      have hfile : migrateFile sqlite env file db = .ok db := by
        rw [migrateFile, hselect, if_neg Bool.false_ne_true, select_eq_some htable, hrecorded.1]
        exact if_neg (not_not.mpr rfl)
      rw [migrateFiles, hfile]
      exact ih hrecorded.2

end Loop

/-! ## The files that are read -/

instance : Std.Total fun entry other : DirEntry => entry.fileName ≤ other.fileName :=
  ⟨fun _ _ => Std.le_total⟩

instance : IsTrans DirEntry fun entry other => entry.fileName ≤ other.fileName :=
  ⟨fun _ _ _ => Std.le_trans⟩

/-- The files are the entries with their contents. -/
theorem readAll_eq_ok {entries : List DirEntry} {files : List File}
    (hread : readAll entries = .ok files) :
    entries = files.map fun file => ⟨file.fileName, some file.sql⟩ := by
  induction entries generalizing files with
  | nil =>
      rw [readAll, Except.ok.injEq] at hread
      rw [← hread, List.map_nil]
  | cons entry rest ih =>
      rw [readAll] at hread
      split at hread
      · cases hread
      · rename_i sql hsql
        cases hrest : readAll rest with
        | error error =>
            rw [hrest] at hread
            cases hread
        | ok others =>
            rw [hrest, Except.map, Except.ok.injEq] at hread
            rw [← hread, List.map_cons, ← ih hrest, ← hsql]

/-- The files are the `*.sql` entries, in the order of their names. -/
theorem readFiles_eq_ok {dir : String} {directory : Directory} {files : List File}
    (hread : readFiles dir directory = .ok files) :
    (files.map fun file => (⟨file.fileName, some file.sql⟩ : DirEntry)).Perm
        directory.sqlEntries ∧
      files.Pairwise fun file other => file.fileName ≤ other.fileName := by
  cases directory with
  | absent =>
      rw [readFiles, Except.ok.injEq] at hread
      rw [← hread]
      exact ⟨List.Perm.refl _, List.Pairwise.nil⟩
  | unreadable => cases hread
  | entries found =>
      rw [readFiles] at hread
      have hsorted := List.pairwise_insertionSort
        (fun entry other : DirEntry => entry.fileName ≤ other.fileName)
        (Directory.entries found).sqlEntries
      have hperm := List.perm_insertionSort
        (fun entry other : DirEntry => entry.fileName ≤ other.fileName)
        (Directory.entries found).sqlEntries
      rw [readAll_eq_ok hread] at hsorted hperm
      rw [List.pairwise_map] at hsorted
      exact ⟨hperm, hsorted⟩

/-! ## The result -/

/-- **Migrations are applied in order, each once, and stop at the first that fails.**  For
every directory whose `*.sql` files have distinct names as recorded and leave the table
`_migrations` alone, and for every database and statements that fail in any way:

- the files are the `*.sql` entries in the order of their names;
- the database is the one after exactly the pending files before the one `migrate` stops at,
  where each file is applied and recorded in one; with `Ok` there is no such file;
- a recorded file with another checksum yields an error;
- after an `Ok`, a second call whose statements work changes nothing and returns `Ok`. -/
theorem migrate_applies_pending (sqlite : Sqlite Schema) (env : Env) (dir : String)
    (directory : Directory) (db : Database Schema)
    (hdistinct : (directory.sqlEntries.map fun entry => toStringLossy entry.fileName).Nodup)
    (halone : ∀ entry ∈ directory.sqlEntries, ∀ sql ∈ entry.contents, LeavesTracking sqlite sql) :
    (env.fails .createTable = true →
      migrate sqlite env dir directory db = (.error .database, db)) ∧
    (env.fails .createTable = false →
      (∀ error, readFiles dir directory = .error error →
        migrate sqlite env dir directory db = (.error error, db.createTable)) ∧
      ∀ files, readFiles dir directory = .ok files →
        ((files.map fun file => (⟨file.fileName, some file.sql⟩ : DirEntry)).Perm
            directory.sqlEntries ∧
          files.Pairwise fun file other => file.fileName ≤ other.fileName) ∧
        (∃ before after, files = before ++ after ∧
          applyAll sqlite env (pending db before) db.createTable =
            some (migrate sqlite env dir directory db).2 ∧
          ((migrate sqlite env dir directory db).1 = .ok () → after = []) ∧
          ∀ error, (migrate sqlite env dir directory db).1 = .error error →
            ∃ file rest, after = file :: rest ∧
              Stops sqlite env db (migrate sqlite env dir directory db).2 file) ∧
        (∀ file ∈ files, ∀ existing, recorded db file.name = some existing →
          existing ≠ file.checksum →
            ∃ error, (migrate sqlite env dir directory db).1 = .error error) ∧
        ((migrate sqlite env dir directory db).1 = .ok () → ∀ later : Env,
          later.fails .createTable = false → (∀ name, later.fails (.select name) = false) →
            migrate sqlite later dir directory (migrate sqlite env dir directory db).2 =
              (.ok (), (migrate sqlite env dir directory db).2))) := by
  refine ⟨fun hcreate => by rw [migrate, if_pos hcreate], fun hcreate => ⟨?_, ?_⟩⟩
  · intro error herror
    rw [migrate, if_neg (by simp [hcreate]), herror]
  intro files hfiles
  obtain ⟨hperm, hsorted⟩ := readFiles_eq_ok hfiles
  have hmigrate : migrate sqlite env dir directory db =
      migrateFiles sqlite env files db.createTable := by
    rw [migrate, if_neg (by simp [hcreate]), hfiles]
  have hnames : (files.map File.name).Nodup := by
    have hmap := hperm.map fun entry : DirEntry => toStringLossy entry.fileName
    rw [List.map_map] at hmap
    exact hmap.nodup_iff.mpr hdistinct
  have hscripts : ∀ file ∈ files, LeavesTracking sqlite file.sql := by
    intro file hfile
    have hentry := hperm.mem_iff.mp (List.mem_map_of_mem hfile)
    exact halone _ hentry file.sql rfl
  rw [hmigrate]
  have htable : db.createTable.migrations.isSome := rfl
  obtain ⟨before, after, hwent⟩ := migrateFiles_went sqlite env htable hnames hscripts
  generalize migrateFiles sqlite env files db.createTable = outcome at hwent
  have hsame := recorded_createTable db
  have hpending : pending db.createTable before = pending db before :=
    pending_congr fun file _ => hsame file.name
  -- without an error every file was passed
  have hall : outcome.1 = .ok () → before = files := by
    intro hok
    rw [hwent.split, hwent.completed hok, List.append_nil]
  refine ⟨⟨hperm, hsorted⟩, ⟨before, after, hwent.split, hpending ▸ hwent.applied,
    hwent.completed, ?_⟩, ?_, ?_⟩
  · intro error herror
    obtain ⟨file, rest, hafter, hstops⟩ := hwent.stopped error herror
    exact ⟨file, rest, hafter, hstops.of_recorded (hsame file.name)⟩
  · intro file hfile existing hexisting hne
    cases hresult : outcome.1 with
    | error error => exact ⟨error, rfl⟩
    | ok _ =>
        have hbefore : file ∈ before := hall hresult ▸ hfile
        have hmatched := hwent.matched file hbefore existing ((hsame file.name).trans hexisting)
        exact absurd hmatched hne
  · intro hok later hcreateLater hselect
    rw [migrate, if_neg (by simp [hcreateLater]), hfiles, createTable_of_isSome hwent.table]
    exact migrateFiles_of_recorded hwent.table hselect (hall hok ▸ hwent.passed)

/-! ### Two files -/

/-- A database with tables, for the scripts below: a script that creates a table fails if the
table is there. -/
def sampleSqlite : Sqlite (List String) where
  executeBatch sql db :=
    if sql = "CREATE TABLE a (id)" then
      if "a" ∈ db.schema then none else some { db with schema := db.schema ++ ["a"] }
    else if sql = "CREATE TABLE b (id)" then
      if "b" ∈ db.schema then none else some { db with schema := db.schema ++ ["b"] }
    else if sql = "DELETE FROM _migrations" then
      some { db with migrations := db.migrations.map fun _ => [] }
    else none
  constraintsHold _ := true

/-- Nothing fails. -/
def calm : Env := ⟨fun _ => false, fun _ => "2026-01-01 00:00:00"⟩

/-- The entry of a file. -/
def sampleEntry (name sql : String) : Option DirEntry := some ⟨Utf8.asBytes name, some sql⟩

/-- An empty database. -/
def emptyDatabase : Database (List String) := ⟨[], none⟩

/-- Two files that create a table each, and one that is not a migration. -/
def twoTables : Directory :=
  .entries [sampleEntry "002.sql" "CREATE TABLE b (id)", sampleEntry "readme.md" "text",
    sampleEntry "001.sql" "CREATE TABLE a (id)"]

theorem createTable_leavesTracking {sql : String}
    (hsql : sql = "CREATE TABLE a (id)" ∨ sql = "CREATE TABLE b (id)") :
    LeavesTracking sampleSqlite sql := by
  intro db after hexecute
  rcases hsql with rfl | rfl
  · simp only [sampleSqlite, if_true, Option.ite_none_left_eq_some, Option.some.injEq] at hexecute
    rw [← hexecute.2]
  · simp only [sampleSqlite, String.reduceEq, if_true, if_false, Option.ite_none_left_eq_some,
      Option.some.injEq] at hexecute
    rw [← hexecute.2]

/-- The files of `twoTables` are applied in the order of their names, and a second call changes
nothing. -/
theorem twoTables_applied :
    (migrate sampleSqlite calm "migrations" twoTables emptyDatabase).1 = .ok () ∧
    (migrate sampleSqlite calm "migrations" twoTables emptyDatabase).2.schema = ["a", "b"] ∧
    migrate sampleSqlite calm "migrations" twoTables
        (migrate sampleSqlite calm "migrations" twoTables emptyDatabase).2 =
      (.ok (), (migrate sampleSqlite calm "migrations" twoTables emptyDatabase).2) := by
  have hok : (migrate sampleSqlite calm "migrations" twoTables emptyDatabase).1 = .ok () := rfl
  have hentries : twoTables.sqlEntries =
      [⟨Utf8.asBytes "002.sql", some "CREATE TABLE b (id)"⟩,
        ⟨Utf8.asBytes "001.sql", some "CREATE TABLE a (id)"⟩] := rfl
  have hdistinct : (twoTables.sqlEntries.map fun entry =>
      toStringLossy entry.fileName).Nodup := by
    rw [hentries]
    decide
  have halone : ∀ entry ∈ twoTables.sqlEntries, ∀ sql ∈ entry.contents,
      LeavesTracking sampleSqlite sql := by
    rw [hentries]
    simp [createTable_leavesTracking]
  have hspec := (migrate_applies_pending sampleSqlite calm "migrations" twoTables emptyDatabase
    hdistinct halone).2 rfl
  have hagain := (hspec.2 [⟨Utf8.asBytes "001.sql", "CREATE TABLE a (id)"⟩,
    ⟨Utf8.asBytes "002.sql", "CREATE TABLE b (id)"⟩] rfl).2.2.2
  exact ⟨hok, rfl, hagain hok calm rfl fun _ => rfl⟩

/-- The second file deletes the records. -/
def forgetful : Directory :=
  .entries [sampleEntry "001.sql" "CREATE TABLE a (id)",
    sampleEntry "002.sql" "DELETE FROM _migrations"]

/-- Two files whose names are not UTF-8. -/
def sameRecord : Directory :=
  .entries [some ⟨254 :: Utf8.asBytes ".sql", some "CREATE TABLE a (id)"⟩,
    some ⟨255 :: Utf8.asBytes ".sql", some "CREATE TABLE b (id)"⟩]

/-- After an `Ok` on `forgetful`, a second call applies the first file again and fails.  Of the
files of `sameRecord` neither is recorded, but both have one name, and only the first is
applied. -/
theorem tracking_lost :
    ((migrate sampleSqlite calm "migrations" forgetful emptyDatabase).1 = .ok () ∧
      (migrate sampleSqlite calm "migrations" forgetful
        (migrate sampleSqlite calm "migrations" forgetful emptyDatabase).2).1 =
        .error (.apply "001.sql")) ∧
    (∃ files, readFiles "migrations" sameRecord = .ok files ∧ files.length = 2 ∧
      pending emptyDatabase files = files ∧
      (migrate sampleSqlite calm "migrations" sameRecord emptyDatabase).2.schema = ["a"]) :=
  ⟨⟨rfl, rfl⟩, _, rfl, rfl, rfl, rfl⟩

end Modo.Migrations
