import Mathlib.Logic.Function.Basic
import Modo.Lib.HashMap

/-!
# The database pool

`DatabasePool::conn` looks a shard up, opens it when it is missing, and inserts what it opened.
Between these steps other calls run, and of two inserts the later one stays.  A path is opened
as the file it is, `:memory:` as a new database each time, so a handle denotes its file or,
in memory, its own connection.
-/

namespace Modo.Db.Pool

/-! ## The sharded map -/

/-- `ShardedMap`; a pool has at least one shard. -/
structure ShardedMap (V : Type*) where
  shards : List (HashMap (List Char) V)
  nonempty : 0 < shards.length

namespace ShardedMap

variable {V : Type*} (hash : List Char → ℕ)

/-- `ShardedMap::new`. -/
def new (numShards : ℕ) (hpos : 0 < numShards) : ShardedMap V :=
  ⟨List.replicate numShards ∅, by rwa [List.length_replicate]⟩

/-- `ShardedMap::shard_index`. -/
def shardIndex (map : ShardedMap V) (key : List Char) : Fin map.shards.length :=
  ⟨hash key % map.shards.length, Nat.mod_lt _ map.nonempty⟩

/-- `ShardedMap::get`. -/
def get (map : ShardedMap V) (key : List Char) : Option V :=
  (map.shards.get (map.shardIndex hash key)).lookup key

/-- `ShardedMap::insert`. -/
def insert (map : ShardedMap V) (key : List Char) (value : V) : ShardedMap V where
  shards := map.shards.set (map.shardIndex hash key)
    ((map.shards.get (map.shardIndex hash key)).insert key value)
  nonempty := by rw [List.length_set]; exact map.nonempty

@[simp] theorem get_new (numShards : ℕ) (hpos : 0 < numShards) (key : List Char) :
    (new numShards hpos : ShardedMap V).get hash key = none := by
  simp [get, new]

/-- Over its shards the map is one map. -/
theorem get_insert (map : ShardedMap V) (key other : List Char) (value : V) :
    (map.insert hash key value).get hash other =
      if other = key then some value else map.get hash other := by
  simp only [get, insert, shardIndex, List.get_eq_getElem, List.getElem_set, List.length_set]
  by_cases hkey : other = key
  · rw [hkey, if_pos rfl, if_pos rfl, AList.lookup_insert]
  rw [if_neg hkey]
  split
  · rename_i hindex
    rw [AList.lookup_insert_ne hkey]
    simp only [hindex]
  · rfl

end ShardedMap

/-! ## The pool -/

abbrev Error := ℕ × String

/-- What the pool rests on: the hash of a name, how `Debug` writes a name, and which file a
path is. -/
structure Outside (File : Type*) where
  hash : List Char → ℕ
  debug : List Char → String
  resolve : List Char → File

structure PoolConfig where
  basePath : List Char
  lockShards : ℕ

structure Config where
  path : List Char
  pool : Option PoolConfig

def inMemory : List Char := ":memory:".toList

/-- A handle: which connection it is, and the file it is to, if it is to a file. -/
structure Database (File : Type*) where
  connection : ℕ
  file : Option File
  deriving DecidableEq

section Model

variable {File : Type*} (outside : Outside File)

/-- The database a handle denotes. -/
def Database.denotes (db : Database File) : File ⊕ ℕ :=
  match db.file with
  | some file => .inl file
  | none => .inr db.connection

/-- The file that is opened, if the path is one. -/
def Config.file (config : Config) : Option File :=
  if config.path = inMemory then none else some (outside.resolve config.path)

/-- `connect`, where it succeeds. -/
def connect (config : Config) (connection : ℕ) : Database File :=
  ⟨connection, config.file outside⟩

/-- `Inner`. -/
structure Inner (File : Type*) where
  default : Database File
  config : Config
  shards : ShardedMap (Database File)
  validated : config.pool.isSome

/-- `DatabasePool::new`; `opened` is what `connect` comes to. -/
def new (config : Config) (opened : Except Error Unit) : Except Error (Inner File) :=
  match hpool : config.pool with
  | none => .error (500, "database pool config is required")
  | some pool =>
      if hzero : pool.lockShards = 0 then
        .error (500, "pool lock_shards must be greater than 0")
      else
        opened.map fun _ =>
          { default := connect outside config 0
            config := config
            shards := .new pool.lockShards (Nat.pos_of_ne_zero hzero)
            validated := by rw [hpool]; rfl }

/-- The shard names that `conn` refuses. -/
def isInvalid (name : List Char) : Bool :=
  name.isEmpty || decide (name.head? = some '.') || decide ('/' ∈ name) ||
    decide ('\\' ∈ name) || decide ('\x00' ∈ name)

/-- `Path::join`. -/
def join (base file : List Char) : List Char :=
  if file.head? = some '/' then file
  else if base.getLast?.any fun c => decide (c ≠ '/') then base ++ '/' :: file
  else base ++ file

/-- The path of a shard. -/
def shardPath (basePath name : List Char) : List Char :=
  if basePath = inMemory then inMemory else join basePath (name ++ ".db".toList)

/-- `base_path`. -/
def Inner.basePath (inner : Inner File) : List Char :=
  (inner.config.pool.get inner.validated).basePath

/-- `shard_config`. -/
def Inner.shardConfig (inner : Inner File) (name : List Char) : Config :=
  { inner.config with path := shardPath inner.basePath name, pool := none }

/-! ### Calls -/

/-- A call of `conn` that waits between two of its steps. -/
inductive Call (File : Type*) where
  | connecting (name : List Char)
  | inserting (name : List Char) (db : Database File)
  deriving DecidableEq

/-- The pool, the number of connections opened, the call each caller is in, and what was
returned for which argument. -/
structure State (File : Type*) where
  inner : Inner File
  opened : ℕ
  calls : ℕ → Option (Call File)
  answers : List (Option (List Char) × Except Error (Database File))

/-- A pool that nobody has called yet. -/
def start (inner : Inner File) : State File where
  inner := inner
  opened := 1
  calls := fun _ => none
  answers := []

def State.put (state : State File) (caller : ℕ) (call : Option (Call File)) : State File :=
  { state with calls := Function.update state.calls caller call }

def State.answer (state : State File) (shard : Option (List Char))
    (answer : Except Error (Database File)) : State File :=
  { state with answers := (shard, answer) :: state.answers }

def State.insert (state : State File) (name : List Char) (db : Database File) : State File :=
  { state with
    inner := { state.inner with
      shards := state.inner.shards.insert outside.hash name db } }

/-- The steps of `conn`: up to its first `await`, the opening, the insert, and that the caller
gives the call up. -/
inductive Action where
  | lookup (caller : ℕ) (shard : Option (List Char))
  | connect (caller : ℕ) (failure : Option Error)
  | insert (caller : ℕ)
  | drop (caller : ℕ)

/-- `conn` up to its first `await`. -/
def lookup (state : State File) (caller : ℕ) : Option (List Char) → State File
  | none => state.answer none (.ok state.inner.default)
  | some name =>
      if isInvalid name then
        state.answer (some name) (.error (400, "invalid shard name: " ++ outside.debug name))
      else
        match state.inner.shards.get outside.hash name with
        | some db => state.answer (some name) (.ok db)
        | none => state.put caller (some (.connecting name))

/-- One step. -/
def step (state : State File) : Action → Option (State File)
  | .lookup caller shard =>
      match state.calls caller with
      | none => some (lookup outside state caller shard)
      | some _ => none
  | .connect caller failure =>
      match state.calls caller with
      | some (.connecting name) =>
          match failure with
          | none =>
              let db := connect outside (state.inner.shardConfig name) state.opened
              some { state.put caller (some (.inserting name db)) with
                opened := state.opened + 1 }
          | some _ =>
              some ((state.put caller none).answer (some name)
                (.error (500, "failed to open shard database: " ++ String.ofList name)))
      | _ => none
  | .insert caller =>
      match state.calls caller with
      | some (.inserting name db) =>
          some (((state.insert outside name db).put caller none).answer (some name) (.ok db))
      | _ => none
  | .drop caller => some (state.put caller none)

end Model

end Modo.Db.Pool
