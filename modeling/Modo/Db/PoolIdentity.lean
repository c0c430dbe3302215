import Modo.Db.Pool
import Modo.Lib.Machine

/-!
# The identity of a shard

Two handles should denote one database exactly when the same shard was asked for.

* `Sound` is the invariant: the map holds what was answered, and what is about to be inserted
  was answered to nobody.
* `identified_iff_allowed`: a run is good when a handle is returned only while no other argument
  has its file, and a shard in memory is inserted only once.
* `forall_identified_iff`: all runs are good when shards are not in memory and no two arguments
  have one file.
-/

namespace Modo.Db.Pool

open Machine (run run_cons_eq_some)

/-! ## Identity -/

section Identity

variable {File : Type*} (outside : Outside File)

/-- The configuration that the database of an argument is opened with. -/
def Inner.configOf (inner : Inner File) : Option (List Char) → Config
  | none => inner.config
  | some name => inner.shardConfig name

/-- The file of an argument. -/
def Inner.fileOf (inner : Inner File) (shard : Option (List Char)) : Option File :=
  (inner.configOf shard).file outside

/-- Both arguments are opened as one file. -/
def Inner.SameFile (inner : Inner File) (shard shard' : Option (List Char)) : Prop :=
  ∃ file, inner.fileOf outside shard = some file ∧ inner.fileOf outside shard' = some file

/-- Two handles that were returned denote one database exactly when the same shard was asked
for. -/
def Identified (state : State File) : Prop :=
  ∀ shard db shard' db', (shard, .ok db) ∈ state.answers → (shard', .ok db') ∈ state.answers →
    (db.denotes = db'.denotes ↔ shard = shard')

/-- No handle was returned for another argument that is opened as the same file. -/
def Apart (state : State File) (shard : Option (List Char)) : Prop :=
  ∀ shard' db, (shard', .ok db) ∈ state.answers → shard' ≠ shard →
    ¬ state.inner.SameFile outside shard shard'

/-- A handle is returned only when no other argument has the file, and in memory a shard is
inserted only when the map does not hold it. -/
def Allowed (state : State File) : Action → Prop
  | .lookup _ none => Apart outside state none
  | .lookup _ (some _) => True
  | .connect _ _ => True
  | .insert caller => ∀ name db, state.calls caller = some (.inserting name db) →
      Apart outside state (some name) ∧
        (state.inner.fileOf outside (some name) = none →
          state.inner.shards.get outside.hash name = none)
  | .drop _ => True

variable {outside}

theorem denotes_eq_iff {db db' : Database File} :
    db.denotes = db'.denotes ↔
      db.file = db'.file ∧ (db.file = none → db.connection = db'.connection) := by
  obtain ⟨connection, file⟩ := db
  obtain ⟨connection', file'⟩ := db'
  cases file <;> cases file' <;> simp [Database.denotes]

/-- What a handle is for: the default database, or what was returned for a shard. -/
def Handed (state : State File) (shard : Option (List Char)) (db : Database File) : Prop :=
  (shard = none ∧ db = state.inner.default) ∨ (shard, .ok db) ∈ state.answers

/-- The invariant of the pool. -/
structure Sound (outside : Outside File) (state : State File) : Prop where
  answered : ∀ name db, state.inner.shards.get outside.hash name = some db →
    (some name, .ok db) ∈ state.answers
  held : ∀ name db, (some name, .ok db) ∈ state.answers →
    ∃ kept, state.inner.shards.get outside.hash name = some kept
  isDefault : ∀ db, (none, .ok db) ∈ state.answers → db = state.inner.default
  placed : ∀ shard db, Handed state shard db →
    db.file = state.inner.fileOf outside shard ∧ db.connection < state.opened
  notDefault : ∀ name db, (some name, .ok db) ∈ state.answers →
    db.connection ≠ state.inner.default.connection
  inserting : ∀ caller name db, state.calls caller = some (.inserting name db) →
    db.file = state.inner.fileOf outside (some name) ∧ db.connection < state.opened
  fresh : ∀ caller name db, state.calls caller = some (.inserting name db) →
    ∀ shard db', Handed state shard db' → db'.connection ≠ db.connection
  apart : ∀ caller name db caller' name' db', state.calls caller = some (.inserting name db) →
    state.calls caller' = some (.inserting name' db') → db.connection = db'.connection →
      caller = caller'
  identified : Identified state

/-! ### What a step preserves -/

variable {state : State File}

theorem put_calls (state : State File) (caller other : ℕ) (call : Option (Call File)) :
    (state.put caller call).calls other =
      if other = caller then call else state.calls other :=
  Function.update_apply state.calls caller call other

theorem mem_answers_ok {shard shard' : Option (List Char)} {db db' : Database File} :
    (shard', .ok db') ∈ (state.answer shard (.ok db)).answers ↔
      (shard' = shard ∧ db' = db) ∨ (shard', .ok db') ∈ state.answers := by
  rw [State.answer, List.mem_cons, Prod.mk.injEq, Except.ok.injEq]

theorem Sound.file_eq (hsound : Sound outside state) {shard : Option (List Char)}
    {db : Database File} (hmem : (shard, .ok db) ∈ state.answers) :
    db.file = state.inner.fileOf outside shard :=
  (hsound.placed shard db (.inr hmem)).1

theorem Sound.start (outside : Outside File) {inner : Inner File} {numShards : ℕ}
    (hpos : 0 < numShards) (hshards : inner.shards = .new numShards hpos)
    (hdefault : inner.default = Pool.connect outside inner.config 0) :
    Sound outside (Pool.start inner) where
  answered name db hget := by
    rw [Pool.start, hshards, ShardedMap.get_new] at hget
    cases hget
  held name db hmem := by cases hmem
  isDefault db hmem := by cases hmem
  placed shard db hhanded := by
    rcases hhanded with ⟨rfl, rfl⟩ | hmem
    · rw [Pool.start, hdefault]
      exact ⟨rfl, Nat.zero_lt_one⟩
    · cases hmem
  notDefault name db hmem := by cases hmem
  inserting caller name db hcall := by cases hcall
  fresh caller name db hcall := by cases hcall
  apart caller name db caller' name' db' hcall := by cases hcall
  identified shard db shard' db' hmem := by cases hmem

/-- An answer without a new handle. -/
theorem Sound.answer (hsound : Sound outside state) {shard : Option (List Char)}
    {answer : Except Error (Database File)}
    (hold : ∀ shard' db, (shard', .ok db) ∈ (state.answer shard answer).answers →
      (shard', .ok db) ∈ state.answers) : Sound outside (state.answer shard answer) where
  answered name db hget := List.mem_cons_of_mem _ (hsound.answered name db hget)
  held name db hmem := hsound.held name db (hold _ _ hmem)
  isDefault db hmem := hsound.isDefault db (hold _ _ hmem)
  placed shard' db hhanded := hsound.placed shard' db (hhanded.imp_right (hold _ _))
  notDefault name db hmem := hsound.notDefault name db (hold _ _ hmem)
  inserting := hsound.inserting
  fresh caller name db hcall shard' db' hhanded :=
    hsound.fresh caller name db hcall shard' db' (hhanded.imp_right (hold _ _))
  apart := hsound.apart
  identified _ _ _ _ hmem hmem' := hsound.identified _ _ _ _ (hold _ _ hmem) (hold _ _ hmem')

/-- A caller that has nothing to insert. -/
theorem Sound.put (hsound : Sound outside state) (caller : ℕ) {call : Option (Call File)}
    (hcall : ∀ name db, call ≠ some (.inserting name db)) :
    Sound outside (state.put caller call) := by
  have hold : ∀ caller' name db, (state.put caller call).calls caller' =
      some (.inserting name db) → state.calls caller' = some (.inserting name db) := by
    intro caller' name db hinserting
    rw [put_calls] at hinserting
    split at hinserting
    · exact absurd hinserting (hcall name db)
    · exact hinserting
  exact
    { hsound with
      inserting := fun caller' name db hinserting =>
        hsound.inserting caller' name db (hold _ _ _ hinserting)
      fresh := fun caller' name db hinserting =>
        hsound.fresh caller' name db (hold _ _ _ hinserting)
      apart := fun first name db second name' db' hfirst hsecond =>
        hsound.apart first name db second name' db' (hold _ _ _ hfirst) (hold _ _ _ hsecond) }

/-- What is apart from all that was returned denotes what nobody else has. -/
theorem Sound.denotes_eq_iff_of_apart (hsound : Sound outside state)
    {shard shard' : Option (List Char)} {db db' : Database File}
    (hfile : db.file = state.inner.fileOf outside shard)
    (hapart : Apart outside state shard) (hmem : (shard', .ok db') ∈ state.answers)
    (hmemory : state.inner.fileOf outside shard = none →
      (db.connection = db'.connection ↔ shard = shard')) :
    db.denotes = db'.denotes ↔ shard = shard' := by
  rw [denotes_eq_iff, hfile, hsound.file_eq hmem]
  constructor
  · rintro ⟨hsame, hconnection⟩
    cases hopened : state.inner.fileOf outside shard with
    | none => exact (hmemory hopened).mp (hconnection hopened)
    | some file =>
        by_contra hne
        exact hapart shard' db' hmem (Ne.symm hne) ⟨file, hopened, hsame ▸ hopened⟩
  · rintro rfl
    exact ⟨rfl, fun hnone => (hmemory hnone).mpr rfl⟩

theorem identified_answer {shard : Option (List Char)} {db : Database File}
    (hidentified : Identified state)
    (hnew : ∀ shard' db', (shard', .ok db') ∈ state.answers →
      (db.denotes = db'.denotes ↔ shard = shard')) :
    Identified (state.answer shard (.ok db)) := by
  intro first db₁ second db₂ hfirst hsecond
  rcases mem_answers_ok.mp hfirst with ⟨rfl, rfl⟩ | hold <;>
    rcases mem_answers_ok.mp hsecond with ⟨rfl, rfl⟩ | hold'
  · exact ⟨fun _ => rfl, fun _ => rfl⟩
  · exact hnew second db₂ hold'
  · rw [eq_comm, hnew first db₁ hold, eq_comm]
  · exact hidentified first db₁ second db₂ hold hold'

/-- The default database is returned. -/
theorem Sound.answer_default (hsound : Sound outside state)
    (hapart : Apart outside state none) :
    Sound outside (state.answer none (.ok state.inner.default)) := by
  -- the default handle was handed out from the start
  have hhanded : ∀ shard db,
      Handed (state.answer none (.ok state.inner.default)) shard db → Handed state shard db := by
    rintro shard db (hdefault | hmem)
    · exact .inl hdefault
    · exact (mem_answers_ok.mp hmem).imp_right id
  have hnamed : ∀ name db,
      (some name, .ok db) ∈ (state.answer none (.ok state.inner.default)).answers →
        (some name, .ok db) ∈ state.answers := by
    intro name db hmem
    rcases mem_answers_ok.mp hmem with ⟨hname, -⟩ | hmem
    · cases hname
    · exact hmem
  exact
    { answered := fun name db hget => List.mem_cons_of_mem _ (hsound.answered name db hget)
      held := fun name db hmem => hsound.held name db (hnamed name db hmem)
      isDefault := by
        intro db hmem
        rcases mem_answers_ok.mp hmem with ⟨-, hdb⟩ | hmem
        · exact hdb
        · exact hsound.isDefault db hmem
      placed := fun shard db h => hsound.placed shard db (hhanded shard db h)
      notDefault := fun name db hmem => hsound.notDefault name db (hnamed name db hmem)
      inserting := hsound.inserting
      fresh := fun caller name db hcall shard db' h =>
        hsound.fresh caller name db hcall shard db' (hhanded shard db' h)
      apart := hsound.apart
      identified := by
        refine identified_answer hsound.identified fun shard' db' hmem => ?_
        have hfile := (hsound.placed none state.inner.default (.inl ⟨rfl, rfl⟩)).1
        refine hsound.denotes_eq_iff_of_apart hfile hapart hmem fun _ => ?_
        cases shard' with
        | none => exact iff_of_true (by rw [hsound.isDefault db' hmem]) rfl
        | some name =>
            exact iff_of_false (hsound.notDefault name db' hmem).symm (Option.some_ne_none _).symm }

/-- A shard is opened: its connection is new. -/
theorem Sound.connect (hsound : Sound outside state) (caller : ℕ) (name : List Char) :
    Sound outside
      { state.put caller (some (.inserting name
          (connect outside (state.inner.shardConfig name) state.opened))) with
        opened := state.opened + 1 } := by
  -- the call of the caller is the new one, and the others are as before
  have hcases : ∀ caller' name' db',
      (state.put caller (some (.inserting name (Pool.connect outside
        (state.inner.shardConfig name) state.opened)))).calls caller' =
          some (.inserting name' db') →
        (caller' = caller ∧ name' = name ∧
          db' = Pool.connect outside (state.inner.shardConfig name) state.opened) ∨
        (caller' ≠ caller ∧ state.calls caller' = some (.inserting name' db')) := by
    intro caller' name' db' hcall
    rw [put_calls] at hcall
    split at hcall
    · rename_i hcaller
      rw [Option.some.injEq, Call.inserting.injEq] at hcall
      exact .inl ⟨hcaller, hcall.1.symm, hcall.2.symm⟩
    · rename_i hcaller
      exact .inr ⟨hcaller, hcall⟩
  exact
    { hsound with
      placed := fun shard db hhanded =>
        (hsound.placed shard db hhanded).imp_right Nat.lt_succ_of_lt
      inserting := by
        intro caller' name' db' hcall
        rcases hcases caller' name' db' hcall with ⟨-, rfl, rfl⟩ | ⟨-, hcall⟩
        · exact ⟨rfl, Nat.lt_succ_self _⟩
        · exact (hsound.inserting caller' name' db' hcall).imp_right Nat.lt_succ_of_lt
      fresh := by
        intro caller' name' db' hcall shard handed hhanded
        rcases hcases caller' name' db' hcall with ⟨-, rfl, rfl⟩ | ⟨-, hcall⟩
        · exact Nat.ne_of_lt (hsound.placed shard handed hhanded).2
        · exact hsound.fresh caller' name' db' hcall shard handed hhanded
      apart := by
        intro first name₁ db₁ second name₂ db₂ hfirst hsecond heq
        rcases hcases first name₁ db₁ hfirst with ⟨rfl, -, rfl⟩ | ⟨-, hold⟩ <;>
          rcases hcases second name₂ db₂ hsecond with ⟨rfl, -, rfl⟩ | ⟨-, hold'⟩
        · rfl
        · exact absurd heq.symm (Nat.ne_of_lt (hsound.inserting second name₂ db₂ hold').2)
        · exact absurd heq (Nat.ne_of_lt (hsound.inserting first name₁ db₁ hold).2)
        · exact hsound.apart first name₁ db₁ second name₂ db₂ hold hold' heq }

/-- What was opened is inserted and returned. -/
theorem Sound.insert (hsound : Sound outside state) {caller : ℕ} {name : List Char}
    {db : Database File} (hcall : state.calls caller = some (.inserting name db))
    (hapart : Apart outside state (some name))
    (hmemory : state.inner.fileOf outside (some name) = none →
      state.inner.shards.get outside.hash name = none) :
    Sound outside
      (((state.insert outside name db).put caller none).answer (some name) (.ok db)) := by
  obtain ⟨hfile, hlt⟩ := hsound.inserting caller name db hcall
  have hfresh := hsound.fresh caller name db hcall
  have hold : ∀ caller' name' db',
      ((state.insert outside name db).put caller none).calls caller' =
          some (.inserting name' db') →
        caller' ≠ caller ∧ state.calls caller' = some (.inserting name' db') := by
    intro caller' name' db' hinserting
    rw [put_calls] at hinserting
    split at hinserting
    · cases hinserting
    · exact ⟨‹_›, hinserting⟩
  have hget : ∀ other, ((state.insert outside name db).inner.shards).get outside.hash other =
      if other = name then some db else state.inner.shards.get outside.hash other :=
    fun other => ShardedMap.get_insert outside.hash state.inner.shards name other db
  have hhanded : ∀ shard db',
      Handed (((state.insert outside name db).put caller none).answer (some name) (.ok db))
        shard db' → (shard = some name ∧ db' = db) ∨ Handed state shard db' := by
    rintro shard db' (hdefault | hmem)
    · exact .inr (.inl hdefault)
    · exact (mem_answers_ok.mp hmem).imp_right .inr
  constructor
  case answered =>
    intro other kept hkept
    rw [State.answer, State.put, hget] at hkept
    split at hkept
    · rename_i hname
      cases hkept
      exact hname ▸ List.mem_cons_self
    · exact List.mem_cons_of_mem _ (hsound.answered other kept hkept)
  case held =>
    intro other kept hmem
    rw [State.answer, State.put, hget]
    split
    · exact ⟨db, rfl⟩
    · rename_i hname
      rcases mem_answers_ok.mp hmem with ⟨hother, -⟩ | hmem
      · exact absurd (Option.some.inj hother) hname
      · exact hsound.held other kept hmem
  case isDefault =>
    intro other hmem
    rcases mem_answers_ok.mp hmem with ⟨hnone, -⟩ | hmem
    · cases hnone
    · exact hsound.isDefault other hmem
  case placed =>
    intro shard other h
    rcases hhanded shard other h with ⟨rfl, rfl⟩ | h
    · exact ⟨hfile, hlt⟩
    · exact hsound.placed shard other h
  case notDefault =>
    intro other kept hmem
    rcases mem_answers_ok.mp hmem with ⟨-, rfl⟩ | hmem
    · exact (hfresh none state.inner.default (.inl ⟨rfl, rfl⟩)).symm
    · exact hsound.notDefault other kept hmem
  case inserting =>
    exact fun caller' name' db' h => hsound.inserting caller' name' db' (hold _ _ _ h).2
  case fresh =>
    intro caller' name' db' h shard other hother
    obtain ⟨hne, hcall'⟩ := hold caller' name' db' h
    rcases hhanded shard other hother with ⟨-, rfl⟩ | hother
    · exact fun heq => hne (hsound.apart caller' name' db' caller name other hcall' hcall heq.symm)
    · exact hsound.fresh caller' name' db' hcall' shard other hother
  case apart =>
    exact fun first name₁ db₁ second name₂ db₂ hfirst hsecond =>
      hsound.apart first name₁ db₁ second name₂ db₂ (hold _ _ _ hfirst).2 (hold _ _ _ hsecond).2
  case identified =>
    refine identified_answer hsound.identified fun shard' db' hmem => ?_
    refine hsound.denotes_eq_iff_of_apart hfile hapart hmem fun hnone => iff_of_false ?_ ?_
    · exact (hfresh shard' db' (.inr hmem)).symm
    · -- what is not in the map was not returned
      rintro rfl
      obtain ⟨kept, hkept⟩ := hsound.held name db' hmem
      rw [hmemory hnone] at hkept
      cases hkept

/-! ### Which steps are good -/

/-- An allowed step keeps the invariant. -/
theorem Sound.step {next : State File} {action : Action} (hsound : Sound outside state)
    (hallowed : Allowed outside state action) (hstep : step outside state action = some next) :
    Sound outside next := by
  cases action with
  | lookup caller shard =>
      rw [Pool.step] at hstep
      split at hstep
      · cases hstep
        cases shard with
        | none => exact hsound.answer_default hallowed
        | some name =>
            rw [lookup]
            split
            · exact hsound.answer fun _ _ hmem => by simpa [State.answer] using hmem
            split
            · rename_i db hget
              -- a kept handle is that of the name it is kept under
              refine hsound.answer fun shard' db' hmem => ?_
              rcases mem_answers_ok.mp hmem with ⟨rfl, rfl⟩ | hmem
              · exact hsound.answered name db' hget
              · exact hmem
            · exact hsound.put caller fun _ _ heq => by cases heq
      · cases hstep
  | connect caller failure =>
      rw [Pool.step] at hstep
      split at hstep
      · split at hstep
        · cases hstep
          exact hsound.connect caller _
        · cases hstep
          refine Sound.answer (hsound.put caller fun _ _ heq => by cases heq) fun _ _ hmem => ?_
          simpa [State.answer] using hmem
      · cases hstep
  | insert caller =>
      rw [Pool.step] at hstep
      split at hstep
      · rename_i name db hcall
        cases hstep
        obtain ⟨hapart, hmemory⟩ := hallowed name db hcall
        exact hsound.insert hcall hapart hmemory
      · cases hstep
  | drop caller =>
      cases hstep
      exact hsound.put caller fun _ _ heq => by cases heq

/-- A handle that identifies its shard is apart from the others. -/
theorem Sound.apart_of_identified (hsound : Sound outside state) {shard : Option (List Char)}
    {db : Database File} (hfile : db.file = state.inner.fileOf outside shard)
    (hidentified : ∀ shard' db', (shard', .ok db') ∈ state.answers →
      (db.denotes = db'.denotes ↔ shard = shard')) : Apart outside state shard := by
  rintro shard' db' hmem hne ⟨file, hopened, hopened'⟩
  refine hne ((hidentified shard' db' hmem).mp (denotes_eq_iff.mpr ⟨?_, fun hnone => ?_⟩)).symm
  · rw [hfile, hsound.file_eq hmem, hopened, hopened']
  · rw [hfile, hopened] at hnone
    cases hnone

theorem identified_of_answer {shard : Option (List Char)} {db : Database File}
    (hidentified : Identified (state.answer shard (.ok db))) :
    ∀ shard' db', (shard', .ok db') ∈ state.answers →
      (db.denotes = db'.denotes ↔ shard = shard') :=
  fun shard' db' hmem => hidentified shard db shard' db' List.mem_cons_self
    (List.mem_cons_of_mem _ hmem)

/-- A step after which handles identify their shards was allowed. -/
theorem Sound.allowed {next : State File} {action : Action} (hsound : Sound outside state)
    (hstep : Pool.step outside state action = some next) (hidentified : Identified next) :
    Allowed outside state action := by
  cases action with
  | lookup caller shard =>
      cases shard with
      | some name => trivial
      | none =>
          rw [Pool.step] at hstep
          split at hstep
          · cases hstep
            exact hsound.apart_of_identified (hsound.placed none _ (.inl ⟨rfl, rfl⟩)).1
              (identified_of_answer hidentified)
          · cases hstep
  | connect caller failure => trivial
  | insert caller =>
      intro name db hcall
      rw [Pool.step, hcall] at hstep
      cases hstep
      obtain ⟨hfile, -⟩ := hsound.inserting caller name db hcall
      have hnew : ∀ shard' db', (shard', .ok db') ∈ state.answers →
          (db.denotes = db'.denotes ↔ some name = shard') := identified_of_answer hidentified
      refine ⟨hsound.apart_of_identified hfile hnew, fun hnone => ?_⟩
      by_contra hheld
      obtain ⟨kept, hkept⟩ := Option.ne_none_iff_exists'.mp hheld
      have hmem := hsound.answered name kept hkept
      obtain ⟨-, hconnection⟩ := denotes_eq_iff.mp ((hnew (some name) kept hmem).mpr rfl)
      exact hsound.fresh caller name db hcall _ kept (.inr hmem)
        (hconnection (hfile.trans hnone)).symm
  | drop caller => trivial

/-! ## Runs -/

/-- The arguments that `conn` accepts. -/
def Accepts (shard : Option (List Char)) : Prop :=
  ∀ name, shard = some name → isInvalid name = false

/-- Shards have files, and no two arguments have the same. -/
def Separates (outside : Outside File) (inner : Inner File) : Prop :=
  inner.basePath ≠ inMemory ∧ ∀ shard shard', Accepts shard → Accepts shard' →
    shard ≠ shard' → ¬ inner.SameFile outside shard shard'

abbrev Visits (outside : Outside File) (inner : Inner File) (actions : List Action)
    (state : State File) : Prop :=
  Machine.Visits (step outside) (start inner) actions state

abbrev Taken (outside : Outside File) (inner : Inner File) (actions : List Action)
    (state : State File) (action : Action) (next : State File) : Prop :=
  Machine.Taken (step outside) (start inner) actions state action next

/-- The name a call is about. -/
def Call.name : Call File → List Char
  | .connecting name => name
  | .inserting name _ => name

/-- The configuration stays, and only names that were checked get further. -/
structure Checked (outside : Outside File) (config : Config) (state : State File) : Prop where
  config_eq : state.inner.config = config
  answers : ∀ shard db, (shard, .ok db) ∈ state.answers → Accepts shard
  calls : ∀ caller call, state.calls caller = some call → isInvalid call.name = false

theorem Checked.put {config : Config} (hchecked : Checked outside config state) (caller : ℕ)
    {call : Option (Call File)} (hcall : ∀ put, call = some put → isInvalid put.name = false) :
    Checked outside config (state.put caller call) where
  config_eq := hchecked.config_eq
  answers := hchecked.answers
  calls caller' call' hput := by
    rw [put_calls] at hput
    split at hput
    · exact hcall call' hput
    · exact hchecked.calls caller' call' hput

theorem Checked.answer {config : Config} (hchecked : Checked outside config state)
    {shard : Option (List Char)} {answer : Except Error (Database File)}
    (haccepts : ∀ db, answer = .ok db → Accepts shard) :
    Checked outside config (state.answer shard answer) where
  config_eq := hchecked.config_eq
  answers shard' db hmem := by
    rcases List.mem_cons.mp hmem with heq | hmem
    · obtain ⟨rfl, hanswer⟩ := Prod.mk.inj heq
      exact haccepts db hanswer.symm
    · exact hchecked.answers shard' db hmem
  calls := hchecked.calls

theorem Checked.step {config : Config} {next : State File} {action : Action}
    (hchecked : Checked outside config state) (hstep : step outside state action = some next) :
    Checked outside config next := by
  have haccepts : ∀ name, isInvalid name = false → Accepts (some name) := by
    intro name hvalid other hname
    rwa [← Option.some.inj hname]
  cases action with
  | lookup caller shard =>
      rw [Pool.step] at hstep
      split at hstep
      · cases hstep
        cases shard with
        -- the default handle is given for no name
        | none => exact hchecked.answer fun _ _ name hname => by cases hname
        | some name =>
            rw [lookup]
            split
            · exact hchecked.answer fun db hdb => by cases hdb
            rename_i hvalid
            rw [Bool.not_eq_true] at hvalid
            split
            · exact hchecked.answer fun _ _ => haccepts name hvalid
            · refine hchecked.put caller fun call hcall => ?_
              rw [← Option.some.inj hcall]
              exact hvalid
      · cases hstep
  | connect caller failure =>
      rw [Pool.step] at hstep
      split at hstep
      · rename_i name hcall
        have hvalid : isInvalid name = false := hchecked.calls caller _ hcall
        split at hstep
        · cases hstep
          refine { hchecked.put caller (fun call hput => ?_) with }
          rw [← Option.some.inj hput]
          exact hvalid
        · cases hstep
          refine Checked.answer (hchecked.put caller fun _ hput => ?_) fun db hdb => ?_
          · cases hput
          · cases hdb
      · cases hstep
  | insert caller =>
      rw [Pool.step] at hstep
      split at hstep
      · rename_i name db hcall
        have hvalid : isInvalid name = false := hchecked.calls caller _ hcall
        cases hstep
        have hinsert : Checked outside config (state.insert outside name db) :=
          { hchecked with }
        refine Checked.answer (hinsert.put caller fun _ hput => ?_) fun _ _ => haccepts name hvalid
        cases hput
      · cases hstep
  | drop caller =>
      cases hstep
      refine hchecked.put caller fun _ hput => ?_
      cases hput

/-- What `new` builds. -/
theorem new_eq_ok {config : Config} {opened : Except Error Unit} {inner : Inner File}
    (hnew : new outside config opened = .ok inner) :
    inner.default = Pool.connect outside inner.config 0 ∧
      ∃ numShards hpos, inner.shards = .new numShards hpos := by
  unfold new at hnew
  split at hnew
  · cases hnew
  · split at hnew
    · cases hnew
    · rename_i hzero
      cases opened with
      | error e => cases hnew
      | ok _ =>
          cases hnew
          exact ⟨rfl, _, Nat.pos_of_ne_zero hzero, rfl⟩

theorem sound_start {config : Config} {opened : Except Error Unit} {inner : Inner File}
    (hnew : new outside config opened = .ok inner) : Sound outside (start inner) := by
  obtain ⟨hdefault, numShards, hpos, hshards⟩ := new_eq_ok hnew
  exact Sound.start outside hpos hshards hdefault

/-- Along a run handles identify their shards exactly when its steps are allowed. -/
theorem identified_iff_allowed {config : Config} {opened : Except Error Unit}
    {inner : Inner File} (hnew : new outside config opened = .ok inner) (actions : List Action) :
    (∀ state, Visits outside inner actions state → Identified state) ↔
      ∀ state action next, Taken outside inner actions state action next →
        Allowed outside state action :=
  Machine.visits_iff_allowed (Sound outside) Identified (Allowed outside)
    (fun _ hsound => hsound.identified)
    (fun _ _ _ hsound hallowed hstep => hsound.step hallowed hstep)
    (fun _ _ _ hsound hstep hidentified => hsound.allowed hstep hidentified)
    (sound_start hnew)

theorem Checked.start (inner : Inner File) :
    Checked outside inner.config (Pool.start inner) where
  config_eq := rfl
  answers shard db hmem := by cases hmem
  calls caller call hcall := by cases hcall

theorem checked_of_visits {inner : Inner File} {actions : List Action} {state : State File}
    (hvisits : Visits outside inner actions state) : Checked outside inner.config state :=
  Machine.visits_invariant (Checked outside inner.config)
    (fun _ _ _ hchecked hstep => hchecked.step hstep) (Checked.start inner) hvisits

/-! ### Configurations -/

theorem Checked.fileOf_eq {inner : Inner File} (hchecked : Checked outside inner.config state) :
    state.inner.fileOf outside = inner.fileOf outside := by
  obtain ⟨⟨default, config, shards, validated⟩, opened, calls, answers⟩ := state
  obtain rfl : config = inner.config := hchecked.config_eq
  rfl

/-- A relative path is put behind the base. -/
theorem exists_join_eq (base : List Char) :
    ∃ dir, ∀ file, file.head? ≠ some '/' → join base file = dir ++ file := by
  by_cases hsep : (base.getLast?.any fun c => decide (c ≠ '/')) = true
  · refine ⟨base ++ ['/'], fun file hfile => ?_⟩
    rw [join, if_neg hfile, if_pos hsep, List.append_assoc, List.singleton_append]
  · exact ⟨base, fun file hfile => by rw [join, if_neg hfile, if_neg hsep]⟩

theorem head?_ne_of_isInvalid {name : List Char} (hvalid : isInvalid name = false) :
    (name ++ ".db".toList).head? ≠ some '/' := by
  cases name with
  | nil => cases hvalid
  | cons c rest =>
      intro hhead
      obtain rfl : c = '/' := Option.some.inj hhead
      simp [isInvalid] at hvalid

/-- Shards have different paths. -/
theorem shardPath_injective {base name name' : List Char} (hbase : base ≠ inMemory)
    (hvalid : isInvalid name = false) (hvalid' : isInvalid name' = false)
    (heq : shardPath base name = shardPath base name') : name = name' := by
  obtain ⟨dir, hdir⟩ := exists_join_eq base
  rw [shardPath, shardPath, if_neg hbase, if_neg hbase, hdir _ (head?_ne_of_isInvalid hvalid),
    hdir _ (head?_ne_of_isInvalid hvalid')] at heq
  exact List.append_cancel_right (List.append_cancel_left heq)

theorem join_ne_inMemory (base name : List Char) : join base (name ++ ".db".toList) ≠ inMemory := by
  have hlast : (join base (name ++ ".db".toList)).getLast? = some 'b' := by
    unfold join
    split_ifs <;> simp [List.getLast?_append, List.getLast?_cons]
  intro heq
  rw [heq] at hlast
  exact absurd hlast (by decide)

/-- A shard has no file only where all shards are in memory. -/
theorem fileOf_eq_none_iff {inner : Inner File} {name : List Char} :
    inner.fileOf outside (some name) = none ↔ inner.basePath = inMemory := by
  have hfile : inner.fileOf outside (some name) =
      if shardPath inner.basePath name = inMemory then none
      else some (outside.resolve (shardPath inner.basePath name)) := rfl
  by_cases hbase : inner.basePath = inMemory
  · rw [hfile, shardPath, if_pos hbase, if_pos rfl]
    exact iff_of_true rfl hbase
  · rw [hfile, shardPath, if_neg hbase, if_neg (join_ne_inMemory _ _)]
    exact iff_of_false (Option.some_ne_none _) hbase

/-- Where different paths are different files, only the default database can be a shard. -/
theorem separates_of_injective {inner : Inner File} (hinj : Function.Injective outside.resolve)
    (hbase : inner.basePath ≠ inMemory)
    (hpath : ∀ name, isInvalid name = false →
      shardPath inner.basePath name ≠ inner.config.path) : Separates outside inner := by
  have hresolve : ∀ {shard : Option (List Char)} {file : File},
      inner.fileOf outside shard = some file →
        file = outside.resolve (inner.configOf shard).path := by
    intro shard file hfile
    rw [Inner.fileOf, Config.file] at hfile
    split at hfile
    · cases hfile
    · exact (Option.some.inj hfile).symm
  refine ⟨hbase, ?_⟩
  rintro shard shard' haccepts haccepts' hne ⟨file, hfile, hfile'⟩
  have heq : (inner.configOf shard).path = (inner.configOf shard').path :=
    hinj ((hresolve hfile).symm.trans (hresolve hfile'))
  cases shard with
  | none =>
      cases shard' with
      | none => exact hne rfl
      | some name' => exact hpath name' (haccepts' name' rfl) heq.symm
  | some name =>
      cases shard' with
      | none => exact hpath name (haccepts name rfl) heq
      | some name' =>
          exact hne (congrArg some
            (shardPath_injective hbase (haccepts name rfl) (haccepts' name' rfl) heq))

/-- Where the configuration separates the shards, every step is allowed. -/
theorem allowed_of_separates {inner : Inner File} (hseparates : Separates outside inner)
    {actions : List Action} {action : Action} {next : State File}
    (htaken : Taken outside inner actions state action next) : Allowed outside state action := by
  obtain ⟨before, after, rfl, hbefore, hstep⟩ := htaken
  have hchecked : Checked outside inner.config state :=
    checked_of_visits (Machine.visits_final hbefore)
  have hapart : ∀ shard, Accepts shard → Apart outside state shard := by
    intro shard haccepts shard' db hmem hne hsame
    refine hseparates.2 shard shard' haccepts (hchecked.answers _ _ hmem) hne.symm ?_
    rwa [Inner.SameFile, hchecked.fileOf_eq] at hsame
  cases action with
  | lookup caller shard =>
      cases shard with
      | none => exact hapart none fun name hname => by cases hname
      | some name => trivial
  | connect caller failure => trivial
  | insert caller =>
      intro name db hcall
      refine ⟨hapart (some name) fun other hname => ?_, fun hnone => ?_⟩
      · exact Option.some.inj hname ▸ hchecked.calls caller _ hcall
      · rw [hchecked.fileOf_eq] at hnone
        exact absurd (fileOf_eq_none_iff.mp hnone) hseparates.1
  | drop caller => trivial

/-- An idle caller can be answered. -/
theorem exists_answer (hidle : state.calls 0 = none) {shard : Option (List Char)}
    (haccepts : Accepts shard) :
    ∃ actions final db, run (step outside) state actions = some final ∧ final.calls 0 = none ∧
      (shard, .ok db) ∈ final.answers ∧ state.answers ⊆ final.answers := by
  have hlookup : step outside state (.lookup 0 shard) = some (lookup outside state 0 shard) := by
    rw [step, hidle]
  cases shard with
  | none =>
      exact ⟨[.lookup 0 none], _, _, Machine.run_singleton_eq_some.mpr hlookup, hidle,
        List.mem_cons_self, List.subset_cons_self _ _⟩
  | some name =>
      rw [lookup, if_neg (by rw [haccepts name rfl]; decide)] at hlookup
      cases hget : state.inner.shards.get outside.hash name with
      | some db =>
          rw [hget] at hlookup
          exact ⟨[.lookup 0 (some name)], _, db, Machine.run_singleton_eq_some.mpr hlookup, hidle,
            List.mem_cons_self, List.subset_cons_self _ _⟩
      | none =>
          rw [hget] at hlookup
          refine ⟨[.lookup 0 (some name), .connect 0 none, .insert 0], _, _,
            run_cons_eq_some.mpr ⟨_, hlookup, run_cons_eq_some.mpr ⟨_, rfl,
              run_cons_eq_some.mpr ⟨_, rfl, rfl⟩⟩⟩, ?_, List.mem_cons_self,
            List.subset_cons_self _ _⟩
          rfl

/-- Two calls for one shard that is in memory: the second inserts what the first has not. -/
theorem exists_race {inner : Inner File} {numShards : ℕ} {hpos : 0 < numShards}
    (hshards : inner.shards = .new numShards hpos) (hmemory : inner.basePath = inMemory) :
    ∃ actions state action next, Taken outside inner actions state action next ∧
      ¬ Allowed outside state action := by
  let before : List Action :=
    [.lookup 0 (some ['a']), .lookup 1 (some ['a']), .connect 0 none, .connect 1 none, .insert 0]
  obtain ⟨state, hbefore, hcall, hget, hconfig⟩ : ∃ state, run (step outside) (start inner) before =
      some state ∧ (∃ db, state.calls 1 = some (.inserting ['a'] db)) ∧
        state.inner.shards.get outside.hash ['a'] ≠ none ∧
          state.inner.basePath = inner.basePath := by
    have hmissing : inner.shards.get outside.hash ['a'] = none := by
      rw [hshards, ShardedMap.get_new]
    simp [before, run, step, lookup, start, State.put, State.answer, State.insert, hmissing,
      ShardedMap.get_insert, isInvalid, Inner.basePath]
  obtain ⟨db, hcall⟩ := hcall
  refine ⟨before ++ [.insert 1], state, .insert 1, _,
    ⟨before, [], rfl, hbefore, by rw [step, hcall]⟩, fun hallowed => ?_⟩
  exact hget ((hallowed ['a'] db hcall).2 (fileOf_eq_none_iff.mpr (hconfig.trans hmemory)))

/-- All runs are good exactly where the configuration separates the shards. -/
theorem forall_identified_iff {config : Config} {opened : Except Error Unit}
    {inner : Inner File} (hnew : new outside config opened = .ok inner) :
    (∀ actions state, Visits outside inner actions state → Identified state) ↔
      Separates outside inner := by
  constructor
  · intro hidentified
    have hallowed : ∀ actions state action next, Taken outside inner actions state action next →
        Allowed outside state action :=
      fun actions => (identified_iff_allowed hnew actions).mp (hidentified actions)
    refine ⟨fun hmemory => ?_, fun shard shard' haccepts haccepts' hne hsame => ?_⟩
    · obtain ⟨-, numShards, hpos, hshards⟩ := new_eq_ok hnew
      obtain ⟨actions, state, action, next, htaken, hnot⟩ := exists_race hshards hmemory
      exact hnot (hallowed actions state action next htaken)
    · -- ask for the one, then for the other
      have hstart : (start inner).calls 0 = none := rfl
      obtain ⟨first, middle, db, hfirst, hidle, hmem, -⟩ := exists_answer hstart haccepts
      obtain ⟨second, final, db', hsecond, -, hmem', hkept⟩ := exists_answer hidle haccepts'
      have hrun : run (step outside) (start inner) (first ++ second) = some final :=
        Machine.run_append_eq_some.mpr ⟨middle, hfirst, hsecond⟩
      have hsound : Sound outside final :=
        Machine.run_invariant_of_allowed (Sound outside) (Allowed outside)
          (fun _ _ _ hsound hallowed hstep => hsound.step hallowed hstep) (sound_start hnew)
          (hallowed (first ++ second)) hrun
      have hchecked : Checked outside inner.config final :=
        checked_of_visits (Machine.visits_final hrun)
      obtain ⟨file, hfile, hfile'⟩ := hsame
      rw [← hchecked.fileOf_eq] at hfile hfile'
      refine hne ((hsound.identified shard db shard' db' (hkept hmem) hmem').mp ?_)
      rw [denotes_eq_iff, hsound.file_eq (hkept hmem), hsound.file_eq hmem', hfile, hfile']
      exact ⟨rfl, fun hnone => by cases hnone⟩
  · intro hseparates actions
    exact (identified_iff_allowed hnew actions).mpr fun state action next htaken =>
      allowed_of_separates hseparates htaken

end Identity

/--
For a configuration that `new` accepts: along a run of calls, handles denote one database exactly
when the same shard was asked for, if and only if no handle is returned while a handle of the same
file was returned for another argument, and, in memory, no shard is inserted that the map holds.
All runs are so if and only if shards are not in memory and no two arguments have one file.
-/
theorem conn_identifies_iff {File : Type*} (outside : Outside File) (config : Config)
    (opened : Except Error Unit) (inner : Inner File)
    (hnew : new outside config opened = .ok inner) :
    (∀ actions, (∀ state, Visits outside inner actions state → Identified state) ↔
      ∀ state action next, Taken outside inner actions state action next →
        Allowed outside state action) ∧
    ((∀ actions state, Visits outside inner actions state → Identified state) ↔
      Separates outside inner) :=
  ⟨identified_iff_allowed hnew, forall_identified_iff hnew⟩

/-! ## Three configurations -/

/-- Different paths are different files. -/
def plainFiles : Outside (List Char) where
  hash := List.length
  debug name := String.ofList ('"' :: name ++ ['"'])
  resolve path := path

def configAt (path basePath : String) : Config :=
  ⟨path.toList, some ⟨basePath.toList, 16⟩⟩

def poolAt (path basePath : String) : Inner (List Char) where
  default := connect plainFiles (configAt path basePath) 0
  config := configAt path basePath
  shards := .new 16 (by decide)
  validated := rfl

/-- The defaults separate the shards. -/
theorem defaults_identify :
    Separates plainFiles (poolAt "data/app.db" "data/shards") ∧
      ∀ actions state, Visits plainFiles (poolAt "data/app.db" "data/shards") actions state →
        Identified state := by
  refine (and_iff_left_of_imp (conn_identifies_iff plainFiles
    (configAt "data/app.db" "data/shards") (.ok ())
    (poolAt "data/app.db" "data/shards") rfl).2.mpr).mpr
    (separates_of_injective Function.injective_id (by decide) fun name hvalid heq => ?_)
  have hpath : shardPath "data/shards".toList name =
      "data/shards/".toList ++ (name ++ ".db".toList) := by
    rw [shardPath, if_neg (by decide), join, if_neg (head?_ne_of_isInvalid hvalid)]
    rfl
  have htake := congrArg (List.take 6) (hpath.symm.trans heq)
  rw [List.take_append_of_le_length (by decide)] at htake
  exact absurd htake (by decide)

/-- In memory, two first calls for a shard are answered with two databases; and a default
database may be a shard. -/
theorem shard_mistaken :
    (new plainFiles (configAt ":memory:" ":memory:") (.ok ()) =
        .ok (poolAt ":memory:" ":memory:") ∧
      ∃ state db db', Visits plainFiles (poolAt ":memory:" ":memory:")
        [.lookup 0 (some ['a']), .lookup 1 (some ['a']), .connect 0 none, .connect 1 none,
          .insert 0, .insert 1] state ∧
      (some ['a'], .ok db) ∈ state.answers ∧ (some ['a'], .ok db') ∈ state.answers ∧
        db.denotes ≠ db'.denotes) ∧
    new plainFiles (configAt "data/shards/tenant.db" "data/shards") (.ok ()) =
        .ok (poolAt "data/shards/tenant.db" "data/shards") ∧
      ∃ state db db', Visits plainFiles (poolAt "data/shards/tenant.db" "data/shards")
        [.lookup 0 none, .lookup 0 (some "tenant".toList), .connect 0 none, .insert 0] state ∧
      (none, .ok db) ∈ state.answers ∧ (some "tenant".toList, .ok db') ∈ state.answers ∧
        db.denotes = db'.denotes := by
  refine ⟨⟨rfl, _, ⟨1, none⟩, ⟨2, none⟩, Machine.visits_final rfl, ?_, ?_, by decide⟩,
    ⟨rfl, _, ⟨0, some "data/shards/tenant.db".toList⟩, ⟨1, some "data/shards/tenant.db".toList⟩,
      Machine.visits_final rfl, ?_, ?_, by decide⟩⟩
  · exact List.mem_cons_of_mem _ List.mem_cons_self
  · exact List.mem_cons_self
  · exact List.mem_cons_of_mem _ List.mem_cons_self
  · exact List.mem_cons_self

end Modo.Db.Pool
