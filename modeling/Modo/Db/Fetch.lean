import Mathlib.Data.List.Sort
import Modo.Db.Select

/-!
# Fetching one row and fetching all

`fetch_all` sorts its statement by the resolved order, `fetch_one` and
`fetch_optional` append `LIMIT 1` to the text before the order.  Whether the row
they return is the first of `fetch_all` is thus a question about the first row
of an unsorted scan, and `fetch_agrees_iff` says when it is.
-/

namespace Modo.Db

/-- What a step over the rows of a statement gives. -/
abbrev Step (Row : Type) := Except (ℕ × String) Row

namespace SelectBuilder

variable {Row T : Type} (query : Statement → List (Step Row)) (fromRow : Row → Step T)

/-! ## The three methods

A query is the list of its steps; a statement that is refused fails at the first.
-/

def fetchAll (builder : SelectBuilder) : Except (ℕ × String) (List T) :=
  (query builder.allStatement).mapM fun step => do fromRow (← step)

def fetchOne (builder : SelectBuilder) : Except (ℕ × String) T :=
  match query builder.oneStatement with
  | [] => .error (404, "record not found")
  | step :: _ => do fromRow (← step)

def fetchOptional (builder : SelectBuilder) : Except (ℕ × String) (Option T) :=
  match query builder.oneStatement with
  | [] => .ok none
  | step :: _ => do return some (← fromRow (← step))

theorem mapM_eq_ok_iff {α β : Type} {f : α → Except (ℕ × String) β} :
    ∀ {as : List α} {bs : List β}, as.mapM f = .ok bs ↔ as.map f = bs.map .ok := by
  intro as
  induction as with
  | nil =>
      intro bs
      cases bs <;> simp [pure, Except.pure]
  | cons a as ih =>
      intro bs
      rw [List.mapM_cons, List.map_cons]
      cases hhead : f a with
      | error error => cases bs <;> simp [bind, Except.bind]
      | ok b =>
          cases htail : as.mapM f with
          | error error =>
              have hne : ∀ bs : List β, as.map f ≠ bs.map .ok := fun bs h => by
                rw [← ih, htail] at h
                cases h
              cases bs with
              | nil => simp [bind, Except.bind]
              | cons b' bs => simp [bind, Except.bind, hne]
          | ok rest =>
              have hrest := ih.mp htail
              cases bs with
              | nil => simp [bind, Except.bind, pure, Except.pure]
              | cons b' bs =>
                  simp [bind, Except.bind, pure, Except.pure, hrest,
                    (List.map_injective_iff.mpr fun _ _ => Except.ok.inj).eq_iff]

theorem fetchAll_eq_ok_iff {builder : SelectBuilder} {items : List T} :
    builder.fetchAll query fromRow = .ok items ↔
      (query builder.allStatement).map (fun step => step >>= fromRow) = items.map .ok :=
  mapM_eq_ok_iff

/-- What `fetch_one` makes of the first row of a list. -/
def firstOrNotFound : List T → Except (ℕ × String) T
  | [] => .error (404, "record not found")
  | item :: _ => .ok item

/-- Whenever `fetch_all` returns rows, the single-row methods return the first. -/
def FetchesAgree (builder : SelectBuilder) : Prop :=
  ∀ items, builder.fetchAll query fromRow = .ok items →
    builder.fetchOptional query fromRow = .ok items.head? ∧
      builder.fetchOne query fromRow = firstOrNotFound items

end SelectBuilder

/-! ## The answers of a database -/

/--
A table as the base query and its conditions see it: the rows in the order of the
scan, the failure that ends it, and how the clauses behind them are taken.
-/
structure Database (Row : Type) where
  rows : List Row
  failure : Option (ℕ × String)
  refusesOrder : Option (ℕ × String)
  refusesLimit : Option (ℕ × String)
  /-- The order of an `ORDER BY` clause. -/
  atMost : String → Row → Row → Bool
  atMost_trans : ∀ order a b c, atMost order a b → atMost order b c → atMost order a c
  atMost_total : ∀ order a b, (atMost order a b || atMost order b a) = true

namespace Database

variable {Row : Type} (db : Database Row)

def steps : List (Step Row) := db.rows.map .ok ++ db.failure.toList.map .error

/-- The rows stand as in the scan, or sorted in some way that the clause allows. -/
def Ordered : Option String → List Row → Prop
  | none, rows => rows = db.rows
  | some order, rows =>
      rows.Perm db.rows ∧ rows.Pairwise (fun a b => db.atMost order a b = true)

/-- The steps of the query, without an order or with one. -/
def Arranged : Option String → List (Step Row) → Prop
  | none, steps => steps = db.steps
  | some order, steps =>
      match db.refusesOrder.or db.failure with
      | some error => steps = [.error error]
      | none => ∃ rows, db.Ordered (some order) rows ∧ steps = rows.map .ok

/-- The steps of the query behind which `LIMIT 1` stands. -/
def firstStep : List (Step Row) :=
  match db.refusesLimit with
  | some error => [.error error]
  | none => db.steps.take 1

/-- The connection answers the statements of the builder from the database. -/
def Answers (query : Statement → List (Step Row)) (builder : SelectBuilder) : Prop :=
  db.Arranged builder.resolveOrder (query builder.allStatement) ∧
    query builder.oneStatement = db.firstStep

/-- No row of the table comes before it. -/
def Least (order : String) (row : Row) : Prop :=
  row ∈ db.rows ∧ ∀ other ∈ db.rows, db.atMost order row other = true

/-- The scan fails, or a row of it does not convert. -/
def Fails {T : Type} (fromRow : Row → Step T) : Prop :=
  db.failure.isSome = true ∨ ∃ row ∈ db.rows, ∀ item, fromRow row ≠ .ok item

/--
The statement takes a limit, and every row that may stand first in the order is
read as the first row of the scan is.
-/
def FirstIsLeast {T : Type} (fromRow : Row → Step T) : Option String → Prop
  | none => db.refusesLimit = none
  | some order => db.refusesOrder.isSome = true ∨ db.refusesLimit = none ∧
      ∀ row, db.Least order row → db.rows.head?.map fromRow = some (fromRow row)

variable {db} {T : Type} {fromRow : Row → Step T}

theorem Arranged.exists_rows {order : Option String} {steps : List (Step Row)} {items : List T}
    (harranged : db.Arranged order steps)
    (hitems : steps.map (fun step => step >>= fromRow) = items.map .ok) :
    db.failure = none ∧ (order.isSome = true → db.refusesOrder = none) ∧
      ∃ rows, db.Ordered order rows ∧ rows.map fromRow = items.map .ok := by
  have hno_error : ∀ error, (.error error : Step Row) ∉ steps := by
    intro error hmem
    have hmem := List.mem_map_of_mem (f := fun step => step >>= fromRow) hmem
    rw [hitems] at hmem
    simp [bind, Except.bind] at hmem
  have hmap : ∀ rows : List Row,
      (rows.map .ok : List (Step Row)).map (fun step => step >>= fromRow) = rows.map fromRow := by
    intro rows
    simp [bind, Except.bind, Function.comp_def]
  cases order with
  | none =>
      obtain rfl := harranged
      cases hfailure : db.failure with
      | some error =>
          exact absurd (List.mem_append_right _ (by simp [hfailure])) (hno_error error)
      | none =>
          refine ⟨rfl, by simp, db.rows, rfl, ?_⟩
          rw [← hmap, ← hitems]
          simp [steps, hfailure]
  | some order =>
      simp only [Arranged] at harranged
      cases hrefuses : db.refusesOrder.or db.failure with
      | some error =>
          rw [hrefuses] at harranged
          exact absurd (by simp [harranged]) (hno_error error)
      | none =>
          rw [hrefuses] at harranged
          obtain ⟨rows, hordered, rfl⟩ := harranged
          obtain ⟨horder, hfailure⟩ := Option.or_eq_none_iff.mp hrefuses
          exact ⟨hfailure, fun _ => horder, rows, hordered, by rw [← hmap, hitems]⟩

theorem Ordered.perm {order : Option String} {rows : List Row}
    (hordered : db.Ordered order rows) : rows.Perm db.rows := by
  cases order with
  | none => rw [show rows = db.rows from hordered]
  | some order => exact hordered.1

theorem fetchOptional_of_not_refused {query : Statement → List (Step Row)}
    {builder : SelectBuilder} (hanswers : db.Answers query builder)
    (hlimit : db.refusesLimit = none) (hfailure : db.failure = none) {items : List T}
    (hhead : db.rows.head?.map fromRow = items.head?.map .ok) :
    builder.fetchOptional query fromRow = .ok items.head? ∧
      builder.fetchOne query fromRow = SelectBuilder.firstOrNotFound items := by
  have hone : query builder.oneStatement = (db.rows.take 1).map .ok := by
    simp [hanswers.2, firstStep, hlimit, steps, hfailure]
  rw [SelectBuilder.fetchOptional, SelectBuilder.fetchOne, hone]
  cases hrows : db.rows with
  | nil =>
      rw [hrows] at hhead
      cases items with
      | nil => exact ⟨rfl, rfl⟩
      | cons item items => cases hhead
  | cons row rows =>
      rw [hrows] at hhead
      cases items with
      | nil => cases hhead
      | cons item items =>
          have hrow : fromRow row = .ok item := Option.some.inj hhead
          simp [bind, Except.bind, pure, Except.pure, hrow, SelectBuilder.firstOrNotFound]

/-! ## Queries that answer as allowed -/

/-- The query that gives `all` for the statement of `fetch_all`. -/
def answering (builder : SelectBuilder) (all one : List (Step Row)) (statement : Statement) :
    List (Step Row) :=
  if statement = builder.allStatement then all else one

theorem oneStatement_ne_allStatement (builder : SelectBuilder) :
    builder.oneStatement ≠ builder.allStatement := by
  intro h
  have hsql := congrArg (fun statement => statement.sql.toList) h
  simp only [SelectBuilder.oneStatement, SelectBuilder.allStatement, String.toList_append,
    List.append_assoc, List.append_cancel_left_eq] at hsql
  cases horder : builder.resolveOrder with
  | none => simp [SelectBuilder.orderSql, horder] at hsql
  | some order => simp [SelectBuilder.orderSql, horder] at hsql

theorem answers_answering {builder : SelectBuilder} {all : List (Step Row)}
    (harranged : db.Arranged builder.resolveOrder all) :
    db.Answers (answering builder all db.firstStep) builder := by
  refine ⟨?_, if_neg (oneStatement_ne_allStatement builder)⟩
  rwa [answering, if_pos rfl]

theorem exists_ordered (db : Database Row) (order : Option String) :
    ∃ rows, db.Ordered order rows := by
  cases order with
  | none => exact ⟨db.rows, rfl⟩
  | some order =>
      exact ⟨db.rows.mergeSort (db.atMost order), List.mergeSort_perm _ _,
        List.pairwise_mergeSort (db.atMost_trans order) (db.atMost_total order) db.rows⟩

/-- A least row stands first in some order of the rows. -/
theorem Least.exists_ordered {order : String} {row : Row} (hleast : db.Least order row) :
    ∃ rest, db.Ordered (some order) (row :: rest) := by
  obtain ⟨hmem, hle⟩ := hleast
  obtain ⟨before, after, hrows⟩ := List.append_of_mem hmem
  have hperm : (row :: (before ++ after).mergeSort (db.atMost order)).Perm db.rows := by
    rw [hrows]
    exact ((List.mergeSort_perm _ _).cons row).trans List.perm_middle.symm
  refine ⟨_, hperm, List.pairwise_cons.mpr ⟨fun other hother => hle other ?_, ?_⟩⟩
  · exact hperm.mem_iff.mp (List.mem_cons_of_mem _ hother)
  · exact List.pairwise_mergeSort (db.atMost_trans order) (db.atMost_total order) _

theorem Ordered.head_least {order : String} {row : Row} {rest : List Row}
    (hordered : db.Ordered (some order) (row :: rest)) : db.Least order row := by
  refine ⟨hordered.1.mem_iff.mp List.mem_cons_self, fun other hother => ?_⟩
  rcases List.mem_cons.mp (hordered.1.mem_iff.mpr hother) with rfl | hother
  · simpa using db.atMost_total order other other
  · exact List.rel_of_pairwise_cons hordered.2 hother

theorem Ordered.arranged {order : Option String} {rows : List Row}
    (hordered : db.Ordered order rows) (hfailure : db.failure = none)
    (horder : order.isSome = true → db.refusesOrder = none) :
    db.Arranged order (rows.map .ok) := by
  cases order with
  | none =>
      obtain rfl : rows = db.rows := hordered
      simp [Arranged, steps, hfailure]
  | some order =>
      rw [Arranged, horder rfl, hfailure]
      exact ⟨rows, hordered, rfl⟩

theorem exists_items {rows : List Row} (hconverts : ∀ row ∈ rows, ∃ item, fromRow row = .ok item) :
    ∃ items : List T, rows.map fromRow = items.map .ok := by
  induction rows with
  | nil => exact ⟨[], rfl⟩
  | cons row rows ih =>
      obtain ⟨item, hitem⟩ := hconverts row List.mem_cons_self
      obtain ⟨items, hitems⟩ := ih fun row hrow => hconverts row (List.mem_cons_of_mem _ hrow)
      exact ⟨item :: items, by rw [List.map_cons, List.map_cons, hitem, hitems]⟩

/-- If the methods agree, every allowed order begins as the scan does. -/
theorem Ordered.head_eq {builder : SelectBuilder}
    (hagrees : ∀ query, db.Answers query builder → builder.FetchesAgree query fromRow)
    (hfails : ¬ db.Fails fromRow) {rows : List Row}
    (hordered : db.Ordered builder.resolveOrder rows)
    (horder : builder.resolveOrder.isSome = true → db.refusesOrder = none) :
    db.refusesLimit = none ∧ db.rows.head?.map fromRow = rows.head?.map fromRow := by
  have hfailure : db.failure = none := by
    simpa using fun h => hfails (.inl h)
  have hconverts : ∀ row ∈ rows, ∃ item, fromRow row = .ok item := by
    intro row hrow
    by_contra hnone
    exact hfails (.inr ⟨row, hordered.perm.mem_iff.mp hrow, not_exists.mp hnone⟩)
  obtain ⟨items, hitems⟩ := exists_items hconverts
  have hanswers := answers_answering (hordered.arranged hfailure horder)
  have hall : builder.fetchAll (answering builder (rows.map .ok) db.firstStep) fromRow =
      .ok items := by
    rw [SelectBuilder.fetchAll_eq_ok_iff, ← hitems, answering, if_pos rfl]
    simp [bind, Except.bind, Function.comp_def]
  -- the database may answer with these rows, and then the methods agree
  have hoptional := (hagrees _ hanswers items hall).1
  have hhead := congrArg List.head? hitems
  rw [List.head?_map, List.head?_map] at hhead
  rw [hhead]
  rw [SelectBuilder.fetchOptional, hanswers.2, firstStep] at hoptional
  cases hlimit : db.refusesLimit with
  | some error => simp [hlimit, bind, Except.bind] at hoptional
  | none =>
      refine ⟨rfl, ?_⟩
      rw [hlimit] at hoptional
      cases hrows : db.rows with
      | nil =>
          have hitem : none = items.head? := by simpa [steps, hrows, hfailure] using hoptional
          simp [← hitem]
      | cons row rest =>
          cases hrow : fromRow row with
          | error error => simp [steps, hrows, hrow, bind, Except.bind] at hoptional
          | ok item =>
              have hitem : some item = items.head? := by
                simpa [steps, hrows, hrow, bind, Except.bind, pure, Except.pure] using hoptional
              simp [hrow, ← hitem]

end Database

/-! ## When the single-row methods agree with `fetch_all` -/

/--
The single-row methods agree with `fetch_all` on every connection that answers
from the table if and only if `fetch_all` fails there or the first row of the scan
is what any sorted answer begins with.
-/
theorem fetch_agrees_iff {Row T : Type} (fromRow : Row → Step T) (builder : SelectBuilder)
    (db : Database Row) :
    (∀ query, db.Answers query builder → builder.FetchesAgree query fromRow) ↔
      db.Fails fromRow ∨ db.FirstIsLeast fromRow builder.resolveOrder := by
  constructor
  · intro hagrees
    by_cases hfails : db.Fails fromRow
    · exact .inl hfails
    · refine .inr ?_
      cases hresolve : builder.resolveOrder with
      | none =>
          have hscan : db.Ordered builder.resolveOrder db.rows := by rw [hresolve]; rfl
          exact (hscan.head_eq hagrees hfails (by simp [hresolve])).1
      | some order =>
          by_cases hrefuses : db.refusesOrder.isSome = true
          · exact .inl hrefuses
          · have horder : builder.resolveOrder.isSome = true → db.refusesOrder = none :=
              fun _ => by simpa using hrefuses
            obtain ⟨rows, hordered⟩ := db.exists_ordered builder.resolveOrder
            refine .inr ⟨(hordered.head_eq hagrees hfails horder).1, fun row hleast => ?_⟩
            -- any least row may stand first in an answer
            obtain ⟨rest, hordered⟩ := hleast.exists_ordered
            rw [← hresolve] at hordered
            exact (hordered.head_eq hagrees hfails horder).2
  · intro hcondition query hanswers items hall
    rw [SelectBuilder.fetchAll_eq_ok_iff] at hall
    obtain ⟨hfailure, horder, rows, hordered, hrows⟩ := hanswers.1.exists_rows hall
    have hconverts : ∀ row ∈ db.rows, ∃ item, fromRow row = .ok item := by
      intro row hrow
      have hmem := List.mem_map_of_mem (f := fromRow) (hordered.perm.mem_iff.mpr hrow)
      rw [hrows] at hmem
      obtain ⟨item, -, hitem⟩ := List.mem_map.mp hmem
      exact ⟨item, hitem.symm⟩
    rcases hcondition with (hfails | ⟨row, hrow, hfails⟩) | hfirst
    · simp [hfailure] at hfails
    · obtain ⟨item, hitem⟩ := hconverts row hrow
      exact absurd hitem (hfails item)
    · have hhead := congrArg List.head? hrows
      rw [List.head?_map, List.head?_map] at hhead
      cases hresolve : builder.resolveOrder with
      | none =>
          rw [hresolve] at hordered hfirst
          obtain rfl : rows = db.rows := hordered
          exact Database.fetchOptional_of_not_refused hanswers hfirst hfailure hhead
      | some order =>
          rw [hresolve] at horder hordered hfirst
          rcases hfirst with hrefuses | ⟨hlimit, hleast⟩
          · simp [horder rfl] at hrefuses
          · refine Database.fetchOptional_of_not_refused hanswers hlimit hfailure ?_
            rw [← hhead]
            cases rows with
            | nil => rw [List.nil_perm.mp hordered.1]
            | cons row rest => exact hleast row hordered.head_least

/-! ## An order that is dropped -/

/-- A table of the numbers 1 and 2, in this order, that sorts downwards. -/
def ascendingNumbers : Database ℕ where
  rows := [1, 2]
  failure := none
  refusesOrder := none
  refusesLimit := none
  atMost := fun _ a b => decide (b ≤ a)
  atMost_trans := by
    intro order a b c hab hbc
    simp only [decide_eq_true_eq] at *
    omega
  atMost_total := by
    intro order a b
    simpa using Nat.le_total b a

def newestFirst : SelectBuilder :=
  (SelectBuilder.new "SELECT x FROM numbers").withOrderBy "x DESC"

def numbersQuery : Statement → List (Step ℕ) :=
  Database.answering newestFirst [.ok 2, .ok 1] [.ok 1]

/-- `fetch_all` begins with 2 and the single-row methods return 1. -/
theorem fetchOptional_drops_order :
    ascendingNumbers.Answers numbersQuery newestFirst ∧
      newestFirst.fetchAll numbersQuery (fun n => .ok n) = .ok [2, 1] ∧
      newestFirst.fetchOptional numbersQuery (fun n => .ok n) = .ok (some 1) ∧
      newestFirst.fetchOne numbersQuery (fun n => .ok n) = .ok 1 ∧
      ¬ newestFirst.FetchesAgree numbersQuery (fun n => .ok n) := by
  have hsorted : ascendingNumbers.Ordered newestFirst.resolveOrder [2, 1] :=
    ⟨List.Perm.swap 1 2 [], by decide⟩
  have hanswers : ascendingNumbers.Answers numbersQuery newestFirst :=
    Database.answers_answering (hsorted.arranged rfl fun _ => rfl)
  have hall : newestFirst.fetchAll numbersQuery (fun n => .ok n) = .ok [2, 1] := by
    rw [SelectBuilder.fetchAll, numbersQuery, Database.answering, if_pos rfl]
    rfl
  have hone : newestFirst.fetchOptional numbersQuery (fun n => .ok n) = .ok (some 1) := by
    rw [SelectBuilder.fetchOptional, hanswers.2]
    rfl
  refine ⟨hanswers, hall, hone, ?_, fun hagrees => ?_⟩
  · rw [SelectBuilder.fetchOne, hanswers.2]
    rfl
  · have hhead := hone.symm.trans (hagrees [2, 1] hall).1
    cases hhead

end Modo.Db
