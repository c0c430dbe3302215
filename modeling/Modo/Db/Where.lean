import Modo.Db.Filter

/-!
# What a `WHERE` clause selects

The clauses of a filter are read back from their texts: a quoted column, and
after it one of the forms that SQLite knows (`readClause`).  The forms take their
parameters in order, and a row is selected when every clause is true of it;
`NULL` is not true.

The text of a clause reads as the condition it was made for when its column has
no double quote (`readClause_clause`), so that a validated filter selects the rows
that all its conditions hold of (`selects_iff`).
-/

namespace Modo.Db

/-! ## Reading -/

/-- What follows the column in a clause. -/
inductive Form where
  | isNull (isNull : Bool)
  | compare (op : Comparison)
  | like
  | oneOf (n : ℕ)
  deriving DecidableEq

/-- The number of placeholders. -/
def Form.arity : Form → ℕ
  | isNull _ => 0
  | compare _ | like => 1
  | oneOf n => n

/-- The text of an `IN` with `n` placeholders. -/
def inText (n : ℕ) : String := " IN (" ++ joinWith ", " (List.replicate n "?") ++ ")"

/-- The form of the text after a column. -/
def readForm (text : String) : Option Form :=
  if text = inText (text.toList.count '?') then some (.oneOf (text.toList.count '?'))
  else
    match text with
    | " IS NULL" => some (.isNull true)
    | " IS NOT NULL" => some (.isNull false)
    | " = ?" => some (.compare .eq)
    | " != ?" => some (.compare .ne)
    | " > ?" => some (.compare .gt)
    | " >= ?" => some (.compare .ge)
    | " < ?" => some (.compare .lt)
    | " <= ?" => some (.compare .le)
    | " LIKE ?" => some .like
    | _ => none

/-- The column and the form of a clause. -/
def readClause (text : String) : Option (String × Form) :=
  match text.toList with
  | [] => none
  | c :: rest =>
      if c = '"' then
        (Utf8.splitOnce '"' rest).bind fun (column, tail) =>
          (readForm (String.ofList tail)).map fun form => (String.ofList column, form)
      else none

/-! ## Truth -/

/-- `IN`: true when a value is equal, else `NULL` when a comparison is `NULL`. -/
def evalIn (results : List (Option Bool)) : Option Bool :=
  if some true ∈ results then some true
  else if none ∈ results then none
  else some false

/-- The truth value of a form. -/
def Form.eval (sqlite : Sqlite) (affinity : Affinity) (stored : Value) (params : List Value) :
    Form → Option Bool
  | .isNull wanted => some (stored.isNull == wanted)
  | compare op => params.head?.bind (op.eval sqlite affinity stored)
  | like =>
      params.head?.bind fun param =>
        if stored.isNull || param.isNull then none else some (sqlite.like stored param)
  | oneOf _ => evalIn (params.map (Comparison.eq.eval sqlite affinity stored))

/-- The columns of a table. -/
structure Columns where
  affinity : String → Affinity

/-- The clauses are true of the row, each with the parameters of its placeholders. -/
def clausesHold (sqlite : Sqlite) (columns : Columns) (row : String → Value) :
    List String → List Value → Bool
  | [], params => params.isEmpty
  | text :: rest, params =>
      match readClause text with
      | none => false
      | some (column, form) =>
          decide (form.arity ≤ params.length) &&
            decide (form.eval sqlite (columns.affinity column) (row column)
              (params.take form.arity) = some true) &&
            clausesHold sqlite columns row rest (params.drop form.arity)

/-- The row is selected by the filter. -/
def ValidatedFilter.selects (sqlite : Sqlite) (columns : Columns) (row : String → Value)
    (validated : ValidatedFilter) : Bool :=
  clausesHold sqlite columns row validated.clauses validated.params

/-! ## Clauses read as their conditions -/

/-- The form of the clause of a condition with `n` values. -/
def Operator.form (n : ℕ) : Operator → Form
  | eq => .compare .eq
  | ne => .compare .ne
  | gt => .compare .gt
  | gte => .compare .ge
  | lt => .compare .lt
  | lte => .compare .le
  | like => .like
  | .isNull wanted => .isNull wanted
  | oneOf => .oneOf n

theorem count_marks (n : ℕ) :
    (joinWith ", " (List.replicate n "?")).toList.count '?' = n := by
  induction n with
  | zero => rfl
  | succ n ih =>
      cases n with
      | zero => decide
      | succ n =>
          have hunfold : joinWith ", " (List.replicate (n + 1 + 1) "?") =
              "?" ++ ", " ++ joinWith ", " (List.replicate (n + 1) "?") := rfl
          have hmark : ("?" ++ ", ").toList.count '?' = 1 := by decide
          rw [hunfold, String.toList_append, List.count_append, ih, hmark, Nat.add_comm]

theorem count_inText (n : ℕ) : (inText n).toList.count '?' = n := by
  have hopen : " IN (".toList.count '?' = 0 := by decide
  have hclose : ")".toList.count '?' = 0 := by decide
  rw [inText, String.toList_append, String.toList_append, List.count_append, List.count_append,
    count_marks, hopen, hclose, Nat.zero_add, Nat.add_zero]

theorem readForm_inText (n : ℕ) : readForm (inText n) = some (.oneOf n) := by
  unfold readForm
  rw [count_inText, if_pos rfl]

/-- The text of a clause after its column. -/
theorem clauseText_eq (column : String) (operator : Operator) (n : ℕ) :
    ∃ tail, clauseText column operator n = quoted column ++ tail ∧
      readForm tail = some (operator.form n) := by
  have hcompare : ∀ text form, readForm (" " ++ text ++ " ?") = some form →
      ∃ tail, quoted column ++ " " ++ text ++ " ?" = quoted column ++ tail ∧
        readForm tail = some form := by
    intro text form hform
    exact ⟨" " ++ text ++ " ?", by simp [String.append_assoc], hform⟩
  cases operator with
  | isNull wanted =>
      cases wanted
      · exact ⟨_, rfl, (by decide : readForm " IS NOT NULL" = some (.isNull false))⟩
      · exact ⟨_, rfl, (by decide : readForm " IS NULL" = some (.isNull true))⟩
  | oneOf =>
      refine ⟨inText n, ?_, readForm_inText n⟩
      simp [clauseText, inText, String.append_assoc]
  | eq => exact hcompare "=" (.compare .eq) (by decide)
  | ne => exact hcompare "!=" (.compare .ne) (by decide)
  | gt => exact hcompare ">" (.compare .gt) (by decide)
  | gte => exact hcompare ">=" (.compare .ge) (by decide)
  | lt => exact hcompare "<" (.compare .lt) (by decide)
  | lte => exact hcompare "<=" (.compare .le) (by decide)
  | like => exact hcompare "LIKE" .like (by decide)

/-- **A clause reads as the condition it was made for.** -/
theorem readClause_clauseText {column : String} (hcolumn : '"' ∉ column.toList)
    (operator : Operator) (n : ℕ) :
    readClause (clauseText column operator n) = some (column, operator.form n) := by
  obtain ⟨tail, htext, hform⟩ := clauseText_eq column operator n
  have hquote : ("\"" : String).toList = ['"'] := by decide
  have hchars : (quoted column ++ tail).toList =
      '"' :: (column.toList ++ '"' :: tail.toList) := by
    simp [quoted, hquote]
  have hsplit : Utf8.splitOnce '"' (column.toList ++ '"' :: tail.toList) =
      some (column.toList, tail.toList) := Utf8.splitOnce_eq_some.mpr ⟨rfl, hcolumn⟩
  rw [htext, readClause, hchars]
  simp [hsplit, hform]

/-! ## The rows of a validated filter -/

/-- The condition with its parameters is true of the row. -/
def PairHolds (sqlite : Sqlite) (columns : Columns) (row : String → Value)
    (pair : FilterCondition × List Value) : Prop :=
  (pair.1.operator.form pair.1.values.length).eval sqlite (columns.affinity pair.1.column)
    (row pair.1.column) pair.2 = some true

theorem arity_form (operator : Operator) (n : ℕ) : (operator.form n).arity = operator.arity n := by
  cases operator <;> rfl

variable {sqlite : Sqlite} {columns : Columns} {row : String → Value}
  {parseF64 : String → Option F64} {schema : FilterSchema}

/-- Clauses and parameters of conditions are true when each condition is. -/
theorem clausesHold_iff (hschema : schema.Quotable) {pairs : List (FilterCondition × List Value)}
    (hconverts : ∀ pair ∈ pairs, Converts parseF64 schema pair) :
    clausesHold sqlite columns row (pairs.map fun pair => pair.1.clause)
        (pairs.flatMap Prod.snd) = true ↔
      ∀ pair ∈ pairs, PairHolds sqlite columns row pair := by
  induction pairs with
  | nil => simp [clausesHold]
  | cons pair rest ih =>
      obtain ⟨fieldType, hfield, hparams⟩ := hconverts pair List.mem_cons_self
      have hread := readClause_clauseText (hschema.field hfield) pair.1.operator
        pair.1.values.length
      have hlength := length_params hparams
      rw [← arity_form] at hlength
      have htail := ih fun other hother => hconverts other (List.mem_cons_of_mem _ hother)
      rw [List.map_cons, List.flatMap_cons, clausesHold, FilterCondition.clause, hread]
      simp only [← hlength, List.take_left, List.drop_left, List.length_append,
        Nat.le_add_right, decide_true, Bool.true_and, Bool.and_eq_true, decide_eq_true_eq, htail,
        List.forall_mem_cons]
      rfl

/-- **A validated filter selects the rows that all its conditions are true of.** -/
theorem selects_iff (hschema : schema.Quotable) {filter : Filter} {validated : ValidatedFilter}
    (hvalidate : filter.validate parseF64 schema = .ok validated) :
    validated.selects sqlite columns row = true ↔
      ∀ cond ∈ filter.conditions, ∀ params, Converts parseF64 schema (cond, params) →
        PairHolds sqlite columns row (cond, params) := by
  obtain ⟨pairs, hpairs, hconverts, rfl⟩ := validate_eq_ok.mp hvalidate
  refine (clausesHold_iff hschema hconverts).trans ?_
  constructor
  · intro hholds cond hcond params hparams
    have hmem : cond ∈ pairs.map Prod.fst := hpairs ▸ mem_known.mpr ⟨hcond, hparams.knows⟩
    obtain ⟨⟨found, made⟩, hpair, rfl⟩ := List.mem_map.mp hmem
    rw [hparams.unique (hconverts _ hpair)]
    exact hholds _ hpair
  · intro hholds pair hpair
    have hmem : pair.1 ∈ pairs.map Prod.fst := List.mem_map_of_mem hpair
    rw [hpairs] at hmem
    exact hholds pair.1 (mem_known.mp hmem).1 pair.2 (hconverts pair hpair)

end Modo.Db
