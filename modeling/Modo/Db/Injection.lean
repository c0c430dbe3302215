import Modo.Db.Alignment

/-!
# Filters cannot inject SQL

The values of a request reach a statement as parameters only.  Its text depends
on the `shape` of the conditions: their columns, operators and numbers of values.
Two requests that differ in the values of their conditions have the same shapes,
hence the same texts.
-/

namespace Modo.Db

open Placeholders (count)

/-! ## Shapes -/

/-- What the clause of a condition is made of. -/
def FilterCondition.shape (cond : FilterCondition) : String × Operator × ℕ :=
  (cond.column, cond.operator, cond.values.length)

/-- The key asks for a null check. -/
def isNullKey (key : String) : Bool :=
  (rsplitOnce '.' key.toList).any fun parts => String.ofList parts.2 == "null"

/-- The entries have one key and lists of one length, and differ neither in the
sort nor in a null check. -/
def SameForm (entry entry' : String × List String) : Prop :=
  entry.1 = entry'.1 ∧ entry.2.length = entry'.2.length ∧
    (entry.1 = "sort" ∨ isNullKey entry.1 = true → entry.2 = entry'.2)

/-- The terminals are the same up to the values of the page. -/
def SameTerminal : Terminal → Terminal → Prop
  | .fetchAll, .fetchAll | .fetchOne, .fetchOne | .fetchOptional, .fetchOptional => True
  | .page _, .page _ => True
  | .cursor req, .cursor req' => req.after.isSome = req'.after.isSome
  | _, _ => False

theorem parseOperator_eq (values values' : List String) {op : String} (hop : op ≠ "null") :
    parseOperator values op = parseOperator values' op := by
  unfold parseOperator
  split <;> first | rfl | exact absurd rfl hop

theorem parseCondition_shape {key : String} {values values' : List String}
    (hlength : values.length = values'.length) (hnull : isNullKey key = true → values = values') :
    (parseCondition key values).map FilterCondition.shape =
      (parseCondition key values').map FilterCondition.shape := by
  unfold parseCondition isNullKey at *
  cases hsplit : rsplitOnce '.' key.toList with
  | none => simp [FilterCondition.shape, hlength]
  | some parts =>
      obtain ⟨column, op⟩ := parts
      simp only [hsplit, Option.any_some, beq_iff_eq] at hnull
      by_cases hop : String.ofList op = "null"
      · rw [hnull hop]
      · simp only [parseOperator_eq values values' hop, Option.map_map]
        congr 1
        funext operator
        simp [FilterCondition.shape, hlength]

/-- The conditions by key, reduced to their shapes. -/
def shapes (conditions : List (String × FilterCondition)) :
    List (String × (String × Operator × ℕ)) :=
  conditions.map fun entry => (entry.1, entry.2.shape)

theorem lookup_shapes (conditions : List (String × FilterCondition)) (key : String) :
    (shapes conditions).lookup key = (conditions.lookup key).map FilterCondition.shape := by
  induction conditions with
  | nil => rfl
  | cons entry rest ih =>
      obtain ⟨first, cond⟩ := entry
      simp only [shapes, List.map_cons, List.lookup_cons] at ih ⊢
      cases key == first with
      | true => rfl
      | false => exact ih

theorem shapes_insertKey (key : String) (cond : FilterCondition)
    (conditions : List (String × FilterCondition)) :
    shapes (insertKey key cond conditions) =
      (key, cond.shape) :: (shapes conditions).filter fun entry => entry.1 != key := by
  rw [insertKey, shapes, List.map_cons, shapes, List.filter_map]
  rfl

theorem readEntry_shapes {state state' : List (String × FilterCondition) × List String}
    {entry entry' : String × List String} (hstate : shapes state.1 = shapes state'.1)
    (hsort : state.2 = state'.2) (hform : SameForm entry entry') :
    shapes (readEntry state entry).1 = shapes (readEntry state' entry').1 ∧
      (readEntry state entry).2 = (readEntry state' entry').2 := by
  obtain ⟨key, values⟩ := entry
  obtain ⟨key', values'⟩ := entry'
  obtain ⟨hkey, hlength, hvalues⟩ := hform
  simp only at hkey hlength hvalues
  subst hkey
  unfold readEntry
  simp only
  split_ifs with hsortKey hpage
  · exact ⟨hstate, hvalues (Or.inl hsortKey)⟩
  · exact ⟨hstate, hsort⟩
  · have hshape := parseCondition_shape hlength fun hnull => hvalues (Or.inr hnull)
    cases hcond : parseCondition key values with
    | none =>
        cases hcond' : parseCondition key values' with
        | none => exact ⟨hstate, hsort⟩
        | some cond' => simp [hcond, hcond'] at hshape
    | some cond =>
        cases hcond' : parseCondition key values' with
        | none => simp [hcond, hcond'] at hshape
        | some cond' =>
            simp only [hcond, hcond', Option.map_some, Option.some.injEq] at hshape
            simp only [shapes_insertKey, hshape, hstate]
            exact ⟨trivial, hsort⟩

theorem readEntries_shapes {entries entries' : List (String × List String)}
    (hform : List.Forall₂ SameForm entries entries') :
    shapes (readEntries entries).1 = shapes (readEntries entries').1 ∧
      (readEntries entries).2 = (readEntries entries').2 := by
  have hfold : ∀ state state' : List (String × FilterCondition) × List String,
      shapes state.1 = shapes state'.1 → state.2 = state'.2 →
      shapes (entries.foldl readEntry state).1 = shapes (entries'.foldl readEntry state').1 ∧
        (entries.foldl readEntry state).2 = (entries'.foldl readEntry state').2 := by
    induction hform with
    | nil => exact fun _ _ hstate hsort => ⟨hstate, hsort⟩
    | cons hentry _ ih =>
        intro state state' hstate hsort
        obtain ⟨hnext, hnextSort⟩ := readEntry_shapes hstate hsort hentry
        exact ih _ _ hnext hnextSort
  exact hfold _ _ rfl rfl

/-! ## Clauses and statements -/

/-- The order by columns, on shapes. -/
theorem map_shape_sortedConditions (conditions : List FilterCondition) :
    (sortedConditions conditions).map FilterCondition.shape =
      (conditions.map FilterCondition.shape).insertionSort fun a b => a.1 ≤ b.1 :=
  List.map_insertionSort _ _ _ _ fun _ _ _ _ => Iff.rfl

theorem conditions_shapes {entries entries' : List (String × List String)}
    (hform : List.Forall₂ SameForm entries entries') (order : List String) :
    (fromQueryParams entries order).conditions.map FilterCondition.shape =
      (fromQueryParams entries' order).conditions.map FilterCondition.shape := by
  simp only [fromQueryParams, List.map_filterMap, ← lookup_shapes,
    (readEntries_shapes hform).1]

/-- The clauses of a validated filter, by the shapes of its conditions. -/
theorem validate_clauses {parseF64 : String → Option F64} {schema : FilterSchema}
    {filter : Filter} {validated : ValidatedFilter}
    (hvalidate : filter.validate parseF64 schema = .ok validated) :
    validated.clauses =
      (((filter.conditions.map FilterCondition.shape).insertionSort fun a b => a.1 ≤ b.1).filter
        fun shape => (schema.fieldType shape.1).isSome).map fun shape =>
          clauseText shape.1 shape.2.1 shape.2.2 := by
  obtain ⟨pairs, hpairs, -, rfl⟩ := validate_eq_ok.mp hvalidate
  rw [← map_shape_sortedConditions, List.filter_map, List.map_map]
  have hclauses : pairs.map (fun pair => pair.1.clause) =
      (pairs.map Prod.fst).map FilterCondition.clause := by
    rw [List.map_map]
    rfl
  rw [hclauses, hpairs]
  rfl

/-- Requests of the same form have the same clauses and the same sort. -/
theorem validate_sameForm {parseF64 : String → Option F64} {schema : FilterSchema}
    {entries entries' : List (String × List String)}
    (hform : List.Forall₂ SameForm entries entries') {order : List String}
    {validated validated' : ValidatedFilter}
    (hvalidate : (fromQueryParams entries order).validate parseF64 schema = .ok validated)
    (hvalidate' : (fromQueryParams entries' order).validate parseF64 schema = .ok validated') :
    validated.clauses = validated'.clauses ∧ validated.sortClause = validated'.sortClause := by
  constructor
  · rw [validate_clauses hvalidate, validate_clauses hvalidate', conditions_shapes hform]
  · obtain ⟨pairs, -, -, rfl⟩ := validate_eq_ok.mp hvalidate
    obtain ⟨pairs', -, -, rfl⟩ := validate_eq_ok.mp hvalidate'
    have hsort : (fromQueryParams entries order).sort = (fromQueryParams entries' order).sort :=
      (readEntries_shapes hform).2
    rw [hsort]

/-- The text of the cursor condition depends on the clauses and on whether there
is a cursor. -/
theorem cursorCondition_fst {builder : SelectBuilder} {validated validated' : ValidatedFilter}
    (hwhere : (builder.withFilter validated).buildWhere.1 =
      (builder.withFilter validated').buildWhere.1) {after after' : Option String}
    (hafter : after.isSome = after'.isSome) :
    ((builder.withFilter validated).cursorCondition after).1 =
      ((builder.withFilter validated').cursorCondition after').1 := by
  cases after with
  | none =>
      cases after' with
      | none => rfl
      | some _ => exact absurd hafter Bool.false_ne_true
  | some _ =>
      cases after' with
      | none => exact absurd hafter.symm Bool.false_ne_true
      | some _ =>
          simp only [SelectBuilder.cursorCondition, hwhere]
          rfl

/-- The texts of the statements depend on the clauses and the sort of the filter
and on whether there is a cursor. -/
theorem statements_sql {builder : SelectBuilder} {validated validated' : ValidatedFilter}
    (hclauses : validated.clauses = validated'.clauses)
    (hsort : validated.sortClause = validated'.sortClause) {terminal terminal' : Terminal}
    (hterminal : SameTerminal terminal terminal') :
    ((builder.withFilter validated).statements terminal).map Statement.sql =
      ((builder.withFilter validated').statements terminal').map Statement.sql := by
  have hwhere : (builder.withFilter validated).buildWhere.1 =
      (builder.withFilter validated').buildWhere.1 := by
    simp only [SelectBuilder.withFilter, SelectBuilder.buildWhere, hclauses]
    split <;> rfl
  have horder : (builder.withFilter validated).orderSql =
      (builder.withFilter validated').orderSql := by
    simp [SelectBuilder.withFilter, SelectBuilder.orderSql, SelectBuilder.resolveOrder, hsort]
  have hone : (builder.withFilter validated).oneStatement.sql =
      (builder.withFilter validated').oneStatement.sql :=
    congrArg (fun whereSql => builder.baseSql ++ whereSql ++ " LIMIT 1") hwhere
  -- the parameters differ, and no text reads them
  cases terminal with
  | fetchAll =>
      cases terminal' with
      | fetchAll =>
          have hall : (builder.withFilter validated).allStatement.sql =
              (builder.withFilter validated').allStatement.sql :=
            congrArg₂ (fun whereSql orderSql => builder.baseSql ++ whereSql ++ orderSql) hwhere
              horder
          simp only [SelectBuilder.statements, List.map_cons, List.map_nil, hall]
      | _ => exact hterminal.elim
  | fetchOne =>
      cases terminal' with
      | fetchOne => simp only [SelectBuilder.statements, List.map_cons, List.map_nil, hone]
      | _ => exact hterminal.elim
  | fetchOptional =>
      cases terminal' with
      | fetchOptional => simp only [SelectBuilder.statements, List.map_cons, List.map_nil, hone]
      | _ => exact hterminal.elim
  | page req =>
      cases terminal' with
      | page req' =>
          have hcount : (builder.withFilter validated).countStatement.sql =
              (builder.withFilter validated').countStatement.sql :=
            congrArg (fun whereSql =>
              "SELECT COUNT(*) FROM (" ++ builder.baseSql ++ whereSql ++ ") AS _count") hwhere
          have hdata : ((builder.withFilter validated).dataStatement req).sql =
              ((builder.withFilter validated').dataStatement req').sql :=
            congrArg₂ (fun whereSql orderSql =>
              builder.baseSql ++ whereSql ++ orderSql ++ " LIMIT ? OFFSET ?") hwhere horder
          simp only [SelectBuilder.statements, List.map_cons, List.map_nil, hcount, hdata]
      | _ => exact hterminal.elim
  | cursor req =>
      cases terminal' with
      | cursor req' =>
          have hcursor := cursorCondition_fst hwhere hterminal
          have hstatement : ((builder.withFilter validated).cursorStatement req).sql =
              ((builder.withFilter validated').cursorStatement req').sql :=
            congrArg₂ (fun whereSql condition => builder.baseSql ++ whereSql ++ condition ++
              " ORDER BY " ++ quoted builder.cursorColumn ++ " " ++ builder.opDir.2 ++ " LIMIT ?")
              hwhere hcursor
          simp only [SelectBuilder.statements, List.map_cons, List.map_nil, hstatement]
      | _ => exact hterminal.elim

/-! ## The statements of a request -/

/-- The statement is made of pieces that each bring the parameters of their
placeholders: when the texts set by the builder are plain, there are up to the end
of any piece as many placeholders as parameters.  Columns are named by the schema
or the builder. -/
def Aligned (parseF64 : String → Option F64) (schema : FilterSchema) (filter : Filter)
    (builder : SelectBuilder) (terminal : Terminal) (statement : Statement) : Prop :=
  ∃ pieces, statement.sql = textOf builder pieces ∧ statement.params = paramsOf pieces ∧
    (builder.Plain → count statement.sql = statement.params.length ∧
      ∀ n, count (textOf builder (pieces.take n)) = (paramsOf (pieces.take n)).length) ∧
    ∀ piece ∈ pieces, piece.Sound parseF64 schema filter.conditions terminal ∧
      ∀ column ∈ piece.columns builder, (schema.fieldType column).isSome ∨
        schema.isSortField column = true ∨ column = builder.cursorColumn

/-- **The placeholders of every statement are aligned with its parameters, and
requests that differ in the values of their conditions execute the same texts.** -/
theorem select_injection_free (parseF64 : String → Option F64) {schema : FilterSchema}
    (hschema : schema.Quotable) (builder : SelectBuilder) :
    (∀ entries order, builder.Validated parseF64 schema (fromQueryParams entries order) →
      ∀ terminal, ∀ statement ∈ builder.statements terminal,
        Aligned parseF64 schema (fromQueryParams entries order) builder terminal statement) ∧
    ∀ entries entries' order validated validated', List.Forall₂ SameForm entries entries' →
      (fromQueryParams entries order).validate parseF64 schema = .ok validated →
      (fromQueryParams entries' order).validate parseF64 schema = .ok validated' →
      ∀ terminal terminal', SameTerminal terminal terminal' →
        ((builder.withFilter validated).statements terminal).map Statement.sql =
          ((builder.withFilter validated').statements terminal').map Statement.sql := by
  constructor
  · intro entries order hfilter terminal statement hstatement
    obtain ⟨pieces, hsql, hparams, hsound⟩ := madeOf_statement hfilter hstatement
    refine ⟨pieces, hsql, hparams, ?_, ?_⟩
    · intro hbuilder
      rw [hsql, hparams]
      refine ⟨(closed_textOf hschema hbuilder hsound).count_eq, fun n => ?_⟩
      exact (closed_textOf hschema hbuilder
        fun piece hpiece => hsound piece (List.mem_of_mem_take hpiece)).count_eq
    · exact fun piece hpiece => ⟨hsound piece hpiece, fun column => (hsound piece hpiece).column⟩
  · intro entries entries' order validated validated' hform hvalidate hvalidate' terminal terminal'
      hterminal
    obtain ⟨hclauses, hsort⟩ := validate_sameForm hform hvalidate hvalidate'
    exact statements_sql hclauses hsort hterminal

/-- Users, filtered by name and age and sorted by name. -/
def usersSchema : FilterSchema :=
  ((FilterSchema.new.field "name" .text).field "age" .int).withSortFields ["name"]

/-- The query for users, with a filter whose value tries to leave its place. -/
def usersSelect : SelectBuilder :=
  (SelectBuilder.new "SELECT id, name FROM users").withFilter
    ⟨["\"age\" >= ?", "\"name\" = ?"], [.integer 30, .text "x\" OR 1=1 --"], some "\"name\" DESC"⟩

/-- What is executed for the page after the user 42. -/
def usersPage : Statement :=
  ⟨"SELECT id, name FROM users WHERE \"age\" >= ? AND \"name\" = ? AND \"id\" < ? " ++
      "ORDER BY \"id\" DESC LIMIT ?",
    [.integer 30, .text "x\" OR 1=1 --", .text "42", .integer 21]⟩

theorem usersSelect_aligned :
    usersSelect.statements (.cursor ⟨some "42", 20⟩) = [usersPage] ∧ usersSelect.Plain ∧
    Aligned (fun _ => none) usersSchema
      (fromQueryParams [("name", ["x\" OR 1=1 --"]), ("age.gte", ["30"]), ("sort", ["-name"])]
        ["name", "age.gte"]) usersSelect (.cursor ⟨some "42", 20⟩) usersPage := by
  have hstatements : usersSelect.statements (.cursor ⟨some "42", 20⟩) = [usersPage] := by
    decide
  refine ⟨hstatements, ⟨by decide, by decide, by decide⟩,
    (select_injection_free (fun _ => none) ?_ usersSelect).1 _ _ ?_ _ _ ?_⟩
  · exact ⟨by decide, by decide⟩
  · rintro validated ⟨⟩
    decide
  · rw [hstatements]
    exact List.mem_singleton_self _

/-- The texts of the builder are put into the statement as they are.  A placeholder
in the order, a base query that ends in a comment and a quote in the cursor column
each leave a statement with another number of placeholders than parameters. -/
theorem builder_texts_misaligned :
    count "SELECT id FROM users" = 0 ∧ count "SELECT id FROM users -- all" = 0 ∧
    (∃ statement, ((SelectBuilder.new "SELECT id FROM users").withOrderBy "?").statements
        .fetchAll = [statement] ∧ count statement.sql = 1 ∧ statement.params = []) ∧
    (∃ validated statement,
      (fromQueryParams [("name", ["x"])] ["name"]).validate (fun _ => none) usersSchema =
        .ok validated ∧
      ((SelectBuilder.new "SELECT id FROM users -- all").withFilter validated).statements
        .fetchAll = [statement] ∧ count statement.sql = 0 ∧ statement.params = [.text "x"]) ∧
    ∃ statement, ((SelectBuilder.new "SELECT id FROM users").withCursorColumn "a\"b").statements
        (.cursor ⟨none, 20⟩) = [statement] ∧ count statement.sql = 0 ∧
      statement.params = [.integer 21] := by
  refine ⟨by decide, by decide, ⟨_, rfl, by decide, rfl⟩,
    ⟨⟨["\"name\" = ?"], [.text "x"], none⟩, _, by decide, rfl, by decide, rfl⟩,
    ⟨_, rfl, by decide, rfl⟩⟩

end Modo.Db
