import Mathlib.Data.List.Sort
import Modo.Db.Value
import Modo.Lib.Utf8

/-!
# Filters from query strings

`Filter::from_query_params` reads one condition from each key of a query string,
`field` or `field.op`, and `Filter::validate` turns the conditions on the columns
of a schema into clauses with placeholders and the parameters bound to them.

Two hash maps are iterated on the way: the parameters, and the conditions by key.
The order of the first is the order of the entries, the order of the second is a
list of keys.  `str::parse::<f64>` is a parameter.
-/

namespace Modo.Db

/-! ## Schema -/

inductive FieldType where
  | text
  | int
  | float
  | date
  | bool
  deriving DecidableEq

/-- The columns to filter and to sort by. -/
structure FilterSchema where
  fields : List (String × FieldType)
  sortFields : List String

namespace FilterSchema

def new : FilterSchema := ⟨[], []⟩

/-- The entry put in front replaces one for the same name. -/
def field (schema : FilterSchema) (name : String) (typ : FieldType) : FilterSchema :=
  { schema with fields := (name, typ) :: schema.fields }

def withSortFields (schema : FilterSchema) (fields : List String) : FilterSchema :=
  { schema with sortFields := fields }

def fieldType (schema : FilterSchema) (name : String) : Option FieldType :=
  schema.fields.lookup name

def isSortField (schema : FilterSchema) (name : String) : Bool :=
  schema.sortFields.contains name

end FilterSchema

/-! ## Reading the query string -/

inductive Operator where
  | eq
  | ne
  | gt
  | gte
  | lt
  | lte
  | like
  | isNull (isNull : Bool)
  /-- `In`. -/
  | oneOf
  deriving DecidableEq

structure FilterCondition where
  column : String
  operator : Operator
  values : List String
  deriving DecidableEq

structure Filter where
  conditions : List FilterCondition
  sort : List String

/-- The text before and after the last separator. -/
def rsplitOnce (separator : Char) (text : List Char) : Option (List Char × List Char) :=
  (Utf8.splitOnce separator text.reverse).map fun (after, before) =>
    (before.reverse, after.reverse)

/-- The operator named by the suffix of a key. -/
def parseOperator (values : List String) : String → Option Operator
  | "ne" => some .ne
  | "gt" => some .gt
  | "gte" => some .gte
  | "lt" => some .lt
  | "lte" => some .lte
  | "like" => some .like
  | "null" => some (.isNull ((values.head?.map fun value => value == "true").getD true))
  | _ => none

/-- The condition of a key, `none` for an unknown operator. -/
def parseCondition (key : String) (values : List String) : Option FilterCondition :=
  match rsplitOnce '.' key.toList with
  | some (column, op) =>
      (parseOperator values (String.ofList op)).map fun operator =>
        { column := String.ofList column, operator, values }
  | none =>
      some { column := key, operator := if 1 < values.length then .oneOf else .eq, values }

/-- The keys of pagination. -/
def isPaginationKey (key : String) : Bool :=
  key == "page" || key == "per_page" || key == "after"

/-- `HashMap::insert`. -/
def insertKey (key : String) (condition : FilterCondition)
    (conditions : List (String × FilterCondition)) : List (String × FilterCondition) :=
  (key, condition) :: conditions.filter fun entry => entry.1 != key

/-- One entry of the loop of `from_query_params`. -/
def readEntry (state : List (String × FilterCondition) × List String)
    (entry : String × List String) : List (String × FilterCondition) × List String :=
  if entry.1 = "sort" then (state.1, entry.2)
  else if isPaginationKey entry.1 then state
  else
    match parseCondition entry.1 entry.2 with
    | none => state
    | some condition => (insertKey entry.1 condition state.1, state.2)

/-- The conditions by key and the sort fields. -/
def readEntries (entries : List (String × List String)) :
    List (String × FilterCondition) × List String :=
  entries.foldl readEntry ([], [])

/-- `Filter::from_query_params`, when the parameters are iterated as `entries` and
the conditions in the order of the keys `order`. -/
def fromQueryParams (entries : List (String × List String)) (order : List String) : Filter where
  conditions := order.filterMap fun key => (readEntries entries).1.lookup key
  sort := (readEntries entries).2

/-! ## Validation -/

/-- `validate`'s clauses, parameters and `ORDER BY` terms. -/
structure ValidatedFilter where
  clauses : List String
  params : List Value
  sortClause : Option String
  deriving DecidableEq

/-- `[String]::join`. -/
def joinWith (separator : String) : List String → String
  | [] => ""
  | [text] => text
  | text :: rest => text ++ separator ++ joinWith separator rest

/-- A column name in double quotes. -/
def quoted (column : String) : String := "\"" ++ column ++ "\""

/-- The SQL of an operator with one placeholder. -/
def Operator.sqlOp : Operator → String
  | eq => "="
  | ne => "!="
  | gt => ">"
  | gte => ">="
  | lt => "<"
  | lte => "<="
  | like => "LIKE"
  | isNull _ | oneOf => ""

/-- The clause of a condition on a column, with `n` values. -/
def clauseText (column : String) (operator : Operator) (n : ℕ) : String :=
  match operator with
  | .isNull true => quoted column ++ " IS NULL"
  | .isNull false => quoted column ++ " IS NOT NULL"
  | .oneOf => quoted column ++ " IN (" ++ joinWith ", " (List.replicate n "?") ++ ")"
  | op => quoted column ++ " " ++ op.sqlOp ++ " ?"

def FilterCondition.clause (cond : FilterCondition) : String :=
  clauseText cond.column cond.operator cond.values.length

section Validate

variable (parseF64 : String → Option F64)

def convertValue (val : String) : FieldType → Except Error Value
  | .text | .date => .ok (.text val)
  | .int =>
      match parseI64 val with
      | some n => .ok (.integer n)
      | none => .error (.badRequest s!"invalid integer value: '{val}'")
  | .float =>
      match parseF64 val with
      | some x => .ok (.real x)
      | none => .error (.badRequest s!"invalid float value: '{val}'")
  | .bool =>
      if val = "true" ∨ val = "1" ∨ val = "yes" then .ok (.integer 1)
      else if val = "false" ∨ val = "0" ∨ val = "no" then .ok (.integer 0)
      else .error (.badRequest
        s!"invalid boolean value: '{val}' (expected true/false, 1/0, yes/no)")

/-- The values of an `IN`, in order. -/
def convertValues (fieldType : FieldType) : List String → Except Error (List Value)
  | [] => .ok []
  | val :: rest => do
      let value ← convertValue parseF64 val fieldType
      let values ← convertValues fieldType rest
      .ok (value :: values)

/-- The parameters of a condition: none for a null check, all values for an `IN`,
else the first value. -/
def FilterCondition.params (cond : FilterCondition) (fieldType : FieldType) :
    Except Error (List Value) :=
  match cond.operator with
  | .isNull _ => .ok []
  | .oneOf => convertValues parseF64 fieldType cond.values
  | _ =>
      match cond.values.head? with
      | none => .error (.badRequest s!"missing value for filter '{cond.column}'")
      | some val => convertValues parseF64 fieldType [val]

/-- The loop over the conditions; a column outside the schema is ignored. -/
def pushConditions (schema : FilterSchema) :
    List String → List Value → List FilterCondition → Except Error (List String × List Value)
  | clauses, params, [] => .ok (clauses, params)
  | clauses, params, cond :: rest =>
      match schema.fieldType cond.column with
      | none => pushConditions schema clauses params rest
      | some fieldType => do
          let values ← cond.params parseF64 fieldType
          pushConditions schema (clauses ++ [cond.clause]) (params ++ values) rest

/-- A sort field and whether it is descending. -/
def sortField (s : String) : String × Bool :=
  match s.toList with
  | '-' :: stripped => (String.ofList stripped, true)
  | _ => (s, false)

/-- A term of the `ORDER BY`. -/
def sortPart (field : String) (desc : Bool) : String :=
  quoted field ++ " " ++ if desc then "DESC" else "ASC"

/-- The sort fields of the schema, each at its first occurrence. -/
def sortTerms (schema : FilterSchema) : List String → List String → List (String × Bool)
  | _, [] => []
  | seen, s :: rest =>
      let (field, desc) := sortField s
      if schema.isSortField field && !seen.contains field then
        (field, desc) :: sortTerms schema (field :: seen) rest
      else sortTerms schema seen rest

def sortClause (schema : FilterSchema) (sort : List String) : Option String :=
  let parts := (sortTerms schema [] sort).map fun (field, desc) => sortPart field desc
  if parts.isEmpty then none else some (joinWith ", " parts)

/-- The conditions in the order of their columns; the sort is stable. -/
def sortedConditions (conditions : List FilterCondition) : List FilterCondition :=
  conditions.insertionSort fun a b => a.column ≤ b.column

/-- `Filter::validate`. -/
def Filter.validate (filter : Filter) (schema : FilterSchema) : Except Error ValidatedFilter := do
  let (clauses, params) ← pushConditions parseF64 schema [] [] (sortedConditions filter.conditions)
  .ok { clauses, params, sortClause := Db.sortClause schema filter.sort }

end Validate

/-! ## What validation returns -/

section Spec

variable {parseF64 : String → Option F64} {schema : FilterSchema}

/-- The column is one to filter by. -/
def FilterSchema.knows (schema : FilterSchema) (cond : FilterCondition) : Bool :=
  (schema.fieldType cond.column).isSome

/-- The parameters of a condition on a column of the schema. -/
def Converts (parseF64 : String → Option F64) (schema : FilterSchema)
    (pair : FilterCondition × List Value) : Prop :=
  ∃ fieldType, schema.fieldType pair.1.column = some fieldType ∧
    pair.1.params parseF64 fieldType = .ok pair.2

/-- The number of placeholders in the clause of a condition. -/
def Operator.arity (n : ℕ) : Operator → ℕ
  | isNull _ => 0
  | oneOf => n
  | eq | ne | gt | gte | lt | lte | like => 1

theorem convertValues_cons_eq_ok {fieldType : FieldType} {val : String} {rest : List String}
    {params : List Value} :
    convertValues parseF64 fieldType (val :: rest) = .ok params ↔
      ∃ param later, convertValue parseF64 val fieldType = .ok param ∧
        convertValues parseF64 fieldType rest = .ok later ∧ params = param :: later := by
  rw [convertValues]
  cases hval : convertValue parseF64 val fieldType with
  | error error => simp [bind, Except.bind]
  | ok param =>
      cases hrest : convertValues parseF64 fieldType rest with
      | error error => simp [bind, Except.bind]
      | ok later => simp [bind, Except.bind, eq_comm]

theorem length_convertValues {fieldType : FieldType}
    {vals : List String} {values : List Value}
    (hvalues : convertValues parseF64 fieldType vals = .ok values) :
    values.length = vals.length := by
  induction vals generalizing values with
  | nil =>
      rw [convertValues, Except.ok.injEq] at hvalues
      rw [← hvalues, List.length_nil, List.length_nil]
  | cons val rest ih =>
      obtain ⟨value, later, -, hrest, rfl⟩ := convertValues_cons_eq_ok.mp hvalues
      rw [List.length_cons, List.length_cons, ih hrest]

/-- A condition has as many parameters as its clause has placeholders. -/
theorem length_params {cond : FilterCondition}
    {fieldType : FieldType} {values : List Value}
    (hvalues : cond.params parseF64 fieldType = .ok values) :
    values.length = cond.operator.arity cond.values.length := by
  unfold FilterCondition.params at hvalues
  cases hoperator : cond.operator with
  | isNull isNull =>
      rw [hoperator] at hvalues
      simp only [Except.ok.injEq] at hvalues
      rw [← hvalues]
      rfl
  | oneOf =>
      rw [hoperator] at hvalues
      exact length_convertValues hvalues
  | _ =>
      cases hhead : cond.values.head? with
      | none => simp [hoperator, hhead] at hvalues
      | some val =>
          simp only [hoperator, hhead] at hvalues
          exact length_convertValues hvalues

/-- The names of the schema need no escape in double quotes. -/
def FilterSchema.Quotable (schema : FilterSchema) : Prop :=
  (∀ entry ∈ schema.fields, '"' ∉ entry.1.toList) ∧ ∀ field ∈ schema.sortFields, '"' ∉ field.toList

theorem FilterSchema.Quotable.field (hschema : schema.Quotable) {column : String}
    {fieldType : FieldType} (hfield : schema.fieldType column = some fieldType) :
    '"' ∉ column.toList := by
  obtain ⟨before, after, hfields, -⟩ := List.lookup_eq_some_iff.mp hfield
  exact hschema.1 (column, fieldType) (by simp [hfields])

theorem FilterSchema.Quotable.sortField (hschema : schema.Quotable) {field : String}
    (hfield : schema.isSortField field = true) : '"' ∉ field.toList :=
  hschema.2 field (by simpa [FilterSchema.isSortField] using hfield)

/-- The loop ends when all conditions on known columns have parameters, and has
then pushed the clause and the parameters of each. -/
theorem pushConditions_eq_ok {clauses : List String} {params : List Value}
    {conditions : List FilterCondition} {out : List String × List Value} :
    pushConditions parseF64 schema clauses params conditions = .ok out ↔
      ∃ pairs : List (FilterCondition × List Value),
        pairs.map Prod.fst = conditions.filter schema.knows ∧
        (∀ pair ∈ pairs, Converts parseF64 schema pair) ∧
        out = (clauses ++ pairs.map (fun pair => pair.1.clause),
          params ++ pairs.flatMap Prod.snd) := by
  induction conditions generalizing clauses params with
  | nil =>
      simp only [pushConditions, Except.ok.injEq, List.filter_nil, List.map_eq_nil_iff]
      constructor
      · rintro rfl
        exact ⟨[], by simp⟩
      · rintro ⟨pairs, rfl, -, rfl⟩
        simp
  | cons cond rest ih =>
      cases hfield : schema.fieldType cond.column with
      | none =>
          have hknown : ¬ schema.knows cond = true := by simp [FilterSchema.knows, hfield]
          rw [List.filter_cons_of_neg hknown]
          simp only [pushConditions, hfield]
          exact ih
      | some fieldType =>
          have hknown : schema.knows cond = true := by simp [FilterSchema.knows, hfield]
          rw [List.filter_cons_of_pos hknown]
          simp only [pushConditions, hfield]
          cases hparams : cond.params parseF64 fieldType with
          | error error =>
              -- the loop stops here, and no parameters fit the condition
              refine iff_of_false (by simp [bind, Except.bind]) ?_
              rintro ⟨pairs, hpairs, hconverts, -⟩
              obtain ⟨pair, later, rfl, rfl, -⟩ := List.map_eq_cons_iff.mp hpairs
              obtain ⟨found, hfound, hvalues⟩ := hconverts pair List.mem_cons_self
              rw [hfield, Option.some.injEq] at hfound
              rw [← hfound, hparams] at hvalues
              exact absurd hvalues (by simp)
          | ok values =>
              simp only [bind, Except.bind]
              rw [ih]
              constructor
              · rintro ⟨pairs, hpairs, hconverts, rfl⟩
                refine ⟨(cond, values) :: pairs, by simp [hpairs], ?_, by simp⟩
                rintro pair hpair
                rcases List.mem_cons.mp hpair with rfl | hpair
                · exact ⟨fieldType, hfield, hparams⟩
                · exact hconverts pair hpair
              · rintro ⟨pairs, hpairs, hconverts, rfl⟩
                obtain ⟨⟨first, made⟩, later, rfl, hfirst, hlater⟩ := List.map_eq_cons_iff.mp hpairs
                obtain ⟨found, hfound, hvalues⟩ := hconverts _ List.mem_cons_self
                obtain rfl : first = cond := hfirst
                rw [hfield, Option.some.injEq] at hfound
                rw [← hfound, hparams, Except.ok.injEq] at hvalues
                have hrest := fun pair hpair => hconverts pair (List.mem_cons_of_mem _ hpair)
                refine ⟨later, hlater, hrest, ?_⟩
                simp [hvalues]

/-- **A validated filter has a clause and its parameters for each condition on a
known column.** -/
theorem validate_eq_ok {filter : Filter} {validated : ValidatedFilter} :
    filter.validate parseF64 schema = .ok validated ↔
      ∃ pairs : List (FilterCondition × List Value),
        pairs.map Prod.fst = (sortedConditions filter.conditions).filter schema.knows ∧
        (∀ pair ∈ pairs, Converts parseF64 schema pair) ∧
        validated = ⟨pairs.map (fun pair => pair.1.clause), pairs.flatMap Prod.snd,
          sortClause schema filter.sort⟩ := by
  unfold Filter.validate
  cases hpush : pushConditions parseF64 schema [] [] (sortedConditions filter.conditions) with
  | error error =>
      refine iff_of_false (by simp [bind, Except.bind]) ?_
      rintro ⟨pairs, hpairs, hconverts, -⟩
      rw [pushConditions_eq_ok.mpr ⟨pairs, hpairs, hconverts, rfl⟩] at hpush
      exact absurd hpush (by simp)
  | ok out =>
      obtain ⟨pairs, hpairs, hconverts, rfl⟩ := pushConditions_eq_ok.mp hpush
      simp only [bind, Except.bind, Except.ok.injEq, List.nil_append]
      constructor
      · rintro rfl
        exact ⟨pairs, hpairs, hconverts, rfl⟩
      · rintro ⟨others, hothers, hconverts', rfl⟩
        rw [pushConditions_eq_ok.mpr ⟨others, hothers, hconverts', rfl⟩, Except.ok.injEq,
          Prod.mk.injEq, List.nil_append, List.nil_append, List.nil_append,
          List.nil_append] at hpush
        rw [hpush.1, hpush.2]

theorem mem_known {conditions : List FilterCondition} {cond : FilterCondition} :
    cond ∈ (sortedConditions conditions).filter schema.knows ↔
      cond ∈ conditions ∧ schema.knows cond = true := by
  rw [List.mem_filter, sortedConditions, List.mem_insertionSort]

theorem Converts.knows {pair : FilterCondition × List Value}
    (hconverts : Converts parseF64 schema pair) : schema.knows pair.1 = true := by
  obtain ⟨fieldType, hfield, -⟩ := hconverts
  rw [FilterSchema.knows, hfield, Option.isSome_some]

theorem Converts.unique {cond : FilterCondition} {params params' : List Value}
    (hparams : Converts parseF64 schema (cond, params))
    (hparams' : Converts parseF64 schema (cond, params')) : params = params' := by
  obtain ⟨fieldType, hfield, hvalues⟩ := hparams
  obtain ⟨fieldType', hfield', hvalues'⟩ := hparams'
  obtain rfl : fieldType = fieldType' := Option.some.inj (hfield.symm.trans hfield')
  exact Except.ok.inj (hvalues.symm.trans hvalues')

/-- Conditions that all have parameters can be paired with them. -/
theorem exists_pairs {conditions : List FilterCondition}
    (hconditions : ∀ cond ∈ conditions, ∃ params, Converts parseF64 schema (cond, params)) :
    ∃ pairs : List (FilterCondition × List Value), pairs.map Prod.fst = conditions ∧
      ∀ pair ∈ pairs, Converts parseF64 schema pair := by
  induction conditions with
  | nil => exact ⟨[], rfl, by simp⟩
  | cons cond rest ih =>
      obtain ⟨params, hparams⟩ := hconditions cond List.mem_cons_self
      obtain ⟨pairs, hpairs, hconverts⟩ :=
        ih fun other hother => hconditions other (List.mem_cons_of_mem _ hother)
      exact ⟨(cond, params) :: pairs, by simp [hpairs],
        List.forall_mem_cons.mpr ⟨hparams, hconverts⟩⟩

/-- A filter is valid when every condition on a known column has parameters. -/
theorem exists_validate_iff {filter : Filter} :
    (∃ validated, filter.validate parseF64 schema = .ok validated) ↔
      ∀ cond ∈ filter.conditions, schema.knows cond = true →
        ∃ params, Converts parseF64 schema (cond, params) := by
  constructor
  · rintro ⟨validated, hvalidate⟩ cond hcond hknown
    obtain ⟨pairs, hpairs, hconverts, -⟩ := validate_eq_ok.mp hvalidate
    have hmem : cond ∈ pairs.map Prod.fst := hpairs ▸ mem_known.mpr ⟨hcond, hknown⟩
    obtain ⟨pair, hpair, rfl⟩ := List.mem_map.mp hmem
    exact ⟨pair.2, hconverts pair hpair⟩
  · intro hall
    obtain ⟨pairs, hpairs, hconverts⟩ := exists_pairs fun cond hcond =>
      hall cond (mem_known.mp hcond).1 (mem_known.mp hcond).2
    exact ⟨_, validate_eq_ok.mpr ⟨pairs, hpairs, hconverts, rfl⟩⟩

end Spec

end Modo.Db
