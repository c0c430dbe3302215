import Mathlib.Data.List.Induction
import Modo.Db.Where
import Modo.Lib.HashMap

/-!
# The conditions that a query string asks for

The documentation lists the patterns of keys, `field` and `field.op`, with the
condition each stands for.  `Asks` and `Pattern.holds` state this list, and
`filter_semantics` says that a validated filter selects the rows for which all
keys on columns of the schema hold, in whatever order the two hash maps are
iterated.

Four keys are taken before they are read as conditions: `sort`, `page`,
`per_page` and `after`.  A key with a dot is read as a field with an operator, so
that a field whose name has a dot cannot be asked for equality.
-/

namespace Modo.Db

/-! ## The documented conditions -/

/-- The patterns of keys. -/
inductive Pattern where
  | plain
  | ne
  | gt
  | gte
  | lt
  | lte
  | like
  | null
  deriving DecidableEq

namespace Pattern

/-- What follows the field in a key. -/
def suffix : Pattern → String
  | plain => ""
  | ne => ".ne"
  | gt => ".gt"
  | gte => ".gte"
  | lt => ".lt"
  | lte => ".lte"
  | like => ".like"
  | null => ".null"

/-- The first value, converted to the type of the field, satisfies `p`. -/
def first (parseF64 : String → Option F64) (fieldType : FieldType) (values : List String)
    (p : Value → Prop) : Prop :=
  ∃ val param, values.head? = some val ∧ convertValue parseF64 val fieldType = .ok param ∧ p param

/-- The condition that the pattern stands for, on the value stored in the field:
equality with one of the values, a comparison with the first value, `LIKE`, or a
null check, which the value `true` asks to succeed. -/
def holds (parseF64 : String → Option F64) (sqlite : Sqlite) (affinity : Affinity)
    (fieldType : FieldType) (stored : Value) (values : List String) : Pattern → Prop
  | plain => ∃ val ∈ values, ∃ param, convertValue parseF64 val fieldType = .ok param ∧
      Comparison.eq.eval sqlite affinity stored param = some true
  | ne => first parseF64 fieldType values (Comparison.ne.eval sqlite affinity stored · = some true)
  | gt => first parseF64 fieldType values (Comparison.gt.eval sqlite affinity stored · = some true)
  | gte => first parseF64 fieldType values (Comparison.ge.eval sqlite affinity stored · = some true)
  | lt => first parseF64 fieldType values (Comparison.lt.eval sqlite affinity stored · = some true)
  | lte => first parseF64 fieldType values (Comparison.le.eval sqlite affinity stored · = some true)
  | like => first parseF64 fieldType values fun param =>
      stored.isNull = false ∧ param.isNull = false ∧ sqlite.like stored param = true
  | null => stored.isNull = decide (values.head?.getD "true" = "true")

/-- The operator of a condition with these values. -/
def operator (values : List String) : Pattern → Operator
  | plain => if 1 < values.length then .oneOf else .eq
  | ne => .ne
  | gt => .gt
  | gte => .gte
  | lt => .lt
  | lte => .lte
  | like => .like
  | null => .isNull ((values.head?.map fun value => value == "true").getD true)

end Pattern

/-- The key asks for the pattern on the column. -/
def Asks (key column : String) (pattern : Pattern) : Prop :=
  key = column ++ pattern.suffix ∧ (pattern = .plain → '.' ∉ column.toList)

/-- The keys that are not read as conditions. -/
def isReserved (key : String) : Bool := key == "sort" || isPaginationKey key

/-! ## Keys -/

theorem rsplitOnce_eq_some {text before after : List Char} :
    rsplitOnce '.' text = some (before, after) ↔
      text = before ++ '.' :: after ∧ '.' ∉ after := by
  rw [rsplitOnce, Option.map_eq_some_iff]
  constructor
  · rintro ⟨⟨first, second⟩, hsplit, heq⟩
    simp only [Prod.mk.injEq] at heq
    obtain ⟨rfl, rfl⟩ := heq
    obtain ⟨htext, hfirst⟩ := Utf8.splitOnce_eq_some.mp hsplit
    refine ⟨?_, by simpa using hfirst⟩
    rw [← List.reverse_reverse text, htext]
    simp
  · rintro ⟨rfl, hafter⟩
    refine ⟨(after.reverse, before.reverse), Utf8.splitOnce_eq_some.mpr ⟨?_, ?_⟩, by simp⟩
    · simp
    · simpa using hafter

theorem rsplitOnce_eq_none {text : List Char} : rsplitOnce '.' text = none ↔ '.' ∉ text := by
  constructor
  · intro hnone hmem
    obtain ⟨after, before, hreverse, hafter⟩ :=
      List.eq_append_cons_of_mem (List.mem_reverse.mpr hmem)
    rw [rsplitOnce, Utf8.splitOnce_eq_some.mpr ⟨hreverse, hafter⟩] at hnone
    exact absurd hnone (by simp)
  · intro hmem
    cases hsplit : rsplitOnce '.' text with
    | none => rfl
    | some parts =>
        obtain ⟨htext, -⟩ := rsplitOnce_eq_some.mp hsplit
        exact absurd (htext ▸ by simp) hmem

/-- The name of an operator in a key. -/
def Pattern.word : Pattern → String
  | plain => ""
  | ne => "ne"
  | gt => "gt"
  | gte => "gte"
  | lt => "lt"
  | lte => "lte"
  | like => "like"
  | null => "null"

theorem Pattern.toList_suffix {pattern : Pattern} (hpattern : pattern ≠ .plain) :
    pattern.suffix.toList = '.' :: pattern.word.toList ∧ '.' ∉ pattern.word.toList := by
  cases pattern with
  | plain => exact absurd rfl hpattern
  | _ => decide

/-- The words of the operators. -/
theorem parseOperator_eq_some {values : List String} {op : String} {operator : Operator} :
    parseOperator values op = some operator ↔
      ∃ pattern : Pattern, pattern ≠ .plain ∧ op = pattern.word ∧
        operator = pattern.operator values := by
  constructor
  · intro hparse
    unfold parseOperator at hparse
    split at hparse
    · exact ⟨.ne, by decide, rfl, (Option.some.inj hparse).symm⟩
    · exact ⟨.gt, by decide, rfl, (Option.some.inj hparse).symm⟩
    · exact ⟨.gte, by decide, rfl, (Option.some.inj hparse).symm⟩
    · exact ⟨.lt, by decide, rfl, (Option.some.inj hparse).symm⟩
    · exact ⟨.lte, by decide, rfl, (Option.some.inj hparse).symm⟩
    · exact ⟨.like, by decide, rfl, (Option.some.inj hparse).symm⟩
    · exact ⟨.null, by decide, rfl, (Option.some.inj hparse).symm⟩
    · exact absurd hparse (by simp)
  · rintro ⟨pattern, hpattern, rfl, rfl⟩
    cases pattern with
    | plain => exact absurd rfl hpattern
    | _ => rfl

/-- **A key is read as the condition it asks for.** -/
theorem parseCondition_eq_some {key : String} {values : List String} {cond : FilterCondition} :
    parseCondition key values = some cond ↔
      ∃ pattern, Asks key cond.column pattern ∧ cond.operator = pattern.operator values ∧
        cond.values = values := by
  obtain ⟨column, operator, vals⟩ := cond
  unfold parseCondition
  cases hsplit : rsplitOnce '.' key.toList with
  | none =>
      have hdot := rsplitOnce_eq_none.mp hsplit
      simp only [Option.some.injEq, FilterCondition.mk.injEq]
      constructor
      · rintro ⟨rfl, rfl, rfl⟩
        exact ⟨.plain, ⟨by simp [Pattern.suffix], fun _ => hdot⟩, rfl, rfl⟩
      · rintro ⟨pattern, ⟨rfl, -⟩, rfl, rfl⟩
        by_cases hpattern : pattern = .plain
        · subst hpattern
          exact ⟨by simp [Pattern.suffix], rfl, rfl⟩
        -- a suffix brings a dot into the key
        · have hsuffix := (Pattern.toList_suffix hpattern).1
          rw [String.toList_append, hsuffix] at hdot
          exact absurd (by simp) hdot
  | some parts =>
      obtain ⟨before, after⟩ := parts
      obtain ⟨hkey, hafter⟩ := rsplitOnce_eq_some.mp hsplit
      simp only [Option.map_eq_some_iff, FilterCondition.mk.injEq, parseOperator_eq_some]
      constructor
      · rintro ⟨_, ⟨pattern, hpattern, hword, rfl⟩, rfl, rfl, rfl⟩
        refine ⟨pattern, ⟨?_, fun hplain => absurd hplain hpattern⟩, rfl, rfl⟩
        rw [← String.toList_inj, String.toList_append, (Pattern.toList_suffix hpattern).1, ← hword,
          hkey]
        simp
      · rintro ⟨pattern, ⟨rfl, hplain⟩, rfl, rfl⟩
        by_cases hpattern : pattern = .plain
        · subst hpattern
          have hnone := rsplitOnce_eq_none.mpr (hplain rfl)
          simp [Pattern.suffix, hnone] at hsplit
        · obtain ⟨hsuffix, hword⟩ := Pattern.toList_suffix hpattern
          rw [rsplitOnce_eq_some.mpr ⟨by rw [String.toList_append, hsuffix], hword⟩,
            Option.some.injEq, Prod.mk.injEq] at hsplit
          obtain ⟨rfl, rfl⟩ := hsplit
          exact ⟨_, ⟨pattern, hpattern, by simp, rfl⟩, by simp, rfl, rfl⟩

/-! ## Iteration orders -/

/-- The maps are iterated as `entries` and in the order of the keys `order`. -/
def Iterates (params entries : List (String × List String)) (order : List String) : Prop :=
  entries.Perm params ∧ order.Perm ((readEntries entries).1.map Prod.fst)

theorem lookup_insertKey (key : String) (cond : FilterCondition)
    (conditions : List (String × FilterCondition)) (other : String) :
    (insertKey key cond conditions).lookup other =
      if other = key then some cond else conditions.lookup other := by
  rw [insertKey, List.lookup_cons, List.lookup_filter_ne]
  by_cases hkey : other = key
  · simp [hkey]
  · rw [beq_false_of_ne hkey, if_neg hkey, if_neg hkey]

/-- The condition of an entry, `none` for a reserved key or an unknown operator. -/
def entryCondition (entry : String × List String) : Option FilterCondition :=
  if isReserved entry.1 then none else parseCondition entry.1 entry.2

theorem readEntry_fst (state : List (String × FilterCondition) × List String)
    (entry : String × List String) :
    (readEntry state entry).1 =
      match entryCondition entry with
      | none => state.1
      | some cond => insertKey entry.1 cond state.1 := by
  unfold readEntry entryCondition isReserved
  by_cases hsort : entry.1 = "sort"
  · simp [hsort]
  · by_cases hpage : isPaginationKey entry.1 = true
    · simp [hsort, hpage]
    · simp only [hsort, hpage, beq_false_of_ne hsort, if_false, Bool.or_self]
      cases parseCondition entry.1 entry.2 <;> rfl

/-- The conditions by key are those of the entries. -/
theorem lookup_readEntries {entries : List (String × List String)}
    (hkeys : (entries.map Prod.fst).Nodup) {key : String} {cond : FilterCondition} :
    (readEntries entries).1.lookup key = some cond ↔
      ∃ values, (key, values) ∈ entries ∧ entryCondition (key, values) = some cond := by
  induction entries using List.reverseRecOn with
  | nil => simp [readEntries]
  | append_singleton rest entry ih =>
      obtain ⟨name, vals⟩ := entry
      rw [List.map_append, List.map_singleton, List.nodup_append] at hkeys
      have hfresh : ∀ values, (name, values) ∉ rest := by
        intro values hmem
        exact hkeys.2.2 name (List.mem_map_of_mem hmem) name (List.mem_singleton_self name) rfl
      have hunfold : readEntries (rest ++ [(name, vals)]) =
          readEntry (readEntries rest) (name, vals) := by
        simp [readEntries]
      have hsplit : (∃ values, (key, values) ∈ rest ++ [(name, vals)] ∧
          entryCondition (key, values) = some cond) ↔
            (∃ values, (key, values) ∈ rest ∧ entryCondition (key, values) = some cond) ∨
              key = name ∧ entryCondition (name, vals) = some cond := by
        simp only [List.mem_append, List.mem_singleton, Prod.mk.injEq, or_and_right, exists_or]
        refine or_congr_right ⟨?_, ?_⟩
        · rintro ⟨values, ⟨rfl, rfl⟩, hcond⟩
          exact ⟨rfl, hcond⟩
        · rintro ⟨rfl, hcond⟩
          exact ⟨vals, ⟨rfl, rfl⟩, hcond⟩
      rw [hunfold, readEntry_fst, hsplit]
      cases hentry : entryCondition (name, vals) with
      | none => simp [ih hkeys.1]
      | some found =>
          simp only [lookup_insertKey]
          by_cases hkey : key = name
          · simp [hkey, hfresh]
          · simp [hkey, ih hkeys.1]

/-- The conditions of a filter are those of the parameters, in either order. -/
theorem mem_conditions {params entries : List (String × List String)} {order : List String}
    (hkeys : (params.map Prod.fst).Nodup) (hiterates : Iterates params entries order)
    {cond : FilterCondition} :
    cond ∈ (fromQueryParams entries order).conditions ↔
      ∃ entry ∈ params, entryCondition entry = some cond := by
  have hentries : (entries.map Prod.fst).Nodup := (hiterates.1.map Prod.fst).nodup_iff.mpr hkeys
  rw [fromQueryParams, List.mem_filterMap]
  constructor
  · rintro ⟨key, -, hlookup⟩
    obtain ⟨values, hmem, hcond⟩ := (lookup_readEntries hentries).mp hlookup
    exact ⟨(key, values), hiterates.1.subset hmem, hcond⟩
  · rintro ⟨⟨key, values⟩, hmem, hcond⟩
    have hlookup := (lookup_readEntries hentries).mpr ⟨values, hiterates.1.symm.subset hmem, hcond⟩
    refine ⟨key, hiterates.2.symm.subset ?_, hlookup⟩
    obtain ⟨before, after, hread, -⟩ := List.lookup_eq_some_iff.mp hlookup
    rw [hread]
    simp

/-! ## Conditions hold as documented -/

section Holds

variable {parseF64 : String → Option F64} {sqlite : Sqlite} {columns : Columns}
  {row : String → Value} {schema : FilterSchema} {fieldType : FieldType}

/-- Some parameter satisfies `p` when some value, converted, does. -/
theorem exists_convertValues {p : Value → Prop} {values : List String} {params : List Value}
    (hparams : convertValues parseF64 fieldType values = .ok params) :
    (∃ param ∈ params, p param) ↔
      ∃ val ∈ values, ∃ param, convertValue parseF64 val fieldType = .ok param ∧ p param := by
  induction values generalizing params with
  | nil =>
      rw [convertValues, Except.ok.injEq] at hparams
      simp [← hparams]
  | cons val rest ih =>
      obtain ⟨param, later, hval, hrest, rfl⟩ := convertValues_cons_eq_ok.mp hparams
      simp [hval, ih hrest]

/-- An operator with one placeholder takes the first value. -/
theorem params_eq_ok {cond : FilterCondition} (hop : cond.operator.arity 0 = 1)
    {params : List Value} (hparams : cond.params parseF64 fieldType = .ok params) :
    ∃ val param, cond.values.head? = some val ∧
      convertValue parseF64 val fieldType = .ok param ∧ params = [param] := by
  have hfirst : ∀ val, convertValues parseF64 fieldType [val] = .ok params →
      ∃ param, convertValue parseF64 val fieldType = .ok param ∧ params = [param] := by
    intro val hvalues
    obtain ⟨param, later, hval, hlater, rfl⟩ := convertValues_cons_eq_ok.mp hvalues
    rw [convertValues, Except.ok.injEq] at hlater
    exact ⟨param, hval, by rw [← hlater]⟩
  unfold FilterCondition.params at hparams
  cases hoperator : cond.operator with
  | isNull wanted => simp [hoperator, Operator.arity] at hop
  | oneOf => simp [hoperator, Operator.arity] at hop
  | _ =>
      cases hhead : cond.values.head? with
      | none => simp [hoperator, hhead] at hparams
      | some val =>
          simp only [hoperator, hhead] at hparams
          obtain ⟨param, hval, hparam⟩ := hfirst val hparams
          exact ⟨val, param, rfl, hval, hparam⟩

theorem Pattern.first_iff {values : List String} {val : String} {param : Value}
    (hhead : values.head? = some val) (hval : convertValue parseF64 val fieldType = .ok param)
    {p : Value → Prop} : Pattern.first parseF64 fieldType values p ↔ p param := by
  constructor
  · rintro ⟨found, made, hfound, hmade, hp⟩
    obtain rfl : val = found := Option.some.inj (hhead.symm.trans hfound)
    rwa [Except.ok.inj (hval.symm.trans hmade)]
  · exact fun hp => ⟨val, param, hhead, hval, hp⟩

theorem evalIn_eq_true {results : List (Option Bool)} :
    evalIn results = some true ↔ some true ∈ results := by
  unfold evalIn
  split_ifs with htrue hnone <;> simp [htrue]

/-- **The condition of a key is true of a row when the documented one is.** -/
theorem pairHolds_iff {pattern : Pattern} {column : String} {values : List String}
    {params : List Value}
    (hparams : FilterCondition.params parseF64 ⟨column, pattern.operator values, values⟩
      fieldType = .ok params) :
    PairHolds sqlite columns row (⟨column, pattern.operator values, values⟩, params) ↔
      pattern.holds parseF64 sqlite (columns.affinity column) fieldType (row column) values := by
  -- the comparisons differ in their operator only, and read the first value
  have hcompare : ∀ op : Comparison, ∀ val param, values.head? = some val →
      convertValue parseF64 val fieldType = .ok param →
      ((Form.compare op).eval sqlite (columns.affinity column) (row column) [param] = some true ↔
        Pattern.first parseF64 fieldType values
          (op.eval sqlite (columns.affinity column) (row column) · = some true)) := by
    intro op val param hhead hval
    rw [Pattern.first_iff hhead hval]
    rfl
  cases pattern with
  | plain =>
      unfold Pattern.operator at hparams ⊢
      by_cases hmany : 1 < values.length
      · rw [if_pos hmany] at hparams ⊢
        have hall : convertValues parseF64 fieldType values = .ok params := hparams
        refine evalIn_eq_true.trans ?_
        rw [List.mem_map]
        exact exists_convertValues hall
      · rw [if_neg hmany] at hparams ⊢
        obtain ⟨val, param, hhead, hval, rfl⟩ := params_eq_ok rfl hparams
        refine (hcompare .eq val param hhead hval).trans ?_
        -- there is a first value and no second one
        have hone : values = [val] := by
          obtain ⟨rest, rfl⟩ := List.head?_eq_some_iff.mp hhead
          cases rest with
          | nil => rfl
          | cons other later => simp at hmany
        simp [hone, Pattern.first, Pattern.holds]
  | null =>
      have hform : PairHolds sqlite columns row (⟨column, Pattern.null.operator values, values⟩,
          params) ↔ (row column).isNull =
            (values.head?.map fun value => value == "true").getD true := by
        simp [PairHolds, Pattern.operator, Operator.form, Form.eval]
      rw [hform, Pattern.holds]
      cases values.head? with
      | none => simp
      | some value => simp [Bool.beq_eq_decide_eq]
  | like =>
      obtain ⟨val, param, hhead, hval, rfl⟩ := params_eq_ok rfl hparams
      rw [Pattern.holds, Pattern.first_iff hhead hval]
      have hlike : PairHolds sqlite columns row (⟨column, .like, values⟩, [param]) ↔
          (if (row column).isNull || param.isNull then none
            else some (sqlite.like (row column) param)) = some true := Iff.rfl
      refine hlike.trans ?_
      cases (row column).isNull <;> cases param.isNull <;> simp
  | ne =>
      obtain ⟨val, param, hhead, hval, rfl⟩ := params_eq_ok rfl hparams
      exact hcompare .ne val param hhead hval
  | gt =>
      obtain ⟨val, param, hhead, hval, rfl⟩ := params_eq_ok rfl hparams
      exact hcompare .gt val param hhead hval
  | gte =>
      obtain ⟨val, param, hhead, hval, rfl⟩ := params_eq_ok rfl hparams
      exact hcompare .ge val param hhead hval
  | lt =>
      obtain ⟨val, param, hhead, hval, rfl⟩ := params_eq_ok rfl hparams
      exact hcompare .lt val param hhead hval
  | lte =>
      obtain ⟨val, param, hhead, hval, rfl⟩ := params_eq_ok rfl hparams
      exact hcompare .le val param hhead hval

end Holds

/-! ## The filter of a request -/

/-- The row satisfies the conditions of all keys on columns of the schema. -/
def Satisfies (parseF64 : String → Option F64) (sqlite : Sqlite) (columns : Columns)
    (schema : FilterSchema) (params : List (String × List String)) (row : String → Value) : Prop :=
  ∀ entry ∈ params, isReserved entry.1 = false → ∀ column pattern, Asks entry.1 column pattern →
    ∀ fieldType, schema.fieldType column = some fieldType →
      pattern.holds parseF64 sqlite (columns.affinity column) fieldType (row column) entry.2

/-- **A request is valid in all iteration orders or in none, and its filter selects
the rows that satisfy all its keys.** -/
theorem filter_semantics (parseF64 : String → Option F64) (sqlite : Sqlite) (columns : Columns)
    {schema : FilterSchema} (hschema : schema.Quotable) {params : List (String × List String)}
    (hkeys : (params.map Prod.fst).Nodup) {entries entries' : List (String × List String)}
    {order order' : List String} (hiterates : Iterates params entries order)
    (hiterates' : Iterates params entries' order') :
    ((∃ validated, (fromQueryParams entries order).validate parseF64 schema = .ok validated) ↔
      ∃ validated, (fromQueryParams entries' order').validate parseF64 schema = .ok validated) ∧
    ∀ validated, (fromQueryParams entries order).validate parseF64 schema = .ok validated →
      ∀ row, validated.selects sqlite columns row = true ↔
        Satisfies parseF64 sqlite columns schema params row := by
  have hsame : ∀ cond, cond ∈ (fromQueryParams entries order).conditions ↔
      cond ∈ (fromQueryParams entries' order').conditions :=
    fun cond => (mem_conditions hkeys hiterates).trans (mem_conditions hkeys hiterates').symm
  constructor
  · rw [exists_validate_iff, exists_validate_iff]
    exact forall_congr' fun cond => imp_congr_left (hsame cond)
  · intro validated hvalidate row
    rw [selects_iff hschema hvalidate]
    constructor
    · intro hholds entry hentry hreserved column pattern hasks fieldType hfield
      have hcond : entryCondition entry =
          some ⟨column, pattern.operator entry.2, entry.2⟩ := by
        rw [entryCondition, hreserved, if_neg Bool.false_ne_true]
        exact parseCondition_eq_some.mpr ⟨pattern, hasks, rfl, rfl⟩
      have hmem := (mem_conditions hkeys hiterates).mpr ⟨entry, hentry, hcond⟩
      obtain ⟨values, found, hfound, hvalues⟩ := exists_validate_iff.mp ⟨validated, hvalidate⟩ _
        hmem (by simp [FilterSchema.knows, hfield])
      obtain rfl : fieldType = found := Option.some.inj (hfield.symm.trans hfound)
      exact (pairHolds_iff hvalues).mp (hholds _ hmem values ⟨fieldType, hfield, hvalues⟩)
    · rintro hsatisfies ⟨column, operator, vals⟩ hcond values ⟨fieldType, hfield, hvalues⟩
      obtain ⟨entry, hentry, hparse⟩ := (mem_conditions hkeys hiterates).mp hcond
      unfold entryCondition at hparse
      split at hparse
      · exact absurd hparse (by simp)
      · next hreserved =>
          obtain ⟨pattern, hasks, rfl, rfl⟩ := parseCondition_eq_some.mp hparse
          exact (pairHolds_iff hvalues).mpr (hsatisfies entry hentry (by simpa using hreserved)
            column pattern hasks fieldType hfield)

/-- A schema with one text column. -/
def oneColumn (name : String) : FilterSchema := FilterSchema.new.field name .text

/-- Rows whose columns all hold one text. -/
def uniformRow (text : String) (_ : String) : Value := .text text

/-- All columns have text affinity. -/
def textColumns : Columns := ⟨fun _ => .text⟩

/-- Two keys on one column give two conditions, whatever the order. -/
theorem range_on_one_column :
    ∃ validated, (fromQueryParams [("name.lt", ["m"]), ("name.gt", ["c"])]
        ["name.gt", "name.lt"]).validate (fun _ => none) (oneColumn "name") = .ok validated ∧
      validated.selects integerSqlite textColumns (uniformRow "h") = true ∧
      Satisfies (fun _ => none) integerSqlite textColumns (oneColumn "name")
        [("name.gt", ["c"]), ("name.lt", ["m"])] (uniformRow "h") := by
  have hvalidate : (fromQueryParams [("name.lt", ["m"]), ("name.gt", ["c"])]
      ["name.gt", "name.lt"]).validate (fun _ => none) (oneColumn "name") =
        .ok ⟨["\"name\" > ?", "\"name\" < ?"], [.text "c", .text "m"], none⟩ := by
    decide
  have hselects : ValidatedFilter.selects integerSqlite textColumns (uniformRow "h")
      ⟨["\"name\" > ?", "\"name\" < ?"], [.text "c", .text "m"], none⟩ = true := by
    decide
  have hiterates : Iterates [("name.gt", ["c"]), ("name.lt", ["m"])]
      [("name.lt", ["m"]), ("name.gt", ["c"])] ["name.gt", "name.lt"] := by
    constructor <;> decide
  refine ⟨_, hvalidate, hselects, ?_⟩
  exact ((filter_semantics (fun _ => none) integerSqlite textColumns ⟨by decide, by decide⟩
    (by decide) hiterates hiterates).2 _ hvalidate _).mp hselects

/-- The row satisfies the condition of every key that the documentation lists, the
reserved keys and names with a dot included. -/
def SatisfiesEvery (parseF64 : String → Option F64) (sqlite : Sqlite) (columns : Columns)
    (schema : FilterSchema) (params : List (String × List String)) (row : String → Value) : Prop :=
  ∀ entry ∈ params, ∀ column (pattern : Pattern), entry.1 = column ++ pattern.suffix →
    ∀ fieldType, schema.fieldType column = some fieldType →
      pattern.holds parseF64 sqlite (columns.affinity column) fieldType (row column) entry.2

theorem not_satisfiesEvery (name : String) :
    ¬ SatisfiesEvery (fun _ => none) integerSqlite textColumns (oneColumn name) [(name, ["x"])]
      (uniformRow "y") := by
  intro hsatisfies
  obtain ⟨val, hval, param, hparam, hholds⟩ := hsatisfies _ (List.mem_singleton_self _) name .plain
    (by simp [Pattern.suffix]) .text (by simp [oneColumn, FilterSchema.field,
      FilterSchema.fieldType])
  obtain rfl := List.mem_singleton.mp hval
  obtain rfl := Except.ok.inj hparam
  have hdiffers : ¬ Comparison.eq.eval integerSqlite .text (.text "y") (.text "x") = some true := by
    decide
  exact hdiffers hholds

theorem satisfiesEvery_equal (name : String) :
    SatisfiesEvery (fun _ => none) integerSqlite textColumns (oneColumn name) [(name, ["x"])]
      (uniformRow "x") := by
  intro entry hentry column pattern hkey fieldType hfield
  obtain rfl := List.mem_singleton.mp hentry
  have hcolumn : column = name ∧ fieldType = .text := by
    unfold oneColumn FilterSchema.fieldType FilterSchema.field FilterSchema.new at hfield
    rw [List.lookup_cons] at hfield
    cases hname : column == name with
    | true =>
        rw [hname] at hfield
        exact ⟨beq_iff_eq.mp hname, (Option.some.inj hfield).symm⟩
    | false =>
        rw [hname] at hfield
        exact absurd hfield (by simp)
  obtain ⟨rfl, rfl⟩ := hcolumn
  have hpattern : pattern = .plain := by
    have hlength := congrArg String.length hkey
    rw [String.length_append] at hlength
    cases pattern with
    | plain => rfl
    | _ => exact absurd hlength (by simp [Pattern.suffix])
  subst hpattern
  have hequal : Comparison.eq.eval integerSqlite .text (.text "x") (.text "x") = some true := by
    decide
  exact ⟨"x", List.mem_singleton_self _, .text "x", rfl, hequal⟩

/-- A reserved key or a name with a dot is ignored, and a name with a double quote
breaks the text of its clause. -/
theorem documented_condition_missed :
    (∃ validated, (fromQueryParams [("after", ["x"])] []).validate (fun _ => none)
        (oneColumn "after") = .ok validated ∧
      validated.selects integerSqlite textColumns (uniformRow "y") = true ∧
      ¬ SatisfiesEvery (fun _ => none) integerSqlite textColumns (oneColumn "after")
        [("after", ["x"])] (uniformRow "y")) ∧
    (∃ validated, (fromQueryParams [("a.b", ["x"])] []).validate (fun _ => none)
        (oneColumn "a.b") = .ok validated ∧
      validated.selects integerSqlite textColumns (uniformRow "y") = true ∧
      ¬ SatisfiesEvery (fun _ => none) integerSqlite textColumns (oneColumn "a.b")
        [("a.b", ["x"])] (uniformRow "y")) ∧
    ∃ validated, (fromQueryParams [("a\"b", ["x"])] ["a\"b"]).validate (fun _ => none)
        (oneColumn "a\"b") = .ok validated ∧
      validated.selects integerSqlite textColumns (uniformRow "x") = false ∧
      SatisfiesEvery (fun _ => none) integerSqlite textColumns (oneColumn "a\"b")
        [("a\"b", ["x"])] (uniformRow "x") := by
  refine ⟨⟨⟨[], [], none⟩, ?_, ?_, not_satisfiesEvery _⟩,
    ⟨⟨[], [], none⟩, ?_, ?_, not_satisfiesEvery _⟩,
    ⟨⟨["\"a\"b\" = ?"], [.text "x"], none⟩, ?_, ?_, satisfiesEvery_equal _⟩⟩
  all_goals decide

end Modo.Db
