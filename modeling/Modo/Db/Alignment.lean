import Modo.Db.Select
import Modo.Lib.Placeholders

/-!
# Placeholders and parameters

The text of a statement is taken apart into `Piece`s.  Each piece brings its own
parameters and has as many placeholders as these, so that the `i`-th placeholder
belongs to the piece that the `i`-th parameter was made for.
-/

namespace Modo.Db

open Placeholders (Closed)

/-! ## Pieces of a statement -/

namespace Terminal

/-- The cursor that the page comes after. -/
def after : Terminal → Option String
  | cursor req => req.after
  | _ => none

/-- The rows to fetch; `cursor` looks one row ahead. -/
def limit : Terminal → Option Int64
  | page req => some req.perPage
  | cursor req => some (req.perPage + 1)
  | _ => none

/-- The rows to skip. -/
def offset : Terminal → Option Int64
  | page req => some req.offset
  | _ => none

end Terminal

inductive Piece where
  | keyword (text : String)
  /-- The base query. -/
  | base
  /-- The order set by the builder. -/
  | orderBy
  | condition (cond : FilterCondition) (params : List Value)
  | sort (field : String) (desc : Bool)
  | cursorCondition (after : String)
  | cursorOrder
  | limit (n : Int64)
  | offset (n : Int64)

/-- The texts between the others; no column is named in them. -/
def keywords : List String :=
  ["SELECT COUNT(*) FROM (", ") AS _count", " WHERE ", " AND ", " ORDER BY ", ", ", " LIMIT 1"]

namespace Piece

def text (builder : SelectBuilder) : Piece → String
  | keyword text => text
  | base => builder.baseSql
  | orderBy => builder.orderBy.getD ""
  | condition cond _ => cond.clause
  | sort field desc => sortPart field desc
  | cursorCondition _ =>
      quoted builder.cursorColumn ++ " " ++ builder.opDir.1 ++ " ?"
  | cursorOrder => quoted builder.cursorColumn ++ " " ++ builder.opDir.2
  | limit _ => " LIMIT ?"
  | offset _ => " OFFSET ?"

/-- The parameters made for a piece. -/
def params : Piece → List Value
  | condition _ params => params
  | cursorCondition after => [.text after]
  | limit n | offset n => [.integer n]
  | keyword _ | base | orderBy | sort .. | cursorOrder => []

/-- The columns named in a piece, apart from the texts of the builder. -/
def columns (builder : SelectBuilder) : Piece → List String
  | condition cond _ => [cond.column]
  | sort field _ => [field]
  | cursorCondition _ | cursorOrder => [builder.cursorColumn]
  | keyword _ | base | orderBy | limit _ | offset _ => []

/-- The piece comes from the builder, from a condition of the request on a column
of the schema with the parameters converted from its values, from a sort field of
the schema, or from the page that the terminal asks for. -/
def Sound (parseF64 : String → Option F64) (schema : FilterSchema)
    (conditions : List FilterCondition) (terminal : Terminal) : Piece → Prop
  | keyword text => text ∈ keywords
  | condition cond params => cond ∈ conditions ∧ Converts parseF64 schema (cond, params)
  | sort field _ => schema.isSortField field = true
  | cursorCondition after => terminal.after = some after
  | limit n => terminal.limit = some n
  | offset n => terminal.offset = some n
  | base | orderBy | cursorOrder => True

end Piece

def textOf (builder : SelectBuilder) (pieces : List Piece) : String :=
  pieces.foldr (fun piece text => piece.text builder ++ text) ""

def paramsOf (pieces : List Piece) : List Value := pieces.flatMap Piece.params

/-- The pieces with a separator between them. -/
def joinPieces (separator : Piece) : List Piece → List Piece
  | [] => []
  | [piece] => [piece]
  | piece :: rest => piece :: separator :: joinPieces separator rest

/-! ## Every piece has its placeholders -/

/-- The texts set by the builder are complete and have no placeholders. -/
structure SelectBuilder.Plain (builder : SelectBuilder) : Prop where
  base : Closed builder.baseSql 0
  orderBy : ∀ order ∈ builder.orderBy, Closed order 0
  cursorColumn : '"' ∉ builder.cursorColumn.toList

theorem closed_quoted {column : String} (hcolumn : '"' ∉ column.toList) :
    Closed (quoted column) 0 := by
  have hquote : ("\"" : String).toList = ['"'] := by decide
  rw [Closed, quoted, String.toList_append, String.toList_append, hquote, List.append_assoc]
  show Placeholders.scan _ ('"' :: (column.toList ++ '"' :: [])) = _
  rw [Placeholders.scan]
  have hopen : Placeholders.Mode.code.next '"' = .quoted '"' := by decide
  rw [hopen, Placeholders.scan_quoted hcolumn]
  rfl

theorem closed_marks (n : ℕ) : Closed (joinWith ", " (List.replicate n "?")) n := by
  induction n with
  | zero => decide
  | succ n ih =>
      cases n with
      | zero => decide
      | succ n =>
          have hmark : Closed ("?" ++ ", ") 1 := by decide
          have hclosed : Closed (joinWith ", " (List.replicate (n + 1 + 1) "?")) (1 + (n + 1)) :=
            hmark.append ih
          rwa [Nat.add_comm 1] at hclosed

theorem closed_sqlOp (operator : Operator) : Closed operator.sqlOp 0 := by
  cases operator with
  | isNull isNull => exact (by decide : Closed "" 0)
  | _ => decide

theorem closed_clauseText {column : String} (hcolumn : '"' ∉ column.toList) (operator : Operator)
    (n : ℕ) : Closed (clauseText column operator n) (operator.arity n) := by
  have hquoted := closed_quoted hcolumn
  have hcompare : Closed (quoted column ++ " " ++ operator.sqlOp ++ " ?") 1 :=
    ((hquoted.append (by decide : Closed " " 0)).append (closed_sqlOp operator)).append
      (by decide : Closed " ?" 1)
  cases operator with
  | isNull isNull =>
      cases isNull
      · exact hquoted.append (by decide : Closed " IS NOT NULL" 0)
      · exact hquoted.append (by decide : Closed " IS NULL" 0)
  | oneOf =>
      have hmarks := (hquoted.append (by decide : Closed " IN (" 0)).append (closed_marks n)
      rw [Nat.zero_add] at hmarks
      exact hmarks.append (by decide : Closed ")" 0)
  | _ => exact hcompare

section Pieces

variable {parseF64 : String → Option F64} {schema : FilterSchema}
  {conditions : List FilterCondition} {terminal : Terminal} {builder : SelectBuilder}

/-- A sound piece has as many placeholders as parameters. -/
theorem Piece.Sound.closed (hschema : schema.Quotable) (hbuilder : builder.Plain) {piece : Piece}
    (hsound : piece.Sound parseF64 schema conditions terminal) :
    Closed (piece.text builder) piece.params.length := by
  have hcursor := closed_quoted hbuilder.cursorColumn
  have hop : Closed builder.opDir.1 0 ∧ Closed builder.opDir.2 0 := by
    unfold SelectBuilder.opDir
    cases builder.cursorDesc <;> decide
  have hspace : Closed " " 0 := by decide
  cases piece with
  | keyword text =>
      have hkeywords : ∀ text ∈ keywords, Closed text 0 := by decide
      exact hkeywords text hsound
  | base => exact hbuilder.base
  | orderBy =>
      cases horder : builder.orderBy with
      | none =>
          rw [Piece.text, horder]
          decide
      | some order =>
          rw [Piece.text, horder]
          exact hbuilder.orderBy order horder
  | condition cond params =>
      obtain ⟨-, fieldType, hfield, hparams⟩ := hsound
      have hclosed := closed_clauseText (hschema.field hfield) cond.operator cond.values.length
      rwa [← length_params hparams] at hclosed
  | sort field desc =>
      have hdirection : Closed (if desc then "DESC" else "ASC") 0 := by
        cases desc <;> decide
      exact ((closed_quoted (hschema.sortField hsound)).append hspace).append hdirection
  | cursorCondition after =>
      exact ((hcursor.append hspace).append hop.1).append (by decide : Closed " ?" 1)
  | cursorOrder => exact (hcursor.append hspace).append hop.2
  | limit n => exact (by decide : Closed " LIMIT ?" 1)
  | offset n => exact (by decide : Closed " OFFSET ?" 1)

/-! ## The pieces of the statements -/

@[simp] theorem textOf_nil : textOf builder [] = "" := rfl

@[simp] theorem textOf_cons (piece : Piece) (rest : List Piece) :
    textOf builder (piece :: rest) = piece.text builder ++ textOf builder rest := rfl

@[simp] theorem textOf_append (first second : List Piece) :
    textOf builder (first ++ second) = textOf builder first ++ textOf builder second := by
  induction first with
  | nil => simp
  | cons piece rest ih => simp [ih, String.append_assoc]

@[simp] theorem paramsOf_nil : paramsOf [] = [] := rfl

@[simp] theorem paramsOf_cons (piece : Piece) (rest : List Piece) :
    paramsOf (piece :: rest) = piece.params ++ paramsOf rest := by
  simp [paramsOf]

@[simp] theorem paramsOf_append (first second : List Piece) :
    paramsOf (first ++ second) = paramsOf first ++ paramsOf second := by
  simp [paramsOf]

theorem textOf_joinPieces (separator : String) (pieces : List Piece) :
    textOf builder (joinPieces (.keyword separator) pieces) =
      joinWith separator (pieces.map (Piece.text builder)) := by
  induction pieces with
  | nil => rfl
  | cons piece rest ih =>
      cases rest with
      | nil => simp [joinPieces, joinWith]
      | cons next later =>
          simp only [joinPieces, textOf_cons, ih, List.map_cons, joinWith, Piece.text,
            String.append_assoc]

theorem paramsOf_joinPieces (separator : String) (pieces : List Piece) :
    paramsOf (joinPieces (.keyword separator) pieces) = paramsOf pieces := by
  induction pieces with
  | nil => rfl
  | cons piece rest ih =>
      cases rest with
      | nil => simp [joinPieces]
      | cons next later =>
          simp only [joinPieces, paramsOf_cons, ih, Piece.params, List.nil_append]

theorem mem_joinPieces {separator : String} {pieces : List Piece} {piece : Piece}
    (hpiece : piece ∈ joinPieces (.keyword separator) pieces) :
    piece = .keyword separator ∨ piece ∈ pieces := by
  induction pieces with
  | nil => exact Or.inr hpiece
  | cons first rest ih =>
      cases rest with
      | nil => exact Or.inr hpiece
      | cons next later =>
          have hunfold : joinPieces (.keyword separator) (first :: next :: later) =
              first :: .keyword separator :: joinPieces (.keyword separator) (next :: later) := rfl
          rw [hunfold, List.mem_cons, List.mem_cons] at hpiece
          rcases hpiece with rfl | rfl | hpiece
          · exact Or.inr List.mem_cons_self
          · exact Or.inl rfl
          · rcases ih hpiece with hseparator | hmem
            · exact Or.inl hseparator
            · exact Or.inr (List.mem_cons_of_mem _ hmem)

/-- The text and the parameters are those of sound pieces. -/
def MadeOf (builder : SelectBuilder) (sound : Piece → Prop) (text : String)
    (params : List Value) : Prop :=
  ∃ pieces, text = textOf builder pieces ∧ params = paramsOf pieces ∧ ∀ piece ∈ pieces, sound piece

namespace MadeOf

variable {sound : Piece → Prop}

theorem nil (builder : SelectBuilder) (sound : Piece → Prop) : MadeOf builder sound "" [] :=
  ⟨[], rfl, rfl, by simp⟩

theorem append {first second : String} {params params' : List Value}
    (hfirst : MadeOf builder sound first params) (hsecond : MadeOf builder sound second params') :
    MadeOf builder sound (first ++ second) (params ++ params') := by
  obtain ⟨pieces, rfl, rfl, hsound⟩ := hfirst
  obtain ⟨pieces', rfl, rfl, hsound'⟩ := hsecond
  refine ⟨pieces ++ pieces', (textOf_append _ _).symm, (paramsOf_append _ _).symm, ?_⟩
  intro piece hpiece
  rcases List.mem_append.mp hpiece with hpiece | hpiece
  · exact hsound piece hpiece
  · exact hsound' piece hpiece

theorem piece (builder : SelectBuilder) {piece : Piece} (hsound : sound piece) :
    MadeOf builder sound (piece.text builder) piece.params :=
  ⟨[piece], by simp, by simp, by simpa using hsound⟩

/-- Pieces joined by a keyword. -/
theorem join (builder : SelectBuilder) {separator : String}
    (hseparator : sound (.keyword separator)) {pieces : List Piece}
    (hsound : ∀ piece ∈ pieces, sound piece) :
    MadeOf builder sound (joinWith separator (pieces.map (Piece.text builder)))
      (paramsOf pieces) := by
  refine ⟨joinPieces (.keyword separator) pieces, (textOf_joinPieces separator pieces).symm,
    (paramsOf_joinPieces separator pieces).symm, ?_⟩
  intro piece hpiece
  rcases mem_joinPieces hpiece with rfl | hpiece
  · exact hseparator
  · exact hsound piece hpiece

end MadeOf

theorem madeOf_keyword (builder : SelectBuilder) {text : String} (htext : text ∈ keywords) :
    MadeOf builder (Piece.Sound parseF64 schema conditions terminal) text [] :=
  MadeOf.piece builder
    (show Piece.Sound parseF64 schema conditions terminal (.keyword text) from htext)

theorem madeOf_limit (builder : SelectBuilder) {n : Int64} (hlimit : terminal.limit = some n) :
    MadeOf builder (Piece.Sound parseF64 schema conditions terminal) " LIMIT ?" [.integer n] :=
  MadeOf.piece builder
    (show Piece.Sound parseF64 schema conditions terminal (.limit n) from hlimit)

/-- The filter of the builder was validated against the schema. -/
def SelectBuilder.Validated (parseF64 : String → Option F64) (schema : FilterSchema)
    (filter : Filter) (builder : SelectBuilder) : Prop :=
  ∀ validated ∈ builder.filter, filter.validate parseF64 schema = .ok validated

section Statements

variable {filter : Filter} (hfilter : builder.Validated parseF64 schema filter)
include hfilter

theorem madeOf_buildWhere (terminal : Terminal) :
    MadeOf builder (Piece.Sound parseF64 schema filter.conditions terminal) builder.buildWhere.1
      builder.buildWhere.2 := by
  unfold SelectBuilder.buildWhere
  cases hbuilder : builder.filter with
  | none => exact .nil builder _
  | some validated =>
      obtain ⟨pairs, hpairs, hconverts, rfl⟩ := validate_eq_ok.mp (hfilter validated hbuilder)
      cases pairs with
      | nil => exact .nil builder _
      | cons pair later =>
          have hsound : ∀ piece ∈ (pair :: later).map fun pair => Piece.condition pair.1 pair.2,
              piece.Sound parseF64 schema filter.conditions terminal := by
            intro piece hpiece
            obtain ⟨made, hmade, rfl⟩ := List.mem_map.mp hpiece
            have hmem : made.1 ∈ (pair :: later).map Prod.fst := List.mem_map_of_mem hmade
            rw [hpairs] at hmem
            exact ⟨(mem_known.mp hmem).1, hconverts made hmade⟩
          have hand : Piece.Sound parseF64 schema filter.conditions terminal (.keyword " AND ") :=
            (by decide : " AND " ∈ keywords)
          have hmade := (madeOf_keyword builder (by decide : " WHERE " ∈ keywords)).append
            (.join builder hand hsound)
          rw [List.map_map, paramsOf, List.flatMap_map] at hmade
          exact hmade

omit hfilter in
theorem mem_sortTerms {seen sort : List String} {term : String × Bool}
    (hterm : term ∈ sortTerms schema seen sort) : schema.isSortField term.1 = true := by
  induction sort generalizing seen with
  | nil => simp [sortTerms] at hterm
  | cons s rest ih =>
      simp only [sortTerms] at hterm
      by_cases hfield :
          (schema.isSortField (sortField s).1 && !seen.contains (sortField s).1) = true
      · rw [if_pos hfield, List.mem_cons] at hterm
        rcases hterm with rfl | hterm
        · exact (Bool.and_eq_true_iff.mp hfield).1
        · exact ih hterm
      · rw [if_neg hfield] at hterm
        exact ih hterm

omit hfilter in
theorem madeOf_sortClause {sort : List String} {clause : String}
    (hclause : sortClause schema sort = some clause) :
    MadeOf builder (Piece.Sound parseF64 schema filter.conditions terminal) clause [] := by
  have hsound : ∀ piece ∈ (sortTerms schema [] sort).map fun term => Piece.sort term.1 term.2,
      piece.Sound parseF64 schema filter.conditions terminal := by
    intro piece hpiece
    obtain ⟨term, hterm, rfl⟩ := List.mem_map.mp hpiece
    exact mem_sortTerms hterm
  have hcomma : Piece.Sound parseF64 schema filter.conditions terminal (.keyword ", ") :=
    (by decide : ", " ∈ keywords)
  have hmade := MadeOf.join builder hcomma hsound
  have hparams : paramsOf ((sortTerms schema [] sort).map fun term => Piece.sort term.1 term.2) =
      [] := by
    simp [paramsOf, List.flatMap_map, Piece.params]
  rw [List.map_map, hparams] at hmade
  unfold sortClause at hclause
  simp only at hclause
  split at hclause
  · exact absurd hclause (by simp)
  · rw [Option.some.injEq] at hclause
    rw [← hclause]
    exact hmade

theorem madeOf_orderSql (terminal : Terminal) :
    MadeOf builder (Piece.Sound parseF64 schema filter.conditions terminal)
      builder.orderSql [] := by
  have hresolved : ∀ order ∈ builder.resolveOrder,
      MadeOf builder (Piece.Sound parseF64 schema filter.conditions terminal) order [] := by
    intro order hresolve
    rcases Option.or_eq_some_iff.mp hresolve with hsort | ⟨-, hset⟩
    · obtain ⟨validated, hvalidated, hclause⟩ := Option.bind_eq_some_iff.mp hsort
      obtain ⟨pairs, -, -, rfl⟩ := validate_eq_ok.mp (hfilter validated hvalidated)
      exact madeOf_sortClause hclause
    · have hpiece : MadeOf builder (Piece.Sound parseF64 schema filter.conditions terminal)
          (Piece.orderBy.text builder) Piece.orderBy.params := .piece builder trivial
      rw [Piece.text, hset] at hpiece
      exact hpiece
  unfold SelectBuilder.orderSql
  cases hresolve : builder.resolveOrder with
  | none => exact .nil builder _
  | some order => exact (madeOf_keyword builder (by decide)).append (hresolved order hresolve)

omit hfilter in
/-- The condition that `cursor` adds. -/
theorem madeOf_cursorCondition (req : CursorRequest) :
    MadeOf builder (Piece.Sound parseF64 schema filter.conditions (.cursor req))
      (builder.cursorCondition req.after).1 (builder.cursorCondition req.after).2 := by
  cases hafter : req.after with
  | none => exact .nil builder _
  | some after =>
      have hcursor : MadeOf builder (Piece.Sound parseF64 schema filter.conditions (.cursor req))
          ((Piece.cursorCondition after).text builder) (Piece.cursorCondition after).params :=
        .piece builder hafter
      have hadded : ∀ text ∈ keywords,
          MadeOf builder (Piece.Sound parseF64 schema filter.conditions (.cursor req))
            (text ++ quoted builder.cursorColumn ++ " " ++ builder.opDir.1 ++ " ?")
            [.text after] := by
        intro text htext
        have hmade := (madeOf_keyword builder htext).append hcursor
        rw [Piece.text, ← String.append_assoc, ← String.append_assoc,
          ← String.append_assoc] at hmade
        exact hmade
      unfold SelectBuilder.cursorCondition
      simp only
      -- the condition is the first one, or follows those of the filter
      split
      · exact hadded " WHERE " (by decide)
      · exact hadded " AND " (by decide)

omit hfilter in
theorem madeOf_base :
    MadeOf builder (Piece.Sound parseF64 schema filter.conditions terminal) builder.baseSql [] :=
  MadeOf.piece builder
    (show Piece.Sound parseF64 schema filter.conditions terminal .base from trivial)

theorem madeOf_allStatement (terminal : Terminal) :
    MadeOf builder (Piece.Sound parseF64 schema filter.conditions terminal)
      builder.allStatement.sql builder.allStatement.params := by
  have hmade := (madeOf_base.append (madeOf_buildWhere hfilter terminal)).append
    (madeOf_orderSql hfilter terminal)
  rwa [List.append_nil, List.nil_append] at hmade

theorem madeOf_oneStatement (terminal : Terminal) :
    MadeOf builder (Piece.Sound parseF64 schema filter.conditions terminal)
      builder.oneStatement.sql builder.oneStatement.params := by
  have hmade := (madeOf_base.append (madeOf_buildWhere hfilter terminal)).append
    (madeOf_keyword builder (by decide : " LIMIT 1" ∈ keywords))
  rwa [List.append_nil, List.nil_append] at hmade

theorem madeOf_countStatement (terminal : Terminal) :
    MadeOf builder (Piece.Sound parseF64 schema filter.conditions terminal)
      builder.countStatement.sql builder.countStatement.params := by
  have hopen : MadeOf builder (Piece.Sound parseF64 schema filter.conditions terminal)
      ("SELECT COUNT(*) FROM (" ++ builder.baseSql) ([] ++ []) :=
    (madeOf_keyword builder (by decide)).append madeOf_base
  have hmade := (hopen.append (madeOf_buildWhere hfilter _)).append
    (madeOf_keyword builder (by decide : ") AS _count" ∈ keywords))
  rwa [List.append_nil, List.append_nil, List.nil_append] at hmade

theorem madeOf_dataStatement (req : PageRequest) :
    MadeOf builder (Piece.Sound parseF64 schema filter.conditions (.page req))
      (builder.dataStatement req).sql (builder.dataStatement req).params := by
  have hoffset : MadeOf builder (Piece.Sound parseF64 schema filter.conditions (.page req))
      " OFFSET ?" [.integer req.offset] :=
    MadeOf.piece builder (show Piece.Sound parseF64 schema filter.conditions (.page req)
      (.offset req.offset) from rfl)
  have htext : " LIMIT ?" ++ " OFFSET ?" = " LIMIT ? OFFSET ?" := by decide
  have hpage := (madeOf_limit builder rfl).append hoffset
  rw [htext] at hpage
  have hmade := ((madeOf_base.append (madeOf_buildWhere hfilter _)).append
    (madeOf_orderSql hfilter _)).append hpage
  rw [List.append_nil, List.nil_append, ← List.append_assoc] at hmade
  exact hmade

theorem madeOf_cursorStatement (req : CursorRequest) :
    MadeOf builder (Piece.Sound parseF64 schema filter.conditions (.cursor req))
      (builder.cursorStatement req).sql (builder.cursorStatement req).params := by
  have hlimit : MadeOf builder (Piece.Sound parseF64 schema filter.conditions (.cursor req))
      " LIMIT ?" [.integer (req.perPage + 1)] := madeOf_limit builder rfl
  have horder : MadeOf builder (Piece.Sound parseF64 schema filter.conditions (.cursor req))
      (Piece.cursorOrder.text builder) Piece.cursorOrder.params := .piece builder trivial
  have hmade := ((((madeOf_base.append (madeOf_buildWhere hfilter _)).append
    (madeOf_cursorCondition req)).append
      (madeOf_keyword builder (by decide : " ORDER BY " ∈ keywords))).append horder).append hlimit
  simpa [SelectBuilder.cursorStatement, Piece.text, Piece.params, String.append_assoc] using hmade

/-- Every statement is made of sound pieces. -/
theorem madeOf_statement {statement : Statement}
    (hstatement : statement ∈ builder.statements terminal) :
    MadeOf builder (Piece.Sound parseF64 schema filter.conditions terminal) statement.sql
      statement.params := by
  cases terminal with
  | fetchAll =>
      obtain rfl := List.mem_singleton.mp hstatement
      exact madeOf_allStatement hfilter _
  | fetchOne =>
      obtain rfl := List.mem_singleton.mp hstatement
      exact madeOf_oneStatement hfilter _
  | fetchOptional =>
      obtain rfl := List.mem_singleton.mp hstatement
      exact madeOf_oneStatement hfilter _
  | page req =>
      rcases List.mem_cons.mp hstatement with rfl | hstatement
      · exact madeOf_countStatement hfilter _
      · obtain rfl := List.mem_singleton.mp hstatement
        exact madeOf_dataStatement hfilter req
  | cursor req =>
      obtain rfl := List.mem_singleton.mp hstatement
      exact madeOf_cursorStatement hfilter req

end Statements

/-- Any number of sound pieces has as many placeholders as parameters. -/
theorem closed_textOf (hschema : schema.Quotable) (hbuilder : builder.Plain) {pieces : List Piece}
    (hsound : ∀ piece ∈ pieces, piece.Sound parseF64 schema conditions terminal) :
    Closed (textOf builder pieces) (paramsOf pieces).length := by
  induction pieces with
  | nil => exact (by decide : Closed "" 0)
  | cons piece rest ih =>
      rw [textOf_cons, paramsOf_cons, List.length_append]
      have hpiece := (hsound piece List.mem_cons_self).closed hschema hbuilder
      exact hpiece.append (ih fun other hother => hsound other (List.mem_cons_of_mem _ hother))

theorem Piece.Sound.column {piece : Piece}
    (hsound : piece.Sound parseF64 schema conditions terminal) {column : String}
    (hcolumn : column ∈ piece.columns builder) :
    (schema.fieldType column).isSome ∨ schema.isSortField column = true ∨
      column = builder.cursorColumn := by
  cases piece with
  | condition cond params =>
      obtain ⟨-, fieldType, hfield, -⟩ := hsound
      obtain rfl := List.mem_singleton.mp hcolumn
      exact Or.inl (Option.isSome_iff_exists.mpr ⟨fieldType, hfield⟩)
  | sort field desc =>
      obtain rfl := List.mem_singleton.mp hcolumn
      exact Or.inr (Or.inl hsound)
  | cursorCondition after => exact Or.inr (Or.inr (List.mem_singleton.mp hcolumn))
  | cursorOrder => exact Or.inr (Or.inr (List.mem_singleton.mp hcolumn))
  | keyword text => exact absurd hcolumn (List.not_mem_nil)
  | base => exact absurd hcolumn (List.not_mem_nil)
  | orderBy => exact absurd hcolumn (List.not_mem_nil)
  | limit n => exact absurd hcolumn (List.not_mem_nil)
  | offset n => exact absurd hcolumn (List.not_mem_nil)

end Pieces

end Modo.Db
