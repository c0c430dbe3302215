import Modo.Db.Cursor
import Modo.Db.Filter

/-!
# The statements of a select builder

A `SelectBuilder` puts a base query, the clauses of a filter, an order and the
conditions of a page together into the text of a statement, and collects the
parameters on the way.
-/

namespace Modo.Db

/-! ## The builder -/

structure PageRequest where
  page : Int64
  perPage : Int64

def PageRequest.offset (req : PageRequest) : Int64 := (req.page - 1) * req.perPage

structure SelectBuilder where
  baseSql : String
  filter : Option ValidatedFilter
  orderBy : Option String
  cursorColumn : String
  cursorDesc : Bool

/-- A text and the parameters bound to its placeholders. -/
structure Statement where
  sql : String
  params : List Value
  deriving DecidableEq

namespace SelectBuilder

def new (sql : String) : SelectBuilder where
  baseSql := sql
  filter := none
  orderBy := none
  cursorColumn := "id"
  cursorDesc := true

/-- `SelectBuilder::filter`. -/
def withFilter (builder : SelectBuilder) (f : ValidatedFilter) : SelectBuilder :=
  { builder with filter := some f }

/-- `SelectBuilder::order_by`. -/
def withOrderBy (builder : SelectBuilder) (order : String) : SelectBuilder :=
  { builder with orderBy := some order }

/-- `SelectBuilder::cursor_column`. -/
def withCursorColumn (builder : SelectBuilder) (col : String) : SelectBuilder :=
  { builder with cursorColumn := col }

def oldestFirst (builder : SelectBuilder) : SelectBuilder := { builder with cursorDesc := false }

def buildWhere (builder : SelectBuilder) : String × List Value :=
  match builder.filter with
  | some f =>
      if f.clauses.isEmpty then ("", []) else (" WHERE " ++ joinWith " AND " f.clauses, f.params)
  | none => ("", [])

/-- The sort of the filter takes precedence. -/
def resolveOrder (builder : SelectBuilder) : Option String :=
  (builder.filter.bind ValidatedFilter.sortClause).or builder.orderBy

def orderSql (builder : SelectBuilder) : String :=
  match builder.resolveOrder with
  | some order => " ORDER BY " ++ order
  | none => ""

/-- The count query of `page`. -/
def countStatement (builder : SelectBuilder) : Statement where
  sql := "SELECT COUNT(*) FROM (" ++ builder.baseSql ++ builder.buildWhere.1 ++ ") AS _count"
  params := builder.buildWhere.2

/-- The data query of `page`. -/
def dataStatement (builder : SelectBuilder) (req : PageRequest) : Statement where
  sql := builder.baseSql ++ builder.buildWhere.1 ++ builder.orderSql ++ " LIMIT ? OFFSET ?"
  params := builder.buildWhere.2 ++ [.integer req.perPage] ++ [.integer req.offset]

/-- The operator and the direction of `cursor`. -/
def opDir (builder : SelectBuilder) : String × String :=
  if builder.cursorDesc then ("<", "DESC") else (">", "ASC")

/-- The condition and the parameter that `cursor` adds to the clauses. -/
def cursorCondition (builder : SelectBuilder) (after : Option String) : String × List Value :=
  match after with
  | some after =>
      (if builder.buildWhere.1.isEmpty then
          " WHERE " ++ quoted builder.cursorColumn ++ " " ++ builder.opDir.1 ++ " ?"
        else " AND " ++ quoted builder.cursorColumn ++ " " ++ builder.opDir.1 ++ " ?",
        [.text after])
  | none => ("", [])

/-- The query of `cursor`. -/
def cursorStatement (builder : SelectBuilder) (req : CursorRequest) : Statement where
  sql := builder.baseSql ++ builder.buildWhere.1 ++ (builder.cursorCondition req.after).1 ++
    " ORDER BY " ++ quoted builder.cursorColumn ++ " " ++ builder.opDir.2 ++ " LIMIT ?"
  params := builder.buildWhere.2 ++ (builder.cursorCondition req.after).2 ++
    [.integer (req.perPage + 1)]

/-- The query of `fetch_all`. -/
def allStatement (builder : SelectBuilder) : Statement where
  sql := builder.baseSql ++ builder.buildWhere.1 ++ builder.orderSql
  params := builder.buildWhere.2

/-- The query of `fetch_one` and of `fetch_optional`. -/
def oneStatement (builder : SelectBuilder) : Statement where
  sql := builder.baseSql ++ builder.buildWhere.1 ++ " LIMIT 1"
  params := builder.buildWhere.2

end SelectBuilder

/-- The methods that execute a select. -/
inductive Terminal where
  | fetchAll
  | fetchOne
  | fetchOptional
  | page (req : PageRequest)
  | cursor (req : CursorRequest)

/-- The statements a terminal executes, in order. -/
def SelectBuilder.statements (builder : SelectBuilder) : Terminal → List Statement
  | .fetchAll => [builder.allStatement]
  | .fetchOne | .fetchOptional => [builder.oneStatement]
  | .page req => [builder.countStatement, builder.dataStatement req]
  | .cursor req => [builder.cursorStatement req]

end Modo.Db
