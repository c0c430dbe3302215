import Mathlib.Data.List.Forall2
import Modo.Lib.Template
import Modo.Lib.Text

/-!
# Environment variables in a configuration

`substitute_env_vars` goes once over the text of a configuration file and puts the value of a
variable, or a default, in the place of `${NAME}` and `${NAME:default}`.

The text is a template whose placeholders begin with a dollar and a brace.  `substitutes` says that
the function fills every placeholder of its reading, and fails when it cannot fill one.
-/

namespace Modo.Config

open Template (Piece Reads)

/-- `Error::internal`. -/
structure InternalError where
  message : String
  deriving DecidableEq

/-! ## The scanner -/

section Scanner

variable (env : List Char → Option (List Char))

def unclosedError (varExpr : List Char) : InternalError where
  message := "unclosed variable expression '$\x7b" ++ String.ofList varExpr ++ "' in config"

def unsetError (varName : List Char) : InternalError where
  message := "required environment variable '" ++ String.ofList varName ++ "' is not set"

/-- The name and the default of an expression. -/
def splitExpr (varExpr : List Char) : List Char × Option (List Char) :=
  match Text.splitFirst [':'] varExpr with
  | some (name, defaultVal) => (Text.trim name, some defaultVal)
  | none => (Text.trim varExpr, none)

/-- The value of an expression; `env` is `std::env::var`, with no value where that is an error. -/
def exprValue (varExpr : List Char) : Except InternalError (List Char) :=
  let (varName, defaultVal) := splitExpr varExpr
  match env varName with
  | some val => .ok val
  | none =>
      match defaultVal with
      | some defaultVal => .ok defaultVal
      | none => .error (unsetError varName)

/-- The loop over the characters. -/
def substituteLoop (result : List Char) : List Char → Except InternalError (List Char)
  | [] => .ok result
  | ch :: rest =>
      if ch = '$' ∧ rest.head? = some '\x7b' then
        match _htaken : Template.takeUntil '}' [] rest.tail with
        | (varExpr, false, _) => .error (unclosedError varExpr)
        | (varExpr, true, after) =>
            match exprValue env varExpr with
            | .error error => .error error
            | .ok val => substituteLoop (result ++ val) after
      else substituteLoop (result ++ [ch]) rest
termination_by text => text.length
decreasing_by
  · have hle := Template.length_takeUntil_le '}' [] rest.tail
    rw [_htaken, List.length_tail] at hle
    exact Nat.lt_succ_of_le (Nat.le_trans hle (Nat.sub_le _ _))
  · exact Nat.lt_succ_self _

def substituteEnvVars (input : String) : Except InternalError String :=
  (substituteLoop env [] input.toList).map String.ofList

end Scanner

/-! ## What the placeholders stand for -/

/-- The opening marker. -/
def marker : List Char := ['$', '\x7b']

/-- The parts of a configuration text. -/
def pieces (input : String) : List (Piece Char) :=
  Template.read marker '}' (by decide) input.toList

/-- What stands in front of the first colon, trimmed. -/
def variableName (body : List Char) : List Char := Text.trim (body.takeWhile (· ≠ ':'))

/-- Everything behind the first colon. -/
def defaultOf (body : List Char) : Option (List Char) :=
  if ':' ∈ body then some (body.dropWhile (· ≠ ':')).tail else none

/-- What stands in the place of a part of the text; an open placeholder and one without a value
stand for nothing. -/
def pieceValue (env : List Char → Option (List Char)) : Piece Char → Option (List Char)
  | .char c => some [c]
  | .hole body => (env (variableName body)).or (defaultOf body)
  | .unclosed _ => none

/-- The part cannot be filled: it is open, or names an unset variable and has no default. -/
def Unfilled (env : List Char → Option (List Char)) : Piece Char → Prop
  | .char _ => False
  | .hole body => env (variableName body) = none ∧ ':' ∉ body
  | .unclosed _ => True

section Results

variable {env : List Char → Option (List Char)}

theorem splitExpr_eq (body : List Char) :
    splitExpr body = (variableName body, defaultOf body) := by
  rcases Template.exists_closing ':' body with ⟨name, rest, rfl, hname⟩ | hnone
  · have hall : ∀ c ∈ name, decide (c ≠ ':') = true := by
      intro c hc
      exact decide_eq_true fun heq => hname (heq ▸ hc)
    have hsplit : Text.splitFirst [':'] (':' :: rest) = some ([], rest) :=
      Text.splitFirst_of_isPrefix (by simp) rest
    rw [splitExpr, Text.splitFirst_append_of_notMem hname, hsplit, variableName, defaultOf,
      List.takeWhile_append_of_pos hall, List.dropWhile_append_of_pos hall]
    simp
  · have hall : ∀ c ∈ body, decide (c ≠ ':') = true := by
      intro c hc
      exact decide_eq_true fun heq => hnone (heq ▸ hc)
    have hsplit : Text.splitFirst [':'] body = none := by
      rw [Text.splitFirst_eq_none (by simp)]
      exact fun hoccurs => hnone (hoccurs.subset (List.mem_singleton_self _))
    rw [splitExpr, hsplit, variableName, defaultOf, if_neg hnone,
      List.takeWhile_eq_self_iff.mpr hall]

theorem exprValue_eq_ok {body value : List Char} :
    exprValue env body = .ok value ↔ pieceValue env (.hole body) = some value := by
  rw [exprValue, splitExpr_eq, pieceValue]
  cases hname : env (variableName body) with
  | some found => simp [hname]
  | none => cases hdefault : defaultOf body <;> simp [hname]

/-! ## The loop over a part -/

theorem substituteLoop_char {ch : Char} {rest : List Char} (hstart : ¬ marker <+: ch :: rest)
    (result : List Char) :
    substituteLoop env result (ch :: rest) = substituteLoop env (result ++ [ch]) rest := by
  have hnot : ¬ (ch = '$' ∧ rest.head? = some '\x7b') := by
    rintro ⟨rfl, hhead⟩
    obtain ⟨tail, rfl⟩ := List.head?_eq_some_iff.mp hhead
    exact hstart (List.prefix_append marker tail)
  rw [substituteLoop, if_neg hnot]

theorem substituteLoop_hole {body : List Char} (hbody : '}' ∉ body) (result rest : List Char) :
    substituteLoop env result (marker ++ (body ++ '}' :: rest)) =
      (exprValue env body).bind fun value => substituteLoop env (result ++ value) rest := by
  have htaken : Template.takeUntil '}' [] (body ++ '}' :: rest) = (body, true, rest) :=
    Template.takeUntil_of_notMem '}' hbody [] rest
  rw [marker, List.cons_append, substituteLoop, if_pos ⟨rfl, rfl⟩]
  simp only [List.cons_append, List.nil_append, List.tail_cons]
  split
  · rename_i hopen
    rw [htaken] at hopen
    cases hopen
  · rename_i varExpr after hclosed
    rw [htaken, Prod.mk.injEq, Prod.mk.injEq] at hclosed
    obtain ⟨rfl, -, rfl⟩ := hclosed
    cases exprValue env body <;> rfl

theorem substituteLoop_unclosed {rest : List Char} (hrest : '}' ∉ rest) (result : List Char) :
    substituteLoop env result (marker ++ rest) = .error (unclosedError rest) := by
  have htaken : Template.takeUntil '}' [] rest = (rest, false, []) :=
    Template.takeUntil_eq_self '}' hrest []
  rw [marker, List.cons_append, substituteLoop, if_pos ⟨rfl, rfl⟩]
  simp only [List.cons_append, List.nil_append, List.tail_cons]
  split
  · rename_i varExpr after hopen
    rw [htaken, Prod.mk.injEq] at hopen
    rw [hopen.1]
  · rename_i hclosed
    rw [htaken] at hclosed
    cases hclosed

/-- What the loop makes of a part. -/
def fillPiece (env : List Char → Option (List Char)) : Piece Char → Except InternalError (List Char)
  | .char c => .ok [c]
  | .hole body => exprValue env body
  | .unclosed rest => .error (unclosedError rest)

theorem fillPiece_eq_ok {piece : Piece Char} {value : List Char} :
    fillPiece env piece = .ok value ↔ pieceValue env piece = some value := by
  cases piece with
  | char c => simp [fillPiece, pieceValue]
  | hole body => exact exprValue_eq_ok
  | unclosed rest => simp [fillPiece, pieceValue]

/-- The loop over a text fills its parts one after the other. -/
theorem substituteLoop_reads {text : List Char} {parts : List (Piece Char)}
    (hreads : Reads marker '}' text parts) (result : List Char) :
    substituteLoop env result text =
      (parts.mapM (fillPiece env)).map fun values => result ++ values.flatten := by
  induction hreads generalizing result with
  | nil =>
      rw [substituteLoop, List.mapM_nil]
      exact congrArg Except.ok (List.append_nil result).symm
  | char hstart hrest ih =>
      rw [substituteLoop_char hstart, ih, List.mapM_cons]
      cases List.mapM (fillPiece env) _ <;> simp [fillPiece, Except.map, bind, Except.bind, pure,
        Except.pure]
  | @hole body rest parts hbody hrest ih =>
      rw [substituteLoop_hole hbody, List.mapM_cons, fillPiece]
      cases exprValue env body with
      | error error => rfl
      | ok value =>
          show substituteLoop env (result ++ value) rest = _
          rw [ih]
          cases List.mapM (fillPiece env) parts <;> simp [Except.map, bind, Except.bind, pure,
            Except.pure]
  | unclosed hrest =>
      rw [substituteLoop_unclosed hrest]
      rfl

theorem mapM_fillPiece_eq_ok {parts : List (Piece Char)} {values : List (List Char)} :
    parts.mapM (fillPiece env) = .ok values ↔
      List.Forall₂ (fun piece value => pieceValue env piece = some value) parts values := by
  induction parts generalizing values with
  | nil =>
      rw [List.mapM_nil, List.forall₂_nil_left_iff]
      constructor
      · intro h
        exact (Except.ok.inj h).symm
      · rintro rfl
        rfl
  | cons piece parts ih =>
      rw [List.forall₂_cons_left_iff, List.mapM_cons]
      constructor
      · intro h
        cases hpiece : fillPiece env piece with
        | error error => rw [hpiece] at h; cases h
        | ok value =>
            cases hparts : parts.mapM (fillPiece env) with
            | error error => rw [hpiece, hparts] at h; cases h
            | ok rest =>
                rw [hpiece, hparts] at h
                exact ⟨value, rest, fillPiece_eq_ok.mp hpiece, ih.mp hparts, (Except.ok.inj h).symm⟩
      · rintro ⟨value, rest, hpiece, hparts, rfl⟩
        rw [fillPiece_eq_ok.mpr hpiece, ih.mpr hparts]
        rfl

theorem unfilled_iff {piece : Piece Char} :
    Unfilled env piece ↔ pieceValue env piece = none := by
  cases piece with
  | char c => simp [Unfilled, pieceValue]
  | hole body => simp [Unfilled, pieceValue, defaultOf]
  | unclosed rest => simp [Unfilled, pieceValue]

theorem exists_forall₂_iff {parts : List (Piece Char)} :
    (∃ values, List.Forall₂ (fun piece value => pieceValue env piece = some value) parts values) ↔
      ∀ piece ∈ parts, ¬ Unfilled env piece := by
  simp only [unfilled_iff]
  induction parts with
  | nil => simp
  | cons piece parts ih =>
      simp only [List.forall₂_cons_left_iff, List.forall_mem_cons, ← ih]
      constructor
      · rintro ⟨_, value, rest, hpiece, hrest, -⟩
        exact ⟨by simp [hpiece], rest, hrest⟩
      · rintro ⟨hpiece, rest, hrest⟩
        obtain ⟨value, hvalue⟩ := Option.ne_none_iff_exists'.mp hpiece
        exact ⟨_, value, rest, hvalue, hrest, rfl⟩

theorem reads_pieces (input : String) : Reads marker '}' input.toList (pieces input) :=
  Template.reads_read (by decide) input.toList

theorem substituteEnvVars_eq_ok {input output : String} :
    substituteEnvVars env input = .ok output ↔
      ∃ values, List.Forall₂ (fun piece value => pieceValue env piece = some value) (pieces input)
        values ∧ output = String.ofList values.flatten := by
  rw [substituteEnvVars, substituteLoop_reads (reads_pieces input)]
  simp only [← mapM_fillPiece_eq_ok]
  cases List.mapM (fillPiece env) (pieces input) with
  | error error => simp [Except.map]
  | ok values => simp [Except.map, eq_comm]

/-- **Substitution is a single pass.**  The result is the text with every placeholder of its reading
filled; it is an error exactly when one cannot be filled; and a text without placeholders stays as
it is. -/
theorem substitutes (env : List Char → Option (List Char)) (input : String) :
    Reads marker '}' input.toList (pieces input) ∧
    (∀ output, substituteEnvVars env input = .ok output ↔
      ∃ values, List.Forall₂ (fun piece value => pieceValue env piece = some value) (pieces input)
        values ∧ output = String.ofList values.flatten) ∧
    ((∃ error, substituteEnvVars env input = .error error) ↔
      ∃ piece ∈ pieces input, Unfilled env piece) ∧
    (¬ "$\x7b".toList <:+: input.toList → substituteEnvVars env input = .ok input) := by
  refine ⟨reads_pieces input, fun output => substituteEnvVars_eq_ok, ?_, ?_⟩
  · have hok : (∃ output, substituteEnvVars env input = .ok output) ↔
        ∀ piece ∈ pieces input, ¬ Unfilled env piece := by
      rw [← exists_forall₂_iff]
      simp only [substituteEnvVars_eq_ok]
      constructor
      · rintro ⟨output, values, hvalues, -⟩
        exact ⟨values, hvalues⟩
      · rintro ⟨values, hvalues⟩
        exact ⟨_, values, hvalues, rfl⟩
    cases hresult : substituteEnvVars env input with
    | error error =>
        rw [hresult] at hok
        refine iff_of_true ⟨error, rfl⟩ ?_
        by_contra hfilled
        obtain ⟨output, houtput⟩ := hok.mpr fun piece hpiece hun => hfilled ⟨piece, hpiece, hun⟩
        cases houtput
    | ok output =>
        refine iff_of_false (by simp) ?_
        rintro ⟨piece, hpiece, hunfilled⟩
        exact hok.mp ⟨output, hresult⟩ piece hpiece hunfilled
  · intro hnone
    have hchars := (reads_pieces input).eq_chars hnone
    rw [substituteEnvVars_eq_ok]
    refine ⟨input.toList.map fun c => [c], ?_, ?_⟩
    · rw [hchars, List.forall₂_map_left_iff, List.forall₂_map_right_iff]
      exact List.forall₂_same.mpr fun c _ => rfl
    · rw [← List.flatMap_def]
      simp

end Results

end Modo.Config
