import Modo.Lib.Template

/-!
# Arguments of a translation

`interpolate` puts the arguments of a translation in the place of `{key}`.  An opening brace that is
never closed, a closing brace without an opening one and a key without an argument are copied.

An empty pair of braces is taken for an opening brace without a closing one, and its closing brace
is lost.  `interpolate_eq_iff` says that this is the only difference.
-/

namespace Modo.I18n

open Template (Piece Reads)

/-! ## The scanner -/

section Scanner

variable (kwargs : List (String × String))

/-- The first argument with this key. -/
def findArg (key : List Char) : Option (List Char) :=
  (kwargs.find? fun arg => decide (arg.1.toList = key)).map fun arg => arg.2.toList

/-- The loop over the characters. -/
def interpolateLoop (result : List Char) : List Char → List Char
  | [] => result
  | ch :: rest =>
      if ch = '\x7b' then
        match _htaken : Template.takeUntil '}' [] rest with
        | (key, foundClose, after) =>
            if foundClose = true ∧ key ≠ [] then
              match findArg kwargs key with
              | some val => interpolateLoop (result ++ val) after
              | none => interpolateLoop (result ++ ['\x7b'] ++ key ++ ['}']) after
            else interpolateLoop (result ++ ['\x7b'] ++ key) after
      else interpolateLoop (result ++ [ch]) rest
termination_by text => text.length
decreasing_by
  all_goals first
    | exact Nat.lt_succ_self _
    | have hle := Template.length_takeUntil_le '}' [] rest
      rw [_htaken] at hle
      exact Nat.lt_succ_of_le hle

def interpolate (template : String) : String :=
  String.ofList (interpolateLoop kwargs [] template.toList)

end Scanner

/-! ## The reading of a template -/

def pieces (template : String) : List (Piece Char) :=
  Template.read ['\x7b'] '}' (by decide) template.toList

theorem reads_pieces (template : String) :
    Reads ['\x7b'] '}' template.toList (pieces template) :=
  Template.reads_read (by decide) template.toList

/-- A placeholder with an argument stands for its value, everything else for itself. -/
def expand (kwargs : List (String × String)) (piece : Piece Char) : List Char :=
  match piece with
  | .hole key => (findArg kwargs key).getD (piece.text ['\x7b'] '}')
  | other => other.text ['\x7b'] '}'

/-- What the loop makes of a part of the template. -/
def loopExpand (kwargs : List (String × String)) (piece : Piece Char) : List Char :=
  if piece = .hole [] then ['\x7b'] else expand kwargs piece

section Results

variable {kwargs : List (String × String)}

theorem interpolateLoop_hole {key : List Char} (hkey : '}' ∉ key) (result rest : List Char) :
    interpolateLoop kwargs result (['\x7b'] ++ (key ++ '}' :: rest)) =
      interpolateLoop kwargs (result ++ loopExpand kwargs (.hole key)) rest := by
  have htaken : Template.takeUntil '}' [] (key ++ '}' :: rest) = (key, true, rest) :=
    Template.takeUntil_of_notMem '}' hkey [] rest
  rw [List.singleton_append, interpolateLoop, if_pos rfl]
  split
  rename_i taken foundClose after hresult
  rw [htaken, Prod.mk.injEq, Prod.mk.injEq] at hresult
  obtain ⟨rfl, rfl, rfl⟩ := hresult
  by_cases hempty : key = []
  · rw [if_neg (by simp [hempty]), loopExpand, if_pos (by rw [hempty]), hempty, List.append_nil]
  · rw [if_pos ⟨rfl, hempty⟩, loopExpand, if_neg (by simpa using hempty), expand]
    cases findArg kwargs key with
    | some val => rfl
    | none => simp [Piece.text]

theorem interpolateLoop_unclosed {rest : List Char} (hrest : '}' ∉ rest) (result : List Char) :
    interpolateLoop kwargs result (['\x7b'] ++ rest) =
      result ++ loopExpand kwargs (.unclosed rest) := by
  have htaken : Template.takeUntil '}' [] rest = (rest, false, []) :=
    Template.takeUntil_eq_self '}' hrest []
  rw [List.singleton_append, interpolateLoop, if_pos rfl]
  split
  rename_i taken foundClose after hresult
  rw [htaken, Prod.mk.injEq, Prod.mk.injEq] at hresult
  obtain ⟨rfl, rfl, rfl⟩ := hresult
  rw [if_neg (by simp), interpolateLoop, loopExpand, if_neg (by simp)]
  simp [expand, Piece.text]

/-- The loop makes something of every part, one after the other. -/
theorem interpolateLoop_reads {text : List Char} {parts : List (Piece Char)}
    (hreads : Reads ['\x7b'] '}' text parts) (result : List Char) :
    interpolateLoop kwargs result text = result ++ parts.flatMap (loopExpand kwargs) := by
  induction hreads generalizing result with
  | nil => rw [interpolateLoop, List.flatMap_nil, List.append_nil]
  | @char ch rest parts hstart hrest ih =>
      have hch : ch ≠ '\x7b' := by
        rintro rfl
        exact hstart (List.prefix_append ['\x7b'] rest)
      rw [interpolateLoop, if_neg hch, ih, List.flatMap_cons, List.append_assoc]
      rfl
  | hole hkey hrest ih =>
      rw [interpolateLoop_hole hkey, ih, List.flatMap_cons, List.append_assoc]
  | unclosed hrest =>
      rw [interpolateLoop_unclosed hrest, List.flatMap_cons, List.flatMap_nil, List.append_nil]

theorem toList_interpolate (template : String) :
    (interpolate kwargs template).toList = (pieces template).flatMap (loopExpand kwargs) := by
  rw [interpolate, String.toList_ofList, interpolateLoop_reads (reads_pieces template),
    List.nil_append]

/-- **Interpolation.**  The result is the template with its placeholders filled exactly when no
placeholder is empty, or the argument with the empty key happens to be an opening brace. -/
theorem interpolate_eq_iff (kwargs : List (String × String)) (template : String) :
    (interpolate kwargs template).toList = (pieces template).flatMap (expand kwargs) ↔
      .hole [] ∉ pieces template ∨ findArg kwargs [] = some ['\x7b'] := by
  have hagree : ∀ piece, piece ≠ .hole [] → loopExpand kwargs piece = expand kwargs piece :=
    fun piece hpiece => if_neg hpiece
  have hempty : loopExpand kwargs (.hole []) = expand kwargs (.hole []) ↔
      findArg kwargs [] = some ['\x7b'] := by
    rw [loopExpand, if_pos rfl, expand]
    cases findArg kwargs [] with
    | some val => simp [eq_comm]
    | none => simp [Piece.text]
  rw [toList_interpolate, Template.flatMap_eq_iff hagree, hempty]

/-- Without arguments every part stands for itself. -/
theorem flatMap_expand_nil (template : String) :
    (pieces template).flatMap (expand []) = template.toList := by
  have htext := (reads_pieces template).text_eq
  have hexpand : expand [] = Piece.text ['\x7b'] '}' := by
    funext piece
    cases piece <;> rfl
  rw [hexpand, htext]

/-- An empty pair of braces loses its closing brace. -/
theorem interpolate_emptyBraces :
    interpolate [] "a \x7b\x7d b" = "a \x7b b" ∧
      (interpolate [] "a \x7b\x7d b").toList ≠ (pieces "a \x7b\x7d b").flatMap (expand []) := by
  have hresult : interpolate [] "a \x7b\x7d b" = "a \x7b b" := by
    simp [interpolate, interpolateLoop, Template.takeUntil]
  rw [hresult, flatMap_expand_nil]
  exact ⟨rfl, by decide⟩

end Results

end Modo.I18n
