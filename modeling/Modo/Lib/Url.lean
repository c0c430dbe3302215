import Modo.Lib.Text

/-!
# Parts of a URL

`parse` takes a URL apart at its delimiters.  A parser of URLs then removes the dot segments
of the path (`removeDotSegments`); `%2e` is a dot as well.

A URL is often put together from texts.  What is read back is the host and the path that were
put in exactly when there is no delimiter in the host, no `?` or `#` in the path and no dot
segment (`ofRest_eq_iff`); then the query is read back, too (`query_ofRest`).
-/

/-- The parts of a URL, without the fragment. -/
structure Url where
  scheme : List Char
  authority : List Char
  path : List Char
  query : Option (List Char)
  deriving DecidableEq

namespace Url

/-- A character at which the authority ends. -/
def isDelimiter (c : Char) : Bool := decide (c = '/' ∨ c = '?' ∨ c = '#')

/-- A character at which the path ends. -/
def endsPath (c : Char) : Bool := decide (c = '?' ∨ c = '#')

/-- What stands behind the scheme. -/
def marker : List Char := [':', '/', '/']

/-- The query with its `?`. -/
def queryText : Option (List Char) → List Char
  | none => []
  | some query => '?' :: query

/-- The URL with this scheme and, behind `://`, this text. -/
def ofRest (scheme rest : List Char) : Url where
  scheme := scheme.map Char.toLower
  authority := rest.takeWhile fun c => !isDelimiter c
  path := (rest.dropWhile fun c => !isDelimiter c).takeWhile fun c => !endsPath c
  query :=
    match (rest.dropWhile fun c => !isDelimiter c).dropWhile fun c => !endsPath c with
    | '?' :: query => some (query.takeWhile fun c => c ≠ '#')
    | _ => none

def parse (text : List Char) : Option Url :=
  (Text.splitFirst marker text).map fun (scheme, rest) => ofRest scheme rest

def isSingleDot (segment : List Char) : Bool :=
  decide (segment.map Char.toLower ∈ [['.'], ['%', '2', 'e']])

def isDoubleDot (segment : List Char) : Bool :=
  decide (segment.map Char.toLower ∈
    [['.', '.'], ['.', '%', '2', 'e'], ['%', '2', 'e', '.'], ['%', '2', 'e', '%', '2', 'e']])

/-- The segments of a path without its first `/`, below those that were kept before them. -/
def resolve : List (List Char) → List (List Char) → List (List Char)
  | kept, [] => kept.reverse
  | kept, [last] =>
      -- a dot segment at the end leaves the slash in front of it
      if isDoubleDot last then ([] :: kept.tail).reverse
      else if isSingleDot last then ([] :: kept).reverse
      else (last :: kept).reverse
  | kept, segment :: rest =>
      if isDoubleDot segment then resolve kept.tail rest
      else if isSingleDot segment then resolve kept rest
      else resolve (segment :: kept) rest

/-- The path without its dot segments. -/
def removeDotSegments : List Char → List Char
  | [] => []
  | slash :: path => slash :: ['/'].intercalate (resolve [] (path.splitOn '/'))

/-- A segment that is no dot segment. -/
def IsPlain (segment : List Char) : Prop :=
  isSingleDot segment = false ∧ isDoubleDot segment = false

instance : DecidablePred IsPlain := fun _ => inferInstanceAs (Decidable (_ ∧ _))

/-! ## Dot segments -/

theorem isPlain_nil : IsPlain [] := by decide

/-- What is left is no dot segment. -/
theorem mem_resolve {kept segments : List (List Char)} {segment : List Char}
    (hmem : segment ∈ resolve kept segments) :
    segment ∈ kept ∨ segment = [] ∨ segment ∈ segments ∧ IsPlain segment := by
  fun_induction resolve kept segments with
  | case1 kept => exact .inl (List.mem_reverse.mp hmem)
  | case2 kept last hdouble =>
      rcases List.mem_cons.mp (List.mem_reverse.mp hmem) with hnil | hkept
      · exact .inr (.inl hnil)
      · exact .inl (List.mem_of_mem_tail hkept)
  | case3 kept last hdouble hsingle =>
      rcases List.mem_cons.mp (List.mem_reverse.mp hmem) with hnil | hkept
      · exact .inr (.inl hnil)
      · exact .inl hkept
  | case4 kept last hdouble hsingle =>
      rcases List.mem_cons.mp (List.mem_reverse.mp hmem) with rfl | hkept
      · exact .inr (.inr ⟨List.mem_cons_self, by simpa using hsingle, by simpa using hdouble⟩)
      · exact .inl hkept
  | case5 kept first rest hne hdouble ih =>
      rcases ih hmem with hkept | hnil | ⟨hrest, hplain⟩
      · exact .inl (List.mem_of_mem_tail hkept)
      · exact .inr (.inl hnil)
      · exact .inr (.inr ⟨List.mem_cons_of_mem first hrest, hplain⟩)
  | case6 kept first rest hne hdouble hsingle ih =>
      rcases ih hmem with hkept | hnil | ⟨hrest, hplain⟩
      · exact .inl hkept
      · exact .inr (.inl hnil)
      · exact .inr (.inr ⟨List.mem_cons_of_mem first hrest, hplain⟩)
  | case7 kept first rest hne hdouble hsingle ih =>
      rcases ih hmem with hkept | hnil | ⟨hrest, hplain⟩
      · rcases List.mem_cons.mp hkept with rfl | hkept
        · exact .inr (.inr ⟨List.mem_cons_self, by simpa using hsingle, by simpa using hdouble⟩)
        · exact .inl hkept
      · exact .inr (.inl hnil)
      · exact .inr (.inr ⟨List.mem_cons_of_mem first hrest, hplain⟩)

theorem resolve_ne_nil {kept segments : List (List Char)} (hne : segments ≠ []) :
    resolve kept segments ≠ [] := by
  fun_induction resolve kept segments with
  | case1 kept => exact absurd rfl hne
  | case2 kept last hdouble => simp
  | case3 kept last hdouble hsingle => simp
  | case4 kept last hdouble hsingle => simp
  | case5 kept first rest hrest hdouble ih => exact ih hrest
  | case6 kept first rest hrest hdouble hsingle ih => exact ih hrest
  | case7 kept first rest hrest hdouble hsingle ih => exact ih hrest

/-- Without dot segments all is kept. -/
theorem resolve_of_plain {kept segments : List (List Char)}
    (hplain : ∀ segment ∈ segments, IsPlain segment) :
    resolve kept segments = kept.reverse ++ segments := by
  induction segments generalizing kept with
  | nil => simp [resolve]
  | cons first rest ih =>
      rw [List.forall_mem_cons] at hplain
      obtain ⟨⟨hsingle, hdouble⟩, hrest⟩ := hplain
      cases rest with
      | nil => simp [resolve, hsingle, hdouble]
      | cons second rest =>
          rw [resolve, hdouble, if_neg Bool.false_ne_true, hsingle, if_neg Bool.false_ne_true,
            ih hrest]
          · simp
          · simp

/-- **A path is kept exactly when it has no dot segment.** -/
theorem removeDotSegments_eq_self_iff (path : List Char) :
    removeDotSegments ('/' :: path) = '/' :: path ↔
      ∀ segment ∈ path.splitOn '/', IsPlain segment := by
  -- what is kept has no slash, so its segments can be read back
  have hslash : ∀ segment ∈ resolve [] (path.splitOn '/'), '/' ∉ segment := by
    intro segment hsegment
    rcases mem_resolve hsegment with hkept | rfl | ⟨hmem, -⟩
    · cases hkept
    · exact List.not_mem_nil
    · exact Text.notMem_of_mem_splitOn hmem
  have hne : resolve [] (path.splitOn '/') ≠ [] := resolve_ne_nil (List.splitOn_ne_nil _ _)
  rw [removeDotSegments, List.cons.injEq, and_iff_right rfl]
  constructor
  · intro hself
    have hsame : path.splitOn '/' = resolve [] (path.splitOn '/') := by
      conv_lhs => rw [← hself]
      exact List.splitOn_intercalate '/' hslash hne
    intro segment hsegment
    rw [hsame] at hsegment
    rcases mem_resolve hsegment with hkept | rfl | ⟨-, hplain⟩
    · cases hkept
    · exact isPlain_nil
    · exact hplain
  · intro hplain
    rw [resolve_of_plain hplain]
    exact List.intercalate_splitOn '/'

/-- No character is new. -/
theorem mem_removeDotSegments {path : List Char} {c : Char} (hc : c ∈ removeDotSegments path) :
    c ∈ path ∨ c = '/' := by
  cases path with
  | nil => exact .inl hc
  | cons slash path =>
      rcases List.mem_cons.mp hc with rfl | hc
      · exact .inl List.mem_cons_self
      rcases Text.mem_intercalate hc with hslash | ⟨segment, hsegment, hc⟩
      · exact .inr (List.mem_singleton.mp hslash)
      rcases mem_resolve hsegment with hkept | rfl | ⟨hmem, -⟩
      · cases hkept
      · cases hc
      · have hpath : c ∈ ['/'].intercalate (path.splitOn '/') :=
          Text.mem_intercalate_of_mem hmem hc
        rw [List.intercalate_splitOn] at hpath
        exact .inl (List.mem_cons_of_mem slash hpath)

/-! ## Texts that are put together -/

theorem takeWhile_append_cons_eq_iff {α : Type*} {p : α → Bool} {x : α} (hx : p x = false)
    (xs ys : List α) : (xs ++ x :: ys).takeWhile p = xs ↔ ∀ y ∈ xs, p y = true := by
  constructor
  · intro heq y hy
    rw [← heq] at hy
    exact List.mem_takeWhile_imp hy
  · intro hxs
    rw [List.takeWhile_append_of_pos hxs, List.takeWhile_cons_of_neg (by simp [hx]),
      List.append_nil]

variable {scheme host path : List Char} {query : Option (List Char)}

theorem authority_ofRest_iff (rest : List Char) :
    (ofRest scheme (host ++ '/' :: rest)).authority = host ↔
      ∀ c ∈ host, isDelimiter c = false := by
  have hread := @takeWhile_append_cons_eq_iff _ (fun c => !isDelimiter c) '/' (by decide) host rest
  simpa only [ofRest, Bool.not_eq_true'] using hread

/-- The path is read up to its end. -/
theorem path_ofRest (hhost : ∀ c ∈ host, isDelimiter c = false) (rest : List Char) :
    (ofRest scheme (host ++ '/' :: rest)).path =
      '/' :: rest.takeWhile fun c => !endsPath c := by
  have hpass : ∀ c ∈ host, (!isDelimiter c) = true := by simpa using hhost
  rw [ofRest, List.dropWhile_append_of_pos hpass, List.dropWhile_cons_of_neg (by decide),
    List.takeWhile_cons_of_pos (by decide)]

theorem takeWhile_queryText (hpath : ∀ c ∈ path, endsPath c = false)
    (query : Option (List Char)) :
    (path ++ queryText query).takeWhile (fun c => !endsPath c) = path := by
  have hpass : ∀ c ∈ path, (!endsPath c) = true := by simpa using hpath
  rw [List.takeWhile_append_of_pos hpass]
  cases query with
  | none => simp [queryText]
  | some query => rw [queryText, List.takeWhile_cons_of_neg (by decide), List.append_nil]

/-- **Host and path are read back exactly when nothing in them ends them and no segment is
removed.** -/
theorem ofRest_eq_iff (scheme host path : List Char) (query : Option (List Char)) :
    ((ofRest scheme (host ++ '/' :: (path ++ queryText query))).authority = host ∧
        removeDotSegments (ofRest scheme (host ++ '/' :: (path ++ queryText query))).path =
          '/' :: path) ↔
      (∀ c ∈ host, isDelimiter c = false) ∧ (∀ c ∈ path, endsPath c = false) ∧
        ∀ segment ∈ path.splitOn '/', IsPlain segment := by
  rw [authority_ofRest_iff]
  apply and_congr_right
  intro hhost
  rw [path_ofRest hhost]
  constructor
  · intro hself
    -- what is read has no character that ends it
    have hpath : ∀ c ∈ path, endsPath c = false := by
      intro c hc
      have hmem : c ∈ '/' :: path := List.mem_cons_of_mem '/' hc
      rw [← hself] at hmem
      rcases mem_removeDotSegments hmem with hread | rfl
      · rcases List.mem_cons.mp hread with rfl | hread
        · decide
        · simpa using List.mem_takeWhile_imp hread
      · decide
    rw [takeWhile_queryText hpath, removeDotSegments_eq_self_iff] at hself
    exact ⟨hpath, hself⟩
  · rintro ⟨hpath, hplain⟩
    rw [takeWhile_queryText hpath, removeDotSegments_eq_self_iff]
    exact hplain

/-- Then the query is read back as well. -/
theorem query_ofRest (hhost : ∀ c ∈ host, isDelimiter c = false)
    (hpath : ∀ c ∈ path, endsPath c = false) (hquery : ∀ text ∈ query, '#' ∉ text) :
    (ofRest scheme (host ++ '/' :: (path ++ queryText query))).query = query := by
  have hpassHost : ∀ c ∈ host, (!isDelimiter c) = true := by simpa using hhost
  have hpassPath : ∀ c ∈ path, (!endsPath c) = true := by simpa using hpath
  rw [ofRest, List.dropWhile_append_of_pos hpassHost, List.dropWhile_cons_of_neg (by decide),
    List.dropWhile_cons_of_pos (by decide), List.dropWhile_append_of_pos hpassPath]
  cases query with
  | none => rfl
  | some text =>
      have htext : ∀ c ∈ text, decide (c ≠ '#') = true := by
        intro c hc
        rw [decide_eq_true_eq]
        rintro rfl
        exact hquery text rfl hc
      rw [queryText, List.dropWhile_cons_of_neg (by decide)]
      exact congrArg some (List.takeWhile_eq_self_iff.mpr htext)

/-! ## Reading a URL -/

theorem splitFirst_marker {written : List Char} (hwritten : ':' ∉ written) (rest : List Char) :
    Text.splitFirst marker (written ++ (marker ++ rest)) = some (written, rest) := by
  have hnext := Text.splitFirst_of_isPrefix (List.cons_ne_nil ':' ['/', '/']) rest
  rw [marker, Text.splitFirst_append_of_notMem hwritten, hnext]
  simp

theorem parse_marker {written : List Char} (hwritten : ':' ∉ written) (rest : List Char) :
    parse (written ++ (marker ++ rest)) = some (ofRest written rest) := by
  rw [parse, splitFirst_marker hwritten]
  rfl

theorem isDelimiter_authority {text : List Char} {url : Url} (hparse : parse text = some url) :
    ∀ c ∈ url.authority, isDelimiter c = false := by
  obtain ⟨⟨written, rest⟩, -, rfl⟩ := Option.map_eq_some_iff.mp hparse
  intro c hc
  simpa using List.mem_takeWhile_imp hc

theorem authority_ofRest {rest : List Char} (hrest : ∀ c ∈ rest, isDelimiter c = false)
    (scheme : List Char) : (ofRest scheme rest).authority = rest :=
  List.takeWhile_eq_self_iff.mpr fun c hc => by simp [hrest c hc]

end Url
