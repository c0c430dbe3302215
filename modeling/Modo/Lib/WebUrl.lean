import Modo.Lib.Url
import Modo.Lib.Utf8

/-!
# Reading a URL as a browser does

`read` takes a URL with an authority apart.  What surrounds the text is stripped, line breaks
and tabs in it are dropped, a backslash is a slash if the scheme is special, and the dot
segments of the path are resolved.  The characters that a parser percent-encodes stay as they
are, since what is of interest is the path with all percent-encoding undone
(`percentDecode`).

Of a text that is put together from a base and a path, `read_append` says how the path is
read below the base, and `readPath_eq_iff` when it is read as it was meant.
-/

/-- The parts of a URL. -/
structure WebUrl where
  scheme : List Char
  authority : List Char
  path : List Char
  query : Option (List Char)
  fragment : Option (List Char)
  deriving DecidableEq

namespace WebUrl

open Url (endsPath resolve IsPlain)

/-! ## Percent-encoding -/

def hexValue (c : Char) : Option ℕ :=
  if '0' ≤ c ∧ c ≤ '9' then some (c.toNat - 48)
  else if 'a' ≤ c ∧ c ≤ 'f' then some (c.toNat - 87)
  else if 'A' ≤ c ∧ c ≤ 'F' then some (c.toNat - 55)
  else none

/-- The byte of two digits. -/
def hexByte (first second : Char) : Option UInt8 := do
  let high ← hexValue first
  let low ← hexValue second
  return UInt8.ofNat (16 * high + low)

def utf8 (text : List Char) : List UInt8 := text.flatMap String.utf8EncodeChar

/-- The bytes of a text, with its escapes undone. -/
def percentDecode : List Char → List UInt8
  | '%' :: first :: second :: rest =>
      match hexByte first second with
      | some byte => byte :: percentDecode rest
      | none => String.utf8EncodeChar '%' ++ percentDecode (first :: second :: rest)
  | c :: rest => String.utf8EncodeChar c ++ percentDecode rest
  | [] => []

/-- There is a `%` with two digits behind it. -/
def hasEscape : List Char → Bool
  | '%' :: first :: second :: rest =>
      (hexByte first second).isSome || hasEscape (first :: second :: rest)
  | _ :: rest => hasEscape rest
  | [] => false

@[simp] theorem utf8_nil : utf8 [] = [] := rfl

@[simp] theorem utf8_cons (c : Char) (text : List Char) :
    utf8 (c :: text) = String.utf8EncodeChar c ++ utf8 text := rfl

@[simp] theorem utf8_append (first second : List Char) :
    utf8 (first ++ second) = utf8 first ++ utf8 second := List.flatMap_append

theorem utf8_injective : Function.Injective utf8 := by
  intro first second heq
  have hsame : Utf8.asBytes (String.ofList first) = Utf8.asBytes (String.ofList second) := by
    simpa [Utf8.asBytes, utf8] using heq
  simpa using congrArg String.toList (Utf8.asBytes_injective hsame)

theorem length_utf8EncodeChar_pos (c : Char) : 1 ≤ (String.utf8EncodeChar c).length :=
  List.length_pos_iff.mpr String.utf8EncodeChar_ne_nil

theorem length_le_utf8 (text : List Char) : text.length ≤ (utf8 text).length := by
  induction text with
  | nil => exact Nat.le_refl 0
  | cons c text ih =>
      have hc := length_utf8EncodeChar_pos c
      rw [utf8_cons, List.length_append, List.length_cons]
      omega

/-- Decoding only shortens. -/
theorem length_percentDecode_le (text : List Char) :
    (percentDecode text).length ≤ (utf8 text).length := by
  fun_induction percentDecode text with
  | case1 first second rest byte hbyte ih =>
      have hfirst := length_utf8EncodeChar_pos first
      simp only [List.length_cons, utf8_cons, List.length_append]
      omega
  | case2 first second rest hbyte ih =>
      rw [utf8_cons, List.length_append, List.length_append]
      omega
  | case3 c rest hne ih =>
      rw [utf8_cons, List.length_append, List.length_append]
      omega
  | case4 => exact Nat.le_refl 0

/-- A text without an escape is decoded to itself, and no other one keeps its length. -/
theorem length_percentDecode_lt {text : List Char} (hescape : hasEscape text = true) :
    (percentDecode text).length < (utf8 text).length := by
  fun_induction percentDecode text with
  | case1 first second rest byte hbyte ih =>
      have hfirst := length_utf8EncodeChar_pos first
      have hrest := length_percentDecode_le rest
      have hpercent := length_utf8EncodeChar_pos '%'
      simp only [List.length_cons, utf8_cons, List.length_append]
      omega
  | case2 first second rest hbyte ih =>
      rw [hasEscape, hbyte] at hescape
      have hrest := ih (by simpa using hescape)
      rw [utf8_cons, List.length_append, List.length_append]
      omega
  | case3 c rest hne ih =>
      rw [hasEscape.eq_2 _ _ hne] at hescape
      have hrest := ih hescape
      rw [utf8_cons, List.length_append, List.length_append]
      omega
  | case4 => cases hescape

theorem percentDecode_of_not_hasEscape {text : List Char} (hescape : hasEscape text = false) :
    percentDecode text = utf8 text := by
  fun_induction percentDecode text with
  | case1 first second rest byte hbyte ih => simp [hasEscape, hbyte] at hescape
  | case2 first second rest hbyte ih =>
      rw [hasEscape, hbyte] at hescape
      rw [ih (by simpa using hescape)]
      rfl
  | case3 c rest hne ih =>
      rw [hasEscape.eq_2 _ _ hne] at hescape
      rw [ih hescape, utf8_cons]
  | case4 => rfl

/-! ## Reading -/

/-- A control character or a space, as it is stripped from both ends. -/
def isSurrounding (c : Char) : Bool := decide (c.toNat ≤ 32)

/-- A tab or a line break. -/
def isDropped (c : Char) : Bool := decide (c = '\t' ∨ c = '\n' ∨ c = '\r')

def clean (text : List Char) : List Char :=
  ((text.dropWhile isSurrounding).rdropWhile isSurrounding).filter fun c => !isDropped c

def isScheme (text : List Char) : Bool :=
  match text with
  | [] => false
  | first :: rest =>
      first.isAlpha && rest.all fun c => c.isAlphanum || decide (c = '+' ∨ c = '-' ∨ c = '.')

/-- The special schemes, but for `file`, whose URLs are read in their own way. -/
def isSpecial (scheme : List Char) : Bool :=
  decide (scheme ∈ ["http".toList, "https".toList, "ws".toList, "wss".toList, "ftp".toList])

def isSlash (special : Bool) (c : Char) : Bool := decide (c = '/') || special && decide (c = '\\')

/-- A character at which the authority ends. -/
def endsAuthority (special : Bool) (c : Char) : Bool := isSlash special c || endsPath c

/-- A backslash as the slash that it is. -/
def slashed (special : Bool) (text : List Char) : List Char :=
  text.map fun c => if isSlash special c then '/' else c

/-- The path behind the authority, without its dot segments. -/
def resolved (special : Bool) (path : List Char) : List Char :=
  match path with
  | [] => if special then ['/'] else []
  | _ :: path => '/' :: ['/'].intercalate (resolve [] ((slashed special path).splitOn '/'))

/-- The query and the fragment behind a path. -/
def readEnd (text : List Char) : Option (List Char) × Option (List Char) :=
  match text with
  | '?' :: text =>
      (some (text.takeWhile (· ≠ '#')),
        match text.dropWhile (· ≠ '#') with
        | _ :: fragment => some fragment
        | [] => none)
  | '#' :: fragment => (none, some fragment)
  | _ => (none, none)

section Read

-- whether a text is the authority of a URL with the scheme
variable (accepts : List Char → List Char → Bool)

/-- The URL with this text behind the authority. -/
def assemble (scheme authority behind : List Char) : WebUrl where
  scheme := scheme
  authority := authority
  path := resolved (isSpecial scheme) (behind.takeWhile fun c => !endsPath c)
  query := (readEnd (behind.dropWhile fun c => !endsPath c)).1
  fragment := (readEnd (behind.dropWhile fun c => !endsPath c)).2

/-- What stands behind the slashes. -/
def readBody (scheme body : List Char) : Option WebUrl :=
  let authority := body.takeWhile fun c => !endsAuthority (isSpecial scheme) c
  let behind := body.dropWhile fun c => !endsAuthority (isSpecial scheme) c
  if accepts scheme authority = true ∧ ¬ (isSpecial scheme = true ∧ authority = []) then
    some (assemble scheme authority behind)
  else none

/-- What stands behind the colon; a special scheme has any number of slashes there. -/
def afterColon (scheme text : List Char) : Option (List Char) :=
  if isSpecial scheme then some (text.dropWhile (isSlash true))
  else if ['/', '/'].isPrefixOf text then some (text.drop 2)
  else none

def readClean (text : List Char) : Option WebUrl := do
  let (scheme, rest) ← Utf8.splitOnce ':' text
  if isScheme scheme = true ∧ scheme.map Char.toLower ≠ "file".toList then
    let body ← afterColon (scheme.map Char.toLower) rest
    readBody accepts (scheme.map Char.toLower) body
  else none

/-- A URL with an authority. -/
def read (text : List Char) : Option WebUrl := readClean accepts (clean text)

end Read

/-! ## Segments -/

/-- The stack of segments after one more, with others to follow. -/
def push (kept : List (List Char)) (segment : List Char) : List (List Char) :=
  if Url.isDoubleDot segment then kept.tail
  else if Url.isSingleDot segment then kept
  else segment :: kept

theorem resolve_cons {kept : List (List Char)} {segment : List Char} {rest : List (List Char)}
    (hrest : rest ≠ []) : resolve kept (segment :: rest) = resolve (push kept segment) rest := by
  obtain ⟨next, rest, rfl⟩ := List.exists_cons_of_ne_nil hrest
  rw [resolve, push]
  · split
    · rfl
    · split <;> rfl
  · simp

theorem resolve_append (kept segments : List (List Char)) {rest : List (List Char)}
    (hrest : rest ≠ []) :
    resolve kept (segments ++ rest) = resolve (segments.foldl push kept) rest := by
  induction segments generalizing kept with
  | nil => rfl
  | cons segment segments ih =>
      rw [List.cons_append, resolve_cons (by simp [hrest]), ih, List.foldl_cons]

/-- What segments take up, with a slash each. -/
def size (segments : List (List Char)) : ℕ :=
  (segments.map fun segment => (utf8 segment).length + 1).sum

theorem size_cons (segment : List Char) (segments : List (List Char)) :
    size (segment :: segments) = (utf8 segment).length + 1 + size segments := by
  simp [size]

theorem size_reverse (segments : List (List Char)) : size segments.reverse = size segments := by
  simp [size, List.sum_reverse]

theorem size_tail_le (segments : List (List Char)) : size segments.tail ≤ size segments := by
  cases segments with
  | nil => exact Nat.le_refl _
  | cons segment segments =>
      rw [size_cons, List.tail_cons]
      exact Nat.le_add_left _ _

theorem length_utf8_intercalate {segments : List (List Char)} (hne : segments ≠ []) :
    (utf8 (['/'].intercalate segments)).length + 1 = size segments := by
  induction segments with
  | nil => exact absurd rfl hne
  | cons segment segments ih =>
      cases segments with
      | nil => simp [size]
      | cons next segments =>
          rw [List.intercalate_cons_cons, size_cons, ← ih (by simp)]
          have hslash : (String.utf8EncodeChar '/').length = 1 := by decide
          simp [hslash]
          omega

/-- A dot segment is not empty. -/
theorem length_pos_of_dot {segment : List Char}
    (hdot : Url.isDoubleDot segment = true ∨ Url.isSingleDot segment = true) :
    1 ≤ (utf8 segment).length := by
  cases segment with
  | nil => rcases hdot with h | h <;> cases h
  | cons c segment =>
      have hlength := length_le_utf8 (c :: segment)
      rw [List.length_cons] at hlength
      omega

theorem size_resolve_le (kept segments : List (List Char)) :
    size (resolve kept segments) ≤ size kept + size segments := by
  fun_induction resolve kept segments with
  | case1 kept => rw [size_reverse]; exact Nat.le_add_right _ _
  | case2 kept last hdouble =>
      have htail := size_tail_le kept
      simp only [size_reverse, size_cons, utf8_nil, List.length_nil]
      omega
  | case3 kept last hdouble hsingle =>
      simp only [size_reverse, size_cons, utf8_nil, List.length_nil]
      omega
  | case4 kept last hdouble hsingle =>
      simp only [size_reverse, size_cons]
      omega
  | case5 kept first rest hne hdouble ih =>
      have htail := size_tail_le kept
      rw [size_cons]
      omega
  | case6 kept first rest hne hdouble hsingle ih =>
      rw [size_cons]
      omega
  | case7 kept first rest hne hdouble hsingle ih =>
      rw [size_cons] at ih ⊢
      omega

/-- A dot segment is lost. -/
theorem size_resolve_lt (kept : List (List Char)) {segments : List (List Char)}
    (hdot : ∃ segment ∈ segments, ¬ IsPlain segment) :
    size (resolve kept segments) < size kept + size segments := by
  obtain ⟨segment, hmem, hdot⟩ := hdot
  fun_induction resolve kept segments with
  | case1 kept => cases hmem
  | case2 kept last hdouble =>
      have htail := size_tail_le kept
      have hlast := length_pos_of_dot (.inl hdouble)
      simp only [size_reverse, size_cons, utf8_nil, List.length_nil]
      omega
  | case3 kept last hdouble hsingle =>
      have hlast := length_pos_of_dot (.inr hsingle)
      simp only [size_reverse, size_cons, utf8_nil, List.length_nil]
      omega
  | case4 kept last hdouble hsingle =>
      rw [List.mem_singleton.mp hmem] at hdot
      exact absurd ⟨by simpa using hsingle, by simpa using hdouble⟩ hdot
  | case5 kept first rest hne hdouble ih =>
      have htail := size_tail_le kept
      have hrest := size_resolve_le kept.tail rest
      rw [size_cons]
      omega
  | case6 kept first rest hne hdouble hsingle ih =>
      have hrest := size_resolve_le kept rest
      rw [size_cons]
      omega
  | case7 kept first rest hne hdouble hsingle ih =>
      rcases List.mem_cons.mp hmem with rfl | hmem
      · exact absurd ⟨by simpa using hsingle, by simpa using hdouble⟩ hdot
      · have hrest := ih hmem
        rw [size_cons] at hrest ⊢
        omega

/-! ## Paths below a directory -/

/-- The path of a directory with these segments, the last one first. -/
def directory (kept : List (List Char)) : List Char :=
  '/' :: ['/'].intercalate (kept.reverse ++ [[]])

/-- The path that a text is read as below the directory. -/
def below (special : Bool) (kept : List (List Char)) (text : List Char) : List Char :=
  '/' :: ['/'].intercalate (resolve kept ((slashed special text).splitOn '/'))

/-- The text stands for itself in a URL. -/
structure Written (special : Bool) (text : List Char) : Prop where
  notEnd : ∀ c ∈ text, endsPath c = false
  noSpace : ∀ c ∈ text.getLast?, isSurrounding c = false
  noEscape : hasEscape text = false
  noBackslash : special = true → '\\' ∉ text
  plain : ∀ segment ∈ text.splitOn '/', IsPlain segment

theorem length_utf8_slashed (special : Bool) (text : List Char) :
    (utf8 (slashed special text)).length = (utf8 text).length := by
  induction text with
  | nil => rfl
  | cons c text ih =>
      have hc : (String.utf8EncodeChar (if isSlash special c then '/' else c)).length =
          (String.utf8EncodeChar c).length := by
        split
        · rename_i hslash
          rcases Bool.or_eq_true_iff.mp hslash with hslash | hslash
          · rw [of_decide_eq_true hslash]
          · rw [of_decide_eq_true (Bool.and_eq_true_iff.mp hslash).2]
            decide
        · rfl
      rw [slashed] at ih
      rw [slashed, List.map_cons, utf8_cons, List.length_append, hc, ih, utf8_cons,
        List.length_append]

/-- Only a backslash of a special URL is read as something else. -/
theorem slashed_eq_self_iff {special : Bool} {text : List Char} :
    slashed special text = text ↔ (special = true → '\\' ∉ text) := by
  have hid : slashed special text = text ↔
      ∀ c ∈ text, (if isSlash special c then '/' else c) = c := by
    have hsame := @List.map_inj_left _ _ text (fun c => if isSlash special c then '/' else c) id
    rwa [List.map_id] at hsame
  rw [hid]
  constructor
  · rintro hall rfl hmem
    exact absurd (hall _ hmem) (by decide)
  · intro hno c hc
    split
    · rename_i hslash
      rcases Bool.or_eq_true_iff.mp hslash with hslash | hslash
      · exact (of_decide_eq_true hslash).symm
      · have hback := Bool.and_eq_true_iff.mp hslash
        rw [of_decide_eq_true hback.2] at hc
        exact absurd hc (hno hback.1)
    · rfl

/-- The segments above a text in a directory stay in front of it. -/
theorem intercalate_append {first second : List (List Char)} (hsecond : second ≠ []) :
    ['/'].intercalate (first ++ second) =
      ['/'].intercalate (first ++ [[]]) ++ ['/'].intercalate second := by
  induction first with
  | nil => simp
  | cons segment first ih =>
      have hne : first ++ second ≠ [] := by simp [hsecond]
      obtain ⟨next, rest, hcons⟩ := List.exists_cons_of_ne_nil hne
      obtain ⟨next', rest', hcons'⟩ := List.exists_cons_of_ne_nil (l := first ++ [[]]) (by simp)
      rw [List.cons_append, List.cons_append, hcons, hcons', List.intercalate_cons_cons,
        List.intercalate_cons_cons, ← hcons, ← hcons', ih]
      simp

/-- A text that stands for itself is found below the directory. -/
theorem below_of_written {special : Bool} {text : List Char} (hwritten : Written special text)
    (kept : List (List Char)) : below special kept text = directory kept ++ text := by
  rw [below, slashed_eq_self_iff.mpr hwritten.noBackslash, Url.resolve_of_plain hwritten.plain,
    intercalate_append (List.splitOn_ne_nil _ _), List.intercalate_splitOn, directory,
    List.cons_append]

/-- The bytes below the directory are no more than those of the text, and fewer if a dot segment
is lost. -/
theorem length_below {special : Bool} {kept : List (List Char)} {text rest : List Char}
    (hbelow : below special kept text = directory kept ++ rest) :
    (utf8 rest).length ≤ (utf8 text).length ∧
      ((utf8 text).length ≤ (utf8 rest).length →
        ∀ segment ∈ (slashed special text).splitOn '/', IsPlain segment) := by
  have hsegments := List.splitOn_ne_nil '/' (slashed special text)
  have hresolve : resolve kept ((slashed special text).splitOn '/') ≠ [] :=
    Url.resolve_ne_nil hsegments
  have hread := length_utf8_intercalate hresolve
  have hdirectory : (utf8 (['/'].intercalate (kept.reverse ++ [[]]))).length + 1 =
      size (kept.reverse ++ [[]]) := length_utf8_intercalate (by simp)
  have hwritten := length_utf8_intercalate hsegments
  rw [List.intercalate_splitOn, length_utf8_slashed] at hwritten
  have hsize : size (kept.reverse ++ [[]]) = size kept + 1 := by
    simp [size, List.sum_reverse]
  have hlength := congrArg (fun text => (utf8 text).length) hbelow
  simp only [below, directory, List.cons_append, utf8_cons, utf8_append,
    List.length_append] at hlength
  have hle := size_resolve_le kept ((slashed special text).splitOn '/')
  refine ⟨by omega, fun hlong => ?_⟩
  by_contra hdot
  simp only [not_forall, exists_prop] at hdot
  have hlt := size_resolve_lt kept hdot
  omega

theorem readEnd_dropWhile (text : List Char) :
    readEnd (text.dropWhile fun c => !endsPath c) = (none, none) ↔
      ∀ c ∈ text, endsPath c = false := by
  induction text with
  | nil => simp [readEnd]
  | cons c text ih =>
      by_cases hc : endsPath c = true
      · rw [List.dropWhile_cons_of_neg (by simp [hc]), List.forall_mem_cons]
        refine iff_of_false ?_ (fun h => by simp [hc] at h)
        rcases of_decide_eq_true hc with rfl | rfl <;> simp [readEnd]
      · rw [List.dropWhile_cons_of_pos (by simpa using hc), ih, List.forall_mem_cons]
        simp [hc]

theorem eq_of_prefix_of_length_utf8 {first second : List Char} (hbegins : first <+: second)
    (hlength : (utf8 second).length ≤ (utf8 first).length) : first = second := by
  obtain ⟨rest, rfl⟩ := hbegins
  rw [utf8_append, List.length_append] at hlength
  have hrest := length_le_utf8 rest
  rw [List.eq_nil_of_length_eq_zero (l := rest) (by omega), List.append_nil]

/-- **What is read below a directory is the text, exactly when the text stands for itself.** -/
theorem below_decodes_iff (special : Bool) (kept : List (List Char)) (text : List Char) :
    ((∃ rest, below special kept ((text.rdropWhile isSurrounding).takeWhile fun c => !endsPath c) =
          directory kept ++ rest ∧ percentDecode rest = utf8 text) ∧
        readEnd ((text.rdropWhile isSurrounding).dropWhile fun c => !endsPath c) = (none, none)) ↔
      Written special text := by
  rw [readEnd_dropWhile]
  constructor
  · rintro ⟨⟨rest, hbelow, hdecode⟩, hend⟩
    have hpass : ∀ c ∈ text.rdropWhile isSurrounding, (!endsPath c) = true := by simpa using hend
    rw [List.takeWhile_eq_self_iff.mpr hpass] at hbelow
    obtain ⟨hle, hplain⟩ := length_below hbelow
    have hdecoded := length_percentDecode_le rest
    rw [hdecode] at hdecoded
    -- all lengths agree, so that nothing was stripped, escaped or lost
    have hstrip : text.rdropWhile isSurrounding = text :=
      eq_of_prefix_of_length_utf8 (List.rdropWhile_prefix _ _) (by omega)
    rw [hstrip] at hbelow hle hplain hend
    have hnoEscape : hasEscape rest = false := by
      by_contra hescape
      have hlt := length_percentDecode_lt (by simpa using hescape)
      rw [hdecode] at hlt
      omega
    have hrest : rest = text :=
      utf8_injective ((percentDecode_of_not_hasEscape hnoEscape).symm.trans hdecode)
    subst hrest
    have hplain := hplain (Nat.le_refl _)
    have hself : slashed special rest = rest := by
      have hresolved : below special kept rest = directory kept ++ slashed special rest := by
        rw [below, Url.resolve_of_plain hplain, intercalate_append (List.splitOn_ne_nil _ _),
          List.intercalate_splitOn, directory, List.cons_append]
      exact List.append_cancel_left (hresolved.symm.trans hbelow)
    rw [hself] at hplain
    refine ⟨hend, ?_, hnoEscape, slashed_eq_self_iff.mp hself, hplain⟩
    intro c hc
    have hne := List.ne_nil_of_mem (List.mem_of_mem_getLast? hc)
    have hlast := List.rdropWhile_eq_self_iff.mp hstrip hne
    rw [List.getLast?_eq_some_getLast hne, Option.mem_some] at hc
    simpa [hc] using hlast
  · intro hwritten
    have hstrip : text.rdropWhile isSurrounding = text := by
      rw [List.rdropWhile_eq_self_iff]
      intro hne
      simp [hwritten.noSpace _ (List.getLast?_eq_some_getLast hne)]
    have hpass : ∀ c ∈ text, (!endsPath c) = true := by simpa using hwritten.notEnd
    rw [hstrip, List.takeWhile_eq_self_iff.mpr hpass]
    exact ⟨⟨text, below_of_written hwritten kept,
      percentDecode_of_not_hasEscape hwritten.noEscape⟩, hwritten.notEnd⟩

/-! ## Texts that are put together from a base and a path -/

section Base

variable {accepts : List Char → List Char → Bool}

theorem clean_append (base : List Char) {text : List Char}
    (htext : ∀ c ∈ text, isDropped c = false) :
    clean (base ++ '/' :: text) =
      (base.dropWhile isSurrounding).filter (fun c => !isDropped c) ++
        '/' :: text.rdropWhile isSurrounding := by
  have hkept : (text.rdropWhile isSurrounding).filter (fun c => !isDropped c) =
      text.rdropWhile isSurrounding := by
    refine List.filter_eq_self.mpr fun c hc => ?_
    simp [htext c ((List.rdropWhile_prefix _ _).subset hc)]
  rw [clean, Text.dropWhile_append_cons (by decide),
    Text.rdropWhile_append_cons (by decide), List.filter_append,
    List.filter_cons_of_pos (by decide), hkept]

/-- A path that goes on behind a slash goes on in a directory. -/
theorem exists_resolved (special : Bool) (behind : List Char) :
    ∃ kept, ∀ text, resolved special (behind ++ '/' :: text) = below special kept text := by
  cases behind with
  | nil => exact ⟨[], fun text => rfl⟩
  | cons c behind =>
      refine ⟨((slashed special behind).splitOn '/').foldl push [], fun text => ?_⟩
      have hslash : slashed special (behind ++ '/' :: text) =
          slashed special behind ++ '/' :: slashed special text := by
        simp [slashed, isSlash]
      rw [List.cons_append, resolved, hslash, List.splitOn_append_cons_self,
        resolve_append _ _ (List.splitOn_ne_nil _ _), below]

theorem below_nil (special : Bool) (kept : List (List Char)) :
    below special kept [] = directory kept := by
  have hwritten : Written special [] :=
    ⟨by simp, by simp, rfl, by simp, by simp [Url.isPlain_nil]⟩
  rw [below_of_written hwritten, List.append_nil]

/-- Behind the slashes stands the same, or the slash itself is the last of them. -/
theorem afterColon_append {scheme rest body : List Char}
    (hbody : afterColon scheme (rest ++ ['/']) = some body) :
    (body = [] ∧ (isSpecial scheme = true ∨
      ∀ text, afterColon scheme (rest ++ '/' :: text) = some text)) ∨
    ∃ start, body = start ++ ['/'] ∧
      ∀ text, afterColon scheme (rest ++ '/' :: text) = some (start ++ '/' :: text) := by
  unfold afterColon at hbody ⊢
  by_cases hspecial : isSpecial scheme = true
  · rw [if_pos hspecial, Option.some.injEq] at hbody
    simp only [hspecial, if_true, Option.some.injEq]
    by_cases hslashes : (rest.dropWhile (isSlash true)) = []
    · refine .inl ⟨?_, .inl trivial⟩
      rw [← hbody, List.dropWhile_append]
      simp [hslashes, isSlash]
    · refine .inr ⟨rest.dropWhile (isSlash true), ?_, fun text => ?_⟩
      · rw [← hbody, List.dropWhile_append, if_neg (by simpa using hslashes)]
      · rw [List.dropWhile_append, if_neg (by simpa using hslashes)]
  · simp only [hspecial, Bool.false_eq_true, if_false] at hbody ⊢
    rcases rest with _ | ⟨c, _ | ⟨d, rest⟩⟩
    · simp at hbody
    · rw [Option.ite_none_right_eq_some] at hbody
      refine .inl ⟨(Option.some.inj hbody.2).symm, .inr fun text => ?_⟩
      have hbegins : ['/', '/'].isPrefixOf ([c] ++ '/' :: text) = true := by
        simpa using hbody.1
      rw [if_pos hbegins]
      rfl
    · rw [Option.ite_none_right_eq_some, Option.some.injEq] at hbody
      refine .inr ⟨rest, hbody.2.symm, fun text => ?_⟩
      have hbegins : ['/', '/'].isPrefixOf (c :: d :: rest ++ '/' :: text) = true := by
        simpa using hbody.1
      rw [if_pos hbegins]
      rfl

/-- A text that goes on behind a slash is read in a directory, if no query comes before it. -/
theorem assemble_append {scheme authority behind : List Char}
    (hquery : (assemble scheme authority (behind ++ ['/'])).query = none)
    (hfragment : (assemble scheme authority (behind ++ ['/'])).fragment = none) :
    ∃ kept, ∀ text, assemble scheme authority (behind ++ '/' :: text) = {
      scheme, authority
      path := below (isSpecial scheme) kept (text.takeWhile fun c => !endsPath c)
      query := (readEnd (text.dropWhile fun c => !endsPath c)).1
      fragment := (readEnd (text.dropWhile fun c => !endsPath c)).2 } := by
  have hall : ∀ c ∈ behind ++ ['/'], endsPath c = false :=
    (readEnd_dropWhile _).mp (Prod.ext hquery hfragment)
  have hpass : ∀ c ∈ behind, (!endsPath c) = true :=
    fun c hc => by simp [hall c (List.mem_append_left _ hc)]
  obtain ⟨kept, hkept⟩ := exists_resolved (isSpecial scheme) behind
  refine ⟨kept, fun text => ?_⟩
  have htake : ('/' :: text).takeWhile (fun c => !endsPath c) =
      '/' :: text.takeWhile fun c => !endsPath c := List.takeWhile_cons_of_pos (by decide)
  have hdrop : ('/' :: text).dropWhile (fun c => !endsPath c) =
      text.dropWhile fun c => !endsPath c := List.dropWhile_cons_of_pos (by decide)
  rw [assemble, List.takeWhile_append_of_pos hpass, List.dropWhile_append_of_pos hpass, htake,
    hdrop, hkept]

/-- Up to the end of the base all is read alike. -/
theorem readBody_append {scheme body : List Char} {dir : WebUrl}
    (hdir : readBody accepts scheme (body ++ ['/']) = some dir) :
    ∃ behind, dir = assemble scheme dir.authority (behind ++ ['/']) ∧ ∀ text,
      readBody accepts scheme (body ++ '/' :: text) =
        some (assemble scheme dir.authority (behind ++ '/' :: text)) := by
  have hslash : (!endsAuthority (isSpecial scheme) '/') = false := by
    simp [endsAuthority, isSlash]
  -- the authority ends within the base
  have hauthority : ∀ text, (body ++ '/' :: text).takeWhile
      (fun c => !endsAuthority (isSpecial scheme) c) =
        body.takeWhile fun c => !endsAuthority (isSpecial scheme) c :=
    fun text => Text.takeWhile_append_cons
      (p := fun c => !endsAuthority (isSpecial scheme) c) hslash body text
  have hbehind : ∀ text, (body ++ '/' :: text).dropWhile
      (fun c => !endsAuthority (isSpecial scheme) c) =
        (body.dropWhile fun c => !endsAuthority (isSpecial scheme) c) ++ '/' :: text :=
    fun text => Text.dropWhile_append_cons
      (p := fun c => !endsAuthority (isSpecial scheme) c) hslash body text
  simp only [readBody, hauthority, hbehind] at hdir ⊢
  rw [Option.ite_none_right_eq_some, Option.some.injEq] at hdir
  obtain ⟨haccepts, rfl⟩ := hdir
  exact ⟨_, rfl, fun text => if_pos haccepts⟩

/-- A URL with nothing behind the slashes has neither authority nor path. -/
theorem readBody_nil {scheme : List Char} {dir : WebUrl}
    (hdir : readBody accepts scheme [] = some dir) :
    isSpecial scheme = false ∧ dir.authority = [] ∧ dir.path = [] := by
  rw [readBody, Option.ite_none_right_eq_some, Option.some.injEq] at hdir
  obtain ⟨haccepts, rfl⟩ := hdir
  have hspecial : isSpecial scheme = false := by
    simpa using fun h => haccepts.2 ⟨h, rfl⟩
  exact ⟨hspecial, rfl, by simp [assemble, resolved, hspecial]⟩

/-- The colon of a base with a slash behind it is in the base. -/
theorem splitOnce_append {start scheme rest : List Char}
    (hsplit : Utf8.splitOnce ':' (start ++ ['/']) = some (scheme, rest)) :
    ∃ behind, rest = behind ++ ['/'] ∧
      ∀ text, Utf8.splitOnce ':' (start ++ '/' :: text) = some (scheme, behind ++ '/' :: text) := by
  obtain ⟨heq, hscheme⟩ := Utf8.splitOnce_eq_some.mp hsplit
  rcases List.eq_nil_or_concat rest with rfl | ⟨behind, last, rfl⟩
  · have hlast := congrArg List.getLast? heq
    simp at hlast
  · rw [List.concat_eq_append, ← List.cons_append, ← List.append_assoc] at heq
    obtain ⟨hstart, hlast⟩ := List.append_inj' heq rfl
    rw [List.singleton_inj] at hlast
    subst hlast
    refine ⟨behind, List.concat_eq_append, fun text => Utf8.splitOnce_eq_some.mpr ⟨?_, hscheme⟩⟩
    rw [hstart, List.append_assoc, List.cons_append]

/-- A text behind a base is read behind the authority and the path of the base, unless the
base ends before them. -/
theorem read_append {base : List Char} {dir : WebUrl}
    (hdir : read accepts (base ++ ['/']) = some dir) :
    (dir.authority = [] ∧ dir.path = [] ∧
      ∃ scheme, ∀ text, (∀ c ∈ text, isDropped c = false) →
        read accepts (base ++ '/' :: text) =
          readBody accepts scheme (text.rdropWhile isSurrounding)) ∨
    ∃ behind, dir = assemble dir.scheme dir.authority (behind ++ ['/']) ∧
      ∀ text, (∀ c ∈ text, isDropped c = false) →
        read accepts (base ++ '/' :: text) =
          some (assemble dir.scheme dir.authority
            (behind ++ '/' :: text.rdropWhile isSurrounding)) := by
  rw [read, clean_append base (by simp), List.rdropWhile_nil, readClean,
    Option.bind_eq_bind, Option.bind_eq_some_iff] at hdir
  obtain ⟨⟨scheme, rest⟩, hsplit, hrest⟩ := hdir
  dsimp only at hrest
  rw [Option.ite_none_right_eq_some, Option.bind_eq_bind, Option.bind_eq_some_iff] at hrest
  obtain ⟨hscheme, body, hcolon, hbody⟩ := hrest
  obtain ⟨behind, rfl, hsplitText⟩ := splitOnce_append hsplit
  have hread : ∀ text, (∀ c ∈ text, isDropped c = false) →
      read accepts (base ++ '/' :: text) =
        (afterColon (scheme.map Char.toLower) (behind ++ '/' :: text.rdropWhile isSurrounding)).bind
          (readBody accepts (scheme.map Char.toLower)) := by
    intro text htext
    rw [read, clean_append base htext, readClean, hsplitText, Option.bind_eq_bind,
      Option.bind_some]
    dsimp only
    rw [if_pos hscheme, Option.bind_eq_bind]
  rcases afterColon_append hcolon with ⟨rfl, hcolonText⟩ | ⟨start, rfl, hcolonText⟩
  · obtain ⟨hspecial, hauthority, hpath⟩ := readBody_nil hbody
    refine .inl ⟨hauthority, hpath, scheme.map Char.toLower, fun text htext => ?_⟩
    rw [hread text htext, hcolonText.resolve_left (by simp [hspecial]), Option.bind_some]
  · obtain ⟨path, hdir, hpath⟩ := readBody_append hbody
    have hsame : dir.scheme = scheme.map Char.toLower := congrArg WebUrl.scheme hdir
    refine .inr ⟨path, by rwa [hsame], fun text htext => ?_⟩
    rw [hread text htext, hcolonText, Option.bind_some, hpath, hsame]

/-! ## Texts that are read back -/

/-- The base is the URL of a directory. -/
def IsDirectory (dir : WebUrl) : Prop := dir.path ≠ [] ∧ dir.query = none ∧ dir.fragment = none

/-- Below the base stands, with all escapes undone, the text. -/
def ReadsBack (dir url : WebUrl) (text : List Char) : Prop :=
  url.authority = dir.authority ∧ url.query = none ∧ url.fragment = none ∧
    ∃ rest, url.path = dir.path ++ rest ∧ percentDecode rest = utf8 text

theorem assemble_ends_iff (scheme authority behind : List Char) :
    (assemble scheme authority behind).query = none ∧
        (assemble scheme authority behind).fragment = none ↔
      ∀ c ∈ behind, endsPath c = false := by
  rw [← readEnd_dropWhile, Prod.ext_iff]
  rfl

/-- Where the base ends before the authority, the text is not read back. -/
theorem not_readsBack_of_readBody {scheme text : List Char} {dir url : WebUrl}
    (hauthority : dir.authority = []) (hpath : dir.path = [])
    (hread : readBody accepts scheme (text.rdropWhile isSurrounding) = some url)
    (hslash : text.head? ≠ some '/') (hne : text ≠ []) : ¬ ReadsBack dir url text := by
  rintro ⟨hsame, hquery, hfragment, rest, hrest, hdecode⟩
  rw [readBody, Option.ite_none_right_eq_some, Option.some.injEq] at hread
  obtain ⟨haccepts, rfl⟩ := hread
  have hempty := hsame.trans hauthority
  have hspecial : isSpecial scheme = false := by
    simpa using fun h => haccepts.2 ⟨h, hempty⟩
  cases hstrip : text.rdropWhile isSurrounding with
  | nil =>
      rw [hpath, List.nil_append, hstrip] at hrest
      have hnil : rest = [] := by
        rw [← hrest]
        simp [assemble, resolved, hspecial]
      rw [hnil] at hdecode
      exact hne (utf8_injective hdecode.symm)
  | cons c tail =>
      have hc : endsAuthority (isSpecial scheme) c = true := by
        by_contra hnot
        rw [hstrip, assemble, List.takeWhile_cons_of_pos (by simpa using hnot)] at hempty
        cases hempty
      obtain ⟨more, hmore⟩ := hstrip ▸ List.rdropWhile_prefix isSurrounding text
      have hend := (assemble_ends_iff _ _ _).mp ⟨hquery, hfragment⟩ c (by
        rw [hstrip, List.dropWhile_cons_of_neg (by simp [hc])]
        exact List.mem_cons_self)
      rw [endsAuthority, hend, Bool.or_false, isSlash, hspecial, Bool.false_and, Bool.or_false,
        decide_eq_true_eq] at hc
      apply hslash
      rw [← hmore, hc]
      rfl

/-- **What is read below a base is the text exactly when the base is a directory and the text
stands for itself.** -/
theorem readsBack_iff {base : List Char} {dir : WebUrl}
    (hdir : read accepts (base ++ ['/']) = some dir) {text : List Char}
    (htext : ∀ c ∈ text, isDropped c = false) (hslash : text.head? ≠ some '/') (hne : text ≠ []) :
    (∃ url, read accepts (base ++ '/' :: text) = some url ∧ ReadsBack dir url text) ↔
      IsDirectory dir ∧ Written (isSpecial dir.scheme) text := by
  rcases read_append hdir with ⟨hauthority, hpath, scheme, hread⟩ | ⟨behind, heq, hread⟩
  · refine iff_of_false ?_ (fun h => h.1.1 hpath)
    rw [hread text htext]
    rintro ⟨url, hbody, hback⟩
    exact not_readsBack_of_readBody hauthority hpath hbody hslash hne hback
  · have hends : dir.query = none ∧ dir.fragment = none ↔
        ∀ c ∈ behind ++ ['/'], endsPath c = false := by
      rw [← assemble_ends_iff dir.scheme dir.authority, ← heq]
    -- what is read of the base, and of the text behind it
    have hdirectory : dir.query = none → dir.fragment = none →
        ∃ kept, dir.path = directory kept ∧
          assemble dir.scheme dir.authority (behind ++ '/' :: text.rdropWhile isSurrounding) = {
            scheme := dir.scheme, authority := dir.authority
            path := below (isSpecial dir.scheme) kept
              ((text.rdropWhile isSurrounding).takeWhile fun c => !endsPath c)
            query := (readEnd ((text.rdropWhile isSurrounding).dropWhile fun c => !endsPath c)).1
            fragment :=
              (readEnd ((text.rdropWhile isSurrounding).dropWhile fun c => !endsPath c)).2 } := by
      intro hquery hfragment
      rw [heq] at hquery hfragment
      obtain ⟨kept, hkept⟩ := assemble_append hquery hfragment
      refine ⟨kept, ?_, hkept _⟩
      have hpath := congrArg WebUrl.path (heq.trans (hkept []))
      rwa [List.takeWhile_nil, below_nil] at hpath
    rw [hread text htext]
    simp only [Option.some.injEq, exists_eq_left']
    constructor
    · rintro ⟨-, hquery, hfragment, rest, hrest, hdecode⟩
      have hall := (assemble_ends_iff _ _ _).mp ⟨hquery, hfragment⟩
      have hbase : dir.query = none ∧ dir.fragment = none := hends.mpr fun c hc => hall c (by
        rcases List.mem_append.mp hc with hc | hc
        · exact List.mem_append_left _ hc
        · rw [List.mem_singleton.mp hc]
          simp)
      obtain ⟨kept, hpath, hkept⟩ := hdirectory hbase.1 hbase.2
      rw [hkept] at hquery hfragment hrest
      rw [hpath] at hrest
      refine ⟨⟨by simp [hpath, directory], hbase.1, hbase.2⟩, ?_⟩
      exact (below_decodes_iff _ kept text).mp
        ⟨⟨rest, hrest, hdecode⟩, Prod.ext hquery hfragment⟩
    · rintro ⟨⟨-, hquery, hfragment⟩, hwritten⟩
      obtain ⟨kept, hpath, hkept⟩ := hdirectory hquery hfragment
      obtain ⟨⟨rest, hrest, hdecode⟩, hend⟩ :=
        (below_decodes_iff (isSpecial dir.scheme) kept text).mpr hwritten
      rw [hkept, ReadsBack, hpath]
      exact ⟨rfl, congrArg Prod.fst hend, congrArg Prod.snd hend, rest, hrest, hdecode⟩

end Base

end WebUrl
