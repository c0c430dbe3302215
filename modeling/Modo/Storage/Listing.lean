import Modo.Lib.Text
import Modo.Lib.Utf8

/-!
# Listing a bucket

`list` asks for page after page and takes the keys out of each by hand: the values between
`<Key>` and `</Key>`.  The server writes a page as tags and escaped text.

Of such a page the values are read as they are written (`extractXmlValues_render`), so that
`list` returns the escaped keys (`list_of_serves`).  They are the keys of the objects exactly
when nothing in them is escaped.
-/

namespace Modo.Storage

/-! ## The client -/

/-- The loop of `extract_xml_values`; each round takes at least one character. -/
def extractFrom (tag : List Char) : ℕ → List Char → List (List Char)
  | 0, _ => []
  | fuel + 1, xml =>
      match Text.splitFirst ('<' :: (tag ++ ['>'])) xml with
      | none => []
      | some (_, rest) =>
          match Text.splitFirst ('<' :: '/' :: (tag ++ ['>'])) rest with
          -- an element that is not closed ends the search
          | none => []
          | some (value, rest) => value :: extractFrom tag fuel rest

/-- `extract_xml_values`. -/
def extractXmlValues (xml tag : List Char) : List (List Char) := extractFrom tag xml.length xml

/-- `extract_xml_value`. -/
def extractXmlValue (xml tag : List Char) : Option (List Char) := (extractXmlValues xml tag).head?

def keyTag : List Char := ['K', 'e', 'y']

def isTruncatedTag : List Char := ['I', 's', 'T', 'r', 'u', 'n', 'c', 'a', 't', 'e', 'd']

def nextContinuationTokenTag : List Char :=
  ['N', 'e', 'x', 't', 'C', 'o', 'n', 't', 'i', 'n', 'u', 'a', 't', 'i', 'o', 'n',
    'T', 'o', 'k', 'e', 'n']

def trueText : List Char := ['t', 'r', 'u', 'e']

def falseText : List Char := ['f', 'a', 'l', 's', 'e']

/-- `RemoteBackend::list`, from a continuation token on.  `fetch` is the body of the page
that the server answers with; the loop asks for at most `fuel` pages. -/
def list (fetch : Option (List Char) → List Char) :
    ℕ → Option (List Char) → Option (List (List Char))
  | 0, _ => none
  | fuel + 1, continuationToken =>
      let body := fetch continuationToken
      let keys := extractXmlValues body keyTag
      if extractXmlValue body isTruncatedTag = some trueText then
        (list fetch fuel (extractXmlValue body nextContinuationTokenTag)).map fun rest =>
          keys ++ rest
      else some keys

/-- `validate_path`. -/
def validatePath (path : List Char) : Except (ℕ × String) Unit :=
  if path.isEmpty then .error (400, "storage path must not be empty")
  else if path.head? = some '/' then .error (400, "storage path must not start with '/'")
  else if ['.', '.'] ∈ path.splitOn '/' then
    .error (400, "storage path must not contain '..' segments")
  else if path.any fun c => decide (c.toNat < 32 ∨ 127 ≤ c.toNat ∧ c.toNat < 160) then
    .error (400, "storage path must not contain control characters")
  else .ok ()

/-- The objects of a bucket, by their keys. -/
abbrev Bucket := List (List Char)

/-- `RemoteBackend::delete`: deleting an object that is not there succeeds. -/
def delete (bucket : Bucket) (key : List Char) : Bucket := bucket.filter fun other => other ≠ key

/-- `Storage::delete_prefix`: the bucket that is left. -/
def deletePrefix (fetch : Option (List Char) → List Char) (fuel : ℕ) (bucket : Bucket)
    (keyPrefix : List Char) : Option (Except (ℕ × String) Bucket) :=
  match validatePath keyPrefix with
  | .error response => some (.error response)
  | .ok () => (list fetch fuel none).map fun keys => .ok (keys.foldl delete bucket)

/-! ## The server -/

/-- A part of a page. -/
inductive Item where
  /-- An element with a text, which is escaped. -/
  | value (tag content : List Char)
  /-- Any other tag, opening or closing. -/
  | markup (name : List Char)
  /-- Text of other elements, which is escaped. -/
  | text (content : List Char)

/-- A part as it is written. -/
def Item.render : Item → List Char
  | .value tag content => '<' :: (tag ++ ['>']) ++ (content ++ '<' :: '/' :: (tag ++ ['>']))
  | .markup name => '<' :: (name ++ ['>'])
  | .text content => content

/-- The names that have a value. -/
def valueTags : List (List Char) := [keyTag, isTruncatedTag, nextContinuationTokenTag]

/-- Names have no angle brackets, escaped text has no `<`, and an element whose value is
read is a `value`. -/
def Item.WellFormed : Item → Prop
  | .value tag content => tag ∈ valueTags ∧ '<' ∉ content
  | .markup name => '<' ∉ name ∧ '>' ∉ name ∧ name ∉ valueTags
  | .text content => '<' ∉ content

/-- A page. -/
structure Page where
  items : List Item
  wellFormed : ∀ item ∈ items, item.WellFormed

/-- The page as it is written. -/
def Page.render (page : Page) : List Char := page.items.flatMap Item.render

/-- The value of a part, if it is of that tag. -/
def Item.valueOf (tag : List Char) : Item → Option (List Char)
  | .value other content => if other = tag then some content else none
  | .markup _ => none
  | .text _ => none

/-- The values of a tag. -/
def Page.values (page : Page) (tag : List Char) : List (List Char) :=
  page.items.filterMap (Item.valueOf tag)

/-- How characters are written in a text: as themselves, or as something longer.  `<` ends
the text and `&` begins an escape, so neither is written as itself. -/
structure Escaping where
  write : Char → List Char
  notMem : ∀ c, '<' ∉ write c
  longer : ∀ c, write c = [c] ∨ 1 < (write c).length
  ampersand : write '&' ≠ ['&']

/-- A text as it is written. -/
def Escaping.text (escaping : Escaping) (text : List Char) : List Char :=
  text.flatMap escaping.write

/-- From the token on the server answers with pages that have these keys.  A continuation
token has nothing to escape. -/
inductive Serves (escaping : Escaping) (fetch : Option (List Char) → List Char) :
    Option (List Char) → List (List (List Char)) → Prop where
  | last {token : Option (List Char)} {keys : List (List Char)} (page : Page) :
      fetch token = page.render → page.values keyTag = keys.map escaping.text →
      page.values isTruncatedTag = [falseText] → Serves escaping fetch token [keys]
  | more {token : Option (List Char)} {keys : List (List Char)} {next : List Char}
      {rest : List (List (List Char))} (page : Page) :
      fetch token = page.render → page.values keyTag = keys.map escaping.text →
      page.values isTruncatedTag = [trueText] → page.values nextContinuationTokenTag = [next] →
      Serves escaping fetch (some next) rest → Serves escaping fetch token (keys :: rest)

instance : DecidablePred Item.WellFormed
  | .value _ _ => inferInstanceAs (Decidable (_ ∧ _))
  | .markup _ => inferInstanceAs (Decidable (_ ∧ _ ∧ _))
  | .text _ => inferInstanceAs (Decidable (_ ∉ _))

/-- The escapes that XML needs. -/
def xmlEscaping : Escaping where
  write c :=
    if c = '&' then ['&', 'a', 'm', 'p', ';']
    else if c = '<' then ['&', 'l', 't', ';']
    else if c = '>' then ['&', 'g', 't', ';']
    else [c]
  notMem c := by
    by_cases hamp : c = '&'
    · simp [hamp]
    by_cases hopen : c = '<'
    · simp [hopen]
    by_cases hclose : c = '>'
    · simp [hclose]
    · simpa [hamp, hopen, hclose] using Ne.symm hopen
  longer c := by
    by_cases hamp : c = '&'
    · simp [hamp]
    by_cases hopen : c = '<'
    · simp [hopen]
    by_cases hclose : c = '>'
    · simp [hclose]
    · simp [hamp, hopen, hclose]
  ampersand := by decide

/-- The parts of an answer: an object for each key, and the token of the next page. -/
def answerItems (escaping : Escaping) (keys : List (List Char)) (next : Option (List Char)) :
    List Item :=
  .value isTruncatedTag (if next.isSome then trueText else falseText) ::
    (keys.flatMap fun key =>
      [.markup ['C', 'o', 'n', 't', 'e', 'n', 't', 's'], .value keyTag (escaping.text key),
        .markup ['/', 'C', 'o', 'n', 't', 'e', 'n', 't', 's']]) ++
    next.toList.map (.value nextContinuationTokenTag)

/-! ## Reading a page -/

/-- The opening tag. -/
def opening (tag : List Char) : List Char := '<' :: (tag ++ ['>'])

/-- The closing tag. -/
def closing (tag : List Char) : List Char := '<' :: '/' :: (tag ++ ['>'])

/-- A chunk in which the opening tag does not begin. -/
def Skips (tag chunk : List Char) : Prop :=
  ∀ rest, (Text.splitFirst (opening tag) (chunk ++ rest)).map Prod.snd =
    (Text.splitFirst (opening tag) rest).map Prod.snd

variable {tag : List Char}

theorem Skips.append {first second : List Char} (hfirst : Skips tag first)
    (hsecond : Skips tag second) : Skips tag (first ++ second) := by
  intro rest
  rw [List.append_assoc, hfirst, hsecond]

theorem skips_text {content : List Char} (hcontent : '<' ∉ content) : Skips tag content := by
  intro rest
  rw [opening, Text.splitFirst_append_of_notMem hcontent, Option.map_map]
  rfl

/-- Another tag is passed over. -/
theorem skips_markup {name : List Char} (htag : '>' ∉ tag) (hopen : '<' ∉ name)
    (hclose : '>' ∉ name) (hne : name ≠ tag) : Skips tag ('<' :: (name ++ ['>'])) := by
  intro rest
  -- both names are read up to their `>`
  have hbegins : ¬opening tag <+: '<' :: (name ++ ['>'] ++ rest) := by
    rintro ⟨tail, htail⟩
    have heq : tag ++ '>' :: tail = name ++ '>' :: rest := by
      simpa [opening] using htail
    have hfirst : Utf8.splitOnce '>' (name ++ '>' :: rest) = some (tag, tail) :=
      Utf8.splitOnce_eq_some.mpr ⟨heq.symm, htag⟩
    rw [Utf8.splitOnce_eq_some.mpr ⟨rfl, hclose⟩] at hfirst
    exact hne (Prod.mk.inj (Option.some.inj hfirst)).1
  have hname : '<' ∉ name ++ ['>'] := by
    simp [hopen]
  rw [List.cons_append, Text.splitFirst_cons_of_not_prefix hbegins, opening,
    Text.splitFirst_append_of_notMem hname, Option.map_map, Option.map_map]
  rfl

theorem valueTags_spec : ∀ tag ∈ valueTags, '<' ∉ tag ∧ '>' ∉ tag ∧ '/' ∉ tag := by decide

/-- Every part is passed over that is not a value of the tag. -/
theorem skips_item (htag : tag ∈ valueTags) {item : Item} (hitem : item.WellFormed)
    (hvalue : item.valueOf tag = none) : Skips tag item.render := by
  obtain ⟨-, hbracket, hslash⟩ := valueTags_spec tag htag
  cases item with
  | text content => exact skips_text hitem
  | markup name =>
      obtain ⟨hopen, hclose, hname⟩ := hitem
      exact skips_markup hbracket hopen hclose fun heq => hname (heq ▸ htag)
  | value other content =>
      obtain ⟨hother, hcontent⟩ := hitem
      obtain ⟨hopen, hclose, -⟩ := valueTags_spec other hother
      have hne : other ≠ tag := by
        rintro rfl
        simp [Item.valueOf] at hvalue
      apply (skips_markup hbracket hopen hclose hne).append
      apply (skips_text hcontent).append
      refine @skips_markup tag ('/' :: other) hbracket ?_ ?_ ?_
      · simp [hopen]
      · simp [hclose]
      · rintro rfl
        exact hslash List.mem_cons_self

theorem valueOf_eq_some {item : Item} {content : List Char} (hitem : item.WellFormed)
    (hvalue : item.valueOf tag = some content) :
    item = .value tag content ∧ '<' ∉ content := by
  cases item with
  | value other text =>
      rw [Item.valueOf] at hvalue
      split at hvalue
      · rename_i hother
        cases hvalue
        exact ⟨by rw [hother], hitem.2⟩
      · cases hvalue
  | markup name => cases hvalue
  | text text => cases hvalue

/-- What is passed over has no value. -/
theorem extractFrom_of_skips {chunk : List Char} (hskips : Skips tag chunk) (fuel : ℕ)
    (rest : List Char) : extractFrom tag fuel (chunk ++ rest) = extractFrom tag fuel rest := by
  cases fuel with
  | zero => rfl
  | succ fuel =>
      have hsplit := hskips rest
      rw [opening] at hsplit
      rw [extractFrom, extractFrom]
      cases hleft : Text.splitFirst ('<' :: (tag ++ ['>'])) (chunk ++ rest) with
      | none =>
          rw [hleft, Option.map_none, eq_comm, Option.map_eq_none_iff] at hsplit
          rw [hsplit]
      | some parts =>
          rw [hleft, Option.map_some, eq_comm, Option.map_eq_some_iff] at hsplit
          obtain ⟨other, hright, hsame⟩ := hsplit
          rw [hright]
          dsimp only
          rw [hsame]

/-- A value is read, and the reading goes on behind it. -/
theorem extractFrom_value {content : List Char} (hcontent : '<' ∉ content) (fuel : ℕ)
    (rest : List Char) :
    extractFrom tag (fuel + 1) ((Item.value tag content).render ++ rest) =
      content :: extractFrom tag fuel rest := by
  have hopen : Text.splitFirst (opening tag) ((Item.value tag content).render ++ rest) =
      some ([], content ++ (closing tag ++ rest)) := by
    have hrender : (Item.value tag content).render ++ rest =
        opening tag ++ (content ++ (closing tag ++ rest)) := by
      simp [Item.render, opening, closing]
    rw [hrender]
    exact Text.splitFirst_of_isPrefix (List.cons_ne_nil _ _) _
  have hclose : Text.splitFirst (closing tag) (content ++ (closing tag ++ rest)) =
      some (content, rest) := by
    have hnext := @Text.splitFirst_of_isPrefix (closing tag) (List.cons_ne_nil _ _) rest
    rw [closing] at hnext ⊢
    rw [Text.splitFirst_append_of_notMem hcontent, hnext, Option.map_some]
    simp
  rw [opening] at hopen
  rw [closing] at hclose
  rw [extractFrom, hopen]
  dsimp only
  rw [closing, hclose]

/-- The values of a sequence of parts. -/
theorem extractFrom_render (htag : tag ∈ valueTags) {items : List Item}
    (hitems : ∀ item ∈ items, item.WellFormed) {fuel : ℕ}
    (hfuel : (items.filterMap (Item.valueOf tag)).length ≤ fuel) :
    extractFrom tag fuel (items.flatMap Item.render) = items.filterMap (Item.valueOf tag) := by
  induction items generalizing fuel with
  | nil =>
      cases fuel with
      | zero => rfl
      | succ fuel => simp [extractFrom, Text.splitFirst]
  | cons item rest ih =>
      rw [List.forall_mem_cons] at hitems
      rw [List.flatMap_cons]
      cases hvalue : item.valueOf tag with
      | none =>
          rw [List.filterMap_cons_none hvalue] at hfuel ⊢
          rw [extractFrom_of_skips (skips_item htag hitems.1 hvalue), ih hitems.2 hfuel]
      | some content =>
          rw [List.filterMap_cons_some hvalue] at hfuel ⊢
          obtain ⟨hrender, hcontent⟩ := valueOf_eq_some hitems.1 hvalue
          obtain ⟨left, rfl⟩ := Nat.exists_eq_succ_of_ne_zero (Nat.ne_of_gt
            (Nat.lt_of_lt_of_le (Nat.succ_pos _) hfuel))
          rw [hrender, extractFrom_value hcontent, ih hitems.2 (Nat.le_of_succ_le_succ hfuel)]

/-- A part with a value is longer than nothing. -/
theorem length_filterMap_le (items : List Item) :
    (items.filterMap (Item.valueOf tag)).length ≤ (items.flatMap Item.render).length := by
  induction items with
  | nil => exact Nat.le_refl 0
  | cons item rest ih =>
      rw [List.flatMap_cons, List.length_append]
      cases hvalue : item.valueOf tag with
      | none =>
          rw [List.filterMap_cons_none hvalue]
          exact Nat.le_add_left_of_le ih
      | some content =>
          rw [List.filterMap_cons_some hvalue, List.length_cons, Nat.add_comm]
          apply Nat.add_le_add _ ih
          cases item with
          | value other text => simp [Item.render]
          | markup name => cases hvalue
          | text text => cases hvalue

/-- **The values of a page are read as they are written.** -/
theorem extractXmlValues_render (page : Page) (htag : tag ∈ valueTags) :
    extractXmlValues page.render tag = page.values tag :=
  extractFrom_render htag page.wellFormed (length_filterMap_le page.items)

theorem extractXmlValue_render (page : Page) (htag : tag ∈ valueTags) {value : List Char}
    {others : List (List Char)} (hvalues : page.values tag = value :: others) :
    extractXmlValue page.render tag = some value := by
  rw [extractXmlValue, extractXmlValues_render page htag, hvalues, List.head?_cons]

/-! ## Listing -/

variable {escaping : Escaping} {fetch : Option (List Char) → List Char}

/-- **`list` returns the keys of all pages, in order, as they are written.** -/
theorem list_of_serves {token : Option (List Char)} {pages : List (List (List Char))}
    (hserves : Serves escaping fetch token pages) {fuel : ℕ} (hfuel : pages.length ≤ fuel) :
    list fetch fuel token = some (pages.flatten.map escaping.text) := by
  have hkey : keyTag ∈ valueTags := by simp [valueTags]
  have htruncated : isTruncatedTag ∈ valueTags := by simp [valueTags]
  have hnext : nextContinuationTokenTag ∈ valueTags := by simp [valueTags]
  induction hserves generalizing fuel with
  | last page hfetch hkeys hlast =>
      obtain ⟨left, rfl⟩ := Nat.exists_eq_add_of_le' hfuel
      have hbody := extractXmlValue_render page htruncated hlast
      rw [List.length_singleton, list, hfetch, hbody, if_neg (by decide),
        extractXmlValues_render page hkey, hkeys, List.flatten_singleton]
  | @more _ _ next _ page hfetch hkeys hmore htoken hrest ih =>
      obtain ⟨left, rfl⟩ := Nat.exists_eq_add_of_le' hfuel
      have hbody := extractXmlValue_render page htruncated hmore
      have hfollow := extractXmlValue_render page hnext htoken
      rw [List.length_cons, ← Nat.add_assoc, list, hfetch, hbody, if_pos rfl, hfollow,
        ih (Nat.le_add_left _ _), extractXmlValues_render page hkey, hkeys, Option.map_some,
        List.flatten_cons, List.map_append]

/-- Writing makes a text longer, unless all of it is written as itself. -/
theorem Escaping.text_eq_self_iff (escaping : Escaping) (text : List Char) :
    escaping.text text = text ↔ ∀ c ∈ text, escaping.write c = [c] := by
  -- nothing gets shorter, so a character that gets longer cannot be made up for
  have hlonger : ∀ c, 1 ≤ (escaping.write c).length := by
    intro c
    rcases escaping.longer c with hself | hlength
    · rw [hself, List.length_singleton]
    · exact Nat.le_of_lt hlength
  have hlength : ∀ rest : List Char, rest.length ≤ (escaping.text rest).length := by
    intro rest
    induction rest with
    | nil => exact Nat.le_refl 0
    | cons c rest ih =>
        have hc := hlonger c
        rw [Escaping.text] at ih ⊢
        rw [List.flatMap_cons, List.length_append, List.length_cons]
        omega
  induction text with
  | nil => simp [Escaping.text]
  | cons c rest ih =>
      have hcons : escaping.text (c :: rest) = escaping.write c ++ escaping.text rest := by
        rw [Escaping.text, List.flatMap_cons, Escaping.text]
      rw [List.forall_mem_cons, hcons]
      constructor
      · intro heq
        rcases escaping.longer c with hself | hlong
        · rw [hself, List.singleton_append, List.cons.injEq] at heq
          exact ⟨hself, ih.mp heq.2⟩
        · have htotal := congrArg List.length heq
          have hrest := hlength rest
          rw [List.length_append, List.length_cons] at htotal
          omega
      · rintro ⟨hself, hrest⟩
        rw [hself, ih.mpr hrest, List.singleton_append]

theorem map_eq_self_iff {α : Type*} {f : α → α} {xs : List α} :
    xs.map f = xs ↔ ∀ x ∈ xs, f x = x := by
  have hid := @List.map_inj_left _ _ xs f id
  rw [List.map_id] at hid
  exact hid

/-- Deleting key after key. -/
theorem foldl_delete (keys : List (List Char)) (bucket : Bucket) :
    keys.foldl delete bucket = bucket.filter fun key => key ∉ keys := by
  induction keys generalizing bucket with
  | nil => simp
  | cons key rest ih =>
      rw [List.foldl_cons, ih, delete, List.filter_filter]
      apply List.filter_congr
      intro other _
      simp [Bool.and_comm]

variable (escaping) (fetch)

/-- Two pages with an object of `a/` each. -/
def albumPages : List (List (List Char)) := [[['a', '/', '1']], [['a', '/', '2']]]

def firstAlbum : Page := ⟨answerItems xmlEscaping [['a', '/', '1']] (some ['n']), by decide⟩

def lastAlbum : Page := ⟨answerItems xmlEscaping [['a', '/', '2']] none, by decide⟩

def albumFetch (token : Option (List Char)) : List Char :=
  if token = none then firstAlbum.render else lastAlbum.render

/-- A page with the key `a<b`. -/
def bracketAnswer : Page := ⟨answerItems xmlEscaping [['a', '<', 'b']] none, by decide⟩

def bracketFetch (_ : Option (List Char)) : List Char := bracketAnswer.render

def bracketBucket : Bucket := [['a', '&', 'l', 't', ';', 'b'], ['a', '<', 'b']]

end Modo.Storage
