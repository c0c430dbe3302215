import Mathlib.Data.List.Infix
import Modo.Sanitize.HtmlPlaces

/-!
# Script and style elements

`html_to_text` drops the text of `script` and `style` elements.  It finds their start tags by
the first word of a tag, which ends at white space, and the tag itself ends at the first `>`;
and it finds their end tags by the one spelling `</script>` or `</style>`, in any case.

HTML allows more: a `/` behind the name, a `>` in a quoted value, white space at the end of an
end tag.  `StartTag` and `EndTag` are these tags, and `Dropped` says what dropping an element
means.  `dropped_iff` is the exact condition: the text up to the end of the start tag ends
inside of the element, and there is no white space in the end tag.  What this asks of a start
tag that is read from outside of tags is in `endsIn_start_iff` and `endsIn_start_of_quoted`.
-/

namespace Modo.Sanitize

/-! ## Tags -/

/-- White space between the parts of a tag. -/
structure Spaces where
  text : List Char
  isSpace : ∀ c ∈ text, Ascii.isWhitespace c = true

/-- The value of an attribute, with its `=`. -/
inductive AttributeValue where
  | empty
  | unquoted (before after : Spaces) (text : List Char) (hne : text ≠ [])
      (hplain : ∀ c ∈ text, Ascii.isWhitespace c = false ∧
        c ∉ ['"', '\'', '=', '<', '>', '\x60'])
  | quoted (before after : Spaces) (quote : Char) (hquote : quote = '"' ∨ quote = '\'')
      (text : List Char) (hclosed : quote ∉ text)

def AttributeValue.text : AttributeValue → List Char
  | empty => []
  | unquoted before after text _ _ => before.text ++ '=' :: (after.text ++ text)
  | quoted before after quote _ text _ =>
      before.text ++ '=' :: (after.text ++ quote :: (text ++ [quote]))

/-- An attribute, with what separates it from what comes before. -/
structure Attribute where
  separator : List Char
  separator_ne : separator ≠ []
  isSeparator : ∀ c ∈ separator, Ascii.isWhitespace c = true ∨ c = '/'
  name : List Char
  name_ne : name ≠ []
  isName : ∀ c ∈ name, Ascii.isWhitespace c = false ∧ c ∉ ['"', '\'', '>', '/', '=']
  value : AttributeValue

def Attribute.text (attr : Attribute) : List Char :=
  attr.separator ++ attr.name ++ attr.value.text

/-- A start tag of the element. -/
structure StartTag (element : Element) where
  name : List Char
  name_eq : name.map Char.toLower = element.tag
  attributes : List Attribute
  trailing : List Char
  isTrailing : ∀ c ∈ trailing, Ascii.isWhitespace c = true ∨ c = '/'

/-- What stands between the name and the last `>`. -/
def StartTag.tail {element : Element} (start : StartTag element) : List Char :=
  start.attributes.flatMap Attribute.text ++ start.trailing

def StartTag.text {element : Element} (start : StartTag element) : List Char :=
  '<' :: (start.name ++ start.tail ++ ['>'])

/-- An end tag of the element. -/
structure EndTag (element : Element) where
  name : List Char
  name_eq : name.map Char.toLower = element.tag
  spaces : Spaces

def EndTag.text {element : Element} (finish : EndTag element) : List Char :=
  '<' :: '/' :: (finish.name ++ finish.spaces.text ++ ['>'])

/-- The text begins with an end tag of that name. -/
def beginsEndTag (tag text : List Char) : Bool :=
  let lower := text.map Char.toLower
  ('<' :: '/' :: tag).isPrefixOf lower &&
    match lower.drop (tag.length + 2) with
    | [] => false
    | c :: _ => Ascii.isWhitespace c || c == '/' || c == '>'

/-- No end tag of the element begins in the text. -/
def Free (element : Element) (content : List Char) : Prop :=
  ∀ suffix ∈ content.tails, beginsEndTag element.tag suffix = false

instance (element : Element) (content : List Char) : Decidable (Free element content) :=
  inferInstanceAs (Decidable (∀ suffix ∈ content.tails, _))

/-- A document with an element in it. -/
def document {element : Element} (before : List Char) (start : StartTag element)
    (content : List Char) (finish : EndTag element) (after : List Char) : List Char :=
  before ++ start.text ++ (content ++ (finish.text ++ after))

/-- The element is dropped: what stands in it makes no difference, and what comes behind it is
read from outside of tags. -/
structure Dropped {element : Element} (before : List Char) (start : StartTag element)
    (finish : EndTag element) : Prop where
  unchanged : ∀ content content' after, Free element content → Free element content' →
    htmlToText (document before start content finish after) =
      htmlToText (document before start content' finish after)
  kept : ∃ scanner : Scanner, scanner.state = .normal ∧
    ∀ content after, Free element content →
      htmlToText (document before start content finish after) =
        collapseAndTrim (scanner.scan 0 after).finish

/-! ## Start tags -/

theorem notMem_name {element : Element} {name : List Char}
    (hname : name.map Char.toLower = element.tag) : '>' ∉ name ∧ '<' ∉ name := by
  have htag := notMem_tag element
  rw [← hname] at htag
  exact ⟨fun h => htag.1 (List.mem_map_of_mem (f := Char.toLower) h),
    fun h => htag.2 (List.mem_map_of_mem (f := Char.toLower) h)⟩

theorem tagName_append {element : Element} {name : List Char}
    (hname : name.map Char.toLower = element.tag) (tail : List Char) :
    tagName (name ++ tail) =
      element.tag ++ (tail.map Char.toLower).takeWhile fun c => !Text.isWhitespace c := by
  have hplain : ∀ c ∈ element.tag, (!Text.isWhitespace c) = true := by
    cases element <;> decide
  have hfirst : (element.tag ++ tail.map Char.toLower).dropWhile Text.isWhitespace =
      element.tag ++ tail.map Char.toLower := by
    have hs : Text.isWhitespace 's' = false := by decide
    cases element <;> simp [Element.tag, scriptTag, styleTag, hs]
  rw [tagName, List.map_append, hname, hfirst, List.takeWhile_append_of_pos hplain]

/-- White space ends the name, and a `/` belongs to it. -/
theorem opened_append_iff {element : Element} {name : List Char}
    (hname : name.map Char.toLower = element.tag) {tail : List Char}
    (htail : ∀ c ∈ tail.head?, Ascii.isWhitespace c = true ∨ c = '/') :
    opened (name ++ tail) = some element ↔ ∀ c ∈ tail.head?, Ascii.isWhitespace c = true := by
  have hword : (tail.map Char.toLower).takeWhile (fun c => !Text.isWhitespace c) = [] →
      opened (name ++ tail) = some element := by
    intro hend
    rw [opened, tagName_append hname, hend, List.append_nil]
    cases element <;> rfl
  cases tail with
  | nil => exact iff_of_true (hword rfl) (by simp)
  | cons c rest =>
      rw [List.head?_cons] at htail ⊢
      rcases htail c rfl with hspace | rfl
      · refine iff_of_true (hword ?_) (by simpa using hspace)
        have hwhite : Text.isWhitespace c.toLower = true := by
          simp only [Ascii.isWhitespace, Bool.or_eq_true, beq_iff_eq] at hspace
          rcases hspace with (((rfl | rfl) | rfl) | rfl) | rfl <;> decide
        rw [List.map_cons, List.takeWhile_cons_of_neg (by simp [hwhite])]
      · refine iff_of_false ?_ fun hall => absurd (hall '/' rfl) (by decide)
        rw [opened, tagName_append hname, List.map_cons,
          List.takeWhile_cons_of_pos (by decide)]
        have hslash (tag : List Char) (htag : '/' ∉ tag) (word : List Char) :
            element.tag ++ '/'.toLower :: word ≠ tag := by
          rintro rfl
          exact htag (List.mem_append_right _ List.mem_cons_self)
        rw [if_neg (hslash scriptTag (by decide) _), if_neg (hslash styleTag (by decide) _)]
        exact Option.some_ne_none element |>.symm

/-- Behind the name stands white space or a `/`. -/
theorem StartTag.head?_tail {element : Element} (start : StartTag element) :
    ∀ c ∈ start.tail.head?, Ascii.isWhitespace c = true ∨ c = '/' := by
  intro c hc
  rw [StartTag.tail] at hc
  cases hattributes : start.attributes with
  | nil =>
      rw [hattributes, List.flatMap_nil, List.nil_append] at hc
      exact start.isTrailing c (List.mem_of_mem_head? hc)
  | cons attr attributes =>
      obtain ⟨d, rest, hseparator⟩ := List.exists_cons_of_ne_nil attr.separator_ne
      rw [hattributes, List.flatMap_cons, Attribute.text, hseparator] at hc
      obtain rfl : d = c := Option.some_inj.mp hc
      apply attr.isSeparator
      rw [hseparator]
      exact List.mem_cons_self

/-- **A start tag without a `>` in it is recognised if its name ends with white space.** -/
theorem endsIn_start_iff {element : Element} {before : List Char} (hbefore : EndsIn before none)
    {start : StartTag element} (hplain : '>' ∉ start.tail) :
    EndsIn (before ++ start.text) (some element) ↔
      ∀ c ∈ start.tail.head?, Ascii.isWhitespace c = true := by
  rw [← opened_append_iff start.name_eq start.head?_tail]
  have htag : '>' ∉ start.name ++ start.tail := by
    rw [List.mem_append, not_or]
    exact ⟨(notMem_name start.name_eq).1, hplain⟩
  have hends := hbefore.tag htag
  constructor
  · intro hstart
    exact hends.unique hstart
  · intro hopened
    rw [hopened] at hends
    exact hends

/-- A `>` in a value ends the tag, and what stands behind it is dropped with the text. -/
theorem endsIn_start_of_quoted {element : Element} {before : List Char}
    (hbefore : EndsIn before none) {start : StartTag element} {first behind : List Char}
    (htail : start.tail = first ++ '>' :: behind) (hfirst : '>' ∉ first)
    (hname : ∀ c ∈ first.head?, Ascii.isWhitespace c = true)
    (hfree : ∀ suffix, suffix <:+ behind ++ ['>'] →
      matchesClosingTag suffix element.tag = false) :
    EndsIn (before ++ start.text) (some element) := by
  have htag : '>' ∉ start.name ++ first := by
    rw [List.mem_append, not_or]
    exact ⟨(notMem_name start.name_eq).1, hfirst⟩
  have hopened : opened (start.name ++ first) = some element :=
    (opened_append_iff start.name_eq fun c hc => .inl (hname c hc)).mpr hname
  have hends := hbefore.tag htag
  rw [hopened] at hends
  have hlast : (before ++ '<' :: (start.name ++ first ++ ['>'])).getLast? = some '>' := by
    rw [← List.cons_append, ← List.append_assoc, List.getLast?_concat]
  have htext : before ++ start.text =
      before ++ '<' :: (start.name ++ first ++ ['>']) ++ (behind ++ ['>']) := by
    rw [StartTag.text, htail]
    simp
  rw [htext]
  exact hends.append hlast hfree

/-! ## Dropping -/

theorem head?_of_matchesClosingTag {text tag : List Char}
    (hmatch : matchesClosingTag text tag = true) : text.head? = some '<' := by
  rw [matchesClosingTag_iff] at hmatch
  cases text with
  | nil => exact absurd hmatch.length_le (by simp [closingTag_eq])
  | cons c text =>
      have hlower : '<' = c.toLower := (List.cons_prefix_cons.mp hmatch).1
      rw [List.head?_cons, (Ascii.toLower_eq_iff (by decide)).mp hlower.symm]

/-- In content that is free of end tags, no closing tag begins. -/
theorem Free.matchesClosingTag {element : Element} {content : List Char}
    (hfree : Free element content) (rest : List Char) {suffix : List Char} (hne : suffix ≠ [])
    (hsuffix : suffix <:+ content) :
    matchesClosingTag (suffix ++ '<' :: rest) element.tag = false := by
  rw [matchesClosingTag_eq_false_iff, List.map_append, List.map_cons]
  intro hmatch
  have hbegins : suffix.map Char.toLower ++ ['<'] <+:
      suffix.map Char.toLower ++ '<' :: rest.map Char.toLower := by simp
  rcases List.prefix_or_prefix_of_prefix hmatch hbegins with hinside | hacross
  · rcases List.prefix_concat_iff.mp hinside with heq | ⟨behind, hbehind⟩
    · rw [closingTag_eq] at heq
      cases (List.append_inj' heq rfl).2
    · have hend := hfree suffix ((List.mem_tails _ _).mpr hsuffix)
      rw [closingTag_eq, List.append_assoc] at hbehind
      have hname : element.tag.isPrefixOf (element.tag ++ '>' :: behind) = true :=
        List.isPrefixOf_iff_prefix.mpr (List.prefix_append _ _)
      rw [beginsEndTag, ← hbehind] at hend
      simp [hname] at hend
  · -- the closing tag has one `<`
    cases suffix with
    | nil => exact hne rfl
    | cons c suffix =>
        rw [List.map_cons, List.cons_append] at hacross
        have hmem : '<' ∈ '/' :: (element.tag ++ ['>']) :=
          (List.cons_prefix_cons.mp hacross).2.subset (by simp)
        have htag := (notMem_tag element).2
        simp [htag] at hmem

theorem notMem_spaces (spaces : Spaces) {c : Char} (hc : Ascii.isWhitespace c = false) :
    c ∉ spaces.text := by
  intro hmem
  have hspace := spaces.isSpace c hmem
  rw [hc] at hspace
  cases hspace

/-- An end tag without white space is a closing tag. -/
theorem EndTag.map_text {element : Element} {finish : EndTag element}
    (hspaces : finish.spaces.text = []) :
    finish.text.map Char.toLower = closingTag element.tag := by
  rw [EndTag.text, hspaces, List.append_nil, List.map_cons, List.map_cons, List.map_append,
    finish.name_eq]
  rfl

/-- No closing tag begins in an end tag with white space. -/
theorem EndTag.matchesClosingTag {element : Element} {finish : EndTag element}
    (hspaces : finish.spaces.text ≠ []) {c : Char} (hc : c ≠ '<') {suffix : List Char}
    (hsuffix : suffix <:+ finish.text ++ [c]) :
    matchesClosingTag suffix element.tag = false := by
  rw [Bool.eq_false_iff]
  intro hmatch
  rw [EndTag.text, List.cons_append] at hsuffix
  rcases List.suffix_cons_iff.mp hsuffix with rfl | hinside
  · rw [matchesClosingTag_iff] at hmatch
    have hparts : ('<' :: ('/' :: (finish.name ++ finish.spaces.text ++ ['>']) ++ [c])).map
        Char.toLower = '<' :: '/' :: element.tag ++
          (finish.spaces.text ++ ['>', c]).map Char.toLower := by
      rw [← finish.name_eq]
      simp
    rw [hparts, closingTag_eq, List.prefix_append_right_inj] at hmatch
    obtain ⟨space, spaces, hcons⟩ := List.exists_cons_of_ne_nil hspaces
    rw [hcons] at hmatch
    have hlower : '>' = space.toLower := (List.cons_prefix_cons.mp hmatch).1
    have hspace : '>' ∈ finish.spaces.text := by
      rw [hcons, ← (Ascii.toLower_eq_iff (by decide)).mp hlower.symm]
      exact List.mem_cons_self
    exact notMem_spaces finish.spaces (by decide) hspace
  · have hmem := hinside.subset (List.mem_of_mem_head? (head?_of_matchesClosingTag hmatch))
    have hname := (notMem_name finish.name_eq).2
    have hspace : '<' ∉ finish.spaces.text := notMem_spaces finish.spaces (by decide)
    simp [hname, hspace, Ne.symm hc] at hmem

/-- Only white space is collapsed. -/
theorem filter_collapseAndTrim (text : List Char) :
    (collapseAndTrim text).filter (fun c => !Text.isWhitespace c) =
      text.filter fun c => !Text.isWhitespace c := by
  have hfold : (text.foldl collapseStep ([], false)).1.filter (fun c => !Text.isWhitespace c) =
      text.filter fun c => !Text.isWhitespace c := by
    induction text using List.reverseRecOn with
    | nil => rfl
    | append_singleton text c ih =>
        rw [List.foldl_append, List.foldl_cons, List.foldl_nil, List.filter_append, ← ih,
          collapseStep]
        split_ifs with hc hspace <;> simp [hc, Text.isWhitespace_space]
  rw [collapseAndTrim, ← hfold]
  generalize (text.foldl collapseStep ([], false)).1 = result
  split_ifs with hlast
  · obtain ⟨result, rfl⟩ := List.getLast?_eq_some_iff.mp hlast
    simp [Text.isWhitespace_space]
  · rfl

/-- Two texts that differ in a character are not collapsed to the same. -/
theorem collapseAndTrim_ne (before after : List Char) :
    collapseAndTrim (before ++ 'x' :: after) ≠ collapseAndTrim (before ++ 'y' :: after) := by
  intro heq
  have hfilter := congrArg (List.filter fun c => !Text.isWhitespace c) heq
  rw [filter_collapseAndTrim, filter_collapseAndTrim, List.filter_append, List.filter_append,
    List.append_cancel_left_eq] at hfilter
  have hx : Text.isWhitespace 'x' = false := by decide
  have hy : Text.isWhitespace 'y' = false := by decide
  simp [hx, hy] at hfilter

theorem getLast?_start {element : Element} (before : List Char) (start : StartTag element) :
    (before ++ start.text).getLast? = some '>' := by
  rw [StartTag.text, ← List.cons_append, ← List.append_assoc, List.getLast?_concat]

/-- An element that is entered and left is dropped. -/
theorem dropped_of_endsIn {element : Element} {before : List Char} {start : StartTag element}
    {finish : EndTag element} (hstart : EndsIn (before ++ start.text) (some element))
    (hspaces : finish.spaces.text = []) : Dropped before start finish := by
  obtain ⟨scanner, hstate, hscan⟩ := hstart.scan_dropped (getLast?_start before start)
  have htext (content after : List Char) (hfree : Free element content) :
      htmlToText (document before start content finish after) =
        collapseAndTrim (Scanner.scan 0 { scanner with state := .normal } after).finish := by
    rw [htmlToText, document, hscan content (finish.text ++ after),
      Scanner.scan_closingTag hstate (EndTag.map_text hspaces)]
    intro suffix hne hsuffix
    exact hfree.matchesClosingTag _ hne hsuffix
  constructor
  · intro content content' after hfree hfree'
    rw [htext content after hfree, htext content' after hfree']
  · exact ⟨{ scanner with state := .normal }, rfl, htext⟩

/-- Behind an end tag with white space, the rest of the document is lost. -/
theorem spaces_eq_nil {element : Element} {before : List Char} {start : StartTag element}
    {finish : EndTag element} (hstart : EndsIn (before ++ start.text) (some element))
    (hdropped : Dropped before start finish) : finish.spaces.text = [] := by
  by_contra hspaces
  obtain ⟨scanner, hstate, hscan⟩ := hstart.scan_dropped (getLast?_start before start)
  obtain ⟨outside, houtside, hkept⟩ := hdropped.kept
  have hfree : Free element [] := by cases element <;> decide
  have hlost (c : Char) (hc : c ≠ '<') :
      htmlToText (document before start [] finish [c]) = collapseAndTrim scanner.finish := by
    have hend := hscan (finish.text ++ [c]) [] fun suffix _ hsuffix => by
      rw [List.append_nil]
      exact EndTag.matchesClosingTag hspaces hc hsuffix
    rw [List.append_nil] at hend
    rw [htmlToText, document, List.nil_append, hend, Scanner.scan]
  have hread (c : Char) (hlt : c ≠ '<') (hamp : c ≠ '&') :
      htmlToText (document before start [] finish [c]) =
        collapseAndTrim (outside.output ++ [c]) := by
    rw [hkept [] [c] hfree, Scanner.scan, Scanner.step, houtside, Scanner.scan]
    dsimp only
    rw [Scanner.stepNormal, if_neg hlt, if_neg hamp, Scanner.finish, houtside]
    rfl
  apply collapseAndTrim_ne outside.output []
  rw [← hread 'x' (by decide) (by decide), ← hread 'y' (by decide) (by decide),
    hlost 'x' (by decide), hlost 'y' (by decide)]

/-- When the element is not entered, the closing tag of the other element leads outside of
tags, if it was not outside. -/
theorem scan_other {element : Element} {text : List Char} {place : Option Element}
    (htext : EndsIn text place) (hlast : text.getLast? = some '>')
    (hplace : place ≠ some element) :
    ∃ scanner : Scanner, scanner.Outside ∧ ∀ rest,
      Scanner.scan 0 .start (text ++ (closingTag element.other.tag ++ rest)) =
        Scanner.scan 0 scanner rest := by
  cases place with
  | none =>
      have htag : '>' ∉ '/' :: element.other.tag := by
        simpa using (notMem_tag element.other).1
      have hopened : opened ('/' :: element.other.tag) = none := by cases element <;> decide
      have hends := htext.tag htag
      rw [hopened] at hends
      obtain ⟨scanner, houtside, hscan⟩ := hends.reads
      refine ⟨scanner, houtside, fun rest => ?_⟩
      rw [← hscan, List.append_assoc]
      rfl
  | some inside =>
      obtain rfl : inside = element.other := by
        cases inside <;> cases element <;> first | rfl | exact absurd rfl hplace
      obtain ⟨scanner, hstate, hscan⟩ := htext.scan_dropped hlast
      have hlower : (closingTag element.other.tag).map Char.toLower =
          closingTag element.other.tag := by
        cases element <;> decide
      refine ⟨{ scanner with state := .normal }, .inl rfl, fun rest => ?_⟩
      rw [← Scanner.scan_closingTag hstate hlower rest, ← hscan [], List.nil_append]
      intro suffix hne hsuffix
      exact absurd (List.suffix_nil.mp hsuffix) hne

/-- Text outside of tags is written, and an end tag behind it. -/
theorem finish_scan_outside {scanner : Scanner} (houtside : scanner.Outside) {element : Element}
    (finish : EndTag element) :
    ∃ output, ∀ c, c ≠ '<' → c ≠ '&' → c ≠ ' ' →
      (Scanner.scan 0 scanner ('>' :: c :: finish.text)).finish = output ++ c :: [' '] := by
  obtain ⟨next, hstate, hstep⟩ := Scanner.step_greater houtside
  refine ⟨next.output, fun c hlt hamp hspace => ?_⟩
  have hname := (notMem_name finish.name_eq).1
  have hspaces : '>' ∉ finish.spaces.text := notMem_spaces finish.spaces (by decide)
  have htag : '>' ∉ '/' :: (finish.name ++ finish.spaces.text) := by
    simp [hname, hspaces]
  have hopened : opened ('/' :: (finish.name ++ finish.spaces.text)) = none := by
    have hslash : Text.isWhitespace '/' = false := by decide
    simp [opened, tagName, hslash, scriptTag, styleTag]
  have htext : finish.text = '<' :: (('/' :: (finish.name ++ finish.spaces.text)) ++ ['>']) := rfl
  rw [Scanner.scan, hstep, Scanner.scan, Scanner.step, hstate]
  dsimp only
  rw [Scanner.stepNormal, if_neg hlt, if_neg hamp, htext,
    Scanner.scan_tag_of_normal (by exact hstate) htag, Scanner.closeTag_of_none hopened
      List.getLast?_concat hspace, Scanner.scan, Scanner.finish]
  dsimp only
  rw [if_neg (by decide), List.append_assoc]
  rfl

/-- Where the element is not entered, its text is written. -/
theorem endsIn_of_dropped {element : Element} {before : List Char} {start : StartTag element}
    {finish : EndTag element} (hdropped : Dropped before start finish) :
    EndsIn (before ++ start.text) (some element) := by
  have hlast := getLast?_start before start
  obtain ⟨place, hends⟩ := exists_endsIn hlast
  by_contra hnot
  have hplace : place ≠ some element := by
    intro heq
    rw [heq] at hends
    exact hnot hends
  -- two contents that lead outside of tags and write different characters there
  obtain ⟨scanner, houtside, hscan⟩ := scan_other hends hlast hplace
  obtain ⟨output, houtput⟩ := finish_scan_outside houtside finish
  have htext (c : Char) (hlt : c ≠ '<') (hamp : c ≠ '&') (hspace : c ≠ ' ') :
      htmlToText (document before start (closingTag element.other.tag ++ ['>', c]) finish []) =
        collapseAndTrim (output ++ c :: [' ']) := by
    rw [htmlToText, document, List.append_nil, List.append_assoc (closingTag _), hscan]
    exact congrArg collapseAndTrim (houtput c hlt hamp hspace)
  have hunchanged := hdropped.unchanged (closingTag element.other.tag ++ ['>', 'x'])
    (closingTag element.other.tag ++ ['>', 'y']) []
    (by cases element <;> decide) (by cases element <;> decide)
  rw [htext 'x' (by decide) (by decide) (by decide),
    htext 'y' (by decide) (by decide) (by decide)] at hunchanged
  exact collapseAndTrim_ne output [' '] hunchanged

/-- **When the text of an element is dropped.** -/
theorem dropped_iff {element : Element} (before : List Char) (start : StartTag element)
    (finish : EndTag element) :
    Dropped before start finish ↔
      EndsIn (before ++ start.text) (some element) ∧ finish.spaces.text = [] := by
  constructor
  · intro hdropped
    have hstart := endsIn_of_dropped hdropped
    exact ⟨hstart, spaces_eq_nil hstart hdropped⟩
  · rintro ⟨hstart, hspaces⟩
    exact dropped_of_endsIn hstart hspaces

/-- `<script/async>`. -/
def asyncScript : StartTag .script where
  name := scriptTag
  name_eq := by decide
  attributes :=
    [{ separator := ['/']
       separator_ne := by decide
       isSeparator := by decide
       name := ['a', 's', 'y', 'n', 'c']
       name_ne := by decide
       isName := by decide
       value := .empty }]
  trailing := []
  isTrailing := by decide

/-- `</script>`. -/
def scriptEnd : EndTag .script where
  name := scriptTag
  name_eq := by decide
  spaces := { text := [], isSpace := by decide }

/-- With a `/` behind the name, the content is written. -/
theorem asyncScript_leaks :
    Free .script "alert(1)".toList ∧
      htmlToText (document [] asyncScript "alert(1)".toList scriptEnd []) = "alert(1)".toList ∧
      ¬Dropped [] asyncScript scriptEnd := by
  refine ⟨by decide, by decide, fun hdropped => ?_⟩
  have hunchanged := hdropped.unchanged "alert(1)".toList [] [] (by decide) (by decide)
  revert hunchanged
  decide

example : htmlToText "a<script>b</script >c".toList = ['a'] := by decide

end Modo.Sanitize
