import Modo.Lib.Ascii
import Modo.Sanitize.Html

/-!
# Where a text of HTML ends

The scanner of `html_to_text` looks ahead for the closing tag of an element whose text is
dropped, and skips it.  `EndsIn` says without looking ahead where a text ends: outside of tags,
or inside of an element.  The scanner reads a text to that place (`EndsIn.reads`), and inside
of an element it drops what has no closing tag in it (`EndsIn.scan_dropped`).
-/

namespace Modo.Sanitize

/-- The elements whose text is dropped. -/
inductive Element where
  | script
  | style
  deriving DecidableEq

namespace Element

def tag : Element → List Char
  | script => scriptTag
  | style => styleTag

def other : Element → Element
  | script => style
  | style => script

/-- The state of the scanner inside of the element. -/
def state : Element → State
  | script => .insideScript
  | style => .insideStyle

end Element

/-! ## Where a text ends -/

/-- The element that a tag opens: its first word is the name. -/
def opened (tag : List Char) : Option Element :=
  if tagName tag = scriptTag then some .script
  else if tagName tag = styleTag then some .style
  else none

/-- The text ends with a closing tag of the element. -/
def EndsClosed (element : Element) (text : List Char) : Prop :=
  closingTag element.tag <:+ text.map Char.toLower

/-- A text ends outside of tags, or inside of an element.  A tag goes from `<` to the first `>`,
and an element to its first closing tag. -/
inductive EndsIn : List Char → Option Element → Prop where
  | nil : EndsIn [] none
  | char {text : List Char} {c : Char} (htext : EndsIn text none) (hc : c ≠ '<') :
      EndsIn (text ++ [c]) none
  | tag {text tag : List Char} (htext : EndsIn text none) (htag : '>' ∉ tag) :
      EndsIn (text ++ '<' :: (tag ++ ['>'])) (opened tag)
  | content {text : List Char} {element : Element} {c : Char} (htext : EndsIn text (some element))
      (hopen : ¬EndsClosed element (text ++ [c])) : EndsIn (text ++ [c]) (some element)
  | closed {text : List Char} {element : Element} {c : Char} (htext : EndsIn text (some element))
      (hclosed : EndsClosed element (text ++ [c])) : EndsIn (text ++ [c]) none

/-- A text ends in one of these places, or inside of a tag. -/
theorem endsIn_or_insideTag (text : List Char) :
    (∃ place, EndsIn text place) ∨
      ∃ front tag, EndsIn front none ∧ '>' ∉ tag ∧ text = front ++ '<' :: tag := by
  induction text using List.reverseRecOn with
  | nil => exact .inl ⟨none, .nil⟩
  | append_singleton text c ih =>
      -- the last character leaves the place, or leads from it into another one
      rcases ih with ⟨place, hends⟩ | ⟨front, tag, hfront, htag, rfl⟩
      · cases place with
        | none =>
            by_cases hc : c = '<'
            · subst hc
              exact .inr ⟨text, [], hends, List.not_mem_nil, rfl⟩
            · exact .inl ⟨none, hends.char hc⟩
        | some element =>
            by_cases hclosed : EndsClosed element (text ++ [c])
            · exact .inl ⟨none, hends.closed hclosed⟩
            · exact .inl ⟨some element, hends.content hclosed⟩
      · rw [List.append_assoc, List.cons_append]
        by_cases hc : c = '>'
        · subst hc
          exact .inl ⟨opened tag, hfront.tag htag⟩
        · refine .inr ⟨front, tag ++ [c], hfront, ?_, rfl⟩
          rw [List.mem_append, List.mem_singleton, not_or]
          exact ⟨htag, Ne.symm hc⟩

/-- A `>` ends a tag. -/
theorem exists_endsIn {text : List Char} (hlast : text.getLast? = some '>') :
    ∃ place, EndsIn text place := by
  rcases endsIn_or_insideTag text with hends | ⟨front, tag, _, htag, rfl⟩
  · exact hends
  · rw [List.getLast?_append_of_ne_nil _ (List.cons_ne_nil _ _)] at hlast
    rcases List.mem_cons.mp (List.mem_of_mem_getLast? hlast) with h | h
    · cases h
    · exact absurd h htag

/-! ## Closing tags -/

theorem matchesClosingTag_iff (text tag : List Char) :
    matchesClosingTag text tag = true ↔ closingTag tag <+: text.map Char.toLower := by
  rw [matchesClosingTag, decide_eq_true_eq, List.map_take, List.prefix_iff_eq_take, eq_comm]

theorem matchesClosingTag_eq_false_iff (text tag : List Char) :
    matchesClosingTag text tag = false ↔ ¬closingTag tag <+: text.map Char.toLower := by
  rw [Bool.eq_false_iff, ne_eq, matchesClosingTag_iff]

theorem closingTag_eq (tag : List Char) : closingTag tag = ('<' :: '/' :: tag) ++ ['>'] := rfl

theorem notMem_tag (element : Element) : '>' ∉ element.tag ∧ '<' ∉ element.tag := by
  cases element <;> decide

/-- A part of a closing tag that ends with `>` is the whole of it. -/
theorem eq_closingTag_of_isPrefix {element : Element} {text : List Char}
    (hbegins : text <+: closingTag element.tag) (hlast : text.getLast? = some '>') :
    text = closingTag element.tag := by
  rw [closingTag_eq] at hbegins ⊢
  rcases List.prefix_concat_iff.mp hbegins with heq | hproper
  · exact heq
  · have hmem := hproper.subset (List.mem_of_mem_getLast? hlast)
    have htag := (notMem_tag element).1
    simp [htag] at hmem

/-- Behind a `>` a closing tag does not go on. -/
theorem matchesClosingTag_append (element : Element) {text : List Char}
    (hlast : text.getLast? = some '>') (rest : List Char) :
    matchesClosingTag (text ++ rest) element.tag = matchesClosingTag text element.tag := by
  rw [Bool.eq_iff_iff, matchesClosingTag_iff, matchesClosingTag_iff, List.map_append]
  constructor
  · intro hmatch
    rcases List.prefix_or_prefix_of_prefix hmatch (List.prefix_append _ _) with h | h
    · exact h
    · have hlower : (text.map Char.toLower).getLast? = some '>' := by
        rw [List.getLast?_map, hlast]
        rfl
      exact (eq_closingTag_of_isPrefix h hlower).symm ▸ List.prefix_refl _
  · intro hmatch
    exact hmatch.trans (List.prefix_append _ _)

/-! ## The steps of the scanner -/

namespace Scanner

theorem scan_skip (text rest : List Char) (scanner : Scanner) :
    scan text.length scanner (text ++ rest) = scan 0 scanner rest := by
  induction text with
  | nil => rfl
  | cons c text ih => exact ih

/-- Inside of an element the scanner looks for its closing tag. -/
theorem step_of_state {scanner : Scanner} {element : Element}
    (hstate : scanner.state = element.state) (ch : Char) (rest : List Char) :
    scanner.step ch rest = scanner.stepDropped element.tag (ch :: rest) := by
  cases element <;> rw [step, hstate] <;> rfl

/-- Text without a closing tag is dropped. -/
theorem scan_dropped {scanner : Scanner} {element : Element}
    (hstate : scanner.state = element.state) {content rest : List Char}
    (hfree : ∀ suffix, suffix ≠ [] → suffix <:+ content →
      matchesClosingTag (suffix ++ rest) element.tag = false) :
    scan 0 scanner (content ++ rest) = scan 0 scanner rest := by
  induction content with
  | nil => rfl
  | cons c content ih =>
      have hnone := hfree (c :: content) (by simp) (List.suffix_refl _)
      rw [List.cons_append, scan, step_of_state hstate, stepDropped, ← List.cons_append, hnone]
      exact ih fun suffix hne hsuffix =>
        hfree suffix hne (hsuffix.trans (List.suffix_cons c content))

/-- The closing tag leads out of the element. -/
theorem scan_closingTag {scanner : Scanner} {element : Element}
    (hstate : scanner.state = element.state) {finish : List Char}
    (hfinish : finish.map Char.toLower = closingTag element.tag) (after : List Char) :
    scan 0 scanner (finish ++ after) = scan 0 { scanner with state := .normal } after := by
  have hlength : finish.length = (closingTag element.tag).length := by
    rw [← hfinish, List.length_map]
  have hmatch : matchesClosingTag (finish ++ after) element.tag = true := by
    rw [matchesClosingTag_iff, List.map_append, hfinish]
    exact List.prefix_append _ _
  cases finish with
  | nil => cases hfinish
  | cons c finish =>
      rw [List.cons_append, scan, step_of_state hstate, stepDropped, ← List.cons_append, hmatch,
        if_pos rfl, ← hlength]
      exact scan_skip finish after _

/-- A tag ends at its first `>`. -/
theorem scan_tag {scanner : Scanner} (hstate : scanner.state = .insideTag) {text : List Char}
    (htext : '>' ∉ text) (rest : List Char) :
    scan 0 scanner (text ++ '>' :: rest) =
      scan 0 (closeTag { scanner with tagBuf := scanner.tagBuf ++ text }) rest := by
  induction text generalizing scanner with
  | nil =>
      rw [List.nil_append, List.append_nil, scan, step, hstate]
      rfl
  | cons c text ih =>
      rw [List.mem_cons, not_or] at htext
      rw [List.cons_append, scan, step, hstate]
      dsimp only
      rw [if_neg (Ne.symm htext.1), ih rfl htext.2, List.append_assoc, List.singleton_append]

/-! ## Outside of tags -/

/-- The scanner is outside of tags; it may be inside of an entity. -/
def Outside (scanner : Scanner) : Prop :=
  scanner.state = .normal ∨ scanner.state = .insideEntity

/-- Only `<` leads from outside into a tag. -/
theorem step_outside {scanner : Scanner} (houtside : scanner.Outside) {c : Char} (hc : c ≠ '<') :
    ∃ next : Scanner, next.Outside ∧ ∀ rest, scanner.step c rest = (next, 0) := by
  have hnormal (scanner : Scanner) (hstate : scanner.state = .normal) :
      (scanner.stepNormal c).Outside := by
    rw [stepNormal, if_neg hc]
    split_ifs
    · exact .inr rfl
    · exact .inl hstate
  rcases houtside with hstate | hstate
  · refine ⟨scanner.stepNormal c, hnormal scanner hstate, fun rest => ?_⟩
    rw [step, hstate]
  · refine ⟨scanner.stepEntity c, ?_, fun rest => ?_⟩
    · rw [stepEntity]
      split_ifs
      · exact .inl rfl
      · exact .inr hstate
      · exact hnormal _ rfl
    · rw [step, hstate]

/-- A `>` ends an entity, too. -/
theorem step_greater {scanner : Scanner} (houtside : scanner.Outside) :
    ∃ next : Scanner, next.state = .normal ∧ ∀ rest, scanner.step '>' rest = (next, 0) := by
  rcases houtside with hstate | hstate
  · refine ⟨scanner.stepNormal '>', hstate, fun rest => ?_⟩
    rw [step, hstate]
  · refine ⟨scanner.stepEntity '>', rfl, fun rest => ?_⟩
    rw [step, hstate]

theorem scan_tag_of_normal {scanner : Scanner} (hstate : scanner.state = .normal)
    {tag : List Char} (htag : '>' ∉ tag) (rest : List Char) :
    scan 0 scanner ('<' :: (tag ++ '>' :: rest)) =
      scan 0 (closeTag { scanner with tagBuf := tag, state := .insideTag }) rest := by
  rw [scan, step, hstate]
  exact scan_tag rfl htag rest

/-- A tag that is read from outside. -/
theorem scan_tag_of_outside {scanner : Scanner} (houtside : scanner.Outside) {tag : List Char}
    (htag : '>' ∉ tag) :
    ∃ inside : Scanner, inside.tagBuf = tag ∧
      ∀ rest, scan 0 scanner ('<' :: (tag ++ '>' :: rest)) = scan 0 inside.closeTag rest := by
  rcases houtside with hstate | hstate
  · exact ⟨{ scanner with tagBuf := tag, state := .insideTag }, rfl,
      scan_tag_of_normal hstate htag⟩
  · refine ⟨{ scanner with output := scanner.flushEntity, tagBuf := tag, state := .insideTag },
      rfl, fun rest => ?_⟩
    rw [scan, step, hstate]
    exact scan_tag rfl htag rest

/-- A tag of no element leaves a space. -/
theorem closeTag_of_none {scanner : Scanner} (hopened : opened scanner.tagBuf = none) {c : Char}
    (hlast : scanner.output.getLast? = some c) (hc : c ≠ ' ') :
    scanner.closeTag = { scanner with output := scanner.output ++ [' '], state := .normal } := by
  have hne : scanner.output ≠ [] := by
    intro hnil
    rw [hnil] at hlast
    cases hlast
  rw [opened] at hopened
  rw [closeTag]
  split_ifs at hopened ⊢ with hscript hstyle hspace
  · rfl
  · rw [hlast] at hspace
    simp [hc, hne] at hspace

theorem state_closeTag (scanner : Scanner) :
    scanner.closeTag.state = (opened scanner.tagBuf).elim .normal Element.state := by
  rw [closeTag, opened]
  split_ifs <;> rfl

/-- What the scanner makes of a text that ends in this place, whatever comes behind it. -/
def Reads (text : List Char) : Option Element → Prop
  | none => ∃ scanner : Scanner, scanner.Outside ∧
      ∀ rest, scan 0 .start (text ++ rest) = scan 0 scanner rest
  | some element => ∃ (front content : List Char) (scanner : Scanner),
      text = front ++ '>' :: content ∧ scanner.state = element.state ∧
      (∀ suffix, suffix <:+ content → matchesClosingTag suffix element.tag = false) ∧
      ∀ rest, scan 0 .start (front ++ '>' :: rest) = scan 0 scanner rest

theorem reads_tag {text tag : List Char} (htext : Reads text none) (htag : '>' ∉ tag) :
    Reads (text ++ '<' :: (tag ++ ['>'])) (opened tag) := by
  obtain ⟨scanner, houtside, hscan⟩ := htext
  obtain ⟨inside, rfl, hinside⟩ := scan_tag_of_outside houtside htag
  have hstate := state_closeTag inside
  have hclose (rest : List Char) :
      scan 0 .start (text ++ '<' :: (inside.tagBuf ++ '>' :: rest)) =
        scan 0 inside.closeTag rest := by
    rw [hscan, hinside]
  cases hopened : opened inside.tagBuf with
  | none =>
      rw [hopened] at hstate
      refine ⟨inside.closeTag, .inl hstate, fun rest => ?_⟩
      rw [← hclose rest]
      simp
  | some element =>
      rw [hopened] at hstate
      refine ⟨text ++ '<' :: inside.tagBuf, [], inside.closeTag, by simp, hstate, ?_,
        fun rest => ?_⟩
      · intro suffix hsuffix
        rw [List.suffix_nil.mp hsuffix]
        cases element <;> rfl
      · rw [← hclose rest]
        simp

/-- A closing tag does not begin in front of a `>`. -/
theorem endsClosed_after {element : Element} {front content : List Char} (hne : content ≠ [])
    (hclosed : EndsClosed element (front ++ '>' :: content)) : EndsClosed element content := by
  rw [EndsClosed, List.map_append, List.map_cons] at hclosed
  have hsuffix : '>' :: content.map Char.toLower <:+
      front.map Char.toLower ++ '>' :: content.map Char.toLower := List.suffix_append _ _
  rcases List.suffix_or_suffix_of_suffix hclosed hsuffix with h | h
  · rcases List.suffix_cons_iff.mp h with heq | hbehind
    · cases heq
    · exact hbehind
  · -- the closing tag would have a `>` before its end
    obtain ⟨before, hbefore⟩ := h
    have hcontent : content.map Char.toLower ≠ [] := by simpa using hne
    have hparts := congrArg List.dropLast hbefore
    rw [closingTag_eq, List.dropLast_concat, List.dropLast_append_of_ne_nil (List.cons_ne_nil _ _),
      List.dropLast_cons_of_ne_nil hcontent] at hparts
    have hmem : '>' ∈ '<' :: '/' :: element.tag := by
      rw [← hparts]
      exact List.mem_append_right _ List.mem_cons_self
    have htag := (notMem_tag element).1
    simp [htag] at hmem

/-- A character that does not end the closing tag. -/
theorem reads_content {text : List Char} {element : Element} {c : Char}
    (htext : Reads text (some element)) (hopen : ¬EndsClosed element (text ++ [c])) :
    Reads (text ++ [c]) (some element) := by
  obtain ⟨front, content, scanner, rfl, hstate, hfree, hscan⟩ := htext
  refine ⟨front, content ++ [c], scanner, by simp, hstate, fun suffix hsuffix => ?_, hscan⟩
  rw [matchesClosingTag_eq_false_iff]
  intro hmatch
  rcases List.suffix_concat_iff.mp hsuffix with rfl | ⟨before, rfl, hbefore⟩
  · exact absurd hmatch.length_le (by simp [closingTag_eq])
  · rw [List.map_append, List.map_singleton] at hmatch
    rcases List.prefix_concat_iff.mp hmatch with heq | hproper
    · -- the closing tag ends with the new character
      apply hopen
      rw [EndsClosed, heq, ← List.map_singleton, ← List.map_append]
      have hend : before ++ [c] <:+ front ++ '>' :: content ++ [c] := by
        apply List.suffix_concat_iff.mpr
        exact .inr ⟨before, rfl, (hbefore.trans (List.suffix_cons _ _)).trans
          (List.suffix_append _ _)⟩
      exact hend.map Char.toLower
    · have hnone := hfree before hbefore
      rw [matchesClosingTag_eq_false_iff] at hnone
      exact hnone hproper

/-- The character that ends the closing tag. -/
theorem reads_closed {text : List Char} {element : Element} {c : Char}
    (htext : Reads text (some element)) (hclosed : EndsClosed element (text ++ [c])) :
    Reads (text ++ [c]) none := by
  obtain ⟨front, content, scanner, rfl, hstate, hfree, hscan⟩ := htext
  rw [List.append_assoc, List.cons_append] at hclosed
  obtain ⟨lower, hlower⟩ := endsClosed_after (by simp) hclosed
  obtain ⟨before, finish, hcontent, -, hfinish⟩ := List.map_eq_append_iff.mp hlower.symm
  have hlength := congrArg List.length hfinish
  rw [List.length_map] at hlength
  rcases List.eq_nil_or_concat finish with rfl | ⟨finish', c', rfl⟩
  · cases element <;> cases hfinish
  rw [List.concat_eq_append, ← List.append_assoc] at hcontent
  obtain ⟨rfl, hlast⟩ := List.append_inj' hcontent rfl
  obtain rfl := List.singleton_inj.mp hlast
  refine ⟨{ scanner with state := .normal }, .inl rfl, fun rest => ?_⟩
  have hdropped : scan 0 scanner (before ++ (finish'.concat c ++ rest)) =
      scan 0 scanner (finish'.concat c ++ rest) := by
    apply scan_dropped hstate
    intro suffix hne hsuffix
    rw [matchesClosingTag_eq_false_iff]
    intro hmatch
    -- a closing tag that begins earlier would end in the content
    have hbegins : (suffix ++ finish').map Char.toLower <+:
        (suffix ++ (finish'.concat c ++ rest)).map Char.toLower := by
      apply List.IsPrefix.map
      rw [List.concat_eq_append, List.append_assoc, ← List.append_assoc suffix]
      exact List.prefix_append _ _
    have hinside := hfree (suffix ++ finish') (List.suffix_append_self_iff.mpr hsuffix)
    rw [matchesClosingTag_eq_false_iff] at hinside
    apply hinside
    apply List.prefix_of_prefix_length_le hmatch hbegins
    have hpos := List.length_pos_of_ne_nil hne
    rw [← hlength, List.length_map, List.length_concat, List.length_append]
    omega
  rw [← scan_closingTag hstate hfinish rest, ← hdropped, ← hscan]
  simp

end Scanner

/-- **The scanner reads a text to the place where it ends.** -/
theorem EndsIn.reads {text : List Char} {place : Option Element} (h : EndsIn text place) :
    Scanner.Reads text place := by
  induction h with
  | nil => exact ⟨.start, .inl rfl, fun _ => rfl⟩
  | char _ hc ih =>
      obtain ⟨scanner, houtside, hscan⟩ := ih
      obtain ⟨next, hnext, hstep⟩ := Scanner.step_outside houtside hc
      refine ⟨next, hnext, fun rest => ?_⟩
      rw [List.append_assoc, hscan, List.singleton_append, Scanner.scan, hstep]
  | tag _ htag ih => exact Scanner.reads_tag ih htag
  | content _ hopen ih => exact Scanner.reads_content ih hopen
  | closed _ hclosed ih => exact Scanner.reads_closed ih hclosed

/-- Inside of an element, behind a `>`, text without a closing tag is dropped. -/
theorem EndsIn.scan_dropped {text : List Char} {element : Element}
    (h : EndsIn text (some element)) (hlast : text.getLast? = some '>') :
    ∃ scanner : Scanner, scanner.state = element.state ∧ ∀ content rest,
      (∀ suffix, suffix ≠ [] → suffix <:+ content →
        matchesClosingTag (suffix ++ rest) element.tag = false) →
      Scanner.scan 0 .start (text ++ (content ++ rest)) = Scanner.scan 0 scanner rest := by
  obtain ⟨front, inside, scanner, rfl, hstate, hfree, hscan⟩ := h.reads
  refine ⟨scanner, hstate, fun content rest hcontent => ?_⟩
  have hparts : front ++ '>' :: inside ++ (content ++ rest) =
      front ++ '>' :: ((inside ++ content) ++ rest) := by simp
  rw [hparts, hscan]
  apply Scanner.scan_dropped hstate
  intro suffix hne hsuffix
  rcases List.suffix_or_suffix_of_suffix hsuffix (List.suffix_append _ _) with
    hbehind | ⟨before, rfl⟩
  · exact hcontent suffix hne hbehind
  have hbefore : before <:+ inside := List.suffix_append_self_iff.mp hsuffix
  by_cases hempty : before = []
  · subst hempty
    exact hcontent _ hne (List.suffix_refl _)
  · -- what begins in the start tag has its last character in it
    have hend : before.getLast? = some '>' := by
      have hsuffix : before <:+ front ++ '>' :: inside :=
        (hbefore.trans (List.suffix_cons _ _)).trans (List.suffix_append _ _)
      obtain ⟨_, heq⟩ := hsuffix
      rw [← heq, List.getLast?_append_of_ne_nil _ hempty] at hlast
      exact hlast
    rw [List.append_assoc, matchesClosingTag_append element hend]
    exact hfree before hbefore

theorem EndsIn.state {text : List Char} {place : Option Element} (h : EndsIn text place) :
    place.elim (Scanner.scan 0 .start text).Outside
      fun element => (Scanner.scan 0 .start text).state = element.state := by
  cases place with
  | none =>
      obtain ⟨scanner, houtside, hscan⟩ := h.reads
      have hend := hscan []
      rw [List.append_nil] at hend
      rw [Option.elim_none, hend]
      exact houtside
  | some element =>
      obtain ⟨front, content, scanner, rfl, hstate, hfree, hscan⟩ := h.reads
      have hdropped : Scanner.scan 0 scanner (content ++ []) = scanner := by
        apply Scanner.scan_dropped hstate
        intro suffix _ hsuffix
        rw [List.append_nil]
        exact hfree suffix hsuffix
      rw [List.append_nil] at hdropped
      rw [Option.elim_some, hscan, hdropped]
      exact hstate

/-- A text ends in one place. -/
theorem EndsIn.unique {text : List Char} {place place' : Option Element} (h : EndsIn text place)
    (h' : EndsIn text place') : place = place' := by
  have hstate := h.state
  have hstate' := h'.state
  have hinside (element : Element) :
      ¬(element.state = .normal ∨ element.state = .insideEntity) := by
    cases element <;> decide
  cases place with
  | none =>
      cases place' with
      | none => rfl
      | some element' =>
          rw [Option.elim_none, Scanner.Outside, hstate'] at hstate
          exact absurd hstate (hinside element')
  | some element =>
      cases place' with
      | none =>
          rw [Option.elim_none, Scanner.Outside, hstate] at hstate'
          exact absurd hstate' (hinside element)
      | some element' =>
          have hsame : element.state = element'.state := hstate.symm.trans hstate'
          cases element <;> cases element' <;> first | rfl | cases hsame

/-- Text without a closing tag stays inside of the element. -/
theorem EndsIn.append {element : Element} {text content : List Char}
    (htext : EndsIn text (some element)) (hlast : text.getLast? = some '>')
    (hfree : ∀ suffix, suffix <:+ content → matchesClosingTag suffix element.tag = false) :
    EndsIn (text ++ content) (some element) := by
  obtain ⟨front, rfl⟩ := List.getLast?_eq_some_iff.mp hlast
  induction content using List.reverseRecOn with
  | nil => rwa [List.append_nil]
  | append_singleton content c ih =>
      rw [← List.append_assoc]
      refine (ih fun suffix hsuffix => ?_).content fun hclosed => ?_
      · rw [Bool.eq_false_iff]
        intro hmatch
        have hlonger := hfree (suffix ++ [c]) (List.suffix_append_self_iff.mpr hsuffix)
        rw [matchesClosingTag_eq_false_iff, List.map_append] at hlonger
        exact hlonger (((matchesClosingTag_iff _ _).mp hmatch).trans (List.prefix_append _ _))
      · rw [List.append_assoc, List.append_assoc] at hclosed
        obtain ⟨lower, hlower⟩ := Scanner.endsClosed_after (by simp) hclosed
        obtain ⟨before, finish, hcontent, -, hfinish⟩ := List.map_eq_append_iff.mp hlower.symm
        have hnone := hfree finish ⟨before, hcontent.symm⟩
        rw [matchesClosingTag_eq_false_iff, hfinish] at hnone
        exact hnone (List.prefix_refl _)

end Modo.Sanitize
