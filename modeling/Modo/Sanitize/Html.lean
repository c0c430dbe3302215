import Modo.Lib.Radix
import Modo.Lib.Words

/-!
# Text of HTML

`html_to_text` goes through its input character by character, in one of five states, and
collapses the white space of what it has written (`collapseAndTrim_eq`).  `escape_html` writes
a text so that the scanner stays outside of tags: every `&` it writes begins one of the
entities that the scanner reads back (`scan_escapeChar`).
-/

namespace Modo.Sanitize

/-! ## Entities -/

/-- `char::from_u32`. -/
def charFromU32 (number : ℕ) : Option Char :=
  if number.isValidChar then some (Char.ofNat number) else none

/-- `decode_entity`. -/
def decodeEntity (name : List Char) : Option Char :=
  if name = ['a', 'm', 'p'] then some '&'
  else if name = ['l', 't'] then some '<'
  else if name = ['g', 't'] then some '>'
  else if name = ['q', 'u', 'o', 't'] then some '"'
  else if name = ['#', '3', '9'] ∨ name = ['a', 'p', 'o', 's'] then some '\''
  else
    match name with
    | '#' :: 'x' :: digits | '#' :: 'X' :: digits =>
        (Radix.fromStrRadix (2 ^ 32) 16 digits).bind charFromU32
    | '#' :: digits => (Radix.fromStrRadix (2 ^ 32) 10 digits).bind charFromU32
    | _ => none

/-! ## The scanner -/

inductive State where
  | normal
  | insideTag
  | insideEntity
  | insideScript
  | insideStyle
  deriving DecidableEq

/-- The variables of `html_to_text`. -/
structure Scanner where
  output : List Char
  state : State
  tagBuf : List Char
  entityBuf : List Char
  deriving DecidableEq

/-- The first word of a tag, in lower case. -/
def tagName (tagBuf : List Char) : List Char :=
  ((tagBuf.map Char.toLower).dropWhile Text.isWhitespace).takeWhile fun c => !Text.isWhitespace c

/-- `</tag>`. -/
def closingTag (tag : List Char) : List Char := '<' :: '/' :: (tag ++ ['>'])

/-- `matches_closing_tag`. -/
def matchesClosingTag (text tag : List Char) : Bool :=
  decide ((text.take (closingTag tag).length).map Char.toLower = closingTag tag)

def scriptTag : List Char := ['s', 'c', 'r', 'i', 'p', 't']

def styleTag : List Char := ['s', 't', 'y', 'l', 'e']

namespace Scanner

def start : Scanner where
  output := []
  state := .normal
  tagBuf := []
  entityBuf := []

/-- A character in the state `Normal`. -/
def stepNormal (scanner : Scanner) (ch : Char) : Scanner :=
  if ch = '<' then { scanner with tagBuf := [], state := .insideTag }
  else if ch = '&' then { scanner with entityBuf := [], state := .insideEntity }
  else { scanner with output := scanner.output ++ [ch] }

/-- The end of a tag. -/
def closeTag (scanner : Scanner) : Scanner :=
  if tagName scanner.tagBuf = scriptTag then { scanner with state := .insideScript }
  else if tagName scanner.tagBuf = styleTag then { scanner with state := .insideStyle }
  else
    { scanner with
      output :=
        if scanner.output.getLast? ≠ some ' ' ∧ scanner.output ≠ [] then scanner.output ++ [' ']
        else scanner.output
      state := .normal }

/-- An entity as it was read, without its end. -/
def flushEntity (scanner : Scanner) : List Char := scanner.output ++ '&' :: scanner.entityBuf

/-- The end of an entity. -/
def closeEntity (scanner : Scanner) : Scanner :=
  { scanner with
    output :=
      match decodeEntity scanner.entityBuf with
      | some decoded => scanner.output ++ [decoded]
      | none => scanner.flushEntity ++ [';']
    state := .normal }

/-- A character in the state `InsideEntity`. -/
def stepEntity (scanner : Scanner) (ch : Char) : Scanner :=
  if ch = ';' then scanner.closeEntity
  else if ch.isAlphanum || ch == '#' then { scanner with entityBuf := scanner.entityBuf ++ [ch] }
  else
    -- the character is processed again
    stepNormal { scanner with output := scanner.flushEntity, state := .normal } ch

/-- A character inside of an element whose text is dropped, with the number of characters to
skip behind it. -/
def stepDropped (scanner : Scanner) (tag : List Char) (text : List Char) : Scanner × ℕ :=
  if matchesClosingTag text tag then
    ({ scanner with state := .normal }, (closingTag tag).length - 1)
  else (scanner, 0)

/-- The body of the loop, at the beginning of a text. -/
def step (scanner : Scanner) (ch : Char) (rest : List Char) : Scanner × ℕ :=
  match scanner.state with
  | .normal => (scanner.stepNormal ch, 0)
  | .insideTag =>
      if ch = '>' then (scanner.closeTag, 0)
      else ({ scanner with tagBuf := scanner.tagBuf ++ [ch] }, 0)
  | .insideEntity => (scanner.stepEntity ch, 0)
  | .insideScript => scanner.stepDropped scriptTag (ch :: rest)
  | .insideStyle => scanner.stepDropped styleTag (ch :: rest)

/-- The loop. -/
def scan : ℕ → Scanner → List Char → Scanner
  | _, scanner, [] => scanner
  | skip + 1, scanner, _ :: rest => scan skip scanner rest
  | 0, scanner, ch :: rest => scan (scanner.step ch rest).2 (scanner.step ch rest).1 rest

/-- What was written, with an entity that is not terminated. -/
def finish (scanner : Scanner) : List Char :=
  if scanner.state = .insideEntity then scanner.flushEntity else scanner.output

end Scanner

/-- The body of the loop of `collapse_and_trim`: the result and `prev_space`. -/
def collapseStep (state : List Char × Bool) (ch : Char) : List Char × Bool :=
  if Text.isWhitespace ch then
    (if state.2 = false ∧ state.1 ≠ [] then state.1 ++ [' '] else state.1, true)
  else (state.1 ++ [ch], false)

/-- `collapse_and_trim`. -/
def collapseAndTrim (s : List Char) : List Char :=
  let result := (s.foldl collapseStep ([], false)).1
  if result.getLast? = some ' ' then result.dropLast else result

/-- `html_to_text`. -/
def htmlToText (input : List Char) : List Char :=
  collapseAndTrim (Scanner.scan 0 .start input).finish

/-- `str::replace` of a character. -/
def replace (c : Char) (text input : List Char) : List Char :=
  input.flatMap fun d => if d = c then text else [d]

/-- `escape_html`. -/
def escapeHtml (input : List Char) : List Char :=
  replace '"' ['&', 'q', 'u', 'o', 't', ';'] (replace '>' ['&', 'g', 't', ';']
    (replace '<' ['&', 'l', 't', ';'] (replace '&' ['&', 'a', 'm', 'p', ';'] input)))

/-! ## Collapsing -/

/-- The loop keeps the words before the last part, and this part. -/
theorem foldl_collapseStep (text : List Char) :
    ∃ first last, text.splitOnP Text.isWhitespace = first ++ [last] ∧
      text.foldl collapseStep ([], false) =
        ((first.filter fun part => decide (part ≠ [])).flatMap (fun part => part ++ [' ']) ++ last,
          decide (last = [] ∧ text ≠ [])) := by
  induction text using List.reverseRecOn with
  | nil => exact ⟨[], [], List.splitOnP_nil, rfl⟩
  | append_singleton text c ih =>
      obtain ⟨first, last, hsplit, hfold⟩ := ih
      rw [List.foldl_append, List.foldl_cons, List.foldl_nil, hfold, collapseStep]
      split
      · rename_i hc
        refine ⟨first ++ [last], [], ?_, ?_⟩
        · rw [Text.splitOnP_concat_of_whitespace hc, hsplit]
        · by_cases hlast : last = []
          · subst hlast
            by_cases htext : text = []
            · subst htext
              obtain rfl : first = [] := by simpa using hsplit.symm
              rfl
            · simp [List.filter_append, htext]
          · simp [List.filter_append, hlast]
      · rename_i hc
        rw [Bool.not_eq_true] at hc
        obtain ⟨first', last', hsplit', hconcat⟩ := Text.exists_split_concat hc text
        obtain ⟨rfl, rfl⟩ : first' = first ∧ last' = last := by
          rw [hsplit] at hsplit'
          exact ⟨(List.append_inj_left' hsplit' rfl).symm,
            (List.cons.inj (List.append_inj_right' hsplit' rfl)).1.symm⟩
        exact ⟨first', last' ++ [c], hconcat, by simp⟩

/-- **What is collapsed and trimmed are the words with one space between them.** -/
theorem collapseAndTrim_eq (text : List Char) :
    collapseAndTrim text = Text.unwords (Text.words text) := by
  obtain ⟨first, last, hsplit, hfold⟩ := foldl_collapseStep text
  have hplain : ∀ c ∈ last, Text.isWhitespace c = false := by
    apply Text.notWhitespace_of_mem_splitOnP
    rw [hsplit]
    exact List.mem_append_right first List.mem_cons_self
  have hlast : last.getLast? ≠ some ' ' := by
    intro hspace
    have hwhite := hplain ' ' (List.mem_of_mem_getLast? hspace)
    exact Bool.false_ne_true (hwhite.symm.trans Text.isWhitespace_space)
  rw [collapseAndTrim, hfold, Text.words, hsplit, List.filter_append]
  by_cases hempty : last = []
  · -- the text ends with white space, and the last word has a space behind it
    subst hempty
    generalize first.filter (fun part => decide (part ≠ [])) = parts
    rcases List.eq_nil_or_concat parts with rfl | ⟨parts, word, rfl⟩
    · rfl
    · simp [Text.unwords_concat, ← List.append_assoc]
  · rw [List.filter_cons_of_pos (by simpa using hempty), List.filter_nil, Text.unwords_concat]
    dsimp only
    rw [if_neg]
    rwa [List.getLast?_append_of_ne_nil _ hempty]

/-! ## Escaping -/

/-- A character as it is escaped. -/
def escapeChar (c : Char) : List Char :=
  if c = '&' then ['&', 'a', 'm', 'p', ';']
  else if c = '<' then ['&', 'l', 't', ';']
  else if c = '>' then ['&', 'g', 't', ';']
  else if c = '"' then ['&', 'q', 'u', 'o', 't', ';']
  else [c]

/-- What is inserted is not replaced again. -/
theorem escapeHtml_eq (input : List Char) : escapeHtml input = input.flatMap escapeChar := by
  rw [escapeHtml, replace, replace, replace, replace, List.flatMap_assoc, List.flatMap_assoc,
    List.flatMap_assoc]
  apply List.flatMap_congr
  intro c _
  rw [escapeChar]
  by_cases hamp : c = '&'
  · subst hamp
    rfl
  by_cases hlt : c = '<'
  · subst hlt
    rfl
  by_cases hgt : c = '>'
  · subst hgt
    rfl
  simp [hamp, hlt, hgt]

/-- **An escaped character is read back.** -/
theorem scan_escapeChar (c : Char) (scanner : Scanner) (hstate : scanner.state = .normal)
    (rest : List Char) :
    ∃ next : Scanner, next.state = .normal ∧ next.output = scanner.output ++ [c] ∧
      scanner.scan 0 (escapeChar c ++ rest) = next.scan 0 rest := by
  obtain ⟨output, state, tagBuf, entityBuf⟩ := scanner
  cases hstate
  have hentity (name : List Char) (decoded : Char) (hdecode : decodeEntity name = some decoded) :
      Scanner.closeEntity ⟨output, .insideEntity, tagBuf, name⟩ =
        ⟨output ++ [decoded], .normal, tagBuf, name⟩ := by
    rw [Scanner.closeEntity, hdecode]
  rw [escapeChar]
  split
  · rename_i hc
    subst hc
    exact ⟨_, rfl, rfl, congrArg (Scanner.scan 0 · rest) (hentity ['a', 'm', 'p'] '&' rfl)⟩
  split
  · rename_i hc
    subst hc
    exact ⟨_, rfl, rfl, congrArg (Scanner.scan 0 · rest) (hentity ['l', 't'] '<' rfl)⟩
  split
  · rename_i hc
    subst hc
    exact ⟨_, rfl, rfl, congrArg (Scanner.scan 0 · rest) (hentity ['g', 't'] '>' rfl)⟩
  split
  · rename_i hc
    subst hc
    exact ⟨_, rfl, rfl, congrArg (Scanner.scan 0 · rest) (hentity ['q', 'u', 'o', 't'] '"' rfl)⟩
  · rename_i hamp hlt hgt hquot
    refine ⟨⟨output ++ [c], .normal, tagBuf, entityBuf⟩, rfl, rfl, ?_⟩
    rw [List.singleton_append, Scanner.scan, Scanner.step]
    dsimp only
    rw [Scanner.stepNormal, if_neg hlt, if_neg hamp]

/-- An escaped text is written as it was. -/
theorem finish_scan_escaped (text : List Char) (scanner : Scanner)
    (hstate : scanner.state = .normal) :
    (scanner.scan 0 (text.flatMap escapeChar)).finish = scanner.output ++ text := by
  induction text generalizing scanner with
  | nil =>
      rw [List.flatMap_nil, Scanner.scan, Scanner.finish, hstate, List.append_nil]
      rfl
  | cons c text ih =>
      obtain ⟨next, hnext, houtput, hscan⟩ :=
        scan_escapeChar c scanner hstate (text.flatMap escapeChar)
      rw [List.flatMap_cons, hscan, ih next hnext, houtput, List.append_assoc]
      rfl

/-- **HTML to text undoes escaping, and its results are clean.** -/
theorem htmlToText_escapeHtml :
    (∀ text, htmlToText (escapeHtml text) = Text.unwords (Text.words text)) ∧
      ∀ html, Text.Clean (htmlToText html) := by
  constructor
  · intro text
    rw [htmlToText, escapeHtml_eq, finish_scan_escaped text .start rfl, collapseAndTrim_eq]
    rfl
  · intro html
    rw [htmlToText, collapseAndTrim_eq]
    exact Text.clean_unwords fun part hpart => Text.word_spec hpart

example : htmlToText "<p>1 &lt; 2 &amp;&#38;</p> <SCRIPT>x</script>".toList =
    "1 < 2 &&".toList := by
  decide

end Modo.Sanitize
