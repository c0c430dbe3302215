import Modo.Email.Markdown
import Modo.Email.OtpReading
import Modo.Lib.Ascii
import Modo.Lib.Runs
import Modo.Lib.Text

/-!
# One-time codes on their way through Markdown

A code is put into the source before it is parsed, so it is read again: within a paragraph of HTML
tags, and in the text form as a block of its own.

The parser is that of the Markdown library.  `SmartParser` says what it makes of words, hyphens and
tags.
-/

namespace Modo.Email

open Modo.Sanitize (escapeHtml)

/-! ## What a marker is replaced by -/

/-- The tags in front of the code. -/
def otpOpening : List Char :=
  "<table".toList ++ (" role=\"presentation\"".toList ++ (" border=\"0\"".toList ++
    (" cellpadding=\"0\"".toList ++ (" cellspacing=\"0\"".toList ++
    (" style=\"margin:8px 0 24px 0;\"".toList ++ ("><tr>".toList ++ ("<td".toList ++
    (" class=\"email-otp-bg\"".toList ++ (" style=\"".toList ++ (("font-family:".toList ++
    ("ui-monospace,SFMono-Regular,".toList ++ ("Menlo,Monaco,Consolas,monospace;".toList ++
    ("font-size:22px;".toList ++ ("font-weight:700;".toList ++ ("letter-spacing:4px;".toList ++
    ("color:#18181b;".toList ++ ("background-color:#f4f4f5;".toList ++
    ("padding:12px 16px;".toList ++ "border-radius:8px;".toList)))))))))
    ++ "\">".toList))))))))))

/-- The tags behind it. -/
def otpClosing : List Char := "</td></tr></table>".toList

/-- `render_otp_html`. -/
def renderOtpHtml (code : List Char) : List Char := otpOpening ++ (escapeHtml code ++ otpClosing)

/-- `render_otp_text`. -/
def renderOtpText (code : List Char) : List Char := "\n\n".toList ++ (code ++ "\n\n".toList)

/-! ## Plain text -/

/-- The tags and events of the parser that carry no text of their own. -/
inductive MarkdownKind where
  | paragraph
  | heading (level : ℕ)
  | list
  | item
  | softBreak
  | hardBreak
  | rule
  | inlineHtml (html : List Char)
  | other (name : List Char)
  deriving DecidableEq

/-- `render_button_text`. -/
def renderButtonText (label url : List Char) : List Char := label ++ (": ".toList ++ url)

/-- The variables of `markdown_to_text`. -/
structure TextState where
  text : List Char
  inLink : Option (List Char)
  linkText : List Char

namespace TextState

def push (state : TextState) (text : List Char) : TextState :=
  { state with text := state.text ++ text }

/-- What comes of a link at its end. -/
def linkEnd (state : TextState) (url : List Char) : List Char :=
  match parseButton state.linkText with
  | some (_, label) => renderButtonText label url
  | none => state.linkText ++ (" (".toList ++ (url ++ [')']))

def next (state : TextState) : Event MarkdownKind → TextState
  | .start (.other (.heading _)) =>
      if state.text ≠ [] ∧ state.text.getLast? ≠ some '\n' then state.push "\n\n".toList
      else state.push ['\n']
  | .close (.other (.heading _)) => state.push ['\n']
  | .start (.link _ destUrl _ _) => { state with inLink := some destUrl, linkText := [] }
  | .text text =>
      if state.inLink.isSome then { state with linkText := state.linkText ++ text }
      else state.push text
  | .code text =>
      if state.inLink.isSome then { state with linkText := state.linkText ++ text }
      else state.push text
  | .close .link =>
      match state.inLink with
      | some url =>
          { state with text := state.text ++ state.linkEnd url, inLink := none, linkText := [] }
      | none => state
  | .start (.other .item) => state.push "- ".toList
  | .close (.other .item) =>
      if state.text.getLast? = some '\n' then state else state.push ['\n']
  | .close (.other .paragraph) => state.push "\n\n".toList
  | .other .softBreak => state.push ['\n']
  | .other .hardBreak => state.push ['\n']
  | _ => state

end TextState

/-- `markdown_to_text`, behind the parser. -/
def markdownToText (events : List (Event MarkdownKind)) : List Char :=
  Text.trim (events.foldl TextState.next ⟨[], none, []⟩).text

/-! ## From the source -/

section Source

variable (parse : List Char → List (Event MarkdownKind))

/-- `markdown_to_text`. -/
def sourceToText (markdown : List Char) : Option (List Char) :=
  (transformOtp markdown renderOtpText).map fun preprocessed => markdownToText (parse preprocessed)

/-- `markdown_to_html`. -/
def sourceToHtml (writers : Writers MarkdownKind) (markdown : List Char)
    (brandColor : Option (List Char)) : Option (List Char) :=
  (transformOtp markdown renderOtpHtml).map fun preprocessed =>
    markdownToHtml writers brandColor (parse preprocessed)

end Source

/-! ## The parser -/

/-- Letters and digits, of any script, and no white space or punctuation of ASCII. -/
def IsWordChar (c : Char) : Prop :=
  c.isAlphanum = true ∨ 128 ≤ c.toNat ∧ Text.isWhitespace c = false

/-- A plain word. -/
structure IsWord (word : List Char) : Prop where
  ne_nil : word ≠ []
  chars : ∀ c ∈ word, IsWordChar c

theorem IsWordChar.isWhitespace {c : Char} (hc : IsWordChar c) : Text.isWhitespace c = false := by
  rcases hc with halnum | ⟨-, hspace⟩
  · have hrange := Ascii.isAlphanum_iff.mp halnum
    simp only [Text.isWhitespace, decide_eq_false_iff_not]
    omega
  · exact hspace

/-- A word has no punctuation of ASCII. -/
theorem IsWordChar.ne {c other : Char} (hc : IsWordChar c)
    (hother : other.toNat < 128 ∧ other.isAlphanum = false) : c ≠ other := by
  rintro rfl
  rcases hc with hword | ⟨hhigh, -⟩
  · exact absurd (hother.2.symm.trans hword) Bool.false_ne_true
  · exact absurd hother.1 (not_lt.mpr hhigh)

theorem IsWord.of_alphanum {word : List Char} (hne : word ≠ [])
    (hchars : ∀ c ∈ word, c.isAlphanum = true) : IsWord word :=
  ⟨hne, fun c hc => .inl (hchars c hc)⟩

theorem IsWord.notMem {word : List Char} (hword : IsWord word) {c : Char}
    (hc : c.toNat < 128 ∧ c.isAlphanum = false) : c ∉ word := fun hmem =>
  (hword.chars c hmem).ne hc rfl

/-- Words and hyphens without spaces. -/
def IsLine (line : List Char) : Prop := ∀ c ∈ line, IsWordChar c ∨ c = '-'

/-- Words, hyphens and spaces. -/
def IsPlain (text : List Char) : Prop := ∀ c ∈ text, IsWordChar c ∨ c = '-' ∨ c = ' '

def IsTagName (name : List Char) : Prop :=
  name ≠ [] ∧ ∀ c ∈ name, c.isAlpha = true

def IsTagValue (value : List Char) : Prop :=
  ∀ c ∈ value, c ≠ '"' ∧ c ≠ '<' ∧ c ≠ '>' ∧ c ≠ '\n'

def openTag (name : List Char) (attributes : List (List Char × List Char)) : List Char :=
  '<' :: (name ++ (attributes.flatMap (fun (name, value) =>
    ' ' :: (name ++ ("=\"".toList ++ (value ++ ['"'])))) ++ ['>']))

/-- An attribute within a tag. -/
def attributeText (attr : List Char × List Char) : List Char :=
  ' ' :: (attr.1 ++ ("=\"".toList ++ (attr.2 ++ ['"'])))

theorem openTag_eq (name : List Char) (attributes : List (List Char × List Char)) :
    openTag name attributes = '<' :: (name ++ (attributes.flatMap attributeText ++ ['>'])) := rfl

def closeTag (name : List Char) : List Char := "</".toList ++ (name ++ ['>'])

/-- An HTML tag. -/
inductive IsTag : List Char → Prop
  | opening {name : List Char} {attributes : List (List Char × List Char)} (hname : IsTagName name)
      (hattributes : ∀ attr ∈ attributes, IsTagName attr.1 ∧ IsTagValue attr.2) :
      IsTag (openTag name attributes)
  | closing {name : List Char} (hname : IsTagName name) : IsTag (closeTag name)

/-- Text, in one event or in several. -/
def Spells (events : List (Event MarkdownKind)) (text : List Char) : Prop :=
  ∃ parts : List (List Char), events = parts.map .text ∧ parts.flatten = text

/-- A paragraph of these events. -/
def paragraphOf (events : List (Event MarkdownKind)) : List (Event MarkdownKind) :=
  .start (.other .paragraph) :: (events ++ [.close (.other .paragraph)])

/-- Tags with the text behind each of them. -/
inductive PassesTags (smart : List Char → List Char) :
    List (List Char × List Char) → List (Event MarkdownKind) → Prop
  | nil : PassesTags smart [] []
  | cons {tag text : List Char} {tags : List (List Char × List Char)}
      {events rest : List (Event MarkdownKind)} (htext : Spells events (smart text))
      (hrest : PassesTags smart tags rest) :
      PassesTags smart ((tag, text) :: tags) (.other (.inlineHtml tag) :: (events ++ rest))

/-- What the parser makes of words, hyphens and tags, with all of its options. -/
structure SmartParser (dash : ℕ → List Char) (parse : List Char → List (Event MarkdownKind)) :
    Prop where
  /-- A single hyphen stays, and a longer run becomes dashes. -/
  shortens : Runs.Shortens '-' dash
  two : dash 2 = ['–']
  three : dash 3 = ['—']
  dashes : ∀ n, ∀ c ∈ dash n, c = '-' ∨ c = '–' ∨ c = '—'
  /-- Blank lines around a line part it from the words. -/
  blocks : ∀ before line after, IsWord before → IsLine line → IsWord after →
    parse (before ++ (" \n\n".toList ++ (line ++ ("\n\n ".toList ++ after)))) =
      parse before ++ (parse line ++ parse after)
  /-- A line that is not all hyphens, or two of them, is a paragraph. -/
  paragraph : ∀ line, line ≠ [] → IsLine line → (∀ n, line = List.replicate n '-' → n = 2) →
    ∃ events, parse line = paragraphOf events ∧ Spells events (Runs.replaceRuns '-' dash line)
  /-- A line of three or more hyphens is a thematic break. -/
  rule : ∀ n, 3 ≤ n → parse (List.replicate n '-') = [.other .rule]
  /-- One hyphen is an empty list item. -/
  item : parse ['-'] =
    [.start (.other .list), .start (.other .item), .close (.other .item), .close (.other .list)]
  /-- Tags in a paragraph are passed through. -/
  inline : ∀ first text tags last, IsWordChar first → IsPlain text →
    (∀ tag ∈ tags, IsTag tag.1 ∧ IsPlain tag.2) →
    (first :: text ++ tags.flatMap fun (tag, text) => tag ++ text).getLast? = some last →
    last ≠ ' ' →
    ∃ events rest, parse (first :: text ++ tags.flatMap fun (tag, text) => tag ++ text) =
        paragraphOf (events ++ rest) ∧
      Spells events (Runs.replaceRuns '-' dash (first :: text)) ∧
      PassesTags (Runs.replaceRuns '-' dash) tags rest

/-- The renderer writes text, tags and paragraphs as they are, line breaks aside. -/
structure Writers.Plain (writers : Writers MarkdownKind) : Prop where
  text : ∀ text, (∀ c ∈ text, c ≠ '&' ∧ c ≠ '<' ∧ c ≠ '>') → writers.event (.text text) = text
  inlineHtml : ∀ html, writers.event (.other (.inlineHtml html)) = html
  paragraph : writers.event (.start (.other .paragraph)) = "<p>".toList
  paragraphEnd : writers.event (.close (.other .paragraph)) = "</p>".toList

/-! ## What reaches the reader -/

/-- A marker between two words. -/
def betweenWords (before code after : List Char) : List Char :=
  before ++ ' ' :: (marker code ++ ' ' :: after)

/-- The code is a line of the text. -/
def OnOwnLine (parse : List Char → List (Event MarkdownKind)) (markdown code : List Char) : Prop :=
  ∃ text, sourceToText parse markdown = some text ∧ code ∈ text.splitOn '\n'

/-- The text stands between the tags of a pill. -/
def InPill (html text : List Char) : Prop :=
  '<' ∉ text ∧ ∃ front back, html = front ++ (otpOpening ++ (text ++ (otpClosing ++ back)))

/-- Between the tags of the pill stands the code, and nothing else. -/
def PillHolds (parse : List Char → List (Event MarkdownKind)) (writers : Writers MarkdownKind)
    (brandColor : Option (List Char)) (markdown code : List Char) : Prop :=
  ∃ html, sourceToHtml parse writers markdown brandColor = some html ∧
    ∀ text, InPill html text ↔ text = code

end Modo.Email
