import Modo.Lib.Utf8
import Modo.Sanitize.Html

/-!
# Markdown in emails

`markdown_to_html` pushes the events of the parser to the renderer one at a time, and a link with
its contents at once, because the text of a link may be that of a button.  A renderer is made
anew for each of these calls: what it has to remember (`HtmlWriter`) ends with the call.

The renderer is that of the Markdown library.  What it writes for an event (`Writers`) is left
open, without the line breaks; how it goes through the events is `pushHtml`.
-/

namespace Modo.Email

open Modo.Sanitize (escapeHtml)

/-! ## Buttons -/

/-- `ButtonType`. -/
inductive ButtonType where
  | primary
  | danger
  | warning
  | info
  | success
  deriving DecidableEq

/-- `ButtonType::colors`. -/
def ButtonType.colors (brandColor : Option (List Char)) : ButtonType → List Char × List Char
  | .primary => (brandColor.getD "#2563eb".toList, "#ffffff".toList)
  | .danger => ("#dc2626".toList, "#ffffff".toList)
  | .warning => ("#d97706".toList, "#ffffff".toList)
  | .info => ("#0891b2".toList, "#ffffff".toList)
  | .success => ("#16a34a".toList, "#ffffff".toList)

/-- The names of the types. -/
def ButtonType.ofName (name : List Char) : Option ButtonType :=
  if name = "primary".toList then some .primary
  else if name = "danger".toList then some .danger
  else if name = "warning".toList then some .warning
  else if name = "info".toList then some .info
  else if name = "success".toList then some .success
  else none

/-- `parse_button`. -/
def parseButton (text : List Char) : Option (ButtonType × List Char) :=
  (text.dropPrefix? "button".toList).bind fun rest =>
    match rest.dropPrefix? ['|'] with
    | some label => if label = [] then none else some (.primary, label)
    | none =>
        (rest.dropPrefix? [':']).bind fun rest =>
          (Utf8.splitOnce '|' rest).bind fun (name, label) =>
            if label = [] then none else (ButtonType.ofName name).map fun type => (type, label)

/-- `render_button_html`. -/
def renderButtonHtml (label url : List Char) (btnType : ButtonType)
    (brandColor : Option (List Char)) : List Char :=
  let (bg, fg) := btnType.colors brandColor
  "<table role=\"presentation\" cellpadding=\"0\" cellspacing=\"0\" ".toList ++
    "style=\"margin: 16px 0;\"><tr><td style=\"background-color: ".toList ++ bg ++
    "; border-radius: 6px; padding: 12px 24px;\"><a href=\"".toList ++ escapeHtml url ++
    "\" style=\"color: ".toList ++ fg ++
    "; text-decoration: none; font-weight: 600; display: inline-block;\">".toList ++
    escapeHtml label ++ "</a></td></tr></table>".toList

/-! ## Events -/

/-- `Alignment`. -/
inductive Alignment where
  | none
  | left
  | center
  | right
  deriving DecidableEq

/-- `LinkType`; the other types are written as `inline`. -/
inductive LinkType where
  | inline
  | email
  | other
  deriving DecidableEq

/-- `Tag`; `Kind` stands for the tags that the renderer keeps nothing about. -/
inductive Tag (Kind : Type*) where
  | other (kind : Kind)
  | table (alignments : List Alignment)
  | tableHead
  | tableRow
  | tableCell
  | link (linkType : LinkType) (destUrl title id : List Char)
  | image (linkType : LinkType) (destUrl title id : List Char)
  | footnoteDefinition (name : List Char)
  | metadataBlock
  deriving DecidableEq

/-- `TagEnd`. -/
inductive TagEnd (Kind : Type*) where
  | other (kind : Kind)
  | table
  | tableHead
  | tableRow
  | tableCell
  | link
  | image
  | footnoteDefinition
  | metadataBlock
  deriving DecidableEq

/-- `Event`; `Kind` stands for the events without text that the renderer keeps nothing about. -/
inductive Event (Kind : Type*) where
  | start (tag : Tag Kind)
  | close (tagEnd : TagEnd Kind)
  | text (text : List Char)
  | code (text : List Char)
  | footnoteReference (name : List Char)
  | other (kind : Kind)
  deriving DecidableEq

variable {Kind : Type*}

/-- `Tag::to_end`. -/
def Tag.toEnd : Tag Kind → TagEnd Kind
  | .other kind => .other kind
  | .table _ => .table
  | .tableHead => .tableHead
  | .tableRow => .tableRow
  | .tableCell => .tableCell
  | .link .. => .link
  | .image .. => .image
  | .footnoteDefinition _ => .footnoteDefinition
  | .metadataBlock => .metadataBlock

/-- The events close the tags that are open, and what they open themselves, in order. -/
def Balanced : List (TagEnd Kind) → List (Event Kind) → Prop
  | opened, [] => opened = []
  | opened, .start tag :: rest => Balanced (tag.toEnd :: opened) rest
  | tagEnd :: opened, .close other :: rest => other = tagEnd ∧ Balanced opened rest
  | [], .close _ :: _ => False
  | opened, _ :: rest => Balanced opened rest

/-- The text and code of a link, from the events behind its start. -/
def linkText : ℕ → List (Event Kind) → List Char
  | _, [] => []
  | nest, .start _ :: rest => linkText (nest + 1) rest
  | 0, .close _ :: _ => []
  | nest + 1, .close _ :: rest => linkText nest rest
  | nest, .text text :: rest => text ++ linkText nest rest
  | nest, .code text :: rest => text ++ linkText nest rest
  | nest, _ :: rest => linkText nest rest

/-- No link has the text of a button. -/
def NoButtons : List (Event Kind) → Prop
  | [] => True
  | .start (.link ..) :: rest => parseButton (linkText 0 rest) = none ∧ NoButtons rest
  | _ :: rest => NoButtons rest

/-! ## The renderer -/

/-- `TableState`. -/
inductive TableState where
  | head
  | body
  deriving DecidableEq

/-- What the renderer writes, line breaks aside. -/
structure Writers (Kind : Type*) where
  /-- The table state of a new renderer. -/
  tableState : TableState
  cell : TableState → Alignment → List Char
  cellEnd : TableState → List Char
  /-- A link, of type `Email` or another. -/
  link : Bool → List Char → List Char → List Char
  /-- An image up to its alternative text, and from there on. -/
  image : List Char → List Char
  imageEnd : List Char → List Char
  definition : List Char → ℕ → List Char
  reference : List Char → ℕ → List Char
  /-- All other events. -/
  event : Event Kind → List Char
  /-- A reference and the other events within an alternative text. -/
  altReference : ℕ → List Char
  altEvent : Event Kind → List Char

/-- What the renderer remembers; `nest` counts the tags that are open within an image. -/
structure HtmlWriter where
  tableState : TableState
  tableAlignments : List Alignment
  tableCellIndex : ℕ
  numbers : List (List Char)
  inNonWritingBlock : Bool
  nest : Option ℕ
  deriving DecidableEq

namespace HtmlWriter

/-- The alignment of the cell. -/
def alignment (writer : HtmlWriter) : Alignment :=
  writer.tableAlignments.getD writer.tableCellIndex .none

/-- The number of a footnote. -/
def number (writer : HtmlWriter) (name : List Char) : ℕ := writer.numbers.idxOf name + 1

/-- A footnote has its number from now on. -/
def numbered (writer : HtmlWriter) (name : List Char) : HtmlWriter :=
  { writer with
    numbers := if name ∈ writer.numbers then writer.numbers else writer.numbers ++ [name] }

/-- What is remembered of an event. -/
def next (writer : HtmlWriter) (event : Event Kind) : HtmlWriter :=
  match writer.nest, event with
  | some nest, .start _ => { writer with nest := some (nest + 1) }
  | some 0, .close _ => { writer with nest := none }
  | some (nest + 1), .close _ => { writer with nest := some nest }
  | some _, .footnoteReference name => writer.numbered name
  | some _, _ => writer
  | none, .start (.image ..) => { writer with nest := some 0 }
  | none, .start (.table alignments) => { writer with tableAlignments := alignments }
  | none, .start .tableHead => { writer with tableState := .head, tableCellIndex := 0 }
  | none, .start .tableRow => { writer with tableCellIndex := 0 }
  | none, .start (.footnoteDefinition name) => writer.numbered name
  | none, .start .metadataBlock => { writer with inNonWritingBlock := true }
  | none, .close .tableHead => { writer with tableState := .body }
  | none, .close .tableCell =>
      { writer with tableCellIndex := writer.tableCellIndex + 1 }
  | none, .close .metadataBlock => { writer with inNonWritingBlock := false }
  | none, .footnoteReference name => writer.numbered name
  | none, _ => writer

variable (writers : Writers Kind)

/-- `HtmlWriter::new`. -/
def new : HtmlWriter where
  tableState := writers.tableState
  tableAlignments := []
  tableCellIndex := 0
  numbers := []
  inNonWritingBlock := false
  nest := none

/-- What is written for an event outside of images. -/
def write (writer : HtmlWriter) : Event Kind → List Char
  | .start .tableCell => writers.cell writer.tableState writer.alignment
  | .close .tableCell => writers.cellEnd writer.tableState
  | .start (.link linkType destUrl title _) =>
      writers.link (decide (linkType = .email)) destUrl title
  | .start (.footnoteDefinition name) => writers.definition name (writer.number name)
  | .footnoteReference name => writers.reference name (writer.number name)
  | .text text => if writer.inNonWritingBlock then [] else writers.event (.text text)
  | event => writers.event event

/-- What is written for an event in the alternative text of an image. -/
def writeAlt (writer : HtmlWriter) : Event Kind → List Char
  | .start _ => []
  | .close _ => []
  | .footnoteReference name => writers.altReference (writer.number name)
  | event => writers.altEvent event

/-- `raw_text`: the alternative text, from the events up to the end of the image. -/
def rawText (writer : HtmlWriter) : List (Event Kind) → List Char
  | [] => []
  | event :: rest =>
      match writer.nest with
      | none => []
      | some _ => writer.writeAlt writers event ++ (writer.next event).rawText rest

/-- What is written at an event; an image is written at its start. -/
def piece (writer : HtmlWriter) (event : Event Kind) (rest : List (Event Kind)) : List Char :=
  match writer.nest, event with
  | some _, _ => []
  | none, .start (.image _ destUrl title _) =>
      writers.image destUrl ++ (writer.next event).rawText writers rest ++ writers.imageEnd title
  | none, _ => writer.write writers event

/-- What is written at each of the events. -/
def pieces (writer : HtmlWriter) : List (Event Kind) → List (List Char)
  | [] => []
  | event :: rest => writer.piece writers event rest :: (writer.next event).pieces rest

end HtmlWriter

section Convert

variable (writers : Writers Kind) (brandColor : Option (List Char))

/-- `push_html`. -/
def pushHtml (events : List (Event Kind)) : List Char :=
  ((HtmlWriter.new writers).pieces writers events).flatten

/-- `full_text`: the text and code among the events. -/
def fullText (events : List (Event Kind)) : List Char :=
  events.flatMap fun event =>
    match event with
    | .text text => text
    | .code text => text
    | _ => []

/-- `link_url`, `link_title` and `link_events`. -/
structure LinkBuffer (Kind : Type*) where
  url : List Char
  title : List Char
  events : List (Event Kind)

/-- What comes of a link at its end. -/
def LinkBuffer.flush (buffer : LinkBuffer Kind) : List Char :=
  match parseButton (fullText buffer.events) with
  | some (btnType, label) => renderButtonHtml label buffer.url btnType brandColor
  | none =>
      pushHtml writers
        (.start (.link .inline buffer.url buffer.title []) :: buffer.events ++ [.close .link])

/-- The loop of `markdown_to_html` over the events of the parser. -/
def convert : Option (LinkBuffer Kind) → List (Event Kind) → List Char
  | _, [] => []
  | some buffer, .close .link :: rest =>
      buffer.flush writers brandColor ++ convert none rest
  | some buffer, event :: rest =>
      convert (some { buffer with events := buffer.events ++ [event] }) rest
  | none, .start (.link _ destUrl title _) :: rest => convert (some ⟨destUrl, title, []⟩) rest
  | none, event :: rest => pushHtml writers [event] ++ convert none rest

/-- `markdown_to_html`, behind the parser. -/
def markdownToHtml (events : List (Event Kind)) : List Char :=
  convert writers brandColor none events

end Convert

end Modo.Email
