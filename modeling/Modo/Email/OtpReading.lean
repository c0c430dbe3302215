import Modo.Email.OtpPieces

/-!
# Markers outside of code

How a Markdown source is read up to a place in its text: characters, escapes, code spans and fenced
blocks.  The scanner and CommonMark differ in the details (`Dialect`).

A marker in text is `Outside` of code when CommonMark's reading gets to it, and `Replaced` when the
scanner puts something in its place.
-/

namespace Modo.Email

open Utf8 (byte)

/-- The source of a marker. -/
def marker (code : List Char) : List Char := (Piece.otp code).source

/-- A run of backticks. -/
def backticks (n : ℕ) : List Char := List.replicate n '\x60'

/-! ## Two dialects -/

/-- Where the scanner and CommonMark differ; the functions of a line are given the text from its
start on. -/
structure Dialect where
  /-- The characters that a backslash takes with it. -/
  escapes : Char → Bool
  /-- A run of backticks that nothing closes is text. -/
  literalRuns : Bool
  opensFence : List Char → Option (UInt8 × ℕ)
  closesFence : UInt8 → ℕ → List Char → Bool
  /-- A line that no code span goes on with. -/
  endsBlock : List Char → Bool
  /-- Behind a code span with this content the line starts. -/
  startsLine : List Char → Bool

namespace CommonMark

def firstLine (text : List Char) : List Char := text.takeWhile (· != '\n')

def isPunctuation (c : Char) : Bool :=
  decide (33 ≤ c.toNat ∧ c.toNat ≤ 47 ∨ 58 ≤ c.toNat ∧ c.toNat ≤ 64 ∨
    91 ≤ c.toNat ∧ c.toNat ≤ 96 ∨ 123 ≤ c.toNat ∧ c.toNat ≤ 126)

def indentation (line : List Char) : ℕ := (line.takeWhile (· == ' ')).length

/-- Up to three spaces, at least three equal characters, and behind backticks no other one. -/
def opensFence (text : List Char) : Option (UInt8 × ℕ) :=
  let line := firstLine text
  let trimmed := line.dropWhile (· == ' ')
  trimmed.head?.bind fun ch =>
    let run := trimmed.takeWhile (· == ch)
    if indentation line ≤ 3 ∧ 3 ≤ run.length ∧
        (ch = '~' ∨ ch = '\x60' ∧ '\x60' ∉ trimmed.drop run.length) then
      some (byte ch, run.length)
    else none

/-- Up to three spaces, as many of the same characters, and spaces or tabs behind them. -/
def closesFence (fenceChar : UInt8) (openingLen : ℕ) (text : List Char) : Bool :=
  let line := firstLine text
  let trimmed := line.dropWhile (· == ' ')
  let run := trimmed.takeWhile fun c => byte c == fenceChar
  decide (indentation line ≤ 3 ∧ openingLen ≤ run.length) &&
    (trimmed.drop run.length).all fun c => c == ' ' || c == '\t'

def isBlank (text : List Char) : Bool := (firstLine text).all fun c => c == ' ' || c == '\t'

end CommonMark

/-- CommonMark, as far as paragraphs and fenced blocks go. -/
def commonMark : Dialect where
  escapes := CommonMark.isPunctuation
  literalRuns := true
  opensFence := CommonMark.opensFence
  closesFence := CommonMark.closesFence
  endsBlock text := CommonMark.isBlank text || (CommonMark.opensFence text).isSome
  startsLine _ := false

/-- What `transform_otp` makes of it. -/
def scanner : Dialect where
  escapes := (· == '[')
  literalRuns := false
  opensFence := Scan.opensFence
  closesFence := Scan.closesFence
  endsBlock _ := false
  startsLine content := content.getLast? == some '\n'

/-! ## Reading -/

/-- All runs are longer or shorter than `n`, and the last character is in none. -/
structure WithoutRun (n : ℕ) (content : List Char) : Prop where
  last : content.getLast? ≠ some '\x60'
  inner : ∀ front back, content = front ++ (backticks n ++ back) →
    front.getLast? = some '\x60' ∨ back.head? = some '\x60'

/-- Between a run of `n` backticks and the rest of the text, the content of a code span and the run
that closes it. -/
structure Dialect.Closes (dialect : Dialect) (n : ℕ) (content more : List Char) : Prop
    extends WithoutRun n content where
  pos : 0 < n
  ne_nil : content ≠ []
  head : content.head? ≠ some '\x60'
  behind : more.head? ≠ some '\x60'
  lines : ∀ front back, content = front ++ '\n' :: back →
    dialect.endsBlock (back ++ (backticks n ++ more)) = false

/-- The lines of a fenced block up to the one that closes it. -/
inductive Dialect.Fenced (dialect : Dialect) (fenceChar : UInt8) (openingLen : ℕ) :
    List Char → List Char → Prop
  | close {line rest : List Char} (hline : '\n' ∉ line)
      (hcloses : dialect.closesFence fenceChar openingLen (line ++ '\n' :: rest) = true) :
      Fenced dialect fenceChar openingLen (line ++ ['\n']) rest
  | line {line text rest : List Char} (hline : '\n' ∉ line)
      (hcloses : dialect.closesFence fenceChar openingLen (line ++ '\n' :: (text ++ rest)) = false)
      (htext : Fenced dialect fenceChar openingLen text rest) :
      Fenced dialect fenceChar openingLen (line ++ '\n' :: text) rest

/-- No fence is opened here. -/
def Dialect.NoFence (dialect : Dialect) (atLineStart : Bool) (text : List Char) : Prop :=
  atLineStart = true → dialect.opensFence text = none

/-- In front of the rest, the text is read to its end, and outside of code. -/
inductive Dialect.Reads (dialect : Dialect) : Bool → List Char → List Char → Prop
  | nil (atLineStart : Bool) (rest : List Char) : Reads dialect atLineStart [] rest
  | char {atLineStart : Bool} {c : Char} {text rest : List Char}
      (hfence : dialect.NoFence atLineStart (c :: (text ++ rest)))
      (htick : c ≠ '\x60')
      (hescape : c = '\\' → ∀ next ∈ (text ++ rest).head?, dialect.escapes next = false)
      (hmarker : Cut.markerCode (c :: (text ++ rest)) = none)
      (htext : Reads dialect (c == '\n') text rest) : Reads dialect atLineStart (c :: text) rest
  | marker {atLineStart : Bool} {code text rest : List Char}
      (hfence : dialect.NoFence atLineStart (marker code ++ (text ++ rest)))
      (hcode : isValidCode code = true)
      (htext : Reads dialect false text rest) :
      Reads dialect atLineStart (marker code ++ text) rest
  | escape {atLineStart : Bool} {c : Char} {text rest : List Char}
      (hfence : dialect.NoFence atLineStart ('\\' :: c :: (text ++ rest)))
      (hescape : dialect.escapes c = true)
      (htext : Reads dialect false text rest) : Reads dialect atLineStart ('\\' :: c :: text) rest
  | span {atLineStart : Bool} {n : ℕ} {content text rest : List Char}
      (hfence : dialect.NoFence atLineStart
        (backticks n ++ (content ++ (backticks n ++ (text ++ rest)))))
      (hcloses : dialect.Closes n content (text ++ rest))
      (htext : Reads dialect (dialect.startsLine content) text rest) :
      Reads dialect atLineStart (backticks n ++ (content ++ (backticks n ++ text))) rest
  | run {atLineStart : Bool} {n : ℕ} {text rest : List Char}
      (hfence : dialect.NoFence atLineStart (backticks n ++ (text ++ rest)))
      (hliteral : dialect.literalRuns = true)
      (hpos : 0 < n)
      (hbehind : (text ++ rest).head? ≠ some '\x60')
      (hopen : ∀ content more, text ++ rest = content ++ (backticks n ++ more) →
        ¬dialect.Closes n content more)
      (htext : Reads dialect false text rest) : Reads dialect atLineStart (backticks n ++ text) rest
  | fence {line block text rest : List Char} {fenceChar : UInt8} {openingLen : ℕ}
      (hopens : dialect.opensFence (line ++ '\n' :: (block ++ (text ++ rest))) =
        some (fenceChar, openingLen))
      (hline : '\n' ∉ line)
      (hblock : dialect.Fenced fenceChar openingLen block (text ++ rest))
      (htext : Reads dialect true text rest) :
      Reads dialect true (line ++ '\n' :: (block ++ text)) rest

/-- For CommonMark, a marker behind this text is outside of code and not escaped. -/
def Outside (before code after : List Char) : Prop :=
  commonMark.Reads true before (marker code ++ after)

/-- Whatever the codes are replaced by, between what becomes of the text before and behind the
marker stands what its code is replaced by. -/
def Replaced (before code after : List Char) : Prop :=
  ∃ front back : List Piece,
    front.flatMap Piece.source = before ∧ back.flatMap Piece.source = after ∧
    ∀ replace, transformOtp (before ++ (marker code ++ after)) replace =
      some (front.flatMap (Piece.render replace) ++
        (replace code ++ back.flatMap (Piece.render replace)))

end Modo.Email
