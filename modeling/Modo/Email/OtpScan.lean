import Modo.Lib.Utf8Slice

/-!
# The scanner for one-time codes

`transform_otp` goes over the source by byte positions and replaces `[otp|CODE]` outside of code
spans, fenced blocks and escapes.  Its slices fail inside of a character.
-/

namespace Modo.Email

open Utf8 (byte bytes sliceFrom sliceTo byteLength)

/-- The bytes of `is_valid_code`. -/
def isCodeByte (b : UInt8) : Bool :=
  decide (byte '0' ≤ b ∧ b ≤ byte '9' ∨ byte 'a' ≤ b ∧ b ≤ byte 'z' ∨
    byte 'A' ≤ b ∧ b ≤ byte 'Z') ||
    b == byte '-'

/-- `is_valid_code`. -/
def isValidCode (s : List Char) : Bool :=
  decide (1 ≤ byteLength s ∧ byteLength s ≤ 32) && (bytes s).all isCodeByte

/-- `ScanCtx`. -/
inductive ScanCtx where
  | text
  | codeSpan (ticks : ℕ)
  | fence (fenceChar : UInt8) (openingLen : ℕ)
  deriving DecidableEq

/-- The variables of the loop. -/
structure Scan where
  out : List Char
  i : ℕ
  ctx : ScanCtx
  atLineStart : Bool
  deriving DecidableEq

namespace Scan

def start : Scan where
  out := []
  i := 0
  ctx := .text
  atLineStart := true

/-- What stands in front of a code. -/
def otpStart : List Char := "[otp|".toList

/-- Where the line ends, with its line break. -/
def lineEnd (line : List Char) : ℕ :=
  match Utf8.find '\n' line with
  | some n => n + 1
  | none => byteLength line

/-- The character and the length of the fence that a line opens. -/
def opensFence (line : List Char) : Option (UInt8 × ℕ) :=
  let trimmed := line.dropWhile (· == ' ')
  let ch := (bytes trimmed).head?.getD 0
  let runLen := ((bytes trimmed).takeWhile (· == ch)).length
  if (ch = byte '\x60' ∨ ch = byte '~') ∧ 3 ≤ runLen then some (ch, runLen) else none

/-- A line closes a fence. -/
def closesFence (fenceChar : UInt8) (openingLen : ℕ) (line : List Char) : Bool :=
  let trimmed := bytes (line.dropWhile (· == ' '))
  let runLen := (trimmed.takeWhile (· == fenceChar)).length
  let tail := (trimmed.drop runLen).takeWhile (· != byte '\n')
  decide (openingLen ≤ runLen) && tail.all (· == byte ' ')

section Step

variable (src : List Char) (state : Scan)

/-- Copy the line, and go on in a context. -/
def copyLine (line : List Char) (ctx : ScanCtx) : Option Scan :=
  (sliceTo line (lineEnd line)).map fun text =>
    { out := state.out ++ text, i := state.i + lineEnd line, ctx := ctx, atLineStart := true }

/-- Copy a character, of which `b` is the first byte. -/
def copyChar (b : UInt8) : Option Scan :=
  if b < 128 then
    some { state with
      out := state.out ++ [Char.ofNat b.toNat]
      i := state.i + 1
      atLineStart := b == byte '\n' }
  else
    (sliceFrom src state.i).bind fun rest =>
      rest.head?.map fun ch =>
        { state with
          out := state.out ++ [ch]
          i := state.i + ch.utf8Size
          atLineStart := false }

/-- The backticks from the position on. -/
def ticks : ℕ := (((bytes src).drop state.i).takeWhile (· == byte '\x60')).length

/-- Copy the backticks, and go on in a context. -/
def copyTicks (ctx : ScanCtx) (atLineStart : Bool) : Option Scan :=
  (Utf8.slice src state.i (state.i + state.ticks src)).map fun run =>
    { out := state.out ++ run
      i := state.i + state.ticks src
      ctx := ctx
      atLineStart := atLineStart }

/-- The code of a marker at the position and its length in bytes. -/
def otpCode : Option (Option (List Char × ℕ)) :=
  (sliceFrom src state.i).bind fun marker =>
    if otpStart.isPrefixOf marker then
      (sliceFrom src (state.i + 5)).bind fun rest =>
        match Utf8.find ']' rest with
        | none => some none
        | some codeEnd =>
            (sliceTo rest codeEnd).map fun code =>
              if isValidCode code then some (code, codeEnd) else none
    else some none

variable (replace : List Char → List Char)

/-- A step in text, behind the check for a fence. -/
def stepInline : Option Scan :=
  ((bytes src)[state.i]?).bind fun b =>
    if b = byte '\\' ∧ (bytes src)[state.i + 1]? = some (byte '[') then
      some { state with
        out := state.out ++ ['\\', '[']
        i := state.i + 2
        atLineStart := false }
    else if b = byte '\x60' then
      state.copyTicks src (.codeSpan (state.ticks src)) false
    else if b = byte '[' then
      (state.otpCode src).bind fun found =>
        match found with
        | some (code, codeEnd) =>
            some { state with
              out := state.out ++ replace code
              i := state.i + (5 + codeEnd + 1)
              atLineStart := false }
        | none => state.copyChar src b
    else state.copyChar src b

/-- One round of the loop of `transform_otp`; nothing is a panic. -/
def step : Option Scan :=
  match state.ctx with
  | .text =>
      if state.atLineStart then
        (sliceFrom src state.i).bind fun line =>
          match opensFence line with
          | some (fenceChar, openingLen) => state.copyLine line (.fence fenceChar openingLen)
          | none => state.stepInline src replace
      else state.stepInline src replace
  | .codeSpan opening =>
      ((bytes src)[state.i]?).bind fun b =>
        if b = byte '\x60' then
          state.copyTicks src (if state.ticks src = opening then .text else .codeSpan opening)
            state.atLineStart
        else state.copyChar src b
  | .fence fenceChar openingLen =>
      if state.atLineStart then
        (sliceFrom src state.i).bind fun line =>
          if closesFence fenceChar openingLen line then state.copyLine line .text
          else ((bytes src)[state.i]?).bind fun b => state.copyChar src b
      else ((bytes src)[state.i]?).bind fun b => state.copyChar src b

end Step

/-- The loop of `transform_otp`. -/
def loop (src : List Char) (replace : List Char → List Char) : ℕ → Scan → Option (List Char)
  | 0, state => if state.i < byteLength src then none else some state.out
  | rounds + 1, state =>
      if state.i < byteLength src then (state.step src replace).bind (loop src replace rounds)
      else some state.out

end Scan

/-- `transform_otp`.  As each round moves on, there are no more rounds than bytes. -/
def transformOtp (src : List Char) (replace : List Char → List Char) : Option (List Char) :=
  Scan.loop src replace (byteLength src) .start

example : transformOtp "a [otp|1-2] b".toList (fun code => '<' :: code) =
    some "a <1-2 b".toList := by
  decide

end Modo.Email
