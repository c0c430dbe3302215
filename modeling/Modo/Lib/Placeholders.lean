import Mathlib.Data.List.Basic

/-!
# Placeholders in SQL texts

A `?` of an SQL text is a placeholder unless it stands in a quoted name, in a
string or in a comment.  `scan` reads a text character by character and counts
the placeholders; the `Mode` is what the scanner has to remember.

`Closed text n` says that the text has `n` placeholders and ends outside of
quotes and comments.  Such texts can be put one after the other: the placeholders
add up (`Closed.append`).
-/

namespace Placeholders

/-- Where in a text the scanner is. -/
inductive Mode where
  | code
  /-- After a `-` that may begin a comment. -/
  | dash
  /-- After a `/` that may begin a comment. -/
  | slash
  /-- Inside quotes, up to the closing character. -/
  | quoted (close : Char)
  /-- In a comment up to the end of the line. -/
  | line
  /-- In a comment up to the closing mark. -/
  | block
  /-- In such a comment, after a `*`. -/
  | star
  deriving DecidableEq

/-- The mode after a character outside of quotes and comments. -/
def opened (c : Char) : Mode :=
  if c = '-' then .dash
  else if c = '/' then .slash
  else if c = '[' then .quoted ']'
  -- the single quote, the double quote and the backtick
  else if c.toNat = 39 ∨ c.toNat = 34 ∨ c.toNat = 96 then .quoted c
  else .code

namespace Mode

def next : Mode → Char → Mode
  | code, c => opened c
  | dash, c => if c = '-' then line else opened c
  | slash, c => if c = '*' then block else opened c
  | quoted close, c => if c = close then code else quoted close
  | line, c => if c = '\n' then code else line
  | block, c => if c = '*' then star else block
  | star, c => if c = '/' then code else if c = '*' then star else block

/-- The scanner is outside of quotes and comments. -/
def isCode : Mode → Bool
  | code | dash | slash => true
  | quoted _ | line | block | star => false

end Mode

/-- The mode after a text and the number of placeholders in it. -/
def scan : Mode → List Char → Mode × ℕ
  | mode, [] => (mode, 0)
  | mode, c :: rest =>
      let (last, n) := scan (mode.next c) rest
      (last, n + if c = '?' ∧ mode.isCode then 1 else 0)

/-- The placeholders of a text. -/
def count (text : String) : ℕ := (scan .code text.toList).2

/-- The text has `n` placeholders and ends outside of quotes and comments. -/
def Closed (text : String) (n : ℕ) : Prop := scan .code text.toList = (.code, n)

instance (text : String) (n : ℕ) : Decidable (Closed text n) :=
  inferInstanceAs (Decidable (scan .code text.toList = (.code, n)))

theorem scan_append (mode : Mode) (first second : List Char) :
    scan mode (first ++ second) =
      ((scan (scan mode first).1 second).1,
        (scan mode first).2 + (scan (scan mode first).1 second).2) := by
  induction first generalizing mode with
  | nil => simp [scan]
  | cons c rest ih =>
      simp only [List.cons_append, scan]
      rw [ih]
      simp only [Prod.mk.injEq, true_and]
      omega

/-- Up to its closing character a quoted text is skipped. -/
theorem scan_quoted {close : Char} {text : List Char} (htext : close ∉ text)
    (rest : List Char) :
    scan (.quoted close) (text ++ close :: rest) = scan .code rest := by
  induction text with
  | nil => simp [scan, Mode.next, Mode.isCode]
  | cons c more ih =>
      rw [List.mem_cons, not_or] at htext
      have hmode : (Mode.quoted close).next c = .quoted close := if_neg fun h => htext.1 h.symm
      simp only [List.cons_append, scan, hmode, ih htext.2]
      simp [Mode.isCode]

namespace Closed

theorem count_eq {text : String} {n : ℕ} (hclosed : Closed text n) : count text = n := by
  rw [count, hclosed]

theorem append {first second : String} {n m : ℕ} (hfirst : Closed first n)
    (hsecond : Closed second m) : Closed (first ++ second) (n + m) := by
  rw [Closed, String.toList_append, scan_append, hfirst, hsecond]

end Closed

end Placeholders
