import Modo.Lib.Text

/-!
# Strings in a JSON text

`quoted` is a string as a compact writer writes it: quotes, backslashes and control
characters are escaped, and everything else stands for itself.

A reader is outside of a string, inside of one, or behind a backslash; `scan` follows it.
A text whose last string is not closed leaves it inside (`scan`), and `OnlyInside` says of
a character that it occurs in strings only, so that a text cut at it is such a text
(`scan_of_onlyInside`).
-/

namespace JsonText

/-- The digit of a half byte. -/
def hexDigit (n : ℕ) : Char :=
  ['0', '1', '2', '3', '4', '5', '6', '7', '8', '9', 'a', 'b', 'c', 'd', 'e', 'f'].getD n '0'

/-- A character in a string. -/
def escapeChar (c : Char) : List Char :=
  if c = '"' then ['\\', '"']
  else if c = '\\' then ['\\', '\\']
  else if c.toNat = 8 then ['\\', 'b']
  else if c.toNat = 9 then ['\\', 't']
  else if c.toNat = 10 then ['\\', 'n']
  else if c.toNat = 12 then ['\\', 'f']
  else if c.toNat = 13 then ['\\', 'r']
  else if c.toNat < 32 then
    ['\\', 'u', '0', '0', hexDigit (c.toNat / 16), hexDigit (c.toNat % 16)]
  else [c]

/-- A string. -/
def quoted (text : List Char) : List Char := '"' :: (text.flatMap escapeChar ++ ['"'])

/-- Where a reader of the text is. -/
inductive Mode where
  | outside
  | inside
  /-- Behind a backslash. -/
  | escaped
  deriving DecidableEq

def Mode.next (mode : Mode) (c : Char) : Mode :=
  match mode with
  | .outside => if c = '"' then .inside else .outside
  | .inside => if c = '"' then .outside else if c = '\\' then .escaped else .inside
  | .escaped => .inside

/-- Read a text. -/
def scan (mode : Mode) (text : List Char) : Mode := text.foldl Mode.next mode

@[simp] theorem scan_nil (mode : Mode) : scan mode [] = mode := rfl

@[simp] theorem scan_cons (mode : Mode) (c : Char) (text : List Char) :
    scan mode (c :: text) = scan (mode.next c) text := rfl

@[simp] theorem scan_append (mode : Mode) (first second : List Char) :
    scan mode (first ++ second) = scan (scan mode first) second := List.foldl_append

/-- The character occurs in strings only. -/
def OnlyInside (separator : Char) : Mode → List Char → Prop
  | _, [] => True
  | mode, c :: text => (c = separator → mode = .inside) ∧ OnlyInside separator (mode.next c) text

variable {separator : Char}

theorem onlyInside_append (mode : Mode) (first second : List Char) :
    OnlyInside separator mode (first ++ second) ↔
      OnlyInside separator mode first ∧ OnlyInside separator (scan mode first) second := by
  induction first generalizing mode with
  | nil => simp [OnlyInside]
  | cons c rest ih => simp only [List.cons_append, OnlyInside, scan_cons, ih, and_assoc]

theorem onlyInside_of_notMem (mode : Mode) {text : List Char} (htext : separator ∉ text) :
    OnlyInside separator mode text := by
  induction text generalizing mode with
  | nil => trivial
  | cons c rest ih =>
      rw [List.mem_cons, not_or] at htext
      exact ⟨fun hc => absurd hc.symm htext.1, ih _ htext.2⟩

/-- A text that is cut at such a character has an open string. -/
theorem scan_of_onlyInside {mode : Mode} {before after : List Char}
    (honly : OnlyInside separator mode (before ++ separator :: after)) :
    scan mode before = .inside := by
  rw [onlyInside_append] at honly
  exact honly.2.1 rfl

/-- White space at the end is not what closes a string. -/
theorem scan_append_ne_outside {mode : Mode} {text blank : List Char} (hblank : '"' ∉ blank)
    (hscan : scan mode (text ++ blank) ≠ .outside) : scan mode text ≠ .outside := by
  intro houtside
  apply hscan
  rw [scan_append, houtside]
  clear hscan
  induction blank with
  | nil => rfl
  | cons c rest ih =>
      rw [List.mem_cons, not_or] at hblank
      rw [scan_cons, Mode.next, if_neg (Ne.symm hblank.1), ih hblank.2]

/-! ## Strings that are written -/

/-- The characters of the escapes, behind the backslash. -/
def escapeAlphabet : List Char :=
  ['"', '\\', 't', 'n', 'r', 'u', '0', '1', '2', '3', '4', '5', '6', '7', '8', '9',
    'a', 'b', 'c', 'd', 'e', 'f']

/-- The half of a byte is a character that a string may hold. -/
theorem hexDigit_mem (n : ℕ) :
    hexDigit n ∈ escapeAlphabet ∧ hexDigit n ≠ '"' ∧ hexDigit n ≠ '\\' := by
  have hdigits : ∀ d ∈ ['0', '1', '2', '3', '4', '5', '6', '7', '8', '9', 'a', 'b', 'c', 'd',
      'e', 'f'], d ∈ escapeAlphabet ∧ d ≠ '"' ∧ d ≠ '\\' := by decide
  apply hdigits
  rw [hexDigit, List.getD_eq_getElem?_getD]
  generalize hget : (_ : List Char)[n]? = digit
  cases digit with
  | none => decide
  | some d => exact List.mem_of_getElem? hget

/-- A character stands for itself, or for an escape. -/
theorem escapeChar_cases (c : Char) :
    escapeChar c = [c] ∧ c ≠ '"' ∧ c ≠ '\\' ∧ 32 ≤ c.toNat ∨
      (c = '"' ∨ c = '\\' ∨ c.toNat < 32) ∧
        ∃ first rest, escapeChar c = '\\' :: first :: rest ∧ first ∈ escapeAlphabet ∧
          ∀ d ∈ rest, d ∈ escapeAlphabet ∧ d ≠ '"' ∧ d ≠ '\\' := by
  have hshort : ∀ first ∈ escapeAlphabet,
      ∃ first' rest, ['\\', first] = '\\' :: first' :: rest ∧ first' ∈ escapeAlphabet ∧
        ∀ d ∈ rest, d ∈ escapeAlphabet ∧ d ≠ '"' ∧ d ≠ '\\' :=
    fun first hfirst => ⟨first, [], rfl, hfirst, by simp⟩
  unfold escapeChar
  by_cases hquote : c = '"'
  · rw [if_pos hquote]
    exact .inr ⟨.inl hquote, hshort _ (by decide)⟩
  rw [if_neg hquote]
  by_cases hslash : c = '\\'
  · rw [if_pos hslash]
    exact .inr ⟨.inr (.inl hslash), hshort _ (by decide)⟩
  rw [if_neg hslash]
  by_cases hcontrol : c.toNat < 32
  · refine .inr ⟨.inr (.inr hcontrol), ?_⟩
    by_cases hb : c.toNat = 8
    · rw [if_pos hb]
      exact hshort _ (by decide)
    rw [if_neg hb]
    by_cases ht : c.toNat = 9
    · rw [if_pos ht]
      exact hshort _ (by decide)
    rw [if_neg ht]
    by_cases hn : c.toNat = 10
    · rw [if_pos hn]
      exact hshort _ (by decide)
    rw [if_neg hn]
    by_cases hf : c.toNat = 12
    · rw [if_pos hf]
      exact hshort _ (by decide)
    rw [if_neg hf]
    by_cases hr : c.toNat = 13
    · rw [if_pos hr]
      exact hshort _ (by decide)
    rw [if_neg hr]
    rw [if_pos hcontrol]
    refine ⟨_, _, rfl, by decide, ?_⟩
    intro d hd
    simp only [List.mem_cons, List.not_mem_nil, or_false] at hd
    rcases hd with rfl | rfl | rfl | rfl
    · decide
    · decide
    · exact hexDigit_mem _
    · exact hexDigit_mem _
  · rw [if_neg (by omega), if_neg (by omega), if_neg (by omega), if_neg (by omega),
      if_neg (by omega), if_neg hcontrol]
    exact .inl ⟨rfl, hquote, hslash, by omega⟩

/-- A string holds what its characters hold, and the escapes. -/
theorem mem_escapeChar {c d : Char} (hd : d ∈ escapeChar c) :
    d = c ∧ 32 ≤ c.toNat ∨ d ∈ escapeAlphabet := by
  rcases escapeChar_cases c with ⟨heq, -, -, hprintable⟩ | ⟨-, first, rest, heq, hfirst, hrest⟩
  · rw [heq, List.mem_singleton] at hd
    exact .inl ⟨hd, hprintable⟩
  · rw [heq, List.mem_cons, List.mem_cons] at hd
    rcases hd with rfl | rfl | hd
    · exact .inr (by decide)
    · exact .inr hfirst
    · exact .inr (hrest d hd).1

/-- A character that is not a control character is in its own writing. -/
theorem mem_escapeChar_self {c : Char} (hc : 32 ≤ c.toNat) : c ∈ escapeChar c := by
  rcases escapeChar_cases c with ⟨heq, -⟩ | ⟨rfl | rfl | hcontrol, -⟩
  · rw [heq]
    exact List.mem_singleton_self c
  · decide
  · decide
  · omega

theorem mem_quoted {text : List Char} {c : Char} (hc : c ∈ quoted text) :
    c ∈ text ∧ 32 ≤ c.toNat ∨ c ∈ escapeAlphabet := by
  rw [quoted, List.mem_cons, List.mem_append, List.mem_singleton, List.mem_flatMap] at hc
  rcases hc with rfl | ⟨d, hd, hc⟩ | rfl
  · exact .inr (by decide)
  · rcases mem_escapeChar hc with ⟨rfl, hprintable⟩ | hescape
    · exact .inl ⟨hd, hprintable⟩
    · exact .inr hescape
  · exact .inr (by decide)

theorem mem_quoted_of_mem {text : List Char} {c : Char} (hc : c ∈ text)
    (hprintable : 32 ≤ c.toNat) : c ∈ quoted text := by
  apply List.mem_cons_of_mem
  apply List.mem_append_left
  exact List.mem_flatMap.mpr ⟨c, hc, mem_escapeChar_self hprintable⟩

theorem scan_inside_of_ordinary {text : List Char}
    (htext : ∀ d ∈ text, d ≠ '"' ∧ d ≠ '\\') : scan .inside text = .inside := by
  induction text with
  | nil => rfl
  | cons d rest ih =>
      have hd := htext d List.mem_cons_self
      rw [scan_cons, Mode.next, if_neg hd.1, if_neg hd.2]
      exact ih fun e he => htext e (List.mem_cons_of_mem d he)

theorem scan_escapeChar (c : Char) : scan .inside (escapeChar c) = .inside := by
  rcases escapeChar_cases c with ⟨heq, hquote, hslash, -⟩ | ⟨-, first, rest, heq, -, hrest⟩
  · rw [heq]
    apply scan_inside_of_ordinary
    intro d hd
    rw [List.mem_singleton.mp hd]
    exact ⟨hquote, hslash⟩
  · rw [heq, scan_cons, scan_cons]
    exact scan_inside_of_ordinary fun d hd => (hrest d hd).2

theorem scan_flatMap_escapeChar (text : List Char) :
    scan .inside (text.flatMap escapeChar) = .inside := by
  induction text with
  | nil => rfl
  | cons c rest ih => rw [List.flatMap_cons, scan_append, scan_escapeChar, ih]

/-- A string is read to its end. -/
@[simp] theorem scan_quoted (text : List Char) : scan .outside (quoted text) = .outside := by
  rw [quoted, scan_cons, scan_append]
  change scan (scan .inside _) ['"'] = _
  rw [scan_flatMap_escapeChar]
  rfl

/-- What no escape is made of stands in a string only as a character of its text. -/
theorem onlyInside_escapeChar (hseparator : separator ∉ escapeAlphabet) (c : Char) :
    OnlyInside separator .inside (escapeChar c) := by
  rcases escapeChar_cases c with ⟨heq, -⟩ | ⟨-, first, rest, heq, hfirst, hrest⟩
  · rw [heq]
    exact ⟨fun _ => rfl, trivial⟩
  · rw [heq]
    refine ⟨fun _ => rfl, fun hc => absurd (hc ▸ hfirst) hseparator, ?_⟩
    exact onlyInside_of_notMem _ fun hmem => hseparator (hrest _ hmem).1

theorem onlyInside_quoted (hseparator : separator ∉ escapeAlphabet) (text : List Char) :
    OnlyInside separator .outside (quoted text) := by
  have hquote : separator ≠ '"' := fun h => hseparator (h ▸ by decide)
  refine ⟨fun hc => absurd hc.symm hquote, ?_⟩
  change OnlyInside separator .inside _
  rw [onlyInside_append, scan_flatMap_escapeChar]
  refine ⟨?_, fun _ => rfl, trivial⟩
  induction text with
  | nil => trivial
  | cons c rest ih =>
      rw [List.flatMap_cons, onlyInside_append, scan_escapeChar]
      exact ⟨onlyInside_escapeChar hseparator c, ih⟩

end JsonText
