import Modo.Lib.Ascii
import Modo.Lib.Text

/-!
# The grammar of a forwarding header

A header that lists proxies is a list of elements behind commas, an element is a list of
parameters behind semicolons, and the value of a parameter is a token or a quoted string.
Between quotes the separators are characters like any others, and a backslash quotes the
character behind it.

A value of this grammar is a tree; `text` writes it down.  A character stands for a byte, so
that the characters from 128 on are the opaque bytes of the grammar.
-/

namespace Forwarded

/-! ## Characters -/

/-- The characters of a token. -/
def isTchar (c : Char) : Bool :=
  c.isAlphanum || decide (c ∈ "!#$%&'*+-.^_\x60|~".toList)

def isOpaque (c : Char) : Bool := decide (128 ≤ c.toNat ∧ c.toNat < 256)

/-- The characters that stand between quotes as they are. -/
def isQdtext (c : Char) : Bool :=
  decide (c = '\t' ∨ (32 ≤ c.toNat ∧ c.toNat < 127) ∧ c ≠ '"' ∧ c ≠ '\\') || isOpaque c

/-- The characters that stand behind a backslash. -/
def isQuotable (c : Char) : Bool :=
  decide (c = '\t' ∨ 32 ≤ c.toNat ∧ c.toNat < 127) || isOpaque c

/-- Optional whitespace. -/
def isOws (text : List Char) : Bool := text.all fun c => decide (c = ' ' ∨ c = '\t')

/-! ## The trees -/

structure Token where
  text : List Char
  ne_nil : text ≠ []
  isTchar : text.all isTchar = true

/-- A character between quotes, as it is or behind a backslash. -/
inductive QuotedItem where
  | plain (c : Char) (h : isQdtext c = true)
  | escaped (c : Char) (h : isQuotable c = true)

namespace QuotedItem

def char : QuotedItem → Char
  | plain c _ => c
  | escaped c _ => c

def text : QuotedItem → List Char
  | plain c _ => [c]
  | escaped c _ => ['\\', c]

end QuotedItem

inductive Value where
  | token (token : Token)
  | quotedString (items : List QuotedItem)

namespace Value

/-- The value that is meant. -/
def chars : Value → List Char
  | .token word => word.text
  | .quotedString items => items.map QuotedItem.char

/-- The value as it is written. -/
def text : Value → List Char
  | .token word => word.text
  | .quotedString items => '"' :: (items.flatMap QuotedItem.text ++ ['"'])

end Value

structure Pair where
  name : Token
  value : Value

def Pair.text (pair : Pair) : List Char := pair.name.text ++ '=' :: pair.value.text

/-- A parameter may be left out. -/
def paramText : Option Pair → List Char
  | some pair => pair.text
  | none => []

abbrev Element := List (Option Pair)

def elementText (element : Element) : List Char := [';'].intercalate (element.map paramText)

/-- The elements behind the first, with the whitespace around their commas. -/
structure Next where
  before : List Char
  after : List Char
  element : Element
  isOws_before : isOws before = true
  isOws_after : isOws after = true

def Next.text (next : Next) : List Char :=
  next.before ++ ',' :: (next.after ++ elementText next.element)

structure Header where
  first : Element
  rest : List Next

def Header.text (header : Header) : List Char :=
  elementText header.first ++ header.rest.flatMap Next.text

/-! ## Parameters by name -/

/-- The parameter has this name, in any case. -/
def Pair.IsNamed (name : List Char) (pair : Pair) : Prop :=
  Text.eqIgnoreAsciiCase pair.name.text name = true

instance (name : List Char) (pair : Pair) : Decidable (pair.IsNamed name) :=
  inferInstanceAs (Decidable (_ = true))

/-! ## What stands before and behind a parameter -/

/-- The parameters before another one, as they are written. -/
def beforeText (element : Element) : List Char :=
  element.flatMap fun param => paramText param ++ [';']

/-- The parameters behind another one, as they are written. -/
def afterText (element : Element) : List Char :=
  element.flatMap fun param => ';' :: paramText param

theorem elementText_cons (param : Option Pair) (element : Element) :
    elementText (param :: element) = paramText param ++ afterText element := by
  induction element generalizing param with
  | nil => simp [elementText, afterText]
  | cons second rest ih =>
      have hrest := ih second
      rw [elementText, List.map_cons] at hrest ⊢
      rw [List.map_cons, List.intercalate_cons_cons, hrest]
      simp [afterText]

theorem elementText_append_cons (before after : Element) (param : Option Pair) :
    elementText (before ++ param :: after) =
      beforeText before ++ (paramText param ++ afterText after) := by
  induction before with
  | nil => exact elementText_cons param after
  | cons first rest ih =>
      rw [List.cons_append, elementText_cons]
      cases rest with
      | nil => simp [beforeText, afterText]
      | cons second rest =>
          rw [List.cons_append, elementText_cons] at ih
          have hafter : afterText (second :: (rest ++ param :: after)) =
              ';' :: (paramText second ++ afterText (rest ++ param :: after)) := by
            simp [afterText]
          rw [List.cons_append, hafter, ih]
          simp [beforeText]

/-- What stands behind a parameter of the first element. -/
def tailText (after : Element) (rest : List Next) : List Char :=
  afterText after ++ rest.flatMap Next.text

theorem Header.text_eq {header : Header} {before after : Element} {param : Option Pair}
    (hfirst : header.first = before ++ param :: after) :
    header.text = beforeText before ++ (paramText param ++ tailText after header.rest) := by
  rw [Header.text, hfirst, elementText_append_cons, tailText, List.append_assoc,
    List.append_assoc]

/-- The character separates neither parameters nor elements. -/
def isInner (c : Char) : Bool := decide (c ≠ ';') && decide (c ≠ ',')

/-- Up to the next separator there is only white space. -/
theorem isOws_takeWhile_tailText (after : Element) (rest : List Next) :
    isOws ((tailText after rest).takeWhile isInner) = true := by
  cases after with
  | cons param after => simp [tailText, afterText, isInner, isOws]
  | nil =>
      cases rest with
      | nil => rfl
      | cons next rest =>
          have hinner : ∀ c ∈ next.before, isInner c = true := by
            intro c hc
            rcases of_decide_eq_true (List.all_eq_true.mp next.isOws_before c hc) with rfl | rfl <;>
              decide
          have htail : tailText [] (next :: rest) =
              next.before ++ ',' :: (next.after ++ elementText next.element ++
                rest.flatMap Next.text) := by
            simp [tailText, afterText, Next.text]
          rw [htail, List.takeWhile_append_of_pos hinner, List.takeWhile_cons_of_neg (by decide),
            List.append_nil]
          exact next.isOws_before

/-! ## The characters of the parts -/

/-- A character of a token is visible and none of the delimiters. -/
theorem isTchar_spec {c : Char} (hc : isTchar c = true) :
    33 ≤ c.toNat ∧ c.toNat < 127 ∧ c ≠ ',' ∧ c ≠ ';' ∧ c ≠ ':' := by
  rw [isTchar, Bool.or_eq_true, decide_eq_true_eq] at hc
  rcases hc with hc | hc
  · have hbounds : 48 ≤ c.toNat ∧ c.toNat < 58 ∨ 65 ≤ c.toNat ∧ c.toNat < 123 := by
      have hrange := Ascii.isAlphanum_iff.mp hc
      omega
    have hne : ∀ d : Char, d.toNat < 48 ∨ 58 ≤ d.toNat ∧ d.toNat < 65 → c ≠ d := by
      rintro d hd rfl
      omega
    exact ⟨by omega, by omega, hne _ (by decide), hne _ (by decide), hne _ (by decide)⟩
  · have hall : ∀ c ∈ "!#$%&'*+-.^_\x60|~".toList,
        33 ≤ c.toNat ∧ c.toNat < 127 ∧ c ≠ ',' ∧ c ≠ ';' ∧ c ≠ ':' := by
      decide
    exact hall c hc

theorem Token.spec (token : Token) {c : Char} (hc : c ∈ token.text) :
    33 ≤ c.toNat ∧ c.toNat < 127 ∧ c ≠ ',' ∧ c ≠ ';' ∧ c ≠ ':' :=
  isTchar_spec (List.all_eq_true.mp token.isTchar c hc)

theorem isOpaque_lt {c : Char} (hc : isOpaque c = true) : c.toNat < 256 :=
  (of_decide_eq_true hc).2

namespace QuotedItem

theorem char_lt (item : QuotedItem) : item.char.toNat < 256 := by
  cases item with
  | plain c h =>
      rw [isQdtext, Bool.or_eq_true, decide_eq_true_eq] at h
      rcases h with (htab | h) | h
      · rw [char, htab]
        decide
      · exact h.1.2.trans (by decide)
      · exact isOpaque_lt h
  | escaped c h =>
      rw [isQuotable, Bool.or_eq_true, decide_eq_true_eq] at h
      rcases h with (htab | h) | h
      · rw [char, htab]
        decide
      · exact h.2.trans (by decide)
      · exact isOpaque_lt h

theorem mem_text_iff {item : QuotedItem} {c : Char} (hc : c ≠ '\\') :
    c ∈ item.text ↔ c = item.char := by
  cases item <;> simp [text, char, hc]

variable (items : List QuotedItem)

/-- Quoting hides no character. -/
theorem mem_map_char_iff {c : Char} (hc : c ≠ '\\') :
    c ∈ items.map char ↔ c ∈ items.flatMap text := by
  simp only [List.mem_map, List.mem_flatMap, mem_text_iff hc, eq_comm]

theorem length_map_char_le : (items.map char).length ≤ (items.flatMap text).length := by
  induction items with
  | nil => exact Nat.le_refl 0
  | cons item rest ih =>
      have hitem : 1 ≤ item.text.length := by
        cases item <;> simp [text]
      rw [List.map_cons, List.flatMap_cons, List.length_cons, List.length_append]
      omega

theorem char_mem_text (item : QuotedItem) : item.char ∈ item.text := by
  cases item <;> simp [text, char]

end QuotedItem

theorem Value.chars_lt (value : Value) : ∀ c ∈ value.chars, c.toNat < 256 := by
  intro c hc
  cases value with
  | token word => exact (word.spec hc).2.1.trans (by decide)
  | quotedString items =>
      obtain ⟨item, -, rfl⟩ := List.mem_map.mp hc
      exact item.char_lt

/-- The characters of a value are written. -/
theorem Value.mem_text_of_mem_chars (value : Value) {c : Char} (hc : c ∈ value.chars) :
    c ∈ value.text := by
  cases value with
  | token word => exact hc
  | quotedString items =>
      obtain ⟨item, hitem, rfl⟩ := List.mem_map.mp hc
      exact List.mem_cons_of_mem _ (List.mem_append_left _
        (List.mem_flatMap.mpr ⟨item, hitem, item.char_mem_text⟩))

theorem Value.text_lt (value : Value) : ∀ c ∈ value.text, c.toNat < 256 := by
  intro c hc
  cases value with
  | token word => exact (word.spec hc).2.1.trans (by decide)
  | quotedString items =>
      by_cases hslash : c = '\\'
      · rw [hslash]
        decide
      · rw [Value.text, List.mem_cons, List.mem_append, List.mem_singleton,
          ← QuotedItem.mem_map_char_iff items hslash] at hc
        rcases hc with rfl | hc | rfl
        · decide
        · exact (Value.quotedString items).chars_lt c hc
        · decide

theorem paramText_lt (param : Option Pair) : ∀ c ∈ paramText param, c.toNat < 256 := by
  intro c hc
  cases param with
  | none => cases hc
  | some pair =>
      rw [paramText, Pair.text, List.mem_append, List.mem_cons] at hc
      rcases hc with hc | rfl | hc
      · exact (pair.name.spec hc).2.1.trans (by decide)
      · decide
      · exact pair.value.text_lt c hc

theorem elementText_lt (element : Element) : ∀ c ∈ elementText element, c.toNat < 256 := by
  intro c hc
  rcases Text.mem_intercalate hc with hc | ⟨part, hpart, hc⟩
  · rw [List.mem_singleton.mp hc]
    decide
  · obtain ⟨param, -, rfl⟩ := List.mem_map.mp hpart
    exact paramText_lt param c hc

theorem isOws_lt {text : List Char} (htext : isOws text = true) : ∀ c ∈ text, c.toNat < 256 := by
  intro c hc
  rcases of_decide_eq_true (List.all_eq_true.mp htext c hc) with rfl | rfl <;> decide

/-- A header is made of bytes. -/
theorem Header.text_lt (header : Header) : ∀ c ∈ header.text, c.toNat < 256 := by
  intro c hc
  rw [Header.text, List.mem_append, List.mem_flatMap] at hc
  rcases hc with hc | ⟨next, -, hc⟩
  · exact elementText_lt header.first c hc
  · rw [Next.text, List.mem_append, List.mem_cons, List.mem_append] at hc
    rcases hc with hc | rfl | hc | hc
    · exact isOws_lt next.isOws_before c hc
    · decide
    · exact isOws_lt next.isOws_after c hc
    · exact elementText_lt next.element c hc

end Forwarded
