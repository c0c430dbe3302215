import Mathlib.Data.List.DropRight

/-!
# Texts as lists of characters

The operations of `str` that the program's parsers are made of.  Splitting at one
character is `List.splitOn`; here are white space and trimming, and `splitFirst`, which
splits at the first place where a pattern occurs.
-/

namespace Text

/-- `decide` tries the characters of the text, and not all that there are. -/
instance (priority := 1100) decidableForallMem {p : Char → Prop} [DecidablePred p]
    (text : List Char) : Decidable (∀ c ∈ text, p c) :=
  List.decidableBAll p text

instance lawfulBEq : LawfulBEq (List Char) := inferInstance

/-- The characters with the Unicode property `White_Space`. -/
def isWhitespace (c : Char) : Bool :=
  let n := c.toNat
  decide (9 ≤ n ∧ n ≤ 13 ∨ n = 0x20 ∨ n = 0x85 ∨ n = 0xa0 ∨ n = 0x1680 ∨
    0x2000 ≤ n ∧ n ≤ 0x200a ∨ n = 0x2028 ∨ n = 0x2029 ∨ n = 0x202f ∨ n = 0x205f ∨ n = 0x3000)

def trimStart (text : List Char) : List Char := text.dropWhile isWhitespace

def trim (text : List Char) : List Char := (trimStart text).rdropWhile isWhitespace

/-- Equality of texts up to the case of ASCII letters. -/
def eqIgnoreAsciiCase (first second : List Char) : Bool :=
  decide (first.map Char.toLower = second.map Char.toLower)

/-- The parts before and after the first place where the pattern occurs. -/
def splitFirst (pattern : List Char) : List Char → Option (List Char × List Char)
  | [] => if pattern.isEmpty then some ([], []) else none
  | c :: rest =>
      if pattern.isPrefixOf (c :: rest) then some ([], (c :: rest).drop pattern.length)
      else (splitFirst pattern rest).map fun (before, after) => (c :: before, after)

/-! ## Texts around a character that stays -/

section Around

variable {α : Type*} {p : α → Bool} {x : α}

theorem takeWhile_append_cons (hx : p x = false) (before after : List α) :
    (before ++ x :: after).takeWhile p = before.takeWhile p := by
  induction before with
  | nil => simp [hx]
  | cons y before ih => simp [List.takeWhile_cons, ih]

theorem dropWhile_append_cons (hx : p x = false) (before after : List α) :
    (before ++ x :: after).dropWhile p = before.dropWhile p ++ x :: after := by
  induction before with
  | nil => simp [hx]
  | cons y before ih =>
      rw [List.cons_append, List.dropWhile_cons, List.dropWhile_cons, ih]
      split <;> rfl

theorem rdropWhile_append_cons (hx : p x = false) (before after : List α) :
    (before ++ x :: after).rdropWhile p = before ++ x :: after.rdropWhile p := by
  have hreverse : (before ++ x :: after).reverse = after.reverse ++ x :: before.reverse := by simp
  rw [List.rdropWhile, hreverse, dropWhile_append_cons hx, List.rdropWhile]
  simp

theorem rdropWhile_append_of_pos {after : List α} (hafter : ∀ y ∈ after, p y = true)
    (before : List α) : (before ++ after).rdropWhile p = before.rdropWhile p := by
  have hreverse : ∀ y ∈ after.reverse, p y = true := fun y hy => hafter y (List.mem_reverse.mp hy)
  rw [List.rdropWhile, List.reverse_append, List.dropWhile_append_of_pos hreverse, List.rdropWhile]

end Around

/-! ## Trimming -/

theorem trimStart_cons_of_whitespace {c : Char} (hc : isWhitespace c = true) (text : List Char) :
    trimStart (c :: text) = trimStart text := by
  rw [trimStart, List.dropWhile_cons_of_pos hc, trimStart]

theorem trim_cons_of_whitespace {c : Char} (hc : isWhitespace c = true) (text : List Char) :
    trim (c :: text) = trim text := by
  rw [trim, trimStart_cons_of_whitespace hc, trim]

/-- A text that begins and ends with other characters is not trimmed. -/
theorem trim_eq_self {text : List Char} (hfirst : ∀ c ∈ text.head?, isWhitespace c = false)
    (hlast : ∀ c ∈ text.getLast?, isWhitespace c = false) : trim text = text := by
  have hstart : trimStart text = text := by
    cases text with
    | nil => rfl
    | cons c rest =>
        have hc := hfirst c rfl
        rw [trimStart, List.dropWhile_cons_of_neg (by simp [hc])]
  rw [trim, hstart, List.rdropWhile_eq_self_iff]
  intro hne
  have hc := hlast _ (List.getLast?_eq_some_getLast hne)
  simp [hc]

theorem trim_append_right {spaces : List Char} (hspaces : ∀ c ∈ spaces, isWhitespace c = true)
    (text : List Char) : trim (text ++ spaces) = trim text := by
  rw [trim, trimStart, List.dropWhile_append]
  split
  · rename_i hempty
    have hnil : spaces.dropWhile isWhitespace = [] := List.dropWhile_eq_nil_iff.mpr hspaces
    rw [List.isEmpty_iff] at hempty
    rw [hnil, trim, trimStart, hempty]
  · rw [rdropWhile_append_of_pos hspaces, trim, trimStart]

theorem trim_rdropWhile (text : List Char) : trim (text.rdropWhile isWhitespace) = trim text := by
  calc
    trim (text.rdropWhile isWhitespace)
      = trim (text.rdropWhile isWhitespace ++ text.rtakeWhile isWhitespace) :=
        (trim_append_right (fun _ hc => List.mem_rtakeWhile_imp hc) _).symm
    _ = trim text := by rw [List.rdropWhile_append_rtakeWhile]

/-- Only what stands before and behind other characters is trimmed. -/
theorem trim_append_cons {c : Char} (hc : isWhitespace c = false) (before after : List Char) :
    trim (before ++ c :: after) =
      before.dropWhile isWhitespace ++ c :: after.rdropWhile isWhitespace := by
  rw [trim, trimStart, dropWhile_append_cons hc, rdropWhile_append_cons hc]

theorem trim_infix (text : List Char) : trim text <:+: text :=
  (List.rdropWhile_prefix isWhitespace _).isInfix.trans (List.dropWhile_suffix _).isInfix

/-- What is left begins with no white space. -/
theorem isWhitespace_head_trim {text : List Char} :
    ∀ c ∈ (trim text).head?, isWhitespace c = false := by
  intro c hc
  have hstart : (trimStart text).head? = some c := by
    obtain ⟨rest, hrest⟩ := List.rdropWhile_prefix isWhitespace (trimStart text)
    rw [← hrest, List.head?_append, show (List.rdropWhile isWhitespace (trimStart text)).head? =
      some c from hc]
    rfl
  have h := List.head?_dropWhile_not isWhitespace text
  rw [trimStart] at hstart
  rw [hstart] at h
  simpa using h

/-- What is left ends with no white space. -/
theorem isWhitespace_getLast_trim {text : List Char} :
    ∀ c ∈ (trim text).getLast?, isWhitespace c = false := by
  intro c hc
  have hne : trim text ≠ [] := by
    intro hnil
    rw [hnil] at hc
    cases hc
  have h := List.rdropWhile_last_not isWhitespace (trimStart text) hne
  rw [List.getLast?_eq_some_getLast hne, Option.mem_some_iff] at hc
  rw [← hc]
  exact Bool.not_eq_true _ ▸ h

/-! ## Joined texts -/

variable {α : Type*} {separator : List α} {parts : List (List α)} {x : α}

/-- A joined text holds the separator and the parts. -/
theorem mem_intercalate (hx : x ∈ separator.intercalate parts) :
    x ∈ separator ∨ ∃ part ∈ parts, x ∈ part := by
  induction parts with
  | nil => simp at hx
  | cons first rest ih =>
      cases rest with
      | nil => exact .inr ⟨first, List.mem_cons_self, by simpa using hx⟩
      | cons second rest =>
          rw [List.intercalate_cons_cons, List.mem_append, List.mem_append] at hx
          rcases hx with (hfirst | hseparator) | hrest
          · exact .inr ⟨first, List.mem_cons_self, hfirst⟩
          · exact .inl hseparator
          · exact (ih hrest).imp_right fun ⟨part, hpart, hx⟩ =>
              ⟨part, List.mem_cons_of_mem first hpart, hx⟩

theorem mem_intercalate_of_mem {part : List α} (hpart : part ∈ parts) (hx : x ∈ part) :
    x ∈ separator.intercalate parts := by
  induction parts with
  | nil => cases hpart
  | cons first rest ih =>
      cases rest with
      | nil =>
          rw [List.mem_singleton.mp hpart] at hx
          simpa using hx
      | cons second rest =>
          rw [List.intercalate_cons_cons, List.mem_append, List.mem_append]
          rcases List.mem_cons.mp hpart with rfl | hrest
          · exact .inl (.inl hx)
          · exact .inr (ih hrest)

/-! ## Split texts -/

theorem notMem_of_mem_splitOn {separator : Char} {text part : List Char}
    (hpart : part ∈ text.splitOn separator) : separator ∉ part := by
  induction text generalizing part with
  | nil =>
      rw [List.splitOn_nil, List.mem_singleton] at hpart
      simp [hpart]
  | cons c rest ih =>
      rw [List.splitOn_cons_eq_if_modifyHead] at hpart
      split at hpart
      · rcases List.mem_cons.mp hpart with rfl | hrest
        · exact List.not_mem_nil
        · exact ih hrest
      · rename_i hc
        obtain ⟨first, others, hsplit⟩ :=
          List.exists_cons_of_ne_nil (List.splitOn_ne_nil separator rest)
        rw [hsplit] at hpart ih
        rcases List.mem_cons.mp hpart with rfl | hrest
        · rw [List.mem_cons, not_or]
          exact ⟨fun heq => hc (beq_iff_eq.mpr heq.symm), ih List.mem_cons_self⟩
        · exact ih (List.mem_cons_of_mem first hrest)

/-- A text without the separator stands before the first part. -/
theorem splitOn_append_of_notMem {separator : Char} {text : List Char} (htext : separator ∉ text)
    (rest : List Char) :
    (text ++ rest).splitOn separator = (rest.splitOn separator).modifyHead (text ++ ·) := by
  obtain ⟨first, others, hsplit⟩ := List.exists_cons_of_ne_nil (List.splitOn_ne_nil separator rest)
  rw [hsplit, List.modifyHead_cons]
  induction text with
  | nil => exact hsplit
  | cons c text ih =>
      rw [List.mem_cons, not_or] at htext
      rw [List.cons_append, List.splitOn_cons_eq_if_modifyHead,
        if_neg (by simpa using Ne.symm htext.1), ih htext.2, List.modifyHead_cons]
      rfl

/-- The first part is what stands before the first separator. -/
theorem exists_splitOn_eq_cons (separator : Char) (text : List Char) :
    ∃ rest, text.splitOn separator = text.takeWhile (· ≠ separator) :: rest := by
  induction text with
  | nil => exact ⟨[], List.splitOn_nil separator⟩
  | cons c text ih =>
      obtain ⟨rest, hrest⟩ := ih
      rw [List.splitOn_cons_eq_if_modifyHead, hrest]
      by_cases hc : c = separator
      · exact ⟨_, by simp [hc]; rfl⟩
      · exact ⟨rest, by simp [hc]⟩

/-- The last part of a text goes on with the first part of the next. -/
theorem exists_splitOn_append (separator : Char) (before : List Char) :
    ∃ init last, before.splitOn separator = init ++ [last] ∧
      ∀ after first rest, after.splitOn separator = first :: rest →
        (before ++ after).splitOn separator = init ++ (last ++ first) :: rest := by
  induction before with
  | nil => exact ⟨[], [], List.splitOn_nil separator, fun _ _ _ hafter => hafter⟩
  | cons c before ih =>
      obtain ⟨init, last, hbefore, happend⟩ := ih
      by_cases hc : (c == separator) = true
      · refine ⟨[] :: init, last, ?_, fun after first rest hafter => ?_⟩
        · rw [List.splitOn_cons_eq_if_modifyHead, if_pos hc, hbefore, List.cons_append]
        · rw [List.cons_append, List.splitOn_cons_eq_if_modifyHead, if_pos hc,
            happend after first rest hafter, List.cons_append]
      · cases init with
        | nil =>
            refine ⟨[], c :: last, ?_, fun after first rest hafter => ?_⟩
            · rw [List.splitOn_cons_eq_if_modifyHead, if_neg hc, hbefore]
              rfl
            · rw [List.cons_append, List.splitOn_cons_eq_if_modifyHead, if_neg hc,
                happend after first rest hafter]
              rfl
        | cons part init =>
            refine ⟨(c :: part) :: init, last, ?_, fun after first rest hafter => ?_⟩
            · rw [List.splitOn_cons_eq_if_modifyHead, if_neg hc, hbefore]
              rfl
            · rw [List.cons_append, List.splitOn_cons_eq_if_modifyHead, if_neg hc,
                happend after first rest hafter]
              rfl

/-- A part of two texts together is a part of one of them, or goes from one to the other. -/
theorem mem_splitOn_append {separator : Char} {before after part : List Char}
    (hpart : part ∈ (before ++ after).splitOn separator) :
    part ∈ before.splitOn separator ∨ part ∈ (after.splitOn separator).tail ∨
      ∃ start, part = start ++ after.takeWhile (· ≠ separator) := by
  obtain ⟨init, last, hbefore, happend⟩ := exists_splitOn_append separator before
  obtain ⟨rest, hrest⟩ := exists_splitOn_eq_cons separator after
  rw [happend after _ rest hrest] at hpart
  rw [hbefore, hrest, List.tail_cons]
  rcases List.mem_append.mp hpart with hinit | hother
  · exact .inl (List.mem_append_left _ hinit)
  · rcases List.mem_cons.mp hother with rfl | hmem
    · exact .inr (.inr ⟨last, rfl⟩)
    · exact .inr (.inl hmem)

/-! ## The first occurrence -/

theorem splitFirst_of_isPrefix {pattern : List Char} (hpattern : pattern ≠ [])
    (rest : List Char) : splitFirst pattern (pattern ++ rest) = some ([], rest) := by
  obtain ⟨c, tail, rfl⟩ := List.exists_cons_of_ne_nil hpattern
  have hbegins : (c :: tail).isPrefixOf (c :: tail ++ rest) = true := by simp
  rw [List.cons_append] at hbegins ⊢
  rw [splitFirst, if_pos hbegins, ← List.cons_append, List.drop_left]

theorem splitFirst_cons_of_not_prefix {pattern : List Char} {c : Char} {rest : List Char}
    (hbegins : ¬pattern <+: c :: rest) :
    splitFirst pattern (c :: rest) =
      (splitFirst pattern rest).map fun (before, after) => (c :: before, after) := by
  rw [splitFirst, if_neg]
  rwa [List.isPrefixOf_iff_prefix]

/-- A text without the first character of the pattern is passed over. -/
theorem splitFirst_append_of_notMem {c : Char} {tail text : List Char} (htext : c ∉ text)
    (rest : List Char) :
    splitFirst (c :: tail) (text ++ rest) =
      (splitFirst (c :: tail) rest).map fun (before, after) => (text ++ before, after) := by
  induction text with
  | nil => simp
  | cons d text ih =>
      rw [List.mem_cons, not_or] at htext
      have hbegins : ¬c :: tail <+: d :: (text ++ rest) := fun h =>
        htext.1 (List.cons_prefix_cons.mp h).1
      rw [List.cons_append, splitFirst_cons_of_not_prefix hbegins, ih htext.2, Option.map_map]
      rfl

/-- The text is the two parts with the pattern between them. -/
theorem append_of_splitFirst {pattern text before after : List Char}
    (hsplit : splitFirst pattern text = some (before, after)) :
    text = before ++ (pattern ++ after) := by
  induction text generalizing before with
  | nil =>
      rw [splitFirst] at hsplit
      split at hsplit
      · rename_i hempty
        cases hsplit
        simpa using hempty
      · cases hsplit
  | cons c rest ih =>
      rw [splitFirst] at hsplit
      split at hsplit
      · rename_i hbegins
        cases hsplit
        rw [List.nil_append]
        exact List.prefix_iff_eq_append.mp (List.isPrefixOf_iff_prefix.mp hbegins) |>.symm
      · obtain ⟨⟨first, second⟩, hrest, hpair⟩ := Option.map_eq_some_iff.mp hsplit
        cases hpair
        rw [List.cons_append, ← ih hrest]

/-- The pattern is found behind a text without it, when its first character is in no other place
of it. -/
theorem splitFirst_of_not_infix {c : Char} {tail before : List Char} (htail : c ∉ tail)
    (hbefore : ¬c :: tail <:+: before) (after : List Char) :
    splitFirst (c :: tail) (before ++ (c :: tail ++ after)) = some (before, after) := by
  induction before with
  | nil => exact splitFirst_of_isPrefix (List.cons_ne_nil c tail) after
  | cons d before ih =>
      have hbegins : ¬c :: tail <+: d :: (before ++ (c :: tail ++ after)) := by
        intro h
        rcases List.prefix_or_prefix_of_prefix h
          (List.prefix_append (d :: before) (c :: tail ++ after)) with hinside | ⟨rest, hrest⟩
        · exact hbefore hinside.isInfix
        · -- the pattern would begin again inside of itself
          obtain ⟨more, hmore⟩ := h
          rw [← hrest, List.append_assoc, List.cons_append, List.cons.injEq,
            List.append_cancel_left_eq] at hmore
          cases rest with
          | nil =>
              rw [List.append_nil] at hrest
              exact hbefore (hrest ▸ List.infix_refl _)
          | cons e rest =>
              have hfirst : e = d := by simpa using congrArg List.head? hmore.2
              rw [List.cons_append, List.cons.injEq] at hrest
              apply htail
              rw [← hrest.2, hfirst, hrest.1]
              exact List.mem_append_right before List.mem_cons_self
      have hrest := ih fun h => hbefore (h.trans (List.suffix_cons d before).isInfix)
      rw [List.cons_append, splitFirst_cons_of_not_prefix hbegins, hrest]
      rfl

/-- The pattern does not occur before the place where it is found. -/
theorem not_infix_of_splitFirst {pattern text before after : List Char} (hpattern : pattern ≠ [])
    (hsplit : splitFirst pattern text = some (before, after)) : ¬pattern <:+: before := by
  induction text generalizing before with
  | nil =>
      rw [splitFirst, if_neg (by simpa using hpattern)] at hsplit
      cases hsplit
  | cons c rest ih =>
      have htext := append_of_splitFirst hsplit
      rw [splitFirst] at hsplit
      split at hsplit
      · cases hsplit
        rwa [List.infix_nil]
      · rename_i hbegins
        obtain ⟨⟨first, second⟩, hrest, hpair⟩ := Option.map_eq_some_iff.mp hsplit
        cases hpair
        rw [List.infix_cons_iff, not_or]
        refine ⟨fun h => hbegins ?_, ih hrest⟩
        rw [List.isPrefixOf_iff_prefix, htext]
        exact h.trans (List.prefix_append _ _)

theorem splitFirst_eq_none {pattern text : List Char} (hpattern : pattern ≠ []) :
    splitFirst pattern text = none ↔ ¬pattern <:+: text := by
  induction text with
  | nil =>
      rw [splitFirst, if_neg (by simpa using hpattern), List.infix_nil]
      exact iff_of_true rfl hpattern
  | cons c rest ih =>
      rw [splitFirst, List.infix_cons_iff, not_or, ← List.isPrefixOf_iff_prefix, ← ih]
      split
      · rename_i hbegins
        simp [hbegins]
      · rename_i hbegins
        simp [hbegins]

end Text
