import Modo.Email.OtpRendering

/-!
# A small Markdown parser

Paragraphs of one line, thematic breaks, empty list items, HTML tags and dashes: enough to read the
sources of a code between two words as the library does.
-/

namespace Modo.Email

/-- Dashes from the left: an em dash for three hyphens, and what is left at the end. -/
def dashes : ℕ → List Char
  | 0 => []
  | 1 => ['-']
  | 2 => ['–']
  | n + 3 => '—' :: dashes n

namespace SmallParser

/-- The parts between blank lines; `line` is what was taken of the first one. -/
def blocks : List Char → List Char → List (List Char)
  | line, [] => [line]
  | line, '\n' :: '\n' :: rest => line :: blocks [] rest
  | line, c :: rest => blocks (line ++ [c]) rest

def trimSpaces (line : List Char) : List Char :=
  (line.dropWhile (· == ' ')).rdropWhile (· == ' ')

def textEvents (text : List Char) : List (Event MarkdownKind) :=
  if text = [] then [] else [.text (Runs.replaceRuns '-' dashes text)]

/-- The text and tags of a paragraph; `taken` is what was taken of the text or tag so far. -/
def inlineEvents : Bool → List Char → List Char → List (Event MarkdownKind)
  | _, taken, [] => textEvents taken
  | false, taken, c :: rest =>
      if c = '<' then textEvents taken ++ inlineEvents true ['<'] rest
      else inlineEvents false (taken ++ [c]) rest
  | true, taken, c :: rest =>
      if c = '>' then .other (.inlineHtml (taken ++ ['>'])) :: inlineEvents false [] rest
      else inlineEvents true (taken ++ [c]) rest

def blockEvents (line : List Char) : List (Event MarkdownKind) :=
  let trimmed := trimSpaces line
  if trimmed = [] then []
  else if trimmed = ['-'] then
    [.start (.other .list), .start (.other .item), .close (.other .item), .close (.other .list)]
  else if 3 ≤ trimmed.length ∧ trimmed = List.replicate trimmed.length '-' then [.other .rule]
  else paragraphOf (inlineEvents false [] trimmed)

def parse (text : List Char) : List (Event MarkdownKind) := (blocks [] text).flatMap blockEvents

/-! ## Blocks -/

theorem blocks_of_notMem {text : List Char} (htext : '\n' ∉ text) (line : List Char) :
    blocks line text = [line ++ text] := by
  induction text generalizing line with
  | nil => rw [blocks, List.append_nil]
  | cons c text ih =>
      rw [List.mem_cons, not_or] at htext
      rw [blocks, ih htext.2, List.append_assoc, List.singleton_append]
      exact fun rest hc _ => htext.1 hc.symm

theorem blocks_append {text : List Char} (htext : '\n' ∉ text) (line rest : List Char) :
    blocks line (text ++ '\n' :: '\n' :: rest) = (line ++ text) :: blocks [] rest := by
  induction text generalizing line with
  | nil => rw [List.nil_append, blocks, List.append_nil]
  | cons c text ih =>
      rw [List.mem_cons, not_or] at htext
      rw [List.cons_append, blocks, ih htext.2, List.append_assoc, List.singleton_append]
      exact fun rest hc _ => htext.1 hc.symm

theorem parse_of_notMem {text : List Char} (htext : '\n' ∉ text) :
    parse text = blockEvents text := by
  rw [parse, blocks_of_notMem htext, List.nil_append, List.flatMap_cons, List.flatMap_nil,
    List.append_nil]

theorem trimSpaces_eq_self {line : List Char} (hfirst : line.head? ≠ some ' ')
    (hlast : line.getLast? ≠ some ' ') : trimSpaces line = line := by
  have hstart : line.dropWhile (· == ' ') = line := by
    cases line with
    | nil => rfl
    | cons c line => exact List.dropWhile_cons_of_neg (by simpa using hfirst)
  rw [trimSpaces, hstart, List.rdropWhile_eq_self_iff]
  intro hne hspace
  rw [List.getLast?_eq_some_getLast hne] at hlast
  exact hlast (congrArg some (beq_iff_eq.mp hspace))

theorem trimSpaces_cons (line : List Char) : trimSpaces (' ' :: line) = trimSpaces line := by
  rw [trimSpaces, List.dropWhile_cons_of_pos (by rfl), trimSpaces]

theorem trimSpaces_append {line : List Char} (hne : line ≠ []) (hfirst : line.head? ≠ some ' ') :
    trimSpaces (line ++ [' ']) = trimSpaces line := by
  obtain ⟨c, line, rfl⟩ := List.exists_cons_of_ne_nil hne
  have hstart : ∀ more, (c :: more).dropWhile (· == ' ') = c :: more := fun more =>
    List.dropWhile_cons_of_neg (by simpa using hfirst)
  rw [trimSpaces, trimSpaces, List.cons_append, hstart, hstart, ← List.cons_append,
    List.rdropWhile_concat_pos _ _ _ (by rfl)]

/-! ## Tags -/

theorem inlineEvents_text {text : List Char} (htext : '<' ∉ text) (taken : List Char) :
    inlineEvents false taken text = textEvents (taken ++ text) := by
  induction text generalizing taken with
  | nil => rw [inlineEvents, List.append_nil]
  | cons c text ih =>
      rw [List.mem_cons, not_or] at htext
      rw [inlineEvents, if_neg (Ne.symm htext.1), ih htext.2, List.append_assoc,
        List.singleton_append]

theorem inlineEvents_start {text : List Char} (htext : '<' ∉ text) (taken rest : List Char) :
    inlineEvents false taken (text ++ '<' :: rest) =
      textEvents (taken ++ text) ++ inlineEvents true ['<'] rest := by
  induction text generalizing taken with
  | nil => rw [List.nil_append, inlineEvents, if_pos rfl, List.append_nil]
  | cons c text ih =>
      rw [List.mem_cons, not_or] at htext
      rw [List.cons_append, inlineEvents, if_neg (Ne.symm htext.1), ih htext.2, List.append_assoc,
        List.singleton_append]

theorem inlineEvents_tag {inner : List Char} (hinner : '>' ∉ inner) (taken rest : List Char) :
    inlineEvents true taken (inner ++ '>' :: rest) =
      .other (.inlineHtml (taken ++ (inner ++ ['>']))) :: inlineEvents false [] rest := by
  induction inner generalizing taken with
  | nil => rw [List.nil_append, inlineEvents, if_pos rfl, List.nil_append]
  | cons c inner ih =>
      rw [List.mem_cons, not_or] at hinner
      rw [List.cons_append, inlineEvents, if_neg (Ne.symm hinner.1), ih hinner.2, List.append_assoc,
        List.singleton_append, List.cons_append]

theorem spells_textEvents (hshortens : Runs.Shortens '-' dashes) (text : List Char) :
    Spells (textEvents text) (Runs.replaceRuns '-' dashes text) := by
  unfold textEvents
  split_ifs with hnil
  · subst hnil
    exact ⟨[], rfl, (hshortens.replaceRuns_of_notMem List.not_mem_nil).symm⟩
  · exact ⟨[Runs.replaceRuns '-' dashes text], rfl, by simp⟩

end SmallParser

theorem IsPlain.notMem {text : List Char} (htext : IsPlain text) {c : Char}
    (hc : (c.toNat < 128 ∧ c.isAlphanum = false) ∧ c ≠ '-' ∧ c ≠ ' ') : c ∉ text := by
  intro hmem
  rcases htext c hmem with hword | hother | hother
  · exact hword.ne hc.1 rfl
  · exact hc.2.1 hother
  · exact hc.2.2 hother

theorem IsTagName.notMem {name : List Char} (hname : IsTagName name) {c : Char}
    (hc : c.isAlpha = false) : c ∉ name := fun hmem =>
  absurd (hc.symm.trans (hname.2 c hmem)) Bool.false_ne_true

/-- Within the brackets of a tag there are no others, and no line breaks. -/
theorem IsTag.exists_inner {tag : List Char} (htag : IsTag tag) :
    ∃ inner, tag = '<' :: (inner ++ ['>']) ∧ '>' ∉ inner ∧ '\n' ∉ inner := by
  have hnot : ∀ c : Char, (c.isAlpha = false ∧ c ≠ ' ' ∧ c ≠ '=' ∧ c ≠ '"') →
      c = '>' ∨ c = '\n' → ∀ attributes : List (List Char × List Char),
        (∀ attr ∈ attributes, IsTagName attr.1 ∧ IsTagValue attr.2) →
        c ∉ attributes.flatMap attributeText := by
    rintro c ⟨halpha, hspace, hequals, hquote⟩ hkind attributes hattributes hmem
    obtain ⟨⟨name, value⟩, hattr, hmem⟩ := List.mem_flatMap.mp hmem
    obtain ⟨hname, hvalue⟩ := hattributes _ hattr
    have hvalueMem : c ∉ value := by
      intro hin
      obtain ⟨-, -, hgt, hbreak⟩ := hvalue c hin
      exact hkind.elim hgt hbreak
    have hquotes : "=\"".toList = ['=', '"'] := rfl
    simp only [attributeText, hquotes, List.mem_cons, List.mem_append, List.not_mem_nil,
      or_false] at hmem
    rcases hmem with hchar | hmem | (hchar | hchar) | hmem | hchar
    · exact hspace hchar
    · exact hname.notMem halpha hmem
    · exact hequals hchar
    · exact hquote hchar
    · exact hvalueMem hmem
    · exact hquote hchar
  cases htag with
  | @opening name attributes hname hattributes =>
      refine ⟨name ++ attributes.flatMap attributeText, by simp [openTag_eq], ?_, ?_⟩
      · rw [List.mem_append, not_or]
        exact ⟨hname.notMem (by decide), hnot '>' (by decide) (.inl rfl) attributes hattributes⟩
      · rw [List.mem_append, not_or]
        exact ⟨hname.notMem (by decide), hnot '\n' (by decide) (.inr rfl) attributes
          hattributes⟩
  | @closing name hname =>
      refine ⟨'/' :: name, rfl, ?_, ?_⟩
      · rw [List.mem_cons, not_or]
        exact ⟨by decide, hname.notMem (by decide)⟩
      · rw [List.mem_cons, not_or]
        exact ⟨by decide, hname.notMem (by decide)⟩

/-! ## The laws -/

namespace SmallParser

theorem shortens : Runs.Shortens '-' dashes where
  zero := rfl
  one := rfl
  many n hn := by
    induction n using dashes.induct with
    | case1 => cases hn
    | case2 => exact absurd hn (by decide)
    | case3 => decide
    | case4 n ih =>
        have hrest : (dashes n).count '-' ≤ n := by
          match n with
          | 0 => decide
          | 1 => decide
          | n + 2 => exact (ih (Nat.le_add_left 2 n)).le
        rw [dashes, List.count_cons_of_ne (by decide)]
        omega

theorem mem_dashes {c : Char} {n : ℕ} (hc : c ∈ dashes n) : c = '-' ∨ c = '–' ∨ c = '—' := by
  induction n using dashes.induct with
  | case1 => cases hc
  | case2 => exact .inl (List.mem_singleton.mp hc)
  | case3 => exact .inr (.inl (List.mem_singleton.mp hc))
  | case4 n ih =>
      rw [dashes, List.mem_cons] at hc
      exact hc.elim (fun h => .inr (.inr h)) ih

/-- Tags are passed through, with the text between them. -/
theorem exists_passesTags {tags : List (List Char × List Char)}
    (htags : ∀ tag ∈ tags, IsTag tag.1 ∧ IsPlain tag.2) :
    ∃ rest, PassesTags (Runs.replaceRuns '-' dashes) tags rest ∧
      ∀ text, '<' ∉ text → inlineEvents false []
        (text ++ tags.flatMap fun (tag, text) => tag ++ text) = textEvents text ++ rest := by
  induction tags with
  | nil =>
      refine ⟨[], .nil, fun text htext => ?_⟩
      rw [List.flatMap_nil, List.append_nil, inlineEvents_text htext, List.append_nil,
        List.nil_append]
  | cons tag tags ih =>
      obtain ⟨tag, behind⟩ := tag
      obtain ⟨rest, hrest, hevents⟩ :=
        ih fun other hother => htags other (List.mem_cons_of_mem _ hother)
      obtain ⟨htag, hbehind⟩ := htags _ List.mem_cons_self
      obtain ⟨inner, rfl, hinner, -⟩ := htag.exists_inner
      have hplain : '<' ∉ behind :=
        IsPlain.notMem hbehind (by decide)
      refine ⟨_, .cons (spells_textEvents shortens behind) hrest, fun text htext => ?_⟩
      have hwhole : text ++ ('<' :: (inner ++ ['>']) ++ behind ++
          tags.flatMap fun (tag, text) => tag ++ text) = text ++ '<' :: (inner ++ '>' :: (behind ++
          tags.flatMap fun (tag, text) => tag ++ text)) := by simp
      rw [List.flatMap_cons, hwhole, inlineEvents_start htext, inlineEvents_tag hinner,
        hevents behind hplain]
      simp

theorem blockEvents_eq {line trimmed : List Char} (htrim : trimSpaces line = trimmed)
    (hne : trimmed ≠ []) (hruns : ∀ n, trimmed = List.replicate n '-' → n = 2) :
    blockEvents line = paragraphOf (inlineEvents false [] trimmed) := by
  have hitem : trimmed ≠ ['-'] := fun heq => absurd (hruns 1 heq) (by decide)
  have hrule : ¬(3 ≤ trimmed.length ∧ trimmed = List.replicate trimmed.length '-') := by
    rintro ⟨hlength, heq⟩
    have htwo := hruns _ heq
    omega
  unfold blockEvents
  rw [htrim]
  dsimp only
  rw [if_neg hne, if_neg hitem, if_neg hrule]

/-- A line of words and hyphens is not trimmed. -/
theorem trimSpaces_line {line : List Char} (hline : IsLine line) : trimSpaces line = line := by
  have hspace : ' ' ∉ line := by
    intro hmem
    rcases hline _ hmem with hword | hhyphen
    · exact hword.ne (by decide) rfl
    · cases hhyphen
  exact trimSpaces_eq_self (fun h => hspace (List.mem_of_head? h))
    (fun h => hspace (List.mem_of_getLast? h))

theorem notMem_line {line : List Char} (hline : IsLine line) : '\n' ∉ line ∧ '<' ∉ line := by
  have hplain : IsPlain line := fun c hc => (hline c hc).imp_right .inl
  exact ⟨hplain.notMem (by decide),
    hplain.notMem (by decide)⟩

/-- The lines of a code between two words are parsed one by one. -/
theorem parse_blocks {before line after : List Char} (hbefore : IsWord before) (hline : IsLine line)
    (hafter : IsWord after) :
    parse (before ++ (" \n\n".toList ++ (line ++ ("\n\n ".toList ++ after)))) =
      parse before ++ (parse line ++ parse after) := by
  have hbeforeLine : IsLine before := fun c hc => .inl (hbefore.chars c hc)
  have hafterLine : IsLine after := fun c hc => .inl (hafter.chars c hc)
  have hspaced : '\n' ∉ before ++ [' '] := by
    rw [List.mem_append, not_or]
    exact ⟨(notMem_line hbeforeLine).1, by decide⟩
  have hindented : '\n' ∉ ' ' :: after := by
    rw [List.mem_cons, not_or]
    exact ⟨by decide, (notMem_line hafterLine).1⟩
  have hsource : before ++ (" \n\n".toList ++ (line ++ ("\n\n ".toList ++ after))) =
      (before ++ [' ']) ++ '\n' :: '\n' :: (line ++ '\n' :: '\n' :: (' ' :: after)) := by simp
  have hfirst : before.head? ≠ some ' ' := fun h =>
    hbefore.notMem (by decide) (List.mem_of_head? h)
  have htrimBefore : blockEvents (before ++ [' ']) = blockEvents before := by
    unfold blockEvents
    rw [trimSpaces_append hbefore.ne_nil hfirst]
  have htrimAfter : blockEvents (' ' :: after) = blockEvents after := by
    unfold blockEvents
    rw [trimSpaces_cons]
  rw [parse_of_notMem (notMem_line hbeforeLine).1, parse_of_notMem (notMem_line hline).1,
    parse_of_notMem (notMem_line hafterLine).1, hsource, parse, blocks_append hspaced,
    blocks_append (notMem_line hline).1, blocks_of_notMem hindented]
  simp [htrimBefore, htrimAfter]

/-- A paragraph that begins with a word. -/
theorem parse_inline {first last : Char} {text : List Char} {tags : List (List Char × List Char)}
    (hfirst : IsWordChar first) (htext : IsPlain text)
    (htags : ∀ tag ∈ tags, IsTag tag.1 ∧ IsPlain tag.2)
    (hend : (first :: text ++ tags.flatMap fun (tag, text) => tag ++ text).getLast? = some last)
    (hlast : last ≠ ' ') :
    ∃ events rest, parse (first :: text ++ tags.flatMap fun (tag, text) => tag ++ text) =
        paragraphOf (events ++ rest) ∧
      Spells events (Runs.replaceRuns '-' dashes (first :: text)) ∧
      PassesTags (Runs.replaceRuns '-' dashes) tags rest := by
  have hplain : IsPlain (first :: text) := by
    intro c hc
    rcases List.mem_cons.mp hc with rfl | hmem
    · exact .inl hfirst
    · exact htext c hmem
  have hbreak : '\n' ∉ first :: text ++ tags.flatMap fun (tag, text) => tag ++ text := by
    rw [List.mem_append, not_or]
    refine ⟨hplain.notMem (by decide), fun hmem => ?_⟩
    obtain ⟨⟨tag, behind⟩, htag, hmem⟩ := List.mem_flatMap.mp hmem
    obtain ⟨htag, hbehind⟩ := htags _ htag
    obtain ⟨inner, rfl, -, hinner⟩ := htag.exists_inner
    rcases List.mem_append.mp hmem with hmem | hmem
    · simp [hinner] at hmem
    · exact hbehind.notMem (by decide) hmem
  have htrim : trimSpaces (first :: text ++ tags.flatMap fun (tag, text) => tag ++ text) =
      first :: text ++ tags.flatMap fun (tag, text) => tag ++ text := by
    refine trimSpaces_eq_self (fun h => ?_) (fun h => ?_)
    · exact hfirst.ne (by decide) (Option.some.inj h)
    · exact hlast (Option.some.inj (hend.symm.trans h))
  -- a line of hyphens only, other than two, would be a list or a rule
  have hruns : ∀ n, (first :: text ++ tags.flatMap fun (tag, text) => tag ++ text) =
      List.replicate n '-' → n = 2 := by
    intro n heq
    have hmem : first ∈ List.replicate n '-' := by
      rw [← heq, List.cons_append]
      exact List.mem_cons_self
    exact absurd (List.eq_of_mem_replicate hmem) (hfirst.ne (by decide))
  obtain ⟨rest, hrest, hevents⟩ := exists_passesTags htags
  refine ⟨textEvents (first :: text), rest, ?_, spells_textEvents shortens _, hrest⟩
  have hopen : '<' ∉ first :: text :=
    hplain.notMem (by decide)
  rw [parse_of_notMem hbreak, blockEvents_eq htrim (List.cons_ne_nil _ _) hruns, hevents _ hopen]

/-- The small parser is one of those that `SmartParser` describes. -/
theorem parse_smart : SmartParser dashes parse where
  shortens := shortens
  two := rfl
  three := rfl
  dashes _ _ hc := mem_dashes hc
  blocks _ _ _ hbefore hline hafter := parse_blocks hbefore hline hafter
  paragraph line hne hline hruns := by
    refine ⟨textEvents line, ?_, spells_textEvents shortens line⟩
    rw [parse_of_notMem (notMem_line hline).1, blockEvents_eq (trimSpaces_line hline) hne hruns,
      inlineEvents_text (notMem_line hline).2, List.nil_append]
  rule n hn := by
    have hline : IsLine (List.replicate n '-') := fun c hc => .inr (List.eq_of_mem_replicate hc)
    have hlength : (List.replicate n '-').length = n := List.length_replicate
    have hne : List.replicate n '-' ≠ [] := by
      rw [← List.length_pos_iff, hlength]
      omega
    have hone : List.replicate n '-' ≠ ['-'] := by
      intro heq
      have hsingle := congrArg List.length heq
      rw [hlength, List.length_singleton] at hsingle
      omega
    rw [parse_of_notMem (notMem_line hline).1]
    unfold blockEvents
    rw [trimSpaces_line hline]
    dsimp only
    rw [if_neg hne, if_neg hone, hlength, if_pos ⟨hn, rfl⟩]
  item := rfl
  inline _ _ _ _ hfirst htext htags hend hlast := parse_inline hfirst htext htags hend hlast

end SmallParser

/-! ## A renderer -/

/-- Text with its brackets and ampersands escaped, and tags as they are. -/
def plainWriters : Writers MarkdownKind where
  tableState := .head
  cell _ _ := "<td>".toList
  cellEnd _ := "</td>".toList
  link _ destUrl _ := "<a href=\"".toList ++ (Modo.Sanitize.escapeHtml destUrl ++ "\">".toList)
  image destUrl := "<img src=\"".toList ++ (Modo.Sanitize.escapeHtml destUrl ++ "\" alt=\"".toList)
  imageEnd _ := "\" />".toList
  definition name _ := name
  reference name _ := name
  event
    | .start (.other .paragraph) => "<p>".toList
    | .close (.other .paragraph) => "</p>".toList
    | .start (.other .list) => "<ul>".toList
    | .close (.other .list) => "</ul>".toList
    | .start (.other .item) => "<li>".toList
    | .close (.other .item) => "</li>".toList
    | .other .rule => "<hr />".toList
    | .other (.inlineHtml html) => html
    | .text text => text.flatMap fun c =>
        if c = '&' then "&amp;".toList
        else if c = '<' then "&lt;".toList
        else if c = '>' then "&gt;".toList
        else [c]
    | _ => []
  altReference _ := []
  altEvent _ := []

theorem plainWriters_plain : plainWriters.Plain where
  text text htext := by
    calc text.flatMap (fun c => if c = '&' then "&amp;".toList else if c = '<' then "&lt;".toList
            else if c = '>' then "&gt;".toList else [c]) = text.flatMap (fun c => [c]) := by
          refine List.flatMap_congr fun c hc => ?_
          obtain ⟨hamp, hlt, hgt⟩ := htext c hc
          rw [if_neg hamp, if_neg hlt, if_neg hgt]
      _ = text := List.flatMap_singleton' text
  inlineHtml _ := rfl
  paragraph := rfl
  paragraphEnd := rfl

end Modo.Email
