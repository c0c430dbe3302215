import Modo.Email.OtpArrival
import Modo.Email.OtpParser
import Modo.Lib.Ascii

/-!
# Which codes reach the reader

A code between two words arrives unchanged in both forms of a mail exactly when it has no two
hyphens in a row and is not a single hyphen (`codeReaches_iff`).  Two hyphens become a dash, three a
thematic break in the text form, and one is an empty list item there.
-/

namespace Modo.Email

open Modo.Sanitize (escapeHtml)

/-! ## Codes -/

theorem isWordChar_or_hyphen {code : List Char} (hcode : isValidCode code = true) {c : Char}
    (hc : c ∈ code) : IsWordChar c ∨ c = '-' := by
  obtain ⟨hascii, hbyte⟩ := isCodeByte_of_mem hcode hc
  have hchar : isCodeByte (Utf8.byte c) = true → c.isAlphanum = true ∨ c = '-' :=
    Ascii.forall_of_lt (p := fun c => isCodeByte (Utf8.byte c) = true →
      c.isAlphanum = true ∨ c = '-') 128 (by decide +kernel) hascii
  exact (hchar hbyte).imp_left .inl

theorem ne_nil_of_isValidCode {code : List Char} (hcode : isValidCode code = true) : code ≠ [] := by
  rintro rfl
  cases hcode

/-- A code has no characters that HTML escapes. -/
theorem escapeHtml_code {code : List Char} (hcode : isValidCode code = true) :
    escapeHtml code = code := by
  have hnot : ∀ other : Char, (other.toNat < 128 ∧ other.isAlphanum = false) ∧ other ≠ '-' →
      ∀ c ∈ code, c ≠ other := by
    rintro other ⟨hother, hhyphen⟩ c hc rfl
    rcases isWordChar_or_hyphen hcode hc with hword | heq
    · exact hword.ne hother rfl
    · exact hhyphen heq
  rw [Sanitize.escapeHtml_eq]
  calc code.flatMap Sanitize.escapeChar = code.flatMap (fun c => [c]) := by
        refine List.flatMap_congr fun c hc => ?_
        rw [Sanitize.escapeChar, if_neg (hnot '&' (by decide) c hc),
          if_neg (hnot '<' (by decide) c hc),
          if_neg (hnot '>' (by decide) c hc),
          if_neg (hnot '"' (by decide) c hc)]
    _ = code := List.flatMap_singleton' code

/-! ## The scanner -/

/-- What the scanner copies within a line. -/
def IsCopied (c : Char) : Prop := c ≠ '\\' ∧ c ≠ '\x60' ∧ c ≠ '[' ∧ c ≠ '\n'

theorem IsWordChar.isCopied {c : Char} (hc : IsWordChar c) : IsCopied c :=
  ⟨hc.ne (by decide), hc.ne (by decide), hc.ne (by decide), hc.ne (by decide)⟩

theorem next_copied {c : Char} (hc : IsCopied c) {atLineStart : Bool} {tail : List Char}
    (hfence : scanner.NoFence atLineStart (c :: tail)) :
    Cut.next .text atLineStart c tail = ⟨.kept [c], .text, false⟩ := by
  obtain ⟨hescape, htick, hbracket, hbreak⟩ := hc
  have hline : (c == '\n') = false := beq_eq_false_iff_ne.mpr hbreak
  rw [next_text hfence, Cut.inText, if_neg fun h => hescape h.1, if_neg htick,
    Cut.markerCode_of_ne hbracket]
  dsimp only
  rw [Cut.ofChar, hline]

/-- Within a line, copied characters are pieces of their own. -/
theorem cuts_copied {text rest : List Char} (htext : ∀ c ∈ text, IsCopied c) {pieces : List Piece}
    (hrest : Cuts .text false rest pieces) :
    Cuts .text false (text ++ rest) (text.map (fun c => .kept [c]) ++ pieces) := by
  induction text with
  | nil => exact hrest
  | cons c text ih =>
      have hnext : Cut.next .text false c (text ++ rest) = ⟨.kept [c], .text, false⟩ :=
        next_copied (htext c List.mem_cons_self) fun h => absurd h Bool.false_ne_true
      exact .of_next hnext rfl (ih fun other hother => htext other (List.mem_cons_of_mem c hother))

theorem flatMap_render_copied (replace : List Char → List Char) (text : List Char) :
    (text.map fun c => Piece.kept [c]).flatMap (Piece.render replace) = text := by
  rw [List.flatMap_map]
  exact List.flatMap_singleton' text

/-- Between words, the marker is replaced, and nothing else. -/
theorem transformOtp_betweenWords {before code after : List Char} (hbefore : IsWord before)
    (hcode : isValidCode code = true) (hafter : IsWord after) (replace : List Char → List Char) :
    transformOtp (betweenWords before code after) replace =
      some (before ++ ' ' :: (replace code ++ ' ' :: after)) := by
  obtain ⟨first, word, rfl⟩ := List.exists_cons_of_ne_nil hbefore.ne_nil
  have hspace : IsCopied ' ' := by unfold IsCopied; decide
  have hword : ∀ c ∈ word ++ [' '], IsCopied c := by
    intro c hc
    rcases List.mem_append.mp hc with hmem | hmem
    · exact (hbefore.chars c (List.mem_cons_of_mem first hmem)).isCopied
    · exact List.mem_singleton.mp hmem ▸ hspace
  have hbehind : ∀ c ∈ ' ' :: after, IsCopied c := by
    intro c hc
    rcases List.mem_cons.mp hc with rfl | hmem
    · exact hspace
    · exact (hafter.chars c hmem).isCopied
  have hend : Cuts .text false (' ' :: after ++ []) _ := cuts_copied hbehind (.nil .text false)
  rw [List.append_nil, List.append_nil] at hend
  -- the marker is taken at once
  have hotp : Cuts .text false (marker code ++ ' ' :: after) _ :=
    .of_next (next_marker hcode false (' ' :: after)) rfl hend
  have hfirst := hbefore.chars first List.mem_cons_self
  have hfence := opensFence_eq_none (hfirst.ne (by decide)) (hfirst.ne (by decide))
    (hfirst.ne (by decide))
  have hrest := cuts_copied hword hotp
  have hnext : Cut.next .text true first (word ++ [' '] ++ (marker code ++ ' ' :: after)) =
      ⟨.kept [first], .text, false⟩ := next_copied hfirst.isCopied fun _ => hfence _
  have hcuts := Cuts.of_next hnext rfl hrest
  have hsource : betweenWords (first :: word) code after =
      first :: (word ++ [' '] ++ (marker code ++ ' ' :: after)) := by simp [betweenWords]
  rw [hsource, transformOtp_eq hcuts]
  simp only [List.flatMap_cons, List.flatMap_append, flatMap_render_copied, Piece.render]
  simp

/-! ## The text form -/

theorem foldl_spells {events : List (Event MarkdownKind)} {text : List Char}
    (h : Spells events text) (out link : List Char) :
    events.foldl TextState.next ⟨out, none, link⟩ = ⟨out ++ text, none, link⟩ := by
  obtain ⟨parts, rfl, rfl⟩ := h
  induction parts generalizing out with
  | nil => simp
  | cons part parts ih =>
      have hnext : TextState.next ⟨out, none, link⟩ (.text part) = ⟨out ++ part, none, link⟩ := rfl
      rw [List.map_cons, List.foldl_cons, hnext, ih, List.append_assoc, List.flatten_cons]

theorem foldl_paragraph {events : List (Event MarkdownKind)} {text : List Char}
    (h : Spells events text) (out link : List Char) :
    (paragraphOf events).foldl TextState.next ⟨out, none, link⟩ =
      ⟨out ++ (text ++ "\n\n".toList), none, link⟩ := by
  have hstart : TextState.next ⟨out, none, link⟩ (.start (.other .paragraph)) =
      ⟨out, none, link⟩ := rfl
  rw [paragraphOf, List.foldl_cons, hstart, List.foldl_append, foldl_spells h, ← List.append_assoc]
  rfl

/-- An empty list item leaves its bullet. -/
theorem foldl_item (out link : List Char) :
    [.start (.other .list), .start (.other .item), .close (.other .item),
        .close (.other .list)].foldl TextState.next ⟨out, none, link⟩ =
      ⟨out ++ "- \n".toList, none, link⟩ := by
  have hlast : (out ++ "- ".toList).getLast? ≠ some '\n' := by simp
  have hitem : TextState.next ⟨out ++ "- ".toList, none, link⟩ (.close (.other .item)) =
      ⟨out ++ "- ".toList ++ ['\n'], none, link⟩ := if_neg hlast
  have hbullet : out ++ "- ".toList ++ ['\n'] = out ++ "- \n".toList := by simp
  rw [← hbullet, ← hitem]
  rfl

section Parser

variable {dash : ℕ → List Char} {parse : List Char → List (Event MarkdownKind)}
  (hparser : SmartParser dash parse)

include hparser

theorem SmartParser.word {word : List Char} (hword : IsWord word) :
    ∃ events, parse word = paragraphOf events ∧ Spells events word := by
  have hhyphen : '-' ∉ word := fun hmem =>
    (hword.chars _ hmem).ne (by decide) rfl
  have hruns : ∀ n, word = List.replicate n '-' → n = 2 := by
    rintro n rfl
    cases n with
    | zero => exact absurd rfl hword.ne_nil
    | succ n => exact absurd List.mem_cons_self hhyphen
  obtain ⟨events, hparse, hspells⟩ :=
    hparser.paragraph word hword.ne_nil (fun c hc => .inl (hword.chars c hc)) hruns
  rw [hparser.shortens.replaceRuns_of_notMem hhyphen] at hspells
  exact ⟨events, hparse, hspells⟩

/-- The text form, from what becomes of the code in a block of its own. -/
theorem SmartParser.sourceToText_eq {before code after block : List Char} (hbefore : IsWord before)
    (hcode : isValidCode code = true) (hafter : IsWord after)
    (hblock : ∀ out, (parse code).foldl TextState.next ⟨out, none, []⟩ =
      ⟨out ++ block, none, []⟩) :
    sourceToText parse (betweenWords before code after) =
      some (before ++ '\n' :: '\n' :: (block ++ after)) := by
  obtain ⟨first, hfirst, hfirstSpells⟩ := hparser.word hbefore
  obtain ⟨last, hlast, hlastSpells⟩ := hparser.word hafter
  have hsource : before ++ ' ' :: (renderOtpText code ++ ' ' :: after) =
      before ++ (" \n\n".toList ++ (code ++ ("\n\n ".toList ++ after))) := by
    simp [renderOtpText]
  have hparse := hparser.blocks before code after hbefore
    (fun c hc => isWordChar_or_hyphen hcode hc) hafter
  have hwhole : before ++ "\n\n".toList ++ block ++ (after ++ "\n\n".toList) =
      before ++ '\n' :: '\n' :: (block ++ after) ++ "\n\n".toList := by simp
  have htrim : Text.trim (before ++ '\n' :: '\n' :: (block ++ after)) =
      before ++ '\n' :: '\n' :: (block ++ after) := by
    refine Text.trim_eq_self ?_ ?_
    · intro c hc
      obtain ⟨first, word, rfl⟩ := List.exists_cons_of_ne_nil hbefore.ne_nil
      obtain rfl : first = c := Option.some.inj hc
      exact (hbefore.chars first List.mem_cons_self).isWhitespace
    · intro c hc
      rw [← List.cons_append, ← List.cons_append, ← List.append_assoc,
        List.getLast?_append_of_ne_nil _ hafter.ne_nil] at hc
      exact (hafter.chars c (List.mem_of_mem_getLast? hc)).isWhitespace
  rw [sourceToText, transformOtp_betweenWords hbefore hcode hafter, Option.map_some, hsource,
    markdownToText, hparse, hfirst, hlast, List.foldl_append, foldl_paragraph hfirstSpells,
    List.foldl_append, hblock, foldl_paragraph hlastSpells, List.nil_append, hwhole,
    Text.trim_append_right (by decide), htrim]

end Parser

/-- The lines of a text with one line in front. -/
theorem mem_lines_cons {line : List Char} (hline : '\n' ∉ line) {other rest : List Char} :
    other ∈ (line ++ '\n' :: rest).splitOn '\n' ↔ other = line ∨ other ∈ rest.splitOn '\n' := by
  have hsplit : ('\n' :: rest).splitOn '\n' = [] :: rest.splitOn '\n' := by
    rw [List.splitOn_cons_eq_if_modifyHead, if_pos (beq_self_eq_true '\n')]
  rw [Text.splitOn_append_of_notMem hline, hsplit, List.modifyHead_cons, List.append_nil,
    List.mem_cons]

theorem mem_lines_single {line : List Char} (hline : '\n' ∉ line) {other : List Char} :
    other ∈ line.splitOn '\n' ↔ other = line := by
  have hsplit := Text.splitOn_append_of_notMem hline []
  rw [List.append_nil, List.splitOn_nil, List.modifyHead_cons, List.append_nil] at hsplit
  rw [hsplit, List.mem_singleton]

/-- The codes that are a list item, those that are a thematic break, and all others. -/
theorem hyphen_cases {code : List Char} (hne : code ≠ []) :
    code = ['-'] ∨ (∃ n, 3 ≤ n ∧ code = List.replicate n '-') ∨
      ∀ n, code = List.replicate n '-' → n = 2 := by
  by_cases hhyphens : ∃ n, code = List.replicate n '-'
  · obtain ⟨n, rfl⟩ := hhyphens
    match n with
    | 0 => exact absurd rfl hne
    | 1 => exact .inl rfl
    | 2 =>
        refine .inr (.inr fun n heq => ?_)
        have hlength := congrArg List.length heq
        rw [List.length_replicate, List.length_replicate] at hlength
        exact hlength.symm
    | n + 3 => exact .inr (.inl ⟨n + 3, Nat.le_add_left 3 n, rfl⟩)
  · exact .inr (.inr fun n heq => absurd ⟨n, heq⟩ hhyphens)

section Parser

variable {dash : ℕ → List Char} {parse : List Char → List (Event MarkdownKind)}
  (hparser : SmartParser dash parse)

include hparser

/-- Hyphens become other characters only where they stand in a row. -/
theorem SmartParser.mem_smart {code : List Char} {c : Char}
    (hc : c ∈ Runs.replaceRuns '-' dash code) : c ∈ code ∨ c = '-' ∨ c = '–' ∨ c = '—' := by
  refine (Runs.mem_replaceFrom hc).imp_right ?_
  rintro ⟨n, hn⟩
  exact hparser.dashes n c hn

/-- The text form has the code on a line of its own exactly when it has no two hyphens in a row and
is not a single one. -/
theorem SmartParser.onOwnLine_iff {before code after : List Char} (hbefore : IsWord before)
    (hcode : isValidCode code = true) (hafter : IsWord after) :
    OnOwnLine parse (betweenWords before code after) code ↔
      ¬['-', '-'] <:+: code ∧ code ≠ ['-'] := by
  have hnil := ne_nil_of_isValidCode hcode
  have hbreak : '\n' ∉ before ∧ '\n' ∉ after :=
    ⟨hbefore.notMem (by decide), hafter.notMem (by decide)⟩
  have hhyphen : '-' ∉ before ∧ '-' ∉ after :=
    ⟨hbefore.notMem (by decide), hafter.notMem (by decide)⟩
  have hlines : ∀ block,
      (∀ out, (parse code).foldl TextState.next ⟨out, none, []⟩ = ⟨out ++ block, none, []⟩) →
      (OnOwnLine parse (betweenWords before code after) code ↔
        code = before ∨ code ∈ (block ++ after).splitOn '\n') := by
    intro block hblock
    have htext := hparser.sourceToText_eq hbefore hcode hafter hblock
    have hmem : code ∈ (before ++ '\n' :: ([] ++ '\n' :: (block ++ after))).splitOn '\n' ↔
        code = before ∨ code ∈ (block ++ after).splitOn '\n' := by
      rw [mem_lines_cons hbreak.1, mem_lines_cons List.not_mem_nil, or_iff_right hnil]
    rw [← hmem, OnOwnLine, htext]
    simp
  rcases hyphen_cases hnil with rfl | ⟨n, hn, rfl⟩ | hruns
  · -- an empty list item
    have hblock : ∀ out, (parse ['-']).foldl TextState.next ⟨out, none, []⟩ =
        ⟨out ++ "- \n".toList, none, []⟩ := fun out => by rw [hparser.item, foldl_item]
    have hitem : "- \n".toList ++ after = ['-', ' '] ++ '\n' :: after := rfl
    rw [hlines _ hblock, hitem, mem_lines_cons (by decide), mem_lines_single hbreak.2]
    refine iff_of_false ?_ fun h => h.2 rfl
    rintro (hword | hbullet | hword)
    · exact hhyphen.1 (hword ▸ List.mem_cons_self)
    · cases hbullet
    · exact hhyphen.2 (hword ▸ List.mem_cons_self)
  · -- a thematic break
    have hblock : ∀ out, (parse (List.replicate n '-')).foldl TextState.next ⟨out, none, []⟩ =
        ⟨out ++ [], none, []⟩ := fun out => by
      rw [hparser.rule n hn, List.append_nil]
      rfl
    have hmem : '-' ∈ List.replicate n '-' :=
      List.mem_replicate.mpr ⟨by omega, rfl⟩
    have hrow : ['-', '-'] <:+: List.replicate n '-' := by
      obtain ⟨m, rfl⟩ := Nat.exists_eq_add_of_le' hn
      exact ⟨[], List.replicate (m + 1) '-', rfl⟩
    rw [hlines _ hblock, List.nil_append, mem_lines_single hbreak.2]
    refine iff_of_false ?_ fun h => h.1 hrow
    rintro (hword | hword)
    · exact hhyphen.1 (hword ▸ hmem)
    · exact hhyphen.2 (hword ▸ hmem)
  · -- a paragraph
    obtain ⟨events, hparse, hspells⟩ :=
      hparser.paragraph code hnil (fun c hc => isWordChar_or_hyphen hcode hc) hruns
    have hblock : ∀ out, (parse code).foldl TextState.next ⟨out, none, []⟩ =
        ⟨out ++ (Runs.replaceRuns '-' dash code ++ "\n\n".toList), none, []⟩ := fun out => by
      rw [hparse, foldl_paragraph hspells]
    have hsmart : '\n' ∉ Runs.replaceRuns '-' dash code := by
      intro hmem
      rcases hparser.mem_smart hmem with hline | hdash
      · rcases isWordChar_or_hyphen hcode hline with hword | hhyphen
        · exact hword.ne (by decide) rfl
        · cases hhyphen
      · revert hdash
        decide
    have hwhole : Runs.replaceRuns '-' dash code ++ "\n\n".toList ++ after =
        Runs.replaceRuns '-' dash code ++ '\n' :: ([] ++ '\n' :: after) := by simp
    have hone : code ≠ ['-'] := by
      intro heq
      exact absurd (hruns 1 heq) (by decide)
    have hkept : '-' ∉ code → code = Runs.replaceRuns '-' dash code := fun hnone =>
      (hparser.shortens.replaceRuns_of_notMem hnone).symm
    rw [hlines _ hblock, hwhole, mem_lines_cons hsmart, mem_lines_cons List.not_mem_nil,
      mem_lines_single hbreak.2, or_iff_right hnil, and_iff_left hone,
      ← hparser.shortens.replaceRuns_eq_self_iff]
    constructor
    · rintro (rfl | hcode | rfl)
      · exact (hkept hhyphen.1).symm
      · exact hcode.symm
      · exact (hkept hhyphen.2).symm
    · exact fun heq => .inr (.inl heq.symm)

end Parser

/-! ## The HTML form -/

def pillTable : List Char :=
  openTag "table".toList [("role".toList, "presentation".toList), ("border".toList, ['0']),
    ("cellpadding".toList, ['0']), ("cellspacing".toList, ['0']),
    ("style".toList, "margin:8px 0 24px 0;".toList)]

/-- The style of the cell. -/
def pillStyle : List Char :=
  "font-family:".toList ++ ("ui-monospace,SFMono-Regular,".toList ++
    ("Menlo,Monaco,Consolas,monospace;".toList ++ ("font-size:22px;".toList ++
    ("font-weight:700;".toList ++ ("letter-spacing:4px;".toList ++ ("color:#18181b;".toList ++
    ("background-color:#f4f4f5;".toList ++ ("padding:12px 16px;".toList ++
    "border-radius:8px;".toList))))))))

def pillCell : List Char :=
  openTag "td".toList [("class".toList, "email-otp-bg".toList), ("style".toList, pillStyle)]

theorem otpOpening_eq :
    otpOpening = pillTable ++ (openTag "tr".toList [] ++ pillCell) := by
  decide +kernel

/-- Where the first equality sign of a tag stands. -/
theorem openTag_cons (name attr value : List Char) (attributes : List (List Char × List Char)) :
    ∃ more, openTag name ((attr, value) :: attributes) =
      '<' :: (name ++ ' ' :: attr) ++ '=' :: more := by
  refine ⟨'"' :: (value ++ ('"' :: (attributes.flatMap attributeText ++ ['>']))), ?_⟩
  simp [openTag_eq, attributeText]

theorem isPlain_nil : IsPlain [] := fun _ hc => absurd hc List.not_mem_nil

/-- The tags of the pill, with the text behind each. -/
def pillTags (code behind : List Char) : List (List Char × List Char) :=
  [(pillTable, []), (openTag "tr".toList [], []), (pillCell, code),
    (closeTag "td".toList, []), (closeTag "tr".toList, []), (closeTag "table".toList, behind)]

/-- The pill is made of its tags, whatever stands between them. -/
theorem flatMap_pillTags (smart : List Char → List Char) (hsmart : smart [] = [])
    (code behind : List Char) :
    (pillTags code behind).flatMap (fun (tag, text) => tag ++ smart text) =
      otpOpening ++ (smart code ++ (otpClosing ++ smart behind)) := by
  have hclosing : otpClosing =
      closeTag "td".toList ++ (closeTag "tr".toList ++ closeTag "table".toList) := rfl
  rw [otpOpening_eq, hclosing]
  simp only [pillTags, List.flatMap_cons, List.flatMap_nil, hsmart, List.append_nil,
    List.append_assoc]

theorem isTag_pillTags {code behind : List Char} (hcode : IsPlain code) (hbehind : IsPlain behind) :
    ∀ tag ∈ pillTags code behind, IsTag tag.1 ∧ IsPlain tag.2 := by
  intro tag htag
  simp only [pillTags, List.mem_cons, List.not_mem_nil, or_false] at htag
  rcases htag with rfl | rfl | rfl | rfl | rfl | rfl
  · exact ⟨.opening (by unfold IsTagName; decide)
      (by unfold IsTagName IsTagValue; decide +kernel), isPlain_nil⟩
  · exact ⟨.opening (by unfold IsTagName; decide) (by simp), isPlain_nil⟩
  · exact ⟨.opening (by unfold IsTagName; decide)
      (by unfold IsTagName IsTagValue; decide +kernel), hcode⟩
  · exact ⟨.closing (by unfold IsTagName; decide), isPlain_nil⟩
  · exact ⟨.closing (by unfold IsTagName; decide), isPlain_nil⟩
  · exact ⟨.closing (by unfold IsTagName; decide), hbehind⟩

section Renderer

variable {writers : Writers MarkdownKind} (hwriters : writers.Plain)
  (brandColor : Option (List Char))

include hwriters

/-- The text of events is written as it is. -/
theorem convert_spells {events : List (Event MarkdownKind)} {text : List Char}
    (h : Spells events text) (htext : ∀ c ∈ text, c ≠ '&' ∧ c ≠ '<' ∧ c ≠ '>')
    (rest : List (Event MarkdownKind)) :
    convert writers brandColor none (events ++ rest) =
      text ++ convert writers brandColor none rest := by
  obtain ⟨parts, rfl, rfl⟩ := h
  induction parts with
  | nil => rfl
  | cons part parts ih =>
      have hpart := hwriters.text part fun c hc => htext c (by simp [hc])
      have hparts := ih fun c hc => htext c (List.mem_append_right part hc)
      have hpush : pushHtml writers [.text part] = part := by
        simpa [pushHtml, HtmlWriter.pieces, HtmlWriter.piece, HtmlWriter.write, HtmlWriter.new]
          using hpart
      rw [List.map_cons, List.cons_append, convert, hpush, hparts, List.flatten_cons,
        List.append_assoc]
      simp

/-- Tags are written as they are, with the text behind them. -/
theorem convert_tags {smart : List Char → List Char} {tags : List (List Char × List Char)}
    {events : List (Event MarkdownKind)} (h : PassesTags smart tags events)
    (htags : ∀ tag ∈ tags, ∀ c ∈ smart tag.2, c ≠ '&' ∧ c ≠ '<' ∧ c ≠ '>')
    (rest : List (Event MarkdownKind)) :
    convert writers brandColor none (events ++ rest) =
      tags.flatMap (fun (tag, text) => tag ++ smart text) ++
        convert writers brandColor none rest := by
  induction h with
  | nil => rfl
  | @cons tag text tags events more htext _ ih =>
      have hrest := ih fun other hother => htags other (List.mem_cons_of_mem _ hother)
      have hpush : pushHtml writers [.other (.inlineHtml tag)] = tag := by
        simpa [pushHtml, HtmlWriter.pieces, HtmlWriter.piece, HtmlWriter.write, HtmlWriter.new]
          using hwriters.inlineHtml tag
      rw [List.cons_append, convert, hpush, List.append_assoc,
        convert_spells hwriters brandColor htext (htags _ List.mem_cons_self), hrest,
        List.flatMap_cons, List.append_assoc, List.append_assoc]
      simp

theorem convert_paragraph (events : List (Event MarkdownKind)) :
    convert writers brandColor none (paragraphOf events) = "<p>".toList ++
      convert writers brandColor none (events ++ [.close (.other .paragraph)]) := by
  have hpush : pushHtml writers [.start (.other .paragraph)] = "<p>".toList := by
    simpa [pushHtml, HtmlWriter.pieces, HtmlWriter.piece, HtmlWriter.write, HtmlWriter.new]
      using hwriters.paragraph
  rw [paragraphOf, convert, hpush]
  simp

theorem convert_paragraphEnd :
    convert writers brandColor none [.close (.other .paragraph)] = "</p>".toList := by
  have hpush : pushHtml writers [.close (.other .paragraph)] = "</p>".toList := by
    simpa [pushHtml, HtmlWriter.pieces, HtmlWriter.piece, HtmlWriter.write, HtmlWriter.new]
      using hwriters.paragraphEnd
  rw [convert, hpush, convert, List.append_nil]
  simp

end Renderer

section Parser

variable {dash : ℕ → List Char} {parse : List Char → List (Event MarkdownKind)}
  (hparser : SmartParser dash parse)

include hparser

/-- Dashes are the only characters that are not in the text. -/
theorem SmartParser.notMem_smart {text : List Char} (htext : IsPlain text) {c : Char}
    (hc : (c.toNat < 128 ∧ c.isAlphanum = false) ∧ c ≠ '-' ∧ c ≠ ' ') :
    c ∉ Runs.replaceRuns '-' dash text := by
  intro hmem
  rcases hparser.mem_smart hmem with hplain | hdash | hdash | hdash
  · exact htext.notMem hc hplain
  · exact hc.2.1 hdash
  · exact absurd hc.1.1 (by rw [hdash]; decide)
  · exact absurd hc.1.1 (by rw [hdash]; decide)

theorem SmartParser.smart_plain {text : List Char} (htext : IsPlain text) :
    ∀ c ∈ Runs.replaceRuns '-' dash text, c ≠ '&' ∧ c ≠ '<' ∧ c ≠ '>' := by
  intro c hc
  refine ⟨?_, ?_, ?_⟩
  · rintro rfl
    exact hparser.notMem_smart htext (by decide) hc
  · rintro rfl
    exact hparser.notMem_smart htext (by decide) hc
  · rintro rfl
    exact hparser.notMem_smart htext (by decide) hc

/-- The HTML form. -/
theorem SmartParser.sourceToHtml_eq {writers : Writers MarkdownKind} (hwriters : writers.Plain)
    (brandColor : Option (List Char)) {before code after : List Char} (hbefore : IsWord before)
    (hcode : isValidCode code = true) (hafter : IsWord after) :
    sourceToHtml parse writers (betweenWords before code after) brandColor =
      some ("<p>".toList ++ (before ++ [' ']) ++ (otpOpening ++
        (Runs.replaceRuns '-' dash code ++ (otpClosing ++ (' ' :: after ++ "</p>".toList))))) := by
  obtain ⟨first, word, rfl⟩ := List.exists_cons_of_ne_nil hbefore.ne_nil
  have hcodePlain : IsPlain code := fun c hc => (isWordChar_or_hyphen hcode hc).imp_right .inl
  have hword : IsPlain (first :: (word ++ [' '])) := by
    intro c hc
    rw [← List.cons_append] at hc
    rcases List.mem_append.mp hc with hmem | hmem
    · exact .inl (hbefore.chars c hmem)
    · exact .inr (.inr (List.mem_singleton.mp hmem))
  have hbehind : IsPlain (' ' :: after) := by
    intro c hc
    rcases List.mem_cons.mp hc with rfl | hmem
    · exact .inr (.inr rfl)
    · exact .inl (hafter.chars c hmem)
  have hsmartWord : Runs.replaceRuns '-' dash (first :: (word ++ [' '])) =
      first :: word ++ [' '] := by
    refine hparser.shortens.replaceRuns_of_notMem ?_
    rw [← List.cons_append, List.mem_append, not_or]
    exact ⟨hbefore.notMem (by decide), by decide⟩
  have hsmartBehind : Runs.replaceRuns '-' dash (' ' :: after) = ' ' :: after := by
    refine hparser.shortens.replaceRuns_of_notMem ?_
    rw [List.mem_cons, not_or]
    exact ⟨by decide, hafter.notMem (by decide)⟩
  have hsource : first :: word ++ ' ' :: (renderOtpHtml code ++ ' ' :: after) =
      first :: (word ++ [' ']) ++
        (pillTags code (' ' :: after)).flatMap (fun (tag, text) => tag ++ text) := by
    have hflat := flatMap_pillTags id rfl code (' ' :: after)
    simp only [id_eq] at hflat
    rw [hflat, renderOtpHtml, escapeHtml_code hcode]
    simp
  obtain ⟨last, hlast⟩ : ∃ last, after.getLast? = some last :=
    ⟨_, List.getLast?_eq_some_getLast hafter.ne_nil⟩
  -- the paragraph ends in a letter of the word behind the pill
  have hend : (first :: (word ++ [' ']) ++ (pillTags code (' ' :: after)).flatMap
      (fun (tag, text) => tag ++ text)).getLast? = some last := by
    have hwhole : first :: word ++ ' ' :: (renderOtpHtml code ++ ' ' :: after) =
        first :: word ++ ' ' :: (renderOtpHtml code ++ [' ']) ++ after := by simp
    rw [← hsource, hwhole, List.getLast?_append_of_ne_nil _ hafter.ne_nil, hlast]
  have hlastWord : last ≠ ' ' :=
    (hafter.chars last (List.mem_of_getLast? hlast)).ne (by decide)
  have htags := isTag_pillTags hcodePlain hbehind
  -- the parser passes the tags on, and dashes are put in the text between them only
  obtain ⟨events, rest, hparse, hspells, hpasses⟩ := hparser.inline first (word ++ [' '])
    (pillTags code (' ' :: after)) last (hbefore.chars first List.mem_cons_self)
    (fun c hc => hword c (List.mem_cons_of_mem first hc)) htags hend hlastWord
  have hflat := flatMap_pillTags (Runs.replaceRuns '-' dash)
    (hparser.shortens.replaceRuns_of_notMem List.not_mem_nil) code (' ' :: after)
  rw [sourceToHtml, transformOtp_betweenWords hbefore hcode hafter, Option.map_some, hsource,
    hparse, markdownToHtml, convert_paragraph hwriters, List.append_assoc,
    convert_spells hwriters brandColor hspells (hparser.smart_plain hword),
    convert_tags hwriters brandColor hpasses fun tag htag => hparser.smart_plain (htags tag htag).2,
    convert_paragraphEnd hwriters, hflat, hsmartWord, hsmartBehind]
  simp

end Parser

/-! ## Between the tags of the pill -/

/-- What stands in front of the first separator. -/
theorem eq_of_append_cons_eq {separator : Char} {text other behind more : List Char}
    (htext : separator ∉ text) (hother : separator ∉ other)
    (heq : text ++ separator :: behind = other ++ separator :: more) :
    text = other ∧ behind = more := by
  have hsplit : Utf8.splitOnce separator (text ++ separator :: behind) = some (text, behind) :=
    Utf8.splitOnce_eq_some.mpr ⟨rfl, htext⟩
  have hsplit' : Utf8.splitOnce separator (text ++ separator :: behind) = some (other, more) :=
    Utf8.splitOnce_eq_some.mpr ⟨heq, hother⟩
  exact Prod.mk.inj (Option.some.inj (hsplit.symm.trans hsplit'))

/-- If no equality sign stands outside of the pill's tags, then they stand in one place only. -/
theorem inPill_iff {front text back : List Char} (hfront : '=' ∉ front) (htext : '=' ∉ text)
    (hback : '=' ∉ back) (hplain : '<' ∉ text) (other : List Char) :
    InPill (front ++ (otpOpening ++ (text ++ (otpClosing ++ back)))) other ↔ other = text := by
  constructor
  · rintro ⟨hother, front', back', heq⟩
    obtain ⟨start, attributes, hopening, hstart⟩ :
        ∃ start attributes, otpOpening = start ++ '=' :: attributes ∧ '=' ∉ start := by
      obtain ⟨more, hmore⟩ := openTag_cons "table".toList "role".toList "presentation".toList _
      refine ⟨'<' :: ("table".toList ++ ' ' :: "role".toList),
        more ++ (openTag "tr".toList [] ++ pillCell), ?_, by decide⟩
      rw [otpOpening_eq, pillTable, hmore, List.append_assoc, List.cons_append, List.cons_append,
        List.cons_append]
    have hfront' : '=' ∉ front' := by
      have hcount := congrArg (List.count '=') heq
      have hclosing : List.count '=' otpClosing = 0 := by decide
      simp only [List.count_append, hclosing, List.count_eq_zero_of_not_mem hfront,
        List.count_eq_zero_of_not_mem htext, List.count_eq_zero_of_not_mem hback] at hcount
      exact List.count_eq_zero.mp (by omega)
    have hwhole : front ++ start ++ '=' :: (attributes ++ (text ++ (otpClosing ++ back))) =
        front' ++ start ++ '=' :: (attributes ++ (other ++ (otpClosing ++ back'))) := by
      rw [hopening] at heq
      simpa using heq
    have hnone : ∀ before : List Char, '=' ∉ before → '=' ∉ before ++ start := by
      intro before hbefore
      rw [List.mem_append, not_or]
      exact ⟨hbefore, hstart⟩
    have hplace := (eq_of_append_cons_eq (hnone front hfront) (hnone front' hfront') hwhole).1
    rw [List.append_cancel_right hplace] at heq
    have hinside := List.append_cancel_left (List.append_cancel_left heq)
    exact (eq_of_append_cons_eq hplain hother hinside).1.symm
  · rintro rfl
    exact ⟨hplain, front, back, rfl⟩

section Parser

variable {dash : ℕ → List Char} {parse : List Char → List (Event MarkdownKind)}
  (hparser : SmartParser dash parse)

include hparser

/-- The pill holds the code exactly when it has no two hyphens in a row. -/
theorem SmartParser.pillHolds_iff {writers : Writers MarkdownKind} (hwriters : writers.Plain)
    (brandColor : Option (List Char)) {before code after : List Char} (hbefore : IsWord before)
    (hcode : isValidCode code = true) (hafter : IsWord after) :
    PillHolds parse writers brandColor (betweenWords before code after) code ↔
      ¬['-', '-'] <:+: code := by
  have hcodePlain : IsPlain code := fun c hc => (isWordChar_or_hyphen hcode hc).imp_right .inl
  have hhtml := hparser.sourceToHtml_eq hwriters brandColor hbefore hcode hafter
  have hfront : '=' ∉ "<p>".toList ++ (before ++ [' ']) := by
    rw [List.mem_append, List.mem_append, not_or, not_or]
    exact ⟨by decide, hbefore.notMem (by decide), by decide⟩
  have hback : '=' ∉ ' ' :: after ++ "</p>".toList := by
    rw [List.mem_append, List.mem_cons, not_or, not_or]
    exact ⟨⟨by decide, hafter.notMem (by decide)⟩, by decide⟩
  have hpill := inPill_iff hfront
    (hparser.notMem_smart hcodePlain (by decide)) hback
    (hparser.notMem_smart hcodePlain (by decide))
  rw [← hparser.shortens.replaceRuns_eq_self_iff, PillHolds, hhtml]
  constructor
  · rintro ⟨html, hsome, hholds⟩
    obtain rfl := Option.some.inj hsome
    exact (hholds _).mp ((hpill _).mpr rfl)
  · intro hsmart
    refine ⟨_, rfl, fun text => ?_⟩
    rw [hpill, hsmart]

end Parser

/-- **Codes reach the reader unchanged**, in both forms of the mail, exactly when they have no two
hyphens in a row and are not a single hyphen. -/
theorem codeReaches_iff {dash : ℕ → List Char} {parse : List Char → List (Event MarkdownKind)}
    (hparser : SmartParser dash parse) {writers : Writers MarkdownKind} (hwriters : writers.Plain)
    (brandColor : Option (List Char)) {before code after : List Char} (hbefore : IsWord before)
    (hcode : isValidCode code = true) (hafter : IsWord after) :
    OnOwnLine parse (betweenWords before code after) code ∧
        PillHolds parse writers brandColor (betweenWords before code after) code ↔
      ¬['-', '-'] <:+: code ∧ code ≠ ['-'] := by
  rw [hparser.onOwnLine_iff hbefore hcode hafter,
    hparser.pillHolds_iff hwriters brandColor hbefore hcode hafter]
  exact and_iff_left_of_imp And.left

theorem codeReaches_digits :
    OnOwnLine SmallParser.parse
        (betweenWords "Code".toList "AB-12".toList "now".toList) "AB-12".toList ∧
      PillHolds SmallParser.parse plainWriters none
        (betweenWords "Code".toList "AB-12".toList "now".toList) "AB-12".toList :=
  (codeReaches_iff SmallParser.parse_smart plainWriters_plain none
    (.of_alphanum (by decide) (by decide)) (by decide)
    (.of_alphanum (by decide) (by decide))).mpr ⟨by decide, by decide⟩

/-- A code with two hyphens in a row is not on its own line. -/
theorem not_codeReaches :
    ¬∀ before code after, IsWord before → isValidCode code = true → IsWord after →
      OnOwnLine SmallParser.parse (betweenWords before code after) code ∧
        PillHolds SmallParser.parse plainWriters none (betweenWords before code after) code := by
  intro h
  have hbefore : IsWord "Code".toList := .of_alphanum (by decide) (by decide)
  have hafter : IsWord "now".toList := .of_alphanum (by decide) (by decide)
  have hcode : isValidCode "A--B".toList = true := by decide
  have hline := (h _ _ _ hbefore hcode hafter).1
  rw [SmallParser.parse_smart.onOwnLine_iff hbefore hcode hafter] at hline
  exact hline.1 ⟨['A'], ['B'], rfl⟩

end Modo.Email
