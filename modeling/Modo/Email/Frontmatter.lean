import Modo.Lib.Newline

/-!
# The frontmatter of an email template

A template is `---`, YAML, `---` and a body.  `render` puts the values of the variables into
the whole text, line breaks and dashes included, and looks for the delimiters afterwards.

The text of a template is taken apart into its own delimiters and what stands between them
(`exists_template`).  Behind the substitution these delimiters are found again exactly when
the texts with the values fit between them (`splitFrontmatter_text_iff`).
-/

namespace Modo.Email

open Newline (normalize stripNewline takeBreak dropReturn)

/-! ## Substitution -/

/-- `[a-zA-Z_]`. -/
def isNameStart (c : Char) : Bool :=
  decide ('a' ≤ c ∧ c ≤ 'z' ∨ 'A' ≤ c ∧ c ≤ 'Z' ∨ c = '_')

/-- `[a-zA-Z0-9_]`. -/
def isNameChar (c : Char) : Bool := isNameStart c || decide ('0' ≤ c ∧ c ≤ '9')

/-- The name of the variable that stands at the beginning of the text, a match of `VAR_RE`. -/
def matchVar : List Char → Option (List Char)
  | '{' :: '{' :: rest =>
      let name := rest.takeWhile isNameChar
      if name.head?.any isNameStart ∧ ['}', '}'].isPrefixOf (rest.dropWhile isNameChar) then
        some name
      else none
  | _ => none

/-- `substitute`, behind a match of which `skip` characters are left. -/
def substituteFrom (vars : List Char → Option (List Char)) : ℕ → List Char → List Char
  | _, [] => []
  | skip + 1, _ :: rest => substituteFrom vars skip rest
  | 0, c :: rest =>
      match matchVar (c :: rest) with
      -- a match has four braces besides the name
      | some name => (vars name).getD [] ++ substituteFrom vars (name.length + 3) rest
      | none => c :: substituteFrom vars 0 rest

/-- `substitute`: values as they are, nothing for a missing variable. -/
def substitute (vars : List Char → Option (List Char)) (input : List Char) : List Char :=
  substituteFrom vars 0 input

/-! ## Parsing -/

/-- `Frontmatter`. -/
structure Frontmatter where
  subject : List Char
  layout : List Char
  deriving DecidableEq

/-- The text behind three dashes. -/
def stripDashes : List Char → Option (List Char)
  | '-' :: '-' :: '-' :: rest => some rest
  | _ => none

def closing : List Char := ['\n', '-', '-', '-']

/-- The first part of `parse_frontmatter`: the YAML text and the body. -/
def splitFrontmatter (template : List Char) : Except (ℕ × String) (List Char × List Char) :=
  match stripDashes (Text.trimStart (normalize template)) with
  | none => .error (400, "email template missing frontmatter delimiter '---'")
  | some afterFirst =>
      match Text.splitFirst closing (stripNewline afterFirst) with
      | none => .error (400, "email template missing closing frontmatter delimiter '---'")
      | some (yaml, body) => .ok (yaml, stripNewline body)

/-- The second part: the YAML text is read by `fromYaml`, which is `serde_yaml_ng::from_str`. -/
def readFrontmatter (fromYaml : List Char → Except String Frontmatter) (yaml body : List Char) :
    Except (ℕ × String) (Frontmatter × List Char) :=
  match fromYaml yaml with
  | .error e => .error (500, "failed to parse email frontmatter: " ++ e)
  | .ok frontmatter =>
      if frontmatter.subject.isEmpty then
        .error (400, "email template missing required field 'subject'")
      else .ok (frontmatter, body)

/-- `parse_frontmatter`. -/
def parseFrontmatter (fromYaml : List Char → Except String Frontmatter) (template : List Char) :
    Except (ℕ × String) (Frontmatter × List Char) :=
  match splitFrontmatter template with
  | .error response => .error response
  | .ok (yaml, body) => readFrontmatter fromYaml yaml body

/-! ## The delimiters of a template -/

/-- A line break. -/
def IsBreak (text : List Char) : Prop := text = ['\n'] ∨ text = ['\r', '\n']

/-- A text does not begin with a line break. -/
def Plain (text : List Char) : Prop := (takeBreak text).1 = []

/-- The delimiters of a template, with the white space in front and the line breaks around. -/
structure Layout where
  blank : List Char
  openBreak : List Char
  closeBreak : List Char
  bodyBreak : List Char
  blank_whitespace : ∀ c ∈ blank, Text.isWhitespace c = true
  openBreak_cases : openBreak = [] ∨ IsBreak openBreak
  closeBreak_isBreak : IsBreak closeBreak
  bodyBreak_cases : bodyBreak = [] ∨ IsBreak bodyBreak

/-- The text with this YAML and this body between the delimiters. -/
def Layout.text (layout : Layout) (yaml body : List Char) : List Char :=
  layout.blank ++ '-' :: '-' :: '-' :: (layout.openBreak ++ (yaml ++ (layout.closeBreak ++
    '-' :: '-' :: '-' :: (layout.bodyBreak ++ body))))

/-- The delimiters are found around these texts: no line of the YAML but its first begins with
`---`, no `\r` of it comes to stand before the closing `\n`, and no line break comes to stand
behind a delimiter that has none. -/
structure Layout.Fits (layout : Layout) (yaml body : List Char) : Prop where
  noClosing : ¬closing <:+: yaml
  noReturn : layout.closeBreak = ['\r', '\n'] ∨ yaml.getLast? ≠ some '\r'
  plainYaml : layout.openBreak ≠ [] ∨ Plain (yaml ++ layout.closeBreak)
  plainBody : layout.bodyBreak ≠ [] ∨ Plain body

/-- A template: its delimiters, and the texts that they are found around. -/
structure Template extends Layout where
  yaml : List Char
  body : List Char
  fits : toLayout.Fits yaml body

def Template.raw (template : Template) : List Char := template.text template.yaml template.body

/-! ## Substitution between the delimiters -/

/-- A character that no variable has. -/
def Separates (c : Char) : Prop := c ≠ '{' ∧ c ≠ '}' ∧ isNameChar c = false

variable {c : Char} {vars : List Char → Option (List Char)}

theorem takeWhile_append_of_false {p : Char → Bool} (hc : p c = false) (text rest : List Char) :
    (text ++ c :: rest).takeWhile p = text.takeWhile p ∧
      (text ++ c :: rest).dropWhile p = text.dropWhile p ++ c :: rest := by
  induction text with
  | nil => simp [hc]
  | cons d text ih =>
      by_cases hd : p d = true
      · simpa [List.takeWhile_cons_of_pos hd, List.dropWhile_cons_of_pos hd] using ih
      · simp [List.takeWhile_cons_of_neg hd, List.dropWhile_cons_of_neg hd]

theorem matchVar_eq_none {text : List Char} (htext : ∀ inner, text ≠ '{' :: '{' :: inner) :
    matchVar text = none := by
  unfold matchVar
  split
  · exact absurd rfl (htext _)
  · rfl

/-- A variable ends in front of the character. -/
theorem matchVar_append (hc : Separates c) (text rest : List Char) :
    matchVar (text ++ c :: rest) = matchVar text := by
  obtain ⟨hopen, hclose, hname⟩ := hc
  by_cases hbraces : ∃ inner, text = '{' :: '{' :: inner
  · obtain ⟨inner, rfl⟩ := hbraces
    obtain ⟨htake, hdrop⟩ := takeWhile_append_of_false hname inner rest
    have hbegins : ∀ found : List Char, ['}', '}'].isPrefixOf (found ++ c :: rest) =
        ['}', '}'].isPrefixOf found := by
      intro found
      match found with
      | [] => simp [List.isPrefixOf, Ne.symm hclose]
      | [d] => simp [List.isPrefixOf, Ne.symm hclose]
      | d :: e :: found => simp [List.isPrefixOf]
    rw [List.cons_append, List.cons_append, matchVar, matchVar, htake, hdrop, hbegins]
  · rw [not_exists] at hbraces
    rw [matchVar_eq_none hbraces, matchVar_eq_none]
    intro inner heq
    match text with
    | [] => exact hopen (List.cons.inj heq).1
    | [d] => exact hopen (List.cons.inj (List.cons.inj heq).2).1
    | d :: e :: text =>
        rw [List.cons_append, List.cons_append, List.cons.injEq, List.cons.injEq] at heq
        exact hbraces text (by rw [heq.1, heq.2.1])

theorem length_of_matchVar {text name : List Char} (hmatch : matchVar text = some name) :
    name.length + 4 ≤ text.length := by
  unfold matchVar at hmatch
  split at hmatch
  · rename_i rest
    dsimp only at hmatch
    split at hmatch
    · rename_i hend
      obtain rfl := Option.some.inj hmatch
      have hclose := (List.isPrefixOf_iff_prefix.mp hend.2).length_le
      have hsum := congrArg List.length (@List.takeWhile_append_dropWhile _ isNameChar rest)
      rw [List.length_append] at hsum
      simp only [List.length_cons, List.length_nil] at hclose ⊢
      omega
    · cases hmatch
  · cases hmatch

/-- What stands on both sides of the character is substituted on its own. -/
theorem substituteFrom_append (hc : Separates c) {skip : ℕ} {text : List Char}
    (hskip : skip ≤ text.length) (rest : List Char) :
    substituteFrom vars skip (text ++ c :: rest) =
      substituteFrom vars skip text ++ c :: substituteFrom vars 0 rest := by
  fun_induction substituteFrom vars skip text with
  | case1 skip =>
      have hzero : skip = 0 := Nat.le_zero.mp hskip
      have hnone := matchVar_append hc [] rest
      rw [List.nil_append] at hnone
      rw [hzero, List.nil_append, substituteFrom, hnone]
      rfl
  | case2 skip d text ih =>
      rw [List.cons_append, substituteFrom]
      exact ih (Nat.le_of_succ_le_succ hskip)
  | case3 d text name hmatch ih =>
      have hlength := length_of_matchVar hmatch
      rw [List.length_cons] at hlength
      rw [List.cons_append, substituteFrom, ← List.cons_append, matchVar_append hc, hmatch]
      dsimp only
      rw [ih (by omega), List.append_assoc]
  | case4 d text hmatch ih =>
      rw [List.cons_append, substituteFrom, ← List.cons_append, matchVar_append hc, hmatch]
      dsimp only
      rw [ih (Nat.zero_le _), List.cons_append]

theorem substitute_append_cons (hc : Separates c) (text rest : List Char) :
    substitute vars (text ++ c :: rest) = substitute vars text ++ c :: substitute vars rest :=
  substituteFrom_append hc (Nat.zero_le _) rest

theorem substitute_append_of_separates {text : List Char} (htext : ∀ c ∈ text, Separates c)
    (rest : List Char) : substitute vars (text ++ rest) = text ++ substitute vars rest := by
  induction text with
  | nil => rfl
  | cons c text ih =>
      rw [List.forall_mem_cons] at htext
      have hcons := @substitute_append_cons c vars htext.1 [] (text ++ rest)
      rw [List.nil_append] at hcons
      rw [List.cons_append, hcons, ih htext.2]
      rfl

/-! ## Finding the delimiters -/

theorem dashes_spec : ∀ c ∈ ['-', '-', '-'], c ≠ '\r' ∧ c ≠ '\n' := by decide

theorem stripDashes_eq_some {text rest : List Char} :
    stripDashes text = some rest ↔ text = '-' :: '-' :: '-' :: rest := by
  constructor
  · intro hstrip
    unfold stripDashes at hstrip
    split at hstrip
    · rw [Option.some.injEq] at hstrip
      rw [hstrip]
    · cases hstrip
  · rintro rfl
    rfl

theorem stripDashes_normalize (text : List Char) :
    stripDashes (normalize text) = (stripDashes text).map normalize := by
  cases hstrip : stripDashes text with
  | some rest =>
      obtain rfl := stripDashes_eq_some.mp hstrip
      exact stripDashes_eq_some.mpr (Newline.normalize_append_left dashes_spec rest)
  | none =>
      rw [Option.map_none, Option.eq_none_iff_forall_ne_some]
      intro rest hrest
      obtain ⟨start, rfl, -⟩ :=
        Newline.exists_of_normalize_eq dashes_spec (stripDashes_eq_some.mp hrest)
      cases hstrip

/-- **The delimiters are those of the text before its line breaks are normalised.** -/
theorem splitFrontmatter_eq_ok {text yaml body : List Char} :
    splitFrontmatter text = .ok (yaml, body) ↔
      ∃ afterFirst before after, Text.trimStart text = '-' :: '-' :: '-' :: afterFirst ∧
        Text.splitFirst closing (takeBreak afterFirst).2 = some (before, after) ∧
        yaml = normalize (dropReturn before) ∧ body = normalize (takeBreak after).2 := by
  rw [splitFrontmatter, Newline.trimStart_normalize, stripDashes_normalize]
  cases hstrip : stripDashes (Text.trimStart text) with
  | none =>
      constructor
      · intro hsplit
        cases hsplit
      · rintro ⟨afterFirst, -, -, htext, -⟩
        rw [stripDashes_eq_some.mpr htext] at hstrip
        cases hstrip
  | some afterFirst =>
      have htext := stripDashes_eq_some.mp hstrip
      rw [Option.map_some]
      dsimp only
      rw [Newline.stripNewline_normalize, closing, Newline.splitFirst_normalize dashes_spec]
      cases hsplit : Text.splitFirst ['\n', '-', '-', '-'] (takeBreak afterFirst).2 with
      | none =>
          constructor
          · intro hnone
            cases hnone
          · rintro ⟨other, before, after, hother, hfound, -⟩
            rw [htext] at hother
            simp only [List.cons.injEq, true_and] at hother
            rw [← hother, hsplit] at hfound
            cases hfound
      | some parts =>
          obtain ⟨before, after⟩ := parts
          simp only [Option.map_some, Newline.stripNewline_normalize, Except.ok.injEq,
            Prod.mk.injEq]
          constructor
          · rintro ⟨hyaml, hbody⟩
            exact ⟨afterFirst, before, after, htext, hsplit, hyaml.symm, hbody.symm⟩
          · rintro ⟨other, before', after', hother, hfound, hyaml, hbody⟩
            rw [htext] at hother
            simp only [List.cons.injEq, true_and] at hother
            rw [← hother, hsplit, Option.some.injEq, Prod.mk.injEq] at hfound
            obtain ⟨rfl, rfl⟩ := hfound
            exact ⟨hyaml.symm, hbody.symm⟩

variable (layout : Layout) {yaml body : List Char}

theorem trimStart_text (yaml body : List Char) :
    Text.trimStart (layout.text yaml body) = '-' :: '-' :: '-' :: (layout.openBreak ++ (yaml ++
      (layout.closeBreak ++ '-' :: '-' :: '-' :: (layout.bodyBreak ++ body)))) := by
  rw [Layout.text, Text.trimStart, List.dropWhile_append_of_pos layout.blank_whitespace,
    List.dropWhile_cons_of_neg (by decide)]

/-- The closing delimiter is found behind a YAML text without one. -/
theorem splitFirst_closeBreak (hyaml : ¬closing <:+: yaml) (rest : List Char) :
    Text.splitFirst closing (yaml ++ (layout.closeBreak ++ '-' :: '-' :: '-' :: rest)) =
      some (yaml ++ layout.closeBreak.dropLast, rest) := by
  have hnewline : '\n' ∉ ['-', '-', '-'] := by decide
  rcases layout.closeBreak_isBreak with hbreak | hbreak
  · rw [hbreak]
    have hfound := Text.splitFirst_of_not_infix hnewline hyaml rest
    simpa [closing] using hfound
  · have hreturn : ¬closing <:+: yaml ++ ['\r'] := by
      rw [List.infix_concat_iff, not_or]
      refine ⟨?_, hyaml⟩
      rintro ⟨start, hstart⟩
      have hlast := congrArg List.getLast? hstart
      simp [closing] at hlast
    rw [hbreak]
    have hfound := Text.splitFirst_of_not_infix hnewline hreturn rest
    simpa [closing] using hfound

/-- The `\r` of the line break is dropped, and no other. -/
theorem dropReturn_closeBreak
    (hreturn : layout.closeBreak = ['\r', '\n'] ∨ yaml.getLast? ≠ some '\r') :
    dropReturn (yaml ++ layout.closeBreak.dropLast) = yaml := by
  rcases layout.closeBreak_isBreak with hbreak | hbreak
  · rw [hbreak] at hreturn ⊢
    have hlast : yaml.getLast? ≠ some '\r' := hreturn.resolve_left (by decide)
    simp [dropReturn, hlast]
  · rw [hbreak]
    simp [dropReturn]

theorem ne_nil_of_isBreak {text : List Char} (htext : IsBreak text) : text ≠ [] := by
  rcases htext with rfl | rfl
  · exact List.cons_ne_nil _ _
  · exact List.cons_ne_nil _ _

theorem takeBreak_of_isBreak {text : List Char} (htext : IsBreak text) (rest : List Char) :
    takeBreak (text ++ rest) = (text, rest) := by
  rcases htext with rfl | rfl <;> rfl

theorem takeBreak_of_plain {text : List Char} (htext : Plain text) : (takeBreak text).2 = text := by
  have happend := Newline.append_takeBreak text
  rwa [htext, List.nil_append] at happend

/-- How the YAML begins is seen on its first line. -/
theorem plain_closeBreak (yaml rest : List Char) :
    Plain (yaml ++ (layout.closeBreak ++ rest)) ↔ Plain (yaml ++ layout.closeBreak) := by
  have hlast : (yaml ++ layout.closeBreak).getLast? = some '\n' := by
    rcases layout.closeBreak_isBreak with hbreak | hbreak <;> simp [hbreak]
  rw [← List.append_assoc, Plain, Plain, Newline.takeBreak_append hlast]

/-- The text behind the first delimiter and its line break. -/
theorem takeBreak_openBreak
    (hplain : layout.openBreak ≠ [] ∨ Plain (yaml ++ layout.closeBreak)) (rest : List Char) :
    (takeBreak (layout.openBreak ++ (yaml ++ (layout.closeBreak ++ rest)))).2 =
      yaml ++ (layout.closeBreak ++ rest) := by
  rcases layout.openBreak_cases with hnil | hbreak
  · rw [hnil, List.nil_append]
    exact takeBreak_of_plain ((plain_closeBreak layout yaml rest).mpr
      (hplain.resolve_left (not_not_intro hnil)))
  · rw [takeBreak_of_isBreak hbreak]

/-- What is split when the YAML text fits. -/
theorem splitFrontmatter_text (hclosing : ¬closing <:+: yaml)
    (hreturn : layout.closeBreak = ['\r', '\n'] ∨ yaml.getLast? ≠ some '\r')
    (hplain : layout.openBreak ≠ [] ∨ Plain (yaml ++ layout.closeBreak)) (body : List Char) :
    splitFrontmatter (layout.text yaml body) =
      .ok (normalize yaml, normalize (takeBreak (layout.bodyBreak ++ body)).2) := by
  apply splitFrontmatter_eq_ok.mpr
  refine ⟨_, yaml ++ layout.closeBreak.dropLast, layout.bodyBreak ++ body,
    trimStart_text layout yaml body, ?_, ?_, rfl⟩
  · rw [takeBreak_openBreak layout hplain, splitFirst_closeBreak layout hclosing]
  · rw [dropReturn_closeBreak layout hreturn]

theorem normalize_isBreak {text : List Char} (htext : IsBreak text) (rest : List Char) :
    normalize (text ++ rest) = '\n' :: normalize rest := by
  rcases htext with rfl | rfl
  · exact Newline.normalize_cons_of_ne (by decide) rest
  · exact Newline.normalize_crlf rest

/-- A text is plain, or a line break and what stands behind it. -/
theorem plain_or (text : List Char) :
    Plain text ∨
      ∃ first rest, IsBreak first ∧ text = first ++ rest ∧ (takeBreak text).2 = rest := by
  rcases Newline.takeBreak_cases text with hnil | hbreak
  · exact .inl hnil
  · exact .inr ⟨_, _, hbreak, (Newline.append_takeBreak text).symm, rfl⟩

/-- The body is returned unless a line break comes to stand behind the delimiter. -/
theorem normalize_body_iff (body : List Char) :
    normalize (takeBreak (layout.bodyBreak ++ body)).2 = normalize body ↔
      layout.bodyBreak ≠ [] ∨ Plain body := by
  rcases layout.bodyBreak_cases with hnil | hbreak
  · rw [hnil, List.nil_append]
    constructor
    · intro hsame
      rcases plain_or body with hplain | ⟨first, rest, hbreak, rfl, hrest⟩
      · exact .inr hplain
      · rw [hrest, normalize_isBreak hbreak] at hsame
        have hlength := congrArg List.length hsame
        rw [List.length_cons] at hlength
        omega
    · intro hplain
      rw [takeBreak_of_plain (hplain.resolve_left (not_not_intro rfl))]
  · rw [takeBreak_of_isBreak hbreak]
    exact iff_of_true rfl (.inl (ne_nil_of_isBreak hbreak))

/-- A text that is moved by a `\n` comes apart at the next character. -/
theorem eq_dash_of_shift {x rest more : List Char} {e : Char}
    (hshift : '\n' :: (x ++ e :: rest) = x ++ '\n' :: '-' :: more) : e = '-' := by
  induction x with
  | nil => exact (List.cons.inj (List.cons.inj hshift).2).1
  | cons h x ih =>
      rw [List.cons_append, List.cons_append, List.cons.injEq] at hshift
      obtain ⟨rfl, htail⟩ := hshift
      exact ih htail

/-- The YAML text is kept in front of its line break, or it loses a `\r`. -/
theorem dropReturn_cases (yaml : List Char) :
    (layout.closeBreak = ['\r', '\n'] ∨ yaml.getLast? ≠ some '\r') ∧
        dropReturn (yaml ++ layout.closeBreak.dropLast) = yaml ∨
      normalize yaml = normalize (dropReturn (yaml ++ layout.closeBreak.dropLast)) ++ ['\r'] := by
  by_cases hreturn : layout.closeBreak = ['\r', '\n'] ∨ yaml.getLast? ≠ some '\r'
  · exact .inl ⟨hreturn, dropReturn_closeBreak layout hreturn⟩
  · rw [not_or, not_not] at hreturn
    obtain ⟨hbreak, hlast⟩ := hreturn
    have hline := layout.closeBreak_isBreak.resolve_right hbreak
    obtain ⟨start, rfl⟩ := List.getLast?_eq_some_iff.mp hlast
    right
    rw [hline, Newline.normalize_append (by simp)]
    simp [dropReturn, Newline.normalize]

/-- The text behind the first delimiter begins with the YAML, or it loses a line break of it. -/
theorem openBreak_cases (yaml rest : List Char) :
    (layout.openBreak ≠ [] ∨ Plain (yaml ++ layout.closeBreak)) ∨
      '\n' :: normalize (takeBreak (layout.openBreak ++ (yaml ++ (layout.closeBreak ++ rest)))).2 =
        normalize (yaml ++ (layout.closeBreak ++ rest)) := by
  rcases layout.openBreak_cases with hnil | hbreak
  · rw [hnil, List.nil_append]
    rcases plain_or (yaml ++ (layout.closeBreak ++ rest)) with
      hplain | ⟨first, tail, hbreak, htext, htail⟩
    · exact .inl (.inr ((plain_closeBreak layout yaml rest).mp hplain))
    · rw [htail, htext, normalize_isBreak hbreak]
      exact .inr rfl
  · exact .inl (.inl (ne_nil_of_isBreak hbreak))

theorem normalize_closeBreak (yaml rest : List Char) :
    normalize (yaml ++ (layout.closeBreak ++ '-' :: '-' :: '-' :: rest)) =
      normalize (dropReturn (yaml ++ layout.closeBreak.dropLast)) ++
        '\n' :: '-' :: '-' :: '-' :: normalize rest := by
  have hdashes := Newline.normalize_append_left dashes_spec rest
  have hline : ∀ text : List Char, normalize (text ++ '\n' :: (['-', '-', '-'] ++ rest)) =
      normalize (dropReturn text) ++ '\n' :: '-' :: '-' :: '-' :: normalize rest := by
    intro text
    rw [Newline.normalize_append_newline, hdashes]
    rfl
  have happend := hline (yaml ++ layout.closeBreak.dropLast)
  rcases layout.closeBreak_isBreak with hbreak | hbreak
  · rw [hbreak] at happend ⊢
    simpa using happend
  · rw [hbreak] at happend ⊢
    simpa using happend

/-- **The delimiters are found around the texts exactly when these fit.** -/
theorem splitFrontmatter_text_iff (yaml body : List Char) :
    splitFrontmatter (layout.text yaml body) = .ok (normalize yaml, normalize body) ↔
      layout.Fits yaml body := by
  constructor
  · intro hsplit
    obtain ⟨afterFirst, before, after, htext, hfound, hyaml, -⟩ := splitFrontmatter_eq_ok.mp hsplit
    rw [trimStart_text] at htext
    simp only [List.cons.injEq, true_and] at htext
    have hclosing : ¬closing <:+: yaml := by
      intro hinside
      have hnormal := (Newline.infix_normalize dashes_spec yaml).mpr hinside
      rw [hyaml, Newline.infix_normalize dashes_spec] at hnormal
      exact Text.not_infix_of_splitFirst (List.cons_ne_nil _ _) hfound
        (hnormal.trans (Newline.dropReturn_prefix before).isInfix)
    -- what was found, and what stands in the text, behind the first delimiter
    have hread : normalize (takeBreak afterFirst).2 =
        normalize yaml ++ '\n' :: '-' :: '-' :: '-' :: normalize after := by
      rw [Text.append_of_splitFirst hfound, hyaml]
      exact (Newline.normalize_append_newline before _).trans
        (congrArg _ (congrArg _ (Newline.normalize_append_left dashes_spec after)))
    have hown := normalize_closeBreak layout yaml (layout.bodyBreak ++ body)
    rw [← htext] at hread
    have hplain : layout.openBreak ≠ [] ∨ Plain (yaml ++ layout.closeBreak) := by
      rcases openBreak_cases layout yaml ('-' :: '-' :: '-' :: (layout.bodyBreak ++ body)) with
        hplain | hlost
      · exact hplain
      · rw [hread, hown] at hlost
        rcases dropReturn_cases layout yaml with ⟨-, hkept⟩ | hcut
        · rw [hkept] at hlost
          exact absurd (eq_dash_of_shift hlost) (by decide)
        · rw [hcut, List.append_assoc, List.singleton_append] at hlost
          exact absurd (eq_dash_of_shift hlost) (by decide)
    have hreturn : layout.closeBreak = ['\r', '\n'] ∨ yaml.getLast? ≠ some '\r' := by
      rcases dropReturn_cases layout yaml with ⟨hreturn, -⟩ | hcut
      · exact hreturn
      · rw [takeBreak_openBreak layout hplain, hown, hcut, List.append_assoc,
          List.append_cancel_left_eq] at hread
        exact absurd (List.cons.inj hread).1 (by decide)
    refine ⟨hclosing, hreturn, hplain, (normalize_body_iff layout body).mp ?_⟩
    rw [splitFrontmatter_text layout hclosing hreturn hplain, Except.ok.injEq,
      Prod.mk.injEq] at hsplit
    exact hsplit.2
  · rintro ⟨hclosing, hreturn, hplain, hbody⟩
    rw [splitFrontmatter_text layout hclosing hreturn hplain,
      (normalize_body_iff layout body).mpr hbody]

/-! ## Substituting and splitting -/

theorem separates_of_isWhitespace {c : Char} (hc : Text.isWhitespace c = true) : Separates c := by
  have hrange := of_decide_eq_true hc
  refine ⟨?_, ?_, ?_⟩
  · rintro rfl
    exact absurd hc (by decide)
  · rintro rfl
    exact absurd hc (by decide)
  · rw [Bool.eq_false_iff]
    intro hname
    simp only [isNameChar, isNameStart, Bool.or_eq_true, decide_eq_true_eq] at hname
    have hletter : ∀ first last : Char, first ≤ c ∧ c ≤ last →
        first.toNat ≤ c.toNat ∧ c.toNat ≤ last.toNat := fun first last h => h
    rcases hname with (h | h | rfl) | h
    · have hbounds : 97 ≤ c.toNat ∧ c.toNat ≤ 122 := hletter 'a' 'z' h
      omega
    · have hbounds : 65 ≤ c.toNat ∧ c.toNat ≤ 90 := hletter 'A' 'Z' h
      omega
    · exact absurd hc (by decide)
    · have hbounds : 48 ≤ c.toNat ∧ c.toNat ≤ 57 := hletter '0' '9' h
      omega

theorem separates_of_isBreak {text : List Char} (htext : text = [] ∨ IsBreak text) :
    ∀ c ∈ text, Separates c := by
  rcases htext with rfl | rfl | rfl
  · simp
  · simp [Separates, isNameChar, isNameStart]
  · simp [Separates, isNameChar, isNameStart]

/-- No variable reaches over a delimiter. -/
theorem substitute_text (vars : List Char → Option (List Char)) (yaml body : List Char) :
    substitute vars (layout.text yaml body) =
      layout.text (substitute vars yaml) (substitute vars body) := by
  have hdashes : ∀ c ∈ ['-', '-', '-'], Separates c := by
    simp [Separates, isNameChar, isNameStart]
  have hclose : ∃ first more, layout.closeBreak = first :: more ∧ Separates first ∧
      ∀ c ∈ more, Separates c := by
    rcases layout.closeBreak_isBreak with hbreak | hbreak
    · exact ⟨'\n', [], hbreak, by simp [Separates, isNameChar, isNameStart], by simp⟩
    · exact ⟨'\r', ['\n'], hbreak, by simp [Separates, isNameChar, isNameStart],
        by simp [Separates, isNameChar, isNameStart]⟩
  obtain ⟨first, more, hbreak, hfirst, hmore⟩ := hclose
  have hform : ∀ yaml body : List Char, layout.text yaml body =
      layout.blank ++ (['-', '-', '-'] ++ (layout.openBreak ++ (yaml ++ first :: (more ++
        (['-', '-', '-'] ++ (layout.bodyBreak ++ body)))))) := by
    intro yaml body
    rw [Layout.text, hbreak]
    rfl
  rw [hform, hform, substitute_append_of_separates fun c hc =>
      separates_of_isWhitespace (layout.blank_whitespace c hc),
    substitute_append_of_separates hdashes,
    substitute_append_of_separates (separates_of_isBreak layout.openBreak_cases),
    substitute_append_cons hfirst, substitute_append_of_separates hmore,
    substitute_append_of_separates hdashes,
    substitute_append_of_separates (separates_of_isBreak layout.bodyBreak_cases)]

/-- The line break at which a text ends, `\r` included. -/
theorem exists_closeBreak (before : List Char) :
    ∃ closeBreak, IsBreak closeBreak ∧ dropReturn before ++ closeBreak = before ++ ['\n'] ∧
      (closeBreak = ['\r', '\n'] ∨ (dropReturn before).getLast? ≠ some '\r') := by
  by_cases hlast : before.getLast? = some '\r'
  · obtain ⟨start, rfl⟩ := List.getLast?_eq_some_iff.mp hlast
    exact ⟨['\r', '\n'], .inr rfl, by simp [dropReturn], .inl rfl⟩
  · have hsame : dropReturn before = before := if_neg hlast
    exact ⟨['\n'], .inl rfl, by rw [hsame], .inr (by rwa [hsame])⟩

/-- **Every text that is split is a template, with these texts between its delimiters.** -/
theorem exists_template {raw yaml body : List Char}
    (hraw : splitFrontmatter raw = .ok (yaml, body)) :
    ∃ template : Template, template.raw = raw ∧ normalize template.yaml = yaml ∧
      normalize template.body = body := by
  obtain ⟨afterFirst, before, after, htext, hfound, hyaml, hbody⟩ := splitFrontmatter_eq_ok.mp hraw
  obtain ⟨closeBreak, hclose, hline, hreturn⟩ := exists_closeBreak before
  -- the layout keeps what reading the text passes over
  let layout : Layout :=
    { blank := raw.takeWhile Text.isWhitespace
      openBreak := (takeBreak afterFirst).1
      closeBreak := closeBreak
      bodyBreak := (takeBreak after).1
      blank_whitespace := fun c hc => List.mem_takeWhile_imp hc
      openBreak_cases := Newline.takeBreak_cases afterFirst
      closeBreak_isBreak := hclose
      bodyBreak_cases := Newline.takeBreak_cases after }
  have hrest : (takeBreak afterFirst).2 =
      dropReturn before ++ (closeBreak ++ '-' :: '-' :: '-' :: after) := by
    rw [Text.append_of_splitFirst hfound, ← List.append_assoc (dropReturn before), hline,
      List.append_assoc]
    rfl
  have hfits : layout.Fits (dropReturn before) (takeBreak after).2 := by
    refine ⟨?_, hreturn, ?_, ?_⟩
    · intro hinside
      exact Text.not_infix_of_splitFirst (List.cons_ne_nil _ _) hfound
        (hinside.trans (Newline.dropReturn_prefix before).isInfix)
    · by_cases hnil : (takeBreak afterFirst).1 = []
      · right
        rw [← plain_closeBreak layout, ← hrest, takeBreak_of_plain hnil]
        exact hnil
      · exact .inl hnil
    · by_cases hnil : (takeBreak after).1 = []
      · right
        rw [takeBreak_of_plain hnil]
        exact hnil
      · exact .inl hnil
  refine ⟨⟨layout, dropReturn before, (takeBreak after).2, hfits⟩, ?_, hyaml.symm, hbody.symm⟩
  have hraw := @List.takeWhile_append_dropWhile _ Text.isWhitespace raw
  calc
    layout.text (dropReturn before) (takeBreak after).2
    _ = raw.takeWhile Text.isWhitespace ++ '-' :: '-' :: '-' :: ((takeBreak afterFirst).1 ++
          (takeBreak afterFirst).2) := by
        rw [hrest]
        conv_rhs => rw [← Newline.append_takeBreak after]
        rfl
    _ = raw.takeWhile Text.isWhitespace ++ Text.trimStart raw := by
        rw [Newline.append_takeBreak, htext]
    _ = raw := hraw

/-- **Behind the substitution a template is split at its own delimiters exactly when the texts
with the values fit.** -/
theorem split_substitute_iff {raw yaml body : List Char}
    (hraw : splitFrontmatter raw = .ok (yaml, body)) :
    ∃ template : Template, template.raw = raw ∧ normalize template.yaml = yaml ∧
      normalize template.body = body ∧ ∀ vars : List Char → Option (List Char),
        (splitFrontmatter (substitute vars raw) =
            .ok (normalize (substitute vars template.yaml),
              normalize (substitute vars template.body)) ↔
          template.Fits (substitute vars template.yaml) (substitute vars template.body)) := by
  obtain ⟨template, rfl, hyaml, hbody⟩ := exists_template hraw
  refine ⟨template, rfl, hyaml, hbody, fun vars => ?_⟩
  rw [Template.raw, substitute_text]
  exact splitFrontmatter_text_iff template.toLayout _ _

/-- A template with a variable in its YAML text. -/
def greeting : List Char := "---\nsubject: {{a}}\n---\nx".toList

theorem split_substitute_greeting :
    ∃ template : Template, template.raw = greeting ∧
      normalize template.yaml = "subject: {{a}}".toList ∧ normalize template.body = ['x'] ∧
      ∀ vars : List Char → Option (List Char),
        (splitFrontmatter (substitute vars greeting) =
            .ok (normalize (substitute vars template.yaml),
              normalize (substitute vars template.body)) ↔
          template.Fits (substitute vars template.yaml) (substitute vars template.body)) :=
  split_substitute_iff (by decide)

/-- A value that ends the frontmatter. -/
def endingVars (name : List Char) : Option (List Char) :=
  if name = ['a'] then some "b\n---\nc".toList else none

/-- The text behind the dashes of the value becomes the body. -/
theorem split_substitute_ending :
    splitFrontmatter greeting = .ok ("subject: {{a}}".toList, ['x']) ∧
      splitFrontmatter (substitute endingVars greeting) =
        .ok ("subject: b".toList, "c\n---\nx".toList) ∧
      splitFrontmatter (substitute endingVars greeting) ≠
        .ok (normalize (substitute endingVars "subject: {{a}}".toList),
          normalize (substitute endingVars ['x'])) := by
  decide

end Modo.Email
