import Modo.Lib.Text

/-!
# Line breaks

`normalize` turns the line breaks `\r\n` into `\n`.  What a reader of lines does behind it can
be done before it: leading white space (`trimStart_normalize`), one line break at the beginning
(`stripNewline_normalize`) and the search for a pattern that begins with `\n`
(`splitFirst_normalize`).  The one thing to mind is a `\r` in front of a `\n`, which belongs to
the line break (`dropReturn`).
-/

namespace Newline

/-- `replace("\r\n", "\n")`. -/
@[grind =]
def normalize : List Char → List Char
  | [] => []
  | '\r' :: '\n' :: rest => '\n' :: normalize rest
  | c :: rest => c :: normalize rest

/-- `strip_prefix('\n').unwrap_or`. -/
@[grind =]
def stripNewline : List Char → List Char
  | '\n' :: rest => rest
  | text => text

/-- A line break at the beginning, and the rest. -/
@[grind =]
def takeBreak : List Char → List Char × List Char
  | '\r' :: '\n' :: rest => (['\r', '\n'], rest)
  | '\n' :: rest => (['\n'], rest)
  | text => ([], text)

/-- The text of a line in front of its `\n`. -/
def dropReturn (text : List Char) : List Char :=
  if text.getLast? = some '\r' then text.dropLast else text

/-! ## Characters -/

theorem normalize_crlf (rest : List Char) :
    normalize ('\r' :: '\n' :: rest) = '\n' :: normalize rest := by
  rw [normalize]

theorem normalize_cons {c : Char} {rest : List Char}
    (hbreak : c = '\r' → rest.head? ≠ some '\n') :
    normalize (c :: rest) = c :: normalize rest := by
  rw [normalize]
  rintro tail rfl rfl
  exact hbreak rfl rfl

theorem normalize_cons_of_ne {c : Char} (hc : c ≠ '\r') (rest : List Char) :
    normalize (c :: rest) = c :: normalize rest :=
  normalize_cons fun heq => absurd heq hc

/-- A text can be cut in front of any character but `\n`. -/
theorem normalize_append {text rest : List Char} (hrest : rest.head? ≠ some '\n') :
    normalize (text ++ rest) = normalize text ++ normalize rest := by
  fun_induction normalize text with
  | case1 => rfl
  | case2 tail ih => rw [List.cons_append, List.cons_append, normalize_crlf, ih, List.cons_append]
  | case3 c tail hbreak ih =>
      rw [List.cons_append, normalize_cons, ih, List.cons_append]
      rintro rfl
      cases tail with
      | nil => exact hrest
      | cons d tail =>
          intro hd
          rw [List.cons_append, List.head?_cons, Option.some.injEq] at hd
          exact hbreak tail rfl (by rw [hd])

/-- Behind other characters than `\r` it can be cut in front of `\n` as well. -/
theorem normalize_append_of_last {text rest : List Char} (htext : text.getLast? ≠ some '\r') :
    normalize (text ++ rest) = normalize text ++ normalize rest := by
  fun_induction normalize text with
  | case1 => rfl
  | case2 tail ih =>
      rw [List.cons_append, List.cons_append, normalize_crlf, ih, List.cons_append]
      intro hlast
      apply htext
      rw [List.getLast?_cons_cons, List.getLast?_cons, hlast]
      rfl
  | case3 c tail hbreak ih =>
      cases tail with
      | nil =>
          have hc : c ≠ '\r' := by
            rintro rfl
            exact htext rfl
          rw [List.singleton_append, normalize_cons_of_ne hc]
          rfl
      | cons d tail =>
          rw [List.cons_append, normalize_cons, ih, List.cons_append]
          · rwa [List.getLast?_cons_cons] at htext
          · rintro rfl hd
            rw [List.cons_append, List.head?_cons, Option.some.injEq] at hd
            exact hbreak tail rfl (by rw [hd])

/-- In front of `\n` a `\r` is lost. -/
theorem normalize_append_newline (text rest : List Char) :
    normalize (text ++ '\n' :: rest) = normalize (dropReturn text) ++ '\n' :: normalize rest := by
  rw [dropReturn]
  split
  · rename_i hlast
    obtain ⟨start, rfl⟩ := List.getLast?_eq_some_iff.mp hlast
    rw [List.dropLast_concat, List.append_assoc, List.singleton_append,
      normalize_append (by simp), normalize_crlf]
  · rename_i hlast
    rw [normalize_append_of_last hlast, normalize_cons_of_ne (by decide)]

/-! ## Reading -/

theorem trimStart_normalize (text : List Char) :
    Text.trimStart (normalize text) = normalize (Text.trimStart text) := by
  fun_induction normalize text with
  | case1 => rfl
  | case2 rest ih =>
      rw [Text.trimStart_cons_of_whitespace (by decide), ih,
        Text.trimStart_cons_of_whitespace (by decide),
        Text.trimStart_cons_of_whitespace (by decide)]
  | case3 c rest hbreak ih =>
      by_cases hc : Text.isWhitespace c = true
      · rw [Text.trimStart_cons_of_whitespace hc, ih, Text.trimStart_cons_of_whitespace hc]
      · rw [Text.trimStart, Text.trimStart, List.dropWhile_cons_of_neg hc,
          List.dropWhile_cons_of_neg hc, normalize]
        exact hbreak

theorem stripNewline_normalize (text : List Char) :
    stripNewline (normalize text) = normalize (takeBreak text).2 := by
  fun_cases normalize text with
  | case1 => rfl
  | case2 rest => rfl
  | case3 c rest hbreak =>
      by_cases hc : c = '\n'
      · subst hc
        rfl
      · have hplain : takeBreak (c :: rest) = ([], c :: rest) := by
          unfold takeBreak
          split
          · rename_i heq
            cases heq
            exact absurd rfl (hbreak _ rfl)
          · rename_i heq
            cases heq
            exact absurd rfl hc
          · rfl
        rw [hplain, normalize]
        · unfold stripNewline
          split
          · rename_i heq
            cases heq
            exact absurd rfl hc
          · rfl
        · exact hbreak

/-! ## Searching -/

variable {tail : List Char}

theorem normalize_append_left (htail : ∀ c ∈ tail, c ≠ '\r' ∧ c ≠ '\n') (rest : List Char) :
    normalize (tail ++ rest) = tail ++ normalize rest := by
  induction tail with
  | nil => rfl
  | cons c tail ih =>
      rw [List.forall_mem_cons] at htail
      rw [List.cons_append, normalize_cons_of_ne htail.1.1, ih htail.2, List.cons_append]

theorem exists_of_normalize_eq (htail : ∀ c ∈ tail, c ≠ '\r' ∧ c ≠ '\n') {text rest : List Char}
    (htext : normalize text = tail ++ rest) :
    ∃ start, text = tail ++ start ∧ rest = normalize start := by
  induction tail generalizing text with
  | nil => exact ⟨text, rfl, htext.symm⟩
  | cons c tail ih =>
      rw [List.forall_mem_cons] at htail
      rw [List.cons_append] at htext
      unfold normalize at htext
      split at htext
      · cases htext
      · rw [List.cons.injEq] at htext
        exact absurd htext.1.symm htail.1.2
      · rw [List.cons.injEq] at htext
        obtain ⟨rfl, htext⟩ := htext
        obtain ⟨start, rfl, hrest⟩ := ih htail.2 htext
        exact ⟨start, rfl, hrest⟩

theorem prefix_normalize (htail : ∀ c ∈ tail, c ≠ '\r' ∧ c ≠ '\n') (text : List Char) :
    tail <+: normalize text ↔ tail <+: text := by
  constructor
  · rintro ⟨rest, hrest⟩
    obtain ⟨start, rfl, -⟩ := exists_of_normalize_eq htail hrest.symm
    exact List.prefix_append tail start
  · rintro ⟨rest, rfl⟩
    rw [normalize_append_left htail]
    exact List.prefix_append tail (normalize rest)

theorem dropReturn_cons {c : Char} {text : List Char} (hc : text = [] → c ≠ '\r') :
    dropReturn (c :: text) = c :: dropReturn text := by
  cases text with
  | nil => simp [dropReturn, hc rfl]
  | cons d text =>
      rw [dropReturn, dropReturn, List.getLast?_cons_cons]
      split
      · rfl
      · rfl

theorem dropReturn_prefix (text : List Char) : dropReturn text <+: text := by
  rw [dropReturn]
  split
  · exact List.dropLast_prefix text
  · exact List.prefix_refl text

/-- The pattern is found where it is found before, with the `\r` in front of it dropped. -/
theorem splitFirst_normalize (htail : ∀ c ∈ tail, c ≠ '\r' ∧ c ≠ '\n') (text : List Char) :
    Text.splitFirst ('\n' :: tail) (normalize text) =
      (Text.splitFirst ('\n' :: tail) text).map fun (before, after) =>
        (normalize (dropReturn before), normalize after) := by
  have hfound : ∀ rest : List Char,
      Text.splitFirst ('\n' :: tail) ('\n' :: (tail ++ rest)) = some ([], rest) := fun rest =>
    Text.splitFirst_of_isPrefix (List.cons_ne_nil '\n' tail) rest
  fun_induction normalize text with
  | case1 => rfl
  -- a line break is one character behind the normalisation and two before it
  | case2 rest ih =>
      have hreturn : ¬ '\n' :: tail <+: '\r' :: '\n' :: rest := fun h =>
        absurd (List.cons_prefix_cons.mp h).1 (by decide)
      rw [Text.splitFirst_cons_of_not_prefix hreturn]
      by_cases hbegins : tail <+: rest
      · obtain ⟨rest, rfl⟩ := hbegins
        rw [normalize_append_left htail, hfound, hfound]
        rfl
      · have hother : ¬ '\n' :: tail <+: '\n' :: rest := fun h =>
          hbegins (List.cons_prefix_cons.mp h).2
        have hnormal : ¬ '\n' :: tail <+: '\n' :: normalize rest := fun h =>
          hbegins ((prefix_normalize htail rest).mp (List.cons_prefix_cons.mp h).2)
        rw [Text.splitFirst_cons_of_not_prefix hother, Text.splitFirst_cons_of_not_prefix hnormal,
          ih, Option.map_map, Option.map_map, Option.map_map]
        congr 1
        funext ⟨before, after⟩
        simp only [Function.comp_apply]
        rw [dropReturn_cons (by simp), dropReturn_cons (by simp), normalize_crlf]
  | case3 c rest hbreak ih =>
      by_cases hbegins : '\n' :: tail <+: c :: rest
      · obtain ⟨rfl, rest, rfl⟩ := List.cons_prefix_cons.mp hbegins
        rw [normalize_append_left htail, hfound, hfound]
        rfl
      · have hnormal : ¬ '\n' :: tail <+: c :: normalize rest := by
          intro h
          obtain ⟨rfl, more, hmore⟩ := List.cons_prefix_cons.mp h
          obtain ⟨start, rfl, -⟩ := exists_of_normalize_eq htail hmore.symm
          exact hbegins (List.prefix_append ('\n' :: tail) start)
        rw [Text.splitFirst_cons_of_not_prefix hbegins, Text.splitFirst_cons_of_not_prefix hnormal,
          ih, Option.map_map, Option.map_map]
        cases hsplit : Text.splitFirst ('\n' :: tail) rest with
        | none => rfl
        | some parts =>
            obtain ⟨before, after⟩ := parts
            have hrest := Text.append_of_splitFirst hsplit
            have hhead : c = '\r' → rest.head? ≠ some '\n' := by
              rintro rfl hhead
              obtain ⟨more, hmore⟩ := List.head?_eq_some_iff.mp hhead
              exact hbreak more rfl hmore
            simp only [Option.map_some, Function.comp_apply]
            rw [dropReturn_cons, normalize_cons]
            · intro hc hfirst
              apply hhead hc
              obtain ⟨more, hmore⟩ := List.head?_eq_some_iff.mp hfirst
              obtain ⟨last, hlast⟩ := dropReturn_prefix before
              rw [hrest, ← hlast, hmore]
              rfl
            · rintro hnil hc
              exact hhead hc (by rw [hrest, hnil]; rfl)

/-- The pattern occurs in a text exactly when it does behind the normalisation. -/
theorem infix_normalize (htail : ∀ c ∈ tail, c ≠ '\r' ∧ c ≠ '\n') (text : List Char) :
    '\n' :: tail <:+: normalize text ↔ '\n' :: tail <:+: text := by
  have hne : '\n' :: tail ≠ [] := List.cons_ne_nil _ _
  rw [← not_iff_not, ← Text.splitFirst_eq_none hne, ← Text.splitFirst_eq_none hne,
    splitFirst_normalize htail, Option.map_eq_none_iff]

/-! ## Line breaks at the beginning -/

theorem append_takeBreak (text : List Char) : (takeBreak text).1 ++ (takeBreak text).2 = text := by
  unfold takeBreak
  split <;> rfl

theorem takeBreak_cases (text : List Char) :
    (takeBreak text).1 = [] ∨ (takeBreak text).1 = ['\n'] ∨ (takeBreak text).1 = ['\r', '\n'] := by
  unfold takeBreak
  split
  · exact .inr (.inr rfl)
  · exact .inr (.inl rfl)
  · exact .inl rfl

/-- The line break at the beginning of a text that has a second character. -/
theorem takeBreak_cons_cons (c d : Char) (rest : List Char) :
    (takeBreak (c :: d :: rest)).1 =
      if c = '\n' then ['\n'] else if c = '\r' ∧ d = '\n' then ['\r', '\n'] else [] := by
  unfold takeBreak
  split
  · rename_i heq
    cases heq
    rfl
  · rename_i heq
    cases heq
    rfl
  · rename_i hcrlf hnewline
    rw [if_neg, if_neg]
    · rintro ⟨rfl, rfl⟩
      exact hcrlf _ rfl
    · rintro rfl
      exact hnewline _ rfl

/-- Text behind a line does not change how the line begins. -/
theorem takeBreak_append {text : List Char} (htext : text.getLast? = some '\n')
    (more : List Char) : (takeBreak (text ++ more)).1 = (takeBreak text).1 := by
  match text with
  | [] => cases htext
  | [c] =>
      obtain rfl : c = '\n' := by simpa using htext
      rfl
  | c :: d :: text =>
      rw [List.cons_append, List.cons_append, takeBreak_cons_cons, takeBreak_cons_cons]

end Newline
