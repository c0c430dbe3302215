import Modo.Lib.Ascii
import Modo.Lib.Text
import Modo.Lib.Utf8
import Mathlib.Data.List.Chain

/-!
# Sanitizing the user agent

`sanitize_user_agent` cuts a text at a character boundary, drops ASCII control characters,
writes every run of ASCII white space as one space, and trims.

`Normal` says what is left, `sanitizeUserAgent_normal` that this is so of every text, and
`sanitizeUserAgent_eq_self` that a normal text is not changed: the texts that come out are
exactly the normal ones.
-/

namespace Modo.UserAgent

/-- `char::is_ascii_whitespace`. -/
def isAsciiWhitespace (c : Char) : Bool := Ascii.isWhitespace c

/-- `char::is_ascii_control`. -/
def isAsciiControl (c : Char) : Bool := decide (c.toNat < 32 ∨ c.toNat = 127)

/-- The `while` loop: the nearest character boundary at or below a place. -/
def floorBoundary (raw : List Char) : ℕ → ℕ
  | 0 => 0
  | n + 1 => if (Utf8.splitAt (n + 1) raw).isSome then n + 1 else floorBoundary raw n

/-- `&raw[..end]`. -/
def truncate (raw : List Char) (maxLen : ℕ) : List Char :=
  let stop := floorBoundary raw (min (Utf8.byteLength raw) maxLen)
  ((Utf8.splitAt stop raw).map Prod.fst).getD []

/-- The `for` loop, with `prev_ws`. -/
def collapse (prevWs : Bool) : List Char → List Char
  | [] => []
  | c :: rest =>
      if isAsciiWhitespace c then
        if prevWs then collapse prevWs rest else ' ' :: collapse true rest
      -- a control character between two spaces does not keep them apart
      else if isAsciiControl c then collapse prevWs rest
      else c :: collapse false rest

/-- `sanitize_user_agent`. -/
def sanitizeUserAgent (raw : List Char) (maxLen : ℕ) : Option (List Char) :=
  let trimmed := Text.trim (collapse false (truncate raw maxLen))
  if trimmed.isEmpty then none else some trimmed

/-- Neither character is a space, or the other is not. -/
def NotBothSpaces (c d : Char) : Prop := ¬ (c = ' ' ∧ d = ' ')

/-- What a sanitized text looks like. -/
structure Normal (maxLen : ℕ) (text : List Char) : Prop where
  length_le : Utf8.byteLength text ≤ maxLen
  noControl : ∀ c ∈ text, isAsciiControl c = false
  noTwoSpaces : text.IsChain NotBothSpaces
  head : ∀ c ∈ text.head?, Text.isWhitespace c = false
  getLast : ∀ c ∈ text.getLast?, Text.isWhitespace c = false

/-! ## Truncation -/

theorem floorBoundary_spec (raw : List Char) (n : ℕ) :
    floorBoundary raw n ≤ n ∧ (Utf8.splitAt (floorBoundary raw n) raw).isSome = true := by
  induction n with
  | zero => exact ⟨le_rfl, by simp [floorBoundary, Utf8.splitAt]⟩
  | succ n ih =>
      rw [floorBoundary]
      split_ifs with hsome
      · exact ⟨le_rfl, hsome⟩
      · exact ⟨ih.1.trans (Nat.le_succ n), ih.2⟩

theorem truncate_spec (raw : List Char) (maxLen : ℕ) :
    truncate raw maxLen <+: raw ∧ Utf8.byteLength (truncate raw maxLen) ≤ maxLen := by
  obtain ⟨hle, hsome⟩ := floorBoundary_spec raw (min (Utf8.byteLength raw) maxLen)
  obtain ⟨⟨before, after⟩, hsplit⟩ := Option.isSome_iff_exists.mp hsome
  obtain ⟨hraw, hlength⟩ := Utf8.splitAt_eq_some_iff.mp hsplit
  have htruncate : truncate raw maxLen = before := by simp [truncate, hsplit]
  rw [htruncate]
  exact ⟨⟨after, hraw.symm⟩, by omega⟩

/-- A text that is short enough is not cut. -/
theorem truncate_of_le {raw : List Char} {maxLen : ℕ} (hle : Utf8.byteLength raw ≤ maxLen) :
    truncate raw maxLen = raw := by
  have hsplit : Utf8.splitAt (Utf8.byteLength raw) raw = some (raw, []) :=
    Utf8.splitAt_eq_some_iff.mpr ⟨(List.append_nil raw).symm, rfl⟩
  have hfloor : floorBoundary raw (Utf8.byteLength raw) = Utf8.byteLength raw := by
    cases hlength : Utf8.byteLength raw with
    | zero => rfl
    | succ n =>
        rw [hlength] at hsplit
        rw [floorBoundary, hsplit]
        rfl
  rw [truncate, min_eq_left hle, hfloor, hsplit]
  rfl

/-! ## Collapsing -/

theorem collapse_sublist (prevWs : Bool) (text : List Char) :
    ((collapse prevWs text).filter (· ≠ ' ')).Sublist text ∧
      Utf8.byteLength (collapse prevWs text) ≤ Utf8.byteLength text := by
  induction text generalizing prevWs with
  | nil => exact ⟨List.Sublist.slnil, le_rfl⟩
  | cons c rest ih =>
      have hpos := c.utf8Size_pos
      rw [collapse, Utf8.byteLength_cons]
      split_ifs with hspace hprev hcontrol
      · exact ⟨(ih prevWs).1.cons c, (ih prevWs).2.trans (Nat.le_add_left _ _)⟩
      · have hlength := (ih true).2
        rw [List.filter_cons_of_neg (by decide)]
        refine ⟨(ih true).1.cons c, ?_⟩
        have hsize : ' '.utf8Size = 1 := rfl
        rw [Utf8.byteLength_cons]
        omega
      · exact ⟨(ih prevWs).1.cons c, (ih prevWs).2.trans (Nat.le_add_left _ _)⟩
      · have hne : c ≠ ' ' := by
          rintro rfl
          exact hspace rfl
        rw [List.filter_cons_of_pos (by simpa using hne), Utf8.byteLength_cons]
        exact ⟨(ih false).1.cons_cons c, Nat.add_le_add_left (ih false).2 _⟩

theorem noControl_collapse (prevWs : Bool) (text : List Char) :
    ∀ c ∈ collapse prevWs text, isAsciiControl c = false := by
  induction text generalizing prevWs with
  | nil => simp [collapse]
  | cons c rest ih =>
      rw [collapse]
      split_ifs with hspace hprev hcontrol
      · exact ih prevWs
      · exact List.forall_mem_cons.mpr ⟨by decide, ih true⟩
      · exact ih prevWs
      · exact List.forall_mem_cons.mpr ⟨Bool.not_eq_true _ ▸ hcontrol, ih false⟩

/-- After white space the next character that is written is no space. -/
theorem isChain_collapse (prevWs : Bool) (text : List Char) :
    (collapse prevWs text).IsChain NotBothSpaces ∧
      (prevWs = true → ∀ c ∈ (collapse prevWs text).head?, c ≠ ' ') := by
  induction text generalizing prevWs with
  | nil => simp [collapse]
  | cons c rest ih =>
      rw [collapse]
      split_ifs with hspace hprev hcontrol
      · exact ih prevWs
      · refine ⟨List.isChain_cons.mpr ⟨?_, (ih true).1⟩, fun h => absurd h hprev⟩
        intro d hd hboth
        exact (ih true).2 rfl d hd hboth.2
      · exact ih prevWs
      · have hne : c ≠ ' ' := by
          rintro rfl
          exact hspace rfl
        refine ⟨List.isChain_cons.mpr ⟨fun d _ hboth => hne hboth.1, (ih false).1⟩, ?_⟩
        intro _ d hd
        obtain rfl := Option.some.inj hd
        exact hne

/-- The only white space that is no control character is the space. -/
theorem eq_space_of_isAsciiWhitespace {c : Char} (hspace : isAsciiWhitespace c = true)
    (hcontrol : isAsciiControl c = false) : c = ' ' := by
  simp only [isAsciiWhitespace, Ascii.isWhitespace, Bool.or_eq_true, beq_iff_eq] at hspace
  rcases hspace with (((rfl | rfl) | rfl) | rfl) | rfl
  · rfl
  all_goals exact absurd hcontrol (by decide)

/-- A text without controls and double spaces is not changed. -/
theorem collapse_eq_self {prevWs : Bool} {text : List Char}
    (hcontrol : ∀ c ∈ text, isAsciiControl c = false) (hchain : text.IsChain NotBothSpaces)
    (hprev : prevWs = true → ∀ c ∈ text.head?, c ≠ ' ') : collapse prevWs text = text := by
  induction text generalizing prevWs with
  | nil => rfl
  | cons c rest ih =>
      rw [List.forall_mem_cons] at hcontrol
      rw [List.isChain_cons] at hchain
      rw [collapse]
      split_ifs with hspace hws hdrop
      · obtain rfl := eq_space_of_isAsciiWhitespace hspace hcontrol.1
        exact absurd rfl (hprev hws ' ' rfl)
      · obtain rfl := eq_space_of_isAsciiWhitespace hspace hcontrol.1
        rw [ih hcontrol.2 hchain.2 fun _ d hd hd' => hchain.1 d hd ⟨rfl, hd'⟩]
      · rw [hcontrol.1] at hdrop
        cases hdrop
      · rw [ih hcontrol.2 hchain.2 fun h => absurd h (by decide)]

/-! ## The normal form -/

theorem sanitizeUserAgent_eq_some_iff {raw out : List Char} {maxLen : ℕ} :
    sanitizeUserAgent raw maxLen = some out ↔
      Text.trim (collapse false (truncate raw maxLen)) = out ∧ out ≠ [] := by
  rw [sanitizeUserAgent]
  split_ifs with hempty
  · rw [List.isEmpty_iff] at hempty
    simp [hempty, eq_comm]
  · rw [List.isEmpty_iff] at hempty
    rw [Option.some.injEq]
    constructor
    · rintro rfl
      exact ⟨rfl, hempty⟩
    · exact And.left

theorem normal_of_eq_some {raw out : List Char} {maxLen : ℕ}
    (hout : sanitizeUserAgent raw maxLen = some out) : Normal maxLen out := by
  obtain ⟨rfl, -⟩ := sanitizeUserAgent_eq_some_iff.mp hout
  have hpart := Text.trim_infix (collapse false (truncate raw maxLen))
  have hlength := (collapse_sublist false (truncate raw maxLen)).2
  have hcut := (truncate_spec raw maxLen).2
  refine ⟨?_, ?_, ?_, Text.isWhitespace_head_trim, Text.isWhitespace_getLast_trim⟩
  · obtain ⟨before, after, hparts⟩ := hpart
    rw [← hparts, Utf8.byteLength_append, Utf8.byteLength_append] at hlength
    omega
  · exact fun c hc => noControl_collapse false _ c (hpart.subset hc)
  · exact List.IsChain.infix (isChain_collapse false _).1 hpart

/-- **A normal text is not changed.** -/
theorem sanitizeUserAgent_eq_self {text : List Char} {maxLen : ℕ} (hnormal : Normal maxLen text)
    (hne : text ≠ []) : sanitizeUserAgent text maxLen = some text := by
  rw [sanitizeUserAgent_eq_some_iff, truncate_of_le hnormal.length_le,
    collapse_eq_self hnormal.noControl hnormal.noTwoSpaces fun h => absurd h (by decide)]
  exact ⟨Text.trim_eq_self hnormal.head hnormal.getLast, hne⟩

/-- **The sanitized text is a normal form.**  It is normal, its characters other than spaces
are among those of the input, in their order, and sanitizing it again changes nothing. -/
theorem sanitizeUserAgent_normal {raw out : List Char} {maxLen : ℕ}
    (hout : sanitizeUserAgent raw maxLen = some out) :
    Normal maxLen out ∧ (out.filter (· ≠ ' ')).Sublist raw ∧
      sanitizeUserAgent out maxLen = some out := by
  have hnormal := normal_of_eq_some hout
  obtain ⟨heq, hne⟩ := sanitizeUserAgent_eq_some_iff.mp hout
  have hpart := Text.trim_infix (collapse false (truncate raw maxLen))
  rw [heq] at hpart
  refine ⟨hnormal, ?_, sanitizeUserAgent_eq_self hnormal hne⟩
  calc
    (out.filter (· ≠ ' ')).Sublist
        ((collapse false (truncate raw maxLen)).filter (· ≠ ' ')) :=
      hpart.sublist.filter _
    List.Sublist _ (truncate raw maxLen) := (collapse_sublist false _).1
    List.Sublist _ raw := (truncate_spec raw maxLen).1.sublist

/-- A tab, a bell between two spaces, and a cut inside a character. -/
theorem sanitizeUserAgent_normal_cut :
    Normal 13 "curl 8 é".toList ∧ ("curl 8 é".toList.filter (· ≠ ' ')).Sublist
      "\tcurl \x07 8 éé".toList ∧ sanitizeUserAgent "curl 8 é".toList 13 = some "curl 8 é".toList :=
  sanitizeUserAgent_normal (by decide)

end Modo.UserAgent
