import Modo.Email.OtpArrival

/-!
# Which markers are replaced

The scanner replaces a marker exactly when its own reading gets there (`replaced_iff_reads`).  That
asks for more than CommonMark's reading: a run of backticks that nothing closes, or that is escaped,
hides the markers behind it.
-/

namespace Modo.Email

open Utf8 (byte)

/-! ## What is arrived at is read -/

theorem WithoutRun.nil (n : ℕ) : WithoutRun (n + 1) [] := by
  refine ⟨by simp, ?_⟩
  intro front back heq
  have hlength := congrArg List.length heq
  simp only [backticks, List.length_nil, List.length_append, List.length_replicate] at hlength
  omega

theorem WithoutRun.cons {n : ℕ} (hn : 0 < n) {c : Char} (hc : c ≠ '\x60') {content : List Char}
    (h : WithoutRun n content) : WithoutRun n (c :: content) := by
  refine ⟨?_, ?_⟩
  · cases content with
    | nil => simpa using hc
    | cons other content =>
        rw [List.getLast?_cons_cons]
        exact h.last
  · intro front back heq
    cases front with
    | nil =>
        obtain ⟨n, rfl⟩ := Nat.exists_eq_succ_of_ne_zero hn.ne'
        exact absurd (List.cons.inj heq).1 hc
    | cons other front =>
        obtain ⟨rfl, hcontent⟩ := List.cons.inj heq
        rcases h.inner front back hcontent with hfront | hback
        · refine .inl ?_
          cases front with
          | nil => cases hfront
          | cons other front => rwa [List.getLast?_cons_cons]
        · exact .inr hback

theorem eq_tick_of_mem {n : ℕ} {c : Char} (hc : c ∈ backticks n) : c = '\x60' :=
  List.eq_of_mem_replicate hc

theorem head?_of_ticks {front back : List Char} (hne : front ≠ []) {n : ℕ}
    (hmem : ∀ c ∈ front, c ∈ backticks n) : (front ++ back).head? = some '\x60' := by
  obtain ⟨c, front, rfl⟩ := List.exists_cons_of_ne_nil hne
  rw [List.cons_append, List.head?_cons, eq_tick_of_mem (hmem c List.mem_cons_self)]

theorem getLast?_of_ticks {front : List Char} (hne : front ≠ []) {n : ℕ}
    (hmem : ∀ c ∈ front, c ∈ backticks n) : front.getLast? = some '\x60' := by
  rw [List.getLast?_eq_some_getLast hne, eq_tick_of_mem (hmem _ (List.getLast_mem hne))]

/-- Two runs that begin texts which go on otherwise. -/
theorem head?_of_backticks_append_eq {n m : ℕ} (hne : m ≠ n) {content back : List Char}
    (hhead : content.head? ≠ some '\x60') (heq : backticks m ++ content = backticks n ++ back) :
    back.head? = some '\x60' := by
  rcases List.append_eq_append_iff.mp heq with ⟨more, hrun, hcontent⟩ | ⟨more, hrun, hback⟩
  · have hmore : more ≠ [] := by
      rintro rfl
      have hlength := congrArg List.length hrun
      simp only [backticks, List.append_nil, List.length_replicate] at hlength
      exact hne hlength.symm
    refine absurd ?_ hhead
    rw [hcontent]
    exact head?_of_ticks hmore fun c hc => hrun ▸ List.mem_append_right _ hc
  · have hmore : more ≠ [] := by
      rintro rfl
      have hlength := congrArg List.length hrun
      simp only [backticks, List.append_nil, List.length_replicate] at hlength
      exact hne hlength
    rw [hback]
    exact head?_of_ticks hmore fun c hc => hrun ▸ List.mem_append_right _ hc

theorem WithoutRun.append {n m : ℕ} (hne : m ≠ n) {content : List Char}
    (hhead : content.head? ≠ some '\x60') (hnil : content ≠ []) (h : WithoutRun n content) :
    WithoutRun n (backticks m ++ content) := by
  refine ⟨?_, ?_⟩
  · rw [List.getLast?_append_of_ne_nil _ hnil]
    exact h.last
  · intro front back heq
    rcases List.append_eq_append_iff.mp heq with ⟨more, hfront, hcontent⟩ | ⟨more, hrun, hback⟩
    · rcases h.inner more back hcontent with hlast | hback
      · have hmore : more ≠ [] := by
          rintro rfl
          cases hlast
        rw [hfront, List.getLast?_append_of_ne_nil _ hmore]
        exact .inl hlast
      · exact .inr hback
    · by_cases hfront : front = []
      · rw [hfront, List.nil_append] at heq
        exact .inr (head?_of_backticks_append_eq hne hhead heq)
      · exact .inl (getLast?_of_ticks hfront fun c hc => hrun ▸ List.mem_append_left _ hc)

/-- The scanner comes out of a code span behind a run of its length only. -/
theorem Arrives.exists_span {n : ℕ} {atLineStart : Bool} {text rest : List Char}
    (h : Arrives (.codeSpan (n + 1)) atLineStart text rest) :
    ∃ content more, text = content ++ (backticks (n + 1) ++ more) ∧ WithoutRun (n + 1) content ∧
      (more ++ rest).head? ≠ some '\x60' ∧
      Arrives .text (lineStartBehind atLineStart content) more rest := by
  generalize hctx : ScanCtx.codeSpan (n + 1) = ctx at h
  induction h with
  | here => cases hctx
  | @next ctx atLineStart c tail more rest htext hmore ih =>
      subst hctx
      by_cases hc : c = '\x60'
      · subst hc
        obtain ⟨m, behind, hbehind, hhead⟩ := exists_backticks (tail ++ rest)
        have hnext := next_codeSpan_backticks (n + 1) atLineStart m hhead
        rw [← hbehind] at hnext
        rw [hnext] at htext hmore ih
        have hrest : (more ++ rest).head? ≠ some '\x60' := by
          have hwhole : backticks (m + 1) ++ behind = backticks (m + 1) ++ (more ++ rest) := by
            calc backticks (m + 1) ++ behind = '\x60' :: (backticks m ++ behind) := rfl
              _ = '\x60' :: tail ++ rest := by rw [← hbehind, List.cons_append]
              _ = backticks (m + 1) ++ (more ++ rest) := by rw [htext, List.append_assoc]; rfl
          rwa [← List.append_cancel_left hwhole]
        -- a run of another length is a part of the content
        by_cases hm : m + 1 = n + 1
        · rw [if_pos hm] at hmore
          rw [hm] at htext
          exact ⟨[], more, htext, .nil n, hrest, hmore⟩
        · rw [if_neg hm] at ih
          obtain ⟨content, more', rfl, hcontent, hbehind', harrives⟩ := ih rfl
          have hnil : content ≠ [] := by
            rintro rfl
            exact hrest rfl
          have hcontentHead : content.head? ≠ some '\x60' := by
            obtain ⟨c, content, rfl⟩ := List.exists_cons_of_ne_nil hnil
            exact hrest
          refine ⟨backticks (m + 1) ++ content, more', ?_, hcontent.append hm hcontentHead hnil,
            hbehind', ?_⟩
          · rw [htext, Piece.source, List.append_assoc]
          · rwa [lineStartBehind_append _ _ hnil]
      · have hnext : Cut.next (.codeSpan (n + 1)) atLineStart c (tail ++ rest) =
            .ofChar (.codeSpan (n + 1)) c := by rw [Cut.next, if_neg hc]
        rw [hnext] at htext ih
        obtain ⟨content, more', rfl, hcontent, hbehind, harrives⟩ := ih rfl
        refine ⟨c :: content, more', htext, hcontent.cons (Nat.succ_pos n) hc, hbehind, ?_⟩
        rw [lineStartBehind_cons]
        exact harrives

/-- A line that was taken whole, with more behind it, ended with a line break. -/
theorem exists_line_of_firstLine {text more rest : List Char} (hrest : rest ≠ [])
    (htext : text = Cut.firstLine (text ++ rest) ++ more) :
    ∃ line, text = line ++ '\n' :: more ∧ '\n' ∉ line := by
  unfold Cut.firstLine at htext
  cases hsplit : Utf8.splitOnce '\n' (text ++ rest) with
  | none =>
      rw [hsplit] at htext
      have hlength := congrArg List.length htext
      have hpos := List.length_pos_of_ne_nil hrest
      simp only [List.length_append] at hlength
      omega
  | some parts =>
      obtain ⟨line, behind⟩ := parts
      rw [hsplit] at htext
      exact ⟨line, by simpa using htext, (Utf8.splitOnce_eq_some.mp hsplit).2⟩

/-- Inside of a line that closes no fence, the scanner comes to the end of the line first. -/
theorem Arrives.exists_line {fenceChar : UInt8} {openingLen : ℕ} {atLineStart : Bool}
    {text rest : List Char} (h : Arrives (.fence fenceChar openingLen) atLineStart text rest)
    (hcloses : atLineStart = true →
      Scan.closesFence fenceChar openingLen (text ++ rest) = false) :
    ∃ line more, text = line ++ '\n' :: more ∧ '\n' ∉ line ∧
      Arrives (.fence fenceChar openingLen) true more rest := by
  generalize hctx : ScanCtx.fence fenceChar openingLen = ctx at h
  induction h with
  | here => cases hctx
  | @next ctx atLineStart c tail more rest htext hmore ih =>
      subst hctx
      have hnext : Cut.next (.fence fenceChar openingLen) atLineStart c (tail ++ rest) =
          .ofChar (.fence fenceChar openingLen) c := next_fence hcloses
      rw [hnext] at htext hmore ih
      obtain ⟨-, rfl⟩ := List.cons.inj htext
      by_cases hc : c = '\n'
      · subst hc
        exact ⟨[], tail, rfl, List.not_mem_nil, hmore⟩
      · have hbreak : (c == '\n') = false := by simpa using hc
        obtain ⟨line, more, rfl, hline, harrives⟩ :=
          ih (fun h => absurd (hbreak.symm.trans h) Bool.false_ne_true) rfl
        refine ⟨c :: line, more, rfl, ?_, harrives⟩
        rw [List.mem_cons, not_or]
        exact ⟨Ne.symm hc, hline⟩

/-- The scanner comes out of a fenced block behind a line that closes it. -/
theorem Arrives.exists_block {fenceChar : UInt8} {openingLen : ℕ} {text rest : List Char}
    (hrest : rest ≠ []) (h : Arrives (.fence fenceChar openingLen) true text rest) :
    ∃ block more, text = block ++ more ∧
      scanner.Fenced fenceChar openingLen block (more ++ rest) ∧ Arrives .text true more rest := by
  induction hlength : text.length using Nat.strongRecOn generalizing text with
  | ind length ih =>
      cases hcloses : Scan.closesFence fenceChar openingLen (text ++ rest) with
      | true =>
          cases h with
          | @next _ _ c tail more _ htext hmore =>
              have hnext : Cut.next (.fence fenceChar openingLen) true c (tail ++ rest) =
                  ⟨.kept (Cut.firstLine (c :: tail ++ rest)), .text, true⟩ := by
                rw [List.cons_append] at hcloses ⊢
                rw [Cut.next, if_pos (by exact hcloses)]
              rw [hnext] at htext hmore
              obtain ⟨line, hwhole, hline⟩ := exists_line_of_firstLine hrest htext
              rw [hwhole, List.append_assoc] at hcloses
              exact ⟨line ++ ['\n'], more, by simp [hwhole], .close hline hcloses, hmore⟩
      | false =>
          obtain ⟨line, more, rfl, hline, harrives⟩ := h.exists_line fun _ => hcloses
          have hshorter : more.length < length := by
            rw [← hlength, List.length_append, List.length_cons]
            omega
          obtain ⟨block, behind, rfl, hblock, htext⟩ := ih more.length hshorter harrives rfl
          rw [List.append_assoc, List.cons_append, List.append_assoc] at hcloses
          exact ⟨line ++ '\n' :: block, behind, by simp, .line hline hcloses hblock, htext⟩

/-- A piece of a text that opens no fence here. -/
theorem Arrives.reads_inText {atLineStart : Bool} {c : Char} {tail more rest : List Char}
    (hfence : scanner.NoFence atLineStart (c :: (tail ++ rest)))
    (htext : c :: tail = (Cut.inText c (tail ++ rest)).piece.source ++ more)
    (hmore : Arrives (Cut.inText c (tail ++ rest)).ctx
      (Cut.inText c (tail ++ rest)).atLineStart more rest)
    (hread : ∀ {behind : List Char} {atLineStart : Bool}, behind.length < (c :: tail).length →
      Arrives .text atLineStart behind rest → scanner.Reads atLineStart behind rest) :
    scanner.Reads atLineStart (c :: tail) rest := by
  by_cases hescape : c = '\\' ∧ (tail ++ rest).head? = some '['
  · have hcut : Cut.inText c (tail ++ rest) = ⟨.kept ['\\', '['], .text, false⟩ := by
      rw [Cut.inText, if_pos hescape]
    rw [hcut] at htext hmore
    obtain ⟨rfl, rfl⟩ := List.cons.inj htext
    have hshorter : more.length < more.length + 1 + 1 := by omega
    exact .escape hfence rfl (hread hshorter hmore)
  by_cases htick : c = '\x60'
  · subst htick
    -- the whole run of ticks is cut at once, and the scanner is in a code span behind it
    obtain ⟨n, behind, hbehind, hhead⟩ := exists_backticks (tail ++ rest)
    have hcut := inText_backticks n hhead
    rw [← hbehind] at hcut
    rw [hcut] at htext hmore
    have hrest : (more ++ rest).head? ≠ some '\x60' := by
      have hwhole : backticks (n + 1) ++ behind = backticks (n + 1) ++ (more ++ rest) := by
        calc backticks (n + 1) ++ behind = '\x60' :: (backticks n ++ behind) := rfl
          _ = '\x60' :: tail ++ rest := by rw [← hbehind, List.cons_append]
          _ = backticks (n + 1) ++ (more ++ rest) := by rw [htext, List.append_assoc]; rfl
      rwa [← List.append_cancel_left hwhole]
    obtain ⟨content, behind', rfl, hcontent, hbehind', harrives⟩ := hmore.exists_span
    have hnil : content ≠ [] := by
      rintro rfl
      exact hrest rfl
    have hcontentHead : content.head? ≠ some '\x60' := by
      obtain ⟨c, content, rfl⟩ := List.exists_cons_of_ne_nil hnil
      exact hrest
    rw [Piece.source] at htext
    rw [lineStartBehind_of_ne_nil _ hnil] at harrives
    rw [htext] at hread ⊢
    refine .span ?_ ⟨hcontent, Nat.succ_pos n, hnil, hcontentHead, hbehind', fun _ _ _ => rfl⟩
      (hread ?_ harrives)
    · have hwhole : '\x60' :: (tail ++ rest) =
          backticks (n + 1) ++ (content ++ (backticks (n + 1) ++ (behind' ++ rest))) := by
        rw [← List.cons_append, htext]
        simp
      exact hwhole ▸ hfence
    · simp only [List.length_append, backticks, List.length_replicate]
      omega
  cases hcode : Cut.markerCode (c :: (tail ++ rest)) with
  | none =>
      have hcut : Cut.inText c (tail ++ rest) = .ofChar .text c := by
        rw [Cut.inText, if_neg hescape, if_neg htick, hcode]
      rw [hcut] at htext hmore
      obtain ⟨-, rfl⟩ := List.cons.inj htext
      refine .char hfence htick ?_ hcode (hread (Nat.lt_succ_self _) hmore)
      intro hc next hnext
      -- the scanner takes only an opening bracket for escaped
      have hbracket : next ≠ '[' := by
        rintro rfl
        exact hescape ⟨hc, hnext⟩
      exact beq_eq_false_iff_ne.mpr hbracket
  | some code =>
      have hcut : Cut.inText c (tail ++ rest) = ⟨.otp code, .text, false⟩ := by
        rw [Cut.inText, if_neg hescape, if_neg htick, hcode]
      rw [hcut] at htext hmore
      have hwhole : c :: tail = marker code ++ more := htext
      have hfence' : scanner.NoFence atLineStart (marker code ++ (more ++ rest)) := by
        rw [← List.append_assoc, ← hwhole]
        exact hfence
      rw [hwhole] at hread ⊢
      refine .marker hfence' (Cut.markerCode_eq_some hcode).1 (hread ?_ hmore)
      rw [marker_eq, List.cons_append, List.length_cons, List.length_append]
      omega

/-- What is arrived at is read in the scanner's dialect. -/
theorem Arrives.reads {atLineStart : Bool} {text rest : List Char} (hrest : rest ≠ [])
    (h : Arrives .text atLineStart text rest) : scanner.Reads atLineStart text rest := by
  -- a piece is not empty, so the induction is on the length of the text
  induction hlength : text.length using Nat.strongRecOn generalizing text atLineStart with
  | ind length ih =>
      subst hlength
      cases h with
      | here => exact .nil atLineStart rest
      | @next _ _ c tail more _ htext hmore =>
          have hread : ∀ {behind : List Char} {atLineStart : Bool},
              behind.length < (c :: tail).length → Arrives .text atLineStart behind rest →
                scanner.Reads atLineStart behind rest :=
            fun hshorter harrives => ih _ hshorter harrives rfl
          cases hopens : if atLineStart then Scan.opensFence (c :: (tail ++ rest)) else none with
          | none =>
              have hfence : scanner.NoFence atLineStart (c :: (tail ++ rest)) := by
                rintro rfl
                exact hopens
              rw [next_text hfence] at htext hmore
              exact Arrives.reads_inText hfence htext hmore hread
          | some fence =>
              obtain ⟨fenceChar, openingLen⟩ := fence
              have hnext : Cut.next .text atLineStart c (tail ++ rest) =
                  ⟨.kept (Cut.firstLine (c :: (tail ++ rest))), .fence fenceChar openingLen,
                    true⟩ := by
                rw [Cut.next, hopens]
              rw [hnext] at htext hmore
              have hstart : atLineStart = true := by
                by_contra hno
                rw [if_neg hno] at hopens
                cases hopens
              subst hstart
              obtain ⟨line, hwhole, hline⟩ := exists_line_of_firstLine hrest htext
              obtain ⟨block, behind, rfl, hblock, harrives⟩ := Arrives.exists_block hrest hmore
              rw [hwhole] at hread ⊢
              refine .fence ?_ hline hblock (hread ?_ harrives)
              · have hsource : line ++ '\n' :: (block ++ (behind ++ rest)) =
                    c :: (tail ++ rest) := by
                  calc line ++ '\n' :: (block ++ (behind ++ rest))
                      = line ++ '\n' :: (block ++ behind) ++ rest := by simp
                    _ = c :: tail ++ rest := by rw [hwhole]
                rw [hsource]
                exact hopens
              · simp only [List.length_append, List.length_cons]
                omega

/-- The scanner replaces the markers that its own reading gets to. -/
theorem replaced_iff_reads {before code : List Char} (hcode : isValidCode code = true)
    (after : List Char) :
    Replaced before code after ↔ scanner.Reads true before (marker code ++ after) := by
  rw [replaced_iff_arrives hcode after]
  constructor
  · exact Arrives.reads (by simp [marker_eq])
  · exact Arrives.of_reads

/-! ## Markers outside of code -/

/-- Within a line, a character that begins nothing is read as it is. -/
theorem reads_char {dialect : Dialect} {c : Char} {text rest : List Char}
    (hc : c ≠ '\\' ∧ c ≠ '\x60' ∧ c ≠ '[' ∧ c ≠ '\n') (htext : dialect.Reads false text rest) :
    dialect.Reads false (c :: text) rest := by
  obtain ⟨hescape, htick, hbracket, hline⟩ := hc
  refine .char (fun h => absurd h Bool.false_ne_true) htick (fun h => absurd h hescape)
    (Cut.markerCode_of_ne hbracket _) ?_
  rwa [beq_eq_false_iff_ne.mpr hline]

theorem reads_plain {dialect : Dialect} {text : List Char}
    (htext : ∀ c ∈ text, c ≠ '\\' ∧ c ≠ '\x60' ∧ c ≠ '[' ∧ c ≠ '\n') (rest : List Char) :
    dialect.Reads false text rest := by
  induction text with
  | nil => exact .nil false rest
  | cons c text ih =>
      exact reads_char (htext c List.mem_cons_self)
        (ih fun c hc => htext c (List.mem_cons_of_mem _ hc))

/-- What takes the place of a marker is in the output. -/
theorem Replaced.subset {before code after : List Char} (h : Replaced before code after)
    {replace : List Char → List Char} {out : List Char}
    (hout : transformOtp (before ++ (marker code ++ after)) replace = some out) :
    replace code ⊆ out := by
  obtain ⟨front, back, -, -, houtput⟩ := h
  rw [houtput, Option.some.injEq] at hout
  rw [← hout]
  exact fun c hc => List.mem_append_right _ (List.mem_append_left _ hc)

/-- A backtick that nothing closes is text, and the marker behind it is in text. -/
theorem outside_openTick : Outside "a \x60 b ".toList "1".toList [] := by
  have hbehind : commonMark.Reads false [' ', 'b', ' '] (marker "1".toList ++ []) :=
    reads_plain (by decide) _
  have hrun : commonMark.Reads false (backticks 1 ++ [' ', 'b', ' '])
      (marker "1".toList ++ []) := by
    refine .run (fun h => absurd h Bool.false_ne_true) rfl Nat.one_pos (by decide) ?_ hbehind
    intro content more heq
    have hmem : '\x60' ∈ [' ', 'b', ' '] ++ (marker "1".toList ++ []) := by
      rw [heq]
      exact List.mem_append_right _ (List.mem_append_left _ List.mem_cons_self)
    exact absurd hmem (by decide)
  have hstart : commonMark.Reads true ('a' :: ' ' :: (backticks 1 ++ [' ', 'b', ' ']))
      (marker "1".toList ++ []) :=
    .char (fun _ => by decide) (by decide) (fun h => absurd h (by decide)) (by decide) <|
      reads_char (by decide) hrun
  exact hstart

end Modo.Email
