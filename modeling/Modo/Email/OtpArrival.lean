import Modo.Email.OtpReading
import Modo.Lib.Template

/-!
# Where the scanner arrives in text

The scanner replaces a marker exactly when it arrives at it outside of code
(`replaced_iff_arrives`), and it arrives behind whatever is read in its dialect
(`Arrives.of_reads`).
-/

namespace Modo.Email

open Utf8 (byte)

/-! ## Codes -/

theorem toNat_lt_of_isCodeByte {b : UInt8} (hb : isCodeByte b = true) : b.toNat < 128 := by
  simp only [isCodeByte, Bool.or_eq_true, decide_eq_true_eq, beq_iff_eq] at hb
  rcases hb with (⟨-, hle⟩ | ⟨-, hle⟩ | ⟨-, hle⟩) | rfl
  · exact (UInt8.le_iff_toNat_le.mp hle).trans_lt (by decide)
  · exact (UInt8.le_iff_toNat_le.mp hle).trans_lt (by decide)
  · exact (UInt8.le_iff_toNat_le.mp hle).trans_lt (by decide)
  · decide

/-- The characters of a code. -/
theorem isCodeByte_of_mem {code : List Char} (hcode : isValidCode code = true) {c : Char}
    (hc : c ∈ code) : c.toNat < 128 ∧ isCodeByte (byte c) = true := by
  rw [isValidCode, Bool.and_eq_true, List.all_eq_true] at hcode
  have hbytes : ∀ b ∈ String.utf8EncodeChar c, isCodeByte b = true := fun b hb =>
    hcode.2 b (List.mem_flatMap.mpr ⟨c, hc, hb⟩)
  obtain ⟨b, rest, hchar⟩ :=
    List.exists_cons_of_ne_nil (String.utf8EncodeChar_ne_nil (c := c))
  have hmem : b ∈ String.utf8EncodeChar c := by simp [hchar]
  have hlow : b.toNat < 128 := toNat_lt_of_isCodeByte (hbytes b hmem)
  have hascii : c.toNat < 128 := Utf8.toNat_eq_of_mem_utf8EncodeChar hlow hmem ▸ hlow
  rw [Utf8.utf8EncodeChar_ascii hascii] at hbytes
  exact ⟨hascii, hbytes _ (List.mem_singleton_self _)⟩

theorem notMem_of_isValidCode {code : List Char} (hcode : isValidCode code = true) {c : Char}
    (hc : isCodeByte (byte c) = false) : c ∉ code := by
  intro hmem
  have hbyte := (isCodeByte_of_mem hcode hmem).2
  rw [hc] at hbyte
  cases hbyte

theorem markerCode_marker {code : List Char} (hcode : isValidCode code = true)
    (after : List Char) : Cut.markerCode (marker code ++ after) = some code := by
  have hsource : marker code ++ after = Scan.otpStart ++ (code ++ ']' :: after) := by
    simp [marker, Piece.source]
  have hsplit : Utf8.splitOnce ']' (code ++ ']' :: after) = some (code, after) :=
    Utf8.splitOnce_eq_some.mpr ⟨rfl, notMem_of_isValidCode hcode (by decide)⟩
  have hprefix : Scan.otpStart.isPrefixOf (Scan.otpStart ++ (code ++ ']' :: after)) = true :=
    List.isPrefixOf_iff_prefix.mpr (List.prefix_append _ _)
  have hdrop : (Scan.otpStart ++ (code ++ ']' :: after)).drop 5 = code ++ ']' :: after := rfl
  rw [hsource, Cut.markerCode, if_pos hprefix, hdrop, hsplit, Option.bind_some]
  exact if_pos hcode

/-- A fence begins with one of its characters, behind spaces. -/
theorem opensFence_eq_none {c : Char} (hspace : c ≠ ' ') (htick : c ≠ '\x60') (htilde : c ≠ '~')
    (tail : List Char) : Scan.opensFence (c :: tail) = none := by
  have htrim : (c :: tail).dropWhile (· == ' ') = c :: tail :=
    List.dropWhile_cons_of_neg (by simpa using hspace)
  obtain ⟨b, rest, hbytes, -⟩ := Utf8.exists_bytes_cons c tail
  have hhead : (Utf8.bytes (c :: tail)).head? = some b := by rw [hbytes]; rfl
  have hchar : ¬(b = byte '\x60' ∨ b = byte '~') := by
    rw [Scan.byte_head_iff hhead (by decide), Scan.byte_head_iff hhead (by decide)]
    exact not_or.mpr ⟨htick, htilde⟩
  rw [Scan.opensFence, htrim, hhead]
  exact if_neg fun h => hchar h.1

theorem marker_eq (code : List Char) :
    marker code = '[' :: ("otp|".toList ++ (code ++ [']'])) := rfl

/-- In text, a marker is taken as such. -/
theorem next_marker {code : List Char} (hcode : isValidCode code = true) (atLineStart : Bool)
    (after : List Char) :
    Cut.next .text atLineStart '[' ("otp|".toList ++ (code ++ [']']) ++ after) =
      ⟨.otp code, .text, false⟩ := by
  have hmarker := markerCode_marker hcode after
  rw [marker_eq, List.cons_append] at hmarker
  have hnone : Scan.opensFence ('[' :: ("otp|".toList ++ (code ++ [']']) ++ after)) = none :=
    opensFence_eq_none (by decide) (by decide) (by decide) _
  rw [Cut.next, hnone, ite_self]
  dsimp only
  rw [Cut.inText, if_neg fun h => absurd h.1 (by decide), if_neg (by decide), hmarker]

/-! ## Arriving in text -/

/-- From a context, the scanner takes all of a text and is then outside of code. -/
inductive Arrives : ScanCtx → Bool → List Char → List Char → Prop
  | here (atLineStart : Bool) (rest : List Char) : Arrives .text atLineStart [] rest
  | next {ctx : ScanCtx} {atLineStart : Bool} {c : Char} {tail more rest : List Char}
      (htext : c :: tail = (Cut.next ctx atLineStart c (tail ++ rest)).piece.source ++ more)
      (hmore : Arrives (Cut.next ctx atLineStart c (tail ++ rest)).ctx
        (Cut.next ctx atLineStart c (tail ++ rest)).atLineStart more rest) :
      Arrives ctx atLineStart (c :: tail) rest

/-- A piece, and how it goes on behind it. -/
theorem Arrives.of_source {ctx : ScanCtx} {atLineStart : Bool} {c : Char}
    {tail more rest : List Char}
    (htext : c :: tail = (Cut.next ctx atLineStart c tail).piece.source ++ (more ++ rest))
    (hmore : Arrives (Cut.next ctx atLineStart c tail).ctx
      (Cut.next ctx atLineStart c tail).atLineStart more rest) :
    Arrives ctx atLineStart ((Cut.next ctx atLineStart c tail).piece.source ++ more) rest := by
  obtain ⟨head, source, hsource⟩ :=
    List.exists_cons_of_ne_nil (Cut.fits_next ctx atLineStart c tail).1
  rw [hsource, List.cons_append] at htext
  obtain ⟨rfl, htail⟩ := List.cons.inj htext
  rw [← List.append_assoc] at htail
  subst htail
  have hnext : c :: (source ++ more) =
      (Cut.next ctx atLineStart c (source ++ more ++ rest)).piece.source ++ more := by
    rw [hsource, List.cons_append]
  rw [hsource]
  exact .next hnext hmore

/-- Only in text a code is taken. -/
theorem eq_text_of_next {ctx : ScanCtx} {atLineStart : Bool} {c : Char} {tail code : List Char}
    (hpiece : (Cut.next ctx atLineStart c tail).piece = .otp code) : ctx = .text := by
  cases ctx with
  | text => rfl
  | codeSpan opening =>
      unfold Cut.next at hpiece
      dsimp only at hpiece
      split_ifs at hpiece
      all_goals cases hpiece
  | fence fenceChar openingLen =>
      unfold Cut.next at hpiece
      dsimp only at hpiece
      split_ifs at hpiece
      all_goals cases hpiece

/-- What is taken up to a code leads to it in text. -/
theorem arrives_of_cuts {code : List Char} {front back : List Piece} {ctx : ScanCtx}
    {atLineStart : Bool} {text rest : List Char}
    (h : Cuts ctx atLineStart (text ++ rest) (front ++ .otp code :: back))
    (hsource : front.flatMap Piece.source = text) : Arrives ctx atLineStart text rest := by
  induction front generalizing ctx atLineStart text with
  | nil =>
      obtain rfl : [] = text := hsource
      rw [List.nil_append, List.nil_append] at h
      generalize hpieces : Piece.otp code :: back = pieces at h
      cases h with
      | nil => cases hpieces
      | cons htext hmore =>
          obtain ⟨hpiece, -⟩ := List.cons.inj hpieces
          obtain rfl := eq_text_of_next hpiece.symm
          exact .here atLineStart _
  | cons piece front ih =>
      rw [List.flatMap_cons] at hsource
      subst hsource
      generalize hwhole : piece.source ++ front.flatMap Piece.source ++ rest = whole at h
      generalize hpieces : piece :: front ++ .otp code :: back = pieces at h
      cases h with
      | nil => cases hpieces
      | @cons _ _ c tail more pieces htext hmore =>
          rw [List.cons_append] at hpieces
          obtain ⟨rfl, rfl⟩ := List.cons.inj hpieces
          have hrest : more = front.flatMap Piece.source ++ rest := by
            rw [htext, List.append_assoc] at hwhole
            exact (List.append_cancel_left hwhole).symm
          rw [hrest] at hmore htext
          exact .of_source htext (ih hmore rfl)

theorem Cuts.of_next {ctx : ScanCtx} {atLineStart : Bool} {c : Char} {tail more : List Char}
    {cut : Cut} (hnext : Cut.next ctx atLineStart c tail = cut)
    (htext : c :: tail = cut.piece.source ++ more) {pieces : List Piece}
    (hmore : Cuts cut.ctx cut.atLineStart more pieces) :
    Cuts ctx atLineStart (c :: tail) (cut.piece :: pieces) := by
  subst hnext
  exact .cons htext hmore

/-- What the scanner takes on its way. -/
theorem Arrives.exists_front {ctx : ScanCtx} {atLineStart : Bool} {text rest : List Char}
    (h : Arrives ctx atLineStart text rest) :
    ∃ behind front, front.flatMap Piece.source = text ∧
      ∀ pieces, Cuts .text behind rest pieces →
        Cuts ctx atLineStart (text ++ rest) (front ++ pieces) := by
  induction h with
  | here atLineStart rest => exact ⟨atLineStart, [], rfl, fun pieces hpieces => hpieces⟩
  | @next ctx atLineStart c tail more rest htext _ ih =>
      obtain ⟨behind, front, hsource, hfront⟩ := ih
      refine ⟨behind, (Cut.next ctx atLineStart c (tail ++ rest)).piece :: front, ?_, ?_⟩
      · rw [List.flatMap_cons, hsource, ← htext]
      · intro pieces hpieces
        have hwhole : c :: (tail ++ rest) =
            (Cut.next ctx atLineStart c (tail ++ rest)).piece.source ++ (more ++ rest) := by
          rw [← List.append_assoc, ← htext, List.cons_append]
        exact .cons hwhole (hfront pieces hpieces)

/-! ## What the outputs say -/

/-- The characters and codes of a piece. -/
def Piece.parts : Piece → List (Char ⊕ List Char)
  | .kept text => text.map .inl
  | .otp code => [.inr code]

theorem filled_parts (replace : List Char → List Char) (pieces : List Piece) :
    Template.filled replace (pieces.flatMap Piece.parts) =
      pieces.flatMap (Piece.render replace) := by
  rw [Template.filled, List.flatMap_assoc]
  refine List.flatMap_congr fun piece _ => ?_
  cases piece with
  | kept text => simp [Piece.parts, Piece.render, List.flatMap_map]
  | otp code => simp [Piece.parts, Piece.render]

theorem source_eq_filled (pieces : List Piece) :
    pieces.flatMap Piece.source =
      Template.filled (fun code => Scan.otpStart ++ (code ++ [']']))
        (pieces.flatMap Piece.parts) := by
  rw [filled_parts]
  refine List.flatMap_congr fun piece _ => ?_
  cases piece <;> rfl

/-- A code is a piece of its own. -/
theorem exists_pieces_of_parts {pieces : List Piece} {code : List Char}
    {front back : List (Char ⊕ List Char)}
    (h : pieces.flatMap Piece.parts = front ++ .inr code :: back) :
    ∃ front' back', pieces = front' ++ .otp code :: back' ∧ front'.flatMap Piece.parts = front := by
  induction pieces generalizing front with
  | nil => exact absurd h.symm (by simp)
  | cons piece pieces ih =>
      rw [List.flatMap_cons] at h
      rcases List.append_eq_append_iff.mp h with ⟨more, rfl, hmore⟩ | ⟨more, hpiece, hmore⟩
      · obtain ⟨front', back', rfl, hfront⟩ := ih hmore
        exact ⟨piece :: front', back', rfl, by rw [List.flatMap_cons, hfront]⟩
      · cases more with
        | nil =>
            have hparts : pieces.flatMap Piece.parts = [] ++ .inr code :: back := hmore.symm
            obtain ⟨front', back', rfl, hfront⟩ := ih hparts
            refine ⟨piece :: front', back', rfl, ?_⟩
            rw [List.flatMap_cons, hfront, hpiece, List.append_nil, List.append_nil]
        | cons part more =>
            obtain ⟨rfl, -⟩ := List.cons.inj hmore
            cases piece with
            | kept text =>
                have hmem : Sum.inr code ∈ (Piece.kept text).parts := by
                  rw [hpiece]
                  exact List.mem_append_right _ List.mem_cons_self
                obtain ⟨c, -, hc⟩ := List.mem_map.mp hmem
                cases hc
            | otp other =>
                cases front with
                | nil =>
                    obtain ⟨hcode, -⟩ := List.cons.inj hpiece
                    obtain rfl := Sum.inr.inj hcode
                    exact ⟨[], pieces, rfl, rfl⟩
                | cons part front =>
                    have hlength := congrArg List.length hpiece
                    simp [Piece.parts] at hlength

/-- The scanner replaces a marker exactly when it arrives at it outside of code. -/
theorem replaced_iff_arrives {before code : List Char} (hcode : isValidCode code = true)
    (after : List Char) :
    Replaced before code after ↔ Arrives .text true before (marker code ++ after) := by
  constructor
  · rintro ⟨front, back, rfl, -, houtput⟩
    obtain ⟨pieces, hpieces⟩ :=
      Cuts.exists_cuts .text true (front.flatMap Piece.source ++ (marker code ++ after))
    have hfilled : ∀ replace, Template.filled replace (pieces.flatMap Piece.parts) =
        Template.filled replace ((front ++ .otp code :: back).flatMap Piece.parts) := by
      intro replace
      have houtput := houtput replace
      rw [transformOtp_eq hpieces, Option.some.injEq] at houtput
      rw [filled_parts, filled_parts, houtput, List.flatMap_append, List.flatMap_cons]
      rfl
    have : Nontrivial Char := ⟨'a', 'b', by decide⟩
    have hparts := Template.parts_eq_of_filled_eq hfilled
    rw [List.flatMap_append, List.flatMap_cons] at hparts
    obtain ⟨front', back', rfl, hfront⟩ := exists_pieces_of_parts hparts
    refine arrives_of_cuts hpieces ?_
    rw [source_eq_filled, hfront, source_eq_filled]
  · intro harrives
    obtain ⟨behind, front, hsource, hfront⟩ := harrives.exists_front
    obtain ⟨back, hback⟩ := Cuts.exists_cuts .text false after
    have hnext := next_marker hcode behind after
    have hcuts : Cuts .text behind (marker code ++ after) (.otp code :: back) :=
      .of_next hnext rfl hback
    refine ⟨front, back, hsource, hback.source_eq, fun replace => ?_⟩
    rw [transformOtp_eq (hfront _ hcuts), List.flatMap_append, List.flatMap_cons]
    rfl

/-! ## What is read is arrived at -/

theorem Arrives.of_next {ctx : ScanCtx} {atLineStart : Bool} {c : Char} {tail more rest : List Char}
    {cut : Cut} (hnext : Cut.next ctx atLineStart c tail = cut)
    (htext : c :: tail = cut.piece.source ++ (more ++ rest))
    (hmore : Arrives cut.ctx cut.atLineStart more rest) :
    Arrives ctx atLineStart (cut.piece.source ++ more) rest := by
  subst hnext
  exact .of_source htext hmore

/-- A text begins with some run of backticks. -/
theorem exists_backticks (text : List Char) :
    ∃ n more, text = backticks n ++ more ∧ more.head? ≠ some '\x60' := by
  induction text with
  | nil => exact ⟨0, [], rfl, by simp⟩
  | cons c text ih =>
      by_cases hc : c = '\x60'
      · obtain ⟨n, more, rfl, hmore⟩ := ih
        exact ⟨n + 1, more, by rw [hc]; rfl, hmore⟩
      · exact ⟨0, c :: text, rfl, by simpa using hc⟩

theorem run_backticks (n : ℕ) {text : List Char} (htext : text.head? ≠ some '\x60') :
    Cut.run ('\x60' :: (backticks n ++ text)) = backticks (n + 1) := by
  have hwhole : '\x60' :: (backticks n ++ text) = backticks (n + 1) ++ text := rfl
  have hrun : text.takeWhile (· == '\x60') = [] := by
    cases text with
    | nil => rfl
    | cons c text => exact List.takeWhile_cons_of_neg (by simpa using htext)
  rw [hwhole, Cut.run, List.takeWhile_append_of_pos, hrun, List.append_nil]
  intro c hc
  simpa using List.eq_of_mem_replicate hc

theorem inText_backticks (n : ℕ) {text : List Char} (htext : text.head? ≠ some '\x60') :
    Cut.inText '\x60' (backticks n ++ text) =
      ⟨.kept (backticks (n + 1)), .codeSpan (n + 1), false⟩ := by
  rw [Cut.inText, if_neg fun h => absurd h.1 (by decide), if_pos rfl, run_backticks n htext,
    backticks, List.length_replicate]

theorem next_codeSpan_backticks (opening : ℕ) (atLineStart : Bool) (n : ℕ) {text : List Char}
    (htext : text.head? ≠ some '\x60') :
    Cut.next (.codeSpan opening) atLineStart '\x60' (backticks n ++ text) =
      ⟨.kept (backticks (n + 1)), if n + 1 = opening then .text else .codeSpan opening,
        atLineStart⟩ := by
  rw [Cut.next, if_pos rfl, run_backticks n htext, backticks, List.length_replicate]

/-- Whether the line starts behind a text within a code span; the runs do not count. -/
def lineStartBehind (atLineStart : Bool) (content : List Char) : Bool :=
  match content.getLast? with
  | none => atLineStart
  | some c => c == '\n'

theorem lineStartBehind_cons (atLineStart : Bool) (c : Char) (content : List Char) :
    lineStartBehind atLineStart (c :: content) = lineStartBehind (c == '\n') content := by
  cases content with
  | nil => rfl
  | cons other content => rw [lineStartBehind, lineStartBehind, List.getLast?_cons_cons]; rfl

theorem lineStartBehind_append (atLineStart : Bool) (front : List Char) {content : List Char}
    (hne : content ≠ []) :
    lineStartBehind atLineStart (front ++ content) = lineStartBehind atLineStart content := by
  rw [lineStartBehind, lineStartBehind, List.getLast?_append_of_ne_nil front hne]

theorem WithoutRun.of_cons {n : ℕ} {c : Char} {content : List Char}
    (h : WithoutRun n (c :: content)) (hc : c ≠ '\x60') : WithoutRun n content := by
  refine ⟨?_, ?_⟩
  · intro hlast
    obtain ⟨front, rfl⟩ := List.getLast?_eq_some_iff.mp hlast
    exact h.last (by rw [← List.cons_append, List.getLast?_concat])
  · rintro front back rfl
    rcases h.inner (c :: front) back rfl with hfront | hback
    · cases front with
      | nil => exact absurd (Option.some.inj hfront) hc
      | cons other front => exact .inl (by rwa [List.getLast?_cons_cons] at hfront)
    · exact .inr hback

theorem WithoutRun.of_append {n m : ℕ} (hn : 0 < n) {content : List Char}
    (h : WithoutRun n (backticks m ++ content)) (hhead : content.head? ≠ some '\x60')
    (hne : content ≠ []) : WithoutRun n content := by
  refine ⟨?_, ?_⟩
  · have hlast := h.last
    rwa [List.getLast?_append_of_ne_nil _ hne] at hlast
  · rintro front back rfl
    cases front with
    | nil =>
        obtain ⟨n, rfl⟩ := Nat.exists_eq_succ_of_ne_zero hn.ne'
        exact absurd rfl hhead
    | cons c front =>
        have hwhole := h.inner (backticks m ++ c :: front) back (by simp)
        rwa [List.getLast?_append_of_ne_nil _ (List.cons_ne_nil _ _)] at hwhole

theorem WithoutRun.ne {n m : ℕ} {content : List Char} (h : WithoutRun n (backticks m ++ content))
    (hhead : content.head? ≠ some '\x60') : m ≠ n := by
  rintro rfl
  rcases h.inner [] content rfl with hfront | hback
  · cases hfront
  · exact hhead hback

theorem WithoutRun.ne_nil {n m : ℕ} {content : List Char}
    (h : WithoutRun n (backticks (m + 1) ++ content)) : content ≠ [] := by
  rintro rfl
  refine h.last ?_
  rw [List.append_nil, backticks, List.replicate_succ', List.getLast?_concat]

theorem lineStartBehind_of_ne_nil (atLineStart : Bool) {content : List Char} (hne : content ≠ []) :
    lineStartBehind atLineStart content = (content.getLast? == some '\n') := by
  rw [lineStartBehind, List.getLast?_eq_some_getLast hne, Option.some_beq_some]

/-- The scanner comes out of a code span behind the first run of its length. -/
theorem arrives_codeSpan {n : ℕ} {text rest : List Char}
    (hbehind : (text ++ rest).head? ≠ some '\x60') {content : List Char}
    (hcontent : WithoutRun (n + 1) content) {atLineStart : Bool}
    (htext : Arrives .text (lineStartBehind atLineStart content) text rest) :
    Arrives (.codeSpan (n + 1)) atLineStart (content ++ (backticks (n + 1) ++ text)) rest := by
  induction hlength : content.length using Nat.strongRecOn generalizing content atLineStart with
  | ind length ih =>
      obtain ⟨run, inner, rfl, hhead⟩ := exists_backticks content
      -- a run of ticks is cut at once, and is not the end of the span unless it has its length
      cases run with
      | zero =>
          have hzero : backticks 0 ++ inner = inner := rfl
          rw [hzero] at hcontent htext hlength ⊢
          cases inner with
          | nil =>
              have hnext := next_codeSpan_backticks (n + 1) atLineStart n hbehind
              rw [if_pos rfl] at hnext
              exact .of_next hnext (by simp [Piece.source, backticks, List.replicate_succ]) htext
          | cons c inner =>
              have hc : c ≠ '\x60' := by simpa using hhead
              have hnext : Cut.next (.codeSpan (n + 1)) atLineStart c
                  (inner ++ (backticks (n + 1) ++ text) ++ rest) =
                    .ofChar (.codeSpan (n + 1)) c := by rw [Cut.next, if_neg hc]
              refine .of_next hnext rfl (ih inner.length ?_ (hcontent.of_cons hc) ?_ rfl)
              · rw [← hlength]
                exact Nat.lt_succ_self _
              · rwa [lineStartBehind_cons] at htext
      | succ run =>
          have hne := hcontent.ne_nil
          have hinner : (inner ++ (backticks (n + 1) ++ text) ++ rest).head? ≠ some '\x60' := by
            obtain ⟨c, inner, rfl⟩ := List.exists_cons_of_ne_nil hne
            exact hhead
          have hnext := next_codeSpan_backticks (n + 1) atLineStart run hinner
          rw [if_neg (hcontent.ne hhead)] at hnext
          have harrives : Arrives (.codeSpan (n + 1)) atLineStart
              (inner ++ (backticks (n + 1) ++ text)) rest := by
            refine ih inner.length ?_ (hcontent.of_append (Nat.succ_pos n) hhead hne) ?_ rfl
            · rw [← hlength, List.length_append, backticks, List.length_replicate]
              omega
            · rwa [lineStartBehind_append _ _ hne] at htext
          rw [List.append_assoc]
          exact .of_next hnext (by simp [Piece.source, backticks, List.replicate_succ]) harrives

theorem firstLine_append {line : List Char} (hline : '\n' ∉ line) (more : List Char) :
    Cut.firstLine (line ++ '\n' :: more) = line ++ ['\n'] := by
  rw [Cut.firstLine, Utf8.splitOnce_eq_some.mpr ⟨rfl, hline⟩]

theorem next_fence {fenceChar : UInt8} {openingLen : ℕ} {atLineStart : Bool} {c : Char}
    {tail : List Char} (hcloses : atLineStart = true →
      Scan.closesFence fenceChar openingLen (c :: tail) = false) :
    Cut.next (.fence fenceChar openingLen) atLineStart c tail =
      .ofChar (.fence fenceChar openingLen) c := by
  rw [Cut.next, if_neg]
  rw [Bool.and_eq_true, not_and, Bool.not_eq_true]
  exact hcloses

/-- A line that closes no fence is copied character by character. -/
theorem arrives_line {fenceChar : UInt8} {openingLen : ℕ} {text rest : List Char}
    (htext : Arrives (.fence fenceChar openingLen) true text rest) {line : List Char}
    (hline : '\n' ∉ line) {atLineStart : Bool}
    (hcloses : atLineStart = true →
      Scan.closesFence fenceChar openingLen (line ++ '\n' :: (text ++ rest)) = false) :
    Arrives (.fence fenceChar openingLen) atLineStart (line ++ '\n' :: text) rest := by
  induction line generalizing atLineStart with
  | nil => exact .of_next (next_fence hcloses) rfl htext
  | cons c line ih =>
      rw [List.mem_cons, not_or] at hline
      have hbreak : (c == '\n') = false := by simpa using Ne.symm hline.1
      have hwhole : c :: (line ++ '\n' :: text ++ rest) = c :: line ++ '\n' :: (text ++ rest) := by
        simp
      have hnext : Cut.next (.fence fenceChar openingLen) atLineStart c
          (line ++ '\n' :: text ++ rest) = .ofChar (.fence fenceChar openingLen) c :=
        next_fence (by rwa [hwhole])
      refine .of_next hnext rfl (ih hline.2 ?_)
      rw [Cut.ofChar, hbreak]
      exact fun h => absurd h Bool.false_ne_true

/-- The scanner comes out of a fenced block behind the line that closes it. -/
theorem arrives_fenced {fenceChar : UInt8} {openingLen : ℕ} {text rest block whole : List Char}
    (hblock : scanner.Fenced fenceChar openingLen block whole) (hwhole : whole = text ++ rest)
    (htext : Arrives .text true text rest) :
    Arrives (.fence fenceChar openingLen) true (block ++ text) rest := by
  induction hblock with
  | @close line rest' hline hcloses =>
      subst hwhole
      have hfirst := firstLine_append hline (text ++ rest)
      obtain ⟨c, tail, htail⟩ : ∃ c tail, line ++ '\n' :: (text ++ rest) = c :: tail :=
        List.exists_cons_of_ne_nil (by simp)
      have hnext : Cut.next (.fence fenceChar openingLen) true c tail =
          ⟨.kept (line ++ ['\n']), .text, true⟩ := by
        rw [htail] at hcloses hfirst
        rw [Cut.next, if_pos (by exact hcloses), hfirst]
      refine .of_next hnext ?_ htext
      rw [← htail]
      simp [Piece.source]
  | @line line more rest' hline hcloses _ ih =>
      subst hwhole
      rw [List.append_assoc, List.cons_append]
      refine arrives_line (ih rfl) hline fun _ => ?_
      rw [List.append_assoc]
      exact hcloses

/-- Without a fence, what is taken at a place of the text depends on the place alone. -/
theorem next_text {atLineStart : Bool} {c : Char} {tail : List Char}
    (hfence : scanner.NoFence atLineStart (c :: tail)) :
    Cut.next .text atLineStart c tail = Cut.inText c tail := by
  cases atLineStart with
  | false => rfl
  | true =>
      have hnone : Scan.opensFence (c :: tail) = none := hfence rfl
      rw [Cut.next, if_pos rfl, hnone]

/-- What is read in the scanner's dialect is arrived at. -/
theorem Arrives.of_reads {atLineStart : Bool} {text rest : List Char}
    (h : scanner.Reads atLineStart text rest) : Arrives .text atLineStart text rest := by
  induction h with
  | nil atLineStart rest => exact .here atLineStart rest
  | @char atLineStart c text rest hfence htick hescape hmarker _ ih =>
      have hbracket : ¬(c = '\\' ∧ (text ++ rest).head? = some '[') := by
        rintro ⟨rfl, hhead⟩
        exact absurd (hescape rfl '[' hhead) (by decide)
      have hnext : Cut.next .text atLineStart c (text ++ rest) = .ofChar .text c := by
        rw [next_text hfence, Cut.inText, if_neg hbracket, if_neg htick, hmarker]
      exact .of_next hnext rfl ih
  | @marker atLineStart code text rest _ hcode _ ih =>
      have hnext := next_marker hcode atLineStart (text ++ rest)
      refine .of_next hnext ?_ ih
      rw [Piece.source, Scan.otpStart]
      simp
  | @escape atLineStart c text rest hfence hescape _ ih =>
      obtain rfl : c = '[' := by simpa [scanner] using hescape
      have hnext : Cut.next .text atLineStart '\\' ('[' :: (text ++ rest)) =
          ⟨.kept ['\\', '['], .text, false⟩ := by
        rw [next_text hfence, Cut.inText, if_pos ⟨rfl, rfl⟩]
      exact .of_next hnext rfl ih
  | @span atLineStart n content text rest hfence hcloses _ ih =>
      obtain ⟨n, rfl⟩ := Nat.exists_eq_succ_of_ne_zero hcloses.pos.ne'
      have hhead : (content ++ (backticks (n + 1) ++ (text ++ rest))).head? ≠ some '\x60' := by
        obtain ⟨c, inner, rfl⟩ := List.exists_cons_of_ne_nil hcloses.ne_nil
        exact hcloses.head
      have hnext := (next_text hfence).trans (inText_backticks n hhead)
      refine .of_next hnext ?_ (arrives_codeSpan hcloses.behind hcloses.toWithoutRun ?_)
      · simp [Piece.source, backticks, List.replicate_succ]
      · rw [lineStartBehind_of_ne_nil _ hcloses.ne_nil]
        exact ih
  | run _ hliteral => cases hliteral
  | @fence line block text rest fenceChar openingLen hopens hline hblock _ ih =>
      have hfirst := firstLine_append hline (block ++ (text ++ rest))
      -- the line that opens the fence is cut at once
      obtain ⟨c, tail, htail⟩ :
          ∃ c tail, line ++ '\n' :: (block ++ (text ++ rest)) = c :: tail :=
        List.exists_cons_of_ne_nil (by simp)
      have hnext : Cut.next .text true c tail =
          ⟨.kept (line ++ ['\n']), .fence fenceChar openingLen, true⟩ := by
        have hsome : Scan.opensFence (c :: tail) = some (fenceChar, openingLen) := htail ▸ hopens
        rw [htail] at hfirst
        rw [Cut.next, if_pos rfl, hsome, hfirst]
      have hsource : line ++ '\n' :: (block ++ text) = (line ++ ['\n']) ++ (block ++ text) := by
        simp
      rw [hsource]
      refine .of_next hnext ?_ (arrives_fenced hblock rfl ih)
      rw [← htail]
      simp [Piece.source]

end Modo.Email
