import Modo.Email.OtpScan

/-!
# What the scanner takes

`Cut.next` says what the scanner takes at a place of the text, without positions or bytes, and
`Scan.step_eq_some` that a step takes that.  So no slice fails, every round moves on, and the output
is made of the pieces (`transformOtp_eq`); if markers are replaced by themselves, it is the source.
-/

namespace Modo.Email

open Utf8 (byte bytes sliceFrom sliceTo byteLength)

/-! ## What is taken at a place -/

/-- What the scanner takes at once: text that it copies, or a marker with its code. -/
inductive Piece where
  | kept (text : List Char)
  | otp (code : List Char)
  deriving DecidableEq

namespace Piece

def source : Piece → List Char
  | .kept text => text
  | .otp code => Scan.otpStart ++ (code ++ [']'])

def render (replace : List Char → List Char) : Piece → List Char
  | .kept text => text
  | .otp code => replace code

end Piece

/-- A piece, and how the scanner goes on behind it. -/
structure Cut where
  piece : Piece
  ctx : ScanCtx
  atLineStart : Bool
  deriving DecidableEq

namespace Cut

/-- A line with its line break. -/
def firstLine (rest : List Char) : List Char :=
  match Utf8.splitOnce '\n' rest with
  | some (line, _) => line ++ ['\n']
  | none => rest

/-- The code of a marker that the text begins with. -/
def markerCode (rest : List Char) : Option (List Char) :=
  if Scan.otpStart.isPrefixOf rest then
    (Utf8.splitOnce ']' (rest.drop 5)).bind fun (code, _) =>
      if isValidCode code then some code else none
  else none

def ofChar (ctx : ScanCtx) (c : Char) : Cut where
  piece := .kept [c]
  ctx := ctx
  atLineStart := c == '\n'

def run (rest : List Char) : List Char := rest.takeWhile (· == '\x60')

/-- What is taken in text, behind the check for a fence. -/
def inText (c : Char) (tail : List Char) : Cut :=
  if c = '\\' ∧ tail.head? = some '[' then ⟨.kept ['\\', '['], .text, false⟩
  else if c = '\x60' then ⟨.kept (run (c :: tail)), .codeSpan (run (c :: tail)).length, false⟩
  else
    match markerCode (c :: tail) with
    | some code => ⟨.otp code, .text, false⟩
    | none => .ofChar .text c

/-- What is taken of a text that is not empty. -/
def next (ctx : ScanCtx) (atLineStart : Bool) (c : Char) (tail : List Char) : Cut :=
  match ctx with
  | .text =>
      match if atLineStart then Scan.opensFence (c :: tail) else none with
      | some (fenceChar, openingLen) =>
          ⟨.kept (firstLine (c :: tail)), .fence fenceChar openingLen, true⟩
      | none => inText c tail
  | .codeSpan opening =>
      if c = '\x60' then
        ⟨.kept (run (c :: tail)),
          if (run (c :: tail)).length = opening then .text else .codeSpan opening, atLineStart⟩
      else .ofChar (.codeSpan opening) c
  | .fence fenceChar openingLen =>
      if atLineStart && Scan.closesFence fenceChar openingLen (c :: tail) then
        ⟨.kept (firstLine (c :: tail)), .text, true⟩
      else .ofChar (.fence fenceChar openingLen) c

/-! ### A piece is what the text begins with -/

theorem exists_firstLine_append (rest : List Char) : ∃ more, rest = firstLine rest ++ more := by
  unfold firstLine
  cases hsplit : Utf8.splitOnce '\n' rest with
  | none => exact ⟨[], by simp⟩
  | some parts =>
      obtain ⟨line, more⟩ := parts
      exact ⟨more, by simp [(Utf8.splitOnce_eq_some.mp hsplit).1]⟩

theorem firstLine_ne_nil (c : Char) (tail : List Char) : firstLine (c :: tail) ≠ [] := by
  unfold firstLine
  split <;> simp

theorem byteLength_firstLine (rest : List Char) :
    byteLength (firstLine rest) = Scan.lineEnd rest := by
  unfold firstLine Scan.lineEnd Utf8.find
  cases Utf8.splitOnce '\n' rest with
  | none => rfl
  | some parts => rw [Utf8.byteLength_append]; rfl

theorem markerCode_eq_some {rest code : List Char} (hcode : markerCode rest = some code) :
    isValidCode code = true ∧ ']' ∉ code ∧
      ∃ more, rest = Scan.otpStart ++ (code ++ ']' :: more) := by
  unfold markerCode at hcode
  split_ifs at hcode with hprefix
  obtain ⟨tail, rfl⟩ := List.isPrefixOf_iff_prefix.mp hprefix
  have hdrop : (Scan.otpStart ++ tail).drop 5 = tail := rfl
  rw [hdrop, Option.bind_eq_some_iff] at hcode
  obtain ⟨⟨found, more⟩, hsplit, hvalid⟩ := hcode
  obtain ⟨rfl, hfound⟩ := Utf8.splitOnce_eq_some.mp hsplit
  dsimp only at hvalid
  split_ifs at hvalid with hok
  obtain rfl := Option.some.inj hvalid
  exact ⟨hok, hfound, more, rfl⟩

/-- A marker begins with its bracket. -/
theorem markerCode_of_ne {c : Char} (hc : c ≠ '[') (tail : List Char) :
    markerCode (c :: tail) = none := by
  cases hcode : markerCode (c :: tail) with
  | none => rfl
  | some code =>
      obtain ⟨-, -, more, hmore⟩ := markerCode_eq_some hcode
      exact absurd (List.cons.inj hmore).1 hc

theorem run_ne_nil (tail : List Char) : run ('\x60' :: tail) ≠ [] := by
  rw [run, List.takeWhile_cons_of_pos (by simp)]
  exact List.cons_ne_nil _ _

theorem exists_run_append (rest : List Char) : ∃ more, rest = run rest ++ more :=
  ⟨rest.dropWhile (· == '\x60'), (List.takeWhile_append_dropWhile).symm⟩

/-- A piece is what the text begins with, and not nothing. -/
def Fits (cut : Cut) (rest : List Char) : Prop :=
  cut.piece.source ≠ [] ∧ ∃ more, rest = cut.piece.source ++ more

theorem fits_ofChar (ctx : ScanCtx) (c : Char) (tail : List Char) :
    (ofChar ctx c).Fits (c :: tail) := ⟨List.cons_ne_nil _ _, tail, rfl⟩

theorem fits_inText (c : Char) (tail : List Char) : (inText c tail).Fits (c :: tail) := by
  unfold inText
  split_ifs with hescape htick
  · obtain ⟨rfl, hhead⟩ := hescape
    obtain ⟨more, rfl⟩ := List.head?_eq_some_iff.mp hhead
    exact ⟨List.cons_ne_nil _ _, more, rfl⟩
  · subst htick
    exact ⟨run_ne_nil tail, exists_run_append _⟩
  · cases hcode : markerCode (c :: tail) with
    | none => exact fits_ofChar _ c tail
    | some code =>
        obtain ⟨-, -, more, hmore⟩ := markerCode_eq_some hcode
        refine ⟨by simp [Piece.source, Scan.otpStart], more, ?_⟩
        rw [hmore]
        simp [Piece.source]

/-- Every piece takes something from the front of the text. -/
theorem fits_next (ctx : ScanCtx) (atLineStart : Bool) (c : Char) (tail : List Char) :
    (next ctx atLineStart c tail).Fits (c :: tail) := by
  have hline : ∀ ctx, Fits ⟨.kept (firstLine (c :: tail)), ctx, true⟩ (c :: tail) := fun ctx =>
    ⟨firstLine_ne_nil c tail, exists_firstLine_append _⟩
  cases ctx with
  | text =>
      unfold next
      dsimp only
      split
      · exact hline _
      · exact fits_inText c tail
  | codeSpan opening =>
      unfold next
      dsimp only
      split_ifs with htick
      · subst htick
        exact ⟨run_ne_nil tail, exists_run_append _⟩
      · subst htick
        exact ⟨run_ne_nil tail, exists_run_append _⟩
      · exact fits_ofChar _ c tail
  | fence fenceChar openingLen =>
      unfold next
      dsimp only
      split_ifs with hcloses
      · exact hline _
      · exact fits_ofChar _ c tail

end Cut

/-! ## A step takes a piece -/

namespace Scan

/-- The state behind a piece. -/
def taken (state : Scan) (replace : List Char → List Char) (cut : Cut) : Scan where
  out := state.out ++ cut.piece.render replace
  i := state.i + byteLength cut.piece.source
  ctx := cut.ctx
  atLineStart := cut.atLineStart

variable {before : List Char} {c : Char} {tail : List Char} {state : Scan}
  (replace : List Char → List Char)

theorem copyLine_eq (rest : List Char) (ctx : ScanCtx) :
    state.copyLine rest ctx =
      some (state.taken replace ⟨.kept (Cut.firstLine rest), ctx, true⟩) := by
  have hslice : sliceTo rest (byteLength (Cut.firstLine rest)) = some (Cut.firstLine rest) := by
    obtain ⟨more, hmore⟩ := Cut.exists_firstLine_append rest
    generalize Cut.firstLine rest = line at hmore ⊢
    subst hmore
    exact Utf8.sliceTo_append line more
  rw [copyLine, ← Cut.byteLength_firstLine, hslice]
  rfl

theorem ofNat_toNat_byte (hc : c.toNat < 128) : Char.ofNat (byte c).toNat = c := by
  rw [Utf8.toNat_byte hc, Char.ofNat_toNat]

/-- The first byte of a character says which ASCII character it is. -/
theorem byte_head_iff {b : UInt8} (hb : (bytes (c :: tail)).head? = some b) {other : Char}
    (hother : other.toNat < 128) : b = byte other ↔ c = other := by
  have hhead := Utf8.head?_bytes_iff hother (c :: tail)
  rwa [hb, List.head?_cons, Option.some.injEq, Option.some.injEq] at hhead

theorem copyChar_eq (hi : state.i = byteLength before) {b : UInt8}
    (hb : (bytes (c :: tail)).head? = some b) :
    state.copyChar (before ++ c :: tail) b =
      some (state.taken replace (Cut.ofChar state.ctx c)) := by
  have hbreak : (b == byte '\n') = (c == '\n') :=
    decide_eq_decide.mpr (byte_head_iff hb (by decide))
  by_cases hc : c.toNat < 128
  · obtain rfl : b = byte c := (byte_head_iff hb hc).mpr rfl
    have hsize : c.utf8Size = 1 := by
      rw [Char.utf8Size_eq_one_iff, UInt32.le_iff_toNat_le]
      exact Nat.le_of_lt_succ hc
    have hascii : byte c < 128 := by
      rw [UInt8.lt_iff_toNat_lt, Utf8.toNat_byte hc]
      exact hc
    rw [copyChar, if_pos hascii, ofNat_toNat_byte hc, hbreak]
    simp [taken, Cut.ofChar, Piece.source, Piece.render, hsize, byteLength]
  · obtain ⟨first, rest, hbytes, hmem⟩ := Utf8.exists_bytes_cons c tail
    rw [hbytes, List.head?_cons, Option.some.injEq] at hb
    subst hb
    have hhigh : ¬first < 128 := by
      intro hlow
      rw [UInt8.lt_iff_toNat_lt] at hlow
      exact hc (Utf8.toNat_eq_of_mem_utf8EncodeChar hlow hmem ▸ hlow)
    have hline : (c == '\n') = false := by
      rw [beq_eq_false_iff_ne]
      rintro rfl
      exact hc (by decide)
    rw [copyChar, if_neg hhigh, hi, Utf8.sliceFrom_append]
    simp [taken, Cut.ofChar, Piece.source, Piece.render, byteLength, hline, hi]

theorem ticks_eq (hi : state.i = byteLength before) (rest : List Char) :
    state.ticks (before ++ rest) = (Cut.run rest).length := by
  rw [ticks, hi, Utf8.drop_bytes, Utf8.length_takeWhile_bytes (by decide), Cut.run]

theorem byteLength_run (rest : List Char) : byteLength (Cut.run rest) = (Cut.run rest).length :=
  Utf8.byteLength_takeWhile (by decide) rest

theorem copyTicks_eq (hi : state.i = byteLength before) (rest : List Char) (ctx : ScanCtx)
    (atLineStart : Bool) :
    state.copyTicks (before ++ rest) ctx atLineStart =
      some (state.taken replace ⟨.kept (Cut.run rest), ctx, atLineStart⟩) := by
  have hslice : Utf8.slice (before ++ rest) (byteLength before)
      (byteLength before + byteLength (Cut.run rest)) = some (Cut.run rest) := by
    obtain ⟨more, hmore⟩ := Cut.exists_run_append rest
    generalize Cut.run rest = run at hmore ⊢
    subst hmore
    exact Utf8.slice_append before run more
  rw [copyTicks, ticks_eq hi, ← byteLength_run, hi, hslice]
  simp [taken, Piece.source, Piece.render, hi]

theorem otpCode_eq (hi : state.i = byteLength before) (rest : List Char) :
    state.otpCode (before ++ rest) =
      some ((Cut.markerCode rest).map fun code => (code, byteLength code)) := by
  rw [otpCode, Cut.markerCode, hi, Utf8.sliceFrom_append, Option.bind_some]
  split_ifs with hprefix
  · obtain ⟨more, rfl⟩ := List.isPrefixOf_iff_prefix.mp hprefix
    have hslice : sliceFrom (before ++ (otpStart ++ more)) (byteLength before + 5) = some more := by
      have hlength : byteLength before + 5 = byteLength (before ++ otpStart) := by
        rw [Utf8.byteLength_append]
        rfl
      rw [hlength, ← List.append_assoc, Utf8.sliceFrom_append]
    have hdrop : (otpStart ++ more).drop 5 = more := rfl
    rw [hslice, hdrop, Option.bind_some]
    cases hsplit : Utf8.splitOnce ']' more with
    | none => simp [Utf8.find, hsplit]
    | some parts =>
        obtain ⟨code, behind⟩ := parts
        obtain ⟨rfl, hcode⟩ := Utf8.splitOnce_eq_some.mp hsplit
        simp only [Utf8.find_append hcode, Utf8.sliceTo_append, Option.map_some, Option.bind_some]
        split_ifs <;> rfl
  · rfl

/-- The byte at the position. -/
theorem exists_byte (hi : state.i = byteLength before) (c : Char) (tail : List Char) :
    ∃ b, (bytes (c :: tail)).head? = some b ∧ (bytes (before ++ c :: tail))[state.i]? = some b := by
  obtain ⟨first, rest, hbytes, -⟩ := Utf8.exists_bytes_cons c tail
  have hget := Utf8.getElem?_bytes before (c :: tail) 0
  rw [hbytes, Nat.add_zero, ← hi] at hget
  exact ⟨first, by rw [hbytes]; rfl, hget⟩

/-- The check for an escaped bracket. -/
theorem escape_iff (hi : state.i = byteLength before) {b : UInt8}
    (hb : (bytes (c :: tail)).head? = some b) :
    b = byte '\\' ∧ (bytes (before ++ c :: tail))[state.i + 1]? = some (byte '[') ↔
      c = '\\' ∧ tail.head? = some '[' := by
  rw [byte_head_iff hb (by decide), hi, Utf8.getElem?_bytes]
  refine and_congr_right ?_
  rintro rfl
  rw [Utf8.bytes_cons_ascii (by decide), List.getElem?_cons_succ, ← List.head?_eq_getElem?,
    Utf8.head?_bytes_iff (by decide)]

theorem stepInline_eq (hi : state.i = byteLength before) (hctx : state.ctx = .text) :
    state.stepInline (before ++ c :: tail) replace =
      some (state.taken replace (Cut.inText c tail)) := by
  obtain ⟨b, hb, hget⟩ := exists_byte hi c tail
  have hchar := copyChar_eq replace hi hb
  rw [hctx] at hchar
  rw [stepInline, hget, Option.bind_some, Cut.inText]
  by_cases hescape : c = '\\' ∧ tail.head? = some '['
  · rw [if_pos ((escape_iff hi hb).mpr hescape), if_pos hescape, hctx]
    rfl
  rw [if_neg (mt (escape_iff hi hb).mp hescape), if_neg hescape]
  by_cases htick : c = '\x60'
  · rw [if_pos ((byte_head_iff hb (by decide)).mpr htick), if_pos htick, copyTicks_eq replace hi,
      ticks_eq hi]
  rw [if_neg (mt (byte_head_iff hb (by decide)).mp htick), if_neg htick]
  by_cases hbracket : c = '['
  · rw [if_pos ((byte_head_iff hb (by decide)).mpr hbracket), otpCode_eq hi, Option.bind_some]
    cases hcode : Cut.markerCode (c :: tail) with
    | none => exact hchar
    | some code =>
        have hlength : byteLength (Piece.otp code).source = 5 + byteLength code + 1 := by
          rw [Piece.source, Utf8.byteLength_append, Utf8.byteLength_append, ← Nat.add_assoc]
          rfl
        dsimp only [Option.map_some]
        rw [taken, hlength, hctx]
        rfl
  · rw [if_neg (mt (byte_head_iff hb (by decide)).mp hbracket), Cut.markerCode_of_ne hbracket]
    exact hchar

/-- A step takes what there is to take. -/
theorem step_eq_some (hi : state.i = byteLength before) :
    state.step (before ++ c :: tail) replace =
      some (state.taken replace (Cut.next state.ctx state.atLineStart c tail)) := by
  obtain ⟨b, hb, hget⟩ := exists_byte hi c tail
  have hchar := copyChar_eq replace hi hb
  have hrest : sliceFrom (before ++ c :: tail) state.i = some (c :: tail) := by
    rw [hi, Utf8.sliceFrom_append]
  cases hctx : state.ctx with
  | text =>
      rw [step, hctx, Cut.next]
      dsimp only
      cases state.atLineStart with
      | false => exact stepInline_eq replace hi hctx
      | true =>
          rw [if_pos rfl, if_pos rfl, hrest, Option.bind_some]
          cases hfence : opensFence (c :: tail) with
          | none => exact stepInline_eq replace hi hctx
          | some fence => exact copyLine_eq replace (c :: tail) _
  | codeSpan opening =>
      rw [hctx] at hchar
      rw [step, hctx, Cut.next, hget]
      dsimp only [Option.bind_some]
      by_cases htick : c = '\x60'
      · rw [if_pos ((byte_head_iff hb (by decide)).mpr htick), if_pos htick,
          copyTicks_eq replace hi, ticks_eq hi]
      · rw [if_neg (mt (byte_head_iff hb (by decide)).mp htick), if_neg htick]
        exact hchar
  | fence fenceChar openingLen =>
      rw [hctx] at hchar
      rw [step, hctx, Cut.next, hget, hrest]
      dsimp only [Option.bind_some]
      cases state.atLineStart with
      | false => exact hchar
      | true =>
          cases hcloses : closesFence fenceChar openingLen (c :: tail) with
          | false => exact hchar
          | true => exact copyLine_eq replace (c :: tail) .text

end Scan

/-! ## A run takes all pieces -/

/-- The pieces that the scanner takes of a text, one after the other. -/
inductive Cuts : ScanCtx → Bool → List Char → List Piece → Prop
  | nil (ctx : ScanCtx) (atLineStart : Bool) : Cuts ctx atLineStart [] []
  | cons {ctx : ScanCtx} {atLineStart : Bool} {c : Char} {tail more : List Char}
      {pieces : List Piece}
      (htext : c :: tail = (Cut.next ctx atLineStart c tail).piece.source ++ more)
      (hmore : Cuts (Cut.next ctx atLineStart c tail).ctx
        (Cut.next ctx atLineStart c tail).atLineStart more pieces) :
      Cuts ctx atLineStart (c :: tail) ((Cut.next ctx atLineStart c tail).piece :: pieces)

namespace Cuts

variable {ctx : ScanCtx} {atLineStart : Bool} {text : List Char} {pieces : List Piece}

/-- The pieces are the text. -/
theorem source_eq (h : Cuts ctx atLineStart text pieces) : pieces.flatMap Piece.source = text := by
  induction h with
  | nil => rfl
  | cons htext _ ih => rw [List.flatMap_cons, ih, ← htext]

/-- Every text is cut into pieces. -/
theorem exists_cuts (ctx : ScanCtx) (atLineStart : Bool) (text : List Char) :
    ∃ pieces, Cuts ctx atLineStart text pieces := by
  induction hlength : text.length using Nat.strongRecOn generalizing ctx atLineStart text with
  | ind length ih =>
      cases text with
      | nil => exact ⟨[], .nil ctx atLineStart⟩
      | cons c tail =>
          obtain ⟨hne, more, hmore⟩ := Cut.fits_next ctx atLineStart c tail
          have hshorter : more.length < length := by
            have hpos := List.length_pos_iff.mpr hne
            rw [← hlength, hmore, List.length_append]
            omega
          obtain ⟨pieces, hpieces⟩ := ih _ hshorter _ _ more rfl
          exact ⟨_, .cons hmore hpieces⟩

/-- There are no more pieces than bytes. -/
theorem length_le (h : Cuts ctx atLineStart text pieces) : pieces.length ≤ byteLength text := by
  induction h with
  | nil => exact Nat.le_refl 0
  | @cons ctx atLineStart c tail more pieces htext hmore ih =>
      have hpos := List.length_pos_iff.mpr (Cut.fits_next ctx atLineStart c tail).1
      have hsource := Utf8.length_le_byteLength (Cut.next ctx atLineStart c tail).piece.source
      rw [htext, Utf8.byteLength_append, List.length_cons]
      omega

/-- The loop puts out what becomes of the pieces. -/
theorem loop_eq (replace : List Char → List Char) (h : Cuts ctx atLineStart text pieces)
    {rounds : ℕ} (hrounds : pieces.length ≤ rounds) (before out : List Char) :
    Scan.loop (before ++ text) replace rounds ⟨out, byteLength before, ctx, atLineStart⟩ =
      some (out ++ pieces.flatMap (Piece.render replace)) := by
  induction h generalizing rounds before out with
  | nil => cases rounds <;> simp [Scan.loop]
  | @cons ctx atLineStart c tail more pieces htext hmore ih =>
      have hbound : byteLength before < byteLength (before ++ c :: tail) := by
        have hpos := c.utf8Size_pos
        rw [Utf8.byteLength_append, Utf8.byteLength_cons]
        omega
      cases rounds with
      | zero => cases hrounds
      | succ rounds =>
          let state : Scan := ⟨out, byteLength before, ctx, atLineStart⟩
          have hstep : state.step (before ++ c :: tail) replace =
              some (state.taken replace (Cut.next ctx atLineStart c tail)) :=
            Scan.step_eq_some replace rfl
          have hloop := ih (Nat.le_of_succ_le_succ hrounds)
            (before ++ (Cut.next ctx atLineStart c tail).piece.source)
            (out ++ (Cut.next ctx atLineStart c tail).piece.render replace)
          rw [List.append_assoc, ← htext, Utf8.byteLength_append, List.append_assoc] at hloop
          rw [Scan.loop, if_pos hbound, hstep, Option.bind_some]
          exact hloop

end Cuts

theorem transformOtp_eq {src : List Char} {pieces : List Piece} (h : Cuts .text true src pieces)
    (replace : List Char → List Char) :
    transformOtp src replace = some (pieces.flatMap (Piece.render replace)) :=
  h.loop_eq replace h.length_le [] []

/-- The states that the loop goes through. -/
inductive Scan.Reachable (src : List Char) (replace : List Char → List Char) : Scan → Prop
  | start : Reachable src replace .start
  | step {state next : Scan} (hstate : Reachable src replace state)
      (hbound : state.i < byteLength src) (hstep : state.step src replace = some next) :
      Reachable src replace next

/-- The position is between two characters. -/
def Scan.OnBoundary (src : List Char) (state : Scan) : Prop :=
  ∃ before rest, src = before ++ rest ∧ state.i = byteLength before

/-- On a boundary before the end, a step takes a piece and moves on to the next boundary. -/
theorem Scan.OnBoundary.step {src : List Char} {state : Scan} (h : state.OnBoundary src)
    (hbound : state.i < byteLength src) (replace : List Char → List Char) :
    ∃ next, state.step src replace = some next ∧ state.i < next.i ∧ next.OnBoundary src := by
  obtain ⟨before, rest, rfl, hi⟩ := h
  cases rest with
  | nil =>
      rw [hi, List.append_nil] at hbound
      exact absurd hbound (lt_irrefl _)
  | cons c tail =>
      obtain ⟨hne, more, hmore⟩ := Cut.fits_next state.ctx state.atLineStart c tail
      refine ⟨_, step_eq_some replace hi, ?_,
        before ++ (Cut.next state.ctx state.atLineStart c tail).piece.source, more, ?_, ?_⟩
      · have hpos := List.length_pos_iff.mpr hne
        have hsource := Utf8.length_le_byteLength
          (Cut.next state.ctx state.atLineStart c tail).piece.source
        exact Nat.lt_add_of_pos_right (hpos.trans_le hsource)
      · rw [List.append_assoc, ← hmore]
      · rw [Utf8.byteLength_append, ← hi]
        rfl

theorem Scan.Reachable.onBoundary {src : List Char} {replace : List Char → List Char}
    {state : Scan} (h : Reachable src replace state) : state.OnBoundary src := by
  induction h with
  | start => exact ⟨[], src, rfl, rfl⟩
  | step _ hbound hstep ih =>
      obtain ⟨next, hnext, -, hboundary⟩ := ih.step hbound replace
      obtain rfl := Option.some.inj (hstep.symm.trans hnext)
      exact hboundary

/-- **The scanner is lossless.**  If markers are replaced by themselves, the text comes back; and
whatever they are replaced by, no slice fails, every round moves on, and the loop ends. -/
theorem transformOtp_lossless (src : List Char) :
    transformOtp src (fun code => Scan.otpStart ++ (code ++ [']'])) = some src ∧
    ∀ replace, (∃ out, transformOtp src replace = some out) ∧
      ∀ state, Scan.Reachable src replace state → state.i < byteLength src →
        ∃ next, state.step src replace = some next ∧ state.i < next.i := by
  obtain ⟨pieces, hpieces⟩ := Cuts.exists_cuts .text true src
  refine ⟨?_, fun replace => ⟨⟨_, transformOtp_eq hpieces replace⟩, ?_⟩⟩
  · have hrender : Piece.render (fun code => Scan.otpStart ++ (code ++ [']'])) = Piece.source := by
      funext piece
      cases piece <;> rfl
    rw [transformOtp_eq hpieces, hrender, hpieces.source_eq]
  · intro state hstate hbound
    obtain ⟨next, hnext, hlt, -⟩ := hstate.onBoundary.step hbound replace
    exact ⟨next, hnext, hlt⟩

end Modo.Email
