import Modo.Email.MarkdownCalls

/-!
# Piecewise rendering

What `markdown_to_html` writes is compared with what one call of `push_html` writes, event by
event.

* `compares_piece`: two pieces are the same, or differ behind a `<`, or only the call writes one,
  so that nothing is made up for later.
* `Sync` is the invariant: within the call of a link, either the whole link is in the alternative
  text of an image, or both renderers are at the same place.
* `markdownToHtml_eq_pushHtml_iff`: the two are equal when every event finds its call in the state
  that the whole stream would be in.
-/

namespace Modo.Email

open Marked (Marks Compares)
open Modo.Sanitize (escapeHtml)

variable {Kind : Type*}

section Pieces

variable {writers : Writers Kind}

/-! ## What the pieces have in common -/

/-- What the renderer is relied on for: texts that depend on what is remembered begin with a `<`,
as tags do, and their beginnings can be told apart; alternative text is escaped. -/
structure Writers.Marked (writers : Writers Kind) : Prop where
  cell : Marks '<' fun cell : TableState × Alignment => writers.cell cell.1 cell.2
  cellEnd : Marks '<' writers.cellEnd
  link : ∀ destUrl title, Marks '<' fun isEmail => writers.link isEmail destUrl title
  definition : ∀ name, Marks '<' (writers.definition name)
  reference : ∀ name, Marks '<' (writers.reference name)
  image : ∀ destUrl, (writers.image destUrl).head? = some '<'
  imageEnd : ∀ title, (writers.imageEnd title).head? = some '"'
  altReference : ∀ number, ∀ c ∈ writers.altReference number, c ≠ '<' ∧ c ≠ '"'
  altEvent : ∀ event, ∀ c ∈ writers.altEvent event, c ≠ '<' ∧ c ≠ '"'

theorem Writers.Marked.rawText (hmarked : writers.Marked) (writer : HtmlWriter)
    (events : List (Event Kind)) : ∀ c ∈ writer.rawText writers events, c ≠ '<' ∧ c ≠ '"' := by
  induction events generalizing writer with
  | nil => intro c hc; cases hc
  | cons event rest ih =>
      intro c hc
      rw [HtmlWriter.rawText] at hc
      split at hc
      · cases hc
      · rcases List.mem_append.mp hc with hc | hc
        · unfold HtmlWriter.writeAlt at hc
          split at hc
          · cases hc
          · cases hc
          · exact hmarked.altReference _ c hc
          · exact hmarked.altEvent _ c hc
        · exact ih (writer.next event) c hc

/-- An image can be told apart from the same image with another alternative text. -/
theorem Writers.Marked.compares_image (hmarked : writers.Marked) (destUrl title : List Char)
    {alt alt' : List Char} (halt : ∀ c ∈ alt, c ≠ '<' ∧ c ≠ '"')
    (halt' : ∀ c ∈ alt', c ≠ '<' ∧ c ≠ '"') :
    Compares '<' (writers.image destUrl ++ alt ++ writers.imageEnd title)
      (writers.image destUrl ++ alt' ++ writers.imageEnd title) := by
  obtain ⟨tail, htail⟩ := List.head?_eq_some_iff.mp (hmarked.imageEnd title)
  have hmarks : Marks '<' fun text : {text : List Char // ∀ c ∈ text, c ≠ '<' ∧ c ≠ '"'} =>
      writers.image destUrl ++ text.1 ++ '"' :: tail := by
    refine .of_field Subtype.val_injective (fun text hmem => (text.2 _ hmem).2 rfl) ?_
      (hmarked.image destUrl) tail
    intro text text'
    rw [List.count_eq_zero.mpr fun hmem => (text.2 _ hmem).1 rfl,
      List.count_eq_zero.mpr fun hmem => (text'.2 _ hmem).1 rfl]
  rw [htail]
  exact hmarks.compares ⟨alt, halt⟩ ⟨alt', halt'⟩

/-- Two renderers outside of images, where the first leaves out what the second does. -/
theorem compares_write (hmarked : writers.Marked) {whole own : HtmlWriter}
    (hwriting : own.inNonWritingBlock = true → whole.inNonWritingBlock = true)
    (event : Event Kind) :
    Compares '<' (whole.write writers event) (own.write writers event) := by
  unfold HtmlWriter.write
  split
  · exact hmarked.cell.compares (whole.tableState, whole.alignment) (own.tableState, own.alignment)
  · exact hmarked.cellEnd.compares _ _
  · exact .same _
  · exact (hmarked.definition _).compares _ _
  · exact (hmarked.reference _).compares _ _
  · split
    · exact .lost _
    · rw [if_neg (fun hown => by simp_all)]
      exact .same _
  · exact .same _

/-! ## Going side by side -/

/-- Both renderers are at the same place, outside of an image or within the same. -/
def Aligned (whole own : HtmlWriter) : Prop :=
  own.nest = whole.nest ∧ (own.inNonWritingBlock = true → whole.inNonWritingBlock = true)

/-- Within the call of a link, the whole link is in the alternative text of an image, or the
renderers are at the same place. -/
def Sync (opened : List (TagEnd Kind)) (position : Position) : Prop :=
  ∀ own, position.call = some own →
    (∃ nest, position.whole.nest = some nest ∧ .link ∈ opened.take nest) ∨
      Aligned position.whole own

theorem Aligned.next {whole own : HtmlWriter} (haligned : Aligned whole own)
    (event : Event Kind) : Aligned (whole.next event) (own.next event) := by
  obtain ⟨state, alignments, index, numbers, writing, nest⟩ := whole
  obtain ⟨state', alignments', index', numbers', writing', nest'⟩ := own
  obtain ⟨rfl, hwriting⟩ := haligned
  cases nest' with
  | some nest =>
      cases event with
      | close tagEnd => cases nest <;> exact ⟨rfl, hwriting⟩
      | _ => exact ⟨rfl, hwriting⟩
  | none =>
      cases event with
      | start tag => cases tag <;> first | exact ⟨rfl, hwriting⟩ | exact ⟨rfl, fun _ => rfl⟩
      | close tagEnd => cases tagEnd <;> first | exact ⟨rfl, hwriting⟩ | exact ⟨rfl, id⟩
      | _ => exact ⟨rfl, hwriting⟩

/-- What contains the link is not left before the link is. -/
theorem exists_nest_next {opened : List (TagEnd Kind)} {event : Event Kind}
    {rest : List (Event Kind)} (hbalanced : Balanced opened (event :: rest))
    (hevent : event ≠ .close .link) {whole : HtmlWriter} {nest : ℕ}
    (hnest : whole.nest = some nest) (hlink : .link ∈ opened.take nest) :
    ∃ nest', (whole.next event).nest = some nest' ∧
      .link ∈ (openedAfter opened event).take nest' := by
  obtain ⟨state, alignments, index, numbers, writing, _⟩ := whole
  obtain rfl : _ = some nest := hnest
  cases event with
  | start tag =>
      refine ⟨nest + 1, rfl, ?_⟩
      rw [openedAfter, List.take_succ_cons]
      exact List.mem_cons_of_mem _ hlink
  | close tagEnd =>
      have htop := hbalanced.rest.2 tagEnd rfl
      cases nest with
      | zero => cases hlink
      | succ nest =>
          refine ⟨nest, rfl, ?_⟩
          rw [htop, List.take_succ_cons, List.mem_cons] at hlink
          rcases hlink with rfl | hlink
          · exact absurd rfl hevent
          · exact hlink
  | text text => exact ⟨nest, rfl, hlink⟩
  | code text => exact ⟨nest, rfl, hlink⟩
  | footnoteReference name => exact ⟨nest, rfl, hlink⟩
  | other kind => exact ⟨nest, rfl, hlink⟩

theorem Sync.next {opened : List (TagEnd Kind)} {position : Position} {event : Event Kind}
    {rest : List (Event Kind)} (hsync : Sync opened position)
    (hbalanced : Balanced opened (event :: rest)) :
    Sync (openedAfter opened event) (position.next writers event) := by
  intro own hown
  obtain ⟨whole, call⟩ := position
  unfold Position.next at hown ⊢
  dsimp only at hown ⊢
  split at hown
  · -- a link begins
    cases hown
    cases hnest : whole.nest with
    | some nest =>
        refine .inl ⟨nest + 1, ?_, List.mem_cons_self⟩
        simp [HtmlWriter.next, hnest]
    | none =>
        refine .inr ⟨?_, fun hwriting => by cases hwriting⟩
        simp [HtmlWriter.next, hnest, HtmlWriter.new]
  · cases hown
  · cases hown
  · rename_i own' hevent
    cases hown
    rcases hsync own' rfl with ⟨nest, hnest, hlink⟩ | haligned
    · exact .inl (exists_nest_next hbalanced (fun heq => hevent heq) hnest hlink)
    · exact .inr (haligned.next event)

/-- The event is written alike: it is in no alternative text unless its call writes nothing
there, a cell and a footnote have the state that their call has, an image has the alternative
text that its call gives it, a link that is put together anew is not of type `Email`, and text in
a metadata block is left out by the call too, or is written as nothing. -/
def KeptAt (writers : Writers Kind) (position : Position) (event : Event Kind)
    (rest : List (Event Kind)) : Prop :=
  let whole := position.whole
  let own := position.own writers
  match whole.nest, event with
  | some _, _ => position.ownPiece writers event rest = []
  | none, .start .tableCell =>
      own.tableState = whole.tableState ∧ own.alignment = whole.alignment
  | none, .close .tableCell => own.tableState = whole.tableState
  | none, .start (.link linkType _ _ _) => linkType = .email → position.call ≠ none
  | none, .start (.image ..) =>
      (own.next event).rawText writers (position.callRest rest) =
        (whole.next event).rawText writers rest
  | none, .start (.footnoteDefinition name) => own.number name = whole.number name
  | none, .footnoteReference name => own.number name = whole.number name
  | none, .text text => whole.inNonWritingBlock = true →
      own.inNonWritingBlock = true ∨ writers.event (.text text) = []
  | none, _ => True

/-- All events are written alike. -/
def Kept (writers : Writers Kind) (position : Position) : List (Event Kind) → Prop
  | [] => True
  | event :: rest =>
      KeptAt writers position event rest ∧ Kept writers (position.next writers event) rest

theorem Sync.aligned_own (writers : Writers Kind) {opened : List (TagEnd Kind)}
    {position : Position}
    (hsync : Sync opened position) (hnest : position.whole.nest = none) :
    Aligned position.whole (position.own writers) := by
  obtain ⟨whole, call⟩ := position
  cases call with
  | none => exact ⟨hnest.symm, fun hwriting => by cases hwriting⟩
  | some own =>
      rcases hsync own rfl with ⟨nest, hsome, -⟩ | haligned
      · exact absurd (hsome.symm.trans hnest) (Option.some_ne_none nest)
      · exact haligned

theorem piece_of_not_image {writer : HtmlWriter} {event : Event Kind}
    (hnest : writer.nest = none)
    (himage : ∀ linkType destUrl title id, event ≠ .start (.image linkType destUrl title id))
    (rest : List (Event Kind)) : writer.piece writers event rest = writer.write writers event := by
  unfold HtmlWriter.piece
  rw [hnest]
  split
  · rename_i heq
    cases heq
  · exact absurd rfl (himage _ _ _ _)
  · rfl

theorem piece_image {writer : HtmlWriter} (hnest : writer.nest = none) (linkType : LinkType)
    (destUrl title id : List Char) (rest : List (Event Kind)) :
    writer.piece writers (.start (.image linkType destUrl title id)) rest =
      writers.image destUrl ++
        (writer.next (.start (.image linkType destUrl title id) : Event Kind)).rawText writers
          rest ++ writers.imageEnd title := by
  unfold HtmlWriter.piece
  rw [hnest]

theorem pushed_eq_self {position : Position} {event : Event Kind}
    (hlink : ∀ linkType destUrl title id, event ≠ .start (.link linkType destUrl title id)) :
    position.pushed event = event := by
  unfold Position.pushed
  split
  · exact absurd rfl (hlink _ _ _ _)
  · rfl

/-- Other events are written alike when they find the same state. -/
theorem write_eq_iff (hmarked : writers.Marked) {position : Position}
    (hnest : position.whole.nest = none)
    (hwriting : (position.own writers).inNonWritingBlock = true →
      position.whole.inNonWritingBlock = true) {event : Event Kind} (rest : List (Event Kind))
    (hlink : ∀ linkType destUrl title id, event ≠ .start (.link linkType destUrl title id))
    (himage : ∀ linkType destUrl title id, event ≠ .start (.image linkType destUrl title id)) :
    position.whole.write writers event = (position.own writers).write writers event ↔
      KeptAt writers position event rest := by
  simp only [KeptAt, hnest]
  cases event with
  | start tag =>
      cases tag with
      | tableCell =>
          have hcell := hmarked.cell.eq_iff
            (x := (position.whole.tableState, position.whole.alignment))
            (y := ((position.own writers).tableState, (position.own writers).alignment))
          rw [Prod.mk.injEq] at hcell
          simpa only [HtmlWriter.write, eq_comm] using hcell
      | link linkType destUrl title id => exact absurd rfl (hlink _ _ _ _)
      | image linkType destUrl title id => exact absurd rfl (himage _ _ _ _)
      | footnoteDefinition name =>
          rw [HtmlWriter.write, HtmlWriter.write, (hmarked.definition name).eq_iff, eq_comm]
      | _ => exact iff_of_true rfl trivial
  | close tagEnd =>
      cases tagEnd with
      | tableCell => rw [HtmlWriter.write, HtmlWriter.write, hmarked.cellEnd.eq_iff, eq_comm]
      | _ => exact iff_of_true rfl trivial
  | footnoteReference name =>
      rw [HtmlWriter.write, HtmlWriter.write, (hmarked.reference name).eq_iff, eq_comm]
  | text text =>
      rw [HtmlWriter.write, HtmlWriter.write]
      -- text is only written outside the blocks that are read for their metadata
      cases hwhole : position.whole.inNonWritingBlock with
      | true =>
          rw [if_pos rfl]
          cases hown : (position.own writers).inNonWritingBlock with
          | true => exact iff_of_true rfl fun _ => .inl rfl
          | false =>
              rw [if_neg Bool.false_ne_true, eq_comm]
              simp
      | false =>
          have hown : (position.own writers).inNonWritingBlock = false := by
            by_contra hown
            rw [Bool.not_eq_false] at hown
            rw [hwriting hown] at hwhole
            cases hwhole
          rw [hown]
          simp
  | _ => exact iff_of_true rfl trivial

/-- A link that is pushed as it is, or put together anew. -/
theorem compares_link (hmarked : writers.Marked) {position : Position}
    (hnest : position.whole.nest = none) (hown : (position.own writers).nest = none)
    (linkType : LinkType) (destUrl title id : List Char) (rest : List (Event Kind)) :
    let event : Event Kind := .start (.link linkType destUrl title id)
    Compares '<' (position.whole.piece writers event rest)
        (position.ownPiece writers event rest) ∧
      (position.whole.piece writers event rest = position.ownPiece writers event rest ↔
        KeptAt writers position event rest) := by
  intro event
  have hwhole : position.whole.piece writers event rest =
      writers.link (decide (linkType = .email)) destUrl title :=
    piece_of_not_image hnest (fun _ _ _ _ => by simp [event]) rest
  have hkept : KeptAt writers position event rest ↔
      (linkType = .email → position.call ≠ none) := by
    simp only [KeptAt, hnest, event]
  rw [hwhole, hkept]
  obtain ⟨whole, call⟩ := position
  cases call with
  | none =>
      have hpiece : (⟨whole, none⟩ : Position).ownPiece writers event rest =
          writers.link false destUrl title := by
        rw [Position.ownPiece, piece_of_not_image hown (fun _ _ _ _ heq => by cases heq)]
        rfl
      rw [hpiece, (hmarked.link destUrl title).eq_iff]
      refine ⟨(hmarked.link destUrl title).compares _ _, ?_⟩
      simp
  | some own =>
      have hpiece : (⟨whole, some own⟩ : Position).ownPiece writers event rest =
          writers.link (decide (linkType = .email)) destUrl title := by
        rw [Position.ownPiece, piece_of_not_image hown (fun _ _ _ _ heq => by cases heq)]
        rfl
      rw [hpiece]
      exact ⟨.same _, iff_of_true rfl fun _ => Option.some_ne_none own⟩

/-- An image with the alternative text of the stream and with that of its call. -/
theorem compares_image (hmarked : writers.Marked) {position : Position}
    (hnest : position.whole.nest = none) (hown : (position.own writers).nest = none)
    (linkType : LinkType) (destUrl title id : List Char) (rest : List (Event Kind)) :
    let event : Event Kind := .start (.image linkType destUrl title id)
    Compares '<' (position.whole.piece writers event rest)
        (position.ownPiece writers event rest) ∧
      (position.whole.piece writers event rest = position.ownPiece writers event rest ↔
        KeptAt writers position event rest) := by
  intro event
  have hkept : KeptAt writers position event rest ↔
      ((position.own writers).next event).rawText writers (position.callRest rest) =
        (position.whole.next event).rawText writers rest := by
    simp only [KeptAt, hnest, event]
  rw [Position.ownPiece, pushed_eq_self (fun _ _ _ _ => by simp [event]), piece_image hnest,
    piece_image hown, hkept]
  refine ⟨hmarked.compares_image destUrl title (hmarked.rawText _ _) (hmarked.rawText _ _), ?_⟩
  rw [List.append_cancel_right_eq, List.append_cancel_left_eq, eq_comm]

/-- A piece of the whole stream and the piece that the call writes. -/
theorem compares_piece (hmarked : writers.Marked) {opened : List (TagEnd Kind)}
    {position : Position} (hsync : Sync opened position) (event : Event Kind)
    (rest : List (Event Kind)) :
    Compares '<' (position.whole.piece writers event rest)
        (position.ownPiece writers event rest) ∧
      (position.whole.piece writers event rest = position.ownPiece writers event rest ↔
        KeptAt writers position event rest) := by
  cases hnest : position.whole.nest with
  | some nest =>
      have hpiece : position.whole.piece writers event rest = [] := by
        unfold HtmlWriter.piece
        rw [hnest]
      have hkept : KeptAt writers position event rest ↔
          position.ownPiece writers event rest = [] := by
        simp only [KeptAt, hnest]
      rw [hpiece, hkept]
      exact ⟨.lost _, eq_comm⟩
  | none =>
      obtain ⟨hown, hwriting⟩ := hsync.aligned_own writers hnest
      rw [hnest] at hown
      by_cases hlink : ∃ linkType destUrl title id,
          event = .start (.link linkType destUrl title id)
      · obtain ⟨linkType, destUrl, title, id, rfl⟩ := hlink
        exact compares_link hmarked hnest hown linkType destUrl title id rest
      by_cases himage : ∃ linkType destUrl title id,
          event = .start (.image linkType destUrl title id)
      · obtain ⟨linkType, destUrl, title, id, rfl⟩ := himage
        exact compares_image hmarked hnest hown linkType destUrl title id rest
      have himage' : ∀ linkType destUrl title id,
          event ≠ .start (.image linkType destUrl title id) :=
        fun linkType destUrl title id heq => himage ⟨linkType, destUrl, title, id, heq⟩
      have hlink' : ∀ linkType destUrl title id,
          event ≠ .start (.link linkType destUrl title id) :=
        fun linkType destUrl title id heq => hlink ⟨linkType, destUrl, title, id, heq⟩
      rw [Position.ownPiece, pushed_eq_self hlink', piece_of_not_image hnest himage',
        piece_of_not_image hown himage']
      exact ⟨compares_write hmarked hwriting event,
        write_eq_iff hmarked hnest hwriting rest hlink' himage'⟩

theorem compares_pairs (hmarked : writers.Marked) {opened : List (TagEnd Kind)}
    {position : Position} (hsync : Sync opened position) {events : List (Event Kind)}
    (hbalanced : Balanced opened events) :
    (∀ pair ∈ position.pairs writers events, Compares '<' pair.1 pair.2) ∧
      ((∀ pair ∈ position.pairs writers events, pair.1 = pair.2) ↔
        Kept writers position events) := by
  induction events generalizing opened position with
  | nil =>
      have hnil : ∀ {P : List Char × List Char → Prop},
          ∀ pair ∈ position.pairs writers [], P pair :=
        fun pair hmem => by cases hmem
      exact ⟨hnil, iff_of_true hnil trivial⟩
  | cons event rest ih =>
      obtain ⟨hcompares, heq⟩ := compares_piece hmarked hsync event rest
      obtain ⟨hall, hkept⟩ := ih (hsync.next hbalanced) hbalanced.rest.1
      rw [Position.pairs, List.forall_mem_cons, List.forall_mem_cons, Kept, hkept, heq]
      exact ⟨⟨hcompares, hall⟩, Iff.rfl⟩

end Pieces

/--
For events that are balanced and have no button: what `markdown_to_html` writes is what one call
of `push_html` writes, line breaks aside, if and only if every event is written alike in both.
-/
theorem markdownToHtml_eq_pushHtml_iff (writers : Writers Kind) (brandColor : Option (List Char))
    (events : List (Event Kind)) (hmarked : writers.Marked) (hbalanced : Balanced [] events)
    (hbuttons : NoButtons events) :
    markdownToHtml writers brandColor events = pushHtml writers events ↔
      Kept writers ⟨.new writers, none⟩ events := by
  have hsync : Sync ([] : List (TagEnd Kind)) ⟨.new writers, none⟩ := by
    intro own hown
    cases hown
  obtain ⟨hcompares, hkept⟩ := compares_pairs hmarked hsync hbalanced
  rw [← hkept, ← Marked.forall_eq_of_flatten_eq hcompares, firsts_pairs,
    seconds_pairs brandColor hbalanced hbuttons, markdownToHtml, pushHtml, eq_comm]

/-! ## Two streams -/

/-- What the renderer writes for the tags and events below; a kind is the name of an element. -/
def htmlWriters : Writers (List Char) where
  tableState := .head
  cell state alignment := "<t".toList ++ (if state = .head then ['h'] else ['d']) ++
    match alignment with
    | .none => ">".toList
    | .left => " style=\"text-align: left\">".toList
    | .center => " style=\"text-align: center\">".toList
    | .right => " style=\"text-align: right\">".toList
  cellEnd state := "</t".toList ++ (if state = .head then ['h'] else ['d']) ++ ">".toList
  link isEmail destUrl title := "<a href=\"".toList ++
    ((if isEmail then "mailto:".toList else []) ++ escapeHtml destUrl) ++
      '"' :: (if title = [] then ">".toList
        else " title=\"".toList ++ escapeHtml title ++ "\">".toList)
  image destUrl := "<img src=\"".toList ++ escapeHtml destUrl ++ "\" alt=\"".toList
  imageEnd title :=
    '"' :: (if title = [] then " />".toList
      else " title=\"".toList ++ escapeHtml title ++ "\" />".toList)
  definition name number := ("<div class=\"footnote-definition\" id=\"".toList ++
    escapeHtml name ++ "\"><sup class=\"footnote-definition-label\">".toList) ++
      Nat.toDigits 10 number ++ '<' :: "/sup>".toList
  reference name number := ("<sup class=\"footnote-reference\"><a href=\"#".toList ++
    escapeHtml name ++ "\">".toList) ++ Nat.toDigits 10 number ++ '<' :: "/a></sup>".toList
  event
    | .start (.other name) => '<' :: name ++ ">".toList
    | .start (.table _) => "<table>".toList
    | .start .tableHead => "<thead><tr>".toList
    | .start .tableRow => "<tr>".toList
    | .start _ => []
    | .close (.other name) => "</".toList ++ name ++ ">".toList
    | .close .table => "</tbody></table>".toList
    | .close .tableHead => "</tr></thead><tbody>".toList
    | .close .tableRow => "</tr>".toList
    | .close .link => "</a>".toList
    | .close .footnoteDefinition => "</div>".toList
    | .close _ => []
    | .text text => escapeHtml text
    | .code text => "<code>".toList ++ escapeHtml text ++ "</code>".toList
    | .footnoteReference _ => []
    | .other name => '<' :: name ++ " />".toList
  altReference number := "[".toList ++ Nat.toDigits 10 number ++ "]".toList
  altEvent
    | .text text => escapeHtml text
    | .code text => escapeHtml text
    | _ => " ".toList

theorem escapeHtml_plain (text : List Char) : ∀ c ∈ escapeHtml text, c ≠ '<' ∧ c ≠ '"' := by
  intro c hc
  rw [Sanitize.escapeHtml_eq, List.mem_flatMap] at hc
  obtain ⟨d, -, hd⟩ := hc
  unfold Sanitize.escapeChar at hd
  split_ifs at hd <;> simp only [List.mem_cons, List.not_mem_nil, or_false] at hd
  · rcases hd with rfl | rfl | rfl | rfl | rfl <;> decide
  · rcases hd with rfl | rfl | rfl | rfl <;> decide
  · rcases hd with rfl | rfl | rfl | rfl <;> decide
  · rcases hd with rfl | rfl | rfl | rfl | rfl | rfl <;> decide
  · subst hd
    exact ⟨‹_›, ‹_›⟩

theorem toDigits_plain (number : ℕ) : ∀ c ∈ Nat.toDigits 10 number, c ≠ '<' ∧ c ≠ '"' := by
  intro c hc
  have hdigit : c.isDigit = true := Nat.isDigit_of_mem_toDigits (by decide) (by decide) hc
  constructor
  · rintro rfl
    exact absurd hdigit (by decide)
  · rintro rfl
    exact absurd hdigit (by decide)

theorem toDigits_injective : Function.Injective (Nat.toDigits 10) := by
  intro m n heq
  rw [← Nat.ofDigitChars_ten_toDigits (n := m), heq, Nat.ofDigitChars_ten_toDigits]

theorem count_eq_zero_of_plain {text : List Char} (htext : ∀ c ∈ text, c ≠ '<' ∧ c ≠ '"') :
    text.count '<' = 0 :=
  List.count_eq_zero.mpr fun hmem => (htext _ hmem).1 rfl

/-- Texts that differ in a number. -/
theorem marks_number (before tail : List Char) (hbefore : before.head? = some '<') :
    Marks '<' fun number => before ++ Nat.toDigits 10 number ++ '<' :: tail :=
  .of_field toDigits_injective (fun number hmem => (toDigits_plain number _ hmem).1 rfl)
    (fun first second => by
      rw [count_eq_zero_of_plain (toDigits_plain first),
        count_eq_zero_of_plain (toDigits_plain second)])
    hbefore tail

theorem htmlWriters_marked : htmlWriters.Marked where
  cell := by
    constructor
    · intro cell
      rfl
    · rintro ⟨state, alignment⟩ ⟨state', alignment'⟩
      cases state <;> cases alignment <;> cases state' <;> cases alignment' <;> decide
    · rintro ⟨state, alignment⟩ ⟨state', alignment'⟩
      cases state <;> cases alignment <;> cases state' <;> cases alignment' <;> decide
  cellEnd := by
    constructor
    · intro state
      rfl
    · intro state state'
      cases state <;> cases state' <;> decide
    · intro state state'
      cases state <;> cases state' <;> decide
  link destUrl title := by
    have hplain : ∀ isEmail : Bool, ∀ c ∈ (if isEmail then "mailto:".toList else []) ++
        escapeHtml destUrl, c ≠ '<' ∧ c ≠ '"' := by
      intro isEmail c hc
      rcases List.mem_append.mp hc with hc | hc
      · cases isEmail with
        | false => cases hc
        | true => exact (by decide : ∀ c ∈ "mailto:".toList, c ≠ '<' ∧ c ≠ '"') c hc
      · exact escapeHtml_plain destUrl c hc
    refine .of_field ?_ (fun isEmail hmem => (hplain isEmail _ hmem).2 rfl) ?_ rfl _
    · intro first second heq
      have hlength := congrArg List.length heq
      cases first <;> cases second <;> simp at hlength ⊢ <;> omega
    · intro first second
      rw [count_eq_zero_of_plain (hplain first), count_eq_zero_of_plain (hplain second)]
  definition name := marks_number _ _ rfl
  reference name := marks_number _ _ rfl
  image destUrl := rfl
  imageEnd title := rfl
  altReference number c hc := by
    rcases List.mem_append.mp hc with hc | hc
    · rcases List.mem_append.mp hc with hc | hc
      · exact (by decide : ∀ c ∈ "[".toList, c ≠ '<' ∧ c ≠ '"') c hc
      · exact toDigits_plain number c hc
    · exact (by decide : ∀ c ∈ "]".toList, c ≠ '<' ∧ c ≠ '"') c hc
  altEvent event c hc := by
    cases event with
    | text text => exact escapeHtml_plain text c hc
    | code text => exact escapeHtml_plain text c hc
    | _ => exact (by decide : ∀ c ∈ " ".toList, c ≠ '<' ∧ c ≠ '"') c hc

/-- A paragraph with a link around text and an image. -/
def linkedLogo : List (Event (List Char)) :=
  [.start (.other ['p']), .text "Our site: ".toList,
    .start (.link .inline "https://example.com".toList [] []), .text "home ".toList,
    .start (.image .inline "logo.png".toList [] []), .text "logo".toList, .close .image,
    .close .link, .close (.other ['p'])]

/-- Images within links are written alike. -/
theorem linkedLogo_alike :
    markdownToHtml htmlWriters none linkedLogo = pushHtml htmlWriters linkedLogo := by
  refine (markdownToHtml_eq_pushHtml_iff htmlWriters none linkedLogo htmlWriters_marked
    ?_ ?_).mpr ?_
  · simp [linkedLogo, Balanced, Tag.toEnd]
  · exact ⟨by decide, trivial⟩
  · simp only [linkedLogo, Kept]
    exact ⟨trivial, fun h => absurd h Bool.false_ne_true, fun h => absurd h (by decide),
      fun h => absurd h Bool.false_ne_true, rfl, rfl, rfl, trivial, trivial, trivial⟩

/-- A table with one cell in its head and one in its body. -/
def smallTable : List (Event (List Char)) :=
  [.start (.table [.none]), .start .tableHead, .start .tableCell, .text ['a'], .close .tableCell,
    .close .tableHead, .start .tableRow, .start .tableCell, .text ['b'], .close .tableCell,
    .close .tableRow, .close .table]

/-- The cell of the body is written as one of the head. -/
theorem smallTable_mistaken :
    Balanced [] smallTable ∧ NoButtons smallTable ∧
    markdownToHtml htmlWriters none smallTable =
      ("<table><thead><tr><th>a</th></tr></thead><tbody>" ++
        "<tr><th>b</th></tr></tbody></table>").toList ∧
    pushHtml htmlWriters smallTable =
      ("<table><thead><tr><th>a</th></tr></thead><tbody>" ++
        "<tr><td>b</td></tr></tbody></table>").toList ∧
    markdownToHtml htmlWriters none smallTable ≠ pushHtml htmlWriters smallTable := by
  have hconvert : markdownToHtml htmlWriters none smallTable =
      ("<table><thead><tr><th>a</th></tr></thead><tbody>" ++
        "<tr><th>b</th></tr></tbody></table>").toList := by decide
  have hpush : pushHtml htmlWriters smallTable =
      ("<table><thead><tr><th>a</th></tr></thead><tbody>" ++
        "<tr><td>b</td></tr></tbody></table>").toList := by decide
  refine ⟨by simp [smallTable, Balanced, Tag.toEnd], trivial, hconvert, hpush, ?_⟩
  rw [hconvert, hpush]
  decide

end Modo.Email
