import Modo.Email.Markdown
import Modo.Lib.Marked

/-!
# The calls of the renderer

The renderer of the whole stream and the renderer of the call that an event is pushed in go
through the events side by side (`Position`), and `Position.pairs` is what both write at each.

`firsts_pairs` and `seconds_pairs`: the pieces of the one are those of `push_html`, and the pieces
of the other are those of the loop, when no link is a button and all links are closed.
-/

namespace Modo.Email

variable {Kind : Type*}

/-! ## The texts of links -/

theorem dropPrefix?_append {start text rest : List Char} (more : List Char)
    (hrest : text.dropPrefix? start = some rest) :
    (text ++ more).dropPrefix? start = some (rest ++ more) := by
  obtain ⟨written, htext, hstart⟩ := List.dropPrefix?_eq_some_iff.mp hrest
  exact List.dropPrefix?_eq_some_iff.mpr ⟨written, by rw [htext, List.append_assoc], hstart⟩

/-- A button stays one when its text goes on. -/
theorem parseButton_append {text : List Char} (more : List Char)
    (hsome : parseButton text ≠ none) : parseButton (text ++ more) ≠ none := by
  obtain ⟨button, hbutton⟩ := Option.ne_none_iff_exists'.mp hsome
  rw [parseButton, Option.bind_eq_some_iff] at hbutton
  obtain ⟨rest, hrest, hbutton⟩ := hbutton
  rw [parseButton, dropPrefix?_append more hrest, Option.bind_some]
  cases hbar : rest.dropPrefix? ['|'] with
  | some label =>
      rw [hbar] at hbutton
      dsimp only at hbutton
      by_cases hlabel : label = []
      · rw [if_pos hlabel] at hbutton
        cases hbutton
      · rw [dropPrefix?_append more hbar]
        dsimp only
        rw [if_neg (List.append_ne_nil_of_left_ne_nil hlabel more)]
        exact Option.some_ne_none _
  | none =>
      rw [hbar] at hbutton
      obtain ⟨typed, htyped, hbutton⟩ := Option.bind_eq_some_iff.mp hbutton
      obtain ⟨⟨name, label⟩, hsplit, hbutton⟩ := Option.bind_eq_some_iff.mp hbutton
      obtain ⟨hname, hnot⟩ := Utf8.splitOnce_eq_some.mp hsplit
      -- the first bar is that of the shorter text
      have hsplit' : Utf8.splitOnce '|' (typed ++ more) = some (name, label ++ more) :=
        Utf8.splitOnce_eq_some.mpr ⟨by rw [hname, List.append_assoc, List.cons_append], hnot⟩
      have hbar' : (rest ++ more).dropPrefix? ['|'] = none := by
        obtain ⟨written, rfl, hwritten⟩ := List.dropPrefix?_eq_some_iff.mp htyped
        obtain rfl : written = [':'] := eq_of_beq hwritten
        rfl
      dsimp only at hbutton
      by_cases hlabel : label = []
      · rw [if_pos hlabel] at hbutton
        cases hbutton
      · rw [if_neg hlabel, Option.map_eq_some_iff] at hbutton
        obtain ⟨type, htype, -⟩ := hbutton
        rw [hbar', dropPrefix?_append more htyped]
        dsimp only
        rw [Option.bind_some, hsplit', Option.bind_some]
        dsimp only
        rw [if_neg (List.append_ne_nil_of_left_ne_nil hlabel more), htype]
        exact Option.some_ne_none _

/-- The text that is collected for a link is where its own text begins. -/
theorem fullText_prefix_linkText (inner : List (TagEnd Kind)) {opened : List (TagEnd Kind)}
    {body after : List (Event Kind)} (hbody : .close .link ∉ body)
    (hbalanced : Balanced (inner ++ .link :: opened) (body ++ .close .link :: after)) :
    fullText body <+: linkText inner.length (body ++ .close .link :: after) := by
  induction body generalizing inner with
  | nil => exact List.nil_prefix
  | cons event body ih =>
      obtain ⟨hevent, hrest⟩ := not_or.mp (mt List.mem_cons.mpr hbody)
      cases event with
      | start tag =>
          have hinner : Balanced ((tag.toEnd :: inner) ++ .link :: opened)
            (body ++ .close .link :: after) := hbalanced
          exact ih (tag.toEnd :: inner) hrest hinner
      | close tagEnd =>
          cases inner with
          | nil =>
              obtain ⟨rfl, -⟩ := hbalanced
              exact absurd rfl hevent
          | cons first inner => exact ih inner hrest hbalanced.2
      | text text => exact (List.prefix_append_right_inj text).mpr (ih inner hrest hbalanced)
      | code text => exact (List.prefix_append_right_inj text).mpr (ih inner hrest hbalanced)
      | footnoteReference name => exact ih inner hrest hbalanced
      | other kind => exact ih inner hrest hbalanced

/-- The tags that are open behind an event. -/
def openedAfter (opened : List (TagEnd Kind)) : Event Kind → List (TagEnd Kind)
  | .start tag => tag.toEnd :: opened
  | .close _ => opened.tail
  | _ => opened

theorem Balanced.rest {opened : List (TagEnd Kind)} {event : Event Kind}
    {rest : List (Event Kind)} (hbalanced : Balanced opened (event :: rest)) :
    Balanced (openedAfter opened event) rest ∧
      ∀ tagEnd, event = .close tagEnd → opened = tagEnd :: opened.tail := by
  cases event with
  | close tagEnd =>
      cases opened with
      | nil => exact absurd hbalanced id
      | cons first opened =>
          obtain ⟨rfl, hrest⟩ := hbalanced
          refine ⟨hrest, fun other heq => ?_⟩
          obtain rfl : tagEnd = other := Event.close.inj heq
          rfl
  | start tag => exact ⟨hbalanced, fun _ heq => by cases heq⟩
  | text text => exact ⟨hbalanced, fun _ heq => by cases heq⟩
  | code text => exact ⟨hbalanced, fun _ heq => by cases heq⟩
  | footnoteReference name => exact ⟨hbalanced, fun _ heq => by cases heq⟩
  | other kind => exact ⟨hbalanced, fun _ heq => by cases heq⟩

/-- Only its end closes a link. -/
theorem link_mem_openedAfter {opened : List (TagEnd Kind)} {event : Event Kind}
    {rest : List (Event Kind)} (hbalanced : Balanced opened (event :: rest))
    (hevent : event ≠ .close .link) (hopened : .link ∈ opened) :
    .link ∈ openedAfter opened event := by
  cases event with
  | close tagEnd =>
      have htop := hbalanced.rest.2 tagEnd rfl
      rw [htop, List.mem_cons] at hopened
      rcases hopened with rfl | hmem
      · exact absurd rfl hevent
      · exact hmem
  | start tag => exact List.mem_cons_of_mem _ hopened
  | text text => exact hopened
  | code text => exact hopened
  | footnoteReference name => exact hopened
  | other kind => exact hopened

/-- An open link is closed. -/
theorem exists_linkEnd {opened : List (TagEnd Kind)} {events : List (Event Kind)}
    (hbalanced : Balanced opened events) (hopened : .link ∈ opened) :
    ∃ body after outer, events = body ++ .close .link :: after ∧ .close .link ∉ body ∧
      Balanced outer after := by
  induction events generalizing opened with
  | nil =>
      obtain rfl : opened = [] := hbalanced
      cases hopened
  | cons event rest ih =>
      by_cases hevent : event = .close .link
      · exact ⟨[], rest, _, hevent ▸ rfl, List.not_mem_nil, hbalanced.rest.1⟩
      · obtain ⟨body, after, outer, rfl, hbody, hafter⟩ :=
          ih hbalanced.rest.1 (link_mem_openedAfter hbalanced hevent hopened)
        refine ⟨event :: body, after, outer, rfl, ?_, hafter⟩
        rw [List.mem_cons, not_or]
        exact ⟨Ne.symm hevent, hbody⟩

/-! ## The calls side by side -/

/-- The renderer of the whole stream, and that of the call that the link is pushed in, if the
event is within a link. -/
structure Position where
  whole : HtmlWriter
  call : Option HtmlWriter

section Pieces

variable (writers : Writers Kind)

/-- The events of a link, up to its end. -/
def untilLinkEnd : List (Event Kind) → List (Event Kind)
  | [] => []
  | .close .link :: _ => [.close .link]
  | event :: rest => event :: untilLinkEnd rest

namespace Position

/-- The renderer that the event is pushed to. -/
def own (position : Position) : HtmlWriter := position.call.getD (.new writers)

/-- The event as it is pushed: the link that begins a call is put together anew. -/
def pushed (position : Position) (event : Event Kind) : Event Kind :=
  match position.call, event with
  | none, .start (.link _ destUrl title _) => .start (.link .inline destUrl title [])
  | _, _ => event

/-- The events that are pushed behind it in the same call. -/
def callRest (position : Position) (rest : List (Event Kind)) : List (Event Kind) :=
  match position.call with
  | none => []
  | some _ => untilLinkEnd rest

/-- What the call writes at the event. -/
def ownPiece (position : Position) (event : Event Kind) (rest : List (Event Kind)) : List Char :=
  (position.own writers).piece writers (position.pushed event) (position.callRest rest)

/-- The position behind the event. -/
def next (position : Position) (event : Event Kind) : Position where
  whole := position.whole.next event
  call :=
    match position.call, event with
    | none, .start (.link ..) => some (.new writers)
    | none, _ => none
    | some _, .close .link => none
    | some own, _ => some (own.next event)

/-- What both write at each of the events. -/
def pairs (position : Position) : List (Event Kind) → List (List Char × List Char)
  | [] => []
  | event :: rest =>
      (position.whole.piece writers event rest, position.ownPiece writers event rest) ::
        (position.next writers event).pairs rest

end Position

variable {writers}

theorem firsts_pairs (position : Position) (events : List (Event Kind)) :
    Marked.firsts (position.pairs writers events) =
      (position.whole.pieces writers events).flatten := by
  rw [Marked.firsts]
  congr 1
  induction events generalizing position with
  | nil => rfl
  | cons event rest ih => exact congrArg _ (ih (position.next writers event))

theorem untilLinkEnd_append {body : List (Event Kind)} (hbody : .close .link ∉ body)
    (after : List (Event Kind)) :
    untilLinkEnd (body ++ .close .link :: after) = body ++ [.close .link] := by
  induction body with
  | nil => rfl
  | cons event body ih =>
      obtain ⟨hevent, hrest⟩ := not_or.mp (mt List.mem_cons.mpr hbody)
      rw [List.cons_append, untilLinkEnd, ih hrest, List.cons_append]
      exact fun heq => hevent heq.symm

/-- A link is written in one call. -/
theorem pairs_link (writers : Writers Kind) {body : List (Event Kind)} (hbody : .close .link ∉ body)
    (after : List (Event Kind)) (whole own : HtmlWriter) :
    ∃ whole', ((⟨whole, some own⟩ : Position).pairs writers
        (body ++ .close .link :: after)).map Prod.snd =
      own.pieces writers (body ++ [.close .link]) ++
        ((⟨whole', none⟩ : Position).pairs writers after).map Prod.snd := by
  induction body generalizing whole own with
  | nil =>
      refine ⟨whole.next (.close .link : Event Kind), ?_⟩
      cases hnest : own.nest <;>
        simp [Position.pairs, Position.ownPiece, Position.own, Position.pushed, Position.next,
          HtmlWriter.pieces, HtmlWriter.piece, hnest]
  | cons event body ih =>
      obtain ⟨hevent, hrest⟩ := not_or.mp (mt List.mem_cons.mpr hbody)
      obtain ⟨whole', hpairs⟩ := ih hrest (whole.next event) (own.next event)
      refine ⟨whole', ?_⟩
      have hnext : (⟨whole, some own⟩ : Position).next writers event =
          ⟨whole.next event, some (own.next event)⟩ := by
        simp [Position.next, Ne.symm hevent]
      rw [List.cons_append, Position.pairs, List.map_cons, hnext, hpairs, List.cons_append,
        HtmlWriter.pieces, Position.ownPiece, Position.callRest, untilLinkEnd_append hrest]
      rfl

theorem NoButtons.rest {event : Event Kind} {rest : List (Event Kind)}
    (hbuttons : NoButtons (event :: rest)) : NoButtons rest := by
  unfold NoButtons at hbuttons
  split at hbuttons
  · trivial
  · rename_i heq
    obtain ⟨-, rfl⟩ := List.cons.inj heq
    exact hbuttons.2
  · rename_i heq
    obtain ⟨-, rfl⟩ := List.cons.inj heq
    exact hbuttons

theorem NoButtons.of_append {before after : List (Event Kind)}
    (hbuttons : NoButtons (before ++ after)) : NoButtons after := by
  induction before with
  | nil => exact hbuttons
  | cons event before ih => exact ih hbuttons.rest

/-- The loop collects the events of a link. -/
theorem convert_link {brandColor : Option (List Char)} {body : List (Event Kind)}
    (hbody : .close .link ∉ body) (after : List (Event Kind)) (buffer : LinkBuffer Kind) :
    convert writers brandColor (some buffer) (body ++ .close .link :: after) =
      LinkBuffer.flush writers brandColor { buffer with events := buffer.events ++ body } ++
        convert writers brandColor none after := by
  induction body generalizing buffer with
  | nil => rw [List.nil_append, convert, List.append_nil]
  | cons event body ih =>
      obtain ⟨hevent, hrest⟩ := not_or.mp (mt List.mem_cons.mpr hbody)
      rw [List.cons_append, convert, ih hrest]
      · simp
      · exact fun heq => hevent heq.symm

/-- Without buttons, the loop writes what its calls write. -/
theorem seconds_pairs (brandColor : Option (List Char)) {opened : List (TagEnd Kind)}
    {events : List (Event Kind)} (hbalanced : Balanced opened events)
    (hbuttons : NoButtons events) (whole : HtmlWriter) :
    Marked.seconds ((⟨whole, none⟩ : Position).pairs writers events) =
      convert writers brandColor none events := by
  induction hlength : events.length using Nat.strong_induction_on
    generalizing events opened whole with
  | h length ih =>
      cases events with
      | nil => rfl
      | cons event rest =>
          rw [Marked.seconds, Position.pairs, List.map_cons, List.flatten_cons]
          by_cases hlink : ∃ linkType destUrl title id,
              event = .start (.link linkType destUrl title id)
          · obtain ⟨linkType, destUrl, title, id, rfl⟩ := hlink
            obtain ⟨body, after, outer, rfl, hbody, hafter⟩ :=
              exists_linkEnd hbalanced.rest.1 List.mem_cons_self
            have hbutton : parseButton (fullText body) = none := by
              obtain ⟨more, hmore⟩ := fullText_prefix_linkText [] hbody hbalanced.rest.1
              by_contra hsome
              exact parseButton_append more hsome (hmore ▸ hbuttons.1)
            obtain ⟨whole', hpairs⟩ := pairs_link writers hbody after
              (whole.next (.start (.link linkType destUrl title id) : Event Kind)) (.new writers)
            have hafter' := ih after.length (by rw [← hlength]; simp; omega) hafter
              hbuttons.rest.of_append.rest whole' rfl
            rw [Marked.seconds] at hafter'
            rw [convert, convert_link hbody, LinkBuffer.flush, List.nil_append, hbutton, ← hafter']
            have hnext : (⟨whole, none⟩ : Position).next writers
                (.start (.link linkType destUrl title id)) =
                  ⟨whole.next (.start (.link linkType destUrl title id) : Event Kind),
                    some (.new writers)⟩ := rfl
            rw [hnext, hpairs, List.flatten_append, ← List.append_assoc]
            rfl
          · -- the event is a call of its own
            have hpushed : (⟨whole, none⟩ : Position).pushed event = event := by
              unfold Position.pushed
              split
              · exact absurd ⟨_, _, _, _, rfl⟩ hlink
              · rfl
            have hnext : (⟨whole, none⟩ : Position).next writers event =
                ⟨whole.next event, none⟩ := by
              unfold Position.next
              congr 1
              split
              · exact absurd ⟨_, _, _, _, rfl⟩ hlink
              all_goals trivial
            have hrest := ih rest.length (by rw [← hlength]; simp) hbalanced.rest.1
              hbuttons.rest (whole.next event) rfl
            rw [Marked.seconds] at hrest
            rw [hnext, hrest, Position.ownPiece, hpushed, convert]
            · simp [pushHtml, HtmlWriter.pieces, Position.own, Position.callRest]
            · exact fun linkType destUrl title id heq => hlink ⟨linkType, destUrl, title, id, heq⟩

end Pieces

end Modo.Email
