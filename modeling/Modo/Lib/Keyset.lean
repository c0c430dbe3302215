import Mathlib.Data.List.Flatten
import Mathlib.Data.List.Sort
import Mathlib.Order.Basic

/-!
# Keyset pagination

A `Pager` reads the rows of a table page by page.  A request carries a cursor
that stands for a row of an earlier page; its answer are the rows whose key lies
beyond that row, in the order of their keys, cut off after `size` rows.  A page
says whether rows were cut off (`hasMore`) and which cursor to send next.

`Walk` is a sequence of requests, each sending the cursor of the page before it.
The table may be another one at every request.  `Faithful` says what a cursor is
good for: it stands for the row it was taken from, and the rows without a cursor
are those with an absent key, which lie beyond no cursor.

Two results are proved about walks.  When the keys are present and pairwise
distinct, the rows come in strictly increasing order and a finished walk has
returned every row that was there all the time (`Walk.strictMono`,
`Walk.mem_returned`).  On a table that does not change, whatever its keys, the
walks are complete exactly when no page ends inside a group of equal keys, at an
absent key or before one (`walks_complete_iff`).
-/

namespace Keyset

variable {Row Cursor Key : Type*}

/-! ## Pages and walks -/

/-- The answer to one request. -/
structure Page (Row Cursor : Type*) where
  items : List Row
  nextCursor : Option Cursor
  hasMore : Bool
  deriving DecidableEq

/-- A request of a walk: the table it found and the page it was answered with. -/
structure Visit (Row Cursor : Type*) where
  table : List Row
  page : Page Row Cursor

/-- The requests of a walk, where `serves table after page` says that `page` is a
possible answer to the cursor `after`. -/
inductive Walk (serves : List Row → Option Cursor → Page Row Cursor → Prop) :
    Option Cursor → List (Visit Row Cursor) → Prop
  | nil (after : Option Cursor) : Walk serves after []
  | last {table : List Row} {after : Option Cursor} {page : Page Row Cursor}
      (hserves : serves table after page) (hmore : page.hasMore = false) :
      Walk serves after [⟨table, page⟩]
  | more {table : List Row} {after : Option Cursor} {page : Page Row Cursor}
      {rest : List (Visit Row Cursor)} (hserves : serves table after page)
      (hmore : page.hasMore = true) (hrest : Walk serves page.nextCursor rest) :
      Walk serves after (⟨table, page⟩ :: rest)

/-- The walk has come to a page after which there is no other. -/
def Finished (visits : List (Visit Row Cursor)) : Prop :=
  ∃ visit ∈ visits, visit.page.hasMore = false

/-- The rows of all pages. -/
def returned (visits : List (Visit Row Cursor)) : List Row :=
  visits.flatMap fun visit => visit.page.items

/-- No page but the last one leaves the reader without a cursor. -/
def NeverRestarts (visits : List (Visit Row Cursor)) : Prop :=
  ∀ visit ∈ visits, visit.page.hasMore = true → visit.page.nextCursor.isSome

/-- Every request found the same table. -/
def Unchanged (table : List Row) (visits : List (Visit Row Cursor)) : Prop :=
  ∀ visit ∈ visits, visit.table = table

@[simp] theorem returned_nil : returned ([] : List (Visit Row Cursor)) = [] := rfl

@[simp] theorem returned_cons (visit : Visit Row Cursor) (rest : List (Visit Row Cursor)) :
    returned (visit :: rest) = visit.page.items ++ returned rest := by
  simp [returned]

theorem mem_returned {visits : List (Visit Row Cursor)} {row : Row} :
    row ∈ returned visits ↔ ∃ visit ∈ visits, row ∈ visit.page.items := by
  simp [returned]

theorem not_finished_nil : ¬ Finished ([] : List (Visit Row Cursor)) := by
  simp [Finished]

theorem finished_cons_of_more {visit : Visit Row Cursor} {rest : List (Visit Row Cursor)}
    (hmore : visit.page.hasMore = true) : Finished (visit :: rest) ↔ Finished rest := by
  simp [Finished, hmore]

theorem Walk.exists_serves {serves : List Row → Option Cursor → Page Row Cursor → Prop}
    {after : Option Cursor} {visits : List (Visit Row Cursor)} (hwalk : Walk serves after visits)
    {visit : Visit Row Cursor} (hvisit : visit ∈ visits) :
    ∃ cursor, serves visit.table cursor visit.page := by
  induction hwalk with
  | nil after => simp at hvisit
  | last hserves hmore =>
      obtain rfl := List.mem_singleton.mp hvisit
      exact ⟨_, hserves⟩
  | more hserves hmore hrest ih =>
      rcases List.mem_cons.mp hvisit with rfl | hvisit
      · exact ⟨_, hserves⟩
      · exact ih hvisit

theorem Walk.imp {serves serves' : List Row → Option Cursor → Page Row Cursor → Prop}
    (himp : ∀ table after page, serves table after page → serves' table after page)
    {after : Option Cursor} {visits : List (Visit Row Cursor)} (hwalk : Walk serves after visits) :
    Walk serves' after visits := by
  induction hwalk with
  | nil after => exact .nil after
  | last hserves hmore => exact .last (himp _ _ _ hserves) hmore
  | more hserves hmore hrest ih => exact .more (himp _ _ _ hserves) hmore ih

/-- When every request is answered, a walk that is not finished goes on. -/
theorem Walk.exists_next {serves : List Row → Option Cursor → Page Row Cursor → Prop}
    {table : List Row} (hserves : ∀ after, ∃ page, serves table after page)
    {after : Option Cursor} {visits : List (Visit Row Cursor)} (hwalk : Walk serves after visits)
    (hfinished : ¬ Finished visits) :
    ∃ page, Walk serves after (visits ++ [⟨table, page⟩]) := by
  induction hwalk with
  | nil after =>
      obtain ⟨page, hpage⟩ := hserves after
      refine ⟨page, ?_⟩
      cases hmore : page.hasMore with
      | false => exact .last hpage hmore
      | true => exact .more hpage hmore (.nil _)
  | last hpage hmore => exact absurd ⟨_, List.mem_singleton_self _, hmore⟩ hfinished
  | more hpage hmore hrest ih =>
      obtain ⟨page, hwalk⟩ := ih ((finished_cons_of_more hmore).not.mp hfinished)
      exact ⟨page, .more hpage hmore hwalk⟩

/-- Walks of bounded length come to an end. -/
theorem exists_finished {serves : List Row → Option Cursor → Page Row Cursor → Prop}
    {table : List Row} (hserves : ∀ after, ∃ page, serves table after page) {bound : ℕ}
    (hbound : ∀ visits, Walk serves none visits → Unchanged table visits →
      visits.length ≤ bound) :
    ∃ visits, Walk serves none visits ∧ Unchanged table visits ∧ Finished visits := by
  by_contra hnone
  have hlong : ∀ n, ∃ visits, Walk serves none visits ∧ Unchanged table visits ∧
      visits.length = n := by
    intro n
    induction n with
    | zero => exact ⟨[], .nil none, by simp [Unchanged], rfl⟩
    | succ n ih =>
        obtain ⟨visits, hwalk, hunchanged, hlength⟩ := ih
        have hfinished : ¬ Finished visits := fun h => hnone ⟨visits, hwalk, hunchanged, h⟩
        obtain ⟨page, hnext⟩ := hwalk.exists_next hserves hfinished
        refine ⟨_, hnext, ?_, by simp [hlength]⟩
        intro visit hvisit
        rcases List.mem_append.mp hvisit with hold | hnew
        · exact hunchanged visit hold
        · rw [List.mem_singleton.mp hnew]
  obtain ⟨visits, hwalk, hunchanged, hlength⟩ := hlong (bound + 1)
  have hle := hbound visits hwalk hunchanged
  omega

/-! ## Pagers -/

/-- A query read page by page. -/
structure Pager (Row Cursor Key : Type*) where
  /-- The rows the query is about. -/
  keep : Row → Bool
  /-- What the rows are ordered by. -/
  key : Row → Key
  /-- A key that compares with no cursor. -/
  absent : Key → Bool
  /-- The row lies beyond the cursor. -/
  beyond : Cursor → Row → Bool
  /-- The cursor that a page ending with the row hands out. -/
  cursorOf : Row → Option Cursor
  /-- The rows of a full page, `none` when pages have no limit. -/
  size : Option ℕ
  size_pos : ∀ n ∈ size, 0 < n

namespace Pager

variable (pager : Pager Row Cursor Key)

/-- The rows of the query. -/
def kept (table : List Row) : List Row := table.filter pager.keep

/-- The rows of the query that lie beyond the cursor of a request. -/
def admitted (table : List Row) (after : Option Cursor) : List Row :=
  (pager.kept table).filter fun row => after.all (pager.beyond · row)

/-- The cursor stands for the row. -/
def Stands [LT Key] (row : Row) (cursor : Cursor) : Prop :=
  ∀ other, pager.beyond cursor other = true ↔
    pager.key row < pager.key other ∧ pager.absent (pager.key other) = false

/-- Rows with a key have a cursor that stands for them, the others have none. -/
def Faithful [LT Key] (table : List Row) : Prop :=
  ∀ row ∈ pager.kept table,
    (pager.absent (pager.key row) = true → pager.cursorOf row = none) ∧
    (pager.absent (pager.key row) = false →
      ∃ cursor, pager.cursorOf row = some cursor ∧ pager.Stands row cursor)

/-- `page` shows the first rows of an ordered answer, and `rest` were cut off. -/
structure Cuts [LE Key] (table : List Row) (after : Option Cursor) (page : Page Row Cursor)
    (rest : List Row) : Prop where
  perm : (page.items ++ rest).Perm (pager.admitted table after)
  sorted : (page.items ++ rest).Pairwise fun a b => pager.key a ≤ pager.key b
  hasMore_iff : page.hasMore = true ↔ rest ≠ []
  length_le : ∀ n ∈ pager.size, page.items.length ≤ n
  full : page.hasMore = true → pager.size = some page.items.length
  nextCursor_eq : page.nextCursor =
    if page.hasMore then page.items.getLast?.bind pager.cursorOf else none

/-- `page` is a possible answer to a request. -/
def Serves [LE Key] (table : List Row) (after : Option Cursor) (page : Page Row Cursor) : Prop :=
  ∃ rest, pager.Cuts table after page rest

variable {pager}

theorem mem_admitted {table : List Row} {after : Option Cursor} {row : Row} :
    row ∈ pager.admitted table after ↔
      row ∈ pager.kept table ∧ ∀ cursor ∈ after, pager.beyond cursor row = true := by
  cases after <;> simp [admitted]

end Pager

variable [LinearOrder Key] {pager : Pager Row Cursor Key}

/-! ## One page -/

namespace Pager

namespace Cuts

variable {table rest : List Row} {after : Option Cursor} {page : Page Row Cursor}

theorem mem_admitted (hcuts : pager.Cuts table after page rest) {row : Row}
    (hrow : row ∈ page.items) : row ∈ pager.admitted table after :=
  hcuts.perm.subset (List.mem_append_left _ hrow)

/-- A page that is not the last one ends with a row, whose cursor it hands out. -/
theorem exists_last (hcuts : pager.Cuts table after page rest) (hmore : page.hasMore = true) :
    ∃ init last, page.items = init ++ [last] ∧ page.nextCursor = pager.cursorOf last ∧
      (∀ row ∈ page.items, pager.key row ≤ pager.key last) ∧
      ∀ row ∈ rest, pager.key last ≤ pager.key row := by
  have hne : page.items ≠ [] := by
    have hpos := pager.size_pos _ (hcuts.full hmore)
    exact List.ne_nil_of_length_pos hpos
  obtain ⟨init, last, hitems⟩ : ∃ init last, page.items = init ++ [last] :=
    ⟨_, _, (List.dropLast_append_getLast hne).symm⟩
  have hsorted := hcuts.sorted
  rw [List.pairwise_append] at hsorted
  obtain ⟨hwithin, -, hacross⟩ := hsorted
  refine ⟨init, last, hitems, ?_, ?_, ?_⟩
  · rw [hcuts.nextCursor_eq, hmore, if_pos rfl, hitems, List.getLast?_concat, Option.bind_some]
  · rw [hitems, List.pairwise_append] at hwithin
    intro row hrow
    rw [hitems, List.mem_append, List.mem_singleton] at hrow
    rcases hrow with hrow | rfl
    · exact hwithin.2.2 row hrow last (List.mem_singleton_self last)
    · exact le_refl _
  · intro row hrow
    exact hacross last (by simp [hitems]) row hrow

/-- The cursor a page hands out stands for its last row. -/
theorem stands_of_nextCursor (hcuts : pager.Cuts table after page rest)
    (hfaithful : pager.Faithful table) (hmore : page.hasMore = true) {cursor : Cursor}
    (hnext : page.nextCursor = some cursor) :
    ∃ init last, page.items = init ++ [last] ∧ pager.absent (pager.key last) = false ∧
      pager.Stands last cursor ∧ (∀ row ∈ page.items, pager.key row ≤ pager.key last) ∧
      ∀ row ∈ rest, pager.key last ≤ pager.key row := by
  obtain ⟨init, last, hitems, hcursor, hle, hge⟩ := hcuts.exists_last hmore
  have hkept : last ∈ pager.kept table :=
    (Pager.mem_admitted.mp (hcuts.mem_admitted (by simp [hitems]))).1
  obtain ⟨habsent, hpresent⟩ := hfaithful last hkept
  rw [hcursor] at hnext
  cases hlast : pager.absent (pager.key last) with
  | true => simp [habsent hlast] at hnext
  | false =>
      obtain ⟨found, hfound, hstands⟩ := hpresent hlast
      rw [hnext, Option.some.injEq] at hfound
      exact ⟨init, last, hitems, hlast, hfound ▸ hstands, hle, hge⟩

/-- Distinct keys put the answer in strict order. -/
theorem strictlySorted (hcuts : pager.Cuts table after page rest)
    (hdistinct : (table.map pager.key).Nodup) :
    (page.items ++ rest).Pairwise fun row other => pager.key row < pager.key other := by
  have hsublist : (pager.admitted table after).Sublist table :=
    List.filter_sublist.trans List.filter_sublist
  have hnodup : ((page.items ++ rest).map pager.key).Nodup :=
    (hcuts.perm.map pager.key).nodup_iff.mpr (hdistinct.sublist (hsublist.map pager.key))
  refine (hcuts.sorted.and (List.pairwise_map.mp hnodup)).imp ?_
  rintro row other ⟨hle, hne⟩
  exact lt_of_le_of_ne hle hne

end Cuts

/-- The page made of an ordered answer. -/
def pageOf (pager : Pager Row Cursor Key) (answer : List Row) : Page Row Cursor :=
  match pager.size with
  | none => ⟨answer, none, false⟩
  | some n => ⟨answer.take n, if n < answer.length then
      (answer.take n).getLast?.bind pager.cursorOf else none, decide (n < answer.length)⟩

/-- The pages that serve a request are those made of its ordered answers. -/
theorem serves_iff {table : List Row} {after : Option Cursor} {page : Page Row Cursor} :
    pager.Serves table after page ↔
      ∃ answer : List Row, answer.Perm (pager.admitted table after) ∧
        answer.Pairwise (fun a b => pager.key a ≤ pager.key b) ∧ page = pager.pageOf answer := by
  constructor
  · rintro ⟨rest, hcuts⟩
    refine ⟨page.items ++ rest, hcuts.perm, hcuts.sorted, ?_⟩
    obtain ⟨items, nextCursor, hasMore⟩ := page
    have hnext := hcuts.nextCursor_eq
    -- a page without more is the whole answer
    have hrest : hasMore = false → rest = [] := by
      intro hmore
      by_contra hne
      exact absurd (hmore.symm.trans (hcuts.hasMore_iff.mpr hne)) Bool.false_ne_true
    unfold pageOf
    cases hmore : hasMore with
    | false =>
        subst hmore
        rw [hrest rfl, List.append_nil]
        cases hsize : pager.size with
        | none => simpa using hnext
        | some n =>
            have hle : items.length ≤ n := hcuts.length_le n hsize
            simpa [List.take_of_length_le hle, not_lt_of_ge hle] using hnext
    | true =>
        subst hmore
        have hfull : pager.size = some items.length := hcuts.full rfl
        have hpos : 0 < rest.length := List.length_pos_iff.mpr (hcuts.hasMore_iff.mp rfl)
        simpa [hfull, hpos] using hnext
  · rintro ⟨answer, hperm, hsorted, rfl⟩
    unfold pageOf
    cases hsize : pager.size with
    | none =>
        refine ⟨[], ?_, ?_, by simp, by simp [hsize], by simp, by simp⟩
        · simpa using hperm
        · simpa using hsorted
    | some n =>
        refine ⟨answer.drop n, ?_, ?_, by simp, ?_, ?_, by simp⟩
        · simpa using hperm
        · simpa using hsorted
        · intro m hm
          rw [hsize, Option.mem_some_iff] at hm
          simp [← hm]
        · intro hmore
          have hlength : n < answer.length := by simpa using hmore
          simp [hsize, hlength.le]

/-- Every request has an answer. -/
theorem exists_serves (pager : Pager Row Cursor Key) (table : List Row) (after : Option Cursor) :
    ∃ page, pager.Serves table after page := by
  have : Std.Total fun a b : Row => pager.key a ≤ pager.key b := ⟨fun a b => le_total _ _⟩
  have : IsTrans Row fun a b => pager.key a ≤ pager.key b := ⟨fun a b c => le_trans⟩
  refine ⟨_, serves_iff.mpr ⟨(pager.admitted table after).insertionSort
    fun a b => pager.key a ≤ pager.key b, ?_, ?_, rfl⟩⟩
  · exact List.perm_insertionSort _ _
  · exact List.pairwise_insertionSort _ _

end Pager

/-! ## Walks -/

namespace Walk

variable {after : Option Cursor} {visits : List (Visit Row Cursor)}

/-- Every page lies beyond the pages before it and beyond the row the walk
started from. -/
theorem increasing (hwalk : Walk pager.Serves after visits)
    (hfaithful : ∀ visit ∈ visits, pager.Faithful visit.table)
    (hnever : NeverRestarts visits) :
    visits.Pairwise (fun first second => ∀ row ∈ first.page.items, ∀ other ∈ second.page.items,
      pager.key row < pager.key other) ∧
    ∀ cursor ∈ after, ∀ start, pager.Stands start cursor → ∀ row ∈ returned visits,
      pager.key start < pager.key row ∧ pager.absent (pager.key row) = false := by
  induction hwalk with
  | nil after => simp
  | last hserves hmore =>
      obtain ⟨rest, hcuts⟩ := hserves
      refine ⟨List.pairwise_singleton _ _, ?_⟩
      intro cursor hcursor start hstart row hrow
      rw [returned_cons, returned_nil, List.append_nil] at hrow
      exact (hstart row).mp ((Pager.mem_admitted.mp (hcuts.mem_admitted hrow)).2 cursor hcursor)
  | @more table after page later hserves hmore hlater ih =>
      obtain ⟨rest, hcuts⟩ := hserves
      obtain ⟨hpairwise, hbeyond⟩ := ih
        (fun visit hvisit => hfaithful visit (List.mem_cons_of_mem _ hvisit))
        (fun visit hvisit => hnever visit (List.mem_cons_of_mem _ hvisit))
      obtain ⟨next, hnext⟩ :=
        Option.isSome_iff_exists.mp (hnever _ List.mem_cons_self hmore)
      obtain ⟨init, last, hitems, -, hstands, hle, -⟩ :=
        hcuts.stands_of_nextCursor (hfaithful _ List.mem_cons_self) hmore hnext
      -- what follows lies beyond the last row of this page, and its other rows lie before
      have hlast := hbeyond next hnext last hstands
      constructor
      · rw [List.pairwise_cons]
        refine ⟨?_, hpairwise⟩
        intro visit hvisit row hrow other hother
        have hlater := hlast other (mem_returned.mpr ⟨visit, hvisit, hother⟩)
        exact lt_of_le_of_lt (hle row hrow) hlater.1
      · intro cursor hcursor start hstart row hrow
        have hadmitted : ∀ row ∈ page.items, pager.key start < pager.key row ∧
            pager.absent (pager.key row) = false := by
          intro row hrow
          exact (hstart row).mp
            ((Pager.mem_admitted.mp (hcuts.mem_admitted hrow)).2 cursor hcursor)
        rw [returned_cons, List.mem_append] at hrow
        rcases hrow with hrow | hrow
        · exact hadmitted row hrow
        · have hstart := (hadmitted last (by simp [hitems])).1
          exact ⟨hstart.trans (hlast row hrow).1, (hlast row hrow).2⟩

/-- The rows of every page are rows of the query in the table it found. -/
theorem mem_kept (hwalk : Walk pager.Serves after visits) {visit : Visit Row Cursor}
    (hvisit : visit ∈ visits) {row : Row} (hrow : row ∈ visit.page.items) :
    row ∈ pager.kept visit.table := by
  obtain ⟨cursor, rest, hcuts⟩ := hwalk.exists_serves hvisit
  exact (Pager.mem_admitted.mp (hcuts.mem_admitted hrow)).1

/-- Each page is ordered by its keys. -/
theorem sorted_items (hwalk : Walk pager.Serves after visits) {visit : Visit Row Cursor}
    (hvisit : visit ∈ visits) :
    visit.page.items.Pairwise fun row other => pager.key row ≤ pager.key other := by
  obtain ⟨cursor, rest, hcuts⟩ := hwalk.exists_serves hvisit
  exact (List.pairwise_append.mp hcuts.sorted).1

/-- A relation that holds within the pages and along the keys holds for all rows
of a walk. -/
theorem pairwise_returned {r : Row → Row → Prop} (hwalk : Walk pager.Serves after visits)
    (hfaithful : ∀ visit ∈ visits, pager.Faithful visit.table) (hnever : NeverRestarts visits)
    (hwithin : ∀ visit ∈ visits, visit.page.items.Pairwise r)
    (hlt : ∀ row other, pager.key row < pager.key other → r row other) :
    (returned visits).Pairwise r := by
  rw [returned, List.pairwise_flatMap]
  refine ⟨hwithin, (hwalk.increasing hfaithful hnever).1.imp ?_⟩
  intro first second hfirst row hrow other hother
  exact hlt row other (hfirst row hrow other hother)

/-! ### Distinct keys in a table that changes -/

section Distinct

variable (hwalk : Walk pager.Serves after visits)
  (hfaithful : ∀ visit ∈ visits, pager.Faithful visit.table)
  (hdistinct : ∀ visit ∈ visits, (visit.table.map pager.key).Nodup)
  (hpresent : ∀ visit ∈ visits, ∀ row ∈ visit.table, pager.absent (pager.key row) = false)
include hwalk hfaithful hdistinct hpresent

omit hdistinct in
theorem neverRestarts : NeverRestarts visits := by
  intro visit hvisit hmore
  obtain ⟨cursor, rest, hcuts⟩ := hwalk.exists_serves hvisit
  obtain ⟨init, last, hitems, hnext, -, -⟩ := hcuts.exists_last hmore
  have hkept : last ∈ pager.kept visit.table := hwalk.mem_kept hvisit (by simp [hitems])
  have hlast := hpresent visit hvisit last (List.mem_of_mem_filter hkept)
  obtain ⟨found, hfound, -⟩ := (hfaithful visit hvisit last hkept).2 hlast
  rw [hnext, hfound, Option.isSome_some]

/-- The rows of a walk come in strictly increasing order. -/
theorem strictMono :
    (returned visits).Pairwise fun row other => pager.key row < pager.key other := by
  refine hwalk.pairwise_returned hfaithful (hwalk.neverRestarts hfaithful hpresent) ?_
    fun row other hlt => hlt
  intro visit hvisit
  obtain ⟨cursor, rest, hcuts⟩ := hwalk.exists_serves hvisit
  exact (hcuts.strictlySorted (hdistinct visit hvisit)).sublist (List.sublist_append_left _ _)

/-- A finished walk has returned every row that was there all the time and lies
beyond the cursor it started from. -/
theorem mem_returned {row : Row} (hrow : ∀ visit ∈ visits, row ∈ pager.kept visit.table)
    (hbeyond : ∀ cursor ∈ after, pager.beyond cursor row = true) (hfinished : Finished visits) :
    row ∈ returned visits := by
  induction hwalk with
  | nil after => exact absurd hfinished not_finished_nil
  | last hserves hmore =>
      obtain ⟨rest, hcuts⟩ := hserves
      have hmem := hcuts.perm.symm.subset
        (Pager.mem_admitted.mpr ⟨hrow _ List.mem_cons_self, hbeyond⟩)
      have hrest : rest = [] := by
        by_contra hne
        rw [hcuts.hasMore_iff.mpr hne] at hmore
        exact Bool.noConfusion hmore
      simpa [hrest] using hmem
  | @more table after page later hserves hmore hlater ih =>
      obtain ⟨rest, hcuts⟩ := hserves
      have hhead := List.mem_cons_self (a := (⟨table, page⟩ : Visit Row Cursor)) (l := later)
      have hmem := hcuts.perm.symm.subset
        (Pager.mem_admitted.mpr ⟨hrow _ hhead, hbeyond⟩)
      rw [returned_cons, List.mem_append]
      rcases List.mem_append.mp hmem with hshown | hcut
      · exact Or.inl hshown
      -- a row that was cut off lies beyond the cursor of the page
      · right
        have hwalk' : Walk pager.Serves after (⟨table, page⟩ :: later) :=
          .more ⟨rest, hcuts⟩ hmore hlater
        have hnever := hwalk'.neverRestarts hfaithful hpresent
        obtain ⟨next, hnext⟩ := Option.isSome_iff_exists.mp (hnever _ hhead hmore)
        obtain ⟨init, last, hitems, -, hstands, -, -⟩ :=
          hcuts.stands_of_nextCursor (hfaithful _ hhead) hmore hnext
        refine ih ?_ ?_ ?_ ?_ ?_ ((finished_cons_of_more hmore).mp hfinished)
        · exact fun visit hvisit => hfaithful visit (List.mem_cons_of_mem _ hvisit)
        · exact fun visit hvisit => hdistinct visit (List.mem_cons_of_mem _ hvisit)
        · exact fun visit hvisit => hpresent visit (List.mem_cons_of_mem _ hvisit)
        · exact fun visit hvisit => hrow visit (List.mem_cons_of_mem _ hvisit)
        · intro cursor hcursor
          obtain rfl : next = cursor := Option.some.inj (hnext.symm.trans hcursor)
          have hstrict := hcuts.strictlySorted (hdistinct _ hhead)
          rw [List.pairwise_append] at hstrict
          exact (hstands row).mpr ⟨hstrict.2.2 last (by simp [hitems]) row hcut,
            hpresent _ hhead row (List.mem_of_mem_filter (hrow _ hhead))⟩

end Distinct

end Walk

/-! ### Any keys in a table that does not change -/

/-- The keys of the rows a request selects, in order. -/
def Pager.sortedKeys (pager : Pager Row Cursor Key) (table : List Row) (after : Option Cursor) :
    List Key :=
  ((pager.admitted table after).map pager.key).insertionSort (· ≤ ·)

/-- Pages of `n` keys can be continued: all keys after a page lie strictly beyond
its last key, and none of these keys is absent. -/
def Pager.Continues (pager : Pager Row Cursor Key) (n : ℕ) (keys : List Key) : Prop :=
  ∀ pages, 0 < pages → pages * n < keys.length →
    ∃ last, keys[pages * n - 1]? = some last ∧ pager.absent last = false ∧
      ∀ key ∈ keys.drop (pages * n), last < key ∧ pager.absent key = false

/-- An ordered answer has the sorted keys. -/
theorem Pager.map_key_eq_sortedKeys {table answer : List Row} {after : Option Cursor}
    (hperm : answer.Perm (pager.admitted table after))
    (hsorted : answer.Pairwise fun a b => pager.key a ≤ pager.key b) :
    answer.map pager.key = pager.sortedKeys table after := by
  refine List.Perm.eq_of_pairwise' (r := (· ≤ ·)) (List.pairwise_map.mpr hsorted)
    (List.pairwise_insertionSort _ _) ?_
  exact (hperm.map pager.key).trans (List.perm_insertionSort _ _).symm

/-- Pages continue when the first one does and those after it do. -/
theorem Pager.continues_append_iff {n : ℕ} {init second : List Key} {last : Key}
    (hlength : (init ++ [last]).length = n) (hsecond : second ≠ []) :
    pager.Continues n (init ++ [last] ++ second) ↔
      pager.absent last = false ∧ (∀ key ∈ second, last < key ∧ pager.absent key = false) ∧
        pager.Continues n second := by
  have hn : 0 < n := by simp [← hlength]
  have hpos : 0 < second.length := List.length_pos_iff.mpr hsecond
  -- a full page is in front, so places and rests are those of the second list, a page later
  have hindex : ∀ pages, 0 < pages →
      (init ++ [last] ++ second)[(pages + 1) * n - 1]? = second[pages * n - 1]? := by
    intro pages hpages
    have hpages' : 0 < pages * n := Nat.mul_pos hpages hn
    rw [List.getElem?_append_right (by rw [Nat.add_mul]; omega), hlength, Nat.add_mul]
    congr 1
    omega
  have hdrop : ∀ pages,
      (init ++ [last] ++ second).drop ((pages + 1) * n) = second.drop (pages * n) := by
    intro pages
    rw [Nat.add_mul, Nat.one_mul, Nat.add_comm, ← List.drop_drop, ← hlength, List.drop_left]
  have hlast : (init ++ [last] ++ second)[1 * n - 1]? = some last := by
    rw [List.getElem?_append_left (by omega)]
    simp [← hlength]
  constructor
  · intro hcontinues
    obtain ⟨found, hfound, habsent, hrest⟩ := hcontinues 1 Nat.one_pos
      (by rw [List.length_append]; omega)
    obtain rfl : last = found := Option.some.inj (hlast.symm.trans hfound)
    refine ⟨habsent, ?_, ?_⟩
    · have hzero := hdrop 0
      simp only [Nat.zero_add, Nat.zero_mul, List.drop_zero] at hzero
      rwa [hzero] at hrest
    · intro pages hpages hlt
      have hnext := hcontinues (pages + 1) (Nat.succ_pos _)
        (by rw [List.length_append, Nat.add_mul]; omega)
      rwa [hindex pages hpages, hdrop pages] at hnext
  · rintro ⟨habsent, hrest, hcontinues⟩ pages hpages hlt
    obtain ⟨before, rfl⟩ := Nat.exists_eq_add_of_lt hpages
    rw [Nat.zero_add] at hlt ⊢
    rw [hdrop before]
    rcases Nat.eq_zero_or_pos before with rfl | hbefore
    · exact ⟨last, by simpa using hlast, habsent, by simpa using hrest⟩
    · rw [hindex before hbefore]
      rw [List.length_append, hlength, Nat.add_mul] at hlt
      exact hcontinues before hbefore (by omega)

theorem Pager.continues_of_length_le {n : ℕ} {keys : List Key} (hlength : keys.length ≤ n) :
    pager.Continues n keys := by
  intro pages hpages hlt
  have hle : n ≤ pages * n := Nat.le_mul_of_pos_left n hpages
  omega

/-- Strictly ordered keys without an absent one continue after every page. -/
theorem Pager.continues_of_pairwise {n : ℕ} (hn : 0 < n) {keys : List Key}
    (hlt : keys.Pairwise (· < ·)) (hpresent : ∀ key ∈ keys, pager.absent key = false) :
    pager.Continues n keys := by
  intro pages hpages hlength
  have hpos : 0 < pages * n := Nat.mul_pos hpages hn
  have hindex : pages * n - 1 < keys.length := by omega
  refine ⟨keys[pages * n - 1], List.getElem?_eq_getElem hindex,
    hpresent _ (List.getElem_mem hindex), ?_⟩
  intro key hkey
  refine ⟨?_, hpresent key (List.mem_of_mem_drop hkey)⟩
  obtain ⟨i, hi, rfl⟩ := List.getElem_of_mem hkey
  rw [List.length_drop] at hi
  rw [List.getElem_drop]
  exact List.pairwise_iff_getElem.mp hlt _ _ hindex (by omega) (by omega)

/-- When all rows that were cut off lie beyond the last row of a page, they are
what its cursor selects. -/
theorem Pager.Cuts.admitted_perm_rest {table rest : List Row} {after : Option Cursor}
    {page : Page Row Cursor} (hcuts : pager.Cuts table after page rest)
    (hstart : ∀ cursor ∈ after, ∃ start, pager.Stands start cursor) {last : Row} {next : Cursor}
    (hlast : last ∈ page.items) (hstands : pager.Stands last next)
    (hle : ∀ row ∈ page.items, pager.key row ≤ pager.key last)
    (hrest : ∀ row ∈ rest, pager.key last < pager.key row ∧
      pager.absent (pager.key row) = false) :
    (pager.admitted table (some next)).Perm rest := by
  have hagain : pager.admitted table (some next) =
      (pager.admitted table after).filter (pager.beyond next) := by
    unfold Pager.admitted
    rw [List.filter_filter]
    refine List.filter_congr fun row _ => ?_
    cases hbeyond : pager.beyond next row with
    | false => simp [hbeyond]
    | true =>
        cases after with
        | none => simp [hbeyond]
        | some cursor =>
            obtain ⟨start, hstart⟩ := hstart cursor rfl
            have hbefore := (hstart last).mp
              ((Pager.mem_admitted.mp (hcuts.mem_admitted hlast)).2 cursor rfl)
            have hrow := (hstands row).mp hbeyond
            simp [hbeyond, (hstart row).mpr ⟨hbefore.1.trans hrow.1, hrow.2⟩]
  have hitems : page.items.filter (pager.beyond next) = [] := by
    rw [List.filter_eq_nil_iff]
    intro row hrow hbeyond
    exact absurd ((hstands row).mp hbeyond).1 (not_lt_of_ge (hle row hrow))
  have hself : rest.filter (pager.beyond next) = rest := by
    rw [List.filter_eq_self]
    exact fun row hrow => (hstands row).mpr (hrest row hrow)
  have hfilter := hcuts.perm.filter (pager.beyond next)
  rw [List.filter_append, hitems, hself, List.nil_append] at hfilter
  rw [hagain]
  exact hfilter.symm

namespace Walk

variable {after : Option Cursor} {visits : List (Visit Row Cursor)}

/-- Continuing pages are read to the end. -/
theorem complete {table : List Row} (hwalk : Walk pager.Serves after visits)
    (hunchanged : Unchanged table visits) (hfaithful : pager.Faithful table)
    (hstart : ∀ cursor ∈ after, ∃ start, pager.Stands start cursor)
    (hcontinues : ∀ n ∈ pager.size, pager.Continues n (pager.sortedKeys table after)) :
    NeverRestarts visits ∧ visits.length ≤ (pager.admitted table after).length + 1 ∧
      (Finished visits → (returned visits).Perm (pager.admitted table after)) := by
  induction hwalk with
  | nil after => simp [NeverRestarts, not_finished_nil]
  | @last found after page hserves hmore =>
      obtain ⟨rest, hcuts⟩ := hserves
      obtain rfl : found = table := hunchanged _ List.mem_cons_self
      refine ⟨?_, by simp, ?_⟩
      · intro visit hvisit hvisitMore
        obtain rfl := List.mem_singleton.mp hvisit
        exact absurd (hmore.symm.trans hvisitMore) Bool.false_ne_true
      · intro _
        -- the last page says that nothing is left
        have hrest : rest = [] := by
          by_contra hne
          exact absurd (hmore.symm.trans (hcuts.hasMore_iff.mpr hne)) Bool.false_ne_true
        simpa [hrest] using hcuts.perm
  | @more found after page later hserves hmore hlater ih =>
      obtain ⟨rest, hcuts⟩ := hserves
      obtain rfl : found = table := hunchanged _ List.mem_cons_self
      obtain ⟨init, last, hitems, hcursor, hle, -⟩ := hcuts.exists_last hmore
      have hkeys := Pager.map_key_eq_sortedKeys hcuts.perm hcuts.sorted
      have hpages := hcontinues _ (hcuts.full hmore)
      rw [← hkeys, List.map_append, hitems, List.map_append, List.map_singleton,
        Pager.continues_append_iff (by simp) (by simpa using hcuts.hasMore_iff.mp hmore)] at hpages
      obtain ⟨hpresent, hbeyond, hnext⟩ := hpages
      have hlast : last ∈ page.items := by simp [hitems]
      have hkept := (Pager.mem_admitted.mp (hcuts.mem_admitted hlast)).1
      obtain ⟨next, hfound, hstands⟩ := (hfaithful last hkept).2 hpresent
      rw [← hcursor] at hfound
      -- the next page starts where this one ended
      have hrest := hcuts.admitted_perm_rest hstart hlast hstands hle
        fun row hrow => hbeyond _ (List.mem_map_of_mem hrow)
      have hrestKeys : rest.map pager.key = pager.sortedKeys found page.nextCursor := by
        rw [hfound]
        exact Pager.map_key_eq_sortedKeys hrest.symm (List.pairwise_append.mp hcuts.sorted).2.1
      -- the induction is on the walk behind this page
      obtain ⟨hnever, hlength, hreturned⟩ := ih
        (fun visit hvisit => hunchanged visit (List.mem_cons_of_mem _ hvisit))
        (fun cursor hmem => ⟨last, by
          obtain rfl : next = cursor := Option.some.inj (hfound.symm.trans hmem)
          exact hstands⟩)
        (fun n hn => by
          obtain rfl : page.items.length = n := Option.some.inj ((hcuts.full hmore).symm.trans hn)
          rw [← hrestKeys, hitems]
          simpa using hnext)
      rw [hfound] at hlength hreturned
      have htotal := hcuts.perm.length_eq
      refine ⟨?_, ?_, ?_⟩
      · intro visit hvisit hvisitMore
        rcases List.mem_cons.mp hvisit with rfl | hvisit
        · exact Option.isSome_iff_exists.mpr ⟨next, hfound⟩
        · exact hnever visit hvisit hvisitMore
      · rw [hrest.length_eq] at hlength
        rw [List.length_append, hitems, List.length_append] at htotal
        simp only [List.length_cons, List.length_nil] at htotal ⊢
        omega
      · intro hfinished
        rw [returned_cons]
        have hperm := (hreturned ((finished_cons_of_more hmore).mp hfinished)).trans hrest
        exact (hperm.append_left page.items).trans hcuts.perm

/-- Distinct keys are read to the end. -/
theorem complete_of_distinct {table : List Row} (hwalk : Walk pager.Serves none visits)
    (hunchanged : Unchanged table visits) (hfaithful : pager.Faithful table)
    (hdistinct : (table.map pager.key).Nodup)
    (hpresent : ∀ row ∈ table, pager.absent (pager.key row) = false) :
    visits.length ≤ (pager.kept table).length + 1 ∧
      (Finished visits → (returned visits).Perm (pager.kept table)) := by
  have hsublist : (pager.admitted table none).Sublist table :=
    List.filter_sublist.trans List.filter_sublist
  have hperm : (pager.sortedKeys table none).Perm ((pager.admitted table none).map pager.key) :=
    List.perm_insertionSort _ _
  have hnodup : (pager.sortedKeys table none).Nodup :=
    hperm.nodup_iff.mpr (hdistinct.sublist (hsublist.map pager.key))
  have hlt : (pager.sortedKeys table none).Pairwise (· < ·) := by
    refine ((List.pairwise_insertionSort (· ≤ ·) _).and hnodup).imp ?_
    rintro key other ⟨hle, hne⟩
    exact lt_of_le_of_ne hle hne
  have hkeys : ∀ key ∈ pager.sortedKeys table none, pager.absent key = false := by
    intro key hkey
    obtain ⟨row, hrow, rfl⟩ := List.mem_map.mp (hperm.subset hkey)
    exact hpresent row (hsublist.subset hrow)
  obtain ⟨-, hlength, hreturned⟩ := hwalk.complete hunchanged hfaithful (by simp)
    fun n hn => Pager.continues_of_pairwise (pager.size_pos n hn) hlt hkeys
  have hkept : pager.admitted table none = pager.kept table := by simp [Pager.admitted]
  rw [hkept] at hlength hreturned
  exact ⟨hlength, hreturned⟩

/-- The pages of a walk that never starts again can be continued. -/
theorem continues (hwalk : Walk pager.Serves after visits)
    (hfaithful : ∀ visit ∈ visits, pager.Faithful visit.table) (hnever : NeverRestarts visits) :
    ∀ n ∈ pager.size, pager.Continues n ((returned visits).map pager.key) := by
  intro n hn
  induction hwalk with
  | nil after => exact Pager.continues_of_length_le (by simp)
  | last hserves hmore =>
      obtain ⟨rest, hcuts⟩ := hserves
      exact Pager.continues_of_length_le (by simpa using hcuts.length_le n hn)
  | @more table after page later hserves hmore hlater ih =>
      obtain ⟨rest, hcuts⟩ := hserves
      have hfaithful' : ∀ visit ∈ later, pager.Faithful visit.table :=
        fun visit hvisit => hfaithful visit (List.mem_cons_of_mem _ hvisit)
      have hnever' : NeverRestarts later :=
        fun visit hvisit => hnever visit (List.mem_cons_of_mem _ hvisit)
      obtain ⟨next, hnext⟩ :=
        Option.isSome_iff_exists.mp (hnever _ List.mem_cons_self hmore)
      obtain ⟨init, last, hitems, hpresent, hstands, -, -⟩ :=
        hcuts.stands_of_nextCursor (hfaithful _ List.mem_cons_self) hmore hnext
      have hbeyond := (hlater.increasing hfaithful' hnever').2 next hnext last hstands
      obtain rfl : page.items.length = n := Option.some.inj ((hcuts.full hmore).symm.trans hn)
      rw [returned_cons, List.map_append]
      by_cases hempty : returned later = []
      · exact Pager.continues_of_length_le (by simp [hempty])
      · rw [hitems, List.map_append, List.map_singleton,
          Pager.continues_append_iff (by simp) (by simpa using hempty)]
        refine ⟨hpresent, ?_, ?_⟩
        · intro key hkey
          obtain ⟨row, hrow, rfl⟩ := List.mem_map.mp hkey
          exact hbeyond row hrow
        · rw [← hitems]
          exact ih hfaithful' hnever'

end Walk

/-- **Walks over a table that does not change return every row exactly once, and
come to an end without starting again, exactly when its pages can be continued.** -/
theorem walks_complete_iff {table : List Row} (hfaithful : pager.Faithful table) :
    (∃ bound, ∀ visits, Walk pager.Serves none visits → Unchanged table visits →
      visits.length ≤ bound ∧ NeverRestarts visits ∧
        (Finished visits → (returned visits).Perm (pager.kept table))) ↔
    ∀ n ∈ pager.size, pager.Continues n (pager.sortedKeys table none) := by
  have hkept : pager.admitted table none = pager.kept table := by simp [Pager.admitted]
  constructor
  · rintro ⟨bound, hwalks⟩ n hn
    obtain ⟨visits, hwalk, hunchanged, hfinished⟩ :=
      exists_finished (pager.exists_serves table)
        fun visits hwalk hunchanged => (hwalks visits hwalk hunchanged).1
    obtain ⟨-, hnever, hreturned⟩ := hwalks visits hwalk hunchanged
    have hfaithful' : ∀ visit ∈ visits, pager.Faithful visit.table :=
      fun visit hvisit => hunchanged visit hvisit ▸ hfaithful
    have hsorted := hwalk.pairwise_returned hfaithful' hnever
      (fun visit hvisit => hwalk.sorted_items hvisit) fun row other => le_of_lt
    rw [← Pager.map_key_eq_sortedKeys (hkept ▸ hreturned hfinished) hsorted]
    exact hwalk.continues hfaithful' hnever n hn
  · intro hcontinues
    refine ⟨(pager.kept table).length + 1, fun visits hwalk hunchanged => ?_⟩
    obtain ⟨hnever, hlength, hreturned⟩ :=
      hwalk.complete hunchanged hfaithful (by simp) hcontinues
    rw [hkept] at hlength hreturned
    exact ⟨hlength, hnever, hreturned⟩

end Keyset
