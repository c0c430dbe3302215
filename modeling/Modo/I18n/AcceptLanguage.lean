import Modo.Http.Headers
import Modo.Lib.F32
import Modo.Lib.Text

/-!
# The language of a request

`AcceptLanguageResolver` sorts the ranges of the header by their quality and takes the first one
that is available.  A range of quality zero is taken like every other, a `;` that is not followed by
`q=` at once is read as a part of the tag, and a quality that is no number is equal to all others.

What the client lists is read without the resolver (`listedRange`), by the grammar of the header.
`negotiates_iff` says when the resolver negotiates all the same.
-/

namespace Modo.I18n

open Http Sorting

/-- A language and its quality. -/
abbrev Range := List Char × F32

/-- One entry of the header; the region is dropped from the tag. -/
def readRange (entry : List Char) : Range :=
  let entry := Text.trim entry
  let (lang, quality) :=
    match Text.splitFirst [';', 'q', '='] entry with
    | some (l, q) => (Text.trim l, (F32.parse (Text.trim q)).getD .zero)
    | none => (entry, .one)
  (((lang.splitOn '-').head?.getD lang).map Char.toLower, quality)

/-- `b.1.partial_cmp(&a.1).unwrap_or(Equal)`. -/
def byQuality (a b : Range) : Ordering := F32.descending a.2 b.2

def isAvailable (available : List (List Char)) (range : Range) : Bool := available.contains range.1

/-- `AcceptLanguageResolver::resolve`; without a result the sort panics. -/
def resolve (sort : StableSort byQuality) (available : List (List Char)) (parts : Parts) :
    Option (Option (List Char)) :=
  match parts.headers.getStr "accept-language" with
  | none => some none
  | some header =>
      (sort.run ((header.splitOn ',').map readRange)).map fun langs =>
        (langs.find? (isAvailable available)).map Prod.fst

/-! ## What is negotiated -/

/-- The entries of the header. -/
def entries (parts : Parts) : List (List Char) :=
  match parts.headers.getStr "accept-language" with
  | none => []
  | some header => header.splitOn ','

/-- The ranges as the resolver reads them. -/
def ranges (parts : Parts) : List Range := (entries parts).map readRange

/-- The language of an entry: the first subtag of what stands before the parameters, in lower
case. -/
def listedLang (entry : List Char) : List Char :=
  ((Text.trim (entry.takeWhile (· ≠ ';'))).takeWhile (· ≠ '-')).map Char.toLower

/-- The name of a parameter, in lower case, and its value.  The whitespace around them is no part of
either. -/
def parameter (text : List Char) : List Char × List Char :=
  ((Text.trim (text.takeWhile (· ≠ '='))).map Char.toLower,
    Text.trim ((text.dropWhile (· ≠ '=')).drop 1))

/-- The weight of an entry, which is the value of its parameter `q`; `none` is a text that is no
number. -/
def weight (entry : List Char) : Option F32 :=
  match ((entry.splitOn ';').tail.map parameter).lookup ['q'] with
  | none => some .one
  | some value => F32.parse value

/-- The range of an entry. -/
def listedRange (entry : List Char) : Range := (listedLang entry, (weight entry).getD .zero)

/-- The ranges that the client lists. -/
def listed (parts : Parts) : List Range := (entries parts).map listedRange

/-- The languages that the client marks as unacceptable, with the weight zero. -/
def refused (parts : Parts) : List (List Char) :=
  ((entries parts).filter fun entry => decide (weight entry = some .zero)).map listedLang

/-- An available range that the client accepts. -/
def isAcceptable (available refused : List (List Char)) (range : Range) : Bool :=
  isAvailable available range && decide (F32.Lt .zero range.2) && !refused.contains range.1

/-- The language of the acceptable range with the greatest quality, the earliest of several. -/
inductive Best (available refused : List (List Char)) (ranges : List Range) :
    Option (List Char) → Prop
  | lang {before after : List Range} {range : Range} (hranges : ranges = before ++ range :: after)
      (hacceptable : isAcceptable available refused range = true)
      (hbefore : ∀ other ∈ before, isAcceptable available refused other = true →
        F32.Lt other.2 range.2)
      (hafter : ∀ other ∈ after, isAcceptable available refused other = true →
        ¬ F32.Lt range.2 other.2) :
      Best available refused ranges (some range.1)
  | none (hnone : ∀ range ∈ ranges, isAcceptable available refused range = false) :
      Best available refused ranges none

/-- The resolver returns the best of the listed ranges, and it sorts by a total preorder. -/
def Negotiates (sort : StableSort byQuality) (available : List (List Char)) (parts : Parts) :
    Prop :=
  (∃ result, resolve sort available parts = some result ∧
    Best available (refused parts) (listed parts) result) ∧
    TotalPreorderOn byQuality (ranges parts)

/-- Every entry is read as it is listed. -/
def ReadsListed (parts : Parts) : Prop :=
  ∀ entry ∈ entries parts, readRange entry = listedRange entry

/-- Every available range of a refused language stands behind an acceptable one: that has a greater
quality, or the same and an earlier place. -/
def Outranked (available refused : List (List Char)) (ranges : List Range) : Prop :=
  ∀ before range after, ranges = before ++ range :: after → isAvailable available range = true →
    range.1 ∈ refused →
    (∃ other ∈ ranges, isAcceptable available refused other = true ∧ F32.Lt range.2 other.2) ∨
      ∃ other ∈ before, isAcceptable available refused other = true ∧ ¬ F32.Lt other.2 range.2

/-- No range is available; or an acceptable one is, and the refused ones are outranked.  A first
available range whose quality is no number has to name the language of the first acceptable one
instead. -/
def Decided (available refused : List (List Char)) (ranges : List Range) : Prop :=
  ranges.find? (isAvailable available) = none ∨
    ∃ best, ranges.find? (isAcceptable available refused) = some best ∧
      ∀ first, ranges.find? (isAvailable available) = some first →
        (first.2 = .nan → first.1 = best.1) ∧
          (first.2 ≠ .nan → Outranked available refused ranges)

section Negotiation

variable {available refused : List (List Char)}

theorem isAcceptable_iff {range : Range} :
    isAcceptable available refused range = true ↔
      isAvailable available range = true ∧ F32.Lt .zero range.2 ∧ range.1 ∉ refused := by
  rw [isAcceptable, Bool.and_eq_true, Bool.and_eq_true, decide_eq_true_iff, Bool.not_eq_true',
    ← Bool.not_eq_true, List.contains_iff_mem, and_assoc]

theorem Best.exists_acceptable {ranges : List Range} {lang : List Char}
    (hbest : Best available refused ranges (some lang)) :
    ∃ range ∈ ranges, isAcceptable available refused range = true ∧ range.1 = lang := by
  cases hbest with
  | lang hranges hacceptable => exact ⟨_, by simp [hranges], hacceptable, rfl⟩

/-- A best range is not followed by another. -/
theorem eq_of_follows {middle after after' : List Range} {range range' : Range}
    (heq : range :: after = middle ++ range' :: after')
    (hacceptable : isAcceptable available refused range = true)
    (hacceptable' : isAcceptable available refused range' = true)
    (hmiddle : ∀ other ∈ middle, isAcceptable available refused other = true →
      F32.Lt other.2 range'.2)
    (hafter : ∀ other ∈ after, isAcceptable available refused other = true →
      ¬ F32.Lt range.2 other.2) :
    range = range' := by
  cases middle with
  | nil => exact (List.cons.inj heq).1
  | cons head middle =>
      obtain ⟨rfl, rfl⟩ := List.cons.inj heq
      exact absurd (hmiddle _ List.mem_cons_self hacceptable)
        (hafter _ (List.mem_append_right _ List.mem_cons_self) hacceptable')

/-- The best language is determined. -/
theorem Best.unique {ranges : List Range} {first second : Option (List Char)}
    (hfirst : Best available refused ranges first)
    (hsecond : Best available refused ranges second) : first = second := by
  cases hfirst with
  | none hnone =>
      cases hsecond with
      | none => rfl
      | lang hranges hacceptable =>
          rw [hnone _ (by simp [hranges])] at hacceptable
          cases hacceptable
  | @lang before after range hranges hacceptable hbefore hafter =>
      cases hsecond with
      | none hnone =>
          rw [hnone _ (by simp [hranges])] at hacceptable
          cases hacceptable
      | @lang before' after' range' hranges' hacceptable' hbefore' hafter' =>
          rw [hranges] at hranges'
          rcases List.append_eq_append_iff.mp hranges' with ⟨middle, rfl, heq⟩ | ⟨middle, rfl, heq⟩
          · rw [eq_of_follows heq hacceptable hacceptable'
              (fun other hother => hbefore' other (List.mem_append_right _ hother)) hafter]
          · rw [eq_of_follows heq hacceptable' hacceptable
              (fun other hother => hbefore other (List.mem_append_right _ hother)) hafter']

/-! ## The first of the sorted ranges -/

theorem totalPreorderOn_iff (items : List Range) :
    TotalPreorderOn byQuality items ↔ ¬ F32.Clashes (items.map Prod.snd) :=
  F32.totalPreorderOn_iff Prod.snd items

/-- Neither quality is the greater one. -/
theorem byQuality_eq_iff {a b : Range} :
    byQuality a b = .eq ↔ ¬ F32.Lt a.2 b.2 ∧ ¬ F32.Lt b.2 a.2 := by
  rw [← F32.descending_gt_iff, ← F32.descending_lt_iff, byQuality]
  cases F32.descending a.2 b.2 <;> simp

/-- The first item with a property comes before every other one with it. -/
theorem mem_of_find?_append {α : Type*} {p : α → Bool} {before after : List α} {first other : α}
    (hfind : (before ++ other :: after).find? p = some first) (hother : p other = true)
    (hne : first ≠ other) : first ∈ before := by
  rw [List.find?_append, List.find?_cons_of_pos hother] at hfind
  cases hbefore : before.find? p with
  | none =>
      rw [hbefore] at hfind
      exact absurd (Option.some.inj hfind).symm hne
  | some found =>
      rw [hbefore] at hfind
      obtain rfl := Option.some.inj hfind
      exact List.mem_of_find?_eq_some hbefore

/-- The first of the sorted available ranges. -/
structure IsFirst (available : List (List Char)) (items : List Range) (first : Range) : Prop where
  greatest : ∀ item ∈ items, isAvailable available item = true → ¬ F32.Lt first.2 item.2
  earliest : items.find? (fun item => byQuality first item == .eq && isAvailable available item) =
    some first

theorem IsFirst.mem {items : List Range} {first : Range} (hfirst : IsFirst available items first) :
    first ∈ items :=
  List.mem_of_find?_eq_some hfirst.earliest

theorem IsFirst.first_available {items : List Range} {first : Range}
    (hfirst : IsFirst available items first) : isAvailable available first = true := by
  have hboth := List.find?_some hfirst.earliest
  rw [Bool.and_eq_true] at hboth
  exact hboth.2

theorem isFirst_of_sorts {items sorted : List Range} {first : Range}
    (horder : TotalPreorderOn byQuality items) (hsorts : Sorts byQuality items sorted)
    (hfind : sorted.find? (isAvailable available) = some first) :
    IsFirst available items first := by
  obtain ⟨hgreatest, hearliest⟩ := hsorts.find?_eq_some horder hfind
  refine ⟨fun item hitem havailable => ?_, ?_⟩
  · have hle := hgreatest item hitem havailable
    rwa [byQuality, Ne, F32.descending_gt_iff] at hle
  · rw [List.find?_filter] at hearliest
    simpa only [Bool.decide_and, Bool.decide_eq_true] using hearliest

/-- A first range that is acceptable is the best one. -/
theorem IsFirst.best {items : List Range} {first : Range} (hfirst : IsFirst available items first)
    (hacceptable : isAcceptable available refused first = true) :
    Best available refused items (some first.1) := by
  obtain ⟨_, before, after, rfl, hbefore⟩ := List.find?_eq_some_iff_append.mp hfirst.earliest
  refine .lang rfl hacceptable (fun other hother hacc => ?_) fun other hother hacc => ?_
  · have havailable := (isAcceptable_iff.mp hacc).1
    have hle := hfirst.greatest other (List.mem_append_left _ hother) havailable
    have hne : byQuality first other ≠ .eq := by simpa [havailable] using hbefore other hother
    rw [Ne, byQuality_eq_iff, not_and, not_not] at hne
    exact hne hle
  · exact hfirst.greatest other (List.mem_append_right _ (List.mem_cons_of_mem _ hother))
      (isAcceptable_iff.mp hacc).1

/-- The refused ranges then stand behind it. -/
theorem IsFirst.outranked {items : List Range} {first : Range}
    (hfirst : IsFirst available items first)
    (hacceptable : isAcceptable available refused first = true) :
    Outranked available refused items := by
  rintro before range after rfl havailable hrefused
  have hle := hfirst.greatest range (List.mem_append_right _ List.mem_cons_self) havailable
  by_cases hless : F32.Lt range.2 first.2
  · exact Or.inl ⟨first, hfirst.mem, hacceptable, hless⟩
  · have hequal : byQuality first range = .eq := byQuality_eq_iff.mpr ⟨hle, hless⟩
    have hne : first ≠ range := by
      rintro rfl
      exact (isAcceptable_iff.mp hacceptable).2.2 hrefused
    have hmem : first ∈ before :=
      mem_of_find?_append hfirst.earliest (by simp [hequal, havailable]) hne
    exact Or.inr ⟨first, hmem, hacceptable, hle⟩

/-- A first range of a refused language is not outranked. -/
theorem IsFirst.not_outranked {items : List Range} {first : Range}
    (hfirst : IsFirst available items first) (hrefused : first.1 ∈ refused) :
    ¬ Outranked available refused items := by
  intro houtranked
  obtain ⟨_, before, after, hitems, hbefore⟩ := List.find?_eq_some_iff_append.mp hfirst.earliest
  rcases houtranked before first after hitems hfirst.first_available hrefused with
    ⟨other, hother, hacceptable, hless⟩ | ⟨other, hother, hacceptable, hle⟩
  · exact hfirst.greatest other hother (isAcceptable_iff.mp hacceptable).1 hless
  · have havailable := (isAcceptable_iff.mp hacceptable).1
    have hgreatest := hfirst.greatest other (hitems ▸ List.mem_append_left _ hother) havailable
    have hequal : byQuality first other = .eq := byQuality_eq_iff.mpr ⟨hgreatest, hle⟩
    have hnot := hbefore other hother
    simp [hequal, havailable] at hnot

/-- Where the first range has no positive quality, none has. -/
theorem IsFirst.not_acceptable {items : List Range} {first : Range} {x : WithBot (WithTop ℤ)}
    (hfirst : IsFirst available items first) (hquality : first.2 = .number x)
    (hpositive : ¬ F32.Lt .zero first.2) :
    ∀ range ∈ items, isAcceptable available refused range ≠ true := by
  intro range hrange hacceptable
  obtain ⟨havailable, hlt, -⟩ := isAcceptable_iff.mp hacceptable
  have hle := hfirst.greatest range hrange havailable
  obtain ⟨zero, y, hzero, hy, hlt⟩ := F32.lt_iff.mp hlt
  rw [hquality, hy, F32.lt_number, not_lt] at hle
  rw [hquality, hzero, F32.lt_number] at hpositive
  exact hpositive (hlt.trans_le hle)

/-- Beside what is no number, an acceptable range that comes first is the best one. -/
theorem best_of_nan {items : List Range} (hclash : ¬ F32.Clashes (items.map Prod.snd))
    (hnan : .nan ∈ items.map Prod.snd) {lang : List Char} :
    Best available refused items (some lang) ↔
      ∃ best, items.find? (isAcceptable available refused) = some best ∧ lang = best.1 := by
  have hequal : ∀ a ∈ items, ∀ b ∈ items, ¬ F32.Lt a.2 b.2 := fun a ha b hb hlt =>
    hclash ⟨hnan, _, List.mem_map_of_mem ha, _, List.mem_map_of_mem hb, hlt⟩
  constructor
  · intro h
    cases h with
    | @lang before after range hranges hacceptable hbefore hafter =>
        subst hranges
        refine ⟨range, List.find?_eq_some_iff_append.mpr
          ⟨hacceptable, before, after, rfl, fun other hother => ?_⟩, rfl⟩
        rw [Bool.not_eq_true', ← Bool.not_eq_true]
        intro hacc
        exact hequal other (List.mem_append_left _ hother) range
          (List.mem_append_right _ List.mem_cons_self) (hbefore other hother hacc)
  · rintro ⟨best, hfind, rfl⟩
    obtain ⟨hacceptable, before, after, rfl, hbefore⟩ := List.find?_eq_some_iff_append.mp hfind
    refine .lang rfl hacceptable (fun other hother hacc => ?_) fun other hother _ =>
      hequal _ (List.mem_append_right _ List.mem_cons_self) _
        (List.mem_append_right _ (List.mem_cons_of_mem _ hother))
    have hnot := hbefore other hother
    rw [hacc] at hnot
    cases hnot

/-- Where the quality of the first range is no number, all ranges are equal to it. -/
theorem IsFirst.find?_of_nan {items : List Range} {first : Range}
    (hfirst : IsFirst available items first) (hnan : first.2 = .nan) :
    items.find? (isAvailable available) = some first := by
  have hequal : ∀ item : Range, byQuality first item = .eq := by
    intro item
    rw [byQuality, hnan]
    cases item.2 <;> rfl
  have hearliest := hfirst.earliest
  simpa [hequal] using hearliest

/-- An available range whose quality is no number comes first if it is the earliest. -/
theorem IsFirst.ne_nan {items : List Range} {first other : Range} {x : WithBot (WithTop ℤ)}
    (hfirst : IsFirst available items first) (hquality : first.2 = .number x)
    (hother : items.find? (isAvailable available) = some other) : other.2 ≠ .nan := by
  intro hnan
  have hequal : byQuality first other = .eq := by
    rw [byQuality, hnan]
    cases first.2 <;> rfl
  obtain ⟨havailable, before, after, rfl, hbefore⟩ := List.find?_eq_some_iff_append.mp hother
  have hne : first ≠ other := by
    rintro rfl
    rw [hnan] at hquality
    cases hquality
  have hmem : first ∈ before :=
    mem_of_find?_append hfirst.earliest (by simp [hequal, havailable]) hne
  have hnot := hbefore first hmem
  rw [hfirst.first_available] at hnot
  cases hnot

/-- Whether the first range is the best one. -/
theorem IsFirst.best_iff {items : List Range} {first : Range}
    (hclash : ¬ F32.Clashes (items.map Prod.snd)) (hfirst : IsFirst available items first) :
    Best available refused items (some first.1) ↔
      ∃ best, items.find? (isAcceptable available refused) = some best ∧
        ∀ other, items.find? (isAvailable available) = some other →
          (other.2 = .nan → other.1 = best.1) ∧
            (other.2 ≠ .nan → Outranked available refused items) := by
  cases hquality : first.2 with
  | nan =>
      have hfind := hfirst.find?_of_nan hquality
      rw [best_of_nan hclash (hquality ▸ List.mem_map_of_mem hfirst.mem)]
      constructor
      · rintro ⟨best, hbest, hlang⟩
        refine ⟨best, hbest, fun other hother => ?_⟩
        obtain rfl := Option.some.inj (hfind.symm.trans hother)
        exact ⟨fun _ => hlang, fun hnot => absurd hquality hnot⟩
      · rintro ⟨best, hbest, hlang⟩
        exact ⟨best, hbest, (hlang first hfind).1 hquality⟩
  | number x =>
      cases hacceptable : isAcceptable available refused first with
      | true =>
          obtain ⟨best, hbest⟩ := Option.isSome_iff_exists.mp
            (List.find?_isSome.mpr ⟨first, hfirst.mem, hacceptable⟩)
          exact iff_of_true (hfirst.best hacceptable) ⟨best, hbest, fun other hother =>
            ⟨fun hnan => absurd hnan (hfirst.ne_nan hquality hother),
              fun _ => hfirst.outranked hacceptable⟩⟩
      | false =>
          -- it is refused, or without a positive quality
          have hcases : first.1 ∈ refused ∨ ¬ F32.Lt .zero first.2 := by
            by_contra hnot
            rw [not_or, not_not] at hnot
            rw [isAcceptable_iff.mpr ⟨hfirst.first_available, hnot.2, hnot.1⟩] at hacceptable
            cases hacceptable
          rcases hcases with hrefused | hpositive
          · refine iff_of_false ?_ ?_
            · intro hbest
              obtain ⟨range, -, hacc, hlang⟩ := hbest.exists_acceptable
              exact (isAcceptable_iff.mp hacc).2.2 (hlang ▸ hrefused)
            · rintro ⟨best, -, hall⟩
              obtain ⟨other, hother⟩ := Option.isSome_iff_exists.mp
                (List.find?_isSome.mpr ⟨first, hfirst.mem, hfirst.first_available⟩)
              exact hfirst.not_outranked hrefused
                ((hall other hother).2 (hfirst.ne_nan hquality hother))
          · have hnone : ∀ range ∈ items, isAcceptable available refused range ≠ true :=
              hfirst.not_acceptable hquality hpositive
            refine iff_of_false ?_ ?_
            · intro hbest
              obtain ⟨range, hrange, hacc, -⟩ := hbest.exists_acceptable
              exact hnone range hrange hacc
            · rintro ⟨best, hbest, -⟩
              exact hnone best (List.mem_of_find?_eq_some hbest) (List.find?_some hbest)

/-- Where the search in the sorted ranges ends with a best one. -/
theorem best_iff_decided {items sorted : List Range}
    (hclash : ¬ F32.Clashes (items.map Prod.snd)) (hsorts : Sorts byQuality items sorted) :
    Best available refused items ((sorted.find? (isAvailable available)).map Prod.fst) ↔
      Decided available refused items := by
  cases hfind : sorted.find? (isAvailable available) with
  | none =>
      have hnone := hsorts.find?_eq_none.mp hfind
      refine iff_of_true (.none fun range hrange => ?_) (Or.inl hnone)
      have havailable := List.find?_eq_none.mp hnone range hrange
      rw [Bool.not_eq_true] at havailable
      rw [isAcceptable, havailable, Bool.false_and, Bool.false_and]
  | some first =>
      have hfirst := isFirst_of_sorts ((totalPreorderOn_iff items).mpr hclash) hsorts hfind
      have hsome : items.find? (isAvailable available) ≠ none := by
        intro hnone
        exact List.find?_eq_none.mp hnone first hfirst.mem hfirst.first_available
      rw [Option.map_some, Decided, or_iff_right hsome]
      exact hfirst.best_iff hclash

end Negotiation

theorem resolve_eq (sort : StableSort byQuality) (available : List (List Char)) (parts : Parts) :
    resolve sort available parts = match parts.headers.getStr "accept-language" with
      | none => some none
      | some _ => (sort.run (ranges parts)).map fun langs =>
          (langs.find? (isAvailable available)).map Prod.fst := by
  cases hheader : parts.headers.getStr "accept-language" with
  | none => rw [resolve, hheader]
  | some header => rw [resolve, hheader, ranges, entries, hheader]

/-- The resolver returns the best of the ranges as it reads them exactly when it is decided. -/
theorem resolve_best_iff (sort : StableSort byQuality) (available refused : List (List Char))
    (parts : Parts) (hclash : ¬ F32.Clashes ((ranges parts).map Prod.snd)) :
    (∃ result, resolve sort available parts = some result ∧
        Best available refused (ranges parts) result) ↔
      Decided available refused (ranges parts) := by
  cases hheader : parts.headers.getStr "accept-language" with
  | none =>
      have hnil : ranges parts = [] := by rw [ranges, entries, hheader]; rfl
      rw [hnil]
      refine iff_of_true ⟨none, by rw [resolve, hheader], .none ?_⟩ (Or.inl rfl)
      simp
  | some header =>
      obtain ⟨sorted, hrun, hsorts⟩ := sort.sorts _ ((totalPreorderOn_iff _).mpr hclash)
      have hresolve : resolve sort available parts =
          some ((sorted.find? (isAvailable available)).map Prod.fst) := by
        rw [resolve_eq, hheader, hrun]
        rfl
      rw [hresolve, ← best_iff_decided hclash hsorts]
      constructor
      · rintro ⟨result, heq, hbest⟩
        rwa [Option.some.inj heq]
      · exact fun hbest => ⟨_, rfl, hbest⟩

/-- What is returned is a greatest of the ranges as the resolver reads them. -/
theorem greatest_of_resolve {sort : StableSort byQuality} {available : List (List Char)}
    {parts : Parts} (horder : TotalPreorderOn byQuality (ranges parts)) {lang : List Char}
    (hresolve : resolve sort available parts = some (some lang)) :
    ∃ first, IsFirst available (ranges parts) first ∧ first.1 = lang := by
  rw [resolve_eq] at hresolve
  cases hheader : parts.headers.getStr "accept-language" with
  | none =>
      rw [hheader] at hresolve
      cases hresolve
  | some header =>
      obtain ⟨sorted, hrun, hsorts⟩ := sort.sorts _ horder
      rw [hheader, hrun, Option.map_some, Option.some_inj] at hresolve
      obtain ⟨first, hfind, hlang⟩ := Option.map_eq_some_iff.mp hresolve
      exact ⟨first, isFirst_of_sorts horder hsorts hfind, hlang⟩

theorem listed_eq_ranges {parts : Parts} (hreads : ReadsListed parts) :
    listed parts = ranges parts :=
  List.map_congr_left fun entry hentry => (hreads entry hentry).symm

/-- **Negotiation.**  Where every entry is read as it is listed, the resolver returns the best of
the listed ranges, and sorts by a total preorder, exactly when no qualities clash and the listed
ranges are decided. -/
theorem negotiates_iff (sort : StableSort byQuality) (available : List (List Char)) {parts : Parts}
    (hreads : ReadsListed parts) :
    Negotiates sort available parts ↔
      ¬ F32.Clashes ((listed parts).map Prod.snd) ∧
        Decided available (refused parts) (listed parts) := by
  rw [Negotiates, totalPreorderOn_iff, and_comm, listed_eq_ranges hreads, and_congr_right_iff]
  exact resolve_best_iff sort available (refused parts) parts

/-! ## Headers of requests -/

/-- A request with this header. -/
def request (header : List Char) : Parts where
  headers := [("accept-language", ofText header)]
  query := none

def locales : List (List Char) := ["en".toList, "uk".toList]

theorem acceptLanguage_toLower : "accept-language".toLower = "accept-language" := by
  decide +kernel

theorem entries_request (header : List Char) (hvisible : ∀ c ∈ header, isVisibleChar c = true) :
    entries (request header) = header.splitOn ',' := by
  have hget : (request header).headers.get "accept-language" = some (ofText header) := by
    rw [HeaderMap.get, acceptLanguage_toLower]
    exact List.lookup_cons_self
  rw [entries, HeaderMap.getStr, hget, Option.bind_some, toStr_ofText hvisible]

/-- Two available languages, and one that is refused. -/
theorem negotiates_twoRanges :
    Negotiates (.merge byQuality) locales
      (request "en;q=0.5, uk-UA ;q= 0.9, de;q=0".toList) := by
  have hentries := entries_request "en;q=0.5, uk-UA ;q= 0.9, de;q=0".toList (by decide)
  have hlisted : listed (request "en;q=0.5, uk-UA ;q= 0.9, de;q=0".toList) =
      [("en".toList, .finite (2 ^ 148)), ("uk".toList, .finite (15099494 * 2 ^ 125)),
        ("de".toList, .zero)] := by
    rw [listed, hentries]
    decide
  have hrefused : refused (request "en;q=0.5, uk-UA ;q= 0.9, de;q=0".toList) =
      ["de".toList] := by
    rw [refused, hentries]
    decide
  have hreads : ReadsListed (request "en;q=0.5, uk-UA ;q= 0.9, de;q=0".toList) := by
    rw [ReadsListed, hentries]
    decide
  refine (negotiates_iff _ _ hreads).mpr ?_
  rw [hlisted, hrefused]
  refine ⟨by decide, Or.inr ⟨("en".toList, .finite (2 ^ 148)), by decide, fun first hfirst => ?_⟩⟩
  have hfound : [("en".toList, F32.finite (2 ^ 148)), ("uk".toList, .finite (15099494 * 2 ^ 125)),
      ("de".toList, .zero)].find? (isAvailable locales) =
        some ("en".toList, .finite (2 ^ 148)) := by
    decide
  obtain rfl := Option.some.inj (hfound.symm.trans hfirst)
  refine ⟨fun _ => rfl, fun _ => ?_⟩
  -- the refused language is not available
  intro before range after hranges havailable hde
  have hmem : range ∈ [("en".toList, F32.finite (2 ^ 148)),
      ("uk".toList, .finite (15099494 * 2 ^ 125)), ("de".toList, .zero)] := by
    rw [hranges]
    exact List.mem_append_right _ List.mem_cons_self
  have hnone : ∀ range ∈ [("en".toList, F32.finite (2 ^ 148)),
      ("uk".toList, .finite (15099494 * 2 ^ 125)), ("de".toList, .zero)],
      range.1 ∈ ["de".toList] → isAvailable locales range = false := by
    decide
  rw [hnone range hmem hde] at havailable
  cases havailable

/-- All that is available is refused, and yet it is returned. -/
theorem not_negotiates_of_refused {sort : StableSort byQuality} {available : List (List Char)}
    {parts : Parts} (hreads : ReadsListed parts)
    (havailable : (listed parts).find? (isAvailable available) ≠ none)
    (hnone : (listed parts).find? (isAcceptable available (refused parts)) = none) :
    ¬ Negotiates sort available parts := by
  rintro ⟨hbest, horder⟩
  rw [listed_eq_ranges hreads] at hbest hnone havailable
  rw [totalPreorderOn_iff] at horder
  rcases (resolve_best_iff _ _ _ _ horder).mp hbest with hnot | ⟨best, hfind, -⟩
  · exact havailable hnot
  · rw [hnone] at hfind
    cases hfind

/-- No range is read that names the best language and is a greatest one. -/
theorem not_negotiates_of_misread {sort : StableSort byQuality} {available : List (List Char)}
    {parts : Parts} {lang : List Char}
    (hbest : Best available (refused parts) (listed parts) (some lang))
    (hread : ∀ range ∈ ranges parts, range.1 = lang →
      ∃ item ∈ ranges parts, isAvailable available item = true ∧ F32.Lt range.2 item.2) :
    ¬ Negotiates sort available parts := by
  rintro ⟨⟨result, hresolve, hresult⟩, horder⟩
  rw [hresult.unique hbest] at hresolve
  obtain ⟨first, hfirst, hlang⟩ := greatest_of_resolve horder hresolve
  obtain ⟨item, hitem, havailable, hless⟩ := hread first hfirst.mem hlang
  exact hfirst.greatest item hitem havailable hless

/-- A refused language is returned, also where a range of it is accepted; a weight behind a space is
read as the greatest one, and one with a capital `Q` as a part of the tag; and `nan` is equal to two
different qualities. -/
theorem negotiates_fails :
    ¬ Negotiates (.merge byQuality) locales (request "en;q=0".toList) ∧
      ¬ Negotiates (.merge byQuality) locales (request "en;q=0, en-US;q=0.5".toList) ∧
      ¬ Negotiates (.merge byQuality) locales (request "en-US; q=0.1, uk;q=0.5".toList) ∧
      ¬ Negotiates (.merge byQuality) locales (request "en;Q=0.5".toList) ∧
      ¬ Negotiates (.merge byQuality) locales (request "en;q=0.5, de;q=nan, uk".toList) := by
  refine ⟨?_, ?_, ?_, ?_, ?_⟩
  · have hentries := entries_request "en;q=0".toList (by decide)
    apply not_negotiates_of_refused
    · rw [ReadsListed, hentries]
      decide
    · rw [listed, hentries]
      decide
    · rw [listed, refused, hentries]
      decide
  · have hentries := entries_request "en;q=0, en-US;q=0.5".toList (by decide)
    apply not_negotiates_of_refused
    · rw [ReadsListed, hentries]
      decide
    · rw [listed, hentries]
      decide
    · rw [listed, refused, hentries]
      decide
  · have hentries := entries_request "en-US; q=0.1, uk;q=0.5".toList (by decide)
    have hbest : Best locales (refused (request "en-US; q=0.1, uk;q=0.5".toList))
        (listed (request "en-US; q=0.1, uk;q=0.5".toList)) (some "uk".toList) := by
      have hlisted : listed (request "en-US; q=0.1, uk;q=0.5".toList) =
          [("en".toList, .finite (13421773 * 2 ^ 122))] ++
            ("uk".toList, .finite (2 ^ 148)) :: [] := by
        rw [listed, hentries]
        decide
      have hrefused : refused (request "en-US; q=0.1, uk;q=0.5".toList) = [] := by
        rw [refused, hentries]
        decide
      rw [hrefused]
      exact .lang hlisted (by decide) (by decide) (by decide)
    refine not_negotiates_of_misread hbest ?_
    rw [ranges, hentries]
    decide
  · have hentries := entries_request "en;Q=0.5".toList (by decide)
    have hbest : Best locales (refused (request "en;Q=0.5".toList))
        (listed (request "en;Q=0.5".toList)) (some "en".toList) := by
      have hlisted : listed (request "en;Q=0.5".toList) =
          [] ++ ("en".toList, .finite (2 ^ 148)) :: [] := by
        rw [listed, hentries]
        decide
      have hrefused : refused (request "en;Q=0.5".toList) = [] := by
        rw [refused, hentries]
        decide
      rw [hrefused]
      exact .lang hlisted (by decide) (by decide) (by decide)
    refine not_negotiates_of_misread hbest ?_
    rw [ranges, hentries]
    decide
  · have hentries := entries_request "en;q=0.5, de;q=nan, uk".toList (by decide)
    rintro ⟨_, horder⟩
    rw [totalPreorderOn_iff, ranges, hentries] at horder
    exact horder (by decide)

end Modo.I18n
