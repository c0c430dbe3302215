import Mathlib.Data.List.Nodup
import Mathlib.Order.Lattice

/-!
# Stable sorting by a comparator

A stable sort promises something for the lists that its comparator orders totally, and nothing for
the others: there it may return the items in any order, or panic.

`Sorts.find?_eq_some` says which item of a sorted list a search finds: a least one, and the earliest
of its equals.
-/

namespace Sorting

variable {α : Type*} {cmp : α → α → Ordering} {items sorted : List α}

/-- A comparator is a total preorder on a list. -/
structure TotalPreorderOn (cmp : α → α → Ordering) (items : List α) : Prop where
  swap : ∀ a ∈ items, ∀ b ∈ items, cmp b a = (cmp a b).swap
  trans : ∀ a ∈ items, ∀ b ∈ items, ∀ c ∈ items, cmp a b ≠ .gt → cmp b c ≠ .gt → cmp a c ≠ .gt

/-- The items in order; those that compare equal stay as they are. -/
structure Sorts (cmp : α → α → Ordering) (items sorted : List α) : Prop where
  perm : sorted.Perm items
  pairwise : sorted.Pairwise fun a b => cmp a b ≠ .gt
  stable : ∀ a ∈ items,
    sorted.filter (fun b => cmp a b == .eq) = items.filter fun b => cmp a b == .eq

/-- `sort_by`; without a result it panics. -/
structure StableSort (cmp : α → α → Ordering) where
  run : List α → Option (List α)
  sorts : ∀ items, TotalPreorderOn cmp items → ∃ sorted, run items = some sorted ∧
    Sorts cmp items sorted

theorem TotalPreorderOn.refl (horder : TotalPreorderOn cmp items) {a : α} (ha : a ∈ items) :
    cmp a a = .eq := by
  have hswap := horder.swap a ha a ha
  cases hcmp : cmp a a with
  | eq => rfl
  | lt => rw [hcmp] at hswap; cases hswap
  | gt => rw [hcmp] at hswap; cases hswap

/-- A search in a sorted list finds a least item, and the earliest of its equals. -/
theorem Sorts.find?_eq_some (hsorts : Sorts cmp items sorted)
    (horder : TotalPreorderOn cmp items) {p : α → Bool} {first : α}
    (hfind : sorted.find? p = some first) :
    (∀ item ∈ items, p item = true → cmp first item ≠ .gt) ∧
      (items.filter fun item => cmp first item == .eq).find? p = some first := by
  obtain ⟨hp, before, after, hsorted, hbefore⟩ := List.find?_eq_some_iff_append.mp hfind
  have hmem : first ∈ items := hsorts.perm.mem_iff.mp (by simp [hsorted])
  constructor
  · intro item hitem hpitem
    have hitem' : item ∈ sorted := hsorts.perm.mem_iff.mpr hitem
    have hpairwise := hsorts.pairwise
    rw [hsorted] at hitem' hpairwise
    rcases List.mem_append.mp hitem' with hin | hin
    · exact absurd hpitem (by simpa using hbefore item hin)
    rcases List.mem_cons.mp hin with rfl | hin
    · rw [horder.refl hmem]
      exact Ordering.noConfusion
    · exact List.rel_of_pairwise_cons (List.pairwise_append.mp hpairwise).2.1 hin
  · rw [← hsorts.stable first hmem, hsorted, List.filter_append, List.filter_cons_of_pos
      (by simp [horder.refl hmem])]
    refine List.find?_eq_some_iff_append.mpr ⟨hp, _, _, rfl, fun item hin => ?_⟩
    exact hbefore item (List.mem_of_mem_filter hin)

theorem Sorts.find?_eq_none (hsorts : Sorts cmp items sorted) {p : α → Bool} :
    sorted.find? p = none ↔ items.find? p = none := by
  rw [List.find?_eq_none, List.find?_eq_none]
  constructor
  · exact fun h item hitem => h item (hsorts.perm.mem_iff.mpr hitem)
  · exact fun h item hitem => h item (hsorts.perm.mem_iff.mp hitem)

/-! ## Sorting by a key -/

section Key

variable {K : Type*} [LinearOrder K] {first second : List α}

theorem mem_of_filter_eq {key : α → K}
    (hfilter : ∀ k, first.filter (fun a => key a = k) = second.filter fun a => key a = k) {a : α}
    (ha : a ∈ first) : a ∈ second := by
  have hfiltered : a ∈ first.filter fun b => key b = key a := by simpa using ha
  rw [hfilter] at hfiltered
  exact List.mem_of_mem_filter hfiltered

/-- Sorted lists are equal when they have the same items of every key. -/
theorem eq_of_filter_eq {key : α → K} (hfirst : first.Pairwise fun a b => key a ≤ key b)
    (hsecond : second.Pairwise fun a b => key a ≤ key b)
    (hfilter : ∀ k, first.filter (fun a => key a = k) = second.filter fun a => key a = k) :
    first = second := by
  induction first generalizing second with
  | nil =>
      cases second with
      | nil => rfl
      | cons y ys =>
          exact absurd (mem_of_filter_eq (fun k => (hfilter k).symm) List.mem_cons_self)
            List.not_mem_nil
  | cons x xs ih =>
      cases second with
      | nil => exact absurd (mem_of_filter_eq hfilter List.mem_cons_self) List.not_mem_nil
      | cons y ys =>
          -- the heads have the least key, and so are the first of its items
          have hle : ∀ {a b : α} {rest : List α}, (a :: rest).Pairwise (fun a b => key a ≤ key b) →
              b ∈ a :: rest → key a ≤ key b := by
            intro a b rest hpairwise hb
            rcases List.mem_cons.mp hb with rfl | hb
            · exact le_refl _
            · exact List.rel_of_pairwise_cons hpairwise hb
          have hkey : key x = key y := le_antisymm
            (hle hfirst (mem_of_filter_eq (fun k => (hfilter k).symm) List.mem_cons_self))
            (hle hsecond (mem_of_filter_eq hfilter List.mem_cons_self))
          have hhead := hfilter (key x)
          rw [List.filter_cons_of_pos (by simp), List.filter_cons_of_pos (by simp [hkey]),
            List.cons.injEq] at hhead
          obtain ⟨rfl, -⟩ := hhead
          rw [ih (List.Pairwise.of_cons hfirst) (List.Pairwise.of_cons hsecond) fun k => ?_]
          have hk := hfilter k
          by_cases hx : key x = k
          · rw [List.filter_cons_of_pos (by simpa using hx),
              List.filter_cons_of_pos (by simpa using hx)] at hk
            exact (List.cons.inj hk).2
          · rwa [List.filter_cons_of_neg (by simpa using hx),
              List.filter_cons_of_neg (by simpa using hx)] at hk

theorem filter_mergeSort {le : α → α → Bool} (htrans : ∀ a b c, le a b → le b c → le a c)
    (htotal : ∀ a b, (le a b || le b a) = true) {p : α → Bool}
    (hp : (items.filter p).Pairwise fun a b => le a b = true) :
    (items.mergeSort le).filter p = items.filter p := by
  have hsub : (items.filter p).Sublist ((items.mergeSort le).filter p) := by
    have h := (List.sublist_mergeSort htrans htotal hp List.filter_sublist).filter p
    rwa [List.filter_filter, show (fun a => p a && p a) = p from funext fun a => Bool.and_self _]
      at h
  refine (hsub.eq_of_length ?_).symm
  exact ((List.mergeSort_perm items le).filter p).length_eq.symm

theorem keyLe_trans (key : α → K) (a b c : α) (hab : decide (key a ≤ key b) = true)
    (hbc : decide (key b ≤ key c) = true) : decide (key a ≤ key c) = true :=
  decide_eq_true (le_trans (of_decide_eq_true hab) (of_decide_eq_true hbc))

theorem keyLe_total (key : α → K) (a b : α) :
    (decide (key a ≤ key b) || decide (key b ≤ key a)) = true := by
  rw [Bool.or_eq_true, decide_eq_true_iff, decide_eq_true_iff]
  exact le_total _ _

theorem pairwise_mergeSort_key (key : α → K) (items : List α) :
    (items.mergeSort fun a b => decide (key a ≤ key b)).Pairwise fun a b => key a ≤ key b :=
  (List.pairwise_mergeSort (keyLe_trans key) (keyLe_total key) items).imp of_decide_eq_true

theorem filter_mergeSort_key (key : α → K) (items : List α) (k : K) :
    (items.mergeSort fun a b => decide (key a ≤ key b)).filter (fun a => key a = k) =
      items.filter fun a => key a = k := by
  refine filter_mergeSort (keyLe_trans key) (keyLe_total key)
    (List.pairwise_of_forall_mem_list fun a ha b hb => ?_)
  have hka : key a = k := by simpa using List.of_mem_filter ha
  have hkb : key b = k := by simpa using List.of_mem_filter hb
  rw [hka, hkb]
  exact decide_eq_true (le_refl k)

/-- Where the keys differ, the items of a key stay the same under a permutation. -/
theorem filter_eq_of_perm {key : α → K} (hperm : first.Perm second)
    (hnodup : (first.map key).Nodup) (k : K) :
    first.filter (fun a => key a = k) = second.filter fun a => key a = k := by
  have hfiltered := hperm.filter fun a => key a = k
  have hlength : (first.filter fun a => key a = k).length ≤ 1 := by
    have hcount := List.nodup_iff_count_le_one.mp hnodup k
    rwa [List.count, List.countP_map, List.countP_eq_length_filter] at hcount
  cases hfirst : first.filter fun a => key a = k with
  | nil => rw [hfirst, List.nil_perm] at hfiltered; rw [hfiltered]
  | cons a rest =>
      rw [hfirst] at hlength hfiltered
      rw [List.eq_nil_of_length_eq_zero (Nat.le_zero.mp (Nat.le_of_succ_le_succ hlength))]
        at hfiltered ⊢
      exact List.singleton_perm.mp hfiltered

end Key

/-! ## A stable sort -/

/-- A merge sort of the items as members of their list, where the comparator is a total preorder. -/
def mergeSort (cmp : α → α → Ordering) (items : List α) : List α :=
  (items.attach.mergeSort fun a b => cmp a.1 b.1 != .gt).map Subtype.val

theorem sorts_mergeSort (horder : TotalPreorderOn cmp items) :
    Sorts cmp items (mergeSort cmp items) := by
  have htrans : ∀ a b c : { a // a ∈ items }, (cmp a.1 b.1 != .gt) = true →
      (cmp b.1 c.1 != .gt) = true → (cmp a.1 c.1 != .gt) = true := by
    intro a b c hab hbc
    rw [bne_iff_ne] at hab hbc ⊢
    exact horder.trans a.1 a.2 b.1 b.2 c.1 c.2 hab hbc
  have htotal : ∀ a b : { a // a ∈ items },
      ((cmp a.1 b.1 != .gt) || (cmp b.1 a.1 != .gt)) = true := by
    intro a b
    rw [horder.swap a.1 a.2 b.1 b.2]
    cases cmp a.1 b.1 <;> rfl
  refine ⟨?_, ?_, fun a ha => ?_⟩
  · have hperm := (List.mergeSort_perm items.attach
      fun a b => cmp a.1 b.1 != .gt).map Subtype.val
    rwa [List.attach_map_subtype_val] at hperm
  · rw [mergeSort, List.pairwise_map]
    refine (List.pairwise_mergeSort htrans htotal items.attach).imp fun h => ?_
    exact bne_iff_ne.mp h
  · -- items that are equal to `a` are equal to each other
    have hequal : ∀ b ∈ items, ∀ c ∈ items, cmp a b = .eq → cmp a c = .eq → cmp b c ≠ .gt := by
      intro b hb c hc hab hac
      refine horder.trans b hb a ha c hc ?_ (by rw [hac]; exact Ordering.noConfusion)
      rw [horder.swap a ha b hb, hab]
      exact Ordering.noConfusion
    have hpairwise : (items.attach.filter fun b => cmp a b.1 == .eq).Pairwise
        fun b c => (cmp b.1 c.1 != .gt) = true := by
      refine List.pairwise_of_forall_mem_list fun b hb c hc => bne_iff_ne.mpr ?_
      exact hequal b.1 b.2 c.1 c.2 (by simpa using List.of_mem_filter hb)
        (by simpa using List.of_mem_filter hc)
    calc
      (mergeSort cmp items).filter (fun b => cmp a b == .eq)
        = ((items.attach.mergeSort fun b c => cmp b.1 c.1 != .gt).filter
            fun b => cmp a b.1 == .eq).map Subtype.val := List.filter_map
      _ = (items.attach.filter fun b => cmp a b.1 == .eq).map Subtype.val := by
          rw [filter_mergeSort htrans htotal hpairwise]
      _ = items.filter fun b => cmp a b == .eq := by
          conv_rhs => rw [← List.attach_map_subtype_val items, List.filter_map]
          rfl

/-- The merge sort is a stable sort. -/
def StableSort.merge (cmp : α → α → Ordering) : StableSort cmp where
  run items := some (mergeSort cmp items)
  sorts _ horder := ⟨_, rfl, sorts_mergeSort horder⟩

end Sorting
