import Mathlib.Data.List.Basic

/-!
# Texts written piece by piece

Two writers produce a text piece by piece, and each piece of the one is compared with the piece
of the other (`Compares`): the same, or two that begin with the same mark and of which neither
begins the other, or nothing at all against something.  The marks are counted, so nothing that
is lost in one place comes back in another: the texts are equal only when all pieces are
(`forall_eq_of_flatten_eq`).
-/

namespace Marked

variable {α : Type*}

/-- A family of texts that begin with the mark and can be told apart from their beginnings. -/
structure Marks [DecidableEq α] {β : Type*} (mark : α) (text : β → List α) : Prop where
  head : ∀ x, (text x).head? = some mark
  count : ∀ x y, (text x).count mark = (text y).count mark
  inj : ∀ x y, text x <+: text y → x = y

/-- The first mark of a text is where it is. -/
theorem append_mark_inj {mark : α} {first first' second second' : List α} (hfirst : mark ∉ first)
    (hfirst' : mark ∉ first') (heq : first ++ mark :: second = first' ++ mark :: second') :
    first = first' ∧ second = second' := by
  rcases List.append_eq_append_iff.mp heq with ⟨middle, hmiddle, htail⟩ | ⟨middle, hmiddle, htail⟩
  · cases middle with
    | nil => exact ⟨by rw [hmiddle, List.append_nil], (List.cons.inj htail).2⟩
    | cons c middle =>
        obtain rfl : mark = c := (List.cons.inj htail).1
        exact absurd (hmiddle ▸ by simp) hfirst'
  · cases middle with
    | nil => exact ⟨by rw [hmiddle, List.append_nil], (List.cons.inj htail).2.symm⟩
    | cons c middle =>
        obtain rfl : mark = c := (List.cons.inj htail).1
        exact absurd (hmiddle ▸ by simp) hfirst

variable [DecidableEq α] {mark : α}

/-- How two pieces compare. -/
inductive Compares (mark : α) : List α → List α → Prop where
  | same (piece : List α) : Compares mark piece piece
  | marked {first second : List α} (hhead : first.head? = some mark)
      (hhead' : second.head? = some mark) (hcount : first.count mark = second.count mark)
      (hnot : ¬ first <+: second) (hnot' : ¬ second <+: first) : Compares mark first second
  | lost (second : List α) : Compares mark [] second

theorem Marks.eq_iff {β : Type*} {text : β → List α} (hmarks : Marks mark text) {x y : β} :
    text x = text y ↔ x = y :=
  ⟨fun heq => hmarks.inj x y (heq ▸ List.prefix_refl _), fun heq => heq ▸ rfl⟩

/-- Two texts of a family. -/
theorem Marks.compares [DecidableEq β] {text : β → List α} (hmarks : Marks mark text) (x y : β) :
    Compares mark (text x) (text y) := by
  by_cases heq : x = y
  · exact heq ▸ .same _
  · exact .marked (hmarks.head x) (hmarks.head y) (hmarks.count x y)
      (fun hprefix => heq (hmarks.inj x y hprefix))
      (fun hprefix => heq (hmarks.inj y x hprefix).symm)

/-- Texts that differ in a field up to a stop that is not in it. -/
theorem Marks.of_field {β : Type*} {field : β → List α} {stop : α}
    (hfield : Function.Injective field) (hstop : ∀ x, stop ∉ field x)
    (hcount : ∀ x y, (field x).count mark = (field y).count mark) {before : List α}
    (hbefore : before.head? = some mark) (tail : List α) :
    Marks mark fun x => before ++ field x ++ stop :: tail where
  head x := by
    obtain ⟨rest, rfl⟩ := List.head?_eq_some_iff.mp hbefore
    rfl
  count x y := by simp only [List.count_append, hcount x y]
  inj x y hprefix := by
    obtain ⟨more, hmore⟩ := hprefix
    simp only [List.append_assoc, List.cons_append] at hmore
    exact hfield (append_mark_inj (hstop x) (hstop y) (List.append_cancel_left hmore)).1

theorem Compares.count_le {first second : List α} (hcompares : Compares mark first second) :
    first.count mark ≤ second.count mark := by
  cases hcompares with
  | same => exact Nat.le_refl _
  | marked _ _ hcount => exact Nat.le_of_eq hcount
  | lost => exact Nat.zero_le _

/-- The texts of the two writers. -/
def firsts (pairs : List (List α × List α)) : List α := (pairs.map Prod.fst).flatten

def seconds (pairs : List (List α × List α)) : List α := (pairs.map Prod.snd).flatten

theorem count_firsts_le {pairs : List (List α × List α)}
    (hpairs : ∀ pair ∈ pairs, Compares mark pair.1 pair.2) :
    (firsts pairs).count mark ≤ (seconds pairs).count mark := by
  induction pairs with
  | nil => exact Nat.le_refl _
  | cons pair pairs ih =>
      obtain ⟨hpair, hpairs⟩ := List.forall_mem_cons.mp hpairs
      simp only [firsts, seconds, List.map_cons, List.flatten_cons, List.count_append] at ih ⊢
      exact Nat.add_le_add hpair.count_le (ih hpairs)

/-- Where both texts have the same marks, no piece loses one. -/
theorem count_eq_of_count_le {pairs : List (List α × List α)}
    (hpairs : ∀ pair ∈ pairs, Compares mark pair.1 pair.2)
    (hle : (seconds pairs).count mark ≤ (firsts pairs).count mark) :
    ∀ pair ∈ pairs, pair.1.count mark = pair.2.count mark := by
  induction pairs with
  | nil => simp
  | cons pair pairs ih =>
      obtain ⟨hpair, hpairs⟩ := List.forall_mem_cons.mp hpairs
      have hrest := count_firsts_le hpairs
      have hfirst := hpair.count_le
      simp only [firsts, seconds, List.map_cons, List.flatten_cons,
        List.count_append] at ih hle hrest
      exact List.forall_mem_cons.mpr ⟨by omega, ih hpairs (by omega)⟩

/-- Text without a mark in front of the second text is seen in the end. -/
theorem eq_nil_of_eq_append {pairs : List (List α × List α)}
    (hpairs : ∀ pair ∈ pairs, Compares mark pair.1 pair.2)
    (hcount : ∀ pair ∈ pairs, pair.1.count mark = pair.2.count mark) {ahead : List α}
    (hahead : mark ∉ ahead) (heq : firsts pairs = ahead ++ seconds pairs) :
    ahead = [] ∧ ∀ pair ∈ pairs, pair.1 = pair.2 := by
  induction pairs generalizing ahead with
  | nil =>
      rw [firsts, seconds, List.map_nil, List.map_nil, List.flatten_nil, List.append_nil] at heq
      exact ⟨heq.symm, by simp⟩
  | cons pair pairs ih =>
      obtain ⟨first, second⟩ := pair
      obtain ⟨hpair, hothers⟩ := List.forall_mem_cons.mp hpairs
      obtain ⟨hmarks, hcounts⟩ := List.forall_mem_cons.mp hcount
      have ih' := fun {ahead} => @ih hothers hcounts ahead
      change first ++ firsts pairs = ahead ++ (second ++ seconds pairs) at heq
      rw [List.forall_mem_cons]
      cases hpair with
      | same =>
          by_cases hmem : mark ∈ first
          · -- the first mark stands at the same place in both texts
            obtain ⟨before, behind, rfl, hbefore⟩ := List.eq_append_cons_of_mem hmem
            have hnot : mark ∉ ahead ++ before := by simp [hahead, hbefore]
            rw [List.append_assoc, List.cons_append, List.append_assoc, List.cons_append,
              ← List.append_assoc ahead] at heq
            obtain ⟨hfirst, hrest⟩ := append_mark_inj hbefore hnot heq
            exact ⟨List.self_eq_append_left.mp hfirst, rfl,
              (ih' List.not_mem_nil (List.append_cancel_left hrest)).2⟩
          · rw [← List.append_assoc, List.append_eq_append_iff] at heq
            obtain ⟨moved, hmoved, hrest⟩ | ⟨moved, hmoved, hrest⟩ := heq
            · have hnot : mark ∉ moved := by
                have hall : mark ∉ ahead ++ first := by simp [hahead, hmem]
                rw [hmoved, List.mem_append, not_or] at hall
                exact hall.2
              obtain ⟨rfl, hpieces⟩ := ih' hnot hrest
              rw [List.append_nil] at hmoved
              exact ⟨List.append_left_eq_self.mp hmoved, rfl, hpieces⟩
            · have hlength := congrArg List.length hmoved
              simp only [List.length_append] at hlength
              obtain rfl : ahead = [] := List.length_eq_zero_iff.mp (by omega)
              obtain rfl : moved = [] := List.length_eq_zero_iff.mp (by omega)
              exact ⟨rfl, rfl, (ih' List.not_mem_nil hrest.symm).2⟩
      | marked hhead hhead' _ hnot hnot' =>
          cases ahead with
          | nil =>
              rcases List.prefix_or_prefix_of_prefix (List.prefix_append first (firsts pairs))
                (heq ▸ List.prefix_append second (seconds pairs)) with hprefix | hprefix
              · exact absurd hprefix hnot
              · exact absurd hprefix hnot'
          | cons c ahead =>
              obtain ⟨rest, rfl⟩ := List.head?_eq_some_iff.mp hhead
              obtain rfl : mark = c := (List.cons.inj heq).1
              exact absurd List.mem_cons_self hahead
      | lost =>
          have hnot : mark ∉ ahead ++ second := by
            rw [List.mem_append, not_or]
            exact ⟨hahead, List.count_eq_zero.mp (hmarks.symm.trans List.count_nil)⟩
          rw [List.nil_append, ← List.append_assoc] at heq
          obtain ⟨hnil, hpieces⟩ := ih' hnot heq
          obtain ⟨rfl, rfl⟩ := List.append_eq_nil_iff.mp hnil
          exact ⟨rfl, rfl, hpieces⟩

/-- Two texts are equal only when all their pieces are. -/
theorem forall_eq_of_flatten_eq {pairs : List (List α × List α)}
    (hpairs : ∀ pair ∈ pairs, Compares mark pair.1 pair.2) :
    firsts pairs = seconds pairs ↔ ∀ pair ∈ pairs, pair.1 = pair.2 := by
  constructor
  · intro heq
    have hcount := count_eq_of_count_le hpairs (heq ▸ Nat.le_refl _)
    exact (eq_nil_of_eq_append hpairs hcount List.not_mem_nil heq).2
  · intro hforall
    exact congrArg List.flatten (List.map_congr_left hforall)

end Marked
