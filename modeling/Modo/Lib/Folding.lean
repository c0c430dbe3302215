import Mathlib.Data.List.Basic
import Mathlib.Logic.ExistsUnique

/-!
# Folds that lose nothing

If a step can be undone on either side (`Cancels`), a fold over a list can be undone for its start,
and for each element when the others are known (`Cancels.foldl_append_cons_eq_iff`).
-/

namespace Folding

open Function (Injective)

variable {σ α : Type*}

/-- A step loses neither the state nor the element. -/
structure Cancels (step : σ → α → σ) : Prop where
  state : ∀ a, Injective fun s => step s a
  element : ∀ s, Injective (step s)

namespace Cancels

variable {step : σ → α → σ} (hstep : Cancels step)

include hstep

/-- The start of a fold is known from its end. -/
theorem foldl_injective (list : List α) : Injective fun s => list.foldl step s := by
  induction list with
  | nil => exact fun _ _ heq => heq
  | cons a list ih => exact ih.comp (hstep.state a)

/-- Another element at one place gives another end. -/
theorem foldl_append_cons_eq_iff (before after : List α) (a b : α) (s : σ) :
    (before ++ a :: after).foldl step s = (before ++ b :: after).foldl step s ↔ a = b := by
  rw [List.foldl_append, List.foldl_append, List.foldl_cons, List.foldl_cons]
  exact (hstep.foldl_injective after).eq_iff.trans (hstep.element _).eq_iff

end Cancels

/-- Lists of one length that differ at one position are the same before it and behind it. -/
theorem exists_of_existsUnique_ne {list other : List α} (hlength : list.length = other.length)
    (hposition : ∃! i : ℕ, list[i]? ≠ other[i]?) :
    ∃ before a b after, list = before ++ a :: after ∧ other = before ++ b :: after ∧ a ≠ b := by
  obtain ⟨i, hi, hunique⟩ := hposition
  have hsame : ∀ j, j ≠ i → list[j]? = other[j]? := fun j hj => by
    by_contra hdiffers
    exact hj (hunique j hdiffers)
  have hbound : i < list.length := by
    by_contra hle
    rw [Nat.not_lt] at hle
    exact hi ((List.getElem?_eq_none hle).trans (List.getElem?_eq_none (hlength ▸ hle)).symm)
  have hbefore : list.take i = other.take i := by
    apply List.ext_getElem?
    intro j
    rw [List.getElem?_take, List.getElem?_take]
    split_ifs with hj
    · exact hsame j (Nat.ne_of_lt hj)
    · rfl
  have hafter : list.drop (i + 1) = other.drop (i + 1) := by
    apply List.ext_getElem?
    intro j
    rw [List.getElem?_drop, List.getElem?_drop]
    exact hsame (i + 1 + j) (by omega)
  have hbound' : i < other.length := hlength ▸ hbound
  refine ⟨list.take i, list[i], other[i], list.drop (i + 1), ?_, ?_, ?_⟩
  · rw [← List.drop_eq_getElem_cons hbound, List.take_append_drop]
  · rw [hbefore, hafter, ← List.drop_eq_getElem_cons hbound', List.take_append_drop]
  · rw [List.getElem?_eq_getElem hbound, List.getElem?_eq_getElem hbound'] at hi
    exact fun heq => hi (congrArg some heq)

end Folding
