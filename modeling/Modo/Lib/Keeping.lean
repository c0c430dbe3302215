import Mathlib.Data.List.Basic

/-!
# Lists rewritten element by element

`Keeps p first second` says that every element of the first list became one or more of the second,
where those with `p` stayed and no other became one of them.  So the second list is cut by the
elements with `p` as the first one is.
-/

variable {α : Type*} {p : α → Prop}

/-- Each element became a non-empty list; those with `p` stayed and no other became one. -/
inductive Keeps (p : α → Prop) : List α → List α → Prop
  | nil : Keeps p [] []
  | kept {x : α} {rest result : List α} (hx : p x) (hrest : Keeps p rest result) :
      Keeps p (x :: rest) (x :: result)
  | changed {x : α} {image rest result : List α} (hx : ¬p x) (hne : image ≠ [])
      (himage : ∀ y ∈ image, ¬p y) (hrest : Keeps p rest result) :
      Keeps p (x :: rest) (image ++ result)

namespace Keeps

theorem eq_nil_iff {first second : List α} (h : Keeps p first second) :
    first = [] ↔ second = [] := by
  cases h with
  | nil => simp
  | kept => simp
  | changed _ hne _ _ => simp [hne]

theorem mem_iff {first second : List α} (h : Keeps p first second) {x : α} (hx : p x) :
    x ∈ first ↔ x ∈ second := by
  induction h with
  | nil => rfl
  | kept _ _ ih => rw [List.mem_cons, List.mem_cons, ih]
  | changed hother _ himage _ ih =>
      rw [List.mem_cons, List.mem_append, ih]
      constructor
      · rintro (rfl | hrest)
        · exact absurd hx hother
        · exact .inr hrest
      · rintro (hmem | hrest)
        · exact absurd hx (himage x hmem)
        · exact .inr hrest

theorem head?_iff {first second : List α} (h : Keeps p first second) {x : α} (hx : p x) :
    first.head? = some x ↔ second.head? = some x := by
  cases h with
  | nil => rfl
  | kept => rfl
  | changed hother hne himage _ =>
      obtain ⟨y, image, rfl⟩ := List.exists_cons_of_ne_nil hne
      simp only [List.head?_cons, List.cons_append, Option.some.injEq]
      constructor
      · rintro rfl
        exact absurd hx hother
      · rintro rfl
        exact absurd hx (himage y List.mem_cons_self)

theorem append {first second first' second' : List α} (h : Keeps p first second)
    (h' : Keeps p first' second') : Keeps p (first ++ first') (second ++ second') := by
  induction h with
  | nil => exact h'
  | kept hx _ ih => exact ih.kept hx
  | changed hx hne himage _ ih =>
      rw [List.cons_append, List.append_assoc]
      exact ih.changed hx hne himage

/-- The parts of a list are rewritten one after the other. -/
theorem exists_append {first first' second : List α} (h : Keeps p (first ++ first') second) :
    ∃ front back, second = front ++ back ∧ Keeps p first front ∧ Keeps p first' back := by
  induction first generalizing second with
  | nil => exact ⟨[], second, rfl, .nil, h⟩
  | cons x first ih =>
      cases h with
      | kept hx hrest =>
          obtain ⟨front, back, rfl, hfront, hback⟩ := ih hrest
          exact ⟨x :: front, back, rfl, hfront.kept hx, hback⟩
      | changed hx hne himage hrest =>
          obtain ⟨front, back, rfl, hfront, hback⟩ := ih hrest
          exact ⟨_ ++ front, back, (List.append_assoc ..).symm,
            hfront.changed hx hne himage, hback⟩

/-- An element that stayed still stands between what the parts became. -/
theorem exists_append_cons {first rest second : List α} {x : α} (hx : p x)
    (h : Keeps p (first ++ x :: rest) second) :
    ∃ front back, second = front ++ x :: back ∧ Keeps p first front ∧ Keeps p rest back := by
  obtain ⟨front, back, rfl, hfront, hback⟩ := h.exists_append
  cases hback with
  | kept _ hrest => exact ⟨front, _, rfl, hfront, hrest⟩
  | changed hother _ _ _ => exact absurd hx hother

theorem getLast?_iff {first second : List α} (h : Keeps p first second) {x : α} (hx : p x) :
    first.getLast? = some x ↔ second.getLast? = some x := by
  constructor
  · intro hlast
    obtain ⟨front, rfl⟩ := List.getLast?_eq_some_iff.mp hlast
    obtain ⟨front, back, rfl, -, hback⟩ := h.exists_append_cons hx
    rw [hback.eq_nil_iff.mp rfl, List.getLast?_concat]
  · intro hlast
    rcases List.eq_nil_or_concat' first with rfl | ⟨front, y, rfl⟩
    · rw [h.eq_nil_iff.mp rfl] at hlast
      cases hlast
    · obtain ⟨front, back, rfl, -, hback⟩ := h.exists_append
      have hmem : x ∈ back := by
        have hne : back ≠ [] := fun hnil => absurd (hback.eq_nil_iff.mpr hnil) (by simp)
        rw [List.getLast?_append_of_ne_nil _ hne] at hlast
        exact List.mem_of_mem_getLast? hlast
      rw [List.getLast?_concat, List.mem_singleton.mp ((hback.mem_iff hx).mpr hmem)]

/-- Lists that are rewritten one element at a time. -/
theorem map {f : α → α} (hkept : ∀ x, p x → f x = x) (hchanged : ∀ x, ¬p x → ¬p (f x))
    (values : List α) : Keeps p values (values.map f) := by
  induction values with
  | nil => exact .nil
  | cons x rest ih =>
      by_cases hx : p x
      · rw [List.map_cons, hkept x hx]
        exact ih.kept hx
      · have himage : ∀ y ∈ [f x], ¬p y := List.forall_mem_singleton.mpr (hchanged x hx)
        exact ih.changed hx (List.cons_ne_nil _ _) himage

end Keeps
