import Mathlib.Data.List.Basic
import Mathlib.Logic.Nontrivial.Basic

/-!
# Templates with placeholders

A placeholder begins with an opening marker and ends at the next closing element.  A text is read
from left to right (`Reads`): what is no opening marker stands for itself, and an opening marker
that is never closed takes the rest of the text.

Every text has one reading (`reads_read`, `Reads.unique`), and the reading has the whole text
(`Reads.text_eq`).  A function on templates is described by induction on `Reads`.
-/

namespace Template

variable {α : Type*}

/-- A part of a template. -/
inductive Piece (α : Type*) where
  | char (a : α)
  | hole (body : List α)
  | unclosed (rest : List α)
  deriving DecidableEq

/-- The text of a part. -/
def Piece.text (opening : List α) (closing : α) : Piece α → List α
  | char a => [a]
  | hole body => opening ++ body ++ [closing]
  | unclosed rest => opening ++ rest

/-- The parts of a text, from left to right. -/
inductive Reads (opening : List α) (closing : α) : List α → List (Piece α) → Prop where
  | nil : Reads opening closing [] []
  | char {a : α} {rest : List α} {pieces : List (Piece α)} (hstart : ¬ opening <+: a :: rest)
      (hrest : Reads opening closing rest pieces) :
      Reads opening closing (a :: rest) (.char a :: pieces)
  | hole {body rest : List α} {pieces : List (Piece α)} (hbody : closing ∉ body)
      (hrest : Reads opening closing rest pieces) :
      Reads opening closing (opening ++ (body ++ closing :: rest)) (.hole body :: pieces)
  | unclosed {rest : List α} (hrest : closing ∉ rest) :
      Reads opening closing (opening ++ rest) [.unclosed rest]

variable {opening : List α} {closing : α} {text : List α} {pieces : List (Piece α)}

/-- No character of the text is lost or added. -/
theorem Reads.text_eq (hreads : Reads opening closing text pieces) :
    pieces.flatMap (Piece.text opening closing) = text := by
  induction hreads with
  | nil => rfl
  | char hstart hrest ih => rw [List.flatMap_cons, ih]; rfl
  | hole hbody hrest ih => rw [List.flatMap_cons, ih]; simp [Piece.text]
  | unclosed hrest => simp [Piece.text]

/-- A text without the opening marker is read as its characters. -/
theorem Reads.eq_chars (hreads : Reads opening closing text pieces)
    (hnone : ¬ opening <:+: text) : pieces = text.map .char := by
  induction hreads with
  | nil => rfl
  | char hstart hrest ih =>
      rw [List.map_cons, ih fun h => hnone (List.infix_cons h)]
  | hole hbody hrest ih => exact absurd (List.prefix_append _ _).isInfix hnone
  | unclosed hrest => exact absurd (List.prefix_append _ _).isInfix hnone

/-! ## Two ways to fill a template -/

section Fill

variable {Part β : Type*} [DecidableEq Part] {special : Part} {f g : Part → List β}

theorem length_flatMap_add (hagree : ∀ part, part ≠ special → f part = g part)
    (parts : List Part) :
    (parts.flatMap f).length + parts.count special * (g special).length =
      (parts.flatMap g).length + parts.count special * (f special).length := by
  induction parts with
  | nil => simp
  | cons part parts ih =>
      rw [List.flatMap_cons, List.flatMap_cons, List.length_append, List.length_append,
        List.count_cons]
      by_cases hpart : part = special
      · subst hpart
        simp only [beq_self_eq_true, if_true, Nat.add_mul, Nat.one_mul]
        omega
      · simp only [beq_iff_eq, hpart, if_false, hagree part hpart, Nat.add_zero]
        omega

/-- Functions that differ on one part at most give the same text when they agree on it too, or
it does not occur. -/
theorem flatMap_eq_iff (hagree : ∀ part, part ≠ special → f part = g part)
    (parts : List Part) :
    parts.flatMap f = parts.flatMap g ↔ special ∉ parts ∨ f special = g special := by
  constructor
  · intro heq
    by_cases hmem : special ∈ parts
    · right
      have hcount : 0 < parts.count special := List.count_pos_iff.mpr hmem
      have hlength := length_flatMap_add hagree parts
      rw [heq] at hlength
      have hsame : (f special).length = (g special).length :=
        (Nat.eq_of_mul_eq_mul_left hcount (Nat.add_left_cancel hlength)).symm
      -- in front of the first occurrence the texts are the same
      obtain ⟨before, after, rfl, hbefore⟩ := List.eq_append_cons_of_mem hmem
      have hprefix : before.flatMap f = before.flatMap g := by
        rw [List.flatMap_def, List.flatMap_def, List.map_congr_left fun part hpart =>
          hagree part fun h => hbefore (h ▸ hpart)]
      rw [List.flatMap_append, List.flatMap_append, hprefix, List.append_cancel_left_eq,
        List.flatMap_cons, List.flatMap_cons] at heq
      exact List.append_inj_left heq hsame
    · exact Or.inl hmem
  · intro hspecial
    rw [List.flatMap_def, List.flatMap_def]
    congr 1
    refine List.map_congr_left fun part hpart => ?_
    by_cases h : part = special
    · subst h
      exact hspecial.resolve_left fun hnot => hnot hpart
    · exact hagree part h

end Fill

/-! ## All ways to fill a template -/

section Filling

variable {α β : Type*}

/-- The text of parts that are characters or filled in. -/
def filled (fill : β → List α) (parts : List (α ⊕ β)) : List α :=
  parts.flatMap (Sum.elim (fun a => [a]) fill)

theorem filled_inr (fill : β → List α) (b : β) (parts : List (α ⊕ β)) :
    filled fill (.inr b :: parts) = fill b ++ filled fill parts := rfl

variable [Nontrivial α]

theorem filled_ne_nil (part : α ⊕ β) (parts : List (α ⊕ β)) :
    ∃ fill : β → List α, filled fill (part :: parts) ≠ [] := by
  obtain ⟨a, -, -⟩ := exists_pair_ne α
  refine ⟨fun _ => [a], ?_⟩
  cases part with
  | inl a => exact List.cons_ne_nil _ _
  | inr b => exact List.cons_ne_nil _ _

/-- A character is not what every filling of a part begins with. -/
theorem exists_filled_ne (a : α) (b : β) (parts others : List (α ⊕ β)) :
    ∃ fill : β → List α, filled fill (.inl a :: parts) ≠ filled fill (.inr b :: others) := by
  obtain ⟨other, hother⟩ := exists_ne a
  refine ⟨fun _ => [other], fun heq => ?_⟩
  exact hother (List.cons.inj heq).1.symm

theorem eq_of_filled_inr_eq {b other : β} {parts others : List (α ⊕ β)}
    (h : ∀ fill : β → List α, filled fill (.inr b :: parts) = filled fill (.inr other :: others)) :
    b = other := by
  classical
  obtain ⟨x, y, hxy⟩ := exists_pair_ne α
  by_contra hne
  have heq := h fun key => if key = b then [x] else [y]
  rw [filled_inr, filled_inr, if_pos rfl, if_neg (Ne.symm hne)] at heq
  exact hxy (List.cons.inj heq).1

/-- Parts are known by the texts that the fillings make of them. -/
theorem parts_eq_of_filled_eq {parts others : List (α ⊕ β)}
    (h : ∀ fill : β → List α, filled fill parts = filled fill others) : parts = others := by
  induction parts generalizing others with
  | nil =>
      cases others with
      | nil => rfl
      | cons part others =>
          obtain ⟨fill, hfill⟩ := filled_ne_nil part others
          exact absurd (h fill).symm hfill
  | cons part parts ih =>
      cases others with
      | nil =>
          obtain ⟨fill, hfill⟩ := filled_ne_nil part parts
          exact absurd (h fill) hfill
      | cons other others =>
          cases part with
          | inl a =>
              cases other with
              | inl a' =>
                  obtain ⟨fill⟩ : Nonempty (β → List α) := ⟨fun _ => []⟩
                  obtain rfl : a = a' := (List.cons.inj (h fill)).1
                  rw [ih fun fill => (List.cons.inj (h fill)).2]
              | inr b =>
                  obtain ⟨fill, hfill⟩ := exists_filled_ne a b parts others
                  exact absurd (h fill) hfill
          | inr b =>
              cases other with
              | inl a =>
                  obtain ⟨fill, hfill⟩ := exists_filled_ne a b others parts
                  exact absurd (h fill).symm hfill
              | inr b' =>
                  obtain rfl := eq_of_filled_inr_eq h
                  rw [ih fun fill => List.append_cancel_left (h fill)]

end Filling

/-! ## The reading of a text -/

section Scan

variable [DecidableEq α] (opening : List α) (closing : α)

/-- The loop that collects what stands in front of the closing element, whether that is there, and
what stands behind. -/
def takeUntil : List α → List α → List α × Bool × List α
  | taken, [] => (taken, false, [])
  | taken, a :: rest =>
      if a = closing then (taken, true, rest) else takeUntil (taken ++ [a]) rest

theorem takeUntil_of_notMem {body : List α} (hbody : closing ∉ body) (taken rest : List α) :
    takeUntil closing taken (body ++ closing :: rest) = (taken ++ body, true, rest) := by
  induction body generalizing taken with
  | nil => simp [takeUntil]
  | cons a body ih =>
      rw [List.mem_cons, not_or] at hbody
      rw [List.cons_append, takeUntil, if_neg (Ne.symm hbody.1), ih hbody.2, List.append_assoc,
        List.singleton_append]

theorem takeUntil_eq_self {rest : List α} (hrest : closing ∉ rest) (taken : List α) :
    takeUntil closing taken rest = (taken ++ rest, false, []) := by
  induction rest generalizing taken with
  | nil => simp [takeUntil]
  | cons a rest ih =>
      rw [List.mem_cons, not_or] at hrest
      rw [takeUntil, if_neg (Ne.symm hrest.1), ih hrest.2, List.append_assoc,
        List.singleton_append]

/-- A text holds the closing element, or it does not. -/
theorem exists_closing (text : List α) :
    (∃ body rest, text = body ++ closing :: rest ∧ closing ∉ body) ∨ closing ∉ text := by
  by_cases hmem : closing ∈ text
  · obtain ⟨body, rest, htext, hbody⟩ := List.eq_append_cons_of_mem hmem
    exact Or.inl ⟨body, rest, htext, hbody⟩
  · exact Or.inr hmem

variable {closing} in
theorem takeUntil_eq_closed {text body after : List α}
    (hresult : takeUntil closing [] text = (body, true, after)) :
    text = body ++ closing :: after ∧ closing ∉ body := by
  rcases exists_closing closing text with ⟨first, rest, rfl, hfirst⟩ | hnone
  · rw [takeUntil_of_notMem closing hfirst, List.nil_append, Prod.mk.injEq,
      Prod.mk.injEq] at hresult
    obtain ⟨rfl, -, rfl⟩ := hresult
    exact ⟨rfl, hfirst⟩
  · rw [takeUntil_eq_self closing hnone] at hresult
    cases hresult

variable {closing} in
theorem takeUntil_eq_open {text body after : List α}
    (hresult : takeUntil closing [] text = (body, false, after)) :
    text = body ∧ closing ∉ body := by
  rcases exists_closing closing text with ⟨first, rest, rfl, hfirst⟩ | hnone
  · rw [takeUntil_of_notMem closing hfirst] at hresult
    cases hresult
  · rw [takeUntil_eq_self closing hnone, List.nil_append, Prod.mk.injEq] at hresult
    exact ⟨hresult.1, hresult.1 ▸ hnone⟩

/-- What stands behind is a part of the text, without the closing element. -/
theorem length_takeUntil_le (taken text : List α) :
    (takeUntil closing taken text).2.2.length ≤ text.length := by
  rcases exists_closing closing text with ⟨body, rest, rfl, hbody⟩ | hnone
  · rw [takeUntil_of_notMem closing hbody, List.length_append, List.length_cons]
    exact Nat.le_trans (Nat.le_succ _) (Nat.le_add_left _ _)
  · rw [takeUntil_eq_self closing hnone]
    exact Nat.zero_le _

theorem length_after_lt {opening : List α} (hopening : opening ≠ []) {a : α} {rest : List α}
    {result : List α × Bool × List α}
    (hresult : takeUntil closing [] ((a :: rest).drop opening.length) = result) :
    result.2.2.length < (a :: rest).length := by
  have hle := length_takeUntil_le closing [] ((a :: rest).drop opening.length)
  have hpos := List.length_pos_of_ne_nil hopening
  rw [hresult, List.length_drop, List.length_cons] at hle
  rw [List.length_cons]
  omega

/-- The parts of a text. -/
def read (hopening : opening ≠ []) : List α → List (Piece α)
  | [] => []
  | a :: rest =>
      if opening.isPrefixOf (a :: rest) then
        match _hresult : takeUntil closing [] ((a :: rest).drop opening.length) with
        | (body, true, after) => .hole body :: read hopening after
        | (body, false, _) => [.unclosed body]
      else .char a :: read hopening rest
termination_by text => text.length
decreasing_by
  · exact length_after_lt closing hopening _hresult
  · exact Nat.lt_succ_self _

variable {opening closing}

/-- **Every text has a reading.** -/
theorem reads_read (hopening : opening ≠ []) (text : List α) :
    Reads opening closing text (read opening closing hopening text) := by
  cases text with
  | nil =>
      rw [read]
      exact .nil
  | cons a rest =>
      rw [read]
      split
      · rename_i hprefix
        obtain ⟨inner, hinner⟩ := List.isPrefixOf_iff_prefix.mp hprefix
        have hdrop : (a :: rest).drop opening.length = inner := by
          rw [← hinner, List.drop_left]
        split
        · rename_i body after hresult
          have hlength : after.length < rest.length + 1 :=
            length_after_lt closing hopening hresult
          rw [hdrop] at hresult
          obtain ⟨rfl, hbody⟩ := takeUntil_eq_closed hresult
          rw [← hinner]
          exact .hole hbody (reads_read hopening after)
        · rename_i body after hresult
          rw [hdrop] at hresult
          obtain ⟨rfl, hnone⟩ := takeUntil_eq_open hresult
          rw [← hinner]
          exact .unclosed hnone
      · rename_i hstart
        rw [List.isPrefixOf_iff_prefix] at hstart
        exact .char hstart (reads_read hopening rest)
termination_by text.length

/-- **A text has one reading.** -/
theorem Reads.unique (hopening : opening ≠ []) {others : List (Piece α)}
    (hreads : Reads opening closing text pieces) (hothers : Reads opening closing text others) :
    pieces = others := by
  induction hreads generalizing others with
  | nil =>
      generalize hempty : ([] : List α) = text at hothers
      cases hothers with
      | nil => rfl
      | char => cases hempty
      | hole | unclosed => simp [hopening] at hempty
  | @char a rest pieces hstart hrest ih =>
      generalize htext : a :: rest = text at hothers
      cases hothers with
      | nil => cases htext
      | char _ hother =>
          obtain ⟨rfl, rfl⟩ := List.cons.inj htext
          rw [ih hother]
      | hole | unclosed => exact absurd (htext ▸ List.prefix_append _ _) hstart
  | @hole body rest pieces hbody hrest ih =>
      generalize htext : opening ++ (body ++ closing :: rest) = text at hothers
      cases hothers with
      | nil => simp [hopening] at htext
      | char hstart => exact absurd (htext ▸ List.prefix_append _ _) hstart
      | hole hother hothers =>
          have hcut := congrArg (takeUntil closing []) (List.append_cancel_left htext)
          rw [takeUntil_of_notMem closing hbody, takeUntil_of_notMem closing hother] at hcut
          simp only [List.nil_append, Prod.mk.injEq, true_and] at hcut
          obtain ⟨rfl, rfl⟩ := hcut
          rw [ih hothers]
      | unclosed hother =>
          rw [← List.append_cancel_left htext] at hother
          simp at hother
  | @unclosed rest hnone =>
      generalize htext : opening ++ rest = text at hothers
      cases hothers with
      | nil => simp [hopening] at htext
      | char hstart => exact absurd (htext ▸ List.prefix_append _ _) hstart
      | hole =>
          rw [List.append_cancel_left htext] at hnone
          simp at hnone
      | unclosed => rw [List.append_cancel_left htext]

end Scan

end Template
