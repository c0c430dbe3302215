import Mathlib.Algebra.BigOperators.Group.List.Basic
import Mathlib.SetTheory.Cardinal.Finite

/-!
# Rejection sampling

Values are drawn from a stream, some are accepted, and each accepted one is read as an outcome.

`card_sequences` counts the sequences of accepted values with given outcomes, and
`exists_le_length_accepted` says that enough values are accepted in time.
-/

namespace Sampling

variable {α β : Type*}

/-! ## The first values of a stream -/

/-- The values from a position on. -/
def window (stream : ℕ → α) (start : ℕ) : ℕ → List α
  | 0 => []
  | count + 1 => stream start :: window stream (start + 1) count

theorem window_add (stream : ℕ → α) (start first second : ℕ) :
    window stream start (first + second) =
      window stream start first ++ window stream (start + first) second := by
  induction first generalizing start with
  | zero => simp [window]
  | succ first ih =>
      rw [Nat.add_right_comm, window, ih, window, List.cons_append, Nat.add_right_comm start,
        Nat.add_assoc]

/-- If values keep being accepted, any number of them is accepted in time. -/
theorem exists_le_length_accepted {accept : α → Bool} {stream : ℕ → α}
    (hkeeps : ∀ start, ∃ index ≥ start, accept (stream index) = true) (count : ℕ) :
    ∃ rounds, count ≤ ((window stream 0 rounds).filter accept).length := by
  induction count with
  | zero => exact ⟨0, Nat.zero_le _⟩
  | succ count ih =>
      obtain ⟨rounds, hrounds⟩ := ih
      obtain ⟨index, hindex, haccept⟩ := hkeeps rounds
      obtain ⟨more, rfl⟩ := Nat.exists_eq_add_of_le hindex
      refine ⟨rounds + (more + 1), ?_⟩
      have hlast : window stream (rounds + more) 1 = [stream (rounds + more)] := rfl
      rw [window_add, window_add, Nat.zero_add, hlast, List.filter_append, List.filter_append,
        List.filter_singleton, haccept, cond_true]
      simp only [List.length_append, List.length_singleton]
      omega

/-! ## How many sequences have given outcomes -/

/-- The sequences of accepted values with these outcomes. -/
def Sequences (accept : α → Bool) (outcome : α → β) (outcomes : List β) : Type _ :=
  {values : List α // (∀ value ∈ values, accept value = true) ∧ values.map outcome = outcomes}

/-- The accepted values with this outcome. -/
def Values (accept : α → Bool) (outcome : α → β) (result : β) : Type _ :=
  {value : α // accept value = true ∧ outcome value = result}

/-- A sequence is its first value and the rest. -/
def sequencesCons (accept : α → Bool) (outcome : α → β) (result : β) (outcomes : List β) :
    Sequences accept outcome (result :: outcomes) ≃
      Values accept outcome result × Sequences accept outcome outcomes where
  toFun
    | ⟨[], hvalues⟩ => absurd hvalues.2 (by simp)
    | ⟨value :: values, hvalues⟩ =>
        (⟨value, hvalues.1 value List.mem_cons_self, (List.cons.inj hvalues.2).1⟩,
          ⟨values, fun other hother => hvalues.1 other (List.mem_cons_of_mem _ hother),
            (List.cons.inj hvalues.2).2⟩)
  invFun pair :=
    ⟨pair.1.1 :: pair.2.1, List.forall_mem_cons.mpr ⟨pair.1.2.1, pair.2.2.1⟩, by
      rw [List.map_cons, pair.1.2.2, pair.2.2.2]⟩
  left_inv
    | ⟨[], hvalues⟩ => absurd hvalues.2 (by simp)
    | ⟨_ :: _, _⟩ => rfl
  right_inv _ := rfl

/-- Each outcome is produced independently of the others. -/
theorem card_sequences (accept : α → Bool) (outcome : α → β) (outcomes : List β) :
    Nat.card (Sequences accept outcome outcomes) =
      (outcomes.map fun result => Nat.card (Values accept outcome result)).prod := by
  induction outcomes with
  | nil =>
      have hunique : Nat.card (Sequences accept outcome []) = 1 := by
        refine Nat.card_eq_one_iff_exists.mpr ⟨⟨[], by simp, rfl⟩, ?_⟩
        intro ⟨values, _, hvalues⟩
        exact Subtype.ext (List.map_eq_nil_iff.mp hvalues)
      rw [hunique, List.map_nil, List.prod_nil]
  | cons result outcomes ih =>
      rw [Nat.card_congr (sequencesCons accept outcome result outcomes), Nat.card_prod, ih,
        List.map_cons, List.prod_cons]

/-- If every outcome has as many values, all lists of outcomes of one length have as many
sequences. -/
theorem card_sequences_of_forall {accept : α → Bool} {outcome : α → β} {outcomes : List β}
    {count : ℕ} (hcount : ∀ result ∈ outcomes, Nat.card (Values accept outcome result) = count) :
    Nat.card (Sequences accept outcome outcomes) = count ^ outcomes.length := by
  rw [card_sequences, List.map_congr_left hcount, List.map_const', List.prod_replicate]

end Sampling
