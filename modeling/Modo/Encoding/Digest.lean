import Mathlib.Logic.Function.Basic
import Modo.Encoding.Hex

/-!
# Hash functions with known digests

SHA-256 comes from a crate and is a parameter of the model.  A run on fixed
inputs needs a function in its place: `digestWith` gives the inputs of a table
the digests they really have and every other input a text of its own, so that
it is injective (`digestWith_injective`).
-/

namespace Modo

/-- The digest of the table, and a text of its own for every other input. -/
def digestWith (digests : List (List UInt8 × String)) (bytes : List UInt8) : String :=
  match digests.find? fun entry => decide (entry.1 = bytes) with
  | some entry => entry.2
  | none => String.ofList ('-' :: Hex.encode bytes)

/-- Different digests in the table, none of which begins like the other texts. -/
structure Separates (digests : List (List UInt8 × String)) : Prop where
  inj : ∀ first ∈ digests, ∀ second ∈ digests, first.2 = second.2 → first.1 = second.1
  ne_dash : ∀ entry ∈ digests, entry.2.toList.head? ≠ some '-'

theorem digestWith_injective {digests : List (List UInt8 × String)}
    (hseparates : Separates digests) : Function.Injective (digestWith digests) := by
  intro a b heq
  unfold digestWith at heq
  split at heq
  · rename_i first hfirst
    have hmem := List.mem_of_find?_eq_some hfirst
    have ha := List.find?_some hfirst
    rw [decide_eq_true_eq] at ha
    split at heq
    · rename_i second hsecond
      have hb := List.find?_some hsecond
      rw [decide_eq_true_eq] at hb
      have hsame := hseparates.inj first hmem second (List.mem_of_find?_eq_some hsecond) heq
      rw [← ha, ← hb, hsame]
    · exact absurd (by simp [heq]) (hseparates.ne_dash first hmem)
  · split at heq
    · rename_i second hsecond
      exact absurd (by simp [← heq])
        (hseparates.ne_dash second (List.mem_of_find?_eq_some hsecond))
    · have hencode : Hex.encode a = Hex.encode b := by
        simpa using congrArg String.toList heq
      have hdecode := Hex.decodePairs_encode a
      rw [hencode, Hex.decodePairs_encode, Option.some.injEq] at hdecode
      exact hdecode.symm

end Modo
