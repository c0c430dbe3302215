import Mathlib.Data.List.Infix

/-!
# Runs of one element

`replaceRuns` puts something in the place of every run of an element, by its length.  If longer runs
lose some of the element, then only a list without such runs stays the same
(`Shortens.replaceRuns_eq_self_iff`).
-/

namespace Runs

variable {α : Type*} [DecidableEq α] (x : α) (f : ℕ → List α)

/-- What becomes of a list behind `n` of the elements. -/
def replaceFrom : ℕ → List α → List α
  | n, [] => f n
  | n, y :: rest => if y = x then replaceFrom (n + 1) rest else f n ++ y :: replaceFrom 0 rest

def replaceRuns (list : List α) : List α := replaceFrom x f 0 list

/-- A run of one stays, and a longer one loses some of its elements. -/
structure Shortens : Prop where
  zero : f 0 = []
  one : f 1 = [x]
  many : ∀ n, 2 ≤ n → (f n).count x < n

variable {x f}

theorem replaceFrom_self (n : ℕ) (rest : List α) :
    replaceFrom x f n (x :: rest) = replaceFrom x f (n + 1) rest := by
  rw [replaceFrom, if_pos rfl]

theorem replaceFrom_of_ne {y : α} (hy : y ≠ x) (n : ℕ) (rest : List α) :
    replaceFrom x f n (y :: rest) = f n ++ y :: replaceFrom x f 0 rest := by
  rw [replaceFrom, if_neg hy]

omit [DecidableEq α] in
/-- Two elements in a row, behind a run that another element ends. -/
theorem two_le_or_infix {y : α} (hy : y ≠ x) {n : ℕ} {rest : List α}
    (h : [x, x] <:+: List.replicate n x ++ y :: rest) : 2 ≤ n ∨ [x, x] <:+: rest := by
  have hcons : [x, x] <:+: y :: rest → [x, x] <:+: rest := by
    intro h
    rcases List.infix_cons_iff.mp h with hstart | hrest
    · exact absurd (List.cons_prefix_cons.mp hstart).1.symm hy
    · exact hrest
  match n with
  | 0 => exact .inr (hcons h)
  | 1 =>
      rcases List.infix_cons_iff.mp h with hstart | hrest
      · have hsecond := (List.cons_prefix_cons.mp hstart).2
        exact absurd (List.cons_prefix_cons.mp hsecond).1.symm hy
      · exact .inr (hcons hrest)
  | n + 2 => exact .inl (Nat.le_add_left 2 n)

namespace Shortens

variable (hf : Shortens x f)

include hf

theorem count_le (n : ℕ) : (f n).count x ≤ n := by
  match n with
  | 0 => rw [hf.zero, List.count_nil]
  | 1 => rw [hf.one, List.count_singleton_self]
  | n + 2 => exact (hf.many (n + 2) (Nat.le_add_left 2 n)).le

theorem count_replaceFrom_le (n : ℕ) (list : List α) :
    (replaceFrom x f n list).count x ≤ n + list.count x := by
  induction list generalizing n with
  | nil => exact hf.count_le n
  | cons y rest ih =>
      by_cases hy : y = x
      · subst hy
        have hrest := ih (n + 1)
        rw [replaceFrom_self, List.count_cons_self]
        omega
      · have hrest := ih 0
        have hrun := hf.count_le n
        rw [replaceFrom_of_ne hy, List.count_append, List.count_cons_of_ne hy,
          List.count_cons_of_ne hy]
        omega

/-- A run of two or more is shortened. -/
theorem count_replaceFrom_lt {n : ℕ} {list : List α}
    (h : [x, x] <:+: List.replicate n x ++ list) :
    (replaceFrom x f n list).count x < n + list.count x := by
  induction list generalizing n with
  | nil =>
      have hlength := h.length_le
      rw [List.append_nil, List.length_replicate] at hlength
      exact hf.many n hlength
  | cons y rest ih =>
      by_cases hy : y = x
      · subst hy
        have hrun : List.replicate n y ++ y :: rest = List.replicate (n + 1) y ++ rest := by
          rw [List.replicate_succ', List.append_assoc]
          rfl
        have hrest := ih (hrun ▸ h)
        rw [replaceFrom_self, List.count_cons_self]
        omega
      · have hrun := hf.count_le n
        rw [replaceFrom_of_ne hy, List.count_append, List.count_cons_of_ne hy,
          List.count_cons_of_ne hy]
        rcases two_le_or_infix hy h with hn | hoccurs
        · have hrest := hf.count_replaceFrom_le 0 rest
          have hlonger := hf.many n hn
          omega
        · have hrest := ih (n := 0) hoccurs
          omega

/-- Elements that stand alone stay. -/
theorem replaceFrom_eq (list : List α) :
    (¬[x, x] <:+: list → replaceFrom x f 0 list = list) ∧
      (¬[x, x] <:+: x :: list → replaceFrom x f 1 list = x :: list) := by
  induction list with
  | nil => exact ⟨fun _ => hf.zero, fun _ => hf.one⟩
  | cons y rest ih =>
      by_cases hy : y = x
      · subst hy
        refine ⟨fun h => ?_, fun h => ?_⟩
        · rw [replaceFrom_self]
          exact ih.2 h
        · exact absurd (List.prefix_append [y, y] rest).isInfix h
      · refine ⟨fun h => ?_, fun h => ?_⟩
        · rw [replaceFrom_of_ne hy, hf.zero, ih.1 fun hrest => h (List.infix_cons hrest),
            List.nil_append]
        · have hrest : ¬[x, x] <:+: rest := fun hrest => h (List.infix_cons (List.infix_cons hrest))
          rw [replaceFrom_of_ne hy, hf.one, ih.1 hrest]
          rfl

/-- A list stays as it is when no two of the elements stand side by side. -/
theorem replaceRuns_eq_self_iff (list : List α) :
    replaceRuns x f list = list ↔ ¬[x, x] <:+: list := by
  constructor
  · intro heq hoccurs
    have hcount := hf.count_replaceFrom_lt (n := 0) hoccurs
    rw [← replaceRuns, heq, Nat.zero_add] at hcount
    exact lt_irrefl _ hcount
  · exact (hf.replaceFrom_eq list).1

/-- Without the element, nothing changes. -/
theorem replaceRuns_of_notMem {list : List α} (hlist : x ∉ list) : replaceRuns x f list = list :=
  (hf.replaceRuns_eq_self_iff list).mpr fun hoccurs => hlist (hoccurs.subset List.mem_cons_self)

end Shortens

/-- Other elements come from the list, or from what takes the place of a run. -/
theorem mem_replaceFrom {y : α} {n : ℕ} {list : List α} (hy : y ∈ replaceFrom x f n list) :
    y ∈ list ∨ ∃ n, y ∈ f n := by
  induction list generalizing n with
  | nil => exact .inr ⟨n, hy⟩
  | cons z rest ih =>
      by_cases hz : z = x
      · subst hz
        rw [replaceFrom_self] at hy
        exact (ih hy).imp_left (List.mem_cons_of_mem z)
      · rw [replaceFrom_of_ne hz] at hy
        rcases List.mem_append.mp hy with hrun | htail
        · exact .inr ⟨n, hrun⟩
        rcases List.mem_cons.mp htail with rfl | hrest
        · exact .inl List.mem_cons_self
        · exact (ih hrest).imp_left (List.mem_cons_of_mem z)

end Runs
