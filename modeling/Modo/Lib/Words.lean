import Mathlib.Data.List.Chain
import Modo.Lib.Text

/-!
# The words of a text

The words are what stands between white space.  Reading a text from its end, the last part
that `splitOnP` finds grows with each character that is not white space and is followed by an
empty one otherwise (`exists_split_concat`); a loop over the characters that keeps the words is
proved with it.

Words joined by one space are a text without white space at its ends and without two in a row
(`clean_unwords`).
-/

namespace Text

/-- `split_whitespace`. -/
def words (text : List Char) : List (List Char) :=
  (text.splitOnP isWhitespace).filter fun part => decide (part ≠ [])

/-- Words with one space between them. -/
def unwords (parts : List (List Char)) : List Char := [' '].intercalate parts

/-- A text with white space between its words only, and one there. -/
structure Clean (text : List Char) : Prop where
  head : ∀ c ∈ text.head?, isWhitespace c = false
  getLast : ∀ c ∈ text.getLast?, isWhitespace c = false
  single : text.IsChain fun c d => ¬(isWhitespace c = true ∧ isWhitespace d = true)

/-! ## One more character -/

variable {c : Char} {text : List Char}

theorem splitOnP_concat_of_whitespace (hc : isWhitespace c = true) (text : List Char) :
    (text ++ [c]).splitOnP isWhitespace = text.splitOnP isWhitespace ++ [[]] := by
  rw [List.splitOnP_append_cons text [] hc, List.splitOnP_nil]

/-- The last part gets the character. -/
theorem exists_split_concat (hc : isWhitespace c = false) (text : List Char) :
    ∃ first last, text.splitOnP isWhitespace = first ++ [last] ∧
      (text ++ [c]).splitOnP isWhitespace = first ++ [last ++ [c]] := by
  induction text with
  | nil =>
      refine ⟨[], [], List.splitOnP_nil, ?_⟩
      rw [List.nil_append, List.splitOnP_cons_eq_if_modifyHead, hc, List.splitOnP_nil]
      rfl
  | cons d text ih =>
      obtain ⟨first, last, hsplit, hconcat⟩ := ih
      rw [List.cons_append, List.splitOnP_cons_eq_if_modifyHead,
        List.splitOnP_cons_eq_if_modifyHead, hsplit, hconcat]
      split
      · exact ⟨[] :: first, last, rfl, rfl⟩
      · cases first with
        | nil => exact ⟨[], d :: last, rfl, rfl⟩
        | cons part first => exact ⟨(d :: part) :: first, last, rfl, rfl⟩

theorem notWhitespace_of_mem_splitOnP {part : List Char}
    (hpart : part ∈ text.splitOnP isWhitespace) : ∀ d ∈ part, isWhitespace d = false := by
  induction text generalizing part with
  | nil =>
      rw [List.splitOnP_nil, List.mem_singleton] at hpart
      simp [hpart]
  | cons d text ih =>
      rw [List.splitOnP_cons_eq_if_modifyHead] at hpart
      split at hpart
      · rcases List.mem_cons.mp hpart with rfl | hpart
        · simp
        · exact ih hpart
      · rename_i hd
        obtain ⟨first, rest, hsplit⟩ :=
          List.exists_cons_of_ne_nil (List.splitOnP_ne_nil isWhitespace text)
        rw [hsplit] at hpart ih
        rcases List.mem_cons.mp hpart with rfl | hpart
        · exact List.forall_mem_cons.mpr ⟨by simpa using hd, ih List.mem_cons_self⟩
        · exact ih (List.mem_cons_of_mem first hpart)

theorem word_spec {word : List Char} (hword : word ∈ words text) :
    word ≠ [] ∧ ∀ d ∈ word, isWhitespace d = false := by
  rw [words, List.mem_filter, decide_eq_true_eq] at hword
  exact ⟨hword.2, notWhitespace_of_mem_splitOnP hword.1⟩

/-! ## Joining -/

/-- The last word behind the others, which are followed by a space each. -/
theorem unwords_concat (parts : List (List Char)) (last : List Char) :
    unwords (parts ++ [last]) = (parts.flatMap fun part => part ++ [' ']) ++ last := by
  induction parts with
  | nil => simp [unwords]
  | cons part parts ih =>
      rw [unwords] at ih ⊢
      rw [List.cons_append, List.flatMap_cons, List.append_assoc, ← ih]
      cases parts with
      | nil => simp
      | cons second parts => simp [List.intercalate_cons_cons]

theorem isWhitespace_space : isWhitespace ' ' = true := by decide

theorem clean_of_word {word : List Char} (hword : ∀ d ∈ word, isWhitespace d = false) :
    Clean word where
  head d hd := hword d (List.mem_of_mem_head? hd)
  getLast d hd := hword d (List.mem_of_mem_getLast? hd)
  single := by
    refine List.Pairwise.isChain (List.pairwise_of_forall_mem_list ?_)
    intro d hd e he hboth
    rw [hword d hd] at hboth
    exact Bool.false_ne_true hboth.1

theorem unwords_ne_nil {parts : List (List Char)} (hne : parts ≠ [])
    (hparts : ∀ part ∈ parts, part ≠ []) : unwords parts ≠ [] := by
  obtain ⟨first, rest, rfl⟩ := List.exists_cons_of_ne_nil hne
  have hfirst := hparts first List.mem_cons_self
  cases rest with
  | nil => simpa [unwords] using hfirst
  | cons second rest => simp [unwords, List.intercalate_cons_cons]

/-- **Joined words are clean.** -/
theorem clean_unwords {parts : List (List Char)}
    (hparts : ∀ part ∈ parts, part ≠ [] ∧ ∀ d ∈ part, isWhitespace d = false) :
    Clean (unwords parts) := by
  induction parts with
  | nil => exact ⟨by simp [unwords], by simp [unwords], by simp [unwords]⟩
  | cons first rest ih =>
      rw [List.forall_mem_cons] at hparts
      obtain ⟨⟨hne, hfirst⟩, hrest⟩ := hparts
      have hword := clean_of_word hfirst
      cases rest with
      | nil => simpa [unwords] using hword
      | cons second rest =>
          obtain ⟨hhead, hlast, hsingle⟩ := ih hrest
          have hfull : unwords (second :: rest) ≠ [] :=
            unwords_ne_nil (List.cons_ne_nil second rest) fun part hpart => (hrest part hpart).1
          have hjoin : unwords (first :: second :: rest) =
              first ++ (' ' :: unwords (second :: rest)) := by
            simp [unwords, List.intercalate_cons_cons]
          rw [hjoin]
          refine ⟨?_, ?_, ?_⟩
          · rw [List.head?_append_of_ne_nil first hne]
            exact hword.head
          · rw [List.getLast?_append_of_ne_nil first (List.cons_ne_nil ' ' _),
              List.getLast?_cons_of_ne_nil hfull]
            exact hlast
          · rw [List.isChain_append]
            refine ⟨hword.single, ?_, ?_⟩
            · refine List.isChain_cons.mpr ⟨?_, hsingle⟩
              intro d hd hboth
              rw [hhead d hd] at hboth
              exact Bool.false_ne_true hboth.2
            · intro d hd e _ hboth
              rw [hword.getLast d hd] at hboth
              exact Bool.false_ne_true hboth.1

end Text
