import Mathlib.Algebra.GroupWithZero.Nat
import Mathlib.Algebra.Order.Ring.Nat
import Mathlib.Data.List.Basic
import Mathlib.Data.Nat.ModEq
import Mathlib.Tactic.Ring

/-!
# Regrouping bits

A number of a given width is a run of bits, the highest first, and a list of numbers is the
run of all their bits.  `Cuts width bits values rest` says that a run is cut into numbers of a
width, with fewer bits than that left over; the cut is unique (`Cuts.unique`).

A text encoding pads the bits of its bytes with zeros and cuts them into narrower groups.
`Cuts.of_padded` says that cutting the groups again gives the bytes back, and
`padded_eq_iff` which groups are those of the bytes that are read from them: the bits left
over are zeros, and fewer than a group.

A machine keeps the bits that are not yet written at the low end of a buffer.
`ofNat_shiftIn` says what is pending after a number is shifted in.
-/

namespace Bits

/-- The lowest bits of a number, the highest of them first. -/
def ofNat : ℕ → ℕ → List Bool
  | 0, _ => []
  | width + 1, value => value.testBit width :: ofNat width value

/-- The bits of numbers of one width. -/
def ofNats (width : ℕ) (values : List ℕ) : List Bool := values.flatMap (ofNat width)

@[simp] theorem length_ofNat (width value : ℕ) : (ofNat width value).length = width := by
  induction width with
  | zero => rfl
  | succ width ih => rw [ofNat, List.length_cons, ih]

@[simp] theorem ofNats_nil (width : ℕ) : ofNats width [] = [] := rfl

@[simp] theorem ofNats_cons (width value : ℕ) (values : List ℕ) :
    ofNats width (value :: values) = ofNat width value ++ ofNats width values := rfl

theorem ofNats_append (width : ℕ) (values others : List ℕ) :
    ofNats width (values ++ others) = ofNats width values ++ ofNats width others :=
  List.flatMap_append

theorem length_ofNats (width : ℕ) (values : List ℕ) :
    (ofNats width values).length = width * values.length := by
  induction values with
  | nil => simp
  | cons value values ih =>
      rw [ofNats_cons, List.length_append, ih, length_ofNat, List.length_cons]
      ring

/-! ## The bits of one number -/

theorem ofNat_eq_iff (width : ℕ) {value other : ℕ} :
    ofNat width value = ofNat width other ↔
      ∀ i < width, value.testBit i = other.testBit i := by
  induction width with
  | zero => simp [ofNat]
  | succ width ih =>
      rw [ofNat, ofNat, List.cons.injEq, ih]
      constructor
      · intro h i hi
        rcases Nat.lt_succ_iff_lt_or_eq.mp hi with hlt | rfl
        · exact h.2 i hlt
        · exact h.1
      · intro h
        exact ⟨h width (Nat.lt_succ_self width), fun i hi => h i (hi.trans (Nat.lt_succ_self _))⟩

theorem ofNat_injective {width value other : ℕ} (hvalue : value < 2 ^ width)
    (hother : other < 2 ^ width) (hbits : ofNat width value = ofNat width other) :
    value = other := by
  apply Nat.eq_of_testBit_eq
  intro i
  rcases lt_or_ge i width with hi | hi
  · exact (ofNat_eq_iff width).mp hbits i hi
  · have hpow : 2 ^ width ≤ 2 ^ i := Nat.pow_le_pow_right (by omega) hi
    rw [Nat.testBit_lt_two_pow (hvalue.trans_le hpow), Nat.testBit_lt_two_pow
      (hother.trans_le hpow)]

/-- The upper bits of a number, then its lower bits. -/
theorem ofNat_add (upper lower value : ℕ) :
    ofNat (upper + lower) value = ofNat upper (value >>> lower) ++ ofNat lower value := by
  induction upper with
  | zero => simp [ofNat]
  | succ upper ih =>
      rw [Nat.succ_add, ofNat, ofNat, ih, Nat.testBit_shiftRight, Nat.add_comm lower upper]
      rfl

/-- Bits above those that are read do not count. -/
theorem ofNat_mod {width word : ℕ} (hword : width ≤ word) (value : ℕ) :
    ofNat width (value % 2 ^ word) = ofNat width value := by
  rw [ofNat_eq_iff]
  intro i hi
  rw [Nat.testBit_mod_two_pow, decide_eq_true (by omega), Bool.true_and]

/-- The uppermost bits of a buffer are read as a number. -/
theorem ofNat_of_le {width left : ℕ} (hle : width ≤ left) (buffer : ℕ) :
    ofNat left buffer =
      ofNat width ((buffer >>> (left - width)) % 2 ^ width) ++ ofNat (left - width) buffer := by
  rw [ofNat_mod le_rfl, ← ofNat_add]
  congr 1
  omega

theorem ofNat_zero (width : ℕ) : ofNat width 0 = List.replicate width false := by
  induction width with
  | zero => rfl
  | succ width ih => rw [ofNat, ih, Nat.zero_testBit, List.replicate_succ]

/-- A number is shifted into a buffer of `word` bits from the right. -/
theorem ofNat_shiftIn {left width word : ℕ} (hword : left + width ≤ word) {value : ℕ}
    (hvalue : value < 2 ^ width) (buffer : ℕ) :
    ofNat (left + width) ((buffer <<< width ||| value) % 2 ^ word) =
      ofNat left buffer ++ ofNat width value := by
  have hupper : (buffer <<< width ||| value) >>> width = buffer := by
    rw [Nat.shiftRight_or_distrib, Nat.shiftLeft_shiftRight, Nat.shiftRight_eq_div_pow value,
      Nat.div_eq_of_lt hvalue, Nat.or_zero]
  rw [ofNat_mod hword, ofNat_add, hupper]
  congr 1
  rw [ofNat_eq_iff]
  intro i hi
  rw [Nat.testBit_or, Nat.testBit_shiftLeft, decide_eq_false (by omega), Bool.false_and,
    Bool.false_or]

/-- Zeros are shifted into a buffer from the right. -/
theorem ofNat_shiftLeft (left width buffer : ℕ) :
    ofNat (left + width) (buffer <<< width) =
      ofNat left buffer ++ List.replicate width false := by
  have h := ofNat_shiftIn (le_refl (left + width)) (Nat.two_pow_pos width) buffer
  rwa [Nat.or_zero, ofNat_mod le_rfl, ofNat_zero] at h

/-! ## Cutting a run of bits -/

/-- The run of bits is that of numbers of a width, with less than that width left over. -/
structure Cuts (width : ℕ) (bits : List Bool) (values : List ℕ) (rest : List Bool) : Prop where
  lt : ∀ value ∈ values, value < 2 ^ width
  bits_eq : bits = ofNats width values ++ rest
  rest_length : rest.length < width

namespace Cuts

theorem nil {width : ℕ} {rest : List Bool} (hrest : rest.length < width) :
    Cuts width rest [] rest :=
  ⟨by simp, rfl, hrest⟩

/-- One more number in front. -/
theorem cons {width value : ℕ} {bits rest : List Bool} {values : List ℕ}
    (hvalue : value < 2 ^ width) (h : Cuts width bits values rest) :
    Cuts width (ofNat width value ++ bits) (value :: values) rest where
  lt := List.forall_mem_cons.mpr ⟨hvalue, h.lt⟩
  bits_eq := by rw [ofNats_cons, List.append_assoc, ← h.bits_eq]
  rest_length := h.rest_length

/-- What is left over of one run is continued by another run. -/
theorem append {width : ℕ} {bits rest more rest' : List Bool} {values others : List ℕ}
    (h : Cuts width bits values rest) (h' : Cuts width (rest ++ more) others rest') :
    Cuts width (bits ++ more) (values ++ others) rest' where
  lt := List.forall_mem_append.mpr ⟨h.lt, h'.lt⟩
  bits_eq := by
    rw [h.bits_eq, List.append_assoc, h'.bits_eq, ofNats_append, List.append_assoc]
  rest_length := h'.rest_length

/-- **The cut of a run is unique.** -/
theorem unique {width : ℕ} {bits rest rest' : List Bool} {values others : List ℕ}
    (h : Cuts width bits values rest) (h' : Cuts width bits others rest') :
    values = others ∧ rest = rest' := by
  have hlength := congrArg List.length (h.bits_eq.symm.trans h'.bits_eq)
  rw [List.length_append, List.length_append, length_ofNats, length_ofNats] at hlength
  have hrest := h.rest_length
  have hrest' := h'.rest_length
  induction values generalizing bits others with
  | nil =>
      cases others with
      | nil => exact ⟨rfl, h.bits_eq.symm.trans h'.bits_eq⟩
      | cons other others =>
          rw [List.length_nil, List.length_cons, Nat.mul_succ] at hlength
          omega
  | cons value values ih =>
      cases others with
      | nil =>
          rw [List.length_nil, List.length_cons, Nat.mul_succ] at hlength
          omega
      | cons other others =>
          have hbits := h.bits_eq.symm.trans h'.bits_eq
          rw [ofNats_cons, ofNats_cons, List.append_assoc, List.append_assoc] at hbits
          obtain ⟨hhead, htail⟩ := List.append_inj hbits (by simp)
          have hfirst : value = other :=
            ofNat_injective (h.lt value List.mem_cons_self) (h'.lt other List.mem_cons_self) hhead
          rw [List.length_cons, List.length_cons, Nat.mul_succ, Nat.mul_succ] at hlength
          have hbehind : Cuts width (ofNats width values ++ rest) values rest :=
            ⟨fun v hv => h.lt v (List.mem_cons_of_mem _ hv), rfl, hrest⟩
          obtain ⟨hvalues, hrests⟩ := ih hbehind
            ⟨fun v hv => h'.lt v (List.mem_cons_of_mem _ hv), htail, hrest'⟩ (by omega)
          exact ⟨by rw [hfirst, hvalues], hrests⟩

theorem length_eq {width : ℕ} {bits rest : List Bool} {values : List ℕ}
    (h : Cuts width bits values rest) : bits.length = width * values.length + rest.length := by
  rw [h.bits_eq, List.length_append, length_ofNats]

theorem length_rest {width : ℕ} {bits rest : List Bool} {values : List ℕ}
    (h : Cuts width bits values rest) : rest.length = bits.length % width := by
  rw [h.length_eq, Nat.mul_add_mod, Nat.mod_eq_of_lt h.rest_length]

theorem length_values {width : ℕ} {bits rest : List Bool} {values : List ℕ}
    (h : Cuts width bits values rest) : values.length = bits.length / width := by
  have hrest := h.rest_length
  rw [h.length_eq, Nat.mul_add_div (by omega), Nat.div_eq_of_lt hrest, Nat.add_zero]

theorem rest_eq {width : ℕ} {bits rest : List Bool} {values : List ℕ}
    (h : Cuts width bits values rest) : rest = bits.drop (width * (bits.length / width)) := by
  rw [← h.length_values, h.bits_eq, ← length_ofNats, List.drop_left]

end Cuts

/-! ## Padding -/

/-- The groups are those of the bits, filled up with zeros. -/
def Padded (width : ℕ) (bits : List Bool) (groups : List ℕ) : Prop :=
  ∃ pad < width, Cuts width (bits ++ List.replicate pad false) groups []

theorem Padded.lt {width : ℕ} {bits : List Bool} {groups : List ℕ}
    (h : Padded width bits groups) : ∀ group ∈ groups, group < 2 ^ width := by
  obtain ⟨pad, -, hcuts⟩ := h
  exact hcuts.lt

theorem Padded.length_groups {width : ℕ} {bits : List Bool} {groups : List ℕ}
    (h : Padded width bits groups) : groups.length = (bits.length + (width - 1)) / width := by
  obtain ⟨pad, hpad, hcuts⟩ := h
  have hlength := hcuts.length_eq
  rw [List.length_append, List.length_replicate, List.length_nil, Nat.add_zero] at hlength
  have hsum : bits.length + (width - 1) = width * groups.length + (width - 1 - pad) := by omega
  rw [hsum, Nat.mul_add_div (by omega), Nat.div_eq_of_lt (by omega), Nat.add_zero]

/-- **Cutting padded groups again** gives the numbers that were written. -/
theorem Cuts.of_padded {narrow wide : ℕ} (hnarrow : narrow ≤ wide) {values groups : List ℕ}
    (hvalues : ∀ value ∈ values, value < 2 ^ wide)
    (hgroups : Padded narrow (ofNats wide values) groups) :
    ∃ rest, Cuts wide (ofNats narrow groups) values rest := by
  obtain ⟨pad, hpad, hcuts⟩ := hgroups
  refine ⟨List.replicate pad false, hvalues, ?_, ?_⟩
  · rw [hcuts.bits_eq, List.append_nil]
  · rw [List.length_replicate]
    omega

/-- **The groups are those of the numbers read from them** exactly when the bits left over
are zeros, and fewer than a group. -/
theorem padded_eq_iff {narrow wide : ℕ} {values groups others : List ℕ} {rest : List Bool}
    (hothers : ∀ other ∈ others, other < 2 ^ narrow)
    (hcuts : Cuts wide (ofNats narrow others) values rest)
    (hgroups : Padded narrow (ofNats wide values) groups) :
    groups = others ↔ rest.length < narrow ∧ ∀ bit ∈ rest, bit = false := by
  obtain ⟨pad, hpad, hpadded⟩ := hgroups
  constructor
  · rintro rfl
    have hrest : List.replicate pad false = rest := by
      refine List.append_cancel_left (?_ : ofNats wide values ++ _ = ofNats wide values ++ _)
      rw [hpadded.bits_eq, List.append_nil, hcuts.bits_eq]
    rw [← hrest, List.length_replicate]
    exact ⟨hpad, fun bit hbit => List.eq_of_mem_replicate hbit⟩
  · intro ⟨hlength, hzeros⟩
    have hrest := List.eq_replicate_of_mem hzeros
    -- both pads complete the same run to a multiple of the group width
    have hpads : pad = rest.length := by
      have hwritten := hpadded.length_eq
      have hread := hcuts.length_eq
      rw [length_ofNats] at hread
      rw [List.length_append, length_ofNats, List.length_replicate, List.length_nil] at hwritten
      have hmod : (wide * values.length + pad) % narrow =
          (wide * values.length + rest.length) % narrow := by
        rw [hwritten, ← hread, Nat.add_zero, Nat.mul_mod_right, Nat.mul_mod_right]
      have heq := Nat.ModEq.add_left_cancel' (wide * values.length) hmod
      exact Nat.ModEq.eq_of_lt_of_lt heq hpad hlength
    have hothers' : Cuts narrow (ofNats wide values ++ List.replicate pad false) others [] := by
      refine ⟨hothers, ?_, by simp; omega⟩
      rw [hpads, ← hrest, List.append_nil, hcuts.bits_eq]
    exact (hpadded.unique hothers').1

end Bits
