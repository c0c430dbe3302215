import Mathlib.Algebra.GroupWithZero.Nat
import Modo.Lib.Text

/-!
# The bytes of a text

`asBytes` is the UTF-8 encoding.  It is injective, and a byte below 128 occurs
in it only as the encoding of that one character, so a text without the
character is encoded without the byte (`notMem_asBytes`).  Two texts joined by a
separator that does not occur in the second one can be read back
(`append_separator_inj`).

`decodeLossy` reads bytes that need not be UTF-8.

Texts are also lists of characters here, with the operations that count bytes:
`byteLength`, and `splitAt`, which fails inside a character.
-/

namespace Utf8

/-- The bytes of a text. -/
def asBytes (text : String) : List UInt8 := text.toList.flatMap String.utf8EncodeChar

theorem asBytes_eq (text : String) : asBytes text = text.toByteArray.data.toList := by
  obtain ⟨chars, rfl⟩ := text.exists_eq_ofList
  simp [asBytes, List.utf8Encode]

theorem asBytes_injective : Function.Injective asBytes := by
  intro first second heq
  rw [asBytes_eq, asBytes_eq] at heq
  apply String.toByteArray_inj.mp
  exact ByteArray.ext (Array.toList_inj.mp heq)

/-- The encodings of characters are a prefix code. -/
theorem utf8EncodeChar_append_inj {c other : Char} {rest rest' : List UInt8}
    (heq : String.utf8EncodeChar c ++ rest = String.utf8EncodeChar other ++ rest') : c = other := by
  have harrays : (String.utf8EncodeChar c).toByteArray ++ rest.toByteArray =
      (String.utf8EncodeChar other).toByteArray ++ rest'.toByteArray := by
    rw [← List.toByteArray_append, ← List.toByteArray_append, heq]
  have hdecode := ByteArray.utf8DecodeChar?_utf8EncodeChar_append (b := rest.toByteArray) (c := c)
  rw [harrays, ByteArray.utf8DecodeChar?_utf8EncodeChar_append] at hdecode
  exact (Option.some.inj hdecode).symm

/-- Where the bytes of one text begin with those of another, so do the characters. -/
theorem exists_of_flatMap_append_eq {first second : List Char} {rest : List UInt8}
    (heq : first.flatMap String.utf8EncodeChar ++ rest = second.flatMap String.utf8EncodeChar) :
    ∃ tail, second = first ++ tail ∧ rest = tail.flatMap String.utf8EncodeChar := by
  induction first generalizing second with
  | nil => exact ⟨second, rfl, heq⟩
  | cons c first ih =>
      cases second with
      | nil => simp [String.utf8EncodeChar_ne_nil] at heq
      | cons other second =>
          rw [List.flatMap_cons, List.flatMap_cons, List.append_assoc] at heq
          obtain rfl := utf8EncodeChar_append_inj heq
          obtain ⟨tail, rfl, hrest⟩ := ih (List.append_cancel_left heq)
          exact ⟨tail, rfl, hrest⟩

theorem toNat_ofNat_of_lt {n : ℕ} (hn : n < 256) : (UInt8.ofNat n).toNat = n := by
  rw [UInt8.toNat_ofNat']
  exact Nat.mod_eq_of_lt hn

/-- The encoding of a character has a byte below 128 only if it is that byte. -/
theorem toNat_eq_of_mem_utf8EncodeChar {c : Char} {byte : UInt8} (hbyte : byte.toNat < 128)
    (hmem : byte ∈ String.utf8EncodeChar c) : byte.toNat = c.toNat := by
  -- the bytes of longer encodings are 128 and above
  have hhigh : ∀ n, byte = UInt8.ofNat n → 128 ≤ n → n < 256 → byte.toNat = c.toNat := by
    rintro n rfl hlow hbound
    rw [toNat_ofNat_of_lt hbound] at hbyte
    omega
  revert hmem
  fun_cases String.utf8EncodeChar c with
  | case1 v hle =>
      intro hmem
      rw [List.mem_singleton] at hmem
      rw [hmem, toNat_ofNat_of_lt (by omega)]
      rfl
  | case2 v =>
      intro hmem
      rcases List.mem_cons.mp hmem with hfirst | hmem
      · exact hhigh _ hfirst (by omega) (by omega)
      · exact hhigh _ (List.mem_singleton.mp hmem) (by omega) (by omega)
  | case3 v =>
      intro hmem
      rcases List.mem_cons.mp hmem with hfirst | hmem
      · exact hhigh _ hfirst (by omega) (by omega)
      rcases List.mem_cons.mp hmem with hsecond | hmem
      · exact hhigh _ hsecond (by omega) (by omega)
      · exact hhigh _ (List.mem_singleton.mp hmem) (by omega) (by omega)
  | case4 v =>
      intro hmem
      rcases List.mem_cons.mp hmem with hfirst | hmem
      · exact hhigh _ hfirst (by omega) (by omega)
      rcases List.mem_cons.mp hmem with hsecond | hmem
      · exact hhigh _ hsecond (by omega) (by omega)
      rcases List.mem_cons.mp hmem with hthird | hmem
      · exact hhigh _ hthird (by omega) (by omega)
      · exact hhigh _ (List.mem_singleton.mp hmem) (by omega) (by omega)

/-- A text without an ASCII character has an encoding without its byte. -/
theorem notMem_asBytes {text : String} {c : Char} {byte : UInt8} (hc : byte.toNat = c.toNat)
    (hbyte : byte.toNat < 128) (htext : c ∉ text.toList) : byte ∉ asBytes text := by
  intro hmem
  obtain ⟨other, hother, hencode⟩ := List.mem_flatMap.mp hmem
  have hsame : other.toNat = c.toNat :=
    (toNat_eq_of_mem_utf8EncodeChar hbyte hencode).symm.trans hc
  exact htext (Char.toNat_inj.mp hsame ▸ hother)

/-- Two lists joined by a separator that the second ones do not contain. -/
theorem append_separator_inj {α : Type*} {first first' second second' : List α}
    {separator : α} (hsecond : separator ∉ second) (hsecond' : separator ∉ second')
    (heq : first ++ separator :: second = first' ++ separator :: second') :
    first = first' ∧ second = second' := by
  rcases List.append_eq_append_iff.mp heq with ⟨middle, hfirst, htail⟩ | ⟨middle, hfirst, htail⟩
  · cases middle with
    | nil => simp_all
    | cons head rest =>
        rw [List.cons_append, List.cons.injEq] at htail
        exact absurd (htail.2 ▸ by simp) hsecond
  · cases middle with
    | nil => simp_all
    | cons head rest =>
        rw [List.cons_append, List.cons.injEq] at htail
        exact absurd (htail.2 ▸ by simp) hsecond'

/-! ## Splitting -/

/-- The part before the first separator, and the part after it. -/
def splitOnce (separator : Char) : List Char → Option (List Char × List Char)
  | [] => none
  | c :: rest =>
      if c = separator then some ([], rest)
      else (splitOnce separator rest).map fun (before, after) => (c :: before, after)

/-- At most `n` parts; the last one is the rest. -/
def splitN (separator : Char) : ℕ → List Char → List (List Char)
  | 0, _ => []
  | 1, text => [text]
  | n + 2, text =>
      match splitOnce separator text with
      | none => [text]
      | some (before, after) => before :: splitN separator (n + 1) after

/-- The length in bytes. -/
def byteLength (text : List Char) : ℕ := (text.map Char.utf8Size).sum

/-- Split after `n` bytes; `none` when this is inside a character or behind the end. -/
def splitAt : ℕ → List Char → Option (List Char × List Char)
  | 0, text => some ([], text)
  | _ + 1, [] => none
  | n + 1, c :: rest =>
      if c.utf8Size ≤ n + 1 then
        (splitAt (n + 1 - c.utf8Size) rest).map fun (before, after) => (c :: before, after)
      else none

theorem splitOnce_eq_some {separator : Char} {text before after : List Char} :
    splitOnce separator text = some (before, after) ↔
      text = before ++ separator :: after ∧ separator ∉ before := by
  induction text generalizing before with
  | nil => simp [splitOnce]
  | cons c rest ih =>
      unfold splitOnce
      by_cases hc : c = separator
      · subst hc
        rw [if_pos rfl]
        cases before with
        | nil => simp [eq_comm]
        | cons head tail =>
            simp only [Option.some.injEq, Prod.mk.injEq, List.nil_eq, reduceCtorEq, false_and,
              List.cons_append, List.cons.injEq, List.mem_cons, not_or, false_iff, not_and]
            rintro ⟨rfl, -⟩ hne
            exact absurd rfl hne
      · rw [if_neg hc, Option.map_eq_some_iff]
        constructor
        · rintro ⟨⟨tail, after'⟩, hrest, heq⟩
          simp only [Prod.mk.injEq] at heq
          obtain ⟨rfl, rfl⟩ := heq
          obtain ⟨rfl, htail⟩ := ih.mp hrest
          refine ⟨rfl, ?_⟩
          rw [List.mem_cons, not_or]
          exact ⟨fun heq => hc heq.symm, htail⟩
        · rintro ⟨htext, hbefore⟩
          cases before with
          | nil =>
              rw [List.nil_append, List.cons.injEq] at htext
              exact absurd htext.1 hc
          | cons head tail =>
              rw [List.cons_append, List.cons.injEq] at htext
              rw [List.mem_cons, not_or] at hbefore
              exact ⟨(tail, after), ih.mpr ⟨htext.2, hbefore.2⟩, by rw [htext.1]⟩

theorem splitOnce_eq_none {separator : Char} {text : List Char} :
    splitOnce separator text = none ↔ separator ∉ text := by
  induction text with
  | nil => simp [splitOnce]
  | cons c rest ih =>
      unfold splitOnce
      by_cases hc : c = separator
      · simp [hc]
      · simp [hc, ih, Ne.symm hc]

/-- The last of at most `n + 2` parts that are not all used. -/
theorem splitN_eq_singleton {separator : Char} {n : ℕ} {text part : List Char} :
    splitN separator (n + 2) text = [part] ↔ text = part ∧ separator ∉ part := by
  rw [splitN]
  cases hsplit : splitOnce separator text with
  | none =>
      rw [splitOnce_eq_none] at hsplit
      constructor
      · intro heq
        obtain rfl := List.singleton_inj.mp heq
        exact ⟨rfl, hsplit⟩
      · rintro ⟨rfl, -⟩
        rfl
  | some parts =>
      obtain ⟨before, after⟩ := parts
      obtain ⟨rfl, -⟩ := splitOnce_eq_some.mp hsplit
      constructor
      · intro heq
        have hnil : splitN separator (n + 1) after = [] := (List.cons.inj heq).2
        cases n with
        | zero => simp [splitN] at hnil
        | succ n =>
            rw [splitN] at hnil
            split at hnil <;> simp at hnil
      · rintro ⟨rfl, hpart⟩
        simp at hpart

/-- One part, and the others. -/
theorem splitN_eq_cons {separator : Char} {n : ℕ} {text part next : List Char}
    {parts : List (List Char)} :
    splitN separator (n + 2) text = part :: next :: parts ↔
      ∃ after, text = part ++ separator :: after ∧ separator ∉ part ∧
        splitN separator (n + 1) after = next :: parts := by
  rw [splitN]
  cases hsplit : splitOnce separator text with
  | none =>
      rw [splitOnce_eq_none] at hsplit
      constructor
      · intro heq
        simp at heq
      · rintro ⟨after, rfl, -, -⟩
        simp at hsplit
  | some found =>
      obtain ⟨before, behind⟩ := found
      constructor
      · intro heq
        obtain ⟨rfl, hrest⟩ := List.cons.inj heq
        obtain ⟨htext, hbefore⟩ := splitOnce_eq_some.mp hsplit
        exact ⟨behind, htext, hbefore, hrest⟩
      · rintro ⟨after, htext, hpart, hrest⟩
        have hsame := splitOnce_eq_some.mpr ⟨htext, hpart⟩
        rw [hsplit, Option.some.injEq, Prod.mk.injEq] at hsame
        obtain ⟨rfl, rfl⟩ := hsame
        exact congrArg (before :: ·) hrest

/-- Three parts when four are asked for: there are exactly two separators. -/
theorem splitN_four_eq_three {separator : Char} {text first second third : List Char} :
    splitN separator 4 text = [first, second, third] ↔
      text = first ++ separator :: (second ++ separator :: third) ∧
        separator ∉ first ∧ separator ∉ second ∧ separator ∉ third := by
  rw [splitN_eq_cons]
  simp only [splitN_eq_cons, splitN_eq_singleton]
  constructor
  · rintro ⟨_, rfl, hfirst, _, rfl, hsecond, rfl, hthird⟩
    exact ⟨rfl, hfirst, hsecond, hthird⟩
  · rintro ⟨rfl, hfirst, hsecond, hthird⟩
    exact ⟨_, rfl, hfirst, _, rfl, hsecond, rfl, hthird⟩

theorem append_of_splitAt {n : ℕ} {text before after : List Char}
    (hsplit : splitAt n text = some (before, after)) : text = before ++ after := by
  fun_induction splitAt n text generalizing before with
  | case1 text =>
      simp only [Option.some.injEq, Prod.mk.injEq] at hsplit
      rw [← hsplit.1, ← hsplit.2, List.nil_append]
  | case2 n => cases hsplit
  | case3 n c rest hsize ih =>
      obtain ⟨⟨tail, after'⟩, hrest, heq⟩ := Option.map_eq_some_iff.mp hsplit
      simp only [Prod.mk.injEq] at heq
      obtain ⟨rfl, rfl⟩ := heq
      rw [ih hrest, List.cons_append]
  | case4 n c rest hsize => cases hsplit

/-- A text splits after the bytes of its first part. -/
theorem splitAt_append (before after : List Char) :
    splitAt (byteLength before) (before ++ after) = some (before, after) := by
  induction before with
  | nil => simp [byteLength, splitAt]
  | cons c rest ih =>
      have hpos := c.utf8Size_pos
      have hlength : byteLength (c :: rest) = c.utf8Size + byteLength rest := by
        simp [byteLength]
      obtain ⟨n, hn⟩ := Nat.exists_eq_add_of_lt hpos
      rw [hlength, List.cons_append, hn, show 0 + n + 1 + byteLength rest =
        (n + byteLength rest) + 1 by omega, splitAt, if_pos (by omega),
        show n + byteLength rest + 1 - c.utf8Size = byteLength rest by omega, ih]
      rfl

@[simp] theorem byteLength_append (first second : List Char) :
    byteLength (first ++ second) = byteLength first + byteLength second := by
  simp [byteLength]

theorem byteLength_cons (c : Char) (text : List Char) :
    byteLength (c :: text) = c.utf8Size + byteLength text := by
  simp [byteLength]

theorem byteLength_of_splitAt {n : ℕ} {text before after : List Char}
    (hsplit : splitAt n text = some (before, after)) : byteLength before = n := by
  fun_induction splitAt n text generalizing before with
  | case1 text =>
      simp only [Option.some.injEq, Prod.mk.injEq] at hsplit
      rw [← hsplit.1]
      rfl
  | case2 n => cases hsplit
  | case3 n c rest hsize ih =>
      obtain ⟨⟨tail, after'⟩, hrest, heq⟩ := Option.map_eq_some_iff.mp hsplit
      simp only [Prod.mk.injEq] at heq
      obtain ⟨rfl, rfl⟩ := heq
      rw [byteLength_cons, ih hrest]
      omega
  | case4 n c rest hsize => cases hsplit

theorem splitAt_eq_some_iff {n : ℕ} {text before after : List Char} :
    splitAt n text = some (before, after) ↔ text = before ++ after ∧ byteLength before = n := by
  constructor
  · intro hsplit
    exact ⟨append_of_splitAt hsplit, byteLength_of_splitAt hsplit⟩
  · rintro ⟨rfl, rfl⟩
    exact splitAt_append before after

/-- A text that is long enough is not split exactly when a character straddles the place. -/
theorem splitAt_eq_none_iff {n : ℕ} {text : List Char} (hlength : n ≤ byteLength text) :
    splitAt n text = none ↔ ∃ before c after, text = before ++ c :: after ∧
      byteLength before < n ∧ n < byteLength before + c.utf8Size := by
  constructor
  · intro hnone
    fun_induction splitAt n text with
    | case1 text => cases hnone
    | case2 n => exact absurd hlength (by simp [byteLength])
    | case3 n c rest hsize ih =>
        rw [Option.map_eq_none_iff] at hnone
        rw [byteLength_cons] at hlength
        obtain ⟨before, other, after, rfl, hbefore, hafter⟩ := ih (by omega) hnone
        refine ⟨c :: before, other, after, rfl, ?_, ?_⟩ <;> rw [byteLength_cons] <;> omega
    | case4 n c rest hsize =>
        exact ⟨[], c, rest, rfl, Nat.succ_pos n, by simpa [byteLength] using not_le.mp hsize⟩
  · intro ⟨before, c, after, htext, hbefore, hafter⟩
    rw [Option.eq_none_iff_forall_ne_some]
    intro ⟨first, second⟩ hsplit
    obtain ⟨hsame, hfirst⟩ := splitAt_eq_some_iff.mp hsplit
    -- the first part ends at or before the character, or has all of it
    rcases List.append_eq_append_iff.mp (htext.symm.trans hsame) with
      ⟨more, hmore, hrest⟩ | ⟨more, hmore, -⟩
    · cases more with
      | nil =>
          rw [hmore, List.append_nil] at hfirst
          omega
      | cons head tail =>
          obtain ⟨rfl, -⟩ := List.cons.inj hrest
          rw [hmore, byteLength_append, byteLength_cons] at hfirst
          omega
    · rw [hmore, byteLength_append] at hbefore
      omega

/-- ASCII characters have one byte each. -/
theorem byteLength_of_ascii {text : List Char} (hascii : ∀ c ∈ text, c.utf8Size = 1) :
    byteLength text = text.length := by
  induction text with
  | nil => rfl
  | cons c rest ih =>
      rw [List.forall_mem_cons] at hascii
      have hrest := ih hascii.2
      simp only [byteLength, List.map_cons, List.sum_cons, List.length_cons] at hrest ⊢
      rw [hascii.1, hrest, Nat.add_comm]

theorem length_le_byteLength (text : List Char) : text.length ≤ byteLength text := by
  induction text with
  | nil => rfl
  | cons c rest ih =>
      have hpos := c.utf8Size_pos
      rw [byteLength_cons, List.length_cons]
      omega

theorem byteLength_eq_length_iff {text : List Char} :
    byteLength text = text.length ↔ ∀ c ∈ text, c.utf8Size = 1 := by
  constructor
  · intro heq
    induction text with
    | nil => simp
    | cons c rest ih =>
        have hpos := c.utf8Size_pos
        have hrest := length_le_byteLength rest
        rw [byteLength_cons, List.length_cons] at heq
        rw [List.forall_mem_cons]
        exact ⟨by omega, ih (by omega)⟩
  · exact byteLength_of_ascii

/-! ## Lossy decoding -/

/-- A byte that continues a character. -/
def isContinuation (byte : UInt8) : Bool := decide (0x80 ≤ byte ∧ byte ≤ 0xbf)

/-- The second byte of a character of three bytes. -/
def isSecondOfThree (first second : UInt8) : Bool :=
  decide (first = 0xe0 ∧ 0xa0 ≤ second ∧ second ≤ 0xbf ∨
    first = 0xed ∧ 0x80 ≤ second ∧ second ≤ 0x9f ∨
    first ≠ 0xe0 ∧ first ≠ 0xed ∧ 0x80 ≤ second ∧ second ≤ 0xbf)

/-- The second byte of a character of four bytes. -/
def isSecondOfFour (first second : UInt8) : Bool :=
  decide (first = 0xf0 ∧ 0x90 ≤ second ∧ second ≤ 0xbf ∨
    first = 0xf4 ∧ 0x80 ≤ second ∧ second ≤ 0x8f ∨
    first ≠ 0xf0 ∧ first ≠ 0xf4 ∧ 0x80 ≤ second ∧ second ≤ 0xbf)

/-- The bits of a character: those of its first byte, and six of each other one. -/
def joinBits (first : ℕ) (others : List UInt8) : Char :=
  Char.ofNat (others.foldl (fun value byte => value * 64 + byte.toNat % 64) first)

/-- The replacement character. -/
def replacement : Char := Char.ofNat 0xfffd

/-- The character that `first` begins, with the number of bytes after `first` that belong to
it.  The replacement character stands for a byte that begins no character, and for the longest
beginning of a character that is not completed. -/
def decodeHead (first : UInt8) (rest : List UInt8) : Char × ℕ :=
  if first < 0x80 then (Char.ofNat first.toNat, 0)
  else if 0xc2 ≤ first ∧ first ≤ 0xdf then
    match rest with
    | second :: _ =>
        if isContinuation second then (joinBits (first.toNat % 32) [second], 1)
        else (replacement, 0)
    | [] => (replacement, 0)
  else if 0xe0 ≤ first ∧ first ≤ 0xef then
    match rest with
    | second :: rest =>
        if isSecondOfThree first second then
          match rest with
          | third :: _ =>
              if isContinuation third then (joinBits (first.toNat % 16) [second, third], 2)
              else (replacement, 1)
          | [] => (replacement, 1)
        else (replacement, 0)
    | [] => (replacement, 0)
  else if 0xf0 ≤ first ∧ first ≤ 0xf4 then
    match rest with
    | second :: rest =>
        if isSecondOfFour first second then
          match rest with
          | third :: rest =>
              if isContinuation third then
                match rest with
                | fourth :: _ =>
                    if isContinuation fourth then
                      (joinBits (first.toNat % 8) [second, third, fourth], 3)
                    else (replacement, 2)
                | [] => (replacement, 2)
              else (replacement, 1)
          | [] => (replacement, 1)
        else (replacement, 0)
    | [] => (replacement, 0)
  else (replacement, 0)

/-- The text of the bytes behind the first `skip`. -/
def decodeFrom : ℕ → List UInt8 → List Char
  | _, [] => []
  | skip + 1, _ :: rest => decodeFrom skip rest
  | 0, first :: rest => (decodeHead first rest).1 :: decodeFrom (decodeHead first rest).2 rest

/-- The text of some bytes, with replacement characters for what is not UTF-8. -/
def decodeLossy (bytes : List UInt8) : List Char := decodeFrom 0 bytes

end Utf8
