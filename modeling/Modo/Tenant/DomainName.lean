import Modo.Lib.Ascii
import Modo.Lib.Utf8

/-!
# Domain names

`validate_domain` trims and lower-cases its argument and then checks it as a whole and label by
label.  `validateDomain_iff` says that the checks leave the dotted names, which are their own
normal form.
-/

namespace Modo.Tenants

/-! ## The checks -/

/-- `str::to_lowercase`. -/
structure LowerCase where
  toLowercase : List Char → List Char
  /-- ASCII texts are lower-cased as such. -/
  ascii : ∀ text : List Char, (∀ c ∈ text, c.toNat < 128) → toLowercase text = text.map Char.toLower
  /-- No upper-case letter is left. -/
  lower : ∀ text, ∀ c ∈ toLowercase text, c.isUpper = false

/-- `Error::bad_request`. -/
structure BadRequest where
  message : String
  deriving DecidableEq

/-- The check of a label. -/
def labelError (label : List Char) : Option BadRequest :=
  if label = [] then some ⟨"domain labels must not be empty"⟩
  else if 63 < Utf8.byteLength label then some ⟨"domain labels must not exceed 63 characters"⟩
  else if label.head? = some '-' ∨ label.getLast? = some '-' then
    some ⟨"domain labels must not start or end with a hyphen"⟩
  else if ¬ label.all (fun c => c.isAlphanum || c == '-') then
    some ⟨"domain labels must contain only alphanumeric characters and hyphens"⟩
  else none

def validateDomain (unicode : LowerCase) (domain : String) : Except BadRequest String :=
  let domain := unicode.toLowercase (Text.trim domain.toList)
  if domain = [] then .error ⟨"domain must not be empty"⟩
  else if '.' ∉ domain then .error ⟨"domain must contain at least one dot"⟩
  else if domain.head? = some '.' ∨ domain.getLast? = some '.' then
    .error ⟨"domain must not start or end with a dot"⟩
  else if 253 < Utf8.byteLength domain then .error ⟨"domain must not exceed 253 characters"⟩
  else
    match (domain.splitOn '.').findSome? labelError with
    | some error => .error error
    | none => .ok (String.ofList domain)

/-! ## Dotted names -/

/-- Lower-case letters, digits and the hyphen. -/
def IsLabelChar (c : Char) : Prop := 'a' ≤ c ∧ c ≤ 'z' ∨ '0' ≤ c ∧ c ≤ '9' ∨ c = '-'

instance : DecidablePred IsLabelChar := fun c =>
  inferInstanceAs (Decidable ('a' ≤ c ∧ c ≤ 'z' ∨ '0' ≤ c ∧ c ≤ '9' ∨ c = '-'))

structure IsLabel (label : List Char) : Prop where
  pos : 0 < label.length
  le : label.length ≤ 63
  chars : ∀ c ∈ label, IsLabelChar c
  head : label.head? ≠ some '-'
  last : label.getLast? ≠ some '-'

/-- At least two labels with dots between them. -/
def IsDomainName (domain : List Char) : Prop :=
  ∃ labels : List (List Char), 2 ≤ labels.length ∧ domain = ['.'].intercalate labels ∧
    (∀ label ∈ labels, IsLabel label) ∧ domain.length ≤ 253

theorem IsLabelChar.toNat_lt {c : Char} (hc : IsLabelChar c) : c.toNat < 128 := by
  rcases hc with ⟨-, hle⟩ | ⟨-, hle⟩ | rfl
  · exact Ascii.lt_of_le hle (by decide)
  · exact Ascii.lt_of_le hle (by decide)
  · decide

theorem toNat_lt_of_isAlphanum {c : Char} (hc : c.isAlphanum = true) : c.toNat < 128 := by
  have hrange := Ascii.isAlphanum_iff.mp hc
  omega

/-- The characters that are checked for, in lower case. -/
theorem isLabelChar_iff {c : Char} (hlower : c.isUpper = false) :
    IsLabelChar c ↔ (c.isAlphanum || c == '-') = true := by
  have hpoints : ∀ n < 128, (Char.ofNat n).isUpper = false →
      (IsLabelChar (Char.ofNat n) ↔ ((Char.ofNat n).isAlphanum || Char.ofNat n == '-') = true) := by
    decide
  have hascii : c.toNat < 128 → c.isUpper = false →
      (IsLabelChar c ↔ (c.isAlphanum || c == '-') = true) :=
    fun hc => Ascii.forall_of_lt (p := fun c => c.isUpper = false →
      (IsLabelChar c ↔ (c.isAlphanum || c == '-') = true)) 128 hpoints hc
  constructor
  · exact fun hc => (hascii hc.toNat_lt hlower).mp hc
  · intro hc
    refine (hascii ?_ hlower).mpr hc
    rcases Bool.or_eq_true_iff.mp hc with halnum | hhyphen
    · exact toNat_lt_of_isAlphanum halnum
    · rw [beq_iff_eq.mp hhyphen]
      decide

/-- Characters of domain names have one byte. -/
theorem utf8Size_of_lt {c : Char} (hc : c.toNat < 128) : c.utf8Size = 1 :=
  Ascii.forall_of_lt (p := fun c => c.utf8Size = 1) 128 (by decide) hc

theorem byteLength_eq_length {text : List Char} (htext : ∀ c ∈ text, c.toNat < 128) :
    Utf8.byteLength text = text.length :=
  Utf8.byteLength_of_ascii fun c hc => utf8Size_of_lt (htext c hc)

/-! ## The checks and the names -/

/-- The checks of a label, in lower case. -/
theorem labelError_eq_none {label : List Char} (hlower : ∀ c ∈ label, c.isUpper = false) :
    labelError label = none ↔ IsLabel label := by
  have hchars : label.all (fun c => c.isAlphanum || c == '-') = true ↔
      ∀ c ∈ label, IsLabelChar c := by
    rw [List.all_eq_true]
    exact forall₂_congr fun c hc => (isLabelChar_iff (hlower c hc)).symm
  constructor
  · intro hnone
    unfold labelError at hnone
    split_ifs at hnone with hempty hlong hhyphen hother
    rw [hchars] at hother
    rw [not_or] at hhyphen
    rw [byteLength_eq_length fun c hc => (hother c hc).toNat_lt] at hlong
    exact ⟨List.length_pos_iff.mpr hempty, not_lt.mp hlong, hother, hhyphen.1, hhyphen.2⟩
  · intro hlabel
    have hlength := byteLength_eq_length fun c hc => (hlabel.chars c hc).toNat_lt
    rw [labelError, if_neg (List.ne_nil_of_length_pos hlabel.pos),
      if_neg (by rw [hlength]; exact not_lt.mpr hlabel.le),
      if_neg (not_or.mpr ⟨hlabel.head, hlabel.last⟩),
      if_neg (not_not.mpr (hchars.mpr hlabel.chars))]

theorem IsLabel.dot_notMem {label : List Char} (hlabel : IsLabel label) : '.' ∉ label := by
  intro hdot
  exact absurd (hlabel.chars '.' hdot) (by decide)

/-- The characters of a dotted name. -/
theorem toNat_lt_of_labels {labels : List (List Char)} (hlabels : ∀ label ∈ labels, IsLabel label)
    {c : Char} (hc : c ∈ ['.'].intercalate labels) : c.toNat < 128 := by
  rcases Text.mem_intercalate hc with hdot | ⟨label, hlabel, hmem⟩
  · rw [List.mem_singleton.mp hdot]
    decide
  · exact ((hlabels label hlabel).chars c hmem).toNat_lt

theorem splitOn_labels {labels : List (List Char)} (hne : labels ≠ [])
    (hlabels : ∀ label ∈ labels, IsLabel label) :
    (['.'].intercalate labels).splitOn '.' = labels :=
  List.splitOn_intercalate '.' (fun label hlabel => (hlabels label hlabel).dot_notMem) hne

/-- What stands in front of a leading dot is empty. -/
theorem nil_mem_splitOn_of_head {text : List Char} (hhead : text.head? = some '.') :
    [] ∈ text.splitOn '.' := by
  obtain ⟨rest, rfl⟩ := List.head?_eq_some_iff.mp hhead
  obtain ⟨others, hsplit⟩ := Text.exists_splitOn_eq_cons '.' ('.' :: rest)
  rw [hsplit]
  exact List.mem_cons_self

/-- What stands behind a trailing dot is empty. -/
theorem nil_mem_splitOn_of_getLast {text : List Char} (hlast : text.getLast? = some '.') :
    [] ∈ text.splitOn '.' := by
  obtain ⟨rest, rfl⟩ := List.getLast?_eq_some_iff.mp hlast
  rw [List.splitOn_append_cons_self, List.splitOn_nil]
  exact List.mem_append_right _ (List.mem_singleton_self [])

/-- The checks leave the dotted names. -/
theorem isDomainName_iff {domain : List Char} (hlower : ∀ c ∈ domain, c.isUpper = false) :
    IsDomainName domain ↔
      '.' ∈ domain ∧ Utf8.byteLength domain ≤ 253 ∧
        ∀ label ∈ domain.splitOn '.', labelError label = none := by
  have hjoin : ['.'].intercalate (domain.splitOn '.') = domain := List.intercalate_splitOn '.'
  have hparts : ∀ label ∈ domain.splitOn '.', ∀ c ∈ label, c.isUpper = false := by
    intro label hlabel c hc
    apply hlower
    rw [← hjoin]
    exact Text.mem_intercalate_of_mem hlabel hc
  constructor
  · rintro ⟨labels, htwo, hdomain, hlabels, hlength⟩
    have hne : labels ≠ [] := List.ne_nil_of_length_pos (by omega)
    have hsplit : domain.splitOn '.' = labels := by
      rw [hdomain]
      exact splitOn_labels hne hlabels
    refine ⟨?_, ?_, ?_⟩
    · by_contra hdot
      rw [List.splitOn_eq_singleton hdot] at hsplit
      rw [← hsplit, List.length_singleton] at htwo
      omega
    · rwa [byteLength_eq_length fun c hc => toNat_lt_of_labels hlabels (hdomain ▸ hc)]
    · intro label hlabel
      exact (labelError_eq_none (hparts label hlabel)).mpr (hlabels label (hsplit ▸ hlabel))
  · rintro ⟨hdot, hlength, hchecks⟩
    have hlabels : ∀ label ∈ domain.splitOn '.', IsLabel label := fun label hlabel =>
      (labelError_eq_none (hparts label hlabel)).mp (hchecks label hlabel)
    refine ⟨domain.splitOn '.', ?_, hjoin.symm, hlabels, ?_⟩
    · obtain ⟨before, after, rfl⟩ := List.append_of_mem hdot
      rw [List.splitOn_append_cons_self, List.length_append]
      have hbefore := List.length_pos_iff.mpr (List.splitOn_ne_nil '.' before)
      have hafter := List.length_pos_iff.mpr (List.splitOn_ne_nil '.' after)
      omega
    · rw [← byteLength_eq_length]
      · exact hlength
      · intro c hc
        rw [← hjoin] at hc
        exact toNat_lt_of_labels hlabels hc

/-- The result is the trimmed text in lower case, where that is a dotted name. -/
theorem validateDomain_eq_ok {unicode : LowerCase} {input result : String} :
    validateDomain unicode input = .ok result ↔
      IsDomainName (unicode.toLowercase (Text.trim input.toList)) ∧
        result.toList = unicode.toLowercase (Text.trim input.toList) := by
  have hlower := unicode.lower (Text.trim input.toList)
  unfold validateDomain
  generalize unicode.toLowercase (Text.trim input.toList) = domain at hlower
  rw [isDomainName_iff hlower]
  simp only
  split_ifs with hempty hdot hends hlong
  · simp [hempty]
  · refine iff_of_false (by simp) ?_
    rintro ⟨⟨-, -, hchecks⟩, -⟩
    have hnil : [] ∈ domain.splitOn '.' :=
      hends.elim nil_mem_splitOn_of_head nil_mem_splitOn_of_getLast
    exact absurd (hchecks [] hnil) (by simp [labelError])
  · refine iff_of_false (by simp) ?_
    rintro ⟨⟨-, hlength, -⟩, -⟩
    exact absurd hlength (not_le.mpr hlong)
  · cases herror : (domain.splitOn '.').findSome? labelError with
    | some error =>
        refine iff_of_false (by simp) ?_
        rintro ⟨⟨-, -, hchecks⟩, -⟩
        rw [List.findSome?_eq_none_iff.mpr hchecks] at herror
        cases herror
    | none =>
        rw [Except.ok.injEq, ← String.toList_inj, String.toList_ofList, eq_comm]
        exact (and_iff_right ⟨hdot, not_lt.mp hlong, List.findSome?_eq_none_iff.mp herror⟩).symm
  · simp [hdot]

/-! ## Normal form -/

/-- The characters of a dotted name. -/
theorem IsDomainName.chars {domain : List Char} (hname : IsDomainName domain) {c : Char}
    (hc : c ∈ domain) : IsLabelChar c ∨ c = '.' := by
  obtain ⟨labels, -, rfl, hlabels, -⟩ := hname
  rcases Text.mem_intercalate hc with hdot | ⟨label, hlabel, hmem⟩
  · exact Or.inr (List.mem_singleton.mp hdot)
  · exact Or.inl ((hlabels label hlabel).chars c hmem)

/-- They are no white space and have no other lower case. -/
theorem plain_of_chars {c : Char} (hc : IsLabelChar c ∨ c = '.') :
    Text.isWhitespace c = false ∧ c.toLower = c ∧ c.toNat < 128 := by
  have hpoints : ∀ n < 128, IsLabelChar (Char.ofNat n) ∨ Char.ofNat n = '.' →
      Text.isWhitespace (Char.ofNat n) = false ∧ (Char.ofNat n).toLower = Char.ofNat n ∧
        (Char.ofNat n).toNat < 128 := by
    decide
  have hlt : c.toNat < 128 := by
    rcases hc with hlabel | rfl
    · exact hlabel.toNat_lt
    · decide
  exact Ascii.forall_of_lt (p := fun c => IsLabelChar c ∨ c = '.' →
    Text.isWhitespace c = false ∧ c.toLower = c ∧ c.toNat < 128) 128 hpoints hlt hc

/-- A dotted name is trimmed and in lower case. -/
theorem IsDomainName.normal {domain : List Char} (hname : IsDomainName domain)
    (unicode : LowerCase) : unicode.toLowercase (Text.trim domain) = domain := by
  have hplain := fun c hc => plain_of_chars (hname.chars (c := c) hc)
  have htrim : Text.trim domain = domain :=
    Text.trim_eq_self (fun c hc => (hplain c (List.mem_of_mem_head? hc)).1)
      fun c hc => (hplain c (List.mem_of_mem_getLast? hc)).1
  calc
    unicode.toLowercase (Text.trim domain) = domain.map Char.toLower := by
      rw [htrim, unicode.ascii domain fun c hc => (hplain c hc).2.2]
    _ = domain.map id := List.map_congr_left fun c hc => (hplain c hc).2.1
    _ = domain := List.map_id domain

/-- **Domain names.**  A text is accepted exactly when it is a dotted name, trimmed and in lower
case, which is the result; and the result is its own normal form. -/
theorem validateDomain_iff (unicode : LowerCase) (input result : String) :
    (validateDomain unicode input = .ok result ↔
      IsDomainName (unicode.toLowercase (Text.trim input.toList)) ∧
        result.toList = unicode.toLowercase (Text.trim input.toList)) ∧
    (validateDomain unicode input = .ok result → validateDomain unicode result = .ok result) := by
  refine ⟨validateDomain_eq_ok, fun hresult => ?_⟩
  obtain ⟨hname, heq⟩ := validateDomain_eq_ok.mp hresult
  rw [← heq] at hname
  have hnormal := hname.normal unicode
  exact validateDomain_eq_ok.mpr ⟨by rwa [hnormal], hnormal.symm⟩

/-! ### ASCII texts -/

theorem isUpper_toLower (c : Char) : c.toLower.isUpper = false := by
  have hpoints : ∀ n < 128, (Char.ofNat n).toLower.isUpper = false := by decide
  by_cases hc : c.toNat < 128
  · exact Ascii.forall_of_lt (p := fun c => c.toLower.isUpper = false) 128 hpoints hc
  · have hupper : c.isUpper = false := by
      by_contra h
      rw [Bool.not_eq_false] at h
      exact hc ((Ascii.isUpper_iff.mp h).2.trans_lt (by decide))
    rw [Ascii.toLower_of_isUpper_eq_false hupper, hupper]

/-- The lower case of ASCII texts; other characters are kept. -/
def asciiLowerCase : LowerCase where
  toLowercase text := text.map Char.toLower
  ascii _ _ := rfl
  lower text c hc := by
    obtain ⟨d, -, rfl⟩ := List.mem_map.mp hc
    exact isUpper_toLower d

example : validateDomain asciiLowerCase " Sub.Example.COM" = .ok "sub.example.com" := by decide

end Modo.Tenants
