import Modo.Lib.Keeping
import Modo.Tenant.DomainName

/-!
# E-mail addresses

Three functions cut an address at its '@': the rule of the validator, `normalize_email`, which also
cuts the first part at its '+', and `extract_email_domain`.

`isEmail_agrees_iff` says for which texts they agree with what the rule documents and with each
other.
-/

namespace Modo.Validate

open Tenants (LowerCase BadRequest validateDomain)

/-! ## The functions -/

/-- `FieldValidator`, of a text. -/
structure FieldValidator where
  value : List Char
  errors : List String

/-- The check of the rule `email`. -/
def isEmail (s : List Char) : Bool :=
  match Utf8.splitN '@' 2 s with
  | [mailbox, domain] =>
      !mailbox.isEmpty && !domain.isEmpty && domain.contains '.' && domain.head? != some '.' &&
        domain.getLast? != some '.'
  | _ => false

/-- The rule `email`. -/
def FieldValidator.email (field : FieldValidator) : FieldValidator :=
  if isEmail field.value then field
  else { field with errors := field.errors ++ ["must be a valid email address"] }

/-- The characters that lower-casing keeps. -/
def IsKept (c : Char) : Prop := c = '@' ∨ c = '.' ∨ c = '+' ∨ Text.isWhitespace c = true

instance : DecidablePred IsKept := fun c =>
  inferInstanceAs (Decidable (c = '@' ∨ c = '.' ∨ c = '+' ∨ Text.isWhitespace c = true))

/-- What is assumed of `str::to_lowercase`: each character becomes one or more, those that are kept
stay and no other becomes one of them, and what is in lower case has no other lower case. -/
structure Lowercase extends LowerCase where
  keeps : ∀ text, Keeps IsKept text (toLowercase text)
  fixed : ∀ text, (∀ c ∈ text, ∃ other, c ∈ toLowercase other) → toLowercase text = text

variable (unicode : Lowercase)

/-- What `normalize_email` leaves of the part before the '@'. -/
def stripTag (mailbox : List Char) : List Char :=
  match Utf8.splitOnce '+' mailbox with
  | some (base, _) => base
  | none => mailbox

/-- `normalize_email`. -/
def normalizeEmail (s : List Char) : List Char :=
  let s := unicode.toLowercase (Text.trim s)
  match Utf8.splitOnce '@' s with
  | some (mailbox, domain) => stripTag mailbox ++ '@' :: domain
  | none => s

/-- `extract_email_domain`. -/
def extractEmailDomain (email : List Char) : Except BadRequest String :=
  match Utf8.splitN '@' 2 (Text.trim email) with
  | [mailbox, domain] =>
      if mailbox = [] ∨ domain = [] then .error ⟨"invalid email address"⟩
      else validateDomain unicode.toLowerCase (String.ofList domain)
  | _ => .error ⟨"invalid email address"⟩

/-! ## What they are to agree on -/

/-- There is a '.', and not at an end. -/
structure IsHost (domain : List Char) : Prop where
  dot : '.' ∈ domain
  head : domain.head? ≠ some '.'
  last : domain.getLast? ≠ some '.'

/-- The text is cut at its first '@' into two parts that the rule accepts. -/
structure Cut (s mailbox domain : List Char) : Prop where
  eq : s = mailbox ++ '@' :: domain
  notMem : '@' ∉ mailbox
  ne_nil : mailbox ≠ []
  isHost : IsHost domain

/-- The rule accepts a text if it has no error for it. -/
def Accepts (s : List Char) : Prop := ∀ errors, (FieldValidator.email ⟨s, errors⟩).errors = errors

/-- There is exactly one '@', with two parts that the rule accepts. -/
def IsAddress (s : List Char) : Prop :=
  s.count '@' = 1 ∧ ∃ mailbox domain, s = mailbox ++ '@' :: domain ∧ mailbox ≠ [] ∧ domain ≠ [] ∧
    IsHost domain

structure Agrees (s : List Char) : Prop where
  accepts_iff : Accepts s ↔ IsAddress s
  idempotent : normalizeEmail unicode (normalizeEmail unicode s) = normalizeEmail unicode s
  accepts_normalizeEmail : Accepts s → Text.trim s = s → Accepts (normalizeEmail unicode s)
  extracts : ∀ domain, extractEmailDomain unicode s = .ok domain →
    Accepts (Text.trim s) ∧ ∃ mailbox part, Text.trim s = mailbox ++ '@' :: part ∧
      '@' ∉ mailbox ∧ '@' ∉ part ∧ domain.toList = unicode.toLowercase (Text.trim part)

/-! ## The rule -/

theorem splitN_two_eq {s mailbox domain : List Char} :
    Utf8.splitN '@' 2 s = [mailbox, domain] ↔ s = mailbox ++ '@' :: domain ∧ '@' ∉ mailbox := by
  rw [Utf8.splitN_eq_cons]
  simp only [Utf8.splitN, List.cons.injEq, and_true]
  constructor
  · rintro ⟨after, hs, hmailbox, rfl⟩
    exact ⟨hs, hmailbox⟩
  · rintro ⟨hs, hmailbox⟩
    exact ⟨domain, hs, hmailbox, rfl⟩

theorem isEmail_iff (s : List Char) :
    isEmail s = true ↔ ∃ mailbox domain, Cut s mailbox domain := by
  constructor
  · intro hemail
    unfold isEmail at hemail
    split at hemail
    · rename_i mailbox domain hsplit
      obtain ⟨hs, hmailbox⟩ := splitN_two_eq.mp hsplit
      simp only [Bool.and_eq_true, Bool.not_eq_true', List.isEmpty_eq_false_iff,
        List.contains_iff_mem, bne_iff_ne] at hemail
      obtain ⟨⟨⟨⟨hne, _⟩, hdot⟩, hhead⟩, hlast⟩ := hemail
      exact ⟨mailbox, domain, hs, hmailbox, hne, hdot, hhead, hlast⟩
    · cases hemail
  · rintro ⟨mailbox, domain, hs, hmailbox, hne, hdot, hhead, hlast⟩
    rw [isEmail, splitN_two_eq.mpr ⟨hs, hmailbox⟩]
    simp [hne, hdot, hhead, hlast, List.ne_nil_of_mem hdot]

theorem accepts_iff (s : List Char) : Accepts s ↔ ∃ mailbox domain, Cut s mailbox domain := by
  rw [← isEmail_iff]
  constructor
  · intro haccepts
    by_contra hemail
    have herrors := haccepts []
    rw [FieldValidator.email, if_neg hemail] at herrors
    cases herrors
  · intro hemail errors
    rw [FieldValidator.email, if_pos hemail]

theorem Cut.unique {s mailbox domain mailbox' domain' : List Char} (h : Cut s mailbox domain)
    (h' : Cut s mailbox' domain') : mailbox = mailbox' ∧ domain = domain' := by
  have hfirst := Utf8.splitOnce_eq_some.mpr ⟨h.eq, h.notMem⟩
  rw [Utf8.splitOnce_eq_some.mpr ⟨h'.eq, h'.notMem⟩, Option.some.injEq, Prod.mk.injEq] at hfirst
  exact ⟨hfirst.1.symm, hfirst.2.symm⟩

/-- An accepted text has what the rule documents unless a second '@' follows. -/
theorem Cut.isAddress_iff {s mailbox domain : List Char} (h : Cut s mailbox domain) :
    IsAddress s ↔ '@' ∉ domain := by
  have hcount : s.count '@' = domain.count '@' + 1 := by
    rw [h.eq, List.count_append, List.count_cons_self, List.count_eq_zero.mpr h.notMem,
      Nat.zero_add]
  have hone : s.count '@' = 1 ↔ '@' ∉ domain := by
    rw [hcount, ← List.count_eq_zero]
    omega
  rw [IsAddress, hone]
  exact and_iff_left ⟨mailbox, domain, h.eq, h.ne_nil, List.ne_nil_of_mem h.isHost.dot, h.isHost⟩

theorem IsAddress.exists_cut {s : List Char} (h : IsAddress s) :
    ∃ mailbox domain, Cut s mailbox domain := by
  obtain ⟨hcount, mailbox, domain, rfl, hne, -, hhost⟩ := h
  refine ⟨mailbox, domain, rfl, ?_, hne, hhost⟩
  rw [List.count_append, List.count_cons_self] at hcount
  exact List.count_eq_zero.mp (by omega)

/-! ## Normal form -/

theorem stripTag_eq (mailbox : List Char) :
    ∃ tag, mailbox = stripTag mailbox ++ tag ∧ '+' ∉ stripTag mailbox ∧
      tag.head?.all (· = '+') := by
  unfold stripTag
  cases hsplit : Utf8.splitOnce '+' mailbox with
  | none => exact ⟨[], by simp, Utf8.splitOnce_eq_none.mp hsplit, rfl⟩
  | some parts =>
      obtain ⟨base, tag⟩ := parts
      obtain ⟨hmailbox, hbase⟩ := Utf8.splitOnce_eq_some.mp hsplit
      exact ⟨'+' :: tag, hmailbox, hbase, rfl⟩

theorem stripTag_of_notMem {mailbox : List Char} (hplus : '+' ∉ mailbox) :
    stripTag mailbox = mailbox := by
  rw [stripTag, Utf8.splitOnce_eq_none.mpr hplus]

/-- Nothing is left of a part that begins with its tag. -/
theorem stripTag_eq_nil_iff {mailbox : List Char} (hne : mailbox ≠ []) :
    stripTag mailbox = [] ↔ mailbox.head? = some '+' := by
  obtain ⟨tag, htag, hplus, hhead⟩ := stripTag_eq mailbox
  generalize stripTag mailbox = base at htag hplus
  subst htag
  cases base with
  | nil =>
      obtain ⟨c, rest, rfl⟩ := List.exists_cons_of_ne_nil hne
      simpa using hhead
  | cons c base =>
      simp only [List.cons_append, List.head?_cons, Option.some.injEq, reduceCtorEq, false_iff]
      rintro rfl
      exact hplus List.mem_cons_self

theorem normalizeEmail_of_eq {s mailbox domain : List Char}
    (heq : unicode.toLowercase (Text.trim s) = mailbox ++ '@' :: domain) (hat : '@' ∉ mailbox) :
    normalizeEmail unicode s = stripTag mailbox ++ '@' :: domain := by
  rw [normalizeEmail, heq, Utf8.splitOnce_eq_some.mpr ⟨rfl, hat⟩]

theorem normalizeEmail_of_notMem {s : List Char}
    (hat : '@' ∉ unicode.toLowercase (Text.trim s)) :
    normalizeEmail unicode s = unicode.toLowercase (Text.trim s) := by
  rw [normalizeEmail, Utf8.splitOnce_eq_none.mpr hat]

/-- A trimmed text is trimmed in lower case. -/
theorem trim_toLowercase_trim (s : List Char) :
    Text.trim (unicode.toLowercase (Text.trim s)) = unicode.toLowercase (Text.trim s) := by
  have hkeeps := unicode.keeps (Text.trim s)
  refine Text.trim_eq_self ?_ ?_
  · intro c hc
    by_contra hspace
    have hspace : Text.isWhitespace c = true := Bool.not_eq_false _ ▸ hspace
    have hfirst := (hkeeps.head?_iff (.inr (.inr (.inr hspace)))).mpr hc
    exact absurd (Text.isWhitespace_head_trim c hfirst) (by simp [hspace])
  · intro c hc
    by_contra hspace
    have hspace : Text.isWhitespace c = true := Bool.not_eq_false _ ▸ hspace
    have hlast := (hkeeps.getLast?_iff (.inr (.inr (.inr hspace)))).mpr hc
    exact absurd (Text.isWhitespace_getLast_trim c hlast) (by simp [hspace])

/-- Taking a tag out leaves no surrounding whitespace. -/
theorem trim_stripTag {mailbox domain : List Char}
    (htrim : Text.trim (mailbox ++ '@' :: domain) = mailbox ++ '@' :: domain) :
    Text.trim (stripTag mailbox ++ '@' :: domain) = stripTag mailbox ++ '@' :: domain := by
  obtain ⟨tag, htag, -, -⟩ := stripTag_eq mailbox
  generalize stripTag mailbox = base at htag ⊢
  subst htag
  have hfirst : ∀ c ∈ (base ++ tag ++ '@' :: domain).head?, Text.isWhitespace c = false := by
    rw [← htrim]
    exact Text.isWhitespace_head_trim
  have hlast : ∀ c ∈ (base ++ tag ++ '@' :: domain).getLast?, Text.isWhitespace c = false := by
    rw [← htrim]
    exact Text.isWhitespace_getLast_trim
  apply Text.trim_eq_self
  · cases base with
    | nil => simp; decide
    | cons c base => simpa using hfirst
  · rw [List.getLast?_append_of_ne_nil _ (List.cons_ne_nil _ _)] at hlast ⊢
    exact hlast

theorem normalizeEmail_idempotent (s : List Char) :
    normalizeEmail unicode (normalizeEmail unicode s) = normalizeEmail unicode s := by
  have htrim := trim_toLowercase_trim unicode s
  have hfixed : ∀ text, (∀ c ∈ text, c ∈ unicode.toLowercase (Text.trim s)) →
      unicode.toLowercase text = text :=
    fun text htext => unicode.fixed text fun c hc => ⟨_, htext c hc⟩
  by_cases hat : '@' ∈ unicode.toLowercase (Text.trim s)
  · obtain ⟨mailbox, domain, hlower, hmailbox⟩ := List.eq_append_cons_of_mem hat
    rw [normalizeEmail_of_eq unicode hlower hmailbox]
    obtain ⟨tag, htag, hplus, -⟩ := stripTag_eq mailbox
    have hbase : '@' ∉ stripTag mailbox := by
      intro hmem
      rw [htag] at hmailbox
      exact hmailbox (List.mem_append_left _ hmem)
    have hagain : unicode.toLowercase (Text.trim (stripTag mailbox ++ '@' :: domain)) =
        stripTag mailbox ++ '@' :: domain := by
      rw [trim_stripTag (hlower ▸ htrim)]
      apply hfixed
      intro c hc
      rw [hlower, htag]
      rcases List.mem_append.mp hc with hbase | hrest
      · exact List.mem_append_left _ (List.mem_append_left _ hbase)
      · exact List.mem_append_right _ hrest
    rw [normalizeEmail_of_eq unicode hagain hbase, stripTag_of_notMem hplus]
  · rw [normalizeEmail_of_notMem unicode hat]
    have hlower : unicode.toLowercase (Text.trim (unicode.toLowercase (Text.trim s))) =
        unicode.toLowercase (Text.trim s) := by
      rw [htrim]
      exact hfixed _ fun _ hc => hc
    rw [normalizeEmail_of_notMem unicode (by rwa [hlower]), hlower]

/-- Lower-casing keeps the shape of a host. -/
theorem isHost_iff_of_keeps {domain result : List Char} (hkeeps : Keeps IsKept domain result) :
    IsHost domain ↔ IsHost result := by
  have hdot : IsKept '.' := .inr (.inl rfl)
  have hmem := hkeeps.mem_iff hdot
  have hhead := not_congr (hkeeps.head?_iff hdot)
  have hlast := not_congr (hkeeps.getLast?_iff hdot)
  exact ⟨fun h => ⟨hmem.mp h.dot, hhead.mp h.head, hlast.mp h.last⟩,
    fun h => ⟨hmem.mpr h.dot, hhead.mpr h.head, hlast.mpr h.last⟩⟩

/-- An accepted address is accepted in its normal form, unless it begins with its tag. -/
theorem Cut.accepts_normalizeEmail_iff {s mailbox domain : List Char} (h : Cut s mailbox domain)
    (htrim : Text.trim s = s) : Accepts (normalizeEmail unicode s) ↔ mailbox.head? ≠ some '+' := by
  have hat : IsKept '@' := .inl rfl
  have hplus : IsKept '+' := .inr (.inr (.inl rfl))
  have hkeeps := unicode.keeps (Text.trim s)
  nth_rewrite 1 [htrim, h.eq] at hkeeps
  obtain ⟨mailbox', domain', hlower, hmailbox, hdomain⟩ := hkeeps.exists_append_cons hat
  have hnotMem : '@' ∉ mailbox' := fun hmem => h.notMem ((hmailbox.mem_iff hat).mpr hmem)
  have hne : mailbox' ≠ [] := fun hnil => h.ne_nil (hmailbox.eq_nil_iff.mpr hnil)
  obtain ⟨tag, htag, -, -⟩ := stripTag_eq mailbox'
  have hbase : '@' ∉ stripTag mailbox' := by
    intro hmem
    rw [htag] at hnotMem
    exact hnotMem (List.mem_append_left _ hmem)
  rw [normalizeEmail_of_eq unicode hlower hnotMem, accepts_iff, ne_eq, hmailbox.head?_iff hplus,
    ← stripTag_eq_nil_iff hne]
  constructor
  · rintro ⟨base, rest, hcut⟩ hnil
    rw [hnil] at hcut
    have hsplit := Utf8.splitOnce_eq_some.mpr ⟨hcut.eq, hcut.notMem⟩
    obtain rfl : base = [] := by
      simpa [Utf8.splitOnce, eq_comm] using (congrArg (Option.map Prod.fst) hsplit)
    exact hcut.ne_nil rfl
  · intro hbaseNe
    exact ⟨stripTag mailbox', domain', rfl, hbase, hbaseNe,
      (isHost_iff_of_keeps hdomain).mp h.isHost⟩

/-! ## The domain -/

theorem isWhitespace_of_plain {c : Char} (hc : c = '@' ∨ c = '.') :
    Text.isWhitespace c = false := by
  rcases hc with rfl | rfl <;> decide

/-- A dotted name has a '.', and not at an end. -/
theorem isHost_of_isDomainName {domain : List Char} (hlower : ∀ c ∈ domain, c.isUpper = false)
    (hname : Tenants.IsDomainName domain) : IsHost domain := by
  obtain ⟨hdot, -, hchecks⟩ := (Tenants.isDomainName_iff hlower).mp hname
  have hempty : [] ∉ domain.splitOn '.' := by
    intro hmem
    exact absurd (hchecks [] hmem) (by simp [Tenants.labelError])
  exact ⟨hdot, fun hhead => hempty (Tenants.nil_mem_splitOn_of_head hhead),
    fun hlast => hempty (Tenants.nil_mem_splitOn_of_getLast hlast)⟩

/-- Trimming takes no '@' and no '.' away. -/
theorem mem_trim {c : Char} (hc : c = '@' ∨ c = '.') {text : List Char} :
    c ∈ Text.trim text ↔ c ∈ text := by
  refine ⟨fun hmem => (Text.trim_infix text).mem hmem, fun hmem => ?_⟩
  obtain ⟨before, after, rfl⟩ := List.append_of_mem hmem
  rw [Text.trim_append_cons (isWhitespace_of_plain hc)]
  exact List.mem_append_right _ List.mem_cons_self

theorem isHost_of_trim {domain : List Char} (h : IsHost (Text.trim domain)) : IsHost domain := by
  have hspace : Text.isWhitespace '.' = false := by decide
  refine ⟨(mem_trim (.inr rfl)).mp h.dot, ?_, ?_⟩
  · intro hhead
    obtain ⟨rest, rfl⟩ := List.head?_eq_some_iff.mp hhead
    have htrim := Text.trim_append_cons hspace [] rest
    rw [List.nil_append] at htrim
    exact h.head (by rw [htrim]; rfl)
  · intro hlast
    obtain ⟨front, rfl⟩ := List.getLast?_eq_some_iff.mp hlast
    exact h.last (by rw [Text.trim_append_cons hspace]; exact List.getLast?_concat)

theorem extractEmailDomain_eq_ok {s : List Char} {domain : String}
    (hok : extractEmailDomain unicode s = .ok domain) :
    Accepts (Text.trim s) ∧ ∃ mailbox part, Text.trim s = mailbox ++ '@' :: part ∧
      '@' ∉ mailbox ∧ '@' ∉ part ∧ domain.toList = unicode.toLowercase (Text.trim part) := by
  unfold extractEmailDomain at hok
  split at hok
  · rename_i mailbox part hsplit
    obtain ⟨hs, hmailbox⟩ := splitN_two_eq.mp hsplit
    split_ifs at hok with hempty
    rw [not_or] at hempty
    obtain ⟨hname, hdomain⟩ := Tenants.validateDomain_eq_ok.mp hok
    rw [String.toList_ofList] at hname hdomain
    have hkeeps := unicode.keeps (Text.trim part)
    have hhost : IsHost part := by
      apply isHost_of_trim
      exact (isHost_iff_of_keeps hkeeps).mpr (isHost_of_isDomainName (unicode.lower _) hname)
    have hat : '@' ∉ part := by
      intro hmem
      have hlower := (hkeeps.mem_iff (.inl rfl)).mp ((mem_trim (.inl rfl)).mpr hmem)
      exact absurd (hname.chars hlower) (by decide)
    exact ⟨(accepts_iff _).mpr ⟨mailbox, part, hs, hmailbox, hempty.1, hhost⟩,
      mailbox, part, hs, hmailbox, hat, hdomain⟩
  · cases hok

/-! ## Agreement -/

/-- **E-mail addresses.**  The three functions agree on a text unless the rule accepts it with a
second '@', or trimmed and with a first part that begins with '+'. -/
theorem isEmail_agrees_iff (s : List Char) :
    Agrees unicode s ↔ ∀ mailbox domain, Cut s mailbox domain →
      '@' ∉ domain ∧ (Text.trim s = s → mailbox.head? ≠ some '+') := by
  constructor
  · intro hagrees mailbox domain hcut
    have haccepts := (accepts_iff s).mpr ⟨mailbox, domain, hcut⟩
    refine ⟨hcut.isAddress_iff.mp (hagrees.accepts_iff.mp haccepts), fun htrim => ?_⟩
    exact (hcut.accepts_normalizeEmail_iff unicode htrim).mp
      (hagrees.accepts_normalizeEmail haccepts htrim)
  · intro hcuts
    refine ⟨⟨?_, ?_⟩, normalizeEmail_idempotent unicode s, ?_,
      fun domain hok => extractEmailDomain_eq_ok unicode hok⟩
    · intro haccepts
      obtain ⟨mailbox, domain, hcut⟩ := (accepts_iff s).mp haccepts
      exact hcut.isAddress_iff.mpr (hcuts mailbox domain hcut).1
    · intro haddress
      exact (accepts_iff s).mpr haddress.exists_cut
    · intro haccepts htrim
      obtain ⟨mailbox, domain, hcut⟩ := (accepts_iff s).mp haccepts
      exact (hcut.accepts_normalizeEmail_iff unicode htrim).mpr
        ((hcuts mailbox domain hcut).2 htrim)

/-! ### ASCII texts -/

/-- An upper-case letter is none of the characters that are kept, nor does it become one. -/
theorem not_isKept_of_isUpper {c : Char} (hc : c.isUpper = true) :
    ¬IsKept c ∧ ¬IsKept c.toLower := by
  have hpoints : ∀ n < 128, (Char.ofNat n).isUpper = true →
      ¬IsKept (Char.ofNat n) ∧ ¬IsKept (Char.ofNat n).toLower := by decide
  have hlt : c.toNat < 128 := (Ascii.isUpper_iff.mp hc).2.trans_lt (by decide)
  exact Ascii.forall_of_lt (p := fun c => c.isUpper = true → ¬IsKept c ∧ ¬IsKept c.toLower) 128
    hpoints hlt hc

/-- The lower case of ASCII texts; other characters are kept. -/
def asciiLowercase : Lowercase where
  toLowerCase := Tenants.asciiLowerCase
  keeps := by
    apply Keeps.map
    · intro c hc
      apply Ascii.toLower_of_isUpper_eq_false
      by_contra hupper
      exact (not_isKept_of_isUpper (Bool.not_eq_false _ ▸ hupper)).1 hc
    · intro c hc
      cases hupper : c.isUpper with
      | true => exact (not_isKept_of_isUpper hupper).2
      | false => rwa [Ascii.toLower_of_isUpper_eq_false hupper]
  fixed text htext := by
    have hlower : ∀ c ∈ text, c.toLower = c := by
      intro c hc
      obtain ⟨other, hother⟩ := htext c hc
      exact Ascii.toLower_of_isUpper_eq_false (Tenants.asciiLowerCase.lower other c hother)
    exact (List.map_congr_left hlower).trans (List.map_id text)

/-- A second '@' is accepted, and an address that begins with its tag has no normal form that is. -/
theorem not_agrees :
    ¬Agrees asciiLowercase "a@b@c.d".toList ∧ ¬Agrees asciiLowercase "+tag@example.com".toList := by
  constructor
  · intro hagrees
    have haccepts : Accepts "a@b@c.d".toList := fun _ => rfl
    exact absurd (hagrees.accepts_iff.mp haccepts).1 (by decide)
  · intro hagrees
    have haccepts : Accepts "+tag@example.com".toList := fun _ => rfl
    have hnormal := hagrees.accepts_normalizeEmail haccepts (by decide) []
    exact absurd hnormal (by decide)

end Modo.Validate
