import Modo.ApiKey.Store

/-!
# Reading API keys

`parse_token` splits the part after the prefix behind its 26th byte, and `split_at` panics when
this is inside a character.  `Straddles` says so of a text, and `parseToken_panics_iff` and
`verify_panics_iff` that nothing else panics.

The constant counts bytes where an id is documented as 26 characters, so that a key is read
back exactly when its id is ASCII; and a key without secret is refused
(`parseToken_formatToken_iff`).  What is read was formatted so, for every text
(`eq_of_parseToken`).
-/

namespace Modo.ApiKey

/-- A character of the body straddles the place behind its 26th byte. -/
def Straddles (keyPrefix raw : List Char) : Prop :=
  ∃ before c after, raw = keyPrefix ++ '_' :: (before ++ c :: after) ∧
    Utf8.byteLength before < ulidLen ∧ ulidLen < Utf8.byteLength before + c.utf8Size

/-- The body of a text with the prefix. -/
theorem parseToken_append {keyPrefix : List Char} (hunderscore : '_' ∉ keyPrefix)
    (body : List Char) :
    parseToken (keyPrefix ++ '_' :: body) keyPrefix =
      if Utf8.byteLength body ≤ ulidLen then .ok none
      else
        match Utf8.splitAt ulidLen body with
        | none => .error .panic
        | some (id, secret) => .ok (some ⟨id, secret⟩) := by
  have honce : Utf8.splitOnce '_' (keyPrefix ++ '_' :: body) = some (keyPrefix, body) :=
    Utf8.splitOnce_eq_some.mpr ⟨rfl, hunderscore⟩
  rw [parseToken, honce]
  exact if_neg (not_not_intro rfl)

/-- Every error is the panic of the split. -/
theorem eq_append_of_parseToken_error {raw keyPrefix : List Char} {failure : Failure}
    (herror : parseToken raw keyPrefix = .error failure) :
    ∃ body, raw = keyPrefix ++ '_' :: body ∧ '_' ∉ keyPrefix ∧ ulidLen < Utf8.byteLength body ∧
      Utf8.splitAt ulidLen body = none := by
  unfold parseToken at herror
  split at herror
  · cases herror
  · rename_i begun body honce
    obtain ⟨hraw, hunderscore⟩ := Utf8.splitOnce_eq_some.mp honce
    split_ifs at herror with hprefixes hshort
    rw [not_not] at hprefixes
    subst hprefixes
    split at herror
    · rename_i hnone
      exact ⟨body, hraw, hunderscore, not_le.mp hshort, hnone⟩
    · cases herror

/-- **When the split panics.** -/
theorem parseToken_panics_iff {keyPrefix : List Char} (hunderscore : '_' ∉ keyPrefix)
    (raw : List Char) :
    parseToken raw keyPrefix = .error .panic ↔ Straddles keyPrefix raw := by
  constructor
  · intro hpanic
    obtain ⟨body, rfl, -, hlength, hnone⟩ := eq_append_of_parseToken_error hpanic
    obtain ⟨before, c, after, rfl, hbefore, hafter⟩ :=
      (Utf8.splitAt_eq_none_iff hlength.le).mp hnone
    exact ⟨before, c, after, rfl, hbefore, hafter⟩
  · intro ⟨before, c, after, hraw, hbefore, hafter⟩
    have hlength : ulidLen < Utf8.byteLength (before ++ c :: after) := by
      rw [Utf8.byteLength_append, Utf8.byteLength_cons]
      omega
    have hnone := (Utf8.splitAt_eq_none_iff hlength.le).mpr ⟨before, c, after, rfl, hbefore, hafter⟩
    rw [hraw, parseToken_append hunderscore, if_neg (not_le.mpr hlength), hnone]

/-- ASCII texts are split between characters. -/
theorem not_straddles_of_ascii {keyPrefix raw : List Char} (hascii : ∀ c ∈ raw, c.utf8Size = 1) :
    ¬ Straddles keyPrefix raw := by
  intro ⟨before, c, after, hraw, hbefore, hafter⟩
  have hsize := hascii c (by simp [hraw])
  omega

section Verify

variable (sha256 : List UInt8 → String) (parseRfc3339 : String → Option DateTime)

/-- **`verify` panics when the split does**, and nowhere else. -/
theorem verify_panics_iff (config : ApiKeyConfig) (rawToken : List Char) (now : DateTime)
    (table : KeyTable) :
    verify sha256 parseRfc3339 config rawToken now table = .error .panic ↔
      parseToken rawToken config.keyPrefix = .error .panic := by
  rw [verify, verifyRecord]
  cases hparse : parseToken rawToken config.keyPrefix with
  | error failure => simp [bind, Except.bind, Except.map]
  | ok parsed =>
      cases hrecord : parsed.bind fun token => table.get? token.id with
      | none => simp [bind, Except.bind, hrecord, Except.map]
      | some found =>
          simp only [bind, Except.bind, hrecord]
          split <;> simp [Except.map]

end Verify

/-! ## Which keys are read back -/

/-- A key is read back when its id has 26 bytes and its secret is not empty. -/
theorem parseToken_formatToken_iff {keyPrefix : List Char} (hunderscore : '_' ∉ keyPrefix)
    (id secret : List Char) :
    parseToken (formatToken keyPrefix id secret) keyPrefix = .ok (some ⟨id, secret⟩) ↔
      Utf8.byteLength id = ulidLen ∧ secret ≠ [] := by
  rw [formatToken, parseToken_append hunderscore, Utf8.byteLength_append]
  constructor
  · intro hread
    have hlong : ¬ Utf8.byteLength id + Utf8.byteLength secret ≤ ulidLen := by
      intro hshort
      rw [if_pos hshort] at hread
      cases hread
    rw [if_neg hlong] at hread
    cases hsplit : Utf8.splitAt ulidLen (id ++ secret) with
    | none =>
        rw [hsplit] at hread
        cases hread
    | some parts =>
        obtain ⟨first, second⟩ := parts
        simp only [hsplit, Except.ok.injEq, Option.some.injEq, ParsedToken.mk.injEq] at hread
        obtain ⟨rfl, rfl⟩ := hread
        have hid := Utf8.byteLength_of_splitAt hsplit
        refine ⟨hid, ?_⟩
        rintro rfl
        exact hlong (by rw [hid]; rfl)
  · rintro ⟨hid, hsecret⟩
    have hpos : 0 < Utf8.byteLength secret :=
      (List.length_pos_iff.mpr hsecret).trans_le (Utf8.length_le_byteLength secret)
    have hsplit : Utf8.splitAt ulidLen (id ++ secret) = some (id, secret) :=
      Utf8.splitAt_eq_some_iff.mpr ⟨rfl, hid⟩
    rw [if_neg (by omega), hsplit]

/-- **API keys.**  For a valid configuration, a text, and an id of 26 characters with a secret:
reading and verifying the text does not panic, and the formatted key is the one text that is
read as this id and secret, exactly when no character of the text straddles the place behind
the 26th byte of its body, the id is ASCII, and the secret is not empty. -/
theorem tokens_read_iff (sha256 : List UInt8 → String) (parseRfc3339 : String → Option DateTime)
    (config : ApiKeyConfig) (hvalid : config.validate = .ok ()) (raw : List Char) (now : DateTime)
    (table : KeyTable) (id secret : List Char) (hid : id.length = 26) :
    ((parseToken raw config.keyPrefix ≠ .error .panic ∧
        verify sha256 parseRfc3339 config raw now table ≠ .error .panic) ∧
      ∀ text, parseToken text config.keyPrefix = .ok (some ⟨id, secret⟩) ↔
        text = formatToken config.keyPrefix id secret) ↔
      ¬ Straddles config.keyPrefix raw ∧ (∀ c ∈ id, c.utf8Size = 1) ∧ secret ≠ [] := by
  obtain ⟨hunderscore, -⟩ := validate_spec hvalid
  have hascii : (∀ c ∈ id, c.utf8Size = 1) ↔ Utf8.byteLength id = ulidLen := by
    rw [← Utf8.byteLength_eq_length_iff, hid]
    rfl
  rw [Ne, Ne, verify_panics_iff, parseToken_panics_iff hunderscore, and_self_iff, hascii,
    ← parseToken_formatToken_iff hunderscore]
  apply and_congr_right
  intro _
  constructor
  · intro hread
    exact (hread _).mpr rfl
  · intro hformatted text
    exact ⟨eq_of_parseToken, fun htext => htext ▸ hformatted⟩

/-- A key of the default configuration. -/
theorem tokens_read_iff_default :
    parseToken (formatToken "modo".toList (List.replicate 26 '0') "s".toList) "modo".toList =
      .ok (some ⟨List.replicate 26 '0', "s".toList⟩) :=
  (((tokens_read_iff (fun _ => "") (fun _ => none) {} (by decide) [] (.ofSecs 0) Table.empty
    (List.replicate 26 '0') "s".toList (by decide)).mpr
      ⟨not_straddles_of_ascii (by decide), by decide, by decide⟩).2 _).mpr rfl

/-- An accented letter across the 26th byte of the body. -/
theorem accented_panics :
    parseToken ("modo_".toList ++ List.replicate 25 'a' ++ "é".toList) "modo".toList =
      .error .panic ∧
    verify (fun _ => "") (fun _ => none) {}
      ("modo_".toList ++ List.replicate 25 'a' ++ "é".toList) (.ofSecs 0) Table.empty =
        .error .panic := by
  have hpanic : parseToken ("modo_".toList ++ List.replicate 25 'a' ++ "é".toList) "modo".toList =
      .error .panic := by
    decide
  exact ⟨hpanic, (verify_panics_iff _ _ {} _ _ _).mpr hpanic⟩

end Modo.ApiKey
