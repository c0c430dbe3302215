import Modo.ApiKey.Token
import Modo.Lib.Ascii
import Modo.Storage.Client
import Modo.Storage.Listing

/-!
# The keys of uploads

An upload is stored under its prefix, a ULID and the extension of the client's file name.  The
prefix is validated, the extension is what stands behind the last dot and is not.

`validatePath_key_iff` says when the key passes the validation that `url`, `presigned_url`, `exists`
and `delete` begin with.
-/

namespace Modo.Storage

open ApiKey (Ulid crockford)

/-! ## Uploads -/

/-- `PutInput`. -/
structure PutInput where
  data : List UInt8
  keyPrefix : List Char
  filename : Option (List Char)
  contentType : List Char

/-- `PutInput::extension`. -/
def PutInput.extension (input : PutInput) : Option (List Char) :=
  input.filename.bind fun name =>
    if name.isEmpty then none
    else
      ((name.splitOn '.').getLast?).bind fun ext =>
        if ext = name then none else some (ext.map Char.toLower)

/-- `generate_key`. -/
def generateKey (id : Ulid) (keyPrefix : List Char) (extension : Option (List Char)) : List Char :=
  match extension with
  | some ext => if ext.isEmpty then keyPrefix ++ id.text else keyPrefix ++ (id.text ++ '.' :: ext)
  | none => keyPrefix ++ id.text

/-- `Storage`, with the requests to the server left open. -/
structure Facade where
  maxFileSize : Option ℕ
  put : List Char → List UInt8 → List Char → PutOptions → Except (ℕ × String) Unit
  /-- `fetch_url`: data and content type; the memory backend has no client. -/
  fetch : Option (List Char → Option ℕ → Except (ℕ × String) (List UInt8 × List Char))

/-- `Storage::put_inner`.  A failed upload is deleted again, and the error is returned. -/
def Facade.putInner (storage : Facade) (id : Ulid) (input : PutInput)
    (contentType : Option (List Char)) (opts : PutOptions) : Except (ℕ × String) (List Char) := do
  validatePath input.keyPrefix
  match storage.maxFileSize with
  | some max =>
      if max < input.data.length then
        throw (413, s!"file size {input.data.length} exceeds maximum {max}")
  | none => pure ()
  let key := generateKey id input.keyPrefix input.extension
  storage.put key input.data (contentType.getD input.contentType) opts
  return key

/-- `PutFromUrlInput`. -/
structure PutFromUrlInput where
  url : List Char
  keyPrefix : List Char
  filename : Option (List Char)

/-- `Storage::put_from_url_inner`. -/
def Facade.putFromUrlInner (storage : Facade) (id : Ulid) (input : PutFromUrlInput)
    (contentType : Option (List Char)) (opts : PutOptions) : Except (ℕ × String) (List Char) := do
  match storage.fetch with
  | none => throw (500, "URL fetch not supported in memory backend")
  | some fetch =>
      let (data, fetchedType) ← fetch input.url storage.maxFileSize
      storage.putInner id ⟨data, input.keyPrefix, input.filename, fetchedType⟩ contentType opts

/-- An upload of either kind with this prefix and this file name returned the key. -/
def Facade.Stores (storage : Facade) (keyPrefix : List Char) (filename : Option (List Char))
    (key : List Char) : Prop :=
  (∃ id data given contentType opts,
      storage.putInner id ⟨data, keyPrefix, filename, given⟩ contentType opts = .ok key) ∨
    ∃ id url contentType opts,
      storage.putFromUrlInner id ⟨url, keyPrefix, filename⟩ contentType opts = .ok key

/-- `char::is_control`. -/
def isControl (c : Char) : Bool := decide (c.toNat < 32 ∨ 127 ≤ c.toNat ∧ c.toNat < 160)

/-- Behind its last dot the name has no control character. -/
def CleanExtension (filename : Option (List Char)) : Prop :=
  ∀ stem ext, filename = some (stem ++ '.' :: ext) → '.' ∉ ext → ∀ c ∈ ext, isControl c = false

theorem putInner_eq_ok {storage : Facade} {id : Ulid} {input : PutInput}
    {contentType : Option (List Char)} {opts : PutOptions} {key : List Char}
    (hok : storage.putInner id input contentType opts = .ok key) :
    validatePath input.keyPrefix = .ok () ∧
      key = generateKey id input.keyPrefix input.extension := by
  unfold Facade.putInner at hok
  cases hvalid : validatePath input.keyPrefix with
  | error response =>
      rw [hvalid] at hok
      cases hok
  | ok _ =>
      rw [hvalid] at hok
      refine ⟨rfl, ?_⟩
      have hput : ∀ {result : Except (ℕ × String) Unit},
          (result.bind fun _ => .ok (generateKey id input.keyPrefix input.extension)) = .ok key →
            key = generateKey id input.keyPrefix input.extension := by
        intro result hresult
        cases result with
        | error => cases hresult
        | ok => exact (Except.ok.inj hresult).symm
      cases hmax : storage.maxFileSize with
      | none =>
          rw [hmax] at hok
          exact hput hok
      | some max =>
          rw [hmax] at hok
          by_cases hsize : max < input.data.length
          · simp only [if_pos hsize] at hok
            cases hok
          · simp only [if_neg hsize] at hok
            exact hput hok

/-! ## Validation -/

theorem validatePath_iff {path : List Char} :
    validatePath path = .ok () ↔ path ≠ [] ∧ path.head? ≠ some '/' ∧
      ['.', '.'] ∉ path.splitOn '/' ∧ ∀ c ∈ path, isControl c = false := by
  have hcontrol : (path.any fun c => decide (c.toNat < 32 ∨ 127 ≤ c.toNat ∧ c.toNat < 160)) = true ↔
      ¬ ∀ c ∈ path, isControl c = false := by
    rw [List.any_eq_true]
    push Not
    simp only [isControl, ne_eq, Bool.not_eq_false]
  unfold validatePath
  split
  · rename_i hempty
    simp [List.isEmpty_iff.mp hempty]
  rename_i hempty
  split
  · rename_i hslash
    simp [hslash]
  rename_i hslash
  split
  · rename_i hdots
    simp [hdots]
  rename_i hdots
  split
  · rename_i hany
    simp [hcontrol.mp hany]
  · rename_i hany
    rw [hcontrol, not_not] at hany
    exact iff_of_true rfl ⟨fun hnil => hempty (List.isEmpty_iff.mpr hnil), hslash, hdots, hany⟩

theorem crockford_spec : ∀ c ∈ crockford, isControl c = false ∧ c ≠ '/' ∧ c ≠ '.' := by decide

/-- The parts behind the first one are of the text behind its first character. -/
theorem mem_tail_of_mem_splitOn {text part : List Char} {c : Char} {f : List Char → List Char}
    (hpart : part ∈ ((text.splitOn '/').modifyHead f).tail) (hc : c ∈ part) : c ∈ text.tail := by
  cases text with
  | nil => simp at hpart
  | cons first rest =>
      have hrest : part ∈ rest.splitOn '/' := by
        rw [List.tail_modifyHead, List.splitOn_cons_eq_if_modifyHead] at hpart
        split at hpart
        · exact hpart
        · rw [List.tail_modifyHead] at hpart
          exact List.mem_of_mem_tail hpart
      have hjoined : rest = ['/'].intercalate (rest.splitOn '/') :=
        (List.intercalate_splitOn '/').symm
      rw [List.tail_cons, hjoined]
      exact Text.mem_intercalate_of_mem hrest hc

/-- A ULID and an extension behind a valid prefix are valid without control characters. -/
theorem validatePath_append_iff {keyPrefix : List Char} (id : Ulid) (ext : List Char)
    (hkeyPrefix : validatePath keyPrefix = .ok ()) (hext : '.' ∉ ext.tail) :
    validatePath (keyPrefix ++ (id.text ++ ext)) = .ok () ↔ ∀ c ∈ ext, isControl c = false := by
  obtain ⟨hne, hslash, hdots, hcontrol⟩ := validatePath_iff.mp hkeyPrefix
  obtain ⟨first, rest, rfl⟩ := List.exists_cons_of_ne_nil hne
  have hid : ∀ c ∈ id.text, isControl c = false ∧ c ≠ '/' ∧ c ≠ '.' := fun c hc =>
    crockford_spec c (id.alphabet c hc)
  rw [validatePath_iff]
  constructor
  · rintro ⟨-, -, -, hall⟩ c hc
    exact hall c (List.mem_append_right _ (List.mem_append_right _ hc))
  · intro hclean
    refine ⟨List.append_ne_nil_of_left_ne_nil hne _, hslash, fun hmem => ?_, fun c hc => ?_⟩
    · rcases Text.mem_splitOn_append hmem with hin | hin | ⟨start, heq⟩
      · exact hdots hin
      · -- behind the ULID at most one dot is left
        rw [Text.splitOn_append_of_notMem fun hin => (hid _ hin).2.1 rfl] at hin
        exact hext (mem_tail_of_mem_splitOn hin List.mem_cons_self)
      · -- the part that the ULID is in is too long
        rw [List.takeWhile_append_of_pos fun c hc => by simpa using (hid c hc).2.1] at heq
        have hlength := congrArg List.length heq
        simp only [List.length_append, List.length_cons, List.length_nil, id.length_eq] at hlength
        omega
    · rcases List.mem_append.mp hc with hc | hc
      · exact hcontrol c hc
      rcases List.mem_append.mp hc with hc | hc
      · exact (hid c hc).1
      · exact hclean c hc

/-! ## Keys -/

theorem isControl_toLower (c : Char) : isControl c.toLower = isControl c := by
  have hpoints : ∀ n < 128, isControl (Char.ofNat n).toLower = isControl (Char.ofNat n) := by decide
  by_cases hc : c.toNat < 128
  · exact Ascii.forall_of_lt (p := fun c => isControl c.toLower = isControl c) 128 hpoints hc
  · rw [Ascii.toLower_of_le (Nat.not_lt.mp hc)]

theorem getLast?_splitOn {ext : List Char} (hext : '.' ∉ ext) (stem : List Char) :
    ((stem ++ '.' :: ext).splitOn '.').getLast? = some ext := by
  rw [List.splitOn_append_cons_self, List.splitOn_eq_singleton hext, List.getLast?_concat]

theorem cleanExtension_iff {stem ext : List Char} (hext : '.' ∉ ext) :
    CleanExtension (some (stem ++ '.' :: ext)) ↔ ∀ c ∈ ext, isControl c = false := by
  constructor
  · intro hclean
    exact hclean stem ext rfl hext
  · intro hclean other behind hname hbehind
    -- there is one last dot
    have hlast := getLast?_splitOn hbehind other
    rw [← Option.some_inj.mp hname, getLast?_splitOn hext, Option.some_inj] at hlast
    rwa [← hlast]

/-- The extension of a name with a dot. -/
theorem extension_eq {input : PutInput} {stem ext : List Char}
    (hname : input.filename = some (stem ++ '.' :: ext)) (hext : '.' ∉ ext) :
    input.extension = some (ext.map Char.toLower) := by
  have hne : ext ≠ stem ++ '.' :: ext := by
    intro heq
    have hlength := congrArg List.length heq
    simp only [List.length_append, List.length_cons] at hlength
    omega
  rw [PutInput.extension, hname, Option.bind_some, if_neg (by simp), getLast?_splitOn hext,
    Option.bind_some, if_neg hne]

/-- A name has a last dot or none. -/
theorem exists_lastDot (name : List Char) :
    '.' ∉ name ∨ ∃ stem ext, name = stem ++ '.' :: ext ∧ '.' ∉ ext := by
  by_cases hdot : '.' ∈ name
  · obtain ⟨behind, before, hreverse, hbehind⟩ :=
      List.eq_append_cons_of_mem (List.mem_reverse.mpr hdot)
    refine .inr ⟨before.reverse, behind.reverse, ?_, by simpa using hbehind⟩
    calc
      name = name.reverse.reverse := name.reverse_reverse.symm
      _ = before.reverse ++ '.' :: behind.reverse := by simp [hreverse]
  · exact .inl hdot

theorem extension_eq_none {input : PutInput} {name : List Char}
    (hname : input.filename = some name) (hdot : '.' ∉ name) : input.extension = none := by
  rw [PutInput.extension, hname, Option.bind_some, List.splitOn_eq_singleton hdot]
  simp

theorem generateKey_eq (id : Ulid) (keyPrefix ext : List Char) :
    generateKey id keyPrefix (some ext) =
      keyPrefix ++ (id.text ++ if ext.isEmpty then [] else '.' :: ext) := by
  rw [generateKey]
  split
  · rw [List.append_nil]
  · rfl

/-- The key of a valid prefix is valid exactly when the extension has no control character. -/
theorem validatePath_generateKey_iff (id : Ulid) {input : PutInput}
    (hkeyPrefix : validatePath input.keyPrefix = .ok ()) :
    validatePath (generateKey id input.keyPrefix input.extension) = .ok () ↔
      CleanExtension input.filename := by
  have hnone : validatePath (generateKey id input.keyPrefix none) = .ok () := by
    have hvalid := (validatePath_append_iff id [] hkeyPrefix List.not_mem_nil).mpr
      fun c hc => absurd hc List.not_mem_nil
    rwa [List.append_nil] at hvalid
  cases hfilename : input.filename with
  | none =>
      have hextension : input.extension = none := by rw [PutInput.extension, hfilename]; rfl
      rw [hextension]
      refine iff_of_true hnone fun stem ext hname => ?_
      cases hname
  | some name =>
      rcases exists_lastDot name with hdot | ⟨stem, ext, rfl, hext⟩
      · rw [extension_eq_none hfilename hdot]
        refine iff_of_true hnone fun stem ext hname => ?_
        rw [Option.some_inj] at hname
        exact absurd (hname ▸ List.mem_append_right stem List.mem_cons_self) hdot
      · have hlower : '.' ∉ ext.map Char.toLower := by
          intro hin
          obtain ⟨c, hc, heq⟩ := List.mem_map.mp hin
          rw [Ascii.toLower_eq_iff (by decide)] at heq
          exact hext (heq ▸ hc)
        have htail : '.' ∉ (if (ext.map Char.toLower).isEmpty then []
            else '.' :: ext.map Char.toLower).tail := by
          split
          · exact List.not_mem_nil
          · exact hlower
        rw [extension_eq hfilename hext, generateKey_eq,
          validatePath_append_iff id _ hkeyPrefix htail, cleanExtension_iff hext]
        cases ext with
        | nil => simp
        | cons c ext =>
            have hdotControl : isControl '.' = false := by decide
            simp [hdotControl, isControl_toLower]

/-- A key that was returned is valid exactly when its file name has a clean extension. -/
theorem validatePath_key_iff {storage : Facade} {keyPrefix key : List Char}
    {filename : Option (List Char)} (hstored : storage.Stores keyPrefix filename key) :
    validatePath key = .ok () ↔ CleanExtension filename := by
  rcases hstored with ⟨id, data, given, contentType, opts, hok⟩ | ⟨id, url, contentType, opts, hok⟩
  · obtain ⟨hkeyPrefix, rfl⟩ := putInner_eq_ok hok
    exact validatePath_generateKey_iff id hkeyPrefix
  · unfold Facade.putFromUrlInner at hok
    cases hfetch : storage.fetch with
    | none =>
        rw [hfetch] at hok
        cases hok
    | some fetch =>
        rw [hfetch] at hok
        cases hresult : fetch url storage.maxFileSize with
        | error response =>
            simp only [hresult] at hok
            cases hok
        | ok fetched =>
            simp only [hresult] at hok
            obtain ⟨hkeyPrefix, rfl⟩ := putInner_eq_ok hok
            exact validatePath_generateKey_iff id hkeyPrefix

def someUlid : Ulid := ⟨List.replicate 26 '0', by decide, by decide⟩

/-- A storage whose requests succeed. -/
def openStorage : Facade where
  maxFileSize := some 1000
  put _ _ _ _ := .ok ()
  fetch := none

def noOptions : PutOptions := ⟨none, none, none⟩

theorem validatePath_photo :
    validatePath ("avatars/".toList ++ (List.replicate 26 '0' ++ ".jpg".toList)) = .ok () := by
  have hstored : openStorage.Stores "avatars/".toList (some "me.JPG".toList)
      ("avatars/".toList ++ (List.replicate 26 '0' ++ ".jpg".toList)) :=
    .inl ⟨someUlid, [1], "image/jpeg".toList, none, noOptions, by decide⟩
  refine (validatePath_key_iff hstored).mpr ?_
  change CleanExtension (some ("me".toList ++ '.' :: "JPG".toList))
  exact (cleanExtension_iff (by decide)).mpr (by decide)

/-- The name ends with a line break. -/
theorem validatePath_lineBreak :
    openStorage.putInner someUlid ⟨[1], "avatars/".toList, some "me.jpg\n".toList, []⟩ none
        noOptions = .ok ("avatars/".toList ++ (List.replicate 26 '0' ++ ".jpg\n".toList)) ∧
      validatePath ("avatars/".toList ++ (List.replicate 26 '0' ++ ".jpg\n".toList)) =
        .error (400, "storage path must not contain control characters") := by
  decide

end Modo.Storage
