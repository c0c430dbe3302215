import Modo.Lib.WebUrl
import Modo.Storage.Listing

/-!
# Public URLs

`Storage::url` writes a key behind the configured base as it is, where a request encodes it.
`url_names_iff` says for which bases and keys the URL names the object: the base has to be
the URL of a directory, and nothing in the key may mean something else in a URL.
-/

namespace Modo.Storage

open WebUrl (IsDirectory ReadsBack Written isSpecial)

/-! ## The URL of a key -/

/-- `BucketConfig::normalized_public_url`. -/
def normalizedPublicUrl (publicUrl : Option (List Char)) : Option (List Char) :=
  ((publicUrl.map Text.trim).filter fun text => !text.isEmpty).map
    fun text => text.rdropWhile fun c => decide (c = '/')

/-- `Storage::url`. -/
def url (publicUrl : Option (List Char)) (key : List Char) : Except (ℕ × String) (List Char) := do
  validatePath key
  match normalizedPublicUrl publicUrl with
  | none => .error (500, "public_url not configured")
  | some base => .ok (base ++ '/' :: key)

section Names

variable (accepts : List Char → List Char → Bool) (publicUrl : Option (List Char))

/-- The URL of the key is read, below the base, as the key and nothing else. -/
def Names (key : List Char) : Prop :=
  ∃ base dir text read, normalizedPublicUrl publicUrl = some base ∧
    WebUrl.read accepts (base ++ ['/']) = some dir ∧ url publicUrl key = .ok text ∧
    WebUrl.read accepts text = some read ∧ ReadsBack dir read key

/-- The base is the URL of a directory, and the key stands for itself in a URL. -/
def Nameable (key : List Char) : Prop :=
  ∃ base dir, normalizedPublicUrl publicUrl = some base ∧
    WebUrl.read accepts (base ++ ['/']) = some dir ∧ IsDirectory dir ∧
    Written (isSpecial dir.scheme) key

variable {accepts publicUrl}

/-- What `validate_path` leaves out. -/
theorem validatePath_eq_ok {path : List Char} (hvalid : validatePath path = .ok ()) :
    path ≠ [] ∧ path.head? ≠ some '/' ∧ ∀ c ∈ path, WebUrl.isDropped c = false := by
  unfold validatePath at hvalid
  split at hvalid
  · cases hvalid
  rename_i hempty
  split at hvalid
  · cases hvalid
  rename_i hslash
  split at hvalid
  · cases hvalid
  split at hvalid
  · cases hvalid
  rename_i hcontrol
  refine ⟨by simpa using hempty, hslash, fun c hc => ?_⟩
  rw [List.any_eq_true, not_exists] at hcontrol
  by_contra hdropped
  refine hcontrol c ⟨hc, ?_⟩
  rcases of_decide_eq_true (Bool.not_eq_false _ ▸ hdropped) with rfl | rfl | rfl <;> decide

theorem url_eq_ok {base key : List Char} (hbase : normalizedPublicUrl publicUrl = some base)
    (hvalid : validatePath key = .ok ()) : url publicUrl key = .ok (base ++ '/' :: key) := by
  rw [url, hvalid, hbase]
  rfl

theorem names_iff_nameable {key : List Char} (hvalid : validatePath key = .ok ()) :
    Names accepts publicUrl key ↔ Nameable accepts publicUrl key := by
  obtain ⟨hne, hslash, hdropped⟩ := validatePath_eq_ok hvalid
  constructor
  · rintro ⟨base, dir, text, read, hbase, hdir, htext, hread, hback⟩
    rw [url_eq_ok hbase hvalid, Except.ok.injEq] at htext
    obtain ⟨hdirectory, hwritten⟩ := (WebUrl.readsBack_iff hdir hdropped hslash hne).mp
      ⟨read, by rw [htext, hread], hback⟩
    exact ⟨base, dir, hbase, hdir, hdirectory, hwritten⟩
  · rintro ⟨base, dir, hbase, hdir, hdirectory, hwritten⟩
    obtain ⟨read, hread, hback⟩ := (WebUrl.readsBack_iff hdir hdropped hslash hne).mpr
      ⟨hdirectory, hwritten⟩
    exact ⟨base, dir, _, read, hbase, hdir, url_eq_ok hbase hvalid, hread, hback⟩

/-- Of a URL that names a key, the key can be told. -/
theorem key_eq_of_read_eq {key other text text' : List Char} {read : WebUrl}
    (hkey : Names accepts publicUrl key) (hother : Names accepts publicUrl other)
    (htext : url publicUrl key = .ok text) (htext' : url publicUrl other = .ok text')
    (hread : WebUrl.read accepts text = some read)
    (hread' : WebUrl.read accepts text' = some read) : key = other := by
  obtain ⟨base, dir, first, _, hbase, hdir, hfirst, hreadFirst, hback⟩ := hkey
  obtain ⟨base', dir', second, _, hbase', hdir', hsecond, hreadSecond, hback'⟩ := hother
  obtain rfl := Except.ok.inj (hfirst.symm.trans htext)
  obtain rfl := Except.ok.inj (hsecond.symm.trans htext')
  obtain rfl := Option.some.inj (hreadFirst.symm.trans hread)
  obtain rfl := Option.some.inj (hreadSecond.symm.trans hread')
  obtain rfl := Option.some.inj (hbase.symm.trans hbase')
  obtain rfl := Option.some.inj (hdir.symm.trans hdir')
  obtain ⟨-, -, -, rest, hrest, hdecode⟩ := hback
  obtain ⟨-, -, -, rest', hrest', hdecode'⟩ := hback'
  obtain rfl := List.append_cancel_left (hrest.symm.trans hrest')
  exact WebUrl.utf8_injective (hdecode.symm.trans hdecode')

end Names

/--
For a key that `validate_path` accepts, the public URL names the object if and only if the base
is the URL of a directory and the key stands for itself: it has no `?`, no `#`, no `%` with two
digits behind it, no dot segment, no backslash if the scheme is special, and no space at its end.
Keys that are named do not share their URL.
-/
theorem url_names_iff (accepts : List Char → List Char → Bool) (publicUrl : Option (List Char))
    (key : List Char) (hvalid : validatePath key = .ok ()) :
    (Names accepts publicUrl key ↔ Nameable accepts publicUrl key) ∧
      ∀ other text text' read, Names accepts publicUrl key → Names accepts publicUrl other →
        url publicUrl key = .ok text → url publicUrl other = .ok text' →
        WebUrl.read accepts text = some read → WebUrl.read accepts text' = some read →
          key = other :=
  ⟨names_iff_nameable hvalid, fun _ _ _ _ => key_eq_of_read_eq⟩

/-! ## Two keys -/

/-- A host without anything that is not allowed there. -/
def plainAuthority (_ authority : List Char) : Bool :=
  authority.all fun c => c.isAlphanum || decide (c = '.' ∨ c = '-')

def cdn : Option (List Char) := some "https://cdn.example.com/files/".toList

def cdnDirectory : WebUrl where
  scheme := "https".toList
  authority := "cdn.example.com".toList
  path := "/files/".toList
  query := none
  fragment := none

/-- A space within a key does no harm. -/
theorem photo_named : Names plainAuthority cdn "summer 2024/photo.jpg".toList := by
  have hlast : "summer 2024/photo.jpg".toList.getLast? = some 'g' := by decide
  have hspace : ∀ c ∈ "summer 2024/photo.jpg".toList.getLast?, WebUrl.isSurrounding c = false := by
    intro c hc
    rw [hlast] at hc
    cases hc
    decide
  exact (url_names_iff plainAuthority cdn "summer 2024/photo.jpg".toList
    (by decide)).1.mpr
    ⟨"https://cdn.example.com/files".toList, cdnDirectory, by decide, by decide,
      ⟨by decide, rfl, rfl⟩,
      ⟨by decide, hspace, by decide, by decide, by decide⟩⟩

/-- A `#` in the key cuts it off: two keys have the same path. -/
theorem issue_cut_off :
    validatePath "issue#1/a.pdf".toList = .ok () ∧
      url cdn "issue#1/a.pdf".toList =
        .ok "https://cdn.example.com/files/issue#1/a.pdf".toList ∧
      WebUrl.read plainAuthority "https://cdn.example.com/files/issue#1/a.pdf".toList =
        some { cdnDirectory with
          path := "/files/issue".toList, fragment := some "1/a.pdf".toList } ∧
      ¬ Names plainAuthority cdn "issue#1/a.pdf".toList := by
  have hvalid : validatePath "issue#1/a.pdf".toList = .ok () := by decide
  refine ⟨hvalid, by decide, by decide, ?_⟩
  rw [names_iff_nameable hvalid]
  rintro ⟨base, dir, hbase, hdir, hdirectory, hwritten⟩
  exact absurd (hwritten.notEnd '#' (by decide)) (by decide)

end Modo.Storage
