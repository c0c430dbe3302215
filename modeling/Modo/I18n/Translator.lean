import Modo.I18n.AcceptLanguage
import Modo.I18n.Flatten
import Modo.I18n.Interpolate
import Modo.Lib.Utf8

/-!
# Translations

`TranslationStore::load` reads a directory for every locale, and `I18nLayer` picks the locale of a
request: the query parameter, the cookie, the session or the `Accept-Language` header names it, and
else it is the default one.  A key without an entry in the locale is looked up in the default
locale, and a key without an entry there stands for itself.

The file system lists a directory in any order, and so does a hash map.  `translator_text` says what
a translation is in terms of the files: where no key is written twice in a locale, the order does
not matter and every entry that is written is found.
-/

namespace Modo.I18n

open Http (Parts)

/-! ## Loading -/

/-- A file in the directory of a locale. -/
structure File where
  /-- `file_stem`. -/
  stem : List Char
  extension : Option (List Char)
  content : Yaml

structure LocaleDir where
  locale : List Char
  files : List File

def File.isTranslation (file : File) : Bool :=
  file.extension == some "yaml".toList || file.extension == some "yml".toList

/-- `load_locale_dir`. -/
def loadLocaleDir (files : List File) : Entries :=
  (files.filter File.isTranslation).foldl
    (fun entries file => flattenYaml file.stem file.content entries) ∅

/-- `PluralRules`: `select`. -/
abbrev PluralRules := ℕ → Option PluralCategory

/-- `TranslationStore`. -/
structure TranslationStore where
  translations : HashMap (List Char) Entries
  defaultLocale : List Char
  pluralRules : List Char → Option PluralRules
  fallbackPluralRules : PluralRules

namespace TranslationStore

/-- `load`; `rules` creates the rules of a locale whose name is a language tag. -/
def load (rules : List Char → Option PluralRules) (english : PluralRules)
    (tree : List LocaleDir) (defaultLocale : List Char) : TranslationStore where
  translations := AList.insertAll (tree.map fun dir => (dir.locale, loadLocaleDir dir.files)) ∅
  defaultLocale := defaultLocale
  pluralRules locale := if locale ∈ tree.map LocaleDir.locale then rules locale else none
  fallbackPluralRules := english

/-- `available_locales`. -/
def availableLocales (store : TranslationStore) : List (List Char) := store.translations.keys

/-- `lookup`. -/
def lookup (store : TranslationStore) (locale key : List Char) : Option Entry :=
  (store.translations.lookup locale).bind fun entries => entries.lookup key

end TranslationStore

/-- `entry_to_string`. -/
def Entry.toText : Entry → List Char
  | .plain s => s
  | .plural _ _ _ _ _ other => other

namespace TranslationStore

/-- `translate`. -/
def translate (store : TranslationStore) (locale key : List Char)
    (kwargs : List (String × String)) : String :=
  match store.lookup locale key with
  | some entry => interpolate kwargs (String.ofList entry.toText)
  | none =>
      if locale ≠ store.defaultLocale then
        match store.lookup store.defaultLocale key with
        | some entry => interpolate kwargs (String.ofList entry.toText)
        | none => String.ofList key
      else String.ofList key

/-- `plural_category`. -/
def pluralCategory (store : TranslationStore) (locale : List Char) (count : ℤ) : PluralCategory :=
  match store.pluralRules locale with
  | some rules => (rules count.natAbs).getD .other
  | none => (store.fallbackPluralRules count.natAbs).getD .other

/-- `translate_plural`. -/
def translatePlural (store : TranslationStore) (locale key : List Char) (count : ℤ)
    (kwargs : List (String × String)) : String :=
  let entry := (store.lookup locale key).or
    (if locale ≠ store.defaultLocale then store.lookup store.defaultLocale key else none)
  match entry with
  | none => String.ofList key
  | some entry =>
      let template := entry.template (store.pluralCategory locale count)
      interpolate (kwargs ++ [("count", toString count)]) (String.ofList template)

end TranslationStore

/-! ## The locale of a request -/

/-- `I18nConfig`. -/
structure I18nConfig where
  defaultLocale : List Char := "en".toList
  localeCookie : List Char := "lang".toList
  localeQueryParam : List Char := "lang".toList

/-- A request, with the locale that its session data have. -/
structure LocalizedRequest where
  parts : Parts
  sessionLocale : Option (List Char)

/-- The check of a list of available locales, where an empty one accepts everything. -/
def accepts (available : List (List Char)) (value : List Char) : Bool :=
  available.isEmpty || available.contains value

/-- `QueryParamResolver::resolve`. -/
def resolveQueryParam (paramName : List Char) (available : List (List Char)) (parts : Parts) :
    Option (List Char) :=
  parts.query.bind fun query => (query.splitOn '&').findSome? fun pair =>
    (Utf8.splitOnce '=' pair).bind fun field =>
      if field.1 = paramName ∧ accepts available field.2 = true then some field.2 else none

/-- `CookieResolver::resolve`. -/
def resolveCookie (cookieName : List Char) (available : List (List Char)) (parts : Parts) :
    Option (List Char) :=
  (parts.headers.getStr "cookie").bind fun header => (header.splitOn ';').findSome? fun cookie =>
    (Utf8.splitOnce '=' (Text.trim cookie)).bind fun field =>
      if Text.trim field.1 = cookieName then
        let value := Text.trim field.2
        if accepts available value = true then some value else none
      else none

/-- A resolver of the chain; without a result the sort of `AcceptLanguageResolver` panics. -/
abbrev LocaleResolver := LocalizedRequest → Option (Option (List Char))

/-- `default_chain`. -/
def defaultChain (sort : Sorting.StableSort byQuality) (config : I18nConfig)
    (available : List (List Char)) : List LocaleResolver :=
  [fun request => some (resolveQueryParam config.localeQueryParam available request.parts),
    fun request => some (resolveCookie config.localeCookie available request.parts),
    fun request => some request.sessionLocale,
    fun request => resolve sort available request.parts]

/-- `resolve_locale`. -/
def resolveLocale : List LocaleResolver → LocalizedRequest → Option (Option (List Char))
  | [], _ => some none
  | resolver :: rest, request =>
      (resolver request).bind fun found =>
        match found with
        | some locale => some (some locale)
        | none => resolveLocale rest request

/-- `Translator`. -/
structure Translator where
  locale : List Char
  store : TranslationStore

/-- `call` of the layer that `I18n::new` builds for a tree of directories. -/
def localize (sort : Sorting.StableSort byQuality) (rules : List Char → Option PluralRules)
    (english : PluralRules) (config : I18nConfig) (tree : List LocaleDir)
    (request : LocalizedRequest) : Option Translator :=
  let store := TranslationStore.load rules english tree config.defaultLocale
  (resolveLocale (defaultChain sort config store.availableLocales) request).map fun resolved =>
    ⟨resolved.getD config.defaultLocale, store⟩

/-- `t`. -/
def Translator.t (translator : Translator) (key : List Char) (kwargs : List (String × String)) :
    String :=
  translator.store.translate translator.locale key kwargs

/-- `t_plural`. -/
def Translator.tPlural (translator : Translator) (key : List Char) (count : ℤ)
    (kwargs : List (String × String)) : String :=
  translator.store.translatePlural translator.locale key count kwargs

/-! ## What the files write -/

/-- The entry that the walk makes of a value it does not go below. -/
def Yaml.entry : Yaml → Option Entry
  | .string s => some (.plain s)
  | .mapping map => if isPluralEntry map then some (pluralEntry map) else none
  | .other => none

mutual

/-- The entries that the walk inserts, in their order. -/
def written (path : List Char) : Yaml → List (List Char × Entry)
  | .mapping map =>
      if isPluralEntry map then [(path, pluralEntry map)] else writtenChildren path map
  | .string s => [(path, .plain s)]
  | .other => []

def writtenChildren (path : List Char) :
    List (Option (List Char) × Yaml) → List (List Char × Entry)
  | [] => []
  | (some key, value) :: rest => written (path ++ '.' :: key) value ++ writtenChildren path rest
  | (none, _) :: rest => writtenChildren path rest

end

mutual

theorem flattenYaml_eq (path : List Char) : ∀ (value : Yaml) (entries : Entries),
    flattenYaml path value entries = AList.insertAll (written path value) entries
  | .mapping map, entries => by
      rw [flattenYaml, written]
      split
      · rfl
      · exact flattenChildren_eq path map entries
  | .string s, entries => by rw [flattenYaml, written]; rfl
  | .other, entries => by rw [flattenYaml, written]; rfl

theorem flattenChildren_eq (path : List Char) :
    ∀ (map : List (Option (List Char) × Yaml)) (entries : Entries),
      flattenChildren path map entries = AList.insertAll (writtenChildren path map) entries
  | [], entries => by rw [flattenChildren, writtenChildren]; rfl
  | (some key, value) :: rest, entries => by
      rw [flattenChildren, writtenChildren, AList.insertAll_append,
        ← flattenYaml_eq (path ++ '.' :: key) value entries, flattenChildren_eq path rest]
  | (none, value) :: rest, entries => by
      rw [flattenChildren, writtenChildren, flattenChildren_eq path rest]

end

/-- What the files of a locale write. -/
def LocaleDir.written (dir : LocaleDir) : List (List Char × Entry) :=
  (dir.files.filter File.isTranslation).flatMap fun file => I18n.written file.stem file.content

theorem loadLocaleDir_eq (dir : LocaleDir) :
    loadLocaleDir dir.files = AList.insertAll dir.written ∅ := by
  unfold loadLocaleDir LocaleDir.written
  generalize (∅ : Entries) = entries
  induction dir.files.filter File.isTranslation generalizing entries with
  | nil => rfl
  | cons file rest ih =>
      rw [List.foldl_cons, List.flatMap_cons, AList.insertAll_append, ih, flattenYaml_eq]

mutual

/-- The walk writes the entry of every value that it reaches, under its path. -/
theorem mem_written_iff {path key : List Char} {entry : Entry} : ∀ value : Yaml,
    (key, entry) ∈ written path value ↔
      ∃ names sub, Reaches value names sub ∧ sub.entry = some entry ∧ key = dotted path names
  | .mapping map => by
      rw [written]
      cases hplural : isPluralEntry map with
      | true =>
          rw [if_pos rfl, List.mem_singleton, Prod.mk.injEq]
          constructor
          · rintro ⟨rfl, rfl⟩
            exact ⟨[], _, .here _, by rw [Yaml.entry, if_pos hplural], (List.append_nil key).symm⟩
          · rintro ⟨names, sub, hreaches, hentry, rfl⟩
            cases hreaches with
            | here =>
                rw [Yaml.entry, if_pos hplural, Option.some.injEq] at hentry
                exact ⟨List.append_nil path, hentry.symm⟩
            | child hnot => cases hplural.symm.trans hnot
      | false =>
          rw [if_neg Bool.false_ne_true, mem_writtenChildren_iff map]
          constructor
          · rintro ⟨name, child, names, sub, hmem, hreaches, hentry, rfl⟩
            exact ⟨name :: names, sub, .child hplural hmem hreaches, hentry, rfl⟩
          · rintro ⟨names, sub, hreaches, hentry, rfl⟩
            cases hreaches with
            | here => simp [Yaml.entry, hplural] at hentry
            | @child _ name child _ names _ hmem hreaches =>
                exact ⟨name, child, names, sub, hmem, hreaches, hentry, rfl⟩
  | .string s => by
      rw [written, List.mem_singleton, Prod.mk.injEq]
      constructor
      · rintro ⟨rfl, rfl⟩
        exact ⟨[], _, .here _, rfl, (List.append_nil key).symm⟩
      · rintro ⟨names, sub, hreaches, hentry, rfl⟩
        cases hreaches
        exact ⟨List.append_nil path, (Option.some.inj hentry).symm⟩
  | .other => by
      rw [written]
      constructor
      · intro hmem
        cases hmem
      · rintro ⟨names, sub, hreaches, hentry, rfl⟩
        cases hreaches
        cases hentry

theorem mem_writtenChildren_iff {path key : List Char} {entry : Entry} :
    ∀ map : List (Option (List Char) × Yaml),
      (key, entry) ∈ writtenChildren path map ↔
        ∃ name child names sub, (some name, child) ∈ map ∧ Reaches child names sub ∧
          sub.entry = some entry ∧ key = dotted path (name :: names)
  | [] => by simp [writtenChildren]
  | (some name, value) :: rest => by
      rw [writtenChildren, List.mem_append, mem_written_iff value, mem_writtenChildren_iff rest]
      constructor
      · rintro (⟨names, sub, hreaches, hentry, rfl⟩ |
          ⟨other, child, names, sub, hmem, hreaches, hentry, rfl⟩)
        · exact ⟨name, value, names, sub, List.mem_cons_self, hreaches, hentry,
            (dotted_cons path name names).symm⟩
        · exact ⟨other, child, names, sub, List.mem_cons_of_mem _ hmem, hreaches, hentry, rfl⟩
      · rintro ⟨other, child, names, sub, hmem, hreaches, hentry, rfl⟩
        rcases List.mem_cons.mp hmem with heq | hrest
        · cases heq
          exact .inl ⟨names, sub, hreaches, hentry, dotted_cons path name names⟩
        · exact .inr ⟨other, child, names, sub, hrest, hreaches, hentry, rfl⟩
  | (none, value) :: rest => by
      rw [writtenChildren, mem_writtenChildren_iff rest]
      simp

end

/-! ## What a translation says -/

/-- The files of the locale have this entry at the key. -/
def Has (tree : List LocaleDir) (locale key : List Char) (entry : Entry) : Prop :=
  ∃ dir ∈ tree, dir.locale = locale ∧ ∃ file ∈ dir.files, file.isTranslation = true ∧
    ∃ names sub, Reaches file.content names sub ∧ sub.entry = some entry ∧
      key = dotted file.stem names

/-- Another listing of the directories. -/
def SameFiles (tree listed : List LocaleDir) : Prop :=
  ∃ sorted, tree.Perm sorted ∧
    List.Forall₂ (fun dir other => dir.locale = other.locale ∧ dir.files.Perm other.files) sorted
      listed

/-- The locales are distinct, and the files of each write every key once. -/
structure Unambiguous (tree : List LocaleDir) : Prop where
  locales : (tree.map LocaleDir.locale).Nodup
  keys : ∀ dir ∈ tree, (dir.written.map Prod.fst).Nodup

theorem mem_dirWritten_iff {dir : LocaleDir} {key : List Char} {entry : Entry} :
    (key, entry) ∈ dir.written ↔ ∃ file ∈ dir.files, file.isTranslation = true ∧
      ∃ names sub, Reaches file.content names sub ∧ sub.entry = some entry ∧
        key = dotted file.stem names := by
  simp only [LocaleDir.written, List.mem_flatMap, List.mem_filter, mem_written_iff, and_assoc]

theorem exists_mem_iff_of_forall₂ {A B : Type*} {R : A → B → Prop} {P : A → Prop} {Q : B → Prop}
    (hsame : ∀ a b, R a b → (P a ↔ Q b)) {first : List A} {second : List B}
    (hall : List.Forall₂ R first second) : (∃ a ∈ first, P a) ↔ ∃ b ∈ second, Q b := by
  induction hall with
  | nil => simp
  | cons hhead _ ih => simp only [List.exists_mem_cons_iff, ih, hsame _ _ hhead]

theorem LocaleDir.written_perm {dir other : LocaleDir} (hfiles : dir.files.Perm other.files) :
    dir.written.Perm other.written :=
  (hfiles.filter File.isTranslation).flatMap_right _

theorem locales_sameFiles {tree listed : List LocaleDir} (hlisted : SameFiles tree listed) :
    (tree.map LocaleDir.locale).Perm (listed.map LocaleDir.locale) := by
  obtain ⟨sorted, hperm, hsame⟩ := hlisted
  have hlocales : sorted.map LocaleDir.locale = listed.map LocaleDir.locale := by
    induction hsame generalizing tree with
    | nil => rfl
    | cons hdir _ ih => rw [List.map_cons, List.map_cons, hdir.1, ih (List.Perm.refl _)]
  exact hlocales ▸ hperm.map LocaleDir.locale

theorem Unambiguous.listed {tree listed : List LocaleDir} (htree : Unambiguous tree)
    (hlisted : SameFiles tree listed) : Unambiguous listed := by
  refine ⟨(locales_sameFiles hlisted).nodup_iff.mp htree.locales, fun dir hdir => ?_⟩
  obtain ⟨sorted, hperm, hsame⟩ := hlisted
  by_contra hnot
  have hrepeats := exists_mem_iff_of_forall₂ (P := fun dir => ¬(dir.written.map Prod.fst).Nodup)
    (Q := fun dir => ¬(dir.written.map Prod.fst).Nodup)
    (fun _ _ hfiles => not_congr ((LocaleDir.written_perm hfiles.2).map Prod.fst).nodup_iff) hsame
  obtain ⟨other, hother, hrepeated⟩ := hrepeats.mpr ⟨dir, hdir, hnot⟩
  exact hrepeated (htree.keys other (hperm.mem_iff.mpr hother))

theorem has_sameFiles {tree listed : List LocaleDir} (hlisted : SameFiles tree listed)
    {locale key : List Char} {entry : Entry} :
    Has tree locale key entry ↔ Has listed locale key entry := by
  obtain ⟨sorted, hperm, hsame⟩ := hlisted
  have hsorted : Has tree locale key entry ↔ Has sorted locale key entry :=
    exists_congr fun dir => and_congr_left' hperm.mem_iff
  rw [hsorted]
  refine exists_mem_iff_of_forall₂ (fun dir other hdir => ?_) hsame
  rw [hdir.1]
  exact and_congr_right' (exists_congr fun file => and_congr_left' hdir.2.mem_iff)

/-- What is looked up is what the files have. -/
theorem lookup_load_iff {rules : List Char → Option PluralRules} {english : PluralRules}
    {tree : List LocaleDir} (htree : Unambiguous tree) {defaultLocale locale key : List Char}
    {entry : Entry} :
    (TranslationStore.load rules english tree defaultLocale).lookup locale key = some entry ↔
      Has tree locale key entry := by
  have hlocales : ((tree.map fun dir => (dir.locale, loadLocaleDir dir.files)).map
      Prod.fst).Nodup := by
    rw [List.map_map]
    exact htree.locales
  rw [TranslationStore.lookup, Option.bind_eq_some_iff]
  constructor
  · rintro ⟨entries, hentries, hentry⟩
    obtain ⟨dir, hdir, heq⟩ := List.mem_map.mp ((AList.lookup_insertAll hlocales).mp hentries)
    cases heq
    rw [loadLocaleDir_eq, AList.lookup_insertAll (htree.keys dir hdir)] at hentry
    exact ⟨dir, hdir, rfl, mem_dirWritten_iff.mp hentry⟩
  · rintro ⟨dir, hdir, rfl, hwritten⟩
    refine ⟨loadLocaleDir dir.files,
      (AList.lookup_insertAll hlocales).mpr (List.mem_map_of_mem hdir), ?_⟩
    rw [loadLocaleDir_eq, AList.lookup_insertAll (htree.keys dir hdir)]
    exact mem_dirWritten_iff.mpr hwritten

/-- The category of a count in a locale; without rules it is that of English. -/
def categoryOf (rules : List Char → Option PluralRules) (english : PluralRules)
    (tree : List LocaleDir) (locale : List Char) (count : ℤ) : PluralCategory :=
  let select := if locale ∈ tree.map LocaleDir.locale then (rules locale).getD english else english
  (select count.natAbs).getD .other

/-- Every translation of the key shows this entry. -/
def Shows (category : ℤ → PluralCategory) (translator : Translator) (key : List Char)
    (entry : Entry) : Prop :=
  (∀ kwargs, translator.t key kwargs = interpolate kwargs (String.ofList entry.toText)) ∧
    ∀ count kwargs, translator.tPlural key count kwargs =
      interpolate (kwargs ++ [("count", toString count)])
        (String.ofList (entry.template (category count)))

/-- The entry of the locale, or else of the default one. -/
def TranslationStore.chosen (store : TranslationStore) (locale key : List Char) : Option Entry :=
  (store.lookup locale key).or
    (if locale ≠ store.defaultLocale then store.lookup store.defaultLocale key else none)

theorem TranslationStore.translate_eq (store : TranslationStore) (locale key : List Char)
    (kwargs : List (String × String)) :
    store.translate locale key kwargs =
      match store.chosen locale key with
      | some entry => interpolate kwargs (String.ofList entry.toText)
      | none => String.ofList key := by
  unfold translate chosen
  cases store.lookup locale key with
  | some entry => rfl
  | none =>
      rw [Option.none_or]
      by_cases hdefault : locale = store.defaultLocale
      · simp [hdefault]
      · simp only [ne_eq, hdefault, not_false_eq_true, if_true]

section Chosen

variable {rules : List Char → Option PluralRules} {english : PluralRules}
  {tree listed : List LocaleDir} {defaultLocale locale key : List Char} {entry : Entry}

theorem pluralCategory_load (hlisted : SameFiles tree listed) (count : ℤ) :
    (TranslationStore.load rules english listed defaultLocale).pluralCategory locale count =
      categoryOf rules english tree locale count := by
  rw [TranslationStore.pluralCategory, categoryOf]
  simp only [TranslationStore.load, (locales_sameFiles hlisted).mem_iff]
  by_cases hlocale : locale ∈ listed.map LocaleDir.locale
  · simp only [hlocale, if_true]
    cases rules locale <;> rfl
  · simp only [hlocale, if_false]

theorem shows_of_chosen (hlisted : SameFiles tree listed)
    (hchosen : (TranslationStore.load rules english listed defaultLocale).chosen locale key =
      some entry) :
    Shows (categoryOf rules english tree locale)
      ⟨locale, TranslationStore.load rules english listed defaultLocale⟩ key entry := by
  constructor
  · intro kwargs
    rw [Translator.t, TranslationStore.translate_eq, hchosen]
  · intro count kwargs
    rw [← pluralCategory_load hlisted, Translator.tPlural, TranslationStore.translatePlural,
      ← TranslationStore.chosen, hchosen]

/-- What is chosen is what the files have, in either locale. -/
theorem chosen_load (rules : List Char → Option PluralRules) (english : PluralRules)
    (htree : Unambiguous tree) (hlisted : SameFiles tree listed) :
    (∀ entry, Has tree locale key entry →
      (TranslationStore.load rules english listed defaultLocale).chosen locale key = some entry) ∧
    ((∀ own, ¬Has tree locale key own) →
      (∀ entry, Has tree defaultLocale key entry →
        (TranslationStore.load rules english listed defaultLocale).chosen locale key =
          some entry) ∧
      ((∀ entry, ¬Has tree defaultLocale key entry) →
        (TranslationStore.load rules english listed defaultLocale).chosen locale key = none)) := by
  have hlookup : ∀ {name : List Char} {entry : Entry},
      (TranslationStore.load rules english listed defaultLocale).lookup name key = some entry ↔
        Has tree name key entry := by
    intro name entry
    rw [lookup_load_iff (htree.listed hlisted), has_sameFiles hlisted]
  have hnone : ∀ {name : List Char}, (∀ entry, ¬Has tree name key entry) →
      (TranslationStore.load rules english listed defaultLocale).lookup name key = none :=
    fun habsent => Option.eq_none_iff_forall_ne_some.mpr fun entry hentry =>
      habsent entry (hlookup.mp hentry)
  refine ⟨fun entry hhas => ?_, fun hown => ⟨fun entry hhas => ?_, fun habsent => ?_⟩⟩
  · rw [TranslationStore.chosen, hlookup.mpr hhas, Option.some_or]
  · have hother : locale ≠ defaultLocale := fun hsame => hown entry (hsame ▸ hhas)
    rw [TranslationStore.chosen, hnone hown, Option.none_or]
    exact (if_pos hother).trans (hlookup.mpr hhas)
  · rw [TranslationStore.chosen, hnone hown, Option.none_or]
    split
    · exact hnone habsent
    · rfl

end Chosen

/-! ## The locale -/

section Locale

variable {sort : Sorting.StableSort byQuality} {config : I18nConfig}
  {available other : List (List Char)} {request : LocalizedRequest} {locale : List Char}

theorem accepts_congr (hsame : available.Perm other) (value : List Char) :
    accepts available value = accepts other value := by
  have hcontains : available.contains value = other.contains value := by
    rw [Bool.eq_iff_iff, List.contains_iff_mem, List.contains_iff_mem]
    exact hsame.mem_iff
  rw [accepts, accepts, hsame.isEmpty_eq, hcontains]

/-- The order of the available locales does not matter. -/
theorem resolveLocale_congr (hsame : available.Perm other) :
    resolveLocale (defaultChain sort config available) request =
      resolveLocale (defaultChain sort config other) request := by
  have hresolve : resolve sort available request.parts = resolve sort other request.parts := by
    have havailable : isAvailable available = isAvailable other := by
      funext range
      rw [isAvailable, isAvailable, Bool.eq_iff_iff, List.contains_iff_mem, List.contains_iff_mem]
      exact hsame.mem_iff
    rw [resolve_eq, resolve_eq, havailable]
  simp only [defaultChain, resolveQueryParam, resolveCookie, accepts_congr hsame,
    resolveLocale, hresolve]

theorem accepts_iff {value : List Char} :
    accepts available value = true ↔ available = [] ∨ value ∈ available := by
  rw [accepts, Bool.or_eq_true, List.isEmpty_iff, List.contains_iff_mem]

theorem resolve_available {parts : Parts}
    (hresolve : resolve sort available parts = some (some locale)) : locale ∈ available := by
  rw [resolve_eq] at hresolve
  cases hheader : parts.headers.getStr "accept-language" with
  | none => simp [hheader] at hresolve
  | some header =>
      simp only [hheader] at hresolve
      obtain ⟨langs, -, hlangs⟩ := Option.map_eq_some_iff.mp hresolve
      obtain ⟨range, hrange, rfl⟩ := Option.map_eq_some_iff.mp hlangs
      have havailable : isAvailable available range = true := List.find?_some hrange
      exact List.contains_iff_mem.mp havailable

/-- What a request may be given as its locale. -/
theorem resolveLocale_mem
    (hresolve : resolveLocale (defaultChain sort config available) request = some (some locale)) :
    available = [] ∨ locale ∈ available ∨ request.sessionLocale = some locale := by
  have hfield : ∀ {value found : List Char}, accepts available value = true → value = found →
      available = [] ∨ found ∈ available ∨ request.sessionLocale = some found := by
    rintro value found haccepts rfl
    exact (accepts_iff.mp haccepts).imp_right Or.inl
  simp only [defaultChain, resolveLocale, Option.bind_some] at hresolve
  cases hquery : resolveQueryParam config.localeQueryParam available request.parts with
  | some found =>
      simp only [hquery, Option.some.injEq] at hresolve
      subst hresolve
      obtain ⟨query, -, hpairs⟩ := Option.bind_eq_some_iff.mp hquery
      obtain ⟨pair, -, hpair⟩ := List.exists_of_findSome?_eq_some hpairs
      obtain ⟨field, -, hvalue⟩ := Option.bind_eq_some_iff.mp hpair
      rw [Option.ite_none_right_eq_some, Option.some.injEq] at hvalue
      exact hfield hvalue.1.2 hvalue.2
  | none =>
      simp only [hquery] at hresolve
      cases hcookie : resolveCookie config.localeCookie available request.parts with
      | some found =>
          simp only [hcookie, Option.some.injEq] at hresolve
          subst hresolve
          obtain ⟨header, -, hcookies⟩ := Option.bind_eq_some_iff.mp hcookie
          obtain ⟨cookie, -, hfound⟩ := List.exists_of_findSome?_eq_some hcookies
          obtain ⟨field, -, hvalue⟩ := Option.bind_eq_some_iff.mp hfound
          rw [Option.ite_none_right_eq_some] at hvalue
          obtain ⟨-, hvalue⟩ := hvalue
          rw [Option.ite_none_right_eq_some, Option.some.injEq] at hvalue
          exact hfield hvalue.1 hvalue.2
      | none =>
          simp only [hcookie] at hresolve
          cases hsession : request.sessionLocale with
          | some found =>
              simp only [hsession, Option.some.injEq] at hresolve
              exact .inr (.inr (congrArg some hresolve))
          | none =>
              simp only [hsession] at hresolve
              right
              left
              cases hlanguage : resolve sort available request.parts with
              | none => simp [hlanguage] at hresolve
              | some found =>
                  cases found with
                  | none => simp [hlanguage] at hresolve
                  | some found =>
                      simp only [hlanguage, Option.bind_some, Option.some.injEq] at hresolve
                      exact hresolve ▸ resolve_available hlanguage

end Locale

theorem availableLocales_perm (rules : List Char → Option PluralRules) (english : PluralRules)
    {tree : List LocaleDir} (htree : Unambiguous tree) (defaultLocale : List Char) :
    (TranslationStore.load rules english tree defaultLocale).availableLocales.Perm
      (tree.map LocaleDir.locale) := by
  have hlocales : ((tree.map fun dir => (dir.locale, loadLocaleDir dir.files)).map
      Prod.fst).Nodup := by
    rw [List.map_map]
    exact htree.locales
  refine (List.perm_ext_iff_of_nodup (AList.keys_nodup _) htree.locales).mpr fun locale => ?_
  rw [← AList.mem_keys, ← AList.lookup_isSome, Option.isSome_iff_exists]
  simp only [TranslationStore.load, AList.lookup_insertAll hlocales, List.mem_map, Prod.mk.injEq]
  constructor
  · rintro ⟨entries, dir, hdir, hlocale, -⟩
    exact ⟨dir, hdir, hlocale⟩
  · rintro ⟨dir, hdir, hlocale⟩
    exact ⟨_, dir, hdir, hlocale, rfl⟩

/-- **Translations**: however the directories are listed, a request has the same locale, which is an
available one unless it is the default one or in the session; and every key shows the entry that
the files of the locale have for it, else the one of the default locale, else itself. -/
theorem translator_text (sort : Sorting.StableSort byQuality)
    (rules : List Char → Option PluralRules) (english : PluralRules) (config : I18nConfig)
    (tree : List LocaleDir) (htree : Unambiguous tree) (listed : List LocaleDir)
    (hlisted : SameFiles tree listed) (request : LocalizedRequest) (translator : Translator)
    (hlocalize : localize sort rules english config listed request = some translator) :
    (localize sort rules english config tree request).map Translator.locale =
        some translator.locale ∧
      (tree = [] ∨ translator.locale ∈ tree.map LocaleDir.locale ∨
        translator.locale = config.defaultLocale ∨
          request.sessionLocale = some translator.locale) ∧
      ∀ key,
        (∀ entry, Has tree translator.locale key entry →
          Shows (categoryOf rules english tree translator.locale) translator key entry) ∧
        ((∀ own, ¬Has tree translator.locale key own) →
          (∀ entry, Has tree config.defaultLocale key entry →
            Shows (categoryOf rules english tree translator.locale) translator key entry) ∧
          ((∀ entry, ¬Has tree config.defaultLocale key entry) →
            (∀ kwargs, translator.t key kwargs = String.ofList key) ∧
              ∀ count kwargs, translator.tPlural key count kwargs = String.ofList key)) := by
  rw [localize, Option.map_eq_some_iff] at hlocalize
  obtain ⟨resolved, hresolve, rfl⟩ := hlocalize
  have hlocales := locales_sameFiles hlisted
  have havailable := availableLocales_perm rules english (htree.listed hlisted)
    config.defaultLocale
  refine ⟨?_, ?_, fun key => ?_⟩
  · have hsame := (availableLocales_perm rules english htree config.defaultLocale).trans
      (hlocales.trans havailable.symm)
    rw [localize, resolveLocale_congr hsame, hresolve]
    rfl
  · cases resolved with
    | none => exact .inr (.inr (.inl rfl))
    | some locale =>
        rcases resolveLocale_mem hresolve with hnil | hmem | hsession
        · have hempty : tree.map LocaleDir.locale = [] :=
            List.perm_nil.mp (hlocales.trans (havailable.symm.trans (hnil ▸ List.Perm.refl _)))
          exact .inl (List.map_eq_nil_iff.mp hempty)
        · exact .inr (.inl (hlocales.mem_iff.mpr (havailable.mem_iff.mp hmem)))
        · exact .inr (.inr (.inr hsession))
  · obtain ⟨hown, hfallback⟩ := chosen_load rules english htree hlisted
    refine ⟨fun entry hhas => shows_of_chosen hlisted (hown entry hhas), fun habsent => ?_⟩
    obtain ⟨hdefault, hmissing⟩ := hfallback habsent
    refine ⟨fun entry hhas => shows_of_chosen hlisted (hdefault entry hhas), fun hnone => ?_⟩
    constructor
    · intro kwargs
      rw [Translator.t, TranslationStore.translate_eq, hmissing hnone]
    · intro count kwargs
      rw [Translator.tPlural, TranslationStore.translatePlural, ← TranslationStore.chosen,
        hmissing hnone]

/-- A file of texts in one namespace. -/
def textFile (stem : String) (texts : List (String × String)) : File where
  stem := stem.toList
  extension := some "yaml".toList
  content := .mapping (texts.map fun text => (some text.1.toList, .string text.2.toList))

/-- Two locales, the second of which has one text less. -/
def twoLocales : List LocaleDir :=
  [⟨"en".toList, [textFile "common" [("greeting", "Hello, {name}"), ("bye", "Bye")],
      textFile "errors" [("missing", "Not found")]]⟩,
    ⟨"de".toList, [textFile "errors" [("missing", "Nicht gefunden")],
      textFile "common" [("greeting", "Hallo, {name}")]]⟩]

/-- The other way round. -/
def twoLocalesListed : List LocaleDir :=
  [⟨"de".toList, [textFile "common" [("greeting", "Hallo, {name}")],
      textFile "errors" [("missing", "Nicht gefunden")]]⟩,
    ⟨"en".toList, [textFile "errors" [("missing", "Not found")],
      textFile "common" [("greeting", "Hello, {name}"), ("bye", "Bye")]]⟩]

/-- `one` for one, else `other`. -/
def oneOther : PluralRules := fun n => some (if n = 1 then .one else .other)

/-- A request that asks for German. -/
def askGerman : LocalizedRequest := ⟨⟨[], some "page=2&lang=de".toList⟩, none⟩

theorem twoLocales_listed : SameFiles twoLocales twoLocalesListed :=
  ⟨twoLocales.reverse, (List.reverse_perm _).symm,
    .cons ⟨rfl, List.Perm.swap ..⟩ (.cons ⟨rfl, List.Perm.swap ..⟩ .nil)⟩

theorem has_german : Has twoLocales "de".toList "common.greeting".toList
    (.plain "Hallo, {name}".toList) :=
  ⟨_, List.mem_cons_of_mem _ List.mem_cons_self, rfl,
    textFile "common" [("greeting", "Hallo, \x7bname\x7d")],
    List.mem_cons_of_mem _ List.mem_cons_self, by decide, ["greeting".toList],
    .string "Hallo, \x7bname\x7d".toList,
    .child (by decide) (show (some "greeting".toList, _) ∈ [_] from List.mem_cons_self) (.here _),
    rfl, by decide +kernel⟩

/-- The greeting is a German one. -/
theorem translator_text_german :
    ∃ translator, localize (.merge byQuality) (fun _ => some oneOther) oneOther {} twoLocalesListed
        askGerman = some translator ∧
      translator.t "common.greeting".toList [("name", "Anna")] =
        interpolate [("name", "Anna")] "Hallo, {name}" := by
  have hany : (localize (.merge byQuality) (fun _ => some oneOther) oneOther {} twoLocalesListed
      askGerman).any (fun translator => translator.locale == "de".toList) = true := by
    decide +kernel
  obtain ⟨translator, hlocalize, hlocale⟩ := (Option.any_eq_true _ _).mp hany
  have hunambiguous : Unambiguous twoLocales := by
    refine ⟨by decide +kernel, ?_⟩
    simp only [twoLocales, List.forall_mem_cons]
    refine ⟨by decide +kernel, by decide +kernel, by simp⟩
  obtain ⟨-, -, hkeys⟩ := translator_text (.merge byQuality) (fun _ => some oneOther) oneOther {}
    twoLocales hunambiguous twoLocalesListed twoLocales_listed askGerman translator hlocalize
  refine ⟨translator, hlocalize, ?_⟩
  have hshows := (hkeys "common.greeting".toList).1 (.plain "Hallo, {name}".toList)
  rw [beq_iff_eq.mp hlocale] at hshows
  exact (hshows has_german).1 [("name", "Anna")]

end Modo.I18n
