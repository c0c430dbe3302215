import Modo.Lib.HashMap
import Modo.Lib.Text

/-!
# Translation files

A translation file is a YAML mapping whose leaves are texts.  `flatten_yaml` walks it and inserts an
entry for every text under its dotted path.  A mapping whose keys are all names of plural forms,
`other` among them, becomes one entry with these forms, and the walk does not go below it.

So a mapping below a plural form is dropped.  `keepsLeaves_iff` says that nothing else is.
-/

namespace Modo.I18n

/-! ## The walk -/

/-- `serde_yaml_ng::Value`; a key that is no string is `none`. -/
inductive Yaml where
  | string (s : List Char)
  | mapping (map : List (Option (List Char) × Yaml))
  /-- Numbers, sequences and so on. -/
  | other

def Yaml.asStr : Yaml → Option (List Char)
  | .string s => some s
  | _ => none

inductive Entry where
  | plain (s : List Char)
  | plural (zero one two few many : Option (List Char)) (other : List Char)

abbrev Entries := HashMap (List Char) Entry

def pluralKeys : List (List Char) :=
  ["zero".toList, "one".toList, "two".toList, "few".toList, "many".toList, "other".toList]

def isPluralEntry (map : List (Option (List Char) × Yaml)) : Bool :=
  map.any (fun child => child.1 == some "other".toList) &&
    map.all fun child => child.1.any fun key => pluralKeys.contains key

/-- `Mapping::get`. -/
def getValue (map : List (Option (List Char) × Yaml)) (key : List Char) : Option Yaml :=
  map.lookup (some key)

def getStr (map : List (Option (List Char) × Yaml)) (key : List Char) : Option (List Char) :=
  (getValue map key).bind Yaml.asStr

/-- The entry of a mapping that is one. -/
def pluralEntry (map : List (Option (List Char) × Yaml)) : Entry :=
  .plural (getStr map "zero".toList) (getStr map "one".toList) (getStr map "two".toList)
    (getStr map "few".toList) (getStr map "many".toList) ((getStr map "other".toList).getD [])

mutual

def flattenYaml (path : List Char) : Yaml → Entries → Entries
  | .mapping map, entries =>
      if isPluralEntry map then entries.insert path (pluralEntry map)
      else flattenChildren path map entries
  | .string s, entries => entries.insert path (.plain s)
  | .other, entries => entries

/-- The loop over a mapping. -/
def flattenChildren (path : List Char) : List (Option (List Char) × Yaml) → Entries → Entries
  | [], entries => entries
  | (some key, value) :: rest, entries =>
      flattenChildren path rest (flattenYaml (path ++ '.' :: key) value entries)
  | (none, _) :: rest, entries => flattenChildren path rest entries

end

/-! ## Leaves and where they are found -/

/-- A mapping of texts with dot-free keys. -/
inductive Yaml.WellFormed : Yaml → Prop where
  | string (s : List Char) : WellFormed (.string s)
  | mapping {map : List (Option (List Char) × Yaml)}
      (hkeys : ∀ child ∈ map, ∃ key, child.1 = some key ∧ '.' ∉ key)
      (hnodup : (map.map Prod.fst).Nodup) (hchildren : ∀ child ∈ map, WellFormed child.2) :
      WellFormed (.mapping map)

/-- The text at the end of a path of keys. -/
inductive Leaf : Yaml → List (List Char) → List Char → Prop where
  | string (s : List Char) : Leaf (.string s) [] s
  | mapping {map : List (Option (List Char) × Yaml)} {key : List Char} {child : Yaml}
      {path : List (List Char)} {s : List Char} (hmem : (some key, child) ∈ map)
      (hleaf : Leaf child path s) : Leaf (.mapping map) (key :: path) s

/-- The path with dots. -/
def dotted (start : List Char) (path : List (List Char)) : List Char :=
  start ++ path.flatMap ('.' :: ·)

/-- The text of a form. -/
def Entry.form : Entry → List Char → Option (List Char)
  | .plain _, _ => none
  | .plural zero one two few many other, name =>
      if name = "zero".toList then zero
      else if name = "one".toList then one
      else if name = "two".toList then two
      else if name = "few".toList then few
      else if name = "many".toList then many
      else if name = "other".toList then some other
      else none

/-- The categories of `intl_pluralrules`. -/
inductive PluralCategory where
  | zero | one | two | few | many | other
  deriving DecidableEq

/-- The template that `translate_plural` takes. -/
def Entry.template : Entry → PluralCategory → List Char
  | .plain s, _ => s
  | .plural zero one two few many other, category =>
      match category with
      | .zero => zero.getD other
      | .one => one.getD other
      | .two => two.getD other
      | .few => few.getD other
      | .many => many.getD other
      | .other => other

/-- The name of a category in a file. -/
def PluralCategory.key : PluralCategory → List Char
  | .zero => "zero".toList
  | .one => "one".toList
  | .two => "two".toList
  | .few => "few".toList
  | .many => "many".toList
  | .other => "other".toList

/-- The leaf at `path` has its text in the entry of its own path, or in a form of the entry of its
parent's. -/
def FoundAt (entries : Entries) (start : List Char) (path : List (List Char)) (s : List Char) :
    List Char × Option (List Char) → Prop
  | (key, none) => key = dotted start path ∧ entries.lookup key = some (.plain s)
  | (key, some form) => ∃ parent entry, path = parent ++ [form] ∧ key = dotted start parent ∧
      entries.lookup key = some entry ∧ entry.form form = some s

/-! ## Dotted paths -/

/-- The key is the path, or goes on behind it with a dot. -/
def Under (start key : List Char) : Prop := key = start ∨ ∃ rest, key = start ++ '.' :: rest

theorem dotted_cons (start key : List Char) (path : List (List Char)) :
    dotted start (key :: path) = dotted (start ++ '.' :: key) path := by
  simp [dotted]

theorem under_dotted (start : List Char) (path : List (List Char)) :
    Under start (dotted start path) := by
  cases path with
  | nil => exact Or.inl (List.append_nil start)
  | cons key path => exact Or.inr ⟨key ++ path.flatMap ('.' :: ·), rfl⟩

theorem Under.parent {start name key : List Char} (hunder : Under (start ++ '.' :: name) key) :
    Under start key ∧ key ≠ start := by
  have hne : ∀ rest : List Char, start ++ '.' :: rest ≠ start := by
    intro rest heq
    simp at heq
  rcases hunder with rfl | ⟨rest, rfl⟩
  · exact ⟨Or.inr ⟨name, rfl⟩, hne name⟩
  · rw [List.append_assoc, List.cons_append]
    exact ⟨Or.inr ⟨_, rfl⟩, hne _⟩

theorem Under.trans {start middle key : List Char} (hmiddle : Under start middle)
    (hunder : Under middle key) : Under start key := by
  rcases hmiddle with rfl | ⟨name, rfl⟩
  · exact hunder
  · exact hunder.parent.1

/-- Behind a name without dots there is nothing, or a dot. -/
theorem takeWhile_name {name rest : List Char} (hname : '.' ∉ name)
    (hrest : ∀ c ∈ rest.head?, c = '.') :
    (name ++ rest).takeWhile (· ≠ '.') = name := by
  have hall : ∀ c ∈ name, decide (c ≠ '.') = true := fun c hc =>
    decide_eq_true fun heq => hname (heq ▸ hc)
  rw [List.takeWhile_append_of_pos hall]
  cases rest with
  | nil => simp
  | cons c rest => simp [hrest c rfl]

/-- A key lies under one child only. -/
theorem Under.unique {start name other key : List Char} (hname : '.' ∉ name) (hother : '.' ∉ other)
    (hunder : Under (start ++ '.' :: name) key) (hunder' : Under (start ++ '.' :: other) key) :
    name = other := by
  have htail : ∀ {label : List Char}, '.' ∉ label → Under (start ++ '.' :: label) key →
      ((key.drop start.length).drop 1).takeWhile (· ≠ '.') = label := by
    intro label hlabel h
    rcases h with rfl | ⟨rest, rfl⟩
    · rw [List.drop_left, List.drop_one, List.tail_cons]
      have htake := takeWhile_name hlabel (show ∀ c ∈ ([] : List Char).head?, c = '.' by simp)
      rwa [List.append_nil] at htake
    · rw [List.append_assoc, List.drop_left, List.drop_one, List.cons_append, List.tail_cons]
      exact takeWhile_name hlabel (by simp)
  rw [← htail hname hunder, htail hother hunder']

/-- Paths of dot-free names are read back from their text. -/
theorem dotted_injective {start : List Char} {path other : List (List Char)}
    (hpath : ∀ name ∈ path, '.' ∉ name) (hother : ∀ name ∈ other, '.' ∉ name)
    (heq : dotted start path = dotted start other) : path = other := by
  induction path generalizing start other with
  | nil =>
      cases other with
      | nil => rfl
      | cons name other => simp [dotted] at heq
  | cons name path ih =>
      cases other with
      | nil => simp [dotted] at heq
      | cons second other =>
          rw [List.forall_mem_cons] at hpath hother
          rw [dotted_cons, dotted_cons] at heq
          have hsame : name = second :=
            Under.unique hpath.1 hother.1 (under_dotted _ path) (heq ▸ under_dotted _ other)
          subst hsame
          rw [ih hpath.2 hother.2 heq]

/-! ## The frame of the walk -/

mutual

/-- The walk inserts under its path only. -/
theorem lookup_flattenYaml {path key : List Char} (hkey : ¬ Under path key) :
    ∀ (value : Yaml) (entries : Entries),
      (flattenYaml path value entries).lookup key = entries.lookup key
  | .string s, entries => by
      rw [flattenYaml, AList.lookup_insert_ne fun h => hkey (Or.inl h)]
  | .other, entries => by rw [flattenYaml]
  | .mapping map, entries => by
      rw [flattenYaml]
      split
      · rw [AList.lookup_insert_ne fun h => hkey (Or.inl h)]
      · exact lookup_flattenChildren map entries fun child _ name _ hunder =>
          hkey hunder.parent.1

theorem lookup_flattenChildren {path key : List Char} :
    ∀ (map : List (Option (List Char) × Yaml)) (entries : Entries),
      (∀ child ∈ map, ∀ name, child.1 = some name → ¬ Under (path ++ '.' :: name) key) →
      (flattenChildren path map entries).lookup key = entries.lookup key
  | [], entries, _ => by rw [flattenChildren]
  | (some name, value) :: rest, entries, hkeys => by
      rw [List.forall_mem_cons] at hkeys
      rw [flattenChildren, lookup_flattenChildren rest _ hkeys.2,
        lookup_flattenYaml (hkeys.1 name rfl) value]
  | (none, value) :: rest, entries, hkeys => by
      rw [List.forall_mem_cons] at hkeys
      rw [flattenChildren, lookup_flattenChildren rest _ hkeys.2]

end

/-- Under a child, the loop does what the walk does there. -/
theorem exists_flattenChildren (path : List Char) {name : List Char} {child : Yaml} :
    ∀ (map : List (Option (List Char) × Yaml)) (entries : Entries),
      (∀ child ∈ map, ∃ key, child.1 = some key ∧ '.' ∉ key) → (map.map Prod.fst).Nodup →
      (some name, child) ∈ map →
      ∃ before : Entries, ∀ key, Under (path ++ '.' :: name) key →
        before.lookup key = entries.lookup key ∧
        (flattenChildren path map entries).lookup key =
          (flattenYaml (path ++ '.' :: name) child before).lookup key := by
  intro map
  induction map with
  | nil => simp
  | cons first rest ih =>
      intro entries hkeys hnodup hmem
      rw [List.forall_mem_cons] at hkeys
      obtain ⟨⟨other, hother, hdot⟩, hrest⟩ := hkeys
      obtain ⟨_, value⟩ := first
      subst hother
      rw [List.map_cons, List.nodup_cons] at hnodup
      -- the other children have other names
      have hdistinct : ∀ second ∈ rest, ∀ next, second.1 = some next → next ≠ other := by
        rintro second hsecond next hnext rfl
        have hfst : second.1 ∈ rest.map Prod.fst := List.mem_map_of_mem hsecond
        exact hnodup.1 (hnext ▸ hfst)
      rcases List.mem_cons.mp hmem with heq | hmem
      · obtain ⟨rfl, rfl⟩ : name = other ∧ child = value := by simpa using heq
        refine ⟨entries, fun key hunder => ⟨rfl, ?_⟩⟩
        rw [flattenChildren, lookup_flattenChildren]
        intro second hsecond next hnext hnextUnder
        obtain ⟨found, hfound, hfree⟩ := hrest second hsecond
        obtain rfl : next = found := Option.some.inj (hnext.symm.trans hfound)
        exact hdistinct second hsecond next hnext (Under.unique hfree hdot hnextUnder hunder)
      · obtain ⟨before, hbefore⟩ := ih (flattenYaml (path ++ '.' :: other) value entries) hrest
          hnodup.2 hmem
        have hname : '.' ∉ name := by
          obtain ⟨found, hfound, hfree⟩ := hrest _ hmem
          rwa [← Option.some.inj hfound] at hfree
        refine ⟨before, fun key hunder => ?_⟩
        obtain ⟨hsame, hflatten⟩ := hbefore key hunder
        refine ⟨?_, by rw [flattenChildren, hflatten]⟩
        rw [hsame, lookup_flattenYaml]
        intro hotherUnder
        exact hdistinct _ hmem name rfl (Under.unique hname hdot hunder hotherUnder)

/-! ## What is kept -/

/-- Where the walk goes: not below a mapping that is a plural entry. -/
inductive Reaches : Yaml → List (List Char) → Yaml → Prop where
  | here (value : Yaml) : Reaches value [] value
  | child {map : List (Option (List Char) × Yaml)} {key : List Char} {child value : Yaml}
      {path : List (List Char)} (hplural : isPluralEntry map = false)
      (hmem : (some key, child) ∈ map) (hreaches : Reaches child path value) :
      Reaches (.mapping map) (key :: path) value

/-- In the plural entries of the walk, what is no text has no leaves. -/
def FormsAreTexts (value : Yaml) : Prop :=
  ∀ path map, Reaches value path (.mapping map) → isPluralEntry map = true →
    ∀ child ∈ map, (∃ s, child.2 = .string s) ∨ ¬ ∃ below s, Leaf child.2 below s

/-- Every leaf is found, whatever was there before. -/
def KeepsLeaves (start : List Char) (value : Yaml) : Prop :=
  ∀ entries path s, Leaf value path s →
    ∃ place, FoundAt (flattenYaml start value entries) start path s place

theorem lookup_of_mem {map : List (Option (List Char) × Yaml)} (hnodup : (map.map Prod.fst).Nodup)
    {key : Option (List Char)} {child : Yaml} (hmem : (key, child) ∈ map) :
    map.lookup key = some child := by
  induction map with
  | nil => cases hmem
  | cons first rest ih =>
      obtain ⟨other, value⟩ := first
      rw [List.map_cons, List.nodup_cons] at hnodup
      rcases List.mem_cons.mp hmem with heq | hrest
      · cases heq
        simp
      · have hfst : key ∈ rest.map Prod.fst := List.mem_map.mpr ⟨_, hrest, rfl⟩
        have hne : key ≠ other := fun heq => hnodup.1 (heq ▸ hfst)
        rw [List.lookup_cons, beq_false_of_ne hne]
        exact ih hnodup.2 hrest

/-- A text in a plural entry is one of its forms. -/
theorem form_pluralEntry {map : List (Option (List Char) × Yaml)}
    (hplural : isPluralEntry map = true) (hnodup : (map.map Prod.fst).Nodup) {key s : List Char}
    (hmem : (some key, .string s) ∈ map) : (pluralEntry map).form key = some s := by
  have hget : getStr map key = some s := by
    rw [getStr, getValue, lookup_of_mem hnodup hmem]
    rfl
  rw [isPluralEntry, Bool.and_eq_true] at hplural
  have hkey : key ∈ pluralKeys := by
    have h := List.all_eq_true.mp hplural.2 _ hmem
    simpa using h
  simp only [pluralKeys, List.mem_cons, List.not_mem_nil, or_false] at hkey
  rcases hkey with rfl | rfl | rfl | rfl | rfl | rfl
  all_goals
    simp only [String.reduceToList] at hget
    simp [pluralEntry, Entry.form, hget]

/-- A leaf under a child is found where it is found from the child. -/
theorem FoundAt.child {entries before : Entries} {start key : List Char}
    {path : List (List Char)} {s : List Char} {place : List Char × Option (List Char)}
    (hfound : FoundAt before (start ++ '.' :: key) path s place)
    (hsame : ∀ other, Under (start ++ '.' :: key) other →
      entries.lookup other = before.lookup other) :
    FoundAt entries start (key :: path) s place := by
  obtain ⟨other, form⟩ := place
  cases form with
  | none =>
      obtain ⟨rfl, hlookup⟩ := hfound
      exact ⟨(dotted_cons start key path).symm, by rw [hsame _ (under_dotted _ _), hlookup]⟩
  | some form =>
      obtain ⟨parent, entry, rfl, rfl, hlookup, hform⟩ := hfound
      exact ⟨key :: parent, entry, rfl, (dotted_cons start key parent).symm,
        by rw [hsame _ (under_dotted _ _), hlookup], hform⟩

/-- Every leaf is found, where what is no text has no leaves in the plural entries. -/
theorem found_of_leaf {value : Yaml} {path : List (List Char)} {s : List Char}
    (hleaf : Leaf value path s) (hwell : value.WellFormed) (hforms : FormsAreTexts value)
    (start : List Char) (entries : Entries) :
    ∃ place, FoundAt (flattenYaml start value entries) start path s place := by
  induction hleaf generalizing start entries with
  | string s =>
      refine ⟨(start, none), (List.append_nil start).symm, ?_⟩
      rw [flattenYaml, AList.lookup_insert]
  | @mapping map key child path s hmem hleaf ih =>
      cases hwell with
      | mapping hkeys hnodup hchildren =>
          cases hplural : isPluralEntry map with
          | true =>
              rcases hforms [] map (.here _) hplural _ hmem with ⟨other, rfl⟩ | hnone
              · cases hleaf
                refine ⟨(start, some key), [], pluralEntry map, rfl, (List.append_nil start).symm,
                  ?_, form_pluralEntry hplural hnodup hmem⟩
                rw [flattenYaml, if_pos hplural, AList.lookup_insert]
              · exact absurd ⟨path, s, hleaf⟩ hnone
          | false =>
              obtain ⟨before, hbefore⟩ :=
                exists_flattenChildren start map entries hkeys hnodup hmem
              obtain ⟨place, hplace⟩ := ih (hchildren _ hmem)
                (fun path map hreaches => hforms (key :: path) map (.child hplural hmem hreaches))
                (start ++ '.' :: key) before
              refine ⟨place, hplace.child fun other hunder => ?_⟩
              rw [flattenYaml, hplural, if_neg Bool.false_ne_true, (hbefore other hunder).2]

/-! ## What is dropped -/

theorem dotted_append (start : List Char) (path below : List (List Char)) :
    dotted start (path ++ below) = dotted (dotted start path) below := by
  simp [dotted]

theorem Reaches.wellFormed {value sub : Yaml} {path : List (List Char)}
    (hreaches : Reaches value path sub) (hwell : value.WellFormed) : sub.WellFormed := by
  induction hreaches with
  | here => exact hwell
  | child hplural hmem hreaches ih =>
      cases hwell with
      | mapping hkeys hnodup hchildren => exact ih (hchildren _ hmem)

theorem Reaches.leaf {value sub : Yaml} {path below : List (List Char)} {s : List Char}
    (hreaches : Reaches value path sub) (hleaf : Leaf sub below s) :
    Leaf value (path ++ below) s := by
  induction hreaches with
  | here => exact hleaf
  | child hplural hmem hreaches ih => exact .mapping hmem (ih hleaf)

/-- Under a reached path, the walk does what it does from there. -/
theorem Reaches.lookup {value sub : Yaml} {path : List (List Char)}
    (hreaches : Reaches value path sub) (hwell : value.WellFormed) (start : List Char)
    (entries : Entries) :
    ∃ before : Entries, ∀ key, Under (dotted start path) key →
      before.lookup key = entries.lookup key ∧
      (flattenYaml start value entries).lookup key =
        (flattenYaml (dotted start path) sub before).lookup key := by
  induction hreaches generalizing start entries with
  | here value =>
      refine ⟨entries, fun key _ => ⟨rfl, ?_⟩⟩
      rw [dotted, List.flatMap_nil, List.append_nil]
  | @child map name child sub path hplural hmem hreaches ih =>
      cases hwell with
      | mapping hkeys hnodup hchildren =>
          obtain ⟨middle, hmiddle⟩ :=
            exists_flattenChildren start map entries hkeys hnodup hmem
          obtain ⟨before, hbefore⟩ := ih (hchildren _ hmem) (start ++ '.' :: name) middle
          refine ⟨before, fun key hunder => ?_⟩
          rw [dotted_cons] at hunder ⊢
          obtain ⟨hsame, hflatten⟩ := hbefore key hunder
          obtain ⟨hsameMiddle, hflattenMiddle⟩ :=
            hmiddle key ((under_dotted _ path).trans hunder)
          refine ⟨hsame.trans hsameMiddle, ?_⟩
          rw [flattenYaml, hplural, if_neg Bool.false_ne_true, hflattenMiddle, hflatten]

/-- Below a plural entry nothing is inserted. -/
theorem Reaches.lookup_below {value : Yaml} {path : List (List Char)}
    {map : List (Option (List Char) × Yaml)} (hreaches : Reaches value path (.mapping map))
    (hplural : isPluralEntry map = true) (hwell : value.WellFormed) (start : List Char)
    (key : List Char) (below : List (List Char)) :
    (flattenYaml start value ∅).lookup (dotted start (path ++ key :: below)) = none := by
  have hbelow : Under (dotted start path) (dotted start (path ++ key :: below)) ∧
      dotted start (path ++ key :: below) ≠ dotted start path := by
    rw [dotted_append, dotted_cons]
    exact (under_dotted _ below).parent
  obtain ⟨before, hbefore⟩ := hreaches.lookup hwell start ∅
  obtain ⟨hsame, hflatten⟩ := hbefore _ hbelow.1
  rw [hflatten, flattenYaml, if_pos hplural, AList.lookup_insert_ne hbelow.2, hsame,
    AList.lookup_empty]

theorem formsAreTexts_of_keepsLeaves {value : Yaml} (hwell : value.WellFormed) {start : List Char}
    (hkeeps : KeepsLeaves start value) : FormsAreTexts value := by
  intro path map hreaches hplural child hmem
  by_contra hnot
  push Not at hnot
  obtain ⟨htext, below, s, hleaf⟩ := hnot
  obtain ⟨key, hkey⟩ : ∃ key, child.1 = some key := by
    cases hreaches.wellFormed hwell with
    | mapping hkeys =>
        obtain ⟨key, hkey, _⟩ := hkeys child hmem
        exact ⟨key, hkey⟩
  have hmem' : (some key, child.2) ∈ map := by rwa [← hkey]
  obtain ⟨⟨other, form⟩, hfound⟩ := hkeeps ∅ _ s (hreaches.leaf (.mapping hmem' hleaf))
  cases form with
  | none =>
      obtain ⟨rfl, hlookup⟩ := hfound
      rw [hreaches.lookup_below hplural hwell] at hlookup
      cases hlookup
  | some form =>
      obtain ⟨parent, entry, hpath, rfl, hlookup, _⟩ := hfound
      -- the leaf is not the child itself, so its parent is below the plural entry too
      have hne : below ≠ [] := by
        rintro rfl
        cases hchild : child.2 with
        | string other => exact htext other hchild
        | mapping => rw [hchild] at hleaf; cases hleaf
        | other => rw [hchild] at hleaf; cases hleaf
      have hparent : parent = path ++ key :: below.dropLast := by
        have hdrop := congrArg List.dropLast hpath
        rw [List.dropLast_concat] at hdrop
        rw [← hdrop, List.dropLast_append_of_ne_nil (List.cons_ne_nil _ _),
          List.dropLast_cons_of_ne_nil hne]
      rw [hparent, hreaches.lookup_below hplural hwell] at hlookup
      cases hlookup

/-! ## The leaves stay apart -/

theorem Leaf.names {value : Yaml} {path : List (List Char)} {s : List Char}
    (hleaf : Leaf value path s) (hwell : value.WellFormed) : ∀ name ∈ path, '.' ∉ name := by
  induction hleaf with
  | string => simp
  | mapping hmem hleaf ih =>
      cases hwell with
      | mapping hkeys hnodup hchildren =>
          obtain ⟨name, hname, hfree⟩ := hkeys _ hmem
          rw [List.forall_mem_cons]
          exact ⟨Option.some.inj hname ▸ hfree, ih (hchildren _ hmem)⟩

/-- Two leaves are never found at one place. -/
def LeavesApart (start : List Char) (value : Yaml) : Prop :=
  ∀ entries path other s t place, Leaf value path s → Leaf value other t →
    FoundAt (flattenYaml start value entries) start path s place →
    FoundAt (flattenYaml start value entries) start other t place → path = other

theorem leavesApart {value : Yaml} (hwell : value.WellFormed) (start : List Char) :
    LeavesApart start value := by
  intro entries path other s t place hleaf hleaf' hfound hfound'
  have hpath := hleaf.names hwell
  have hother := hleaf'.names hwell
  obtain ⟨key, form⟩ := place
  cases form with
  | none => exact dotted_injective hpath hother (hfound.1.symm.trans hfound'.1)
  | some form =>
      obtain ⟨parent, _, rfl, hkey, _⟩ := hfound
      obtain ⟨parent', _, rfl, hkey', _⟩ := hfound'
      rw [List.forall_mem_append] at hpath hother
      rw [dotted_injective hpath.1 hother.1 (hkey.symm.trans hkey')]

/-- Loading loses nothing exactly when no plural entry hides a mapping with leaves. -/
theorem keepsLeaves_iff {value : Yaml} (hwell : value.WellFormed) (start : List Char) :
    (KeepsLeaves start value ∧ LeavesApart start value) ↔ FormsAreTexts value := by
  constructor
  · intro h
    exact formsAreTexts_of_keepsLeaves hwell h.1
  · intro hforms
    exact ⟨fun entries path s hleaf => found_of_leaf hleaf hwell hforms start entries,
      leavesApart hwell start⟩

/-- `items` with its two forms. -/
def itemForms : List (Option (List Char) × Yaml) :=
  [(some "one".toList, .string "{count} item".toList),
    (some "other".toList, .string "{count} items".toList)]

def itemsFile : Yaml := .mapping [(some "items".toList, .mapping itemForms)]

theorem itemsFile_wellFormed : itemsFile.WellFormed := by
  refine .mapping ?_ (by decide) ?_
  · intro child hchild
    rw [List.mem_singleton] at hchild
    exact ⟨_, congrArg Prod.fst hchild, by decide⟩
  · intro child hchild
    rw [List.mem_singleton] at hchild
    subst hchild
    refine .mapping ?_ (by decide) ?_
    · intro form hform
      rcases List.mem_pair.mp hform with rfl | rfl
      · exact ⟨_, rfl, by decide⟩
      · exact ⟨_, rfl, by decide⟩
    · intro form hform
      rcases List.mem_pair.mp hform with rfl | rfl
      · exact .string _
      · exact .string _

theorem keepsLeaves_items :
    KeepsLeaves "common".toList itemsFile ∧ LeavesApart "common".toList itemsFile := by
  refine (keepsLeaves_iff itemsFile_wellFormed _).mpr ?_
  intro path map hreaches hplural child hchild
  cases hreaches with
  | here => exact absurd hplural (by decide)
  | child _ hmem hreaches =>
      obtain ⟨rfl, rfl⟩ : _ = "items".toList ∧ _ = Yaml.mapping itemForms := by simpa using hmem
      cases hreaches with
      | here =>
          rcases List.mem_pair.mp hchild with rfl | rfl
          · exact Or.inl ⟨_, rfl⟩
          · exact Or.inl ⟨_, rfl⟩
      | child hnot => exact absurd hnot (by decide)

/-- Two namespaces that have the names of forms. -/
def sizesFile : Yaml :=
  .mapping [(some "few".toList, .mapping [(some "title".toList, .string "A few".toList)]),
    (some "other".toList, .string "Others".toList)]

theorem sizesFile_wellFormed : sizesFile.WellFormed := by
  refine .mapping ?_ (by decide) ?_
  · intro child hchild
    rcases List.mem_pair.mp hchild with rfl | rfl
    · exact ⟨_, rfl, by decide⟩
    · exact ⟨_, rfl, by decide⟩
  · intro child hchild
    rcases List.mem_pair.mp hchild with rfl | rfl
    · refine .mapping ?_ (by decide) ?_
      · intro text htext
        rw [List.mem_singleton] at htext
        exact ⟨_, congrArg Prod.fst htext, by decide⟩
      · intro text htext
        rw [List.mem_singleton] at htext
        subst htext
        exact .string _
    · exact .string _

/-- The text of `few.title` is nowhere. -/
theorem keepsLeaves_dropped :
    sizesFile.WellFormed ∧ Leaf sizesFile ["few".toList, "title".toList] "A few".toList ∧
      ¬ ∃ place, FoundAt (flattenYaml "common".toList sizesFile ∅) "common".toList
        ["few".toList, "title".toList] "A few".toList place := by
  refine ⟨sizesFile_wellFormed,
    .mapping (List.mem_cons_self ..) (.mapping (List.mem_cons_self ..) (.string _)), ?_⟩
  have hempty : ∀ below, (flattenYaml "common".toList sizesFile ∅).lookup
      (dotted "common".toList ("few".toList :: below)) = none := fun below =>
    (Reaches.here _).lookup_below (by decide) sizesFile_wellFormed _ _ below
  rintro ⟨⟨key, form⟩, hfound⟩
  cases form with
  | none =>
      obtain ⟨rfl, hlookup⟩ := hfound
      rw [hempty] at hlookup
      cases hlookup
  | some form =>
      obtain ⟨parent, entry, hpath, rfl, hlookup, _⟩ := hfound
      have hparent : parent = ["few".toList] := by
        have hdrop := congrArg List.dropLast hpath
        rw [List.dropLast_concat] at hdrop
        exact hdrop.symm
      rw [hparent, hempty] at hlookup
      cases hlookup

end Modo.I18n
