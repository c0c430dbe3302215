import Modo.Cache.Stack
import Modo.Lib.Machine

/-!
# Loading of email templates

`FileSource` looks for a template in the directory of the locale, then in that of the default
locale, then beside them.  `CachedSource` keeps what another source returned; it locks its
cache for the lookup and again for the insertion, so that other loads may come between, and
the files may be edited at any time.

Whatever comes between, a load returns what the source answered to a load of the same
template, and errors are not kept (`cachedSource_run`).  While nothing is edited the cached
source is the source.  Loads one after the other ask the source exactly for the templates
that are not among the `capacity` ones loaded last (`loadAll_asks`).
-/

namespace Modo.Email

open Cache

/-! ## Files -/

/-- The name of a template, the locale and the default locale. -/
structure TemplateKey where
  name : List Char
  locale : List Char
  defaultLocale : List Char
  deriving DecidableEq

/-- `FileSource`: the files that can be read, by their path below that of the source. -/
structure FileSource where
  tryLoad : List (List Char) → Option (List Char)

/-- `FileSource::load`. -/
def FileSource.load (source : FileSource) (key : TemplateKey) : Except (List Char) (List Char) :=
  let filename := key.name ++ ".md".toList
  match source.tryLoad [key.locale, filename] with
  | some content => .ok content
  | none =>
      match (if key.locale ≠ key.defaultLocale then source.tryLoad [key.defaultLocale, filename]
        else none) with
      | some content => .ok content
      | none =>
          match source.tryLoad [filename] with
          | some content => .ok content
          | none => .error ("email template '".toList ++ key.name ++
              "' not found for locale '".toList ++ key.locale ++ "'".toList)

/-- The files that stand for a template, the most specific first. -/
def candidates (key : TemplateKey) : List (List (List Char)) :=
  [[key.locale, key.name ++ ".md".toList], [key.defaultLocale, key.name ++ ".md".toList],
    [key.name ++ ".md".toList]]

/-- The first of the files is loaded: that the default locale is passed over when it was
tried makes no difference. -/
theorem fileSource_load_eq (source : FileSource) (key : TemplateKey) :
    (source.load key).toOption = (candidates key).findSome? source.tryLoad := by
  simp only [FileSource.load, candidates, List.findSome?_cons, List.findSome?_nil]
  cases hexact : source.tryLoad [key.locale, key.name ++ ".md".toList] with
  | some content => rfl
  | none =>
      by_cases hlocale : key.locale = key.defaultLocale
      · rw [← hlocale, hexact]
        simp only [ne_eq, not_true_eq_false, if_false]
        cases source.tryLoad [key.name ++ ".md".toList] <;> rfl
      · simp only [ne_eq, hlocale, not_false_eq_true, if_true]
        cases source.tryLoad [key.defaultLocale, key.name ++ ".md".toList] with
        | some content => rfl
        | none => cases source.tryLoad [key.name ++ ".md".toList] <;> rfl

/-! ## The cached source -/

section CachedSource

variable {K V E : Type*} [DecidableEq K]

/-- `CachedSource::new`: a capacity of 0 is 1. -/
def CachedSource.capacityOf : ℕ → ℕ+
  | 0 => 1
  | capacity + 1 => capacity.succPNat

theorem capacityOf_coe (capacity : ℕ) :
    (CachedSource.capacityOf capacity : ℕ) = max capacity 1 := by
  cases capacity with
  | zero => rfl
  | succ capacity => exact (max_eq_left (Nat.le_add_left 1 capacity)).symm

/-- `CachedSource` with the calls of `load` that are under way: a key that was not found,
with the content of the source once it was asked. -/
structure CachedSource (K V E : Type*) where
  inner : K → Except E V
  cache : LruCache K V
  loading : List (K × Option V)
  /-- What the source was asked and answered. -/
  asked : List (K × Except E V)
  /-- What `load` returned. -/
  returned : List (K × Except E V)

namespace CachedSource

def new (inner : K → Except E V) (capacity : ℕ) : CachedSource K V E :=
  ⟨inner, LruCache.new (capacityOf capacity), [], [], []⟩

/-- `load` looks the key up. -/
def lookup (source : CachedSource K V E) (key : K) : CachedSource K V E :=
  match source.cache.get key with
  | (some cached, cache) =>
      { source with cache := cache, returned := source.returned ++ [(key, .ok cached)] }
  | (none, cache) => { source with cache := cache, loading := source.loading ++ [(key, none)] }

/-- The inner source is asked; an error is returned at once. -/
def ask (source : CachedSource K V E) (index : ℕ) : Option (CachedSource K V E) :=
  match source.loading[index]? with
  | some (key, none) =>
      match source.inner key with
      | .ok content =>
          some { source with
            loading := source.loading.set index (key, some content)
            asked := source.asked ++ [(key, .ok content)] }
      | .error error =>
          some { source with
            loading := source.loading.eraseIdx index
            asked := source.asked ++ [(key, .error error)]
            returned := source.returned ++ [(key, .error error)] }
  | _ => none

/-- The content is put and returned. -/
def store (source : CachedSource K V E) (index : ℕ) : Option (CachedSource K V E) :=
  match source.loading[index]? with
  | some (key, some content) =>
      some { source with
        cache := source.cache.put key content
        loading := source.loading.eraseIdx index
        returned := source.returned ++ [(key, .ok content)] }
  | _ => none

/-- `CachedSource::load`, when nothing comes between. -/
def load (source : CachedSource K V E) (key : K) : CachedSource K V E :=
  match source.cache.get key with
  | (some cached, cache) =>
      { source with cache := cache, returned := source.returned ++ [(key, .ok cached)] }
  | (none, cache) =>
      match source.inner key with
      | .ok content =>
          { source with
            cache := cache.put key content
            asked := source.asked ++ [(key, .ok content)]
            returned := source.returned ++ [(key, .ok content)] }
      | .error error =>
          { source with
            cache := cache
            asked := source.asked ++ [(key, .error error)]
            returned := source.returned ++ [(key, .error error)] }

/-- Load one template after the other. -/
def loadAll (source : CachedSource K V E) (keys : List K) : CachedSource K V E :=
  keys.foldl load source

end CachedSource

inductive LoadAction (K V E : Type*) where
  | lookup (key : K)
  | ask (index : ℕ)
  | store (index : ℕ)
  /-- The templates are edited. -/
  | edit (inner : K → Except E V)

def loadStep (source : CachedSource K V E) : LoadAction K V E → Option (CachedSource K V E)
  | .lookup key => some (source.lookup key)
  | .ask index => source.ask index
  | .store index => source.store index
  | .edit inner => some { source with inner := inner }

/-! ## Loads of several threads -/

/-- The cache and the calls under way hold answers of the source. -/
structure Honest (source : CachedSource K V E) : Prop where
  cached : ∃ entries, Represents source.cache entries ∧
    ∀ entry ∈ entries, (entry.1, .ok entry.2) ∈ source.asked
  loading : ∀ key content, (key, some content) ∈ source.loading → (key, .ok content) ∈ source.asked
  returned : ∀ answer ∈ source.returned, answer ∈ source.asked

theorem capacity_get (cache : LruCache K V) (key : K) :
    (cache.get key).2.capacity = cache.capacity :=
  capacity_perform cache (.get key)

theorem capacity_put (cache : LruCache K V) (key : K) (value : V) :
    (cache.put key value).capacity = cache.capacity :=
  capacity_perform cache (.put key value)

/-- A lookup returns an entry and leaves no new one. -/
theorem mem_of_get (entries : RecencyList K V) (key : K) :
    (∀ value ∈ (entries.get key).1, (key, value) ∈ entries) ∧
      ∀ entry ∈ (entries.get key).2, entry ∈ entries := by
  unfold RecencyList.get
  cases hlookup : entries.lookup key with
  | none => exact ⟨fun _ hvalue => (nomatch hvalue), fun _ hentry => hentry⟩
  | some value =>
      obtain ⟨before, after, hsplit, -⟩ := List.lookup_eq_some_iff.mp hlookup
      have hmem : (key, value) ∈ entries := by simp [hsplit]
      refine ⟨?_, ?_⟩
      · intro other hother
        exact Option.some.inj hother ▸ hmem
      · intro entry hentry
        rcases List.mem_append.mp hentry with hentry | hentry
        · exact List.mem_of_mem_filter hentry
        · rw [List.mem_singleton.mp hentry]
          exact hmem

theorem mem_of_put {entries : RecencyList K V} {capacity : ℕ+} {key : K} {value : V}
    {entry : K × V} (hentry : entry ∈ entries.put capacity key value) :
    entry ∈ entries ∨ entry = (key, value) := by
  unfold RecencyList.put at hentry
  split_ifs at hentry
  · exact (List.mem_append.mp hentry).imp List.mem_of_mem_filter List.mem_singleton.mp
  · exact (List.mem_append.mp hentry).imp List.mem_of_mem_tail List.mem_singleton.mp
  · exact (List.mem_append.mp hentry).imp id List.mem_singleton.mp

theorem honest_lookup {source : CachedSource K V E} (hhonest : Honest source) (key : K) :
    Honest (source.lookup key) := by
  obtain ⟨⟨entries, hrepresents, hentries⟩, hloading, hreturned⟩ := hhonest
  obtain ⟨hresult, hnext⟩ := get_represents hrepresents key
  obtain ⟨hvalue, hkept⟩ := mem_of_get entries key
  unfold CachedSource.lookup
  cases hget : source.cache.get key with
  | mk found cache =>
      rw [hget] at hresult hnext
      have hcached : ∃ entries, Represents cache entries ∧
          ∀ entry ∈ entries, (entry.1, .ok entry.2) ∈ source.asked :=
        ⟨_, hnext, fun entry hentry => hentries entry (hkept entry hentry)⟩
      cases found with
      | some content =>
          refine ⟨hcached, hloading, ?_⟩
          intro answer hanswer
          rcases List.mem_append.mp hanswer with hanswer | hanswer
          · exact hreturned answer hanswer
          · rw [List.mem_singleton.mp hanswer]
            exact hentries (key, content) (hvalue content hresult.symm)
      | none =>
          refine ⟨hcached, ?_, hreturned⟩
          intro other content hmem
          rcases List.mem_append.mp hmem with hmem | hmem
          · exact hloading other content hmem
          · simp at hmem

omit [DecidableEq K] in
/-- The source is asked for a key that is under way. -/
theorem ask_spec {source next : CachedSource K V E} {index : ℕ}
    (hask : source.ask index = some next) :
    ∃ key, source.loading[index]? = some (key, none) ∧
      ((∃ content, source.inner key = .ok content ∧
          next = { source with
            loading := source.loading.set index (key, some content)
            asked := source.asked ++ [(key, .ok content)] }) ∨
        ∃ error, source.inner key = .error error ∧
          next = { source with
            loading := source.loading.eraseIdx index
            asked := source.asked ++ [(key, .error error)]
            returned := source.returned ++ [(key, .error error)] }) := by
  unfold CachedSource.ask at hask
  split at hask
  · rename_i key hloading
    split at hask
    · rename_i content hinner
      exact ⟨key, hloading, .inl ⟨content, hinner, (Option.some.inj hask).symm⟩⟩
    · rename_i error hinner
      exact ⟨key, hloading, .inr ⟨error, hinner, (Option.some.inj hask).symm⟩⟩
  · cases hask

theorem store_spec {source next : CachedSource K V E} {index : ℕ}
    (hstore : source.store index = some next) :
    ∃ key content, source.loading[index]? = some (key, some content) ∧
      next = { source with
        cache := source.cache.put key content
        loading := source.loading.eraseIdx index
        returned := source.returned ++ [(key, .ok content)] } := by
  unfold CachedSource.store at hstore
  split at hstore
  · rename_i key content hloading
    exact ⟨key, content, hloading, (Option.some.inj hstore).symm⟩
  · cases hstore

theorem honest_step {source next : CachedSource K V E} {action : LoadAction K V E}
    (hhonest : Honest source) (hstep : loadStep source action = some next) : Honest next := by
  cases action with
  | lookup key => exact Option.some.inj hstep ▸ honest_lookup hhonest key
  | ask index =>
      obtain ⟨⟨entries, hrepresents, hentries⟩, hloading, hreturned⟩ := hhonest
      obtain ⟨key, hindex, ⟨content, -, rfl⟩ | ⟨error, -, rfl⟩⟩ := ask_spec hstep
      · refine ⟨⟨entries, hrepresents, fun entry hentry =>
          List.mem_append_left _ (hentries entry hentry)⟩, ?_, fun answer hanswer =>
          List.mem_append_left _ (hreturned answer hanswer)⟩
        intro other found hmem
        rcases List.mem_or_eq_of_mem_set hmem with hmem | heq
        · exact List.mem_append_left _ (hloading other found hmem)
        · cases heq
          exact List.mem_append_right _ (List.mem_singleton_self _)
      · refine ⟨⟨entries, hrepresents, fun entry hentry =>
          List.mem_append_left _ (hentries entry hentry)⟩, ?_, ?_⟩
        · intro other found hmem
          exact List.mem_append_left _ (hloading other found (List.mem_of_mem_eraseIdx hmem))
        · intro answer hanswer
          rcases List.mem_append.mp hanswer with hanswer | hanswer
          · exact List.mem_append_left _ (hreturned answer hanswer)
          · exact List.mem_append_right _ hanswer
  | store index =>
      obtain ⟨⟨entries, hrepresents, hentries⟩, hloading, hreturned⟩ := hhonest
      obtain ⟨key, content, hindex, rfl⟩ := store_spec hstep
      have hasked := hloading key content (List.mem_of_getElem? hindex)
      refine ⟨⟨_, put_represents hrepresents key content, ?_⟩, ?_, ?_⟩
      · intro entry hentry
        rcases mem_of_put hentry with hentry | rfl
        · exact hentries entry hentry
        · exact hasked
      · intro other found hmem
        exact hloading other found (List.mem_of_mem_eraseIdx hmem)
      · intro answer hanswer
        rcases List.mem_append.mp hanswer with hanswer | hanswer
        · exact hreturned answer hanswer
        · rw [List.mem_singleton.mp hanswer]
          exact hasked
  | edit inner =>
      exact Option.some.inj hstep ▸ ⟨hhonest.cached, hhonest.loading, hhonest.returned⟩

theorem honest_new (inner : K → Except E V) (capacity : ℕ) :
    Honest (CachedSource.new inner capacity) where
  cached := ⟨[], new_represents _, fun _ hentry => nomatch hentry⟩
  loading := fun _ _ hmem => nomatch hmem
  returned := fun _ hanswer => nomatch hanswer

theorem capacity_step {source next : CachedSource K V E} {action : LoadAction K V E}
    (hstep : loadStep source action = some next) : next.cache.capacity = source.cache.capacity := by
  cases action with
  | lookup key =>
      have hcapacity := capacity_get source.cache key
      rw [← Option.some.inj hstep, CachedSource.lookup]
      cases hget : source.cache.get key with
      | mk found cache =>
          rw [hget] at hcapacity
          cases found <;> exact hcapacity
  | ask index =>
      obtain ⟨key, -, ⟨content, -, rfl⟩ | ⟨error, -, rfl⟩⟩ := ask_spec hstep <;> rfl
  | store index =>
      obtain ⟨key, content, -, rfl⟩ := store_spec hstep
      exact capacity_put source.cache key content
  | edit inner => exact Option.some.inj hstep ▸ rfl

/-- Without edits the source is asked only as it is. -/
theorem asked_step {inner : K → Except E V} {source next : CachedSource K V E}
    {action : LoadAction K V E}
    (hinv : source.inner = inner ∧ ∀ answer ∈ source.asked, answer.2 = inner answer.1)
    (hedit : ∀ edited, action ≠ .edit edited) (hstep : loadStep source action = some next) :
    next.inner = inner ∧ ∀ answer ∈ next.asked, answer.2 = inner answer.1 := by
  obtain ⟨hinner, hasked⟩ := hinv
  cases action with
  | lookup key =>
      rw [← Option.some.inj hstep, CachedSource.lookup]
      cases hget : source.cache.get key with
      | mk found cache => cases found <;> exact ⟨hinner, hasked⟩
  | ask index =>
      obtain ⟨key, -, ⟨content, heq, rfl⟩ | ⟨error, heq, rfl⟩⟩ := ask_spec hstep
      all_goals
        refine ⟨hinner, ?_⟩
        intro answer hanswer
        rcases List.mem_append.mp hanswer with hanswer | hanswer
        · exact hasked answer hanswer
        · rw [List.mem_singleton.mp hanswer, ← hinner]
          exact heq.symm
  | store index =>
      obtain ⟨key, content, -, rfl⟩ := store_spec hstep
      exact ⟨hinner, hasked⟩
  | edit edited => exact absurd rfl (hedit edited)

/-- **Cached loads**: in any run of loads and edits, a load returns what the source answered
when it was asked for the same template, and there are never more entries than the capacity.
Without edits that is what the source says. -/
theorem cachedSource_run {inner : K → Except E V} {capacity : ℕ}
    {actions : List (LoadAction K V E)} {final : CachedSource K V E}
    (hrun : Machine.run loadStep (CachedSource.new inner capacity) actions = some final) :
    (∀ answer ∈ final.returned, answer ∈ final.asked) ∧
      final.cache.map.len ≤ max capacity 1 ∧
      ((∀ edited, .edit edited ∉ actions) →
        ∀ answer ∈ final.returned, answer.2 = inner answer.1) := by
  have hhonest : Honest final :=
    Machine.run_invariant Honest (fun _ _ _ => honest_step) (honest_new inner capacity) hrun
  have hcapacity : final.cache.capacity = CachedSource.capacityOf capacity :=
    Machine.run_invariant (fun source => source.cache.capacity = CachedSource.capacityOf capacity)
      (fun _ _ _ hinv hstep => (capacity_step hstep).trans hinv) rfl hrun
  refine ⟨hhonest.returned, ?_, ?_⟩
  · obtain ⟨entries, hrepresents, -⟩ := hhonest.cached
    rw [← capacityOf_coe, ← hcapacity]
    exact hrepresents.len_le
  · intro hedit answer hanswer
    have hallowed : ∀ source action next,
        Machine.Taken loadStep (CachedSource.new inner capacity) actions source action next →
          ∀ edited, action ≠ .edit edited := by
      intro source action next htaken edited heq
      rw [heq] at htaken
      exact hedit edited htaken.mem
    have hasked := Machine.run_invariant_of_allowed
      (fun source => source.inner = inner ∧ ∀ answer ∈ source.asked, answer.2 = inner answer.1)
      (fun _ action => ∀ edited, action ≠ .edit edited) (fun _ _ _ => asked_step)
      ⟨rfl, fun _ hmem => absurd hmem List.not_mem_nil⟩ hallowed hrun
    exact hasked.2 answer (hhonest.returned answer hanswer)

/-- Two threads load a template that is edited between their reads of the source: each
returns what it read, and what is put last is kept. -/
theorem cachedSource_run_edited :
    ∃ final, Machine.run loadStep (CachedSource.new (fun _ : ℕ => (.ok 1 : Except Unit ℕ)) 0)
          [.lookup 7, .lookup 7, .ask 0, .edit fun _ => .ok 2, .ask 1, .store 1, .store 0,
            .lookup 7] = some final ∧
        final.returned = [(7, .ok 2), (7, .ok 1), (7, .ok 1)] ∧
      (∀ answer ∈ final.returned, answer ∈ final.asked) ∧ final.cache.map.len ≤ 1 := by
  have hrun : ∃ final, Machine.run loadStep
      (CachedSource.new (fun _ : ℕ => (.ok 1 : Except Unit ℕ)) 0)
        [.lookup 7, .lookup 7, .ask 0, .edit fun _ => .ok 2, .ask 1, .store 1, .store 0,
          .lookup 7] = some final ∧
      final.returned = [(7, .ok 2), (7, .ok 1), (7, .ok 1)] := ⟨_, rfl, rfl⟩
  obtain ⟨final, hrun, hreturned⟩ := hrun
  exact ⟨final, hrun, hreturned, (cachedSource_run hrun).1, (cachedSource_run hrun).2.1⟩

/-! ## Loads one after the other -/

/-- Such a load is the run of its steps. -/
theorem load_eq_run (source : CachedSource K V E) (key : K) :
    ∃ actions, actions <+: [.lookup key, .ask source.loading.length, .store source.loading.length] ∧
      Machine.run loadStep source actions = some (source.load key) := by
  cases hget : source.cache.get key with
  | mk found cache =>
      cases found with
      | some content =>
          refine ⟨[.lookup key], ⟨_, rfl⟩, ?_⟩
          simp [Machine.run, loadStep, CachedSource.lookup, CachedSource.load, hget]
      | none =>
          cases hinner : source.inner key with
          | ok content =>
              refine ⟨_, List.prefix_rfl, ?_⟩
              simp [Machine.run, loadStep, CachedSource.lookup, CachedSource.ask,
                CachedSource.store, CachedSource.load, hget, hinner,
                List.eraseIdx_append_of_length_le]
          | error error =>
              refine ⟨[.lookup key, .ask source.loading.length], ⟨_, rfl⟩, ?_⟩
              simp [Machine.run, loadStep, CachedSource.lookup, CachedSource.ask,
                CachedSource.load, hget, hinner, List.eraseIdx_append_of_length_le]

/-- The templates that are kept once `keys` are loaded: those loaded last that exist. -/
def keptKeys (inner : K → Except E V) (capacity : ℕ) (keys : List K) : List K :=
  (recent (keys.filter fun key => (inner key).isOk)).take (CachedSource.capacityOf capacity)

/-- The content of a template that exists. -/
def contentOf [Inhabited V] (inner : K → Except E V) (key : K) : V :=
  (inner key).toOption.getD default

/-- The cache after the loads of `keys`. -/
structure Loaded [Inhabited V] (inner : K → Except E V) (capacity : ℕ) (keys : List K)
    (source : CachedSource K V E) : Prop where
  inner_eq : source.inner = inner
  capacity_eq : source.cache.capacity = CachedSource.capacityOf capacity
  cached : Represents source.cache
    (entriesOf (contentOf inner) (keptKeys inner capacity keys))

section Loaded

variable {inner : K → Except E V} {capacity : ℕ} {keys : List K} {key : K}
  {source : CachedSource K V E}

theorem exists_of_mem_keptKeys (hmem : key ∈ keptKeys inner capacity keys) :
    ∃ content, inner key = .ok content := by
  have hok := (List.mem_filter.mp (mem_recent.mp (List.mem_of_mem_take hmem))).2
  cases hinner : inner key with
  | ok content => exact ⟨content, rfl⟩
  | error error =>
      rw [hinner] at hok
      cases hok

theorem keptKeys_of_error {error : E} (hinner : inner key = .error error) :
    keptKeys inner capacity (keys ++ [key]) = keptKeys inner capacity keys := by
  have hfilter : [key].filter (fun key => (inner key).isOk) = [] := by
    simp [hinner, Except.isOk, Except.toBool]
  rw [keptKeys, List.filter_append, hfilter, List.append_nil, keptKeys]

theorem keptKeys_mono {larger : ℕ} (hle : capacity ≤ larger)
    (hmem : key ∈ keptKeys inner capacity keys) : key ∈ keptKeys inner larger keys := by
  refine List.take_subset_take_left _ ?_ hmem
  rw [capacityOf_coe, capacityOf_coe]
  exact max_le_max_right 1 hle

variable [Inhabited V]

/-- The load of a template that exists touches it. -/
theorem touch_keptKeys {content : V} (hinner : inner key = .ok content) :
    RecencyList.touch (CachedSource.capacityOf capacity) key content
        (entriesOf (contentOf inner) (keptKeys inner capacity keys)) =
      entriesOf (contentOf inner) (keptKeys inner capacity (keys ++ [key])) := by
  have hcontent : contentOf inner key = content := by
    rw [contentOf, hinner]
    rfl
  have hfilter : (keys ++ [key]).filter (fun key => (inner key).isOk) =
      keys.filter (fun key => (inner key).isOk) ++ [key] := by
    rw [List.filter_append]
    simp [hinner, Except.isOk, Except.toBool]
  rw [keptKeys, keptKeys, hfilter, recent_concat, ← hcontent,
    touch_entriesOf _ (nodup_recent _)]

theorem get_keptKeys :
    (RecencyList.get key (entriesOf (contentOf inner) (keptKeys inner capacity keys))).1 =
      if key ∈ keptKeys inner capacity keys then some (contentOf inner key) else none := by
  rw [← lookup_entriesOf, RecencyList.get]
  cases (entriesOf (contentOf inner) (keptKeys inner capacity keys)).lookup key <;> rfl

/-- What one load asks and returns. -/
theorem loaded_load (hloaded : Loaded inner capacity keys source) (key : K) :
    Loaded inner capacity (keys ++ [key]) (source.load key) ∧
      (source.load key).asked = source.asked ++
        (if key ∈ keptKeys inner capacity keys then [] else [(key, inner key)]) ∧
      (source.load key).returned = source.returned ++ [(key, inner key)] := by
  obtain ⟨hinner, hcapacity, hcached⟩ := hloaded
  obtain ⟨hresult, hnext⟩ := get_represents hcached key
  rw [get_keptKeys] at hresult
  have hcapacityget := (capacity_get source.cache key).trans hcapacity
  unfold CachedSource.load
  cases hget : source.cache.get key with
  | mk found cache =>
      rw [hget] at hresult hnext hcapacityget
      dsimp only at hresult hnext hcapacityget
      by_cases hmem : key ∈ keptKeys inner capacity keys
      · obtain ⟨content, hcontent⟩ := exists_of_mem_keptKeys hmem
        have hfound : found = some content := by
          rw [hresult, if_pos hmem, contentOf, hcontent]
          rfl
        rw [if_pos hmem, hcontent, hfound, List.append_nil]
        refine ⟨⟨hinner, hcapacityget, ?_⟩, rfl, rfl⟩
        rw [← touch_keptKeys hcontent, RecencyList.touch_of_get_isSome]
        · exact hnext
        · rw [get_keptKeys, if_pos hmem]
          rfl
      · rw [if_neg hmem] at hresult
        have hnone : (RecencyList.get key
            (entriesOf (contentOf inner) (keptKeys inner capacity keys))).1 = none := by
          rw [get_keptKeys, if_neg hmem]
        rw [if_neg hmem, show found = none from hresult]
        cases hcontent : inner key with
        | ok content =>
            rw [hinner, hcontent]
            refine ⟨⟨rfl, (capacity_put cache key content).trans hcapacityget, ?_⟩, rfl, rfl⟩
            rw [← touch_keptKeys hcontent, RecencyList.touch_of_get_eq_none hnone, ← hcapacityget]
            exact put_represents hnext key content
        | error error =>
            rw [hinner, hcontent]
            refine ⟨⟨rfl, hcapacityget, ?_⟩, rfl, rfl⟩
            rw [keptKeys_of_error hcontent]
            rw [RecencyList.get_of_eq_none hnone] at hnext
            exact hnext

theorem loaded_new (inner : K → Except E V) (capacity : ℕ) :
    Loaded inner capacity [] (CachedSource.new inner capacity) where
  inner_eq := rfl
  capacity_eq := rfl
  cached := by
    rw [keptKeys, List.filter_nil, recent, List.foldl_nil, List.take_nil]
    exact new_represents _

omit [Inhabited V] in
theorem loadAll_concat (source : CachedSource K V E) (keys : List K) (key : K) :
    source.loadAll (keys ++ [key]) = (source.loadAll keys).load key := by
  rw [CachedSource.loadAll, List.foldl_append]
  rfl

theorem loaded_loadAll (inner : K → Except E V) (capacity : ℕ) (keys : List K) :
    Loaded inner capacity keys ((CachedSource.new inner capacity).loadAll keys) := by
  induction keys using List.reverseRecOn with
  | nil => exact loaded_new inner capacity
  | append_singleton keys key ih =>
      rw [loadAll_concat]
      exact (loaded_load ih key).1

end Loaded

/-- **Loads one after the other** return what the source says.  It is asked for a template
unless that is among the `capacity` existing ones that were loaded last, so that a larger
cache never asks for what a smaller one would not. -/
theorem loadAll_asks [Inhabited V] (inner : K → Except E V) (capacity : ℕ) (keys : List K) :
    ((CachedSource.new inner capacity).loadAll keys).returned =
        keys.map (fun key => (key, inner key)) ∧
      (∀ key, (((CachedSource.new inner capacity).loadAll keys).load key).asked =
        ((CachedSource.new inner capacity).loadAll keys).asked ++
          if key ∈ keptKeys inner capacity keys then [] else [(key, inner key)]) ∧
      ∀ larger, capacity ≤ larger →
        ((CachedSource.new inner larger).loadAll keys).asked.Sublist
          ((CachedSource.new inner capacity).loadAll keys).asked := by
  refine ⟨?_, fun key => (loaded_load (loaded_loadAll inner capacity keys) key).2.1, ?_⟩
  · induction keys using List.reverseRecOn with
    | nil => rfl
    | append_singleton keys key ih =>
        rw [loadAll_concat, (loaded_load (loaded_loadAll inner capacity keys) key).2.2, ih,
          List.map_append]
        rfl
  · intro larger hle
    induction keys using List.reverseRecOn with
    | nil => exact List.Sublist.refl _
    | append_singleton keys key ih =>
        rw [loadAll_concat, loadAll_concat,
          (loaded_load (loaded_loadAll inner larger keys) key).2.1,
          (loaded_load (loaded_loadAll inner capacity keys) key).2.1]
        refine ih.append ?_
        split_ifs with hlarger hsmaller
        · exact List.Sublist.refl _
        · exact List.nil_sublist _
        · rename_i hsmaller
          exact absurd (keptKeys_mono hle hsmaller) hlarger
        · exact List.Sublist.refl _

end CachedSource

end Modo.Email
