import Modo.Http.Headers
import Modo.Lib.HashMap
import Modo.Lib.Text

/-!
# Routing by host

`HostRouter` has exact hosts and wildcards `*.suffix`, kept in two maps, and a fallback.  The
builder normalises each pattern and panics on one that is malformed or registered twice; a
panic is `none` here.  A request's host is resolved from three headers.

`entry` looks a pattern up in the map it belongs to, so that both maps are one map from
patterns to routers; registering fills it (`entry_registerAll`) and matching reads it
(`matchHost_eq`).  The order of registration is not seen (`matchHost_perm`).

Lower-casing is Unicode's, and a parameter.
-/

namespace Modo.Server

open Http

/-! ## Hosts -/

/-- `strip_port`: a colon behind which there are only digits, or nothing, is cut off. -/
def stripPort (host : List Char) : List Char :=
  if ':' ∈ host ∧ (host.rtakeWhile (· ≠ ':')).all Char.isDigit = true then
    (host.rdropWhile (· ≠ ':')).dropLast
  else host

section Host

variable (toLowercase : List Char → List Char)

/-- The host of one directive of a `Forwarded` element. -/
def forwardedHost (directive : List Char) : Option (List Char) :=
  let directive := Text.trim directive
  if 5 ≤ directive.length ∧ Text.eqIgnoreAsciiCase (directive.take 5) "host=".toList = true then
    let host := Text.trim (directive.drop 5)
    if host.isEmpty then none else some host
  else none

/-- The first element of the `Forwarded` header. -/
def fromForwarded (value : List Char) : Option (List Char) :=
  (((value.splitOn ',').headD value).splitOn ';').findSome? forwardedHost

/-- A header that is a host. -/
def fromHeader (value : List Char) : Option (List Char) :=
  let host := Text.trim value
  if host.isEmpty then none else some host

/-- `resolve_host`. -/
def resolveHost (parts : Parts) : Except (ℕ × String) (List Char) :=
  match ((parts.headers.getStr "forwarded").bind fromForwarded).or
      (((parts.headers.getStr "x-forwarded-host").bind fromHeader).or
        ((parts.headers.getStr "host").bind fromHeader)) with
  | some host => .ok (toLowercase (stripPort host))
  | none => .error (400, "missing or invalid Host header")

/-! ## Patterns -/

/-- A pattern as it is registered. -/
inductive HostPattern where
  | exact (host : List Char)
  | wildcard (suffix : List Char)
  deriving DecidableEq

/-- The pattern of a text; malformed ones panic. -/
def parsePattern (text : List Char) : Option HostPattern :=
  match toLowercase (stripPort (Text.trim text)) with
  | '*' :: '.' :: suffix =>
      if suffix.isEmpty then none
      else if '.' ∉ suffix then none
      else some (.wildcard suffix)
  | pattern =>
      if pattern.isEmpty then none
      else if pattern.head? = some '*' then none
      else some (.exact pattern)

end Host

/-! ## The router -/

/-- The text of a wildcard. -/
def wildcardText (suffix : List Char) : List Char := '*' :: '.' :: suffix

variable {Router : Type*}

/-- `HostRouterInner`. -/
structure HostRouterInner (Router : Type*) where
  exact : HashMap (List Char) Router
  /-- Under the suffix, the text of the pattern and its router. -/
  wildcard : HashMap (List Char) (List Char × Router)
  fallback : Option Router

/-- `HostRouter::new`, with the router that `HostRouter::fallback` sets. -/
def HostRouterInner.new (fallback : Option Router) : HostRouterInner Router :=
  { exact := ∅, wildcard := ∅, fallback := fallback }

/-- `HostRouter::host`. -/
def HostRouterInner.host (toLowercase : List Char → List Char) (inner : HostRouterInner Router)
    (pattern : List Char) (router : Router) : Option (HostRouterInner Router) :=
  match parsePattern toLowercase pattern with
  | some (.wildcard suffix) =>
      if inner.wildcard.lookup suffix ≠ none then none
      else some { inner with
        wildcard := inner.wildcard.insert suffix (wildcardText suffix, router) }
  | some (.exact host) =>
      if inner.exact.lookup host ≠ none then none
      else some { inner with exact := inner.exact.insert host router }
  | none => none

/-- The calls of `host` one after the other. -/
def HostRouterInner.registerAll (toLowercase : List Char → List Char) :
    HostRouterInner Router → List (List Char × Router) → Option (HostRouterInner Router)
  | inner, [] => some inner
  | inner, (pattern, router) :: rest =>
      (inner.host toLowercase pattern router).bind fun next => next.registerAll toLowercase rest

/-- The builder, with all patterns and the fallback. -/
def HostRouterInner.build (toLowercase : List Char → List Char)
    (patterns : List (List Char × Router)) (fallback : Option Router) :
    Option (HostRouterInner Router) :=
  (HostRouterInner.new fallback).registerAll toLowercase patterns

/-- `Match`. -/
inductive Match (Router : Type*) where
  | exact (router : Router)
  | wildcard (router : Router) (subdomain pattern : List Char)
  | fallback (router : Router)
  | notFound

/-- The end of `match_host`. -/
def HostRouterInner.matchFallback (inner : HostRouterInner Router) : Match Router :=
  match inner.fallback with
  | some router => .fallback router
  | none => .notFound

/-- `HostRouterInner::match_host`. -/
def HostRouterInner.matchHost (inner : HostRouterInner Router) (host : List Char) :
    Match Router :=
  match inner.exact.lookup host with
  | some router => .exact router
  | none =>
      match Utf8.splitOnce '.' host with
      | some (subdomain, suffix) =>
          match inner.wildcard.lookup suffix with
          | some (pattern, router) => .wildcard router subdomain pattern
          | none => inner.matchFallback
      | none => inner.matchFallback

/-- `MatchedHost`. -/
structure MatchedHost where
  subdomain : List Char
  pattern : List Char
  deriving DecidableEq

/-- `HostRouterService::call`: the router that serves the request with the extension that is
inserted, or the status and the message of the response. -/
def HostRouterInner.call (toLowercase : List Char → List Char) (inner : HostRouterInner Router)
    (parts : Parts) : Except (ℕ × String) (Router × Option MatchedHost) :=
  match resolveHost toLowercase parts with
  | .error response => .error response
  | .ok host =>
      match inner.matchHost host with
      | .exact router => .ok (router, none)
      | .fallback router => .ok (router, none)
      | .wildcard router subdomain pattern =>
          .ok (router, some { subdomain := subdomain, pattern := pattern })
      | .notFound => .error (404, "no route for host")

/-! ## Registration -/

namespace HostRouterInner

variable {toLowercase : List Char → List Char}

/-- The router of a pattern. -/
def entry (inner : HostRouterInner Router) : HostPattern → Option Router
  | .exact host => inner.exact.lookup host
  | .wildcard suffix => (inner.wildcard.lookup suffix).map Prod.snd

/-- Wildcards are kept with their text. -/
def KeepsText (inner : HostRouterInner Router) : Prop :=
  ∀ suffix pattern router, inner.wildcard.lookup suffix = some (pattern, router) →
    pattern = wildcardText suffix

theorem keepsText_new (fallback : Option Router) : (new fallback).KeepsText := by
  intro suffix pattern router hlookup
  rw [new, AList.lookup_empty] at hlookup
  cases hlookup

/-- What one call of `host` does: the pattern is new, and is registered. -/
theorem host_eq_some {inner next : HostRouterInner Router} {pattern : List Char}
    {router : Router} (hhost : inner.host toLowercase pattern router = some next) :
      ∃ key, parsePattern toLowercase pattern = some key ∧ inner.entry key = none ∧
        next.fallback = inner.fallback ∧ (inner.KeepsText → next.KeepsText) ∧
        ∀ other, next.entry other = if other = key then some router else inner.entry other := by
  unfold host at hhost
  cases hparse : parsePattern toLowercase pattern with
  | none => simp [hparse] at hhost
  | some key =>
      refine ⟨key, rfl, ?_⟩
      cases key with
      | exact host =>
          simp only [hparse, ite_not] at hhost
          split at hhost
          · rename_i hnew
            obtain rfl := Option.some.inj hhost
            refine ⟨hnew, rfl, id, ?_⟩
            intro other
            cases other with
            | exact other => simp [entry, AList.lookup_insert_eq]
            | wildcard suffix => simp [entry]
          · cases hhost
      | wildcard suffix =>
          simp only [hparse, ite_not] at hhost
          split at hhost
          · rename_i hnew
            obtain rfl := Option.some.inj hhost
            refine ⟨by simp [entry, hnew], rfl, ?_, ?_⟩
            · intro hkeeps other text owner hlookup
              rw [AList.lookup_insert_eq] at hlookup
              split at hlookup
              · rename_i heq
                cases hlookup
                rw [heq]
              · exact hkeeps other text owner hlookup
            · intro other
              cases other with
              | exact host => simp [entry]
              | wildcard other =>
                  simp only [entry, AList.lookup_insert_eq, HostPattern.wildcard.injEq]
                  split <;> rfl
          · cases hhost

/-- A pattern that is well formed and new is registered. -/
theorem host_ne_none {inner : HostRouterInner Router} {pattern : List Char}
    {key : HostPattern} (router : Router) (hparse : parsePattern toLowercase pattern = some key)
    (hnew : inner.entry key = none) : inner.host toLowercase pattern router ≠ none := by
  unfold host
  cases key with
  | exact host =>
      have hlookup : inner.exact.lookup host = none := hnew
      simp [hparse, hlookup]
  | wildcard suffix =>
      have hlookup : inner.wildcard.lookup suffix = none := by
        simpa [entry] using hnew
      simp [hparse, hlookup]

/-- The patterns that are accepted: well formed, not there yet, and no two the same. -/
theorem registerAll_ne_none_iff (inner : HostRouterInner Router)
    (patterns : List (List Char × Router)) :
    inner.registerAll toLowercase patterns ≠ none ↔
      (∀ pattern ∈ patterns, ∃ key, parsePattern toLowercase pattern.1 = some key ∧
        inner.entry key = none) ∧
      (patterns.map fun pattern => parsePattern toLowercase pattern.1).Nodup := by
  induction patterns generalizing inner with
  | nil => simp [registerAll]
  | cons first rest ih =>
      obtain ⟨pattern, router⟩ := first
      rw [registerAll, List.forall_mem_cons, List.map_cons, List.nodup_cons]
      constructor
      · intro hsome
        obtain ⟨final, hfinal⟩ := Option.ne_none_iff_exists'.mp hsome
        obtain ⟨next, hhost, hrest⟩ := Option.bind_eq_some_iff.mp hfinal
        obtain ⟨key, hparse, hnew, -, -, hentry⟩ := host_eq_some hhost
        obtain ⟨hrestNew, hnodup⟩ := (ih next).mp (by rw [hrest]; simp)
        refine ⟨⟨⟨key, hparse, hnew⟩, ?_⟩, ?_, hnodup⟩
        · intro other hother
          obtain ⟨otherKey, hotherParse, hotherNew⟩ := hrestNew other hother
          rw [hentry] at hotherNew
          refine ⟨otherKey, hotherParse, ?_⟩
          -- what is new after the first call was new before it
          split at hotherNew
          · cases hotherNew
          · exact hotherNew
        · intro hmem
          obtain ⟨other, hother, heq⟩ := List.mem_map.mp hmem
          obtain ⟨otherKey, hotherParse, hotherNew⟩ := hrestNew other hother
          rw [hotherParse, hparse] at heq
          rw [Option.some.inj heq, hentry, if_pos rfl] at hotherNew
          cases hotherNew
      · rintro ⟨⟨⟨key, hparse, hnew⟩, hrestNew⟩, hfresh, hnodup⟩
        obtain ⟨next, hhost⟩ := Option.ne_none_iff_exists'.mp
          (host_ne_none router hparse hnew)
        obtain ⟨key', hparse', -, -, -, hentry⟩ := host_eq_some hhost
        obtain rfl : key' = key := Option.some.inj (hparse'.symm.trans hparse)
        rw [hhost, Option.bind_some]
        refine (ih next).mpr ⟨?_, hnodup⟩
        intro other hother
        obtain ⟨otherKey, hotherParse, hotherNew⟩ := hrestNew other hother
        refine ⟨otherKey, hotherParse, ?_⟩
        rw [hentry, if_neg, hotherNew]
        rintro rfl
        exact hfresh (List.mem_map.mpr ⟨other, hother, by rw [hotherParse, hparse]⟩)

/-- What the calls of `host` do. -/
theorem registerAll_spec {inner final : HostRouterInner Router}
    {patterns : List (List Char × Router)}
    (hregister : inner.registerAll toLowercase patterns = some final) :
    final.fallback = inner.fallback ∧ (inner.KeepsText → final.KeepsText) ∧
      ∀ key router, final.entry key = some router ↔ inner.entry key = some router ∨
        ∃ pattern, (pattern, router) ∈ patterns ∧ parsePattern toLowercase pattern = some key := by
  induction patterns generalizing inner with
  | nil =>
      obtain rfl := Option.some.inj hregister
      exact ⟨rfl, id, fun key router => by simp⟩
  | cons first rest ih =>
      obtain ⟨pattern, router⟩ := first
      obtain ⟨next, hhost, hrest⟩ := Option.bind_eq_some_iff.mp hregister
      obtain ⟨key, hparse, hnew, hfallback, hkeeps, hentry⟩ := host_eq_some hhost
      obtain ⟨ihfallback, ihkeeps, ihentry⟩ := ih hrest
      refine ⟨ihfallback.trans hfallback, fun h => ihkeeps (hkeeps h), ?_⟩
      intro other owner
      rw [ihentry, hentry]
      by_cases hkey : other = key
      · subst hkey
        rw [if_pos rfl, hnew]
        simp only [List.mem_cons, Prod.mk.injEq, Option.some.injEq, reduceCtorEq, false_or]
        constructor
        · rintro (rfl | ⟨text, hmem, htext⟩)
          · exact ⟨pattern, .inl ⟨rfl, rfl⟩, hparse⟩
          · exact ⟨text, .inr hmem, htext⟩
        · rintro ⟨text, ⟨rfl, rfl⟩ | hmem, htext⟩
          · exact .inl rfl
          · exact .inr ⟨text, hmem, htext⟩
      · rw [if_neg hkey]
        simp only [List.mem_cons, Prod.mk.injEq]
        refine or_congr_right ⟨?_, ?_⟩
        · rintro ⟨text, hmem, htext⟩
          exact ⟨text, .inr hmem, htext⟩
        · rintro ⟨text, ⟨rfl, rfl⟩ | hmem, htext⟩
          · exact absurd (Option.some.inj (htext.symm.trans hparse)) hkey
          · exact ⟨text, hmem, htext⟩

theorem entry_new (fallback : Option Router) (key : HostPattern) :
    (new fallback).entry key = none := by
  cases key <;> simp [entry, new]

/-- A router that is built holds the patterns, and nothing else. -/
theorem entry_build {patterns : List (List Char × Router)} {fallback : Option Router}
    {inner : HostRouterInner Router} (hbuild : build toLowercase patterns fallback = some inner)
    (key : HostPattern) (router : Router) :
    inner.entry key = some router ↔
      ∃ pattern, (pattern, router) ∈ patterns ∧ parsePattern toLowercase pattern = some key := by
  rw [(registerAll_spec hbuild).2.2, entry_new]
  simp

theorem entry_build_eq_none {patterns : List (List Char × Router)} {fallback : Option Router}
    {inner : HostRouterInner Router} (hbuild : build toLowercase patterns fallback = some inner)
    (key : HostPattern) :
    inner.entry key = none ↔
      ∀ pattern ∈ patterns, parsePattern toLowercase pattern.1 ≠ some key := by
  rw [Option.eq_none_iff_forall_ne_some]
  constructor
  · rintro hnone ⟨pattern, router⟩ hmem hparse
    exact hnone router ((entry_build hbuild key router).mpr ⟨pattern, hmem, hparse⟩)
  · intro hnone router hentry
    obtain ⟨pattern, hmem, hparse⟩ := (entry_build hbuild key router).mp hentry
    exact hnone (pattern, router) hmem hparse

/-! ## Matching -/

/-- The wildcard part of `match_host`, by entries. -/
def matchWildcard (inner : HostRouterInner Router) (host : List Char) : Match Router :=
  match Utf8.splitOnce '.' host with
  | some (subdomain, suffix) =>
      match inner.entry (.wildcard suffix) with
      | some router => .wildcard router subdomain (wildcardText suffix)
      | none => inner.matchFallback
  | none => inner.matchFallback

theorem matchHost_eq {inner : HostRouterInner Router} (hkeeps : inner.KeepsText)
    (host : List Char) :
    inner.matchHost host =
      match inner.entry (.exact host) with
      | some router => .exact router
      | none => inner.matchWildcard host := by
  unfold matchHost matchWildcard
  rw [entry]
  cases inner.exact.lookup host with
  | some router => rfl
  | none =>
      cases Utf8.splitOnce '.' host with
      | none => rfl
      | some pair =>
          obtain ⟨subdomain, suffix⟩ := pair
          simp only [entry]
          cases hlookup : inner.wildcard.lookup suffix with
          | none => rfl
          | some value =>
              obtain ⟨pattern, router⟩ := value
              rw [hkeeps suffix pattern router hlookup]
              rfl

/-- A wildcard match is the first label of the host. -/
theorem matchHost_eq_wildcard {inner : HostRouterInner Router} (hkeeps : inner.KeepsText)
    {host subdomain pattern : List Char} {router : Router}
    (hmatch : inner.matchHost host = .wildcard router subdomain pattern) :
    ∃ suffix, pattern = wildcardText suffix ∧
      Utf8.splitOnce '.' host = some (subdomain, suffix) := by
  have hfallback : inner.matchFallback ≠ .wildcard router subdomain pattern := by
    unfold matchFallback
    split <;> simp
  rw [matchHost_eq hkeeps] at hmatch
  split at hmatch
  · cases hmatch
  · unfold matchWildcard at hmatch
    split at hmatch
    · rename_i label suffix hsplit
      split at hmatch
      · cases hmatch
        exact ⟨suffix, rfl, hsplit⟩
      · exact absurd hmatch hfallback
    · exact absurd hmatch hfallback

/-- Routers with the same entries and fallback match alike. -/
theorem matchHost_congr {first second : HostRouterInner Router} (hfirst : first.KeepsText)
    (hsecond : second.KeepsText) (hentry : ∀ key, first.entry key = second.entry key)
    (hfallback : first.fallback = second.fallback) (host : List Char) :
    first.matchHost host = second.matchHost host := by
  rw [matchHost_eq hfirst, matchHost_eq hsecond]
  simp only [matchWildcard, matchFallback, hentry, hfallback]

/-- The patterns can be registered in any order. -/
theorem matchHost_perm {patterns patterns' : List (List Char × Router)}
    {fallback : Option Router} {inner : HostRouterInner Router}
    (hbuild : build toLowercase patterns fallback = some inner)
    (hperm : patterns.Perm patterns') (host : List Char) :
    ∃ inner', build toLowercase patterns' fallback = some inner' ∧
      inner'.matchHost host = inner.matchHost host := by
  have hsome : build toLowercase patterns fallback ≠ none := by
    rw [hbuild]
    exact Option.some_ne_none inner
  have haccepted := (registerAll_ne_none_iff (new fallback) patterns).mp hsome
  have haccepted' : build toLowercase patterns' fallback ≠ none := by
    refine (registerAll_ne_none_iff (new fallback) patterns').mpr ⟨?_, ?_⟩
    · intro pattern hmem
      exact haccepted.1 pattern (hperm.mem_iff.mpr hmem)
    · exact (hperm.map _).nodup haccepted.2
  obtain ⟨inner', hbuild'⟩ := Option.ne_none_iff_exists'.mp haccepted'
  refine ⟨inner', hbuild', ?_⟩
  obtain ⟨hfallback, hkeeps, -⟩ := registerAll_spec hbuild
  obtain ⟨hfallback', hkeeps', -⟩ := registerAll_spec hbuild'
  apply matchHost_congr (hkeeps' (keepsText_new fallback)) (hkeeps (keepsText_new fallback))
  · intro key
    ext router
    rw [entry_build hbuild', entry_build hbuild]
    simp only [hperm.mem_iff]
  · rw [hfallback', hfallback]

end HostRouterInner

/-! ## What routing is for -/

section Dispatch

variable (toLowercase : List Char → List Char) (patterns : List (List Char × Router))

/-- The exact entry of a host. -/
def ExactEntry (host : List Char) (router : Router) : Prop :=
  ∃ pattern, (pattern, router) ∈ patterns ∧
    parsePattern toLowercase pattern = some (.exact host)

/-- The wildcard entry of a host, which is a label, a dot and the suffix of the entry. -/
def WildcardEntry (host subdomain suffix : List Char) (router : Router) : Prop :=
  subdomain ≠ [] ∧ '.' ∉ subdomain ∧ host = subdomain ++ '.' :: suffix ∧
    ∃ pattern, (pattern, router) ∈ patterns ∧
      parsePattern toLowercase pattern = some (.wildcard suffix)

/-- The route of a host: its exact entry, else its wildcard entry, else the fallback. -/
def Dispatched (fallback : Option Router) (host : List Char) : Match Router → Prop
  | .exact router => ExactEntry toLowercase patterns host router
  | .wildcard router subdomain pattern =>
      (∀ other, ¬ExactEntry toLowercase patterns host other) ∧
        ∃ suffix, pattern = wildcardText suffix ∧
          WildcardEntry toLowercase patterns host subdomain suffix router
  | .fallback router =>
      (∀ other, ¬ExactEntry toLowercase patterns host other) ∧
        (∀ subdomain suffix other,
          ¬WildcardEntry toLowercase patterns host subdomain suffix other) ∧
        fallback = some router
  | .notFound =>
      (∀ other, ¬ExactEntry toLowercase patterns host other) ∧
        (∀ subdomain suffix other,
          ¬WildcardEntry toLowercase patterns host subdomain suffix other) ∧
        fallback = none

/-- The host is a dot and the suffix of a wildcard. -/
def EmptyLabel (host : List Char) : Prop :=
  ∃ suffix, host = '.' :: suffix ∧
    (∃ pattern ∈ patterns, parsePattern toLowercase pattern.1 = some (.wildcard suffix)) ∧
    ∀ pattern ∈ patterns, parsePattern toLowercase pattern.1 ≠ some (.exact host)

variable {toLowercase patterns} {fallback : Option Router} {inner : HostRouterInner Router}

theorem dispatched_matchFallback (hfallback : inner.fallback = fallback) {host : List Char}
    (hexact : ∀ other, ¬ExactEntry toLowercase patterns host other)
    (hwildcard : ∀ subdomain suffix other,
      ¬WildcardEntry toLowercase patterns host subdomain suffix other) :
    Dispatched toLowercase patterns fallback host inner.matchFallback := by
  unfold HostRouterInner.matchFallback
  cases hinner : inner.fallback with
  | none => exact ⟨hexact, hwildcard, hfallback.symm.trans hinner⟩
  | some router => exact ⟨hexact, hwildcard, hfallback.symm.trans hinner⟩

/-- A host is routed as it should unless its label before a wildcard's suffix is empty. -/
theorem dispatched_matchHost_iff
    (hbuild : HostRouterInner.build toLowercase patterns fallback = some inner)
    (host : List Char) :
    Dispatched toLowercase patterns fallback host (inner.matchHost host) ↔
      ¬EmptyLabel toLowercase patterns host := by
  obtain ⟨hfallback, hkeeps, -⟩ := HostRouterInner.registerAll_spec hbuild
  rw [HostRouterInner.matchHost_eq (hkeeps (HostRouterInner.keepsText_new fallback))]
  cases hexact : inner.entry (.exact host) with
  | some router =>
      have hentry := (HostRouterInner.entry_build hbuild _ _).mp hexact
      refine iff_of_true hentry ?_
      rintro ⟨suffix, -, -, hnone⟩
      obtain ⟨pattern, hmem, hparse⟩ := hentry
      exact hnone (pattern, router) hmem hparse
  | none =>
      have hnoExact := (HostRouterInner.entry_build_eq_none hbuild _).mp hexact
      have hno : ∀ other, ¬ExactEntry toLowercase patterns host other := by
        rintro other ⟨pattern, hmem, hparse⟩
        exact hnoExact (pattern, other) hmem hparse
      simp only [HostRouterInner.matchWildcard]
      cases hsplit : Utf8.splitOnce '.' host with
      | none =>
          have hdot := Utf8.splitOnce_eq_none.mp hsplit
          refine iff_of_true (dispatched_matchFallback hfallback hno ?_) ?_
          · rintro subdomain suffix other ⟨-, -, rfl, -⟩
            exact hdot (by simp)
          · rintro ⟨suffix, rfl, -⟩
            exact hdot List.mem_cons_self
      | some pair =>
          obtain ⟨subdomain, suffix⟩ := pair
          obtain ⟨hhost, hdot⟩ := Utf8.splitOnce_eq_some.mp hsplit
          -- the host splits in one way only
          have hunique : ∀ label rest, host = label ++ '.' :: rest → '.' ∉ label →
              label = subdomain ∧ rest = suffix := by
            intro label rest heq hlabel
            rw [Utf8.splitOnce_eq_some.mpr ⟨heq, hlabel⟩] at hsplit
            exact Prod.mk.inj (Option.some.inj hsplit)
          dsimp only
          cases hwildcard : inner.entry (.wildcard suffix) with
          | none =>
              have hnoWildcard := (HostRouterInner.entry_build_eq_none hbuild _).mp hwildcard
              refine iff_of_true (dispatched_matchFallback hfallback hno ?_) ?_
              · rintro label rest other ⟨-, hlabel, heq, pattern, hmem, hparse⟩
                obtain ⟨-, rfl⟩ := hunique label rest heq hlabel
                exact hnoWildcard (pattern, other) hmem hparse
              · rintro ⟨rest, heq, ⟨pattern, hmem, hparse⟩, -⟩
                obtain ⟨-, rfl⟩ := hunique [] rest heq List.not_mem_nil
                exact hnoWildcard pattern hmem hparse
          | some router =>
              obtain ⟨pattern, hmem, hparse⟩ :=
                (HostRouterInner.entry_build hbuild _ _).mp hwildcard
              constructor
              · rintro ⟨-, rest, -, hlabel, hnoDot, heq, -⟩ ⟨tail, htail, -⟩
                obtain ⟨hempty, -⟩ := hunique [] tail htail List.not_mem_nil
                exact hlabel hempty.symm
              · intro hnot
                refine ⟨hno, suffix, rfl, ?_, hdot, hhost, pattern, hmem, hparse⟩
                rintro rfl
                exact hnot ⟨suffix, hhost, ⟨(pattern, router), hmem, hparse⟩, hnoExact⟩

/-- **Routing by host**: the route of a host is its exact entry, else its wildcard entry,
else the fallback, in whatever order the patterns were registered, exactly when the host is
not a dot and the suffix of a wildcard. -/
theorem matchHost_dispatched_iff
    (hbuild : HostRouterInner.build toLowercase patterns fallback = some inner)
    (host : List Char) :
    (Dispatched toLowercase patterns fallback host (inner.matchHost host) ∧
      ∀ patterns', patterns.Perm patterns' →
        ∃ inner', HostRouterInner.build toLowercase patterns' fallback = some inner' ∧
          inner'.matchHost host = inner.matchHost host) ↔
      ¬EmptyLabel toLowercase patterns host := by
  rw [dispatched_matchHost_iff hbuild]
  refine and_iff_left ?_
  intro patterns' hperm
  exact HostRouterInner.matchHost_perm hbuild hperm host

end Dispatch

/-- The wildcard `*.a.b`, for router 0. -/
def wildcardPatterns : List (List Char × ℕ) := [(['*', '.', 'a', '.', 'b'], 0)]

theorem matchHost_dispatched_label :
    ∃ inner, HostRouterInner.build (List.map Char.toLower) wildcardPatterns none = some inner ∧
      Dispatched (List.map Char.toLower) wildcardPatterns none ['t', '.', 'a', '.', 'b']
        (inner.matchHost ['t', '.', 'a', '.', 'b']) := by
  refine ⟨_, rfl, ((matchHost_dispatched_iff rfl _).mpr ?_).1⟩
  rintro ⟨suffix, heq, -⟩
  cases heq

/-- The host `.a.b` has no label before the suffix, and is routed to the wildcard. -/
theorem matchHost_empty_label :
    ∃ inner, HostRouterInner.build (List.map Char.toLower) wildcardPatterns none = some inner ∧
      inner.matchHost ['.', 'a', '.', 'b'] = .wildcard 0 [] ['*', '.', 'a', '.', 'b'] ∧
      ¬Dispatched (List.map Char.toLower) wildcardPatterns none ['.', 'a', '.', 'b']
        (inner.matchHost ['.', 'a', '.', 'b']) := by
  refine ⟨_, rfl, rfl, ?_⟩
  rintro ⟨-, suffix, -, hlabel, -⟩
  exact hlabel rfl

end Modo.Server
