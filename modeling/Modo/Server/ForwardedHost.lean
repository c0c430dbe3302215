import Modo.Lib.Ascii
import Modo.Lib.Forwarded
import Modo.Server.HostRouter

/-!
# The host of a `Forwarded` header

`resolve_host` splits the header at every comma and semicolon and takes the first piece
that begins with `host=`.  A separator between quotes, and the quotes themselves, are not
what it takes them for.  `forwarded_read_iff` says for which values of the grammar the host
it finds is the one that is meant.
-/

namespace Modo.Server

open Http Forwarded

/-! ## Requests -/

/-- The value whose bytes are the characters of a text. -/
def latin1 (text : List Char) : HeaderValue := text.map fun c => UInt8.ofNat c.toNat

theorem toStr_latin1 {text : List Char} (htext : ∀ c ∈ text, c.toNat < 256) :
    toStr (latin1 text) = if text.all isVisibleChar = true then some text else none := by
  have hbyte : ∀ c ∈ text, isVisibleAscii (UInt8.ofNat c.toNat) = isVisibleChar c := by
    intro c hc
    rw [Bool.eq_iff_iff, isVisibleAscii_iff, isVisibleChar_iff,
      Utf8.toNat_ofNat_of_lt (htext c hc)]
  have hall : (latin1 text).all isVisibleAscii = text.all isVisibleChar := by
    rw [latin1, List.all_map, Bool.eq_iff_iff, List.all_eq_true, List.all_eq_true]
    exact forall₂_congr fun c hc => by rw [Function.comp_apply, hbyte c hc]
  have hread : (latin1 text).map (fun byte => Char.ofNat byte.toNat) = text := by
    rw [latin1, List.map_map]
    conv_rhs => rw [← List.map_id text]
    exact List.map_congr_left fun c hc => by
      rw [Function.comp_apply, Utf8.toNat_ofNat_of_lt (htext c hc), Char.ofNat_toNat, id]
  rw [toStr, hall, hread]

/-- The request that has a value as its `Host` and no other header. -/
def hostRequest (value : List Char) : Parts where
  headers := [("host", latin1 value)]
  query := none

/-! ## The condition -/

/-- A host that is read out of the parameters before the one that is meant. -/
def hiddenHost (before : Element) : Option (List Char) :=
  (((beforeText before).takeWhile (· ≠ ',')).splitOn ';').findSome? forwardedHost

/--
The header is visible, and either the first host that is read before the parameter is the
same, or there is none, no comma stands there and the parameter is a token.
-/
def ReadsAsMeant (toLowercase : List Char → List Char) (header : Header) (before : Element)
    (value : Value) : Prop :=
  header.text.all isVisibleChar = true ∧
    match hiddenHost before with
    | some hidden => Text.trim value.chars ≠ [] ∧
        toLowercase (stripPort hidden) = toLowercase (stripPort (Text.trim value.chars))
    | none => ',' ∉ beforeText before ∧ ∃ word, value = .token word

/-! ## Reading the header -/

theorem fromForwarded_eq (text : List Char) :
    fromForwarded text = ((text.takeWhile (· ≠ ',')).splitOn ';').findSome? forwardedHost := by
  obtain ⟨rest, hrest⟩ := Text.exists_splitOn_eq_cons ',' text
  rw [fromForwarded, hrest, List.headD_cons]

theorem forwardedHost_nil : forwardedHost [] = none := rfl

/-- The pieces of the parameters before a text come before its own. -/
theorem findSome?_beforeText_append (before : Element) (text : List Char) :
    ((beforeText before ++ text).splitOn ';').findSome? forwardedHost =
      (((beforeText before).splitOn ';').findSome? forwardedHost).or
        ((text.splitOn ';').findSome? forwardedHost) := by
  induction before with
  | nil => simp [beforeText, forwardedHost_nil]
  | cons param before ih =>
      have hcons : beforeText (param :: before) = paramText param ++ ';' :: beforeText before := by
        simp [beforeText]
      rw [hcons, List.append_assoc, List.cons_append, List.splitOn_append_cons_self,
        List.splitOn_append_cons_self, List.findSome?_append, List.findSome?_append, ih,
        Option.or_assoc]

theorem fromForwarded_beforeText_append (before : Element) (text : List Char) :
    fromForwarded (beforeText before ++ text) =
      (hiddenHost before).or
        (if ',' ∈ beforeText before then none
        else ((text.takeWhile (· ≠ ',')).splitOn ';').findSome? forwardedHost) := by
  rw [fromForwarded_eq, hiddenHost]
  by_cases hcomma : ',' ∈ beforeText before
  · have htake : (beforeText before ++ text).takeWhile (· ≠ ',') =
        (beforeText before).takeWhile (· ≠ ',') := by
      rw [List.takeWhile_append, if_neg]
      intro hlength
      have hself := (List.takeWhile_prefix (· ≠ ',')).eq_of_length hlength
      exact absurd rfl (of_decide_eq_true (List.takeWhile_eq_self_iff.mp hself ',' hcomma))
    rw [htake, if_pos hcomma, Option.or_none]
  · have hall : ∀ c ∈ beforeText before, decide (c ≠ ',') = true :=
      fun c hc => decide_eq_true (ne_of_mem_of_not_mem hc hcomma)
    rw [List.takeWhile_append_of_pos hall, List.takeWhile_eq_self_iff.mpr hall,
      findSome?_beforeText_append, if_neg hcomma]

/-- The first piece of a text, if it is a host. -/
theorem findSome?_of_first_piece {text host : List Char}
    (hhost : forwardedHost (text.takeWhile isInner) = some host) :
    ((text.takeWhile (· ≠ ',')).splitOn ';').findSome? forwardedHost = some host := by
  obtain ⟨rest, hrest⟩ := Text.exists_splitOn_eq_cons ';' (text.takeWhile (· ≠ ','))
  have hpiece : (text.takeWhile (· ≠ ',')).takeWhile (· ≠ ';') = text.takeWhile isInner := by
    rw [List.takeWhile_takeWhile]
    exact congrArg (List.takeWhile · text) (funext fun c => by simp [isInner])
  rw [hrest, hpiece, List.findSome?_cons, hhost]

theorem rdropWhile_append {p : Char → Bool} {second : List Char}
    (hsecond : second.rdropWhile p ≠ []) (first : List Char) :
    (first ++ second).rdropWhile p = first ++ second.rdropWhile p := by
  rw [List.rdropWhile, ne_eq, List.reverse_eq_nil_iff] at hsecond
  rw [List.rdropWhile, List.reverse_append, List.dropWhile_append, if_neg (by simpa using hsecond),
    List.reverse_append, List.reverse_reverse]
  rfl

/-- A visible character that is not the space is no white space. -/
theorem isWhitespace_eq_false {c : Char} (hc : 33 ≤ c.toNat) (hlt : c.toNat < 127) :
    Text.isWhitespace c = false := by
  simp only [Text.isWhitespace, decide_eq_false_iff_not]
  omega

/-- A text that begins with no white space loses none of its begin. -/
theorem exists_rdropWhile_eq_cons {c : Char} (hc : Text.isWhitespace c = false)
    (text : List Char) :
    ∃ rest, (c :: text).rdropWhile Text.isWhitespace = c :: rest := by
  obtain ⟨rest, hrest⟩ := List.rdropWhile_prefix Text.isWhitespace (c :: text)
  cases hkept : (c :: text).rdropWhile Text.isWhitespace with
  | nil =>
      have hall := List.rdropWhile_eq_nil_iff.mp hkept c List.mem_cons_self
      simp [hc] at hall
  | cons d kept =>
      rw [hkept, List.cons_append, List.cons.injEq] at hrest
      exact ⟨kept, by rw [hrest.1]⟩

theorem trim_rdropWhile {c : Char} (hc : Text.isWhitespace c = false) (text : List Char) :
    Text.trim ((c :: text).rdropWhile Text.isWhitespace) =
      (c :: text).rdropWhile Text.isWhitespace := by
  obtain ⟨rest, hrest⟩ := exists_rdropWhile_eq_cons hc text
  refine Text.trim_eq_self (fun d hd => ?_) (fun d hd => ?_)
  · rw [hrest] at hd
    exact Option.some.inj hd ▸ hc
  · have hne : (c :: text).rdropWhile Text.isWhitespace ≠ [] := by simp [hrest]
    have hlast := List.rdropWhile_last_not Text.isWhitespace (c :: text) hne
    rw [List.getLast?_eq_some_getLast hne, Option.mem_some] at hd
    simpa [hd] using hlast

/-- A directive with the name is read up to the white space at its end. -/
theorem forwardedHost_named {name : Token}
    (hname : Text.eqIgnoreAsciiCase name.text "host".toList = true) {c : Char}
    (hc : Text.isWhitespace c = false) (value : List Char) :
    forwardedHost (name.text ++ '=' :: c :: value) =
      some ((c :: value).rdropWhile Text.isWhitespace) := by
  have hlower : name.text.map Char.toLower = "host".toList.map Char.toLower :=
    of_decide_eq_true hname
  have hlength : name.text.length = 4 := by
    have hlength := congrArg List.length hlower
    rwa [List.length_map, List.length_map] at hlength
  obtain ⟨rest, hrest⟩ := exists_rdropWhile_eq_cons hc value
  have htrim : Text.trim (name.text ++ '=' :: c :: value) =
      (name.text ++ ['=']) ++ (c :: value).rdropWhile Text.isWhitespace := by
    have hstart : Text.trimStart (name.text ++ '=' :: c :: value) =
        (name.text ++ ['=']) ++ (c :: value) := by
      obtain ⟨d, letters, hcons⟩ := List.exists_cons_of_ne_nil name.ne_nil
      have hd := name.spec (c := d) (hcons ▸ List.mem_cons_self)
      have hspace := isWhitespace_eq_false hd.1 hd.2.1
      rw [hcons, Text.trimStart, List.cons_append, List.dropWhile_cons_of_neg (by simp [hspace])]
      simp
    rw [Text.trim, hstart, rdropWhile_append (by simp [hrest])]
  have hfive : (name.text ++ ['=']).length = 5 := by simp [hlength]
  have hdirective : Text.eqIgnoreAsciiCase (name.text ++ ['=']) "host=".toList = true := by
    rw [Text.eqIgnoreAsciiCase, decide_eq_true_eq, List.map_append, hlower]
    decide
  have hlong : 5 ≤ ((name.text ++ ['=']) ++ (c :: value).rdropWhile Text.isWhitespace).length := by
    rw [List.length_append, hfive]
    exact Nat.le_add_right 5 _
  rw [forwardedHost, htrim, List.take_left' hfive, List.drop_left' hfive,
    trim_rdropWhile hc value, if_pos ⟨hlong, hdirective⟩, hrest]
  rfl

/-! ## Tokens are read, quoted strings are not -/

theorem isInner_of_token (word : Token) : ∀ c ∈ word.text, isInner c = true := by
  intro c hc
  have hspec := word.spec hc
  simp [isInner, hspec.2.2.1, hspec.2.2.2.1]

/-- The first piece of a pair and what follows it. -/
theorem takeWhile_pair_text (pair : Pair) (tail : List Char) :
    (pair.text ++ tail).takeWhile isInner =
      pair.name.text ++ '=' :: (pair.value.text ++ tail).takeWhile isInner := by
  rw [Pair.text, List.append_assoc, List.takeWhile_append_of_pos (isInner_of_token pair.name),
    List.cons_append, List.takeWhile_cons_of_pos (by decide)]

/-- White space at the end is dropped. -/
theorem rdropWhile_append_of_isOws {spaces : List Char} (hspaces : isOws spaces = true)
    (text : List Char) :
    (text ++ spaces).rdropWhile Text.isWhitespace = text.rdropWhile Text.isWhitespace := by
  apply Text.rdropWhile_append_of_pos
  intro c hc
  rcases of_decide_eq_true (List.all_eq_true.mp hspaces c hc) with rfl | rfl <;> decide

theorem rdropWhile_token (word : Token) :
    word.text.rdropWhile Text.isWhitespace = word.text := by
  rw [List.rdropWhile_eq_self_iff]
  intro hne
  have hlast := word.spec (List.getLast_mem hne)
  simp [isWhitespace_eq_false hlast.1 hlast.2.1]

theorem forwardedHost_token {pair : Pair} {word : Token} (hname : pair.IsNamed "host".toList)
    (hvalue : pair.value = .token word) {tail : List Char}
    (htail : isOws (tail.takeWhile isInner) = true) :
    forwardedHost ((pair.text ++ tail).takeWhile isInner) = some word.text := by
  have hpiece : (pair.value.text ++ tail).takeWhile isInner =
      word.text ++ tail.takeWhile isInner := by
    rw [hvalue, Value.text, List.takeWhile_append_of_pos (isInner_of_token word)]
  rw [takeWhile_pair_text, hpiece]
  obtain ⟨c, rest, hcons⟩ := List.exists_cons_of_ne_nil word.ne_nil
  have hc := word.spec (c := c) (hcons ▸ List.mem_cons_self)
  rw [hcons, List.cons_append, forwardedHost_named hname (isWhitespace_eq_false hc.1 hc.2.1),
    ← List.cons_append, ← hcons, rdropWhile_append_of_isOws htail, rdropWhile_token]

/-- What is read of a quoted string begins with the quote. -/
theorem forwardedHost_quotedString {pair : Pair} {items : List QuotedItem}
    (hname : pair.IsNamed "host".toList) (hvalue : pair.value = .quotedString items)
    (tail : List Char) :
    forwardedHost ((pair.text ++ tail).takeWhile isInner) =
      some (('"' :: (items.flatMap QuotedItem.text ++ '"' :: tail).takeWhile isInner).rdropWhile
        Text.isWhitespace) := by
  have hpiece : (pair.value.text ++ tail).takeWhile isInner =
      '"' :: (items.flatMap QuotedItem.text ++ '"' :: tail).takeWhile isInner := by
    rw [hvalue, Value.text, List.cons_append, List.takeWhile_cons_of_pos (by decide),
      List.append_assoc]
    rfl
  rw [takeWhile_pair_text, hpiece, forwardedHost_named hname (by decide)]

/-- What `strip_port` leaves is a part of the host. -/
theorem stripPort_prefix_host (host : List Char) : stripPort host <+: host := by
  unfold stripPort
  split
  · exact (List.dropLast_prefix _).trans (List.rdropWhile_prefix _ _)
  · exact List.prefix_refl host

theorem mem_dropWhile_iff {p : Char → Bool} {c : Char} (hc : p c = false) (text : List Char) :
    c ∈ text.dropWhile p ↔ c ∈ text := by
  conv_rhs => rw [← List.takeWhile_append_dropWhile (p := p) (l := text), List.mem_append]
  refine ⟨.inr, fun h => h.resolve_left fun htake => ?_⟩
  simp [List.mem_takeWhile_imp htake] at hc

theorem mem_trim {c : Char} (hc : Text.isWhitespace c = false) {text : List Char} :
    c ∈ Text.trim text ↔ c ∈ text := by
  rw [Text.trim, List.rdropWhile, List.mem_reverse, mem_dropWhile_iff hc, List.mem_reverse,
    Text.trimStart, mem_dropWhile_iff hc]

/-- `strip_port` only takes a colon and digits away. -/
theorem mem_stripPort {c : Char} (hcolon : c ≠ ':') (hdigit : c.isDigit = false)
    {host : List Char} : c ∈ stripPort host ↔ c ∈ host := by
  unfold stripPort
  split
  · rename_i hport
    refine ⟨fun h => (List.rdropWhile_prefix _ _).subset (List.dropLast_subset _ h), fun h => ?_⟩
    have hsplit := List.rdropWhile_append_rtakeWhile (p := fun d => decide (d ≠ ':')) (l := host)
    rw [← hsplit, List.mem_append] at h
    rcases h with h | h
    · have hne := List.ne_nil_of_mem h
      rw [← List.dropLast_append_getLast hne, List.mem_append, List.mem_singleton] at h
      refine h.resolve_right fun hlast => hcolon ?_
      have hcut := List.rdropWhile_last_not (fun d => decide (d ≠ ':')) host hne
      rw [← hlast] at hcut
      simpa using hcut
    · simp [List.all_eq_true.mp hport.2 c h] at hdigit
  · exact Iff.rfl

theorem stripPort_concat_quote (host : List Char) : stripPort (host ++ ['"']) = host ++ ['"'] := by
  refine if_neg fun hport => ?_
  rw [List.rtakeWhile_concat_pos _ _ _ (by decide), List.all_append] at hport
  simp at hport

/-- A quoted string is read as another host than the one that is meant. -/
theorem quoted_ne (items : List QuotedItem) {tail : List Char}
    (htail : isOws (tail.takeWhile isInner) = true) :
    (stripPort (('"' :: (items.flatMap QuotedItem.text ++ '"' :: tail).takeWhile
        isInner).rdropWhile Text.isWhitespace)).map Char.toLower ≠
      (stripPort (Text.trim (items.map QuotedItem.char))).map Char.toLower := by
  intro heq
  by_cases hinner : ∀ c ∈ items.flatMap QuotedItem.text, isInner c = true
  · -- no separator between the quotes: the text with its quotes is longer than what is meant
    have hread : ('"' :: (items.flatMap QuotedItem.text ++ '"' :: tail).takeWhile
        isInner).rdropWhile Text.isWhitespace = '"' :: items.flatMap QuotedItem.text ++ ['"'] := by
      rw [List.takeWhile_append_of_pos hinner, List.takeWhile_cons_of_pos (by decide)]
      have hspaces : '"' :: (items.flatMap QuotedItem.text ++ '"' :: tail.takeWhile isInner) =
          ('"' :: items.flatMap QuotedItem.text ++ ['"']) ++ tail.takeWhile isInner := by simp
      rw [hspaces, rdropWhile_append_of_isOws htail, List.rdropWhile_concat_neg _ _ _ (by decide)]
    rw [hread, stripPort_concat_quote] at heq
    have hlength := congrArg List.length heq
    have hmeant : (stripPort (Text.trim (items.map QuotedItem.char))).length ≤
        (items.map QuotedItem.char).length :=
      (stripPort_prefix_host _).length_le.trans
        ((List.rdropWhile_prefix _ _).length_le.trans (List.dropWhile_suffix _).length_le)
    have hquoting := QuotedItem.length_map_char_le items
    simp only [List.length_map, List.length_append, List.length_cons, List.length_nil] at *
    omega
  · -- a separator between the quotes is meant, and is not read
    simp only [not_forall] at hinner
    obtain ⟨c, hc, hseparator⟩ := hinner
    have hd : c = ',' ∨ c = ';' := by
      by_contra hnot
      rw [not_or] at hnot
      exact hseparator (by simp [isInner, hnot.1, hnot.2])
    have hplain : c ≠ '\\' ∧ c ≠ ':' ∧ c.isDigit = false ∧ Text.isWhitespace c = false := by
      rcases hd with rfl | rfl <;> decide
    have hmeant : c ∈ stripPort (Text.trim (items.map QuotedItem.char)) := by
      rw [mem_stripPort hplain.2.1 hplain.2.2.1, mem_trim hplain.2.2.2,
        QuotedItem.mem_map_char_iff items hplain.1]
      exact hc
    have hlt : c.toNat < 65 := by
      rcases hd with rfl | rfl <;> decide
    have hlower := List.mem_map_of_mem (f := Char.toLower) hmeant
    rw [← heq] at hlower
    obtain ⟨d, hmem, hlower⟩ := List.mem_map.mp hlower
    rw [(Ascii.toLower_eq_iff hlt).mpr rfl, Ascii.toLower_eq_iff hlt] at hlower
    subst hlower
    have hread := (List.rdropWhile_prefix _ _).subset ((stripPort_prefix_host _).subset hmem)
    rcases List.mem_cons.mp hread with rfl | hread
    · rcases hd with hd | hd <;> cases hd
    · exact hseparator (List.mem_takeWhile_imp hread)

/-! ## The result -/

section Result

variable (toLowercase : List Char → List Char)

/-- The requests with a `Forwarded` value have the host that a request with this `Host` has. -/
def Agrees (forwarded : HeaderValue) (host : List Char) : Prop :=
  ∀ parts : Parts, parts.headers.get "forwarded" = some forwarded →
    resolveHost toLowercase parts = resolveHost toLowercase (hostRequest host)

/-- The request with a `Forwarded` value and nothing else, or a `Host`. -/
def forwardedRequest (forwarded : HeaderValue) (host : Option HeaderValue) : Parts where
  headers := ("forwarded", forwarded) :: (host.map fun host => ("host", host)).toList
  query := none

theorem forwarded_toLower : "forwarded".toLower = "forwarded" := by decide +kernel

theorem xForwardedHost_toLower : "x-forwarded-host".toLower = "x-forwarded-host" := by
  decide +kernel

theorem host_toLower : "host".toLower = "host" := by decide +kernel

theorem resolveHost_hostRequest (host : List Char) :
    resolveHost toLowercase (hostRequest host) =
      match (toStr (latin1 host)).bind fromHeader with
      | some host => .ok (toLowercase (stripPort host))
      | none => .error (400, "missing or invalid Host header") := by
  have hforwarded : (hostRequest host).headers.getStr "forwarded" = none := by
    simp [hostRequest, HeaderMap.getStr, HeaderMap.get, forwarded_toLower, List.lookup_cons]
  have hxForwarded : (hostRequest host).headers.getStr "x-forwarded-host" = none := by
    simp [hostRequest, HeaderMap.getStr, HeaderMap.get, xForwardedHost_toLower, List.lookup_cons]
  have hhost : (hostRequest host).headers.getStr "host" = toStr (latin1 host) := by
    simp [hostRequest, HeaderMap.getStr, HeaderMap.get, host_toLower]
  rw [resolveHost, hforwarded, hxForwarded, hhost]
  rfl

variable {toLowercase}

theorem resolveHost_of_read {parts : Parts} {forwarded : HeaderValue} {text host : List Char}
    (hparts : parts.headers.get "forwarded" = some forwarded) (htext : toStr forwarded = some text)
    (hhost : fromForwarded text = some host) :
    resolveHost toLowercase parts = .ok (toLowercase (stripPort host)) := by
  rw [resolveHost, HeaderMap.getStr, hparts, Option.bind_some, htext, Option.bind_some, hhost]
  rfl

theorem get_forwardedRequest (forwarded : HeaderValue) (host : Option HeaderValue) :
    (forwardedRequest forwarded host).headers.get "forwarded" = some forwarded := by
  simp [forwardedRequest, HeaderMap.get, forwarded_toLower]

/-- Where no host is read, the `Host` decides. -/
theorem resolveHost_of_unread {forwarded : HeaderValue} (host : Option HeaderValue)
    (hunread : (toStr forwarded).bind fromForwarded = none) :
    resolveHost toLowercase (forwardedRequest forwarded host) =
      match (host.bind toStr).bind fromHeader with
      | some host => .ok (toLowercase (stripPort host))
      | none => .error (400, "missing or invalid Host header") := by
  have hforwarded : (forwardedRequest forwarded host).headers.getStr "forwarded" =
      toStr forwarded := by
    rw [HeaderMap.getStr, get_forwardedRequest, Option.bind_some]
  have hxForwarded : (forwardedRequest forwarded host).headers.getStr "x-forwarded-host" =
      none := by
    cases host <;>
      simp [forwardedRequest, HeaderMap.getStr, HeaderMap.get, xForwardedHost_toLower,
        List.lookup_cons]
  have hhost : (forwardedRequest forwarded host).headers.getStr "host" = host.bind toStr := by
    cases host <;>
      simp [forwardedRequest, HeaderMap.getStr, HeaderMap.get, host_toLower, List.lookup_cons]
  rw [resolveHost, hforwarded, hxForwarded, hhost, hunread]
  rfl

theorem not_agrees_of_unread {forwarded : HeaderValue} {host : List Char}
    (hunread : (toStr forwarded).bind fromForwarded = none) :
    ¬ Agrees toLowercase forwarded host := by
  intro hagrees
  have hsame := (hagrees _ (get_forwardedRequest forwarded none)).trans
    (hagrees _ (get_forwardedRequest forwarded (some [97]))).symm
  rw [resolveHost_of_unread none hunread, resolveHost_of_unread (some [97]) hunread] at hsame
  have hletter : ((some [97] : Option HeaderValue).bind toStr).bind fromHeader = some ['a'] := by
    decide
  rw [hletter] at hsame
  cases hsame

theorem agrees_iff_of_read {forwarded : HeaderValue} {text host meant : List Char}
    (htext : toStr forwarded = some text) (hhost : fromForwarded text = some host) :
    Agrees toLowercase forwarded meant ↔
      .ok (toLowercase (stripPort host)) = resolveHost toLowercase (hostRequest meant) := by
  constructor
  · intro hagrees
    rw [← hagrees _ (get_forwardedRequest forwarded none),
      resolveHost_of_read (get_forwardedRequest forwarded none) htext hhost]
  · intro heq parts hparts
    rw [← heq, resolveHost_of_read hparts htext hhost]

/-- Between the host that is read and the one that is meant, if the header is text. -/
theorem resolveHost_meant {host : List Char} (hlt : ∀ c ∈ host, c.toNat < 256)
    (hvisible : host.all isVisibleChar = true) :
    resolveHost toLowercase (hostRequest host) =
      if Text.trim host = [] then .error (400, "missing or invalid Host header")
      else .ok (toLowercase (stripPort (Text.trim host))) := by
  rw [resolveHost_hostRequest, toStr_latin1 hlt, if_pos hvisible, Option.bind_some, fromHeader]
  by_cases hempty : Text.trim host = []
  · simp [hempty]
  · simp [hempty]

theorem value_text_subset {header : Header} {before after : Element} {pair : Pair}
    (hfirst : header.first = before ++ some pair :: after) :
    pair.value.text ⊆ header.text := by
  intro c hc
  rw [Header.text_eq hfirst, paramText, Pair.text]
  simp [hc]

theorem trim_token (word : Token) : Text.trim word.text = word.text := by
  refine Text.trim_eq_self (fun c hc => ?_) (fun c hc => ?_)
  · have hspec := word.spec (List.mem_of_mem_head? hc)
    exact isWhitespace_eq_false hspec.1 hspec.2.1
  · have hspec := word.spec (List.mem_of_mem_getLast? hc)
    exact isWhitespace_eq_false hspec.1 hspec.2.1

theorem lt_of_visible {text : List Char} (hvisible : text.all isVisibleChar = true) :
    ∀ c ∈ text, c.toNat < 128 := by
  intro c hc
  have hchar := (isVisibleChar_iff c).mp (List.all_eq_true.mp hvisible c hc)
  omega

/-- Where nothing is read before the parameter, its first piece is. -/
theorem fromForwarded_of_piece {header : Header} {before after : Element} {pair : Pair}
    {host : List Char} (hfirst : header.first = before ++ some pair :: after)
    (hhidden : hiddenHost before = none) (hcomma : ',' ∉ beforeText before)
    (hpiece : forwardedHost ((pair.text ++ tailText after header.rest).takeWhile isInner) =
      some host) :
    fromForwarded header.text = some host := by
  rw [Header.text_eq hfirst, fromForwarded_beforeText_append, hhidden, Option.none_or,
    if_neg hcomma, paramText, findSome?_of_first_piece hpiece]

/-- The host that is read of a token is the one that is meant. -/
theorem agrees_of_token {header : Header} {before after : Element} {host : Pair} {word : Token}
    (hfirst : header.first = before ++ some host :: after)
    (hname : host.IsNamed "host".toList) (hvisible : header.text.all isVisibleChar = true)
    (hhidden : hiddenHost before = none) (hcomma : ',' ∉ beforeText before)
    (hvalue : host.value = .token word) :
    Agrees toLowercase (latin1 header.text) host.value.chars := by
  have hread := fromForwarded_of_piece hfirst hhidden hcomma
    (forwardedHost_token hname hvalue (isOws_takeWhile_tailText after header.rest))
  have hchars : host.value.chars = word.text := by rw [hvalue, Value.chars]
  have hsubset := value_text_subset hfirst
  rw [hvalue] at hsubset
  rw [agrees_iff_of_read ((toStr_latin1 header.text_lt).trans (if_pos hvisible)) hread, hchars,
    resolveHost_meant (fun c hc => (word.spec hc).2.1.trans (by decide))
      (List.all_eq_true.mpr fun c hc => List.all_eq_true.mp hvisible c (hsubset hc)),
    trim_token, if_neg word.ne_nil]

/-- Of a quoted string another one is read. -/
theorem not_agrees_of_quotedString
    (hlower : ∀ text : List Char, (∀ c ∈ text, c.toNat < 128) →
      toLowercase text = text.map Char.toLower)
    {header : Header} {before after : Element} {host : Pair} {items : List QuotedItem}
    (hfirst : header.first = before ++ some host :: after)
    (hname : host.IsNamed "host".toList) (hvisible : header.text.all isVisibleChar = true)
    (hhidden : hiddenHost before = none) (hcomma : ',' ∉ beforeText before)
    (hvalue : host.value = .quotedString items) :
    ¬ Agrees toLowercase (latin1 header.text) host.value.chars := by
  have hread := fromForwarded_of_piece hfirst hhidden hcomma
    (forwardedHost_quotedString hname hvalue (tailText after header.rest))
  have htext := lt_of_visible hvisible
  have hsubset := value_text_subset hfirst
  have hchars : host.value.chars.all isVisibleChar = true :=
    List.all_eq_true.mpr fun c hc => List.all_eq_true.mp hvisible c
      (hsubset (host.value.mem_text_of_mem_chars hc))
  rw [agrees_iff_of_read ((toStr_latin1 header.text_lt).trans (if_pos hvisible)) hread,
    resolveHost_meant host.value.chars_lt hchars]
  by_cases hempty : Text.trim host.value.chars = []
  · rw [if_pos hempty]
    intro h
    cases h
  · rw [if_neg hempty, Except.ok.injEq, hlower _ ?read, hlower _ ?meant, hvalue, Value.chars]
    -- the quotation marks are read as a part of the host
    · exact quoted_ne items (isOws_takeWhile_tailText after header.rest)
    case read =>
      intro c hc
      have hpiece := (List.rdropWhile_prefix _ _).subset ((stripPort_prefix_host _).subset hc)
      apply htext c
      rw [Header.text_eq hfirst, paramText, Pair.text, hvalue, Value.text]
      rcases List.mem_cons.mp hpiece with rfl | hpiece
      · simp
      · have hwritten := (List.takeWhile_prefix isInner).subset hpiece
        rw [List.mem_append, List.mem_cons] at hwritten
        rcases hwritten with h | h | h <;> simp [h]
    case meant =>
      intro c hc
      have hwritten := (List.dropWhile_suffix _).subset
        ((List.rdropWhile_prefix _ _).subset ((stripPort_prefix_host _).subset hc))
      exact lt_of_visible hchars c hwritten

end Result

/--
The host of every request with a `Forwarded` value of the grammar is that of a request with the
parameter's value as its `Host` if and only if the header reads as it is meant: it is visible,
and either the parameters before the host hide the same host, or they hide none and no comma,
and the host is a token.
-/
theorem forwarded_read_iff (toLowercase : List Char → List Char)
    (hlower : ∀ text : List Char, (∀ c ∈ text, c.toNat < 128) →
      toLowercase text = text.map Char.toLower)
    (header : Header) (before after : Element) (host : Pair)
    (hfirst : header.first = before ++ some host :: after) (hname : host.IsNamed "host".toList) :
    Agrees toLowercase (latin1 header.text) host.value.chars ↔
      ReadsAsMeant toLowercase header before host.value := by
  have htoStr := toStr_latin1 header.text_lt
  by_cases hvisible : header.text.all isVisibleChar = true
  · rw [if_pos hvisible] at htoStr
    have hread := fromForwarded_beforeText_append before
      (paramText (some host) ++ tailText after header.rest)
    rw [← Header.text_eq hfirst] at hread
    rw [ReadsAsMeant]
    cases hhidden : hiddenHost before with
    | some hidden =>
        rw [hhidden, Option.some_or] at hread
        have hchars : host.value.chars.all isVisibleChar = true :=
          List.all_eq_true.mpr fun c hc => List.all_eq_true.mp hvisible c
            (value_text_subset hfirst (host.value.mem_text_of_mem_chars hc))
        rw [agrees_iff_of_read htoStr hread, resolveHost_meant host.value.chars_lt hchars]
        by_cases hempty : Text.trim host.value.chars = []
        · simp [hempty]
        · simp [hempty, hvisible]
    | none =>
        -- the reader stops at the first comma, also at one within a quoted string
        by_cases hcomma : ',' ∈ beforeText before
        · rw [hhidden, if_pos hcomma] at hread
          refine iff_of_false (not_agrees_of_unread ?_) (fun h => h.2.1 hcomma)
          rw [htoStr, Option.bind_some, hread]
          rfl
        · cases hvalue : host.value with
          | token word =>
              rw [← hvalue]
              exact iff_of_true (agrees_of_token hfirst hname hvisible hhidden hcomma hvalue)
                ⟨hvisible, hcomma, word, hvalue⟩
          | quotedString items =>
              rw [← hvalue]
              refine iff_of_false
                (not_agrees_of_quotedString hlower hfirst hname hvisible hhidden hcomma hvalue) ?_
              rintro ⟨-, -, word, hword⟩
              cases hvalue.symm.trans hword
  · rw [if_neg hvisible] at htoStr
    refine iff_of_false (not_agrees_of_unread ?_) (fun h => hvisible h.1)
    rw [htoStr, Option.bind_none]

/-! ## Two headers -/

def forToken : Token := ⟨"for".toList, by decide, by decide⟩

/-- A name in any case. -/
def hostToken : Token := ⟨"Host".toList, by decide, by decide⟩

/-- `for="a;b";Host=Example.com;`. -/
def tokenHeader : Header where
  first :=
    [some ⟨forToken, .quotedString ("a;b".toList.pmap .plain (by decide))⟩,
      some ⟨hostToken, .token ⟨"Example.com".toList, by decide, by decide⟩⟩, none]
  rest := []

theorem tokenHeader_agrees :
    Agrees (List.map Char.toLower) (latin1 "for=\"a;b\";Host=Example.com;".toList)
      "Example.com".toList :=
  (forwarded_read_iff (List.map Char.toLower) (fun _ _ => rfl) tokenHeader
    [some ⟨forToken, .quotedString ("a;b".toList.pmap .plain (by decide))⟩] [none]
    ⟨hostToken, .token ⟨"Example.com".toList, by decide, by decide⟩⟩ rfl (by decide)).mpr
    ⟨by decide, by decide, _, rfl⟩

/-- `for=192.0.2.43;Host="example.com:8080"`, as a host with a port has to be written. -/
def quotedHeader : Header where
  first :=
    [some ⟨forToken, .token ⟨"192.0.2.43".toList, by decide, by decide⟩⟩,
      some ⟨hostToken, .quotedString ("example.com:8080".toList.pmap .plain (by decide))⟩]
  rest := []

/-- The quotes and the port are taken for the host. -/
theorem quotedHeader_misread :
    quotedHeader.text = "for=192.0.2.43;Host=\"example.com:8080\"".toList ∧
      resolveHost (List.map Char.toLower) (forwardedRequest (latin1 quotedHeader.text) none) =
        .ok "\"example.com:8080\"".toList ∧
      resolveHost (List.map Char.toLower) (hostRequest "example.com:8080".toList) =
        .ok "example.com".toList ∧
      ¬ Agrees (List.map Char.toLower) (latin1 quotedHeader.text) "example.com:8080".toList := by
  have hforwarded : resolveHost (List.map Char.toLower)
      (forwardedRequest (latin1 quotedHeader.text) none) =
        .ok "\"example.com:8080\"".toList := by
    decide +kernel
  have hhost : resolveHost (List.map Char.toLower) (hostRequest "example.com:8080".toList) =
      .ok "example.com".toList := by
    decide +kernel
  refine ⟨by decide, hforwarded, hhost, fun hagrees => ?_⟩
  have hsame := hagrees _ (get_forwardedRequest (latin1 quotedHeader.text) none)
  rw [hforwarded, hhost] at hsame
  exact absurd (Except.ok.inj hsame) (by decide)

end Modo.Server
