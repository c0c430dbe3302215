import Modo.Http.Headers
import Modo.Lib.IpAddr
import Modo.Lib.Text

/-!
# The address of a client

`extract_client_ip` documents an order: a peer that is no trusted proxy, the leftmost entry of
`X-Forwarded-For` that is an address, `X-Real-IP`, the peer, and `127.0.0.1`.  It looks at the
first entry of `X-Forwarded-For` and at no other, and `extractClientIp_eq_iff` says when this
is enough.

Networks come from a crate; `contains` is `IpNet::contains`.
-/

namespace Modo.Ip

open Http

section Extract

variable {IpNet : Type*} (contains : IpNet → IpAddr → Bool)

/-- A peer that is in none of the trusted networks, if there are any. -/
def untrustedPeer (trustedProxies : List IpNet) (connectIp : Option IpAddr) : Option IpAddr :=
  connectIp.filter fun ip =>
    !trustedProxies.isEmpty && !(trustedProxies.any fun net => contains net ip)

/-- `str::parse` of a trimmed text. -/
def parseTrimmed (text : List Char) : Option IpAddr := IpAddr.fromStr (Text.trim text)

/-- The first entry of `X-Forwarded-For`. -/
def firstForwarded (headers : HeaderMap) : Option IpAddr :=
  (headers.getStr "x-forwarded-for").bind fun forwarded =>
    (forwarded.splitOn ',').head?.bind parseTrimmed

/-- `X-Real-IP`. -/
def realIp (headers : HeaderMap) : Option IpAddr :=
  (headers.getStr "x-real-ip").bind parseTrimmed

/-- The address without `X-Forwarded-For`. -/
def fallback (headers : HeaderMap) (connectIp : Option IpAddr) : IpAddr :=
  (realIp headers).getD (connectIp.getD IpAddr.localhost)

/-- `extract_client_ip`. -/
def extractClientIp (headers : HeaderMap) (trustedProxies : List IpNet)
    (connectIp : Option IpAddr) : IpAddr :=
  match untrustedPeer contains trustedProxies connectIp with
  | some ip => ip
  | none => (firstForwarded headers).getD (fallback headers connectIp)

/-! ## The documented order -/

/-- The entries of `X-Forwarded-For`, line by line. -/
def forwardedEntries (headers : HeaderMap) : List (List Char) :=
  (headers.filter fun field => field.1 == "x-forwarded-for").flatMap fun field =>
    match toStr field.2 with
    | some forwarded => forwarded.splitOn ','
    | none => []

/-- The leftmost entry that parses. -/
def leftmostForwarded (headers : HeaderMap) : Option IpAddr :=
  (forwardedEntries headers).findSome? parseTrimmed

/-- The order as it is documented. -/
def documentedIp (headers : HeaderMap) (trustedProxies : List IpNet)
    (connectIp : Option IpAddr) : IpAddr :=
  match untrustedPeer contains trustedProxies connectIp with
  | some ip => ip
  | none => (leftmostForwarded headers).getD (fallback headers connectIp)

variable {contains}

theorem xForwardedFor_toLower : "x-forwarded-for".toLower = "x-forwarded-for" := by
  decide +kernel

/-- An address that is the first entry is the leftmost one. -/
theorem leftmostForwarded_of_first {headers : HeaderMap} {ip : IpAddr}
    (hfirst : firstForwarded headers = some ip) : leftmostForwarded headers = some ip := by
  rw [firstForwarded, HeaderMap.getStr, HeaderMap.get, xForwardedFor_toLower] at hfirst
  obtain ⟨forwarded, hforwarded, hentry⟩ := Option.bind_eq_some_iff.mp hfirst
  obtain ⟨value, hlookup, hvalue⟩ := Option.bind_eq_some_iff.mp hforwarded
  obtain ⟨before, after, hheaders, hbefore⟩ := List.lookup_eq_some_iff.mp hlookup
  obtain ⟨first, rest, hsplit⟩ :=
    List.exists_cons_of_ne_nil (List.splitOn_ne_nil ',' forwarded)
  rw [hsplit, List.head?_cons, Option.bind_some] at hentry
  have hnone : before.filter (fun field => field.1 == "x-forwarded-for") = [] := by
    rw [List.filter_eq_nil_iff]
    intro field hfield hname
    have hne := hbefore field hfield
    rw [beq_iff_eq] at hname
    simp [hname] at hne
  rw [leftmostForwarded, forwardedEntries, hheaders, List.filter_append, hnone, List.nil_append,
    List.filter_cons_of_pos (by simp), List.flatMap_cons]
  dsimp only
  rw [hvalue]
  dsimp only
  rw [hsplit, List.cons_append, List.findSome?_cons, hentry]

/-- **When the documented order is followed.**  It is exactly when the peer is not trusted, no
entry of `X-Forwarded-For` parses, the first one does, or the leftmost that parses is the
address that is taken instead.  With an untrusted peer no header is read. -/
theorem extractClientIp_eq_iff (contains : IpNet → IpAddr → Bool) (headers : HeaderMap)
    (trustedProxies : List IpNet) (connectIp : Option IpAddr) :
    (extractClientIp contains headers trustedProxies connectIp =
        documentedIp contains headers trustedProxies connectIp ↔
      (untrustedPeer contains trustedProxies connectIp).isSome = true ∨
        leftmostForwarded headers = none ∨ (firstForwarded headers).isSome = true ∨
        leftmostForwarded headers = some (fallback headers connectIp)) ∧
      ∀ ip, connectIp = some ip → trustedProxies ≠ [] →
        (∀ net ∈ trustedProxies, contains net ip = false) →
        extractClientIp contains headers trustedProxies connectIp = ip := by
  constructor
  · rw [extractClientIp, documentedIp]
    cases hpeer : untrustedPeer contains trustedProxies connectIp with
    | some ip => simp
    | none =>
        cases hfirst : firstForwarded headers with
        | some ip => simp [leftmostForwarded_of_first hfirst]
        | none =>
            cases hleftmost : leftmostForwarded headers with
            | none => simp
            | some ip => simp [eq_comm]
  · rintro ip rfl hne hnets
    have hpeer : untrustedPeer contains trustedProxies (some ip) = some ip := by
      rw [untrustedPeer, Option.filter_some, if_pos]
      simpa [hne] using hnets
    rw [extractClientIp, hpeer]

end Extract

/-! ## A malformed first entry -/

def unknownForwarded : HeaderMap :=
  [("x-forwarded-for", ofText "unknown, 192.0.2.7".toList)]

/-- The address is the second entry, and it is not found. -/
theorem extractClientIp_unknown :
    extractClientIp (fun (net : IpAddr) ip => decide (net = ip)) unknownForwarded [] none =
        IpAddr.localhost ∧
      documentedIp (fun (net : IpAddr) ip => decide (net = ip)) unknownForwarded [] none =
        .v4 #v[192, 0, 2, 7] ∧
      extractClientIp (fun (net : IpAddr) ip => decide (net = ip)) unknownForwarded [] none ≠
        documentedIp (fun (net : IpAddr) ip => decide (net = ip)) unknownForwarded [] none := by
  decide +kernel

end Modo.Ip
