import Modo.Webhook.Signature

/-!
# What a webhook signature is for

The signed content joins the id, the timestamp and the body with dots.  A timestamp has none, but an
id may, and nothing says where it ends.

`unambiguous_iff` says which ids can be used together without two messages of one content.
-/

namespace Modo.Webhook

open Http

/-- What `sign_headers` signs. -/
structure Message where
  id : List Char
  timestamp : Int64
  body : List UInt8
  deriving DecidableEq

def Message.content (message : Message) : List UInt8 :=
  buildSignedContent message.id message.timestamp message.body

/-- What the content begins with. -/
def signedPrefix (id : List Char) (timestamp : Int64) : List Char :=
  id ++ '.' :: (timestampText timestamp ++ ['.'])

theorem Message.content_eq (message : Message) :
    message.content = ofText (signedPrefix message.id message.timestamp) ++ message.body := rfl

/-- The id goes on with a timestamp where the other one ends. -/
def Extends (id other : List Char) : Prop :=
  ∃ timestamp, signedPrefix other timestamp <+: id ++ ['.']

/-! ## Timestamps -/

theorem notMem_timestampText (timestamp : Int64) : '.' ∉ timestampText timestamp := by
  have hdigits : ∀ n, '.' ∉ Nat.toDigits 10 n := by
    intro n hdot
    exact absurd (Nat.isDigit_of_mem_toDigits (by decide) (by decide) hdot) (by decide)
  rw [timestampText, Int.repr_eq_if]
  split_ifs with hsign
  · rw [Nat.toList_repr]
    exact hdigits _
  · rw [String.toList_append, Nat.toList_repr, List.mem_append, not_or]
    exact ⟨by decide, hdigits _⟩

theorem timestampText_injective : Function.Injective timestampText := by
  intro timestamp other heq
  have hparse := parseI64_timestampText timestamp
  rw [heq, parseI64_timestampText] at hparse
  exact (Option.some.inj hparse).symm

/-! ## Two prefixes -/

/-- If one prefix begins with another, they are the same or the id goes on with a timestamp. -/
theorem eq_or_extends_of_append_eq {id other tail : List Char} {timestamp timestamp' : Int64}
    (heq : signedPrefix id timestamp ++ tail = signedPrefix other timestamp') :
    (id = other ∧ timestamp = timestamp' ∧ tail = []) ∨ Extends other id := by
  have hdotless := notMem_timestampText timestamp'
  rcases List.eq_nil_or_concat tail with rfl | ⟨front, last, rfl⟩
  · left
    have hfront : (id ++ '.' :: timestampText timestamp) ++ ['.'] =
        (other ++ '.' :: timestampText timestamp') ++ ['.'] := by
      simpa [signedPrefix] using heq
    have ⟨hid, htimestamp⟩ := Utf8.append_separator_inj (notMem_timestampText timestamp) hdotless
      (List.append_cancel_right hfront)
    exact ⟨hid, timestampText_injective htimestamp, rfl⟩
  · right
    have hfront : ((id ++ '.' :: timestampText timestamp) ++ '.' :: front) ++ [last] =
        (other ++ '.' :: timestampText timestamp') ++ ['.'] := by
      simpa [signedPrefix] using heq
    have hjoined := (List.append_inj' hfront rfl).1
    refine ⟨timestamp, ?_⟩
    have hshared : signedPrefix id timestamp = (id ++ '.' :: timestampText timestamp) ++ ['.'] := by
      simp [signedPrefix]
    rw [hshared]
    -- the dot behind the timestamp stands in the other id or right behind it
    rcases List.append_eq_append_iff.mp hjoined with ⟨middle, hother, hdot⟩ | ⟨middle, hid, hdot⟩
    · cases middle with
      | nil =>
          rw [List.append_nil] at hother
          exact ⟨[], by rw [hother, List.append_nil]⟩
      | cons c middle =>
          obtain ⟨rfl, -⟩ := List.cons.inj hdot
          exact ⟨middle ++ ['.'], by simp [hother]⟩
    · cases middle with
      | nil =>
          rw [List.append_nil] at hid
          exact ⟨[], by rw [hid, List.append_nil]⟩
      | cons c middle =>
          exfalso
          obtain ⟨-, htimestamp⟩ := List.cons.inj hdot
          exact hdotless (htimestamp ▸ List.mem_append_right _ List.mem_cons_self)

/-- Messages of one content are the same or the id of one goes on with a timestamp. -/
theorem Message.eq_or_extends {message other : Message} (heq : message.content = other.content) :
    message = other ∨ Extends other.id message.id ∨ Extends message.id other.id := by
  obtain ⟨id, timestamp, body⟩ := message
  obtain ⟨id', timestamp', body'⟩ := other
  rw [Message.content_eq, Message.content_eq] at heq
  rcases List.append_eq_append_iff.mp heq with ⟨middle, hshared, hbody⟩ | ⟨middle, hshared, hbody⟩
  · obtain ⟨tail, htail, hmiddle⟩ := Utf8.exists_of_flatMap_append_eq hshared.symm
    rcases eq_or_extends_of_append_eq htail.symm with ⟨rfl, rfl, rfl⟩ | hextends
    · left
      rw [hmiddle] at hbody
      exact congrArg (Message.mk id timestamp) hbody
    · exact .inr (.inl hextends)
  · obtain ⟨tail, htail, hmiddle⟩ := Utf8.exists_of_flatMap_append_eq hshared.symm
    rcases eq_or_extends_of_append_eq htail.symm with ⟨rfl, rfl, rfl⟩ | hextends
    · left
      rw [hmiddle] at hbody
      exact congrArg (Message.mk id' timestamp') hbody.symm
    · exact .inr (.inr hextends)

/-- An id that goes on with a timestamp shares a content with the other one. -/
theorem exists_content_eq {id other : List Char} (hextends : Extends id other) :
    ∃ message message' : Message, message.id = id ∧ message'.id = other ∧ message ≠ message' ∧
      message.content = message'.content := by
  obtain ⟨timestamp, tail, htail⟩ := hextends
  refine ⟨⟨id, 0, []⟩, ⟨other, timestamp, ofText (tail ++ ['0', '.'])⟩, rfl, rfl, ?_, ?_⟩
  · intro hsame
    obtain rfl : id = other := congrArg Message.id hsame
    have hlength := congrArg List.length htail
    simp only [signedPrefix, List.length_append, List.length_cons] at hlength
    omega
  · have hzero : timestampText 0 = ['0'] := by decide
    calc Message.content ⟨id, 0, []⟩ = ofText ((id ++ ['.']) ++ ['0', '.']) := by
          simp [Message.content_eq, signedPrefix, hzero]
      _ = ofText (signedPrefix other timestamp ++ tail ++ ['0', '.']) := by rw [htail]
      _ = ofText (signedPrefix other timestamp) ++ ofText (tail ++ ['0', '.']) := by
          rw [List.append_assoc, ofText_append]

/-- An id without dots goes on with nothing. -/
theorem not_extends_of_notMem {id : List Char} (hdotless : '.' ∉ id) (other : List Char) :
    ¬Extends id other := by
  intro ⟨timestamp, tail, htail⟩
  have hcount := congrArg (List.count '.') htail
  simp only [signedPrefix, List.count_append, List.count_cons_self, List.count_nil,
    List.count_eq_zero.mpr hdotless] at hcount
  omega

/-! ## Signatures -/

section Signatures

variable {hmac : List UInt8 → List UInt8 → List UInt8} {base64 : Base64Engine}

/-- Among the messages with these ids, no two have one content, and a signature for one is a
signature for another only where the hash collides. -/
def Unambiguous (hmac : List UInt8 → List UInt8 → List UInt8) (base64 : Base64Engine)
    (ids : Set (List Char)) : Prop :=
  ∀ message other : Message, message.id ∈ ids → other.id ∈ ids →
    (message.content = other.content → message = other) ∧
    ∀ secret : WebhookSecret,
      verify hmac base64 secret other.content (sign hmac base64 secret message.content) = true →
      message = other ∨ (message.content ≠ other.content ∧
        hmac secret.key message.content = hmac secret.key other.content)

/-- Only the same hash is accepted. -/
theorem hmac_eq_of_verify (hbase64 : base64.RoundTrips) {secret : WebhookSecret}
    {content content' : List UInt8}
    (hverify : verify hmac base64 secret content' (sign hmac base64 secret content) = true) :
    hmac secret.key content = hmac secret.key content' := by
  have hsign := (verify_iff hbase64 secret content' _).mp hverify
  rw [sign, sign] at hsign
  have hdecode := congrArg base64.decode hsign
  rw [hbase64.decode_encode, hbase64.decode_encode] at hdecode
  exact Option.some.inj hdecode

/-- A signature is for one message exactly when no id goes on with a timestamp where another
one ends. -/
theorem unambiguous_iff (hbase64 : base64.RoundTrips) (ids : Set (List Char)) :
    Unambiguous hmac base64 ids ↔ ∀ id ∈ ids, ∀ other ∈ ids, ¬Extends id other := by
  constructor
  · intro hunambiguous id hid other hother hextends
    obtain ⟨message, message', rfl, rfl, hne, hcontent⟩ := exists_content_eq hextends
    exact hne ((hunambiguous message message' hid hother).1 hcontent)
  · intro hids message other hmessage hother
    have hsame : message.content = other.content → message = other := by
      intro hcontent
      rcases Message.eq_or_extends hcontent with heq | hextends | hextends
      · exact heq
      · exact absurd hextends (hids _ hother _ hmessage)
      · exact absurd hextends (hids _ hmessage _ hother)
    refine ⟨hsame, fun secret hverify => ?_⟩
    by_cases hcontent : message.content = other.content
    · exact .inl (hsame hcontent)
    · exact .inr ⟨hcontent, hmac_eq_of_verify hbase64 hverify⟩

end Signatures

/-- A hash without collisions. -/
def joinHmac (key content : List UInt8) : List UInt8 := key ++ content

/-- Ids such as `msg_01HXYZ` can be used together. -/
theorem unambiguous_dotless : Unambiguous joinHmac standardEngine {id | '.' ∉ id} :=
  (unambiguous_iff standardEngine_roundTrips _).mpr fun _ hid other _ =>
    not_extends_of_notMem hid other

def earlierMessage : Message := ⟨"a".toList, 1000, ofText "1300.b".toList⟩

def laterMessage : Message := ⟨"a.1000".toList, 1300, ofText "b".toList⟩

/-- What was signed at the second 1000 is accepted five minutes later, as another message. -/
theorem verifyHeaders_laterMessage :
    (signHeaders joinHmac standardEngine [oneSecret] earlierMessage.id earlierMessage.timestamp
        earlierMessage.body).map SignedHeaders.webhookSignature =
      some "v1,AWEuMTAwMC4xMzAwLmI=".toList ∧
      verifyHeaders joinHmac standardEngine 1300 [oneSecret]
        [("webhook-id", ofText "a.1000".toList), ("webhook-timestamp", ofText "1300".toList),
          ("webhook-signature", ofText "v1,AWEuMTAwMC4xMzAwLmI=".toList)]
        laterMessage.body 0 = .ok () ∧
      ¬Unambiguous joinHmac standardEngine Set.univ := by
  refine ⟨?_, ?_, ?_⟩
  · decide +kernel
  · decide +kernel
  · intro hunambiguous
    have hsame := (hunambiguous earlierMessage laterMessage trivial trivial).1 (by decide)
    exact absurd hsame (by decide)

end Modo.Webhook
