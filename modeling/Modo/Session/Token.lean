import Modo.Encoding.Digest

/-!
# Session tokens

A session token is 32 random bytes.  The client carries its hex text, in the
session cookie or as the `jti` of its tokens, and the table its SHA-256 hash.
The hash function comes from a crate, so it is a parameter wherever a token is
hashed.
-/

namespace Modo.Sessions

/-- `SessionToken`. -/
structure SessionToken where
  bytes : List UInt8
  length_eq : bytes.length = 32
  deriving DecidableEq

namespace SessionToken

/-- `as_hex`, and `expose`. -/
def asHex (token : SessionToken) : List Char := Hex.encode token.bytes

/-- `from_hex(..).ok()`, and `from_raw`. -/
def fromHex (text : List Char) : Option SessionToken :=
  if hlength : text.length = 64 then
    match hdecode : Hex.decodePairs text with
    | none => none
    | some bytes => some ⟨bytes, by have := Hex.length_of_decodePairs hdecode; omega⟩
  else none

/-- `hash`: the hex text of the SHA-256 digest of the bytes. -/
def hash (sha256 : List UInt8 → String) (token : SessionToken) : String := sha256 token.bytes

theorem fromHex_asHex (token : SessionToken) : fromHex token.asHex = some token := by
  have hlength : token.asHex.length = 64 := by
    rw [asHex, Hex.length_encode, token.length_eq]
  unfold fromHex
  rw [dif_pos hlength]
  split
  · rename_i hnone
    rw [asHex, Hex.decodePairs_encode] at hnone
    cases hnone
  · rename_i bytes hsome
    rw [asHex, Hex.decodePairs_encode, Option.some.injEq] at hsome
    simp only [Option.some.injEq]
    cases token
    subst hsome
    rfl

/-- The text of a removed cookie is no token. -/
theorem fromHex_nil : fromHex [] = none := rfl

end SessionToken

/-! ## A sample hash function

The concrete runs of the development use four tokens.  `sampleSha256` has the
digests SHA-256 has for them, and gives every other token a text of its own. -/

/-- Four tokens, each of one repeated byte. -/
def sampleToken (byte : UInt8) : SessionToken := ⟨List.replicate 32 byte, List.length_replicate⟩

/-- Their SHA-256 digests. -/
def sampleDigests : List (List UInt8 × String) :=
  [(List.replicate 32 0, "66687aadf862bd776c8fc18b8e9f8e20089714856ee233b3902a591d0d5f2925"),
   (List.replicate 32 1, "72cd6e8422c407fb6d098690f1130b7ded7ec2f7f5e1d30bd9d521f015363793"),
   (List.replicate 32 2, "75877bb41d393b5fb8455ce60ecd8dda001d06316496b14dfa7f895656eeca4a"),
   (List.replicate 32 3, "648aa5c579fb30f38af744d97d6ec840c7a91277a499a0d780f3e7314eca090b")]

/-- SHA-256 on the sample tokens. -/
def sampleSha256 (bytes : List UInt8) : String :=
  match sampleDigests.find? fun entry => decide (entry.1 = bytes) with
  | some entry => entry.2
  | none => String.ofList ('-' :: Hex.encode bytes)

theorem sampleDigests_separates : Separates sampleDigests :=
  ⟨by decide +kernel, by decide +kernel⟩

theorem sampleSha256_injective : Function.Injective sampleSha256 :=
  digestWith_injective sampleDigests_separates

theorem sampleHash_injective : Function.Injective (SessionToken.hash sampleSha256) := by
  rintro ⟨a, ha⟩ ⟨b, hb⟩ heq
  have hsame : a = b := sampleSha256_injective heq
  subst hsame
  rfl

end Modo.Sessions
