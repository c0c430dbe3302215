import Mathlib.Algebra.BigOperators.Fin
import Mathlib.Algebra.Order.Floor.Ring
import Mathlib.Data.Rat.Floor
import Modo.Lib.HashMap

/-!
# The rate limiter

A key has a bucket of at most `burst` tokens, refilled by `perSecond` tokens a
second; a check takes a token or is rejected with the time until there is one.
The buckets are kept in a number of shards, each behind its own lock, and a key
belongs to the shard its hash selects.  Tokens and times are exact: instants are
seconds on the monotone clock.

`checkOrInsert` is what a call does when no other call runs between its sections;
the sections (`containsKey`, `checkFound`, `total`, `checkOrNew`) are definitions
of their own, since other calls may run between them.
-/

namespace Modo.RateLimit

/-! ## Token buckets -/

structure TokenBucket where
  tokens : ℚ
  lastRefill : ℚ
  deriving DecidableEq

inductive CheckResult where
  | allowed (remaining : ℕ)
  | rejected (retryAfterSecs : ℚ)
  deriving DecidableEq

def CheckResult.isAllowed : CheckResult → Bool
  | allowed _ => true
  | rejected _ => false

/-- `Instant::duration_since`, zero for a later instant. -/
def durationSince (now earlier : ℚ) : ℚ := max (now - earlier) 0

namespace TokenBucket

def new (burst : ℕ) (now : ℚ) : TokenBucket := ⟨burst, now⟩

/-- The tokens after a refill. -/
def refilled (perSecond burst : ℕ) (now : ℚ) (bucket : TokenBucket) : ℚ :=
  min (bucket.tokens + durationSince now bucket.lastRefill * perSecond) burst

def check (perSecond burst : ℕ) (now : ℚ) (bucket : TokenBucket) : CheckResult × TokenBucket :=
  let tokens := bucket.refilled perSecond burst now
  if 1 ≤ tokens then (.allowed ⌊tokens - 1⌋₊, ⟨tokens - 1, now⟩)
  else (.rejected ((1 - tokens) / perSecond), ⟨tokens, now⟩)

end TokenBucket

/-! ## The sharded map -/

/-- The shards. -/
abbrev ShardedMap (n : ℕ) := Fin n → HashMap String TokenBucket

/-- The parameters of a limiter; `hash` is the value of the hasher on a key. -/
structure Limiter (n : ℕ) where
  hash : String → ℕ
  perSecond : ℕ
  burst : ℕ
  maxKeys : ℕ

section Sections

variable {n : ℕ} [NeZero n] (limiter : Limiter n)

/-- `shard_index`. -/
def Limiter.shardIndex (key : String) : Fin n := Fin.ofNat n (limiter.hash key)

/-- The bucket of a key. -/
def Limiter.bucket (key : String) (map : ShardedMap n) : Option TokenBucket :=
  (map (limiter.shardIndex key)).lookup key

/-- Put a bucket under a key. -/
def Limiter.insert (key : String) (bucket : TokenBucket) (map : ShardedMap n) : ShardedMap n :=
  Function.update map (limiter.shardIndex key)
    ((map (limiter.shardIndex key)).insert key bucket)

/-- The read section of the fast path. -/
def Limiter.containsKey (key : String) (map : ShardedMap n) : Bool :=
  decide (key ∈ map (limiter.shardIndex key))

/-- The check of a bucket, written back. -/
def Limiter.checkBucket (key : String) (bucket : TokenBucket) (now : ℚ) (map : ShardedMap n) :
    CheckResult × ShardedMap n :=
  let (result, next) := bucket.check limiter.perSecond limiter.burst now
  (result, limiter.insert key next map)

/-- The write section of the fast path: the key may be gone by then. -/
def Limiter.checkFound (key : String) (now : ℚ) (map : ShardedMap n) :
    Option (CheckResult × ShardedMap n) :=
  (limiter.bucket key map).map fun bucket => limiter.checkBucket key bucket now map

/-- The tracked keys of all shards. -/
def total (map : ShardedMap n) : ℕ := ∑ i, (map i).len

/-- The write section for a key that was not found: it may be there by then.  A
new bucket is made at `born` and checked at `now`. -/
def Limiter.checkOrNew (key : String) (born now : ℚ) (map : ShardedMap n) :
    CheckResult × ShardedMap n :=
  limiter.checkBucket key ((limiter.bucket key map).getD (.new limiter.burst born)) now map

/-- The cap on the number of keys turns a new key away. -/
def Limiter.full (map : ShardedMap n) : Bool :=
  decide (0 < limiter.maxKeys ∧ limiter.maxKeys ≤ total map)

/-- `check_or_insert`, without other calls between its sections. -/
def Limiter.checkOrInsert (key : String) (born now : ℚ) (map : ShardedMap n) :
    CheckResult × ShardedMap n :=
  match if limiter.containsKey key map then limiter.checkFound key now map else none with
  | some out => out
  | none =>
      if limiter.full map then (.rejected 1, map)
      else limiter.checkOrNew key born now map

/-- The idle time after which a bucket is dropped. -/
def Limiter.maxIdle : ℚ :=
  if 0 < limiter.perSecond then limiter.burst / limiter.perSecond else 3600

/-- One shard of a cleanup. -/
def Limiter.retainRecent (now : ℚ) (shard : HashMap String TokenBucket) :
    HashMap String TokenBucket :=
  shard.retain fun _ bucket => decide (durationSince now bucket.lastRefill < limiter.maxIdle)

def Limiter.cleanup (now : ℚ) (map : ShardedMap n) : ShardedMap n :=
  fun i => limiter.retainRecent now (map i)

end Sections

/-! ## What the sections do -/

section Lemmas

variable {n : ℕ} [NeZero n] {limiter : Limiter n} {map : ShardedMap n} {key : String}

/-- A key that is tracked is checked, and one that is not is turned away or gets a
new bucket. -/
theorem checkOrInsert_eq (limiter : Limiter n) (key : String) (born now : ℚ)
    (map : ShardedMap n) :
    limiter.checkOrInsert key born now map =
      match limiter.bucket key map with
      | some bucket => limiter.checkBucket key bucket now map
      | none =>
          if limiter.full map then (.rejected 1, map)
          else limiter.checkBucket key (.new limiter.burst born) now map := by
  unfold Limiter.checkOrInsert Limiter.checkFound Limiter.checkOrNew Limiter.containsKey
  cases hbucket : limiter.bucket key map with
  | none => simp
  | some bucket =>
      have hmem : key ∈ map (limiter.shardIndex key) := by
        rw [← AList.lookup_isSome]
        exact Option.isSome_iff_exists.mpr ⟨bucket, hbucket⟩
      simp [hmem]

theorem bucket_insert (limiter : Limiter n) (key other : String) (bucket : TokenBucket)
    (map : ShardedMap n) :
    limiter.bucket other (limiter.insert key bucket map) =
      if other = key then some bucket else limiter.bucket other map := by
  unfold Limiter.bucket Limiter.insert
  by_cases hshard : limiter.shardIndex other = limiter.shardIndex key
  · rw [hshard, Function.update_self, AList.lookup_insert_eq]
  · have hother : other ≠ key := fun heq => hshard (heq ▸ rfl)
    rw [Function.update_of_ne hshard, if_neg hother]

theorem bucket_cleanup (limiter : Limiter n) (key : String) (now : ℚ) (map : ShardedMap n) :
    limiter.bucket key (limiter.cleanup now map) =
      (limiter.bucket key map).filter fun bucket =>
        decide (durationSince now bucket.lastRefill < limiter.maxIdle) := by
  unfold Limiter.bucket Limiter.cleanup Limiter.retainRecent
  rw [AList.lookup_retain]

@[simp] theorem bucket_empty (limiter : Limiter n) (key : String) :
    limiter.bucket key (fun _ => ∅) = none := rfl

end Lemmas

end Modo.RateLimit
