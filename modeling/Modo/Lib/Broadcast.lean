import Mathlib.Data.List.Basic

/-!
# Broadcast channels

A channel retains the last `capacity` values that were sent, and a reader is a position in
all of them.  A reader that is more than `capacity` values behind finds that its value is
gone: it is told how many it missed and goes on with the oldest value that is retained.

`Accounts` says what a reader learns of the values from its first position on: each value
once and in order, or the number of those it missed.  `Carries.recv_eq` is one reading in
terms of all values that were sent.
-/

namespace Broadcast

variable {T : Type*} {capacity : ℕ}

/-- The last `capacity` of `tail` values. -/
structure Channel (T : Type*) (capacity : ℕ) where
  retained : List T
  tail : ℕ
  history : ∃ sent : List T, sent.length = tail ∧ retained = sent.drop (tail - capacity)

/-- What a reader is given. -/
inductive Received (T : Type*) where
  | item (value : T)
  | lagged (missed : ℕ)
  | empty
  deriving DecidableEq

namespace Channel

/-- The values that were sent. -/
def Carries (channel : Channel T capacity) (sent : List T) : Prop :=
  channel.tail = sent.length ∧ channel.retained = sent.drop (sent.length - capacity)

/-- No value was sent. -/
def new : Channel T capacity := ⟨[], 0, [], rfl, (List.drop_nil).symm⟩

theorem drop_push {retained sent : List T} (value : T)
    (hretained : retained = sent.drop (sent.length - capacity)) :
    (retained ++ [value]).drop (retained.length + 1 - capacity) =
      (sent ++ [value]).drop ((sent ++ [value]).length - capacity) := by
  have hjoin : retained ++ [value] = (sent ++ [value]).drop (sent.length - capacity) := by
    rw [hretained, List.drop_append_of_le_length (by omega)]
  have hlength : retained.length = sent.length - (sent.length - capacity) := by
    rw [hretained, List.length_drop]
  rw [hjoin, List.drop_drop, List.length_append, List.length_singleton]
  congr 1
  omega

theorem push_history (channel : Channel T capacity) (value : T) :
    ∃ sent : List T, sent.length = channel.tail + 1 ∧
      (channel.retained ++ [value]).drop (channel.retained.length + 1 - capacity) =
        sent.drop (channel.tail + 1 - capacity) := by
  obtain ⟨sent, htail, hretained⟩ := channel.history
  refine ⟨sent ++ [value], by simp [htail], ?_⟩
  rw [drop_push value (htail ▸ hretained), List.length_append, List.length_singleton, htail]

/-- A value is sent, and the oldest one goes when there is no room. -/
def push (channel : Channel T capacity) (value : T) : Channel T capacity where
  retained := (channel.retained ++ [value]).drop (channel.retained.length + 1 - capacity)
  tail := channel.tail + 1
  history := channel.push_history value

/-- The position of the oldest value that is retained. -/
def oldest (channel : Channel T capacity) : ℕ := channel.tail - channel.retained.length

/-- What a reader at `next` is given, and where it is then. -/
def recv (channel : Channel T capacity) (next : ℕ) : Received T × ℕ :=
  if next < channel.oldest then (.lagged (channel.oldest - next), channel.oldest)
  else
    match channel.retained[next - channel.oldest]? with
    | some value => (.item value, next + 1)
    | none => (.empty, next)

theorem carries_new : (new : Channel T capacity).Carries [] :=
  ⟨rfl, (List.drop_nil).symm⟩

theorem exists_carries (channel : Channel T capacity) : ∃ sent, channel.Carries sent := by
  obtain ⟨sent, htail, hretained⟩ := channel.history
  exact ⟨sent, htail.symm, htail ▸ hretained⟩

theorem Carries.push {channel : Channel T capacity} {sent : List T}
    (hcarries : channel.Carries sent) (value : T) :
    (channel.push value).Carries (sent ++ [value]) := by
  obtain ⟨htail, hretained⟩ := hcarries
  exact ⟨by simp [Channel.push, htail], drop_push value hretained⟩

theorem Carries.oldest_eq {channel : Channel T capacity} {sent : List T}
    (hcarries : channel.Carries sent) : channel.oldest = sent.length - capacity := by
  obtain ⟨htail, hretained⟩ := hcarries
  rw [oldest, htail, hretained, List.length_drop]
  omega

/-- A reader in terms of all values. -/
theorem Carries.recv_eq {channel : Channel T capacity} {sent : List T}
    (hcarries : channel.Carries sent) (next : ℕ) :
    channel.recv next =
      if next + capacity < sent.length then
        (.lagged (sent.length - capacity - next), sent.length - capacity)
      else
        match sent[next]? with
        | some value => (.item value, next + 1)
        | none => (.empty, next) := by
  rw [recv, hcarries.oldest_eq]
  by_cases hlag : next < sent.length - capacity
  · rw [if_pos hlag, if_pos (by omega)]
  · rw [if_neg hlag, if_neg (by omega), hcarries.2, List.getElem?_drop]
    have hindex : sent.length - capacity + (next - (sent.length - capacity)) = next := by omega
    rw [hindex]

end Channel

/-! ## What a reader learns -/

/-- `outcomes` tells all of `values` in their order: a value itself, or how many were
missed. -/
inductive Accounts : List T → List (Except ℕ T) → Prop where
  | nil : Accounts [] []
  | item {values : List T} {outcomes : List (Except ℕ T)} (value : T)
      (hbefore : Accounts values outcomes) :
      Accounts (values ++ [value]) (outcomes ++ [.ok value])
  | missed {values : List T} {outcomes : List (Except ℕ T)} (lost : List T) (hlost : lost ≠ [])
      (hbefore : Accounts values outcomes) :
      Accounts (values ++ lost) (outcomes ++ [.error lost.length])

/-- An outcome that is a value. -/
def isItem (outcome : Except ℕ T) : Bool := outcome.toBool

end Broadcast
