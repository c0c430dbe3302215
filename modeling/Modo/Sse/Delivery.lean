import Mathlib.Algebra.Group.Nat.Defs
import Mathlib.Data.List.TakeWhile
import Modo.Lib.Broadcast
import Modo.Lib.HashMap
import Modo.Lib.Machine

/-!
# Delivery of messages to the streams

`Modo.Sse.Broadcaster` follows the map of channels.  Here the channels carry messages and
the streams are polled, while other tasks send, subscribe, remove and drop in any order.

A stream ends when its channel is closed or when it lags under `LagPolicy::End`; it then
drops its receiver, which is no longer counted, but the cleanup runs when the stream itself
is dropped.

`delivery_accounts` says what a consumer gets in any run: the messages that were sent to its key
since it subscribed, until the key was removed, each once and in order, or the number of those it
missed.  It misses one only if it is polled when more messages wait for it than the channel retains.
-/

namespace Modo.Sse.Delivery

open Broadcast

variable {K T : Type*} [DecidableEq K] {buffer : ℕ}

/-- `LagPolicy`. -/
inductive LagPolicy where
  | end_
  | skip
  deriving DecidableEq

/-- What a turn of the loop in a stream comes to; `again` is its `continue`. -/
inductive Polled (T : Type*) where
  | ready (outcome : Except ℕ T)
  | again
  | done
  deriving DecidableEq

/-- What a turn of `unfold_default` gave. -/
def Polled.outcome : Polled T → Option (Except ℕ T)
  | .ready outcome => some outcome
  | .again => none
  | .done => none

/-- A stream with the position of its receiver, as long as it holds one, what the receiver gave,
each with the policies it met, and what its consumer got. -/
structure BroadcastStream (K T : Type*) where
  key : K
  channel : ℕ
  /-- The calls of `on_lag`, the first one first. -/
  policies : List LagPolicy
  receiver : Option ℕ
  dropped : Bool
  given : List (List LagPolicy × Except ℕ T)
  yielded : List (Except ℕ T)

/-- The capacity `broadcast::channel` makes of `buffer`: the next power of two. -/
def slots (buffer : ℕ) : ℕ := if buffer ≤ 1 then 1 else 2 ^ ((buffer - 1).log2 + 1)

/-- The map of channels, and all channels and streams in the order they were made. -/
structure Broadcaster (K T : Type*) (buffer : ℕ) where
  channels : HashMap K ℕ
  contents : List (Channel T (slots buffer))
  streams : List (BroadcastStream K T)

/-- `unfold_default`, with the position of the receiver; none while there is nothing to
receive. -/
def unfoldDefault {capacity : ℕ} (channel : Channel T capacity) (closed : Bool) (next : ℕ) :
    Option (Polled T × ℕ) :=
  match channel.recv next with
  | (.item value, next) => some (.ready (.ok value), next)
  | (.lagged missed, next) => some (.ready (.error missed), next)
  | (.empty, next) => if closed then some (.done, next) else none

/-- `apply_lag_policy`. -/
def applyLagPolicy (policy : LagPolicy) : Polled T → Polled T
  | .ready (.ok item) => .ready (.ok item)
  | .ready (.error _) =>
      match policy with
      | .end_ => .done
      | .skip => .again
      -- an error that is no lag does not come up: `unfold_default` makes no other
  | .again => .again
  | .done => .done

/-- The policies of a stream around each other. -/
def applyLagPolicies (policies : List LagPolicy) (polled : Polled T) : Polled T :=
  policies.foldl (fun polled policy => applyLagPolicy policy polled) polled

/-- What a turn does to the stream: an inner stream that is done is dropped with its
receiver. -/
def BroadcastStream.advance (stream : BroadcastStream K T) (polled : Polled T) (next : ℕ) :
    BroadcastStream K T :=
  let given := stream.given ++ polled.outcome.toList.map fun outcome => (stream.policies, outcome)
  match applyLagPolicies stream.policies polled with
  | .ready outcome =>
      { stream with
        receiver := some next, given := given, yielded := stream.yielded ++ [outcome] }
  | .again => { stream with receiver := some next, given := given }
  | .done => { stream with receiver := none, given := given }

namespace Broadcaster

variable (bc : Broadcaster K T buffer)

def new : Broadcaster K T buffer := ⟨∅, [], []⟩

/-- `receiver_count` of a channel. -/
def receiverCount (channel : ℕ) : ℕ :=
  bc.streams.countP fun stream => decide (stream.channel = channel) && stream.receiver.isSome

/-- Take the entry of a key out of the map if its channel has no receiver. -/
def removeIdle (key : K) : Broadcaster K T buffer :=
  match bc.channels.lookup key with
  | some channel =>
      if bc.receiverCount channel = 0 then { bc with channels := bc.channels.erase key } else bc
  | none => bc

/-- A stream of a channel, whose receiver stands behind all messages. -/
def attach (key : K) (channel next : ℕ) : Broadcaster K T buffer :=
  { bc with streams := bc.streams ++ [⟨key, channel, [], some next, false, [], []⟩] }

/-- `subscribe`. -/
def subscribe (key : K) : Broadcaster K T buffer :=
  match bc.channels.lookup key with
  | some channel => bc.attach key channel ((bc.contents[channel]?).elim 0 Channel.tail)
  | none =>
      attach { bc with
        channels := bc.channels.insert key bc.contents.length
        contents := bc.contents ++ [Channel.new] } key bc.contents.length 0

/-- `on_lag`, at any time before the stream is dropped. -/
def onLag (number : ℕ) (policy : LagPolicy) : Option (Broadcaster K T buffer) :=
  (bc.streams[number]?).bind fun stream =>
    if stream.dropped then none
    else
      some { bc with
        streams := bc.streams.set number { stream with policies := stream.policies ++ [policy] } }

/-- `send`: the sender refuses a message that has no receiver. -/
def send (key : K) (event : T) : ℕ × Broadcaster K T buffer :=
  match bc.channels.lookup key with
  | some channel =>
      if bc.receiverCount channel = 0 then (0, bc.removeIdle key)
      else (bc.receiverCount channel,
        { bc with contents := bc.contents.modify channel fun content => content.push event })
  | none => (0, bc)

def remove (key : K) : Broadcaster K T buffer :=
  { bc with channels := bc.channels.erase key }

/-- The sender of a channel is in the map and nowhere else. -/
def isClosed (channel : ℕ) : Bool :=
  bc.channels.entries.all fun entry => decide (entry.2 ≠ channel)

/-- One turn of the loop in `poll_next`. -/
def poll (number : ℕ) : Option (Broadcaster K T buffer) :=
  (bc.streams[number]?).bind fun stream =>
    stream.receiver.bind fun next =>
      (bc.contents[stream.channel]?).map fun content =>
        match unfoldDefault content (bc.isClosed stream.channel) next with
        | some (polled, next) =>
            { bc with streams := bc.streams.set number (stream.advance polled next) }
        | none => bc

/-- `BroadcastStream::drop` runs before the fields are dropped. -/
def drop (number : ℕ) : Option (Broadcaster K T buffer) :=
  (bc.streams[number]?).bind fun stream =>
    if stream.dropped then none
    else
      some { bc.removeIdle stream.key with
        streams := bc.streams.set number { stream with receiver := none, dropped := true } }

/-- How many messages wait for a stream. -/
def behind (number : ℕ) : ℕ :=
  ((bc.streams[number]?).bind fun stream =>
    stream.receiver.bind fun next =>
      (bc.contents[stream.channel]?).map fun content => content.tail - next).getD 0

end Broadcaster

/-! ## Runs -/

inductive Action (K T : Type*) where
  | subscribe (key : K)
  | onLag (number : ℕ) (policy : LagPolicy)
  | send (key : K) (event : T)
  | poll (number : ℕ)
  | remove (key : K)
  | drop (number : ℕ)

/-- One step.  `broadcast::channel` panics where it cannot make the capacity. -/
def step (bc : Broadcaster K T buffer) : Action K T → Option (Broadcaster K T buffer)
  | .subscribe key => if 0 < buffer ∧ buffer < 2 ^ 63 then some (bc.subscribe key) else none
  | .onLag number policy => bc.onLag number policy
  | .send key event => some (bc.send key event).2
  | .poll number => bc.poll number
  | .remove key => some (bc.remove key)
  | .drop number => bc.drop number

/-- The message that an action sends to a key. -/
def sentBy (key : K) : Action K T → List T
  | .send other event => if other = key then [event] else []
  | _ => []

/-- The action removes the key. -/
def removes (key : K) : Action K T → Bool
  | .remove other => decide (other = key)
  | _ => false

/-- The messages that a run sends to a key until it removes the key. -/
def sentTo (key : K) (actions : List (Action K T)) : List T :=
  (actions.takeWhile fun action => !removes key action).flatMap (sentBy key)

/-- What the consumer sees of what its receiver gave: the first policy that was set decides on a
lag. -/
def seen : List (List LagPolicy × Except ℕ T) → List (Except ℕ T)
  | [] => []
  | (_, .ok item) :: rest => .ok item :: seen rest
  | ([], .error missed) :: rest => .error missed :: seen rest
  | (.skip :: _, .error _) :: rest => seen rest
  | (.end_ :: _, .error _) :: _ => []

/-- The stream is not polled when more messages wait than the channel retains. -/
def KeepsUp (number : ℕ) (bc : Broadcaster K T buffer) : Action K T → Prop
  | .poll other => other = number → bc.behind number ≤ slots buffer
  | _ => True

/-! ## Policies -/

theorem applyLagPolicies_done (policies : List LagPolicy) :
    applyLagPolicies policies (.done : Polled T) = .done := by
  induction policies with
  | nil => rfl
  | cons policy rest ih => exact ih

theorem applyLagPolicies_again (policies : List LagPolicy) :
    applyLagPolicies policies (.again : Polled T) = .again := by
  induction policies with
  | nil => rfl
  | cons policy rest ih => exact ih

theorem applyLagPolicies_ok (policies : List LagPolicy) (item : T) :
    applyLagPolicies policies (.ready (.ok item)) = .ready (.ok item) := by
  induction policies with
  | nil => rfl
  | cons policy rest ih => exact ih

/-- Only the first policy meets a lag. -/
theorem applyLagPolicies_error (policies : List LagPolicy) (missed : ℕ) :
    applyLagPolicies policies (.ready (.error missed) : Polled T) =
      match policies with
      | [] => .ready (.error missed)
      | .end_ :: _ => .done
      | .skip :: _ => .again := by
  cases policies with
  | nil => rfl
  | cons policy rest =>
      cases policy with
      | end_ => exact applyLagPolicies_done rest
      | skip => exact applyLagPolicies_again rest

/-- The stream has ended with this. -/
def endsStream : List LagPolicy × Except ℕ T → Bool
  | (.end_ :: _, .error _) => true
  | _ => false

/-- Until the stream has ended, its consumer sees what else comes. -/
theorem seen_append {given : List (List LagPolicy × Except ℕ T)}
    (hgiven : ∀ entry ∈ given, endsStream entry = false)
    (later : List (List LagPolicy × Except ℕ T)) :
    seen (given ++ later) = seen given ++ seen later := by
  induction given with
  | nil => rfl
  | cons entry given ih =>
      rw [List.forall_mem_cons] at hgiven
      obtain ⟨hentry, hgiven⟩ := hgiven
      rcases entry with ⟨_ | ⟨_ | _, policies⟩, missed | item⟩
      · exact congrArg (Except.error missed :: ·) (ih hgiven)
      · exact congrArg (Except.ok item :: ·) (ih hgiven)
      · cases hentry
      · exact congrArg (Except.ok item :: ·) (ih hgiven)
      · exact ih hgiven
      · exact congrArg (Except.ok item :: ·) (ih hgiven)

omit [DecidableEq K] in
/-- A turn that gave something, to a stream that has not ended. -/
theorem advance_ready (stream : BroadcastStream K T) (outcome : Except ℕ T) (next : ℕ) :
    stream.advance (.ready outcome) next =
      { stream with
        receiver := if endsStream (stream.policies, outcome) then none else some next
        given := stream.given ++ [(stream.policies, outcome)]
        yielded := stream.yielded ++ seen [(stream.policies, outcome)] } := by
  cases outcome with
  | ok item =>
      rw [BroadcastStream.advance, applyLagPolicies_ok]
      cases stream.policies with
      | nil => rfl
      | cons policy rest => cases policy <;> rfl
  | error missed =>
      rw [BroadcastStream.advance, applyLagPolicies_error]
      rcases stream with ⟨_, _, _ | ⟨_ | _, policies⟩, _, _, _, _⟩
      · rfl
      · simp [Polled.outcome, endsStream, seen]
      · simp [Polled.outcome, endsStream, seen]

/-! ## Channels of their own -/

/-- Each entry has its own channel. -/
structure Numbered (bc : Broadcaster K T buffer) : Prop where
  channel_lt : ∀ key channel, bc.channels.lookup key = some channel → channel < bc.contents.length
  inj : ∀ key other channel, bc.channels.lookup key = some channel →
    bc.channels.lookup other = some channel → key = other

section Operations

variable {bc : Broadcaster K T buffer}

/-- Fewer entries. -/
theorem Numbered.mono {bc' : Broadcaster K T buffer} (hnumbered : Numbered bc)
    (hchannels : ∀ key channel, bc'.channels.lookup key = some channel →
      bc.channels.lookup key = some channel)
    (hlength : bc.contents.length ≤ bc'.contents.length) : Numbered bc' := by
  constructor
  · intro key channel hlookup
    exact lt_of_lt_of_le (hnumbered.channel_lt key channel (hchannels key channel hlookup)) hlength
  · intro key other channel hlookup hother
    exact hnumbered.inj key other channel (hchannels _ _ hlookup) (hchannels _ _ hother)

theorem lookup_of_removeIdle {key other : K} {channel : ℕ}
    (hlookup : (bc.removeIdle key).channels.lookup other = some channel) :
    bc.channels.lookup other = some channel := by
  unfold Broadcaster.removeIdle at hlookup
  split at hlookup
  · split at hlookup
    · rw [AList.lookup_erase_eq] at hlookup
      split at hlookup
      · cases hlookup
      · exact hlookup
    · exact hlookup
  · exact hlookup

@[simp] theorem removeIdle_contents (key : K) : (bc.removeIdle key).contents = bc.contents := by
  unfold Broadcaster.removeIdle
  split
  · split <;> rfl
  · rfl

@[simp] theorem removeIdle_streams (key : K) : (bc.removeIdle key).streams = bc.streams := by
  unfold Broadcaster.removeIdle
  split
  · split <;> rfl
  · rfl

/-- A channel with a receiver keeps its entry. -/
theorem lookup_removeIdle {key other : K} {channel : ℕ}
    (hlookup : bc.channels.lookup other = some channel)
    (hstream : ∃ stream ∈ bc.streams, stream.channel = channel ∧ stream.receiver ≠ none) :
    (bc.removeIdle key).channels.lookup other = some channel := by
  unfold Broadcaster.removeIdle
  split
  · rename_i found hfound
    split
    · rename_i hzero
      have hother : other ≠ key := by
        rintro rfl
        rw [hfound, Option.some.injEq] at hlookup
        obtain ⟨stream, hmem, hchannel, hreceiver⟩ := hstream
        have hnot := List.countP_eq_zero.mp hzero stream hmem
        rw [hlookup, hchannel, decide_eq_true rfl, Bool.true_and] at hnot
        exact hnot (Option.isSome_iff_ne_none.mpr hreceiver)
      rw [AList.lookup_erase_eq, if_neg hother]
      exact hlookup
    · exact hlookup
  · exact hlookup

theorem lookup_of_remove {key other : K} {channel : ℕ}
    (hlookup : (bc.remove key).channels.lookup other = some channel) :
    bc.channels.lookup other = some channel := by
  rw [Broadcaster.remove, AList.lookup_erase_eq] at hlookup
  split at hlookup
  · cases hlookup
  · exact hlookup

/-- What a `send` leaves of the map. -/
theorem lookup_of_send {key other : K} {event : T} {channel : ℕ}
    (hlookup : (bc.send key event).2.channels.lookup other = some channel) :
    bc.channels.lookup other = some channel := by
  unfold Broadcaster.send at hlookup
  split at hlookup
  · split at hlookup
    · exact lookup_of_removeIdle hlookup
    · exact hlookup
  · exact hlookup

theorem length_send (key : K) (event : T) :
    (bc.send key event).2.contents.length = bc.contents.length := by
  unfold Broadcaster.send
  split
  · split
    · exact congrArg List.length (removeIdle_contents key)
    · exact List.length_modify _ _ _
  · rfl

/-- What a `subscribe` adds to the map. -/
theorem lookup_of_subscribe {key other : K} {channel : ℕ}
    (hlookup : (bc.subscribe key).channels.lookup other = some channel) :
    bc.channels.lookup other = some channel ∨
      bc.channels.lookup key = none ∧ other = key ∧ channel = bc.contents.length := by
  unfold Broadcaster.subscribe at hlookup
  split at hlookup
  · exact Or.inl hlookup
  · rename_i hnone
    rw [Broadcaster.attach, AList.lookup_insert_eq] at hlookup
    split at hlookup
    · rename_i hkey
      exact Or.inr ⟨hnone, hkey, (Option.some.inj hlookup).symm⟩
    · exact Or.inl hlookup

theorem length_subscribe (key : K) :
    (bc.subscribe key).contents.length =
      if bc.channels.lookup key = none then bc.contents.length + 1 else bc.contents.length := by
  unfold Broadcaster.subscribe
  split
  · rename_i hsome
    rw [if_neg (by simp [hsome])]
    rfl
  · rename_i hnone
    rw [if_pos hnone]
    exact List.length_append

theorem numbered_subscribe (hnumbered : Numbered bc) (key : K) :
    Numbered (bc.subscribe key) := by
  constructor
  · intro other channel hother
    rw [length_subscribe]
    rcases lookup_of_subscribe hother with hold | ⟨hnone, -, rfl⟩
    · have hlt := hnumbered.channel_lt other channel hold
      split <;> omega
    · rw [if_pos hnone]
      exact Nat.lt_succ_self _
  · intro first second channel hfirst hsecond
    rcases lookup_of_subscribe hfirst with hold | ⟨-, rfl, rfl⟩
    · rcases lookup_of_subscribe hsecond with hold' | ⟨-, rfl, rfl⟩
      · exact hnumbered.inj first second channel hold hold'
      · exact absurd (hnumbered.channel_lt first _ hold) (lt_irrefl _)
    · rcases lookup_of_subscribe hsecond with hold' | ⟨-, rfl, -⟩
      · exact absurd (hnumbered.channel_lt second _ hold') (lt_irrefl _)
      · rfl

omit [DecidableEq K] in
/-- A turn of a stream changes at most that stream. -/
theorem poll_spec {next : Broadcaster K T buffer} {number : ℕ}
    (hpoll : bc.poll number = some next) :
    ∃ stream position content, bc.streams[number]? = some stream ∧
      stream.receiver = some position ∧ bc.contents[stream.channel]? = some content ∧
      next = match unfoldDefault content (bc.isClosed stream.channel) position with
        | some (polled, after) =>
            { bc with streams := bc.streams.set number (stream.advance polled after) }
        | none => bc := by
  obtain ⟨stream, hstream, hpoll⟩ := Option.bind_eq_some_iff.mp hpoll
  obtain ⟨position, hposition, hpoll⟩ := Option.bind_eq_some_iff.mp hpoll
  obtain ⟨content, hcontent, rfl⟩ := Option.map_eq_some_iff.mp hpoll
  exact ⟨stream, position, content, hstream, hposition, hcontent, rfl⟩

omit [DecidableEq K] in
theorem onLag_spec {next : Broadcaster K T buffer} {number : ℕ} {policy : LagPolicy}
    (honLag : bc.onLag number policy = some next) :
    ∃ stream, bc.streams[number]? = some stream ∧
      next = { bc with
        streams :=
          bc.streams.set number { stream with policies := stream.policies ++ [policy] } } := by
  obtain ⟨stream, hstream, honLag⟩ := Option.bind_eq_some_iff.mp honLag
  split at honLag
  · cases honLag
  · exact ⟨stream, hstream, (Option.some.inj honLag).symm⟩

theorem subscribe_spec {next : Broadcaster K T buffer} {key : K}
    (hstep : step bc (.subscribe key) = some next) : next = bc.subscribe key := by
  rw [step, Option.ite_none_right_eq_some] at hstep
  exact (Option.some.inj hstep.2).symm

theorem drop_spec {next : Broadcaster K T buffer} {number : ℕ}
    (hdrop : bc.drop number = some next) :
    ∃ stream, bc.streams[number]? = some stream ∧
      next = { bc.removeIdle stream.key with
        streams := bc.streams.set number { stream with receiver := none, dropped := true } } := by
  obtain ⟨stream, hstream, hdrop⟩ := Option.bind_eq_some_iff.mp hdrop
  split at hdrop
  · cases hdrop
  · exact ⟨stream, hstream, (Option.some.inj hdrop).symm⟩

theorem step_numbered {next : Broadcaster K T buffer} {action : Action K T}
    (hnumbered : Numbered bc) (hstep : step bc action = some next) : Numbered next := by
  cases action with
  | subscribe key => exact subscribe_spec hstep ▸ numbered_subscribe hnumbered key
  | onLag number policy =>
      obtain ⟨stream, -, rfl⟩ := onLag_spec hstep
      exact hnumbered.mono (fun _ _ hlookup => hlookup) le_rfl
  | send key event =>
      exact Option.some.inj hstep ▸
        hnumbered.mono (fun _ _ => lookup_of_send) (length_send key event).ge
  | poll number =>
      obtain ⟨stream, position, content, -, -, -, rfl⟩ := poll_spec hstep
      split
      · exact hnumbered.mono (fun _ _ hlookup => hlookup) le_rfl
      · exact hnumbered
  | remove key =>
      exact Option.some.inj hstep ▸ hnumbered.mono (fun _ _ => lookup_of_remove) le_rfl
  | drop number =>
      obtain ⟨stream, -, rfl⟩ := drop_spec hstep
      exact hnumbered.mono (fun _ _ => lookup_of_removeIdle) 
        (congrArg List.length (removeIdle_contents stream.key)).ge

end Operations

/-! ## One stream -/

/-- The channel of a stream is that of its key, until the key is removed, and of no key then. -/
def Attached (bc : Broadcaster K T buffer) (key : K) (channel : ℕ) (removed : Bool) : Prop :=
  if removed then ∀ other, bc.channels.lookup other ≠ some channel
  else bc.channels.lookup key = some channel

/-- What a stream was given of the messages sent to its key since it subscribed: `taken`
went by, `waiting` did not. -/
structure Serves (bc : Broadcaster K T buffer) (number : ℕ) (key : K) (removed : Bool)
    (taken waiting : List T) (stream : BroadcastStream K T) : Prop where
  stream_eq : bc.streams[number]? = some stream
  accounts : Accounts taken (stream.given.map Prod.snd)
  yielded_eq : stream.yielded = seen stream.given
  /-- As long as it holds its receiver, the stream belongs to its channel. -/
  live : ∀ next, stream.receiver = some next → ∃ content earlier,
    Attached bc key stream.channel removed ∧
      bc.contents[stream.channel]? = some content ∧
      content.Carries (earlier ++ (taken ++ waiting)) ∧
      next = earlier.length + taken.length ∧
      ∀ entry ∈ stream.given, endsStream entry = false

section Serving

variable {bc bc' : Broadcaster K T buffer} {number : ℕ} {key : K} {removed : Bool}
  {taken waiting : List T} {stream : BroadcastStream K T}

/-- What leaves the stream, its entry and its channel as they are. -/
theorem Serves.frame (hserves : Serves bc number key removed taken waiting stream)
    (hstream : bc'.streams[number]? = some stream)
    (hattached : stream.receiver ≠ none → Attached bc key stream.channel removed →
      stream.channel < bc.contents.length → Attached bc' key stream.channel removed)
    (hcontent : ∀ content, bc.contents[stream.channel]? = some content →
      Attached bc key stream.channel removed → bc'.contents[stream.channel]? = some content) :
    Serves bc' number key removed taken waiting stream where
  stream_eq := hstream
  accounts := hserves.accounts
  yielded_eq := hserves.yielded_eq
  live next hnext := by
    obtain ⟨content, earlier, hkey, hfound, hrest⟩ := hserves.live next hnext
    have hreceiver : stream.receiver ≠ none := by simp [hnext]
    exact ⟨content, earlier,
      hattached hreceiver hkey (List.getElem?_eq_some_iff.mp hfound).1,
      hcontent content hfound hkey, hrest⟩

/-- A stream that gave up its receiver is not told of later messages. -/
theorem Serves.of_ended (hserves : Serves bc number key removed taken waiting stream)
    (hended : stream.receiver = none) (hstream : bc'.streams[number]? = some stream)
    (later : List T) (removed' : Bool) :
    Serves bc' number key removed' taken (waiting ++ later) stream where
  stream_eq := hstream
  accounts := hserves.accounts
  yielded_eq := hserves.yielded_eq
  live next hnext := by
    rw [hended] at hnext
    cases hnext

theorem Serves.mem (hserves : Serves bc number key removed taken waiting stream) :
    stream ∈ bc.streams := List.mem_of_getElem? hserves.stream_eq

/-- The map loses entries, but that of a channel with a receiver. -/
theorem Attached.mono {channel : ℕ} (hattached : Attached bc key channel removed)
    (hsub : ∀ other, bc'.channels.lookup other = some channel →
      bc.channels.lookup other = some channel)
    (hkept : bc.channels.lookup key = some channel → bc'.channels.lookup key = some channel) :
    Attached bc' key channel removed := by
  cases removed with
  | true => exact fun other hother => hattached other (hsub other hother)
  | false => exact hkept hattached

theorem Serves.removeIdle (hserves : Serves bc number key removed taken waiting stream)
    (other : K) : Serves (bc.removeIdle other) number key removed taken waiting stream := by
  apply hserves.frame
  · rw [removeIdle_streams]
    exact hserves.stream_eq
  · intro hreceiver hattached _
    apply hattached.mono
    · exact fun _ => lookup_of_removeIdle
    · exact fun hlookup => lookup_removeIdle hlookup ⟨stream, hserves.mem, rfl, hreceiver⟩
  · intro content hcontent _
    rw [removeIdle_contents]
    exact hcontent

theorem Serves.subscribe (hserves : Serves bc number key removed taken waiting stream)
    (other : K) : Serves (bc.subscribe other) number key removed taken waiting stream := by
  have hindex : number < bc.streams.length := (List.getElem?_eq_some_iff.mp hserves.stream_eq).1
  apply hserves.frame
  · unfold Broadcaster.subscribe
    split
    · rw [Broadcaster.attach, List.getElem?_append_left hindex]
      exact hserves.stream_eq
    · rw [Broadcaster.attach, List.getElem?_append_left hindex]
      exact hserves.stream_eq
  · intro _ hattached hlt
    apply hattached.mono
    · intro found hfound
      rcases lookup_of_subscribe hfound with hold | ⟨-, -, hnew⟩
      · exact hold
      · omega
    · intro hlookup
      unfold Broadcaster.subscribe
      split
      · exact hlookup
      · rename_i hnone
        have hother : key ≠ other := by
          rintro rfl
          rw [hnone] at hlookup
          cases hlookup
        rw [Broadcaster.attach, AList.lookup_insert_eq, if_neg hother]
        exact hlookup
  · intro content hcontent _
    have hlt : stream.channel < bc.contents.length := (List.getElem?_eq_some_iff.mp hcontent).1
    unfold Broadcaster.subscribe
    split
    · exact hcontent
    · rw [Broadcaster.attach, List.getElem?_append_left hlt]
      exact hcontent

/-- A policy is set for what comes later. -/
theorem Serves.onLag (hserves : Serves bc number key removed taken waiting stream)
    {other : ℕ} {policy : LagPolicy} (honLag : bc.onLag other policy = some bc') :
    ∃ stream', Serves bc' number key removed taken waiting stream' ∧
      stream'.given = stream.given := by
  obtain ⟨found, hfound, rfl⟩ := onLag_spec honLag
  by_cases hnumber : other = number
  · subst hnumber
    rw [hserves.stream_eq, Option.some.injEq] at hfound
    subst hfound
    have hindex : other < bc.streams.length := (List.getElem?_eq_some_iff.mp hserves.stream_eq).1
    exact ⟨_, ⟨List.getElem?_set_self hindex, hserves.accounts, hserves.yielded_eq, hserves.live⟩,
      rfl⟩
  · refine ⟨stream, hserves.frame ?_ (fun _ hattached _ => hattached)
      (fun _ hcontent _ => hcontent), rfl⟩
    rw [List.getElem?_set_ne hnumber]
    exact hserves.stream_eq

/-- The channel of the stream goes on without an entry when its key is removed. -/
theorem Serves.remove (hnumbered : Numbered bc)
    (hserves : Serves bc number key removed taken waiting stream) (other : K) :
    Serves (bc.remove other) number key (removed || decide (other = key)) taken waiting stream := by
  have hsub : ∀ found, (bc.remove other).channels.lookup found = some stream.channel →
      bc.channels.lookup found = some stream.channel := fun _ => lookup_of_remove
  by_cases hother : other = key
  · subst hother
    rw [decide_eq_true rfl, Bool.or_true]
    refine ⟨hserves.stream_eq, hserves.accounts, hserves.yielded_eq, ?_⟩
    intro next hnext
    obtain ⟨content, earlier, hattached, hrest⟩ := hserves.live next hnext
    refine ⟨content, earlier, ?_, hrest⟩
    intro found hfound
    cases removed with
    | true => exact hattached found (hsub found hfound)
    | false =>
        -- the entry that is gone was the only one of this channel
        have hsame := hnumbered.inj found other stream.channel (hsub found hfound) hattached
        rw [Broadcaster.remove, AList.lookup_erase_eq, if_pos hsame] at hfound
        cases hfound
  · rw [decide_eq_false hother, Bool.or_false]
    apply hserves.frame
    · exact hserves.stream_eq
    · intro _ hattached _
      apply hattached.mono hsub
      intro hlookup
      rw [Broadcaster.remove, AList.lookup_erase_eq, if_neg (Ne.symm hother)]
      exact hlookup
    · exact fun _ hcontent _ => hcontent

/-- A message to the key is one more that waits, as long as the key is not removed. -/
theorem Serves.send (hnumbered : Numbered bc)
    (hserves : Serves bc number key removed taken waiting stream) (other : K) (event : T) :
    Serves (bc.send other event).2 number key removed taken
      (waiting ++ if removed then [] else sentBy key (.send other event)) stream := by
  have hstreams : (bc.send other event).2.streams[number]? = some stream := by
    unfold Broadcaster.send
    split
    · split
      · rw [removeIdle_streams]
        exact hserves.stream_eq
      · exact hserves.stream_eq
    · exact hserves.stream_eq
  -- what is sent to another channel
  have hframe : bc.channels.lookup other ≠ some stream.channel →
      Serves (bc.send other event).2 number key removed taken waiting stream := by
    intro hnot
    unfold Broadcaster.send
    split
    · rename_i found hfound
      split
      · exact hserves.removeIdle other
      · apply hserves.frame
        · exact hserves.stream_eq
        · exact fun _ hattached _ => hattached
        · intro content hcontent _
          have hchannel : found ≠ stream.channel := fun heq => hnot (heq ▸ hfound)
          exact (List.getElem?_modify_ne _ _ hchannel).trans hcontent
    · exact hserves
  by_cases hended : stream.receiver = none
  · exact hserves.of_ended hended hstreams _ removed
  · obtain ⟨position, hposition⟩ := Option.ne_none_iff_exists'.mp hended
    obtain ⟨content, earlier, hattached, hcontent, hcarries, hnext, hends⟩ :=
      hserves.live position hposition
    cases removed with
    | true =>
        rw [if_pos rfl, List.append_nil]
        exact hframe (hattached other)
    | false =>
        rw [if_neg Bool.false_ne_true]
        by_cases hother : other = key
        · subst hother
          have hcount : bc.receiverCount stream.channel ≠ 0 := by
            intro hzero
            have hnot := List.countP_eq_zero.mp hzero stream hserves.mem
            rw [decide_eq_true rfl, Bool.true_and] at hnot
            exact hnot (Option.isSome_iff_ne_none.mpr hended)
          have hlookup : bc.channels.lookup other = some stream.channel := hattached
          have hsend : (bc.send other event).2 = { bc with
              contents :=
                bc.contents.modify stream.channel fun content => content.push event } := by
            rw [Broadcaster.send, hlookup]
            simp only [if_neg hcount]
          rw [hsend, sentBy, if_pos rfl]
          refine ⟨hserves.stream_eq, hserves.accounts, hserves.yielded_eq, ?_⟩
          intro next hreceiver
          rw [hposition, Option.some.injEq] at hreceiver
          refine ⟨content.push event, earlier, hattached, ?_, ?_, hreceiver ▸ hnext, hends⟩
          · rw [List.getElem?_modify_eq, hcontent]
            rfl
          · have hpush := hcarries.push event
            rw [List.append_assoc, List.append_assoc] at hpush
            exact hpush
        · -- another key has another channel
          rw [sentBy, if_neg hother, List.append_nil]
          exact hframe fun hfound =>
            hother (hnumbered.inj other key stream.channel hfound hattached)

theorem Serves.drop (hserves : Serves bc number key removed taken waiting stream)
    {other : ℕ} (hdrop : bc.drop other = some bc') :
    ∃ stream', Serves bc' number key removed taken waiting stream' ∧
      stream'.given = stream.given := by
  obtain ⟨found, hfound, rfl⟩ := drop_spec hdrop
  by_cases hnumber : other = number
  · subst hnumber
    rw [hserves.stream_eq, Option.some.injEq] at hfound
    subst hfound
    have hindex : other < bc.streams.length := (List.getElem?_eq_some_iff.mp hserves.stream_eq).1
    refine ⟨_, ⟨List.getElem?_set_self hindex, hserves.accounts, hserves.yielded_eq, ?_⟩, rfl⟩
    intro next hnext
    cases hnext
  · refine ⟨stream, (hserves.removeIdle found.key).frame ?_ (fun _ hattached _ => hattached)
      (fun _ hcontent _ => hcontent), rfl⟩
    rw [List.getElem?_set_ne hnumber]
    exact hserves.stream_eq

/-- The stream after a turn that takes `lost`. -/
theorem Serves.advance {rest lost : List T}
    (hserves : Serves bc number key removed taken (lost ++ rest) stream)
    {position : ℕ} (hposition : stream.receiver = some position) (outcome : Except ℕ T)
    (haccounts : Accounts (taken ++ lost) (stream.given.map Prod.snd ++ [outcome])) :
    Serves
      { bc with
        streams := bc.streams.set number
          (stream.advance (.ready outcome) (position + lost.length)) }
      number key removed (taken ++ lost) rest
      (stream.advance (.ready outcome) (position + lost.length)) := by
  have hindex : number < bc.streams.length := (List.getElem?_eq_some_iff.mp hserves.stream_eq).1
  obtain ⟨content, earlier, hattached, hcontent, hcarries, hnext, hends⟩ :=
    hserves.live position hposition
  have hall : earlier ++ (taken ++ lost ++ rest) = earlier ++ (taken ++ (lost ++ rest)) := by
    rw [List.append_assoc]
  have hafter : position + lost.length = earlier.length + (taken ++ lost).length := by
    rw [hnext, List.length_append, Nat.add_assoc]
  rw [advance_ready]
  refine ⟨List.getElem?_set_self hindex, ?_, ?_, ?_⟩
  · rw [List.map_append]
    exact haccounts
  · rw [seen_append hends, ← hserves.yielded_eq]
  · -- a lag under `LagPolicy::End` takes the receiver away
    intro next hreceiver
    dsimp only at hreceiver
    split at hreceiver
    · cases hreceiver
    · rename_i hcontinues
      cases hreceiver
      refine ⟨content, earlier, hattached, hcontent, hall ▸ hcarries, hafter, ?_⟩
      intro entry hentry
      rcases List.mem_append.mp hentry with hentry | hentry
      · exact hends entry hentry
      · rw [List.mem_singleton.mp hentry]
        exact Bool.eq_false_iff.mpr hcontinues

theorem Serves.behind_eq (hserves : Serves bc number key removed taken waiting stream)
    (hreceiver : stream.receiver ≠ none) : bc.behind number = waiting.length := by
  obtain ⟨position, hposition⟩ := Option.ne_none_iff_exists'.mp hreceiver
  obtain ⟨content, earlier, -, hcontent, hcarries, hnext, -⟩ := hserves.live position hposition
  rw [Broadcaster.behind, hserves.stream_eq, Option.bind_some, hposition, Option.bind_some,
    hcontent, Option.map_some, Option.getD_some, hcarries.1, hnext]
  simp only [List.length_append]
  omega

/-- The stream ends with its channel. -/
theorem Serves.done (hserves : Serves bc number key removed taken waiting stream) (next : ℕ) :
    Serves { bc with streams := bc.streams.set number (stream.advance .done next) } number key
      removed taken waiting (stream.advance .done next) := by
  have hindex : number < bc.streams.length := (List.getElem?_eq_some_iff.mp hserves.stream_eq).1
  have hadvance : stream.advance .done next = { stream with receiver := none } := by
    rw [BroadcastStream.advance, applyLagPolicies_done]
    simp [Polled.outcome]
  rw [hadvance]
  refine ⟨List.getElem?_set_self hindex, hserves.accounts, hserves.yielded_eq, ?_⟩
  intro next hnext
  cases hnext

/-- A turn of the stream takes one message, or those that are gone. -/
theorem Serves.poll_self (hserves : Serves bc number key removed taken waiting stream)
    (hpoll : bc.poll number = some bc') :
    ∃ taken' waiting' stream', Serves bc' number key removed taken' waiting' stream' ∧
      taken' ++ waiting' = taken ++ waiting ∧
      ((∀ entry ∈ stream'.given, isItem entry.2 = true) ↔
        (∀ entry ∈ stream.given, isItem entry.2 = true) ∧ bc.behind number ≤ slots buffer) := by
  obtain ⟨found, position, content, hfound, hposition, hcontent, rfl⟩ := poll_spec hpoll
  rw [hserves.stream_eq, Option.some.injEq] at hfound
  subst hfound
  obtain ⟨content', earlier, -, hcontent', hcarries, hnext, -⟩ :=
    hserves.live position hposition
  rw [hcontent, Option.some.injEq] at hcontent'
  subst hcontent'
  have hlength : (earlier ++ (taken ++ waiting)).length = position + waiting.length := by
    simp only [List.length_append]
    omega
  have hbehind : bc.behind number = waiting.length := hserves.behind_eq (by simp [hposition])
  have hfront : (earlier ++ (taken ++ waiting))[position]? = waiting.head? := by
    rw [hnext, ← List.append_assoc, ← List.length_append, List.getElem?_append_right le_rfl,
      Nat.sub_self, List.head?_eq_getElem?]
  rw [unfoldDefault, hcarries.recv_eq, hlength, hfront, hbehind]
  by_cases hlag : slots buffer < waiting.length
  · -- the messages before the last ones are gone
    have hsplit := List.take_append_drop (waiting.length - slots buffer) waiting
    have htake : (waiting.take (waiting.length - slots buffer)).length =
        waiting.length - slots buffer := by
      rw [List.length_take]
      omega
    have hlost : waiting.take (waiting.length - slots buffer) ≠ [] := by
      intro hnil
      rw [hnil, List.length_nil] at htake
      omega
    rw [if_pos (by omega)]
    have hmissed : position + waiting.length - slots buffer - position =
        (waiting.take (waiting.length - slots buffer)).length := by omega
    have hafter : position + waiting.length - slots buffer =
        position + (waiting.take (waiting.length - slots buffer)).length := by omega
    rw [hmissed, hafter]
    rw [← hsplit] at hserves
    refine ⟨_, _, _, hserves.advance hposition _ (.missed _ hlost hserves.accounts), ?_, ?_⟩
    · rw [List.append_assoc, hsplit]
    · rw [advance_ready]
      constructor
      · intro hitems
        have hgap := hitems _ (List.mem_append_right _ (List.mem_singleton_self _))
        cases hgap
      · rintro ⟨-, hle⟩
        omega
  · rw [if_neg (by omega)]
    cases waiting with
    | nil =>
        rw [List.head?_nil]
        dsimp only
        cases bc.isClosed stream.channel with
        | true =>
            refine ⟨taken, [], _, hserves.done position, rfl, ?_⟩
            have hgiven : (stream.advance (.done : Polled T) position).given = stream.given := by
              rw [BroadcastStream.advance, applyLagPolicies_done]
              exact List.append_nil _
            rw [hgiven]
            exact (and_iff_left (Nat.zero_le _)).symm
        | false => exact ⟨taken, [], stream, hserves, rfl, (and_iff_left (Nat.zero_le _)).symm⟩
    | cons value rest =>
        refine ⟨taken ++ [value], rest, _,
          Serves.advance hserves hposition (.ok value) (.item value hserves.accounts), ?_, ?_⟩
        · rw [List.append_assoc]
          rfl
        · rw [advance_ready]
          constructor
          · intro hitems
            exact ⟨fun entry hmem => hitems entry (List.mem_append_left _ hmem), by omega⟩
          · rintro ⟨hitems, -⟩ entry hmem
            rcases List.mem_append.mp hmem with hmem | hmem
            · exact hitems entry hmem
            · rw [List.mem_singleton.mp hmem]
              rfl

theorem Serves.poll_other (hserves : Serves bc number key removed taken waiting stream)
    {other : ℕ} (hother : other ≠ number) (hpoll : bc.poll other = some bc') :
    Serves bc' number key removed taken waiting stream := by
  obtain ⟨found, position, content, -, -, -, rfl⟩ := poll_spec hpoll
  split
  · apply hserves.frame
    · rw [List.getElem?_set_ne hother]
      exact hserves.stream_eq
    · exact fun _ hattached _ => hattached
    · exact fun _ hcontent _ => hcontent
  · exact hserves

/-- A step tells the stream of the message that it sends to its key, if any. -/
theorem Serves.preserve (hnumbered : Numbered bc)
    (hserves : Serves bc number key removed taken waiting stream) {action : Action K T}
    (hstep : step bc action = some bc') :
    ∃ taken' waiting' stream',
      Serves bc' number key (removed || removes key action) taken' waiting' stream' ∧
        taken' ++ waiting' = taken ++ waiting ++ (if removed then [] else sentBy key action) ∧
        ((∀ entry ∈ stream'.given, isItem entry.2 = true) ↔
          (∀ entry ∈ stream.given, isItem entry.2 = true) ∧ KeepsUp number bc action) := by
  cases action with
  | subscribe other =>
      simp only [removes, sentBy, Bool.or_false, ite_self, List.append_nil]
      exact ⟨taken, waiting, stream, subscribe_spec hstep ▸ hserves.subscribe other, rfl,
        (and_iff_left trivial).symm⟩
  | onLag other policy =>
      simp only [removes, sentBy, Bool.or_false, ite_self, List.append_nil]
      obtain ⟨stream', hafter, hgiven⟩ := hserves.onLag hstep
      exact ⟨taken, waiting, stream', hafter, rfl, hgiven ▸ (and_iff_left trivial).symm⟩
  | send other event =>
      simp only [removes, Bool.or_false]
      exact ⟨taken, _, stream, Option.some.inj hstep ▸ hserves.send hnumbered other event,
        (List.append_assoc _ _ _).symm, (and_iff_left trivial).symm⟩
  | poll other =>
      simp only [removes, sentBy, Bool.or_false, ite_self, List.append_nil]
      by_cases hother : other = number
      · subst hother
        obtain ⟨taken', waiting', stream', hafter, hsplit, hitems⟩ := hserves.poll_self hstep
        refine ⟨taken', waiting', stream', hafter, hsplit, ?_⟩
        rw [hitems]
        exact and_congr_right fun _ => (imp_iff_right rfl).symm
      · exact ⟨taken, waiting, stream, hserves.poll_other hother hstep, rfl,
          (and_iff_left fun heq => absurd heq hother).symm⟩
  | remove other =>
      simp only [removes, sentBy, ite_self, List.append_nil]
      exact ⟨taken, waiting, stream, Option.some.inj hstep ▸ hserves.remove hnumbered other, rfl,
        (and_iff_left trivial).symm⟩
  | drop other =>
      simp only [removes, sentBy, Bool.or_false, ite_self, List.append_nil]
      obtain ⟨stream', hafter, hgiven⟩ := hserves.drop hstep
      exact ⟨taken, waiting, stream', hafter, rfl, hgiven ▸ (and_iff_left trivial).symm⟩

theorem sentTo_cons (key : K) (action : Action K T) (rest : List (Action K T)) :
    sentTo key (action :: rest) =
      if removes key action then [] else sentBy key action ++ sentTo key rest := by
  rw [sentTo, List.takeWhile_cons]
  cases removes key action <;> rfl

/-- What the steps of a run tell the stream. -/
theorem Serves.preserve_run (hnumbered : Numbered bc)
    (hserves : Serves bc number key removed taken waiting stream) {actions : List (Action K T)}
    (hrun : Machine.run step bc actions = some bc') :
    ∃ removed' taken' waiting' stream', Serves bc' number key removed' taken' waiting' stream' ∧
      taken' ++ waiting' = taken ++ waiting ++ (if removed then [] else sentTo key actions) ∧
      ((∀ entry ∈ stream'.given, isItem entry.2 = true) ↔
        (∀ entry ∈ stream.given, isItem entry.2 = true) ∧
          ∀ state action next, Machine.Taken step bc actions state action next →
            KeepsUp number state action) := by
  induction actions generalizing bc removed taken waiting stream with
  | nil =>
      rw [Machine.run_nil, Option.some.injEq] at hrun
      refine ⟨removed, taken, waiting, stream, hrun ▸ hserves, ?_, ?_⟩
      · rw [show sentTo key ([] : List (Action K T)) = [] from rfl, ite_self, List.append_nil]
      · refine (and_iff_left ?_).symm
        rintro state action next ⟨before, after, heq, -⟩
        simp at heq
  | cons action rest ih =>
      obtain ⟨middle, hmiddle, hrest⟩ := Machine.run_cons_eq_some.mp hrun
      obtain ⟨taken₁, waiting₁, stream₁, hserves₁, hsplit₁, hitems₁⟩ :=
        hserves.preserve hnumbered hmiddle
      obtain ⟨removed₂, taken₂, waiting₂, stream₂, hserves₂, hsplit₂, hitems₂⟩ :=
        ih (step_numbered hnumbered hmiddle) hserves₁ hrest
      refine ⟨removed₂, taken₂, waiting₂, stream₂, hserves₂, ?_, ?_⟩
      · rw [hsplit₂, hsplit₁, List.append_assoc, sentTo_cons]
        cases removed with
        | true => simp
        | false =>
            cases hremoves : removes key action with
            | true =>
                -- a removal sends nothing
                have hnothing : sentBy key action = [] := by
                  cases action <;> first | rfl | cases hremoves
                simp [hnothing]
            | false => simp
      · rw [hitems₂, hitems₁, and_assoc]
        refine and_congr_right fun _ => ?_
        constructor
        · rintro ⟨hhead, htail⟩ state taken next htaken
          rcases Machine.taken_cons_iff.mp htaken with ⟨rfl, rfl, -⟩ | ⟨next', hnext', htaken⟩
          · exact hhead
          · rw [hmiddle, Option.some.injEq] at hnext'
            exact htail state taken next (hnext' ▸ htaken)
        · intro hall
          refine ⟨hall bc action middle (Machine.taken_head rest hmiddle), ?_⟩
          intro state taken next htaken
          exact hall state taken next (htaken.cons hmiddle)

end Serving

theorem numbered_new : Numbered (Broadcaster.new : Broadcaster K T buffer) := by
  constructor
  · intro key channel hlookup
    cases hlookup
  · intro key other channel hlookup
    cases hlookup

/-- A new stream has nothing in front of it. -/
theorem serves_subscribe {bc : Broadcaster K T buffer} (hnumbered : Numbered bc) (key : K) :
    ∃ stream, Serves (bc.subscribe key) bc.streams.length key false [] [] stream ∧
      stream.given = [] := by
  unfold Broadcaster.subscribe
  split
  · rename_i channel hlookup
    have hlt := hnumbered.channel_lt key channel hlookup
    obtain ⟨sent, hcarries⟩ := (bc.contents[channel]).exists_carries
    have hcontent : bc.contents[channel]? = some bc.contents[channel] :=
      List.getElem?_eq_getElem hlt
    refine ⟨_, ⟨List.getElem?_concat_length, .nil, rfl, ?_⟩, rfl⟩
    rintro next ⟨⟩
    refine ⟨bc.contents[channel], sent, hlookup, hcontent, ?_, ?_, fun entry hmem => nomatch hmem⟩
    · rw [List.append_nil, List.append_nil]
      exact hcarries
    · rw [hcontent]
      exact hcarries.1
  · refine ⟨_, ⟨List.getElem?_concat_length, .nil, rfl, ?_⟩, rfl⟩
    rintro next ⟨⟩
    exact ⟨Channel.new, [], AList.lookup_insert _, List.getElem?_concat_length,
      Channel.carries_new, rfl, fun entry hmem => nomatch hmem⟩

/-- **Delivery**: whatever else subscribes, sends, polls, removes and drops around it, and whenever
`on_lag` is called, a stream tells its consumer of the messages that were sent to its key since it
subscribed, until the key was removed, in order, each once or counted as missed.  Nothing is missed
exactly when the stream is never polled while more messages wait than the channel retains. -/
theorem delivery_accounts {before after : List (Action K T)} {key : K}
    {start final : Broadcaster K T buffer}
    (hbefore : Machine.run step Broadcaster.new before = some start)
    (hafter : Machine.run step start (.subscribe key :: after) = some final) :
    ∃ stream taken waiting, final.streams[start.streams.length]? = some stream ∧
      sentTo key after = taken ++ waiting ∧ Accounts taken (stream.given.map Prod.snd) ∧
      stream.yielded = seen stream.given ∧
      (stream.receiver ≠ none → final.behind start.streams.length = waiting.length) ∧
      ((∀ entry ∈ stream.given, isItem entry.2 = true) ↔
        ∀ state action next,
          Machine.Taken step (start.subscribe key) after state action next →
            KeepsUp start.streams.length state action) := by
  have hnumbered : Numbered start :=
    Machine.run_invariant Numbered (fun _ _ _ => step_numbered) numbered_new hbefore
  obtain ⟨middle, hsubscribe, hrest⟩ := Machine.run_cons_eq_some.mp hafter
  obtain rfl := subscribe_spec hsubscribe
  obtain ⟨stream, hserves, hgiven⟩ := serves_subscribe hnumbered key
  obtain ⟨removed, taken, waiting, stream', hserves', hsplit, hitems⟩ :=
    hserves.preserve_run (numbered_subscribe hnumbered key) hrest
  refine ⟨stream', taken, waiting, hserves'.stream_eq, ?_, hserves'.accounts,
    hserves'.yielded_eq, hserves'.behind_eq, ?_⟩
  · rw [hsplit]
    rfl
  · rw [hitems, hgiven]
    exact and_iff_right fun entry hmem => nomatch hmem

/-- One stream of the key, and a message that it is sent. -/
def earlyActions : List (Action ℕ ℕ) := [.subscribe 0, .send 0 5]

/-- Four messages before the second stream is polled, and one for another key.  It asks to skip only
after it was told what it missed, and the key is removed before the last message. -/
def lateActions : List (Action ℕ ℕ) :=
  [.send 0 6, .subscribe 1, .send 1 9, .send 0 7, .send 0 8, .poll 1, .onLag 1 .skip, .poll 1,
    .drop 0, .remove 0, .send 0 9]

/-- With room for two messages the second stream misses the first of three. -/
theorem delivery_accounts_lagging :
    ∃ start final : Broadcaster ℕ ℕ 2,
      Machine.run step Broadcaster.new earlyActions = some start ∧
        Machine.run step start (.subscribe 0 :: lateActions) = some final ∧
        sentTo 0 lateActions = [6, 7, 8] ∧
        (final.streams[1]?).map BroadcastStream.yielded = some [.error 1, .ok 7] ∧
        ∃ stream taken waiting, final.streams[start.streams.length]? = some stream ∧
          sentTo 0 lateActions = taken ++ waiting ∧ Accounts taken (stream.given.map Prod.snd) ∧
          stream.yielded = seen stream.given ∧
          (stream.receiver ≠ none → final.behind start.streams.length = waiting.length) ∧
          ((∀ entry ∈ stream.given, isItem entry.2 = true) ↔
            ∀ state action next,
              Machine.Taken step (start.subscribe 0) lateActions state action next →
                KeepsUp start.streams.length state action) := by
  have hearly : Machine.run step Broadcaster.new earlyActions =
      some (((Broadcaster.new : Broadcaster ℕ ℕ 2).subscribe 0).send 0 5).2 := rfl
  exact ⟨_, _, hearly, rfl, rfl, rfl, delivery_accounts hearly rfl⟩

end Modo.Sse.Delivery
