import Modo.Lib.HashMap
import Modo.Lib.Machine

/-!
# The channels of a broadcaster

A `Broadcaster` keeps a channel for each key with subscribers.  `subscribe` creates
the channel of a key that has none; a stream holds a receiver of its channel and a
cleanup for its key.  `remove` takes the entry of a key out of the map, and a later
`subscribe` creates a new channel, so streams of several channels of one key may be
around at a time.

Dropping a stream runs `BroadcastStream::drop` first, which calls the cleanup, and
drops the fields afterwards, the receiver among them.  The cleanup therefore still
counts the receiver of the stream that is dropped, and the last stream of a channel
never removes its key (`last_drop_leaves_channel`).  The map holds exactly the keys
with a subscribed stream as long as no such drop happens
(`channels_subscribed_iff`).

Streams are not polled here: what the channels carry is left out.
-/

namespace Modo.Sse

variable {K : Type*} [DecidableEq K]

/-- A stream that has not been dropped: its number, its key and the channel of its
receiver. -/
structure BroadcastStream (K : Type*) where
  number : ℕ
  key : K
  channel : ℕ
  deriving DecidableEq

/-- The map of channels, and the streams that have not been dropped; channels and
streams are numbered as they are made. -/
structure Broadcaster (K : Type*) where
  channels : HashMap K ℕ
  nextChannel : ℕ
  streams : List (BroadcastStream K)
  nextStream : ℕ

namespace Broadcaster

variable (bc : Broadcaster K)

def new : Broadcaster K := ⟨∅, 0, [], 0⟩

/-- `receiver_count` of a channel. -/
def receiverCount (channel : ℕ) : ℕ :=
  bc.streams.countP fun stream => decide (stream.channel = channel)

/-- Take the entry of a key out of the map if its channel has no receiver. -/
def removeIdle (key : K) : Broadcaster K :=
  match bc.channels.lookup key with
  | some channel =>
      if bc.receiverCount channel = 0 then { bc with channels := bc.channels.erase key } else bc
  | none => bc

def subscribe (key : K) : Broadcaster K :=
  match bc.channels.lookup key with
  | some channel =>
      { bc with
        streams := ⟨bc.nextStream, key, channel⟩ :: bc.streams
        nextStream := bc.nextStream + 1 }
  | none =>
      { channels := bc.channels.insert key bc.nextChannel
        nextChannel := bc.nextChannel + 1
        streams := ⟨bc.nextStream, key, bc.nextChannel⟩ :: bc.streams
        nextStream := bc.nextStream + 1 }

/-- `send` returns the number of receivers; a channel without one is removed. -/
def send (key : K) : ℕ × Broadcaster K :=
  match bc.channels.lookup key with
  | some channel =>
      if bc.receiverCount channel = 0 then (0, bc.removeIdle key)
      else (bc.receiverCount channel, bc)
  | none => (0, bc)

def subscriberCount (key : K) : ℕ := ((bc.channels.lookup key).map bc.receiverCount).getD 0

def remove (key : K) : Broadcaster K := { bc with channels := bc.channels.erase key }

/-- The fields of a stream are dropped. -/
def dropFields (stream : BroadcastStream K) : Broadcaster K :=
  { bc with streams := bc.streams.erase stream }

/-- `BroadcastStream::drop` runs before the fields are dropped. -/
def drop (stream : BroadcastStream K) : Broadcaster K :=
  (bc.removeIdle stream.key).dropFields stream

end Broadcaster

/-! ## Runs -/

inductive Action (K : Type*) where
  | subscribe (key : K)
  | send (key : K)
  | subscriberCount (key : K)
  | remove (key : K)
  | drop (stream : BroadcastStream K)

def step (bc : Broadcaster K) : Action K → Option (Broadcaster K)
  | .subscribe key => some (bc.subscribe key)
  | .send key => some (bc.send key).2
  | .subscriberCount _ => some bc
  | .remove key => some (bc.remove key)
  | .drop stream => if stream ∈ bc.streams then some (bc.drop stream) else none

/-- A key has an entry exactly when a stream of its channel has not been dropped. -/
def Subscribed (bc : Broadcaster K) : Prop :=
  ∀ key, key ∈ bc.channels ↔
    ∃ stream ∈ bc.streams, bc.channels.lookup key = some stream.channel

/-- The stream that is dropped is not the last one of its key's channel. -/
def NotLast (bc : Broadcaster K) : Action K → Prop
  | .drop stream => bc.channels.lookup stream.key = some stream.channel →
      ∃ other ∈ bc.streams.erase stream, other.channel = stream.channel
  | _ => True

/-! ## The invariant -/

/-- Channel numbers are not used twice: each belongs to one key, and so do the streams
of the channel. -/
structure Numbered (bc : Broadcaster K) : Prop where
  channel_lt : ∀ key channel, bc.channels.lookup key = some channel → channel < bc.nextChannel
  stream_lt : ∀ stream ∈ bc.streams, stream.channel < bc.nextChannel
  inj : ∀ key other channel, bc.channels.lookup key = some channel →
    bc.channels.lookup other = some channel → key = other
  owner : ∀ stream ∈ bc.streams, ∀ key, bc.channels.lookup key = some stream.channel →
    stream.key = key

/-- Fewer entries and fewer streams. -/
theorem Numbered.mono {bc bc' : Broadcaster K} (hnumbered : Numbered bc)
    (hchannels : ∀ key channel, bc'.channels.lookup key = some channel →
      bc.channels.lookup key = some channel)
    (hstreams : ∀ stream ∈ bc'.streams, stream ∈ bc.streams)
    (hnext : bc'.nextChannel = bc.nextChannel) : Numbered bc' := by
  constructor
  · intro key channel hlookup
    exact hnext ▸ hnumbered.channel_lt key channel (hchannels key channel hlookup)
  · intro stream hstream
    exact hnext ▸ hnumbered.stream_lt stream (hstreams stream hstream)
  · intro key other channel hlookup hother
    exact hnumbered.inj key other channel (hchannels _ _ hlookup) (hchannels _ _ hother)
  · intro stream hstream key hlookup
    exact hnumbered.owner stream (hstreams stream hstream) key (hchannels _ _ hlookup)

/-- Only the entries have to be looked at: a stream of an entry's channel gives the
entry. -/
theorem subscribed_iff {bc : Broadcaster K} :
    Subscribed bc ↔ ∀ key channel, bc.channels.lookup key = some channel →
      ∃ stream ∈ bc.streams, stream.channel = channel := by
  constructor
  · intro hsubscribed key channel hlookup
    have hmem : key ∈ bc.channels :=
      AList.lookup_isSome.mp (Option.isSome_iff_exists.mpr ⟨channel, hlookup⟩)
    obtain ⟨stream, hstream, heq⟩ := (hsubscribed key).mp hmem
    rw [hlookup, Option.some.injEq] at heq
    exact ⟨stream, hstream, heq.symm⟩
  · intro hstreams key
    constructor
    · intro hmem
      obtain ⟨channel, hlookup⟩ := Option.isSome_iff_exists.mp (AList.lookup_isSome.mpr hmem)
      obtain ⟨stream, hstream, rfl⟩ := hstreams key channel hlookup
      exact ⟨stream, hstream, hlookup⟩
    · rintro ⟨stream, -, hlookup⟩
      exact AList.lookup_isSome.mp (Option.isSome_iff_exists.mpr ⟨stream.channel, hlookup⟩)

/-! ## What the operations do -/

section Operations

variable {bc : Broadcaster K}

omit [DecidableEq K] in
theorem receiverCount_eq_zero {channel : ℕ} :
    bc.receiverCount channel = 0 ↔ ∀ stream ∈ bc.streams, stream.channel ≠ channel := by
  simp [Broadcaster.receiverCount, List.countP_eq_zero]

/-- A removal of an idle entry is a removal or nothing. -/
theorem removeIdle_lookup {key other : K} {channel : ℕ}
    (hlookup : (bc.removeIdle key).channels.lookup other = some channel) :
    bc.channels.lookup other = some channel := by
  unfold Broadcaster.removeIdle at hlookup
  split at hlookup
  · split at hlookup
    · rw [AList.lookup_erase_eq] at hlookup
      split at hlookup
      · cases hlookup
      · exact hlookup
    · exact hlookup
  · exact hlookup

/-- The entry of a channel with a receiver is kept. -/
theorem lookup_removeIdle {key other : K} {channel : ℕ}
    (hlookup : bc.channels.lookup other = some channel)
    (hstream : ∃ stream ∈ bc.streams, stream.channel = channel) :
    (bc.removeIdle key).channels.lookup other = some channel := by
  unfold Broadcaster.removeIdle
  split
  · rename_i found hfound
    split
    · rename_i hzero
      have hother : other ≠ key := by
        rintro rfl
        rw [hfound, Option.some.injEq] at hlookup
        obtain ⟨stream, hmem, rfl⟩ := hstream
        exact receiverCount_eq_zero.mp hzero stream hmem hlookup.symm
      rw [AList.lookup_erase_eq, if_neg hother]
      exact hlookup
    · exact hlookup
  · exact hlookup

@[simp] theorem removeIdle_streams (key : K) : (bc.removeIdle key).streams = bc.streams := by
  unfold Broadcaster.removeIdle
  split
  · split <;> rfl
  · rfl

@[simp] theorem removeIdle_nextChannel (key : K) :
    (bc.removeIdle key).nextChannel = bc.nextChannel := by
  unfold Broadcaster.removeIdle
  split
  · split <;> rfl
  · rfl

/-- `send` removes the entry if it is idle, and changes nothing otherwise. -/
theorem send_snd (key : K) : (bc.send key).2 = bc.removeIdle key := by
  unfold Broadcaster.send
  cases hlookup : bc.channels.lookup key with
  | none => simp [Broadcaster.removeIdle, hlookup]
  | some channel =>
      by_cases hzero : bc.receiverCount channel = 0
      · simp [hzero]
      · simp [Broadcaster.removeIdle, hlookup, hzero]

theorem numbered_removeIdle (hnumbered : Numbered bc) (key : K) : Numbered (bc.removeIdle key) :=
  hnumbered.mono (fun _ _ => removeIdle_lookup) (by simp) (by simp)

theorem lookup_of_remove {key other : K} {channel : ℕ}
    (hlookup : (bc.remove key).channels.lookup other = some channel) :
    bc.channels.lookup other = some channel := by
  rw [Broadcaster.remove, AList.lookup_erase_eq] at hlookup
  split at hlookup
  · cases hlookup
  · exact hlookup

theorem numbered_subscribe (hnumbered : Numbered bc) (key : K) : Numbered (bc.subscribe key) := by
  unfold Broadcaster.subscribe
  split
  · rename_i channel hlookup
    refine ⟨hnumbered.channel_lt, ?_, hnumbered.inj, ?_⟩
    · intro stream hstream
      rcases List.mem_cons.mp hstream with rfl | hstream
      · exact hnumbered.channel_lt key channel hlookup
      · exact hnumbered.stream_lt stream hstream
    · intro stream hstream other hother
      rcases List.mem_cons.mp hstream with rfl | hstream
      · exact hnumbered.inj key other channel hlookup hother
      · exact hnumbered.owner stream hstream other hother
  · rename_i hlookup
    have hcases : ∀ other channel,
        (bc.channels.insert key bc.nextChannel).lookup other = some channel →
          other = key ∧ channel = bc.nextChannel ∨ bc.channels.lookup other = some channel := by
      intro other channel hother
      rw [AList.lookup_insert_eq] at hother
      split at hother
      · rename_i hkey
        rw [Option.some.injEq] at hother
        exact Or.inl ⟨hkey, hother.symm⟩
      · exact Or.inr hother
    -- the new number is above those in use, so it belongs to the new entry alone
    refine ⟨?_, ?_, ?_, ?_⟩
    · intro other channel hother
      show channel < bc.nextChannel + 1
      rcases hcases other channel hother with ⟨-, rfl⟩ | hold
      · omega
      · have := hnumbered.channel_lt other channel hold
        omega
    · intro stream hstream
      show stream.channel < bc.nextChannel + 1
      rcases List.mem_cons.mp hstream with rfl | hstream
      · exact Nat.lt_succ_self bc.nextChannel
      · have := hnumbered.stream_lt stream hstream
        omega
    · intro first second channel hfirst hsecond
      rcases hcases first channel hfirst with ⟨rfl, rfl⟩ | hold
      · rcases hcases second bc.nextChannel hsecond with ⟨rfl, -⟩ | hold'
        · rfl
        · exact absurd (hnumbered.channel_lt second bc.nextChannel hold') (lt_irrefl _)
      · rcases hcases second channel hsecond with ⟨rfl, rfl⟩ | hold'
        · exact absurd (hnumbered.channel_lt first bc.nextChannel hold) (lt_irrefl _)
        · exact hnumbered.inj first second channel hold hold'
    · intro stream hstream other hother
      rcases List.mem_cons.mp hstream with rfl | hstream
      · rcases hcases other bc.nextChannel hother with ⟨rfl, -⟩ | hold
        · rfl
        · exact absurd (hnumbered.channel_lt other bc.nextChannel hold) (lt_irrefl _)
      · rcases hcases other stream.channel hother with ⟨-, hnew⟩ | hold
        · exact absurd (hnumbered.stream_lt stream hstream) (hnew ▸ lt_irrefl _)
        · exact hnumbered.owner stream hstream other hold

/-- A stream that is dropped leaves the entries of all channels with other receivers
as they are, also when its own channel is no longer that of its key. -/
theorem drop_keeps_subscribed {stream : BroadcastStream K} {key : K} {channel : ℕ}
    (hlookup : bc.channels.lookup key = some channel)
    (hother : ∃ other ∈ bc.streams.erase stream, other.channel = channel) :
    (bc.drop stream).channels.lookup key = some channel := by
  obtain ⟨other, hmem, hchannel⟩ := hother
  exact lookup_removeIdle hlookup ⟨other, List.mem_of_mem_erase hmem, hchannel⟩

theorem numbered_drop (hnumbered : Numbered bc) (stream : BroadcastStream K) :
    Numbered (bc.drop stream) := by
  refine (numbered_removeIdle hnumbered stream.key).mono (fun _ _ h => h) ?_ rfl
  intro other hother
  exact List.mem_of_mem_erase hother

theorem subscribed_removeIdle (hsubscribed : Subscribed bc) (key : K) :
    Subscribed (bc.removeIdle key) := by
  rw [subscribed_iff] at hsubscribed ⊢
  intro other channel hlookup
  rw [removeIdle_streams]
  exact hsubscribed other channel (removeIdle_lookup hlookup)

theorem subscribed_subscribe (hsubscribed : Subscribed bc) (key : K) :
    Subscribed (bc.subscribe key) := by
  rw [subscribed_iff] at hsubscribed ⊢
  unfold Broadcaster.subscribe
  split
  · intro other channel hlookup
    obtain ⟨stream, hstream, hchannel⟩ := hsubscribed other channel hlookup
    exact ⟨stream, List.mem_cons_of_mem _ hstream, hchannel⟩
  · intro other channel hlookup
    rw [AList.lookup_insert_eq] at hlookup
    split at hlookup
    · rw [Option.some.injEq] at hlookup
      exact ⟨_, List.mem_cons_self, hlookup⟩
    · obtain ⟨stream, hstream, hchannel⟩ := hsubscribed other channel hlookup
      exact ⟨stream, List.mem_cons_of_mem _ hstream, hchannel⟩

/-- A drop keeps the entries subscribed exactly when it is not the last one of its
key's channel. -/
theorem subscribed_drop_iff (hnumbered : Numbered bc) (hsubscribed : Subscribed bc)
    {stream : BroadcastStream K} (hstream : stream ∈ bc.streams) :
    Subscribed (bc.drop stream) ↔ NotLast bc (.drop stream) := by
  rw [subscribed_iff] at hsubscribed ⊢
  constructor
  · intro hafter hlookup
    -- the cleanup runs while the receiver of the stream is still counted
    have hkept : (bc.drop stream).channels.lookup stream.key = some stream.channel :=
      lookup_removeIdle hlookup ⟨stream, hstream, rfl⟩
    obtain ⟨other, hother, hchannel⟩ := hafter stream.key stream.channel hkept
    rw [Broadcaster.drop, Broadcaster.dropFields, removeIdle_streams] at hother
    exact ⟨other, hother, hchannel⟩
  · intro hnotLast key channel hlookup
    have hbefore : bc.channels.lookup key = some channel := removeIdle_lookup hlookup
    rw [Broadcaster.drop, Broadcaster.dropFields, removeIdle_streams]
    obtain ⟨other, hother, rfl⟩ := hsubscribed key channel hbefore
    by_cases hsame : other = stream
    · subst hsame
      have hkey : other.key = key := hnumbered.owner other hother key hbefore
      exact hnotLast (hkey ▸ hbefore)
    · exact ⟨other, (List.mem_erase_of_ne hsame).mpr hother, rfl⟩

end Operations

/-! ## The result -/

/-- What holds along a run. -/
structure Invariant (bc : Broadcaster K) : Prop where
  numbered : Numbered bc
  subscribed : Subscribed bc

theorem invariant_new : Invariant (Broadcaster.new : Broadcaster K) := by
  refine ⟨⟨?_, ?_, ?_, ?_⟩, ?_⟩
  · intro key channel hlookup
    cases hlookup
  · intro stream hstream
    cases hstream
  · intro key other channel hlookup
    cases hlookup
  · intro stream hstream
    cases hstream
  · rw [subscribed_iff]
    intro key channel hlookup
    cases hlookup

theorem step_invariant {bc next : Broadcaster K} {action : Action K} (hinv : Invariant bc)
    (hnotLast : NotLast bc action) (hstep : step bc action = some next) : Invariant next := by
  cases action with
  | subscribe key =>
      rw [step, Option.some.injEq] at hstep
      exact hstep ▸ ⟨numbered_subscribe hinv.numbered key, subscribed_subscribe hinv.subscribed key⟩
  | send key =>
      rw [step, Option.some.injEq, send_snd] at hstep
      exact hstep ▸
        ⟨numbered_removeIdle hinv.numbered key, subscribed_removeIdle hinv.subscribed key⟩
  | subscriberCount key =>
      rw [step, Option.some.injEq] at hstep
      exact hstep ▸ hinv
  | remove key =>
      rw [step, Option.some.injEq] at hstep
      subst hstep
      refine ⟨hinv.numbered.mono (fun _ _ => lookup_of_remove) (fun _ h => h) rfl, ?_⟩
      rw [subscribed_iff]
      intro other channel hlookup
      exact subscribed_iff.mp hinv.subscribed other channel (lookup_of_remove hlookup)
  | drop stream =>
      rw [step, Option.ite_none_right_eq_some, Option.some.injEq] at hstep
      obtain ⟨hstream, rfl⟩ := hstep
      exact ⟨numbered_drop hinv.numbered stream,
        (subscribed_drop_iff hinv.numbered hinv.subscribed hstream).mpr hnotLast⟩

theorem notLast_of_subscribed {bc next : Broadcaster K} {action : Action K}
    (hinv : Invariant bc) (hstep : step bc action = some next) (hafter : Subscribed next) :
    NotLast bc action := by
  cases action with
  | drop stream =>
      rw [step, Option.ite_none_right_eq_some, Option.some.injEq] at hstep
      obtain ⟨hstream, rfl⟩ := hstep
      exact (subscribed_drop_iff hinv.numbered hinv.subscribed hstream).mp hafter
  | subscribe key => trivial
  | send key => trivial
  | subscriberCount key => trivial
  | remove key => trivial

/-- With subscribed entries, a broadcaster without streams has no entries. -/
theorem channels_empty_of_subscribed {bc : Broadcaster K} (hsubscribed : Subscribed bc)
    (hstreams : bc.streams = []) (key : K) : key ∉ bc.channels := by
  rw [hsubscribed key, hstreams]
  simp

/-- **When the map holds the subscribed keys.**  In every state of a run a key has an
entry exactly when a stream of its channel has not been dropped, if and only if no
step of the run drops the last stream of its key's channel.  In every run a drop keeps
the channels that other streams are subscribed to. -/
theorem channels_subscribed_iff (actions : List (Action K)) :
    ((∀ bc, Machine.Visits step (Broadcaster.new : Broadcaster K) actions bc → Subscribed bc) ↔
      ∀ bc action next,
        Machine.Taken step (Broadcaster.new : Broadcaster K) actions bc action next →
          NotLast bc action) ∧
    ∀ bc stream next,
      Machine.Taken step (Broadcaster.new : Broadcaster K) actions bc (.drop stream) next →
        ∀ key channel, bc.channels.lookup key = some channel →
          (∃ other ∈ bc.streams.erase stream, other.channel = channel) →
            next.channels.lookup key = some channel := by
  constructor
  · exact Machine.visits_iff_allowed Invariant Subscribed NotLast (fun _ hinv => hinv.subscribed)
      (fun _ _ _ => step_invariant) (fun _ _ _ => notLast_of_subscribed) invariant_new
  · rintro bc stream next ⟨before, after, -, -, hstep⟩ key channel hlookup hother
    rw [step, Option.ite_none_right_eq_some, Option.some.injEq] at hstep
    exact hstep.2 ▸ drop_keeps_subscribed hlookup hother

/-- One stream, subscribed and dropped: its key stays in the map. -/
theorem last_drop_leaves_channel : ∃ bc,
    Machine.Visits step (Broadcaster.new : Broadcaster String)
      [.subscribe "room", .drop ⟨0, "room", 0⟩] bc ∧
    bc.streams = [] ∧ "room" ∈ bc.channels ∧ ¬ Subscribed bc := by
  have hends : (Machine.run step (Broadcaster.new : Broadcaster String)
      [.subscribe "room", .drop ⟨0, "room", 0⟩]).any (fun bc =>
        decide (bc.streams = [] ∧ "room" ∈ bc.channels)) = true := by
    decide
  obtain ⟨bc, hrun, hends⟩ := Machine.exists_final hends
  refine ⟨bc, Machine.visits_final hrun, hends.1, hends.2, ?_⟩
  intro hsubscribed
  exact channels_empty_of_subscribed hsubscribed hends.1 "room" hends.2

end Modo.Sse
