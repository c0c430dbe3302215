import Modo.Storage.Client
import Modo.Storage.Listing

/-!
# How a listing ends

`RemoteBackend::list` asks for a page in every round and goes on while the pages say that there is
more.  The token of the next request is what the page has for one, and that may be nothing: then the
next round asks for the first page again.

`stopsAt_iff` says that this is the only way in which the loop goes on behind a last page.
-/

namespace Modo.Storage

/-- What a round gets from the server. -/
inductive Response where
  /-- `send` fails. -/
  | unsent (error : List Char)
  /-- The body cannot be read. -/
  | unread (error : List Char)
  | answer (status : List Char) (success : Bool) (body : List UInt8)

/-- What the loop carries from one round to the next. -/
structure ListState where
  allKeys : List (List Char)
  continuationToken : Option (List Char)

def ListState.new : ListState := ⟨[], none⟩

inductive Round where
  | next (state : ListState)
  /-- The result, or the message of the error. -/
  | done (result : Except (List Char) (List (List Char)))

/-- The page says that there are more. -/
def isTruncated (body : List Char) : Bool := extractXmlValue body isTruncatedTag == some trueText

/-- One round of `RemoteBackend::list`. -/
def listRound (state : ListState) : Response → Round
  | .unsent error => .done (.error ("LIST request failed: ".toList ++ error))
  | .unread error => .done (.error ("failed to read response: ".toList ++ error))
  | .answer status success bytes =>
      let body := Utf8.decodeLossy bytes
      if success = false then
        .done (.error ("LIST failed (".toList ++ (status ++ ("): ".toList ++ body))))
      else
        let allKeys := state.allKeys ++ extractXmlValues body keyTag
        if isTruncated body then .next ⟨allKeys, extractXmlValue body nextContinuationTokenTag⟩
        else .done (.ok allKeys)

/-- The loop after some rounds. -/
def listRounds (responses : ℕ → Response) : ℕ → Round
  | 0 => .next .new
  | rounds + 1 =>
      match listRounds responses rounds with
      | .done result => .done result
      | .next state => listRound state (responses rounds)

/-- The loop is on when it gets this response, and over with it. -/
def StopsAt (responses : ℕ → Response) (index : ℕ) : Prop :=
  (∃ state, listRounds responses index = .next state) ∧
    ∃ result, listRounds responses (index + 1) = .done result

/-- A truncated page without a token for the next one. -/
def Response.isTokenless : Response → Bool
  | .answer _ success bytes =>
      success && isTruncated (Utf8.decodeLossy bytes) &&
        (extractXmlValue (Utf8.decodeLossy bytes) nextContinuationTokenTag).isNone
  | _ => false

/-- The request fails, the page is not truncated, or it has no token for the next one. -/
def Response.isLast (response : Response) : Bool :=
  match response with
  | .answer _ success bytes =>
      !success || !isTruncated (Utf8.decodeLossy bytes) || response.isTokenless
  | _ => true

theorem listRound_of_isTruncated {bytes : List UInt8}
    (htruncated : isTruncated (Utf8.decodeLossy bytes) = true) (state : ListState)
    (status : List Char) :
    listRound state (.answer status true bytes) =
      .next ⟨state.allKeys ++ extractXmlValues (Utf8.decodeLossy bytes) keyTag,
        extractXmlValue (Utf8.decodeLossy bytes) nextContinuationTokenTag⟩ := by
  rw [listRound]
  exact (if_neg (by decide)).trans (if_pos htruncated)

/-- A page that is not the last one is followed by the request for the next one. -/
theorem listRound_of_not_isLast {response : Response} (hlast : response.isLast = false)
    (state : ListState) :
    ∃ next token, listRound state response = .next next ∧ next.continuationToken = some token := by
  cases response with
  | unsent => cases hlast
  | unread => cases hlast
  | answer status success bytes =>
      simp only [Response.isLast, Response.isTokenless, Bool.or_eq_false_iff,
        Bool.not_eq_eq_eq_not, Bool.not_false] at hlast
      obtain ⟨⟨rfl, htruncated⟩, htoken⟩ := hlast
      rw [htruncated, Bool.and_true, Bool.true_and, Option.isNone_eq_false_iff] at htoken
      obtain ⟨token, htoken⟩ := Option.isSome_iff_exists.mp htoken
      exact ⟨_, token, listRound_of_isTruncated htruncated state status, htoken⟩

/-- A tokenless page is followed by the request for the first one. -/
theorem listRound_of_isTokenless {response : Response} (htokenless : response.isTokenless = true)
    (state : ListState) :
    ∃ next, listRound state response = .next next ∧ next.continuationToken = none := by
  cases response with
  | unsent => cases htokenless
  | unread => cases htokenless
  | answer status success bytes =>
      rw [Response.isTokenless, Bool.and_eq_true, Bool.and_eq_true, Option.isNone_iff_eq_none]
        at htokenless
      obtain ⟨⟨rfl, htruncated⟩, htoken⟩ := htokenless
      exact ⟨_, listRound_of_isTruncated htruncated state status, htoken⟩

/-- The other last pages end the loop. -/
theorem listRound_of_isLast {response : Response} (hlast : response.isLast = true)
    (htokenless : response.isTokenless = false) (state : ListState) :
    ∃ result, listRound state response = .done result := by
  cases response with
  | unsent => exact ⟨_, rfl⟩
  | unread => exact ⟨_, rfl⟩
  | answer status success bytes =>
      rw [Response.isLast, htokenless, Bool.or_false] at hlast
      rw [listRound]
      cases success with
      | false => exact ⟨_, rfl⟩
      | true =>
          have htruncated : isTruncated (Utf8.decodeLossy bytes) = false := by simpa using hlast
          simp only [Bool.true_eq_false, if_false, htruncated]
          exact ⟨_, rfl⟩

theorem listRounds_succ {responses : ℕ → Response} {rounds : ℕ} {state : ListState}
    (hstate : listRounds responses rounds = .next state) :
    listRounds responses (rounds + 1) = listRound state (responses rounds) := by
  rw [listRounds, hstate]

/-- The loop is on up to the first last page. -/
theorem exists_listRounds_next {responses : ℕ → Response} {index : ℕ}
    (hbefore : ∀ earlier < index, (responses earlier).isLast = false) :
    ∃ state, listRounds responses index = .next state := by
  induction index with
  | zero => exact ⟨.new, rfl⟩
  | succ index ih =>
      obtain ⟨state, hstate⟩ := ih fun earlier hearlier =>
        hbefore earlier (Nat.lt_succ_of_lt hearlier)
      obtain ⟨next, _, hnext, _⟩ :=
        listRound_of_not_isLast (hbefore index (Nat.lt_succ_self index)) state
      exact ⟨next, (listRounds_succ hstate).trans hnext⟩

/-- **The listing ends with its first last page exactly when this is not a truncated page without a
token.** -/
theorem stopsAt_iff {responses : ℕ → Response} {index : ℕ}
    (hlast : (responses index).isLast = true)
    (hbefore : ∀ earlier < index, (responses earlier).isLast = false) :
    StopsAt responses index ↔ (responses index).isTokenless = false := by
  obtain ⟨state, hstate⟩ := exists_listRounds_next hbefore
  constructor
  · rintro ⟨_, result, hdone⟩
    rw [listRounds_succ hstate] at hdone
    cases htokenless : (responses index).isTokenless with
    | false => rfl
    | true =>
        obtain ⟨next, hnext, _⟩ := listRound_of_isTokenless htokenless state
        rw [hnext] at hdone
        cases hdone
  · intro htokenless
    obtain ⟨result, hdone⟩ := listRound_of_isLast hlast htokenless state
    exact ⟨⟨state, hstate⟩, result, (listRounds_succ hstate).trans hdone⟩

/-- Two pages, the second of them the last. -/
def twoPages : ℕ → Response
  | 0 => .answer "200 OK".toList true (asBytes ("<IsTruncated>true</IsTruncated>" ++
      "<NextContinuationToken>n</NextContinuationToken>").toList)
  | _ => .answer "200 OK".toList true (asBytes "<IsTruncated>false</IsTruncated>".toList)

theorem stopsAt_twoPages : StopsAt twoPages 1 := by
  refine (stopsAt_iff (by decide) fun earlier hearlier => ?_).mpr (by decide)
  have hzero : earlier = 0 := by omega
  subst hzero
  decide

/-- A server that always says that there is more, and never has a token. -/
def tokenlessPages (_ : ℕ) : Response :=
  .answer "200 OK".toList true (asBytes "<IsTruncated>true</IsTruncated>".toList)

/-- Its first page is the first one again and again. -/
theorem stopsAt_never :
    (tokenlessPages 0).isLast = true ∧ ¬ StopsAt tokenlessPages 0 ∧
      ∀ rounds, ∃ state, listRounds tokenlessPages rounds = .next state ∧
        state.continuationToken = none := by
  have htokenless : (tokenlessPages 0).isTokenless = true := by decide
  have hrounds : ∀ rounds, ∃ state, listRounds tokenlessPages rounds = .next state ∧
      state.continuationToken = none := by
    intro rounds
    induction rounds with
    | zero => exact ⟨.new, rfl, rfl⟩
    | succ rounds ih =>
        obtain ⟨state, hstate, _⟩ := ih
        obtain ⟨next, hnext, htoken⟩ := listRound_of_isTokenless htokenless state
        exact ⟨next, (listRounds_succ hstate).trans hnext, htoken⟩
  refine ⟨by decide, ?_, hrounds⟩
  rintro ⟨_, result, hdone⟩
  obtain ⟨state, hstate, _⟩ := hrounds 1
  rw [hstate] at hdone
  cases hdone

end Modo.Storage
