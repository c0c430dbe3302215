import Mathlib.Data.List.Perm.Basic
import Modo.Lib.HashMap
import Modo.Lib.Machine
import Modo.Storage.Keys

/-!
# Uploads and deletions of a storage

Calls of `put`, `delete` and `delete_prefix` run at the same time, and other requests come
between two requests of a call.  A request takes effect and is answered, takes effect without an
answer, or fails before.  An upload whose request failed deletes its key again.

`storage_run` says what holds then.  Every object was uploaded, by a call that returned its key
unless its own deletion failed too.  An object stays until it is deleted by its key or with a
prefix of it, and `delete_prefix` leaves none of the objects that it found.  This is said of
keys that one upload has; uploads under prefixes without dots always have keys of their own.
-/

namespace Modo.Storage

open ApiKey (Ulid)

/-! ## Keys of different uploads -/

/-- Where the prefix has no dot, the ULID can be told from the key. -/
theorem generateKey_inj {id other : Ulid} {keyPrefix otherPrefix : List Char}
    {extension otherExtension : Option (List Char)} (hdot : '.' ∉ keyPrefix)
    (hotherDot : '.' ∉ otherPrefix)
    (heq : generateKey id keyPrefix extension = generateKey other otherPrefix otherExtension) :
    id = other := by
  have hstem : ∀ (id : Ulid) (keyPrefix : List Char) (extension : Option (List Char)),
      '.' ∉ keyPrefix → ((generateKey id keyPrefix extension).splitOn '.').head? =
        some (keyPrefix ++ id.text) := by
    intro id keyPrefix extension hdot
    have hnone : '.' ∉ keyPrefix ++ id.text := by
      rw [List.mem_append, not_or]
      exact ⟨hdot, fun hmem => (crockford_spec _ (id.alphabet _ hmem)).2.2 rfl⟩
    have hbare : ((keyPrefix ++ id.text).splitOn '.').head? = some (keyPrefix ++ id.text) := by
      rw [List.splitOn_eq_singleton hnone, List.head?_cons]
    cases extension with
    | none => exact hbare
    | some ext =>
        rw [generateKey]
        split
        · exact hbare
        · rw [← List.append_assoc, List.splitOn_append_cons_self, List.splitOn_eq_singleton hnone]
          rfl
  have htexts : keyPrefix ++ id.text = otherPrefix ++ other.text := by
    rw [← Option.some_inj, ← hstem id keyPrefix extension hdot, heq,
      hstem other otherPrefix otherExtension hotherDot]
  have htext : id.text = other.text :=
    List.append_inj_right' htexts (id.length_eq.trans other.length_eq.symm)
  cases id
  cases other
  cases htext
  rfl

/-! ## The storage -/

/-- `StoredObject`. -/
structure StoredObject where
  data : List UInt8
  contentType : List Char
  acl : Option Acl

/-- What a request to the backend comes to. -/
inductive Outcome where
  | done
  /-- It took effect, and its answer was lost. -/
  | lost
  | failed
  deriving DecidableEq

/-- What is there behind the request. -/
def Outcome.leaves {α : Type*} (outcome : Outcome) (before after : α) : α :=
  if outcome = .failed then before else after

inductive Phase where
  | sending
  /-- The upload failed, the key is to be deleted. -/
  | cleaning
  | returned
  | failed (cleaned : Bool)
  deriving DecidableEq

/-- A call of `put_inner` whose input was accepted. -/
structure Upload where
  input : PutInput
  object : StoredObject
  phase : Phase

def Upload.key (upload : Upload) (id : Ulid) : List Char :=
  generateKey id upload.input.keyPrefix upload.input.extension

/-- The request of the upload was made. -/
def Upload.sent (upload : Upload) (outcome : Outcome) : Upload :=
  { upload with phase := if outcome = .done then .returned else .cleaning }

/-- Its key was to be deleted.  That this failed is only logged. -/
def Upload.cleaned (upload : Upload) (outcome : Outcome) : Upload :=
  { upload with phase := .failed (decide (outcome ≠ .failed)) }

/-- What an object is deleted by. -/
inductive Cause where
  | key (key : List Char)
  | keyPrefix (keyPrefix : List Char)

/-- A call of `delete_prefix` behind its listing. -/
structure Purge where
  keyPrefix : List Char
  listed : List (List Char)
  /-- The keys that are still to be deleted. -/
  rest : List (List Char)
  /-- A request failed, and the error was returned. -/
  aborted : Bool

/-- A storage with the calls under way and, for the statements, the objects that were deleted. -/
structure StorageState where
  maxFileSize : Option ℕ
  objects : HashMap (List Char) StoredObject
  uploads : HashMap Ulid Upload
  purges : List Purge
  removals : List (List Char × Cause)

namespace StorageState

def new (maxFileSize : Option ℕ) : StorageState := ⟨maxFileSize, ∅, ∅, [], []⟩

/-- `put_inner` up to its request.  ULIDs are not drawn twice. -/
def start (storage : StorageState) (id : Ulid) (input : PutInput) (contentType : Option (List Char))
    (opts : PutOptions) : Option StorageState :=
  match validatePath input.keyPrefix with
  | .error _ => some storage
  | .ok () =>
      if storage.maxFileSize.any fun max => decide (max < input.data.length) then some storage
      else if id ∈ storage.uploads then none
      else
        let object := ⟨input.data, contentType.getD input.contentType, opts.acl⟩
        some { storage with uploads := storage.uploads.insert id ⟨input, object, .sending⟩ }

/-- The request of an upload. -/
def send (storage : StorageState) (id : Ulid) (outcome : Outcome) : Option StorageState :=
  match storage.uploads.lookup id with
  | some upload =>
      if upload.phase = .sending then
        some { storage with
          objects := outcome.leaves storage.objects
            (storage.objects.insert (upload.key id) upload.object)
          uploads := storage.uploads.insert id (upload.sent outcome) }
      else none
  | none => none

/-- The deletion after a failed upload. -/
def clean (storage : StorageState) (id : Ulid) (outcome : Outcome) : Option StorageState :=
  match storage.uploads.lookup id with
  | some upload =>
      if upload.phase = .cleaning then
        some { storage with
          objects := outcome.leaves storage.objects (storage.objects.erase (upload.key id))
          uploads := storage.uploads.insert id (upload.cleaned outcome) }
      else none
  | none => none

/-- The deletion of a key.  A key without an object may be deleted. -/
def remove (storage : StorageState) (key : List Char) (cause : Cause) (outcome : Outcome) :
    StorageState :=
  { storage with
    objects := outcome.leaves storage.objects (storage.objects.erase key)
    removals := outcome.leaves storage.removals
      (if key ∈ storage.objects then storage.removals ++ [(key, cause)] else storage.removals) }

/-- `delete`. -/
def delete (storage : StorageState) (key : List Char) (outcome : Outcome) : StorageState :=
  match validatePath key with
  | .error _ => storage
  | .ok () => storage.remove key (.key key) outcome

/-- `delete_prefix` up to the listing, whose keys come in any order. -/
def listPrefix (storage : StorageState) (keyPrefix : List Char) (keys : List (List Char)) :
    Option StorageState :=
  match validatePath keyPrefix with
  | .error _ => some storage
  | .ok () =>
      if keys.Perm (storage.objects.keys.filter keyPrefix.isPrefixOf) then
        some { storage with purges := storage.purges ++ [⟨keyPrefix, keys, keys, false⟩] }
      else none

/-- One round of the loop of `delete_prefix`. -/
def deleteListed (storage : StorageState) (index : ℕ) (outcome : Outcome) : Option StorageState :=
  match storage.purges[index]? with
  | some ⟨keyPrefix, listed, key :: rest, false⟩ =>
      let purge := ⟨keyPrefix, listed, rest, decide (outcome ≠ .done)⟩
      some { storage.remove key (.keyPrefix keyPrefix) outcome with
        purges := storage.purges.set index purge }
  | _ => none

end StorageState

inductive StorageAction where
  | start (id : Ulid) (input : PutInput) (contentType : Option (List Char)) (opts : PutOptions)
  | send (id : Ulid) (outcome : Outcome)
  | clean (id : Ulid) (outcome : Outcome)
  | delete (key : List Char) (outcome : Outcome)
  | listPrefix (keyPrefix : List Char) (keys : List (List Char))
  | deleteListed (index : ℕ) (outcome : Outcome)

def storageStep (storage : StorageState) : StorageAction → Option StorageState
  | .start id input contentType opts => storage.start id input contentType opts
  | .send id outcome => storage.send id outcome
  | .clean id outcome => storage.clean id outcome
  | .delete key outcome => some (storage.delete key outcome)
  | .listPrefix keyPrefix keys => storage.listPrefix keyPrefix keys
  | .deleteListed index outcome => storage.deleteListed index outcome

/-! ## What holds of a storage -/

/-- One upload has the key. -/
def StorageState.Sole (storage : StorageState) (key : List Char) : Prop :=
  ∀ id other upload otherUpload, storage.uploads.lookup id = some upload →
    storage.uploads.lookup other = some otherUpload → upload.key id = key →
      otherUpload.key other = key → id = other

/-- An upload of the key has sent its request. -/
def StorageState.Settled (storage : StorageState) (key : List Char) : Prop :=
  ∃ id upload, storage.uploads.lookup id = some upload ∧ upload.key id = key ∧
    upload.phase ≠ .sending

/-- The request was for the key. -/
def Cause.Covers : Cause → List Char → Prop
  | .key deleted, name => deleted = name ∧ validatePath name = .ok ()
  | .keyPrefix stem, name => stem <+: name ∧ validatePath stem = .ok ()

/-- An upload that may leave its object behind. -/
def Upload.Stores (upload : Upload) : Prop :=
  upload.phase = .returned ∨ upload.phase = .cleaning ∨ upload.phase = .failed false

/-- What `delete_prefix` was for and what it has deleted. -/
structure Purge.Reliable (storage : StorageState) (purge : Purge) : Prop where
  valid : validatePath purge.keyPrefix = .ok ()
  listed : ∀ key ∈ purge.listed, purge.keyPrefix <+: key ∧ storage.Settled key
  rest : purge.rest ⊆ purge.listed
  deleted : purge.aborted = false → ∀ key ∈ purge.listed, key ∉ purge.rest → storage.Sole key →
    storage.objects.lookup key = none

structure StorageState.Reliable (storage : StorageState) : Prop where
  accepted : ∀ id upload, storage.uploads.lookup id = some upload →
    validatePath upload.input.keyPrefix = .ok () ∧ upload.object.data = upload.input.data ∧
      ∀ max ∈ storage.maxFileSize, upload.input.data.length ≤ max
  /-- Objects are uploaded, and no call that cleaned up left one. -/
  stored : ∀ key object, storage.objects.lookup key = some object →
    ∃ id upload, storage.uploads.lookup id = some upload ∧ upload.key id = key ∧
      upload.object = object ∧ upload.Stores
  /-- The object of a key that was returned is there until it is deleted. -/
  kept : ∀ id upload, storage.uploads.lookup id = some upload → upload.phase = .returned →
    storage.Sole (upload.key id) → upload.key id ∉ storage.removals.map Prod.fst →
      storage.objects.lookup (upload.key id) = some upload.object
  removed : ∀ key cause, (key, cause) ∈ storage.removals → cause.Covers key ∧
    storage.Settled key ∧ (storage.Sole key → storage.objects.lookup key = none)
  purges : ∀ purge ∈ storage.purges, purge.Reliable storage

section Steps

variable {storage next : StorageState} {id : Ulid} {key : List Char}

theorem Upload.Stores.ne_sending {upload : Upload} (hstores : upload.Stores) :
    upload.phase ≠ .sending := by
  rcases hstores with hphase | hphase | hphase <;> simp [hphase]

theorem StorageState.Reliable.settled_of_mem (hreliable : storage.Reliable)
    (hmem : key ∈ storage.objects) : storage.Settled key := by
  obtain ⟨object, hobject⟩ := Option.isSome_iff_exists.mp (AList.lookup_isSome.mpr hmem)
  obtain ⟨id, upload, hupload, hkey, -, hstores⟩ := hreliable.stored key object hobject
  exact ⟨id, upload, hupload, hkey, hstores.ne_sending⟩

/-- Uploads keep their keys, and requests are not taken back. -/
def Later (storage next : StorageState) : Prop :=
  ∀ id upload, storage.uploads.lookup id = some upload →
    ∃ later, next.uploads.lookup id = some later ∧ later.key id = upload.key id ∧
      (upload.phase ≠ .sending → later.phase ≠ .sending)

theorem Later.refl_of_uploads_eq (huploads : next.uploads = storage.uploads) :
    Later storage next :=
  fun _ upload hupload => ⟨upload, huploads ▸ hupload, rfl, fun hphase => hphase⟩

theorem Later.sole (hlater : Later storage next) (hsole : next.Sole key) : storage.Sole key := by
  intro id other upload otherUpload hupload hother hkey hotherKey
  obtain ⟨later, hlate, hlateKey, -⟩ := hlater id upload hupload
  obtain ⟨otherLater, hotherLate, hotherLateKey, -⟩ := hlater other otherUpload hother
  exact hsole id other later otherLater hlate hotherLate (hlateKey.trans hkey)
    (hotherLateKey.trans hotherKey)

theorem Later.settled (hlater : Later storage next) (hsettled : storage.Settled key) :
    next.Settled key := by
  obtain ⟨id, upload, hupload, hkey, hphase⟩ := hsettled
  obtain ⟨later, hlate, hlateKey, hlatePhase⟩ := hlater id upload hupload
  exact ⟨id, later, hlate, hlateKey.trans hkey, hlatePhase hphase⟩

/-- Nothing is stored anew. -/
theorem Purge.Reliable.later {purge : Purge} (hpurge : purge.Reliable storage)
    (hlater : Later storage next)
    (hnone : ∀ key, storage.Settled key → next.Sole key → storage.objects.lookup key = none →
      next.objects.lookup key = none) : purge.Reliable next where
  valid := hpurge.valid
  listed := fun key hkey => ⟨(hpurge.listed key hkey).1, hlater.settled (hpurge.listed key hkey).2⟩
  rest := hpurge.rest
  deleted := fun haborted key hkey hrest hsole =>
    hnone key (hpurge.listed key hkey).2 hsole
      (hpurge.deleted haborted key hkey hrest (hlater.sole hsole))

/-- An upload goes on. -/
theorem Later.of_insert {upload later : Upload} (hupload : storage.uploads.lookup id = some upload)
    (hinput : later.input = upload.input) (hphase : later.phase ≠ .sending)
    (huploads : next.uploads = storage.uploads.insert id later) : Later storage next := by
  intro other otherUpload hother
  rw [huploads, AList.lookup_insert_eq]
  split_ifs with heq
  · rw [heq, hupload, Option.some_inj] at hother
    refine ⟨later, rfl, ?_, fun _ => hphase⟩
    rw [Upload.key, hinput, hother, Upload.key]
  · exact ⟨otherUpload, hother, rfl, fun hphase => hphase⟩

theorem StorageState.new_reliable (maxFileSize : Option ℕ) :
    (StorageState.new maxFileSize).Reliable where
  accepted := fun id upload hupload => by simp [StorageState.new] at hupload
  stored := fun key object hobject => by simp [StorageState.new] at hobject
  kept := fun id upload hupload => by simp [StorageState.new] at hupload
  removed := fun key cause hmem => absurd hmem List.not_mem_nil
  purges := fun purge hmem => absurd hmem List.not_mem_nil

/-- An input is refused, or its upload begins. -/
theorem start_spec {input : PutInput} {contentType : Option (List Char)} {opts : PutOptions}
    (hstart : storage.start id input contentType opts = some next) :
    next = storage ∨ validatePath input.keyPrefix = .ok () ∧
      (∀ max ∈ storage.maxFileSize, input.data.length ≤ max) ∧
        storage.uploads.lookup id = none ∧ next = { storage with
          uploads := storage.uploads.insert id
            ⟨input, ⟨input.data, contentType.getD input.contentType, opts.acl⟩, .sending⟩ } := by
  unfold StorageState.start at hstart
  split at hstart
  · exact .inl (Option.some.inj hstart).symm
  rename_i hvalid
  split_ifs at hstart with hsize hfresh
  · exact .inl (Option.some.inj hstart).symm
  refine .inr ⟨hvalid, ?_, AList.lookup_eq_none.mpr hfresh, (Option.some.inj hstart).symm⟩
  intro max hmax
  rw [Option.mem_def.mp hmax, Option.any_some, decide_eq_true_eq] at hsize
  exact Nat.not_lt.mp hsize

theorem reliable_start {input : PutInput} {contentType : Option (List Char)} {opts : PutOptions}
    (hreliable : storage.Reliable)
    (hstart : storage.start id input contentType opts = some next) : next.Reliable := by
  obtain rfl | ⟨hvalid, hsize, hnone, heq⟩ := start_spec hstart
  · exact hreliable
  have hold : ∀ {other upload}, storage.uploads.lookup other = some upload →
      next.uploads.lookup other = some upload := by
    intro other upload hupload
    have hne : other ≠ id := by
      rintro rfl
      rw [hnone] at hupload
      cases hupload
    rw [heq, AList.lookup_insert_eq, if_neg hne, hupload]
  have hlater : Later storage next := fun other upload hupload =>
    ⟨upload, hold hupload, rfl, fun hphase => hphase⟩
  subst heq
  constructor
  · intro other upload hupload
    rw [AList.lookup_insert_eq] at hupload
    split_ifs at hupload with heq
    · obtain rfl := Option.some.inj hupload
      exact ⟨hvalid, rfl, hsize⟩
    · exact hreliable.accepted other upload hupload
  · intro key object hobject
    obtain ⟨other, upload, hupload, hrest⟩ := hreliable.stored key object hobject
    exact ⟨other, upload, hold hupload, hrest⟩
  · intro other upload hupload hphase hsole
    rw [AList.lookup_insert_eq] at hupload
    split_ifs at hupload with heq
    · obtain rfl := Option.some.inj hupload
      cases hphase
    · exact hreliable.kept other upload hupload hphase (hlater.sole hsole)
  · intro key cause hmem
    obtain ⟨hcovers, hsettled, habsent⟩ := hreliable.removed key cause hmem
    exact ⟨hcovers, hlater.settled hsettled, fun hsole => habsent (hlater.sole hsole)⟩
  · intro purge hmem
    exact (hreliable.purges purge hmem).later hlater fun key _ _ habsent => habsent

/-- The key of an upload that has not sent its request is not settled by others. -/
theorem StorageState.Sole.ne_of_settled {upload : Upload}
    (hupload : storage.uploads.lookup id = some upload) (hphase : upload.phase = .sending)
    (hsettled : storage.Settled key) (hsole : storage.Sole key) : key ≠ upload.key id := by
  obtain ⟨other, otherUpload, hother, hkey, hotherPhase⟩ := hsettled
  intro heq
  have hid := hsole id other upload otherUpload hupload hother heq.symm hkey
  rw [← hid, hupload, Option.some_inj] at hother
  exact hotherPhase (hother ▸ hphase)

theorem send_spec {outcome : Outcome} (hsend : storage.send id outcome = some next) :
    ∃ upload, storage.uploads.lookup id = some upload ∧ upload.phase = .sending ∧
      next = { storage with
        objects := outcome.leaves storage.objects
          (storage.objects.insert (upload.key id) upload.object)
        uploads := storage.uploads.insert id (upload.sent outcome) } := by
  unfold StorageState.send at hsend
  split at hsend
  · rename_i upload hupload
    split_ifs at hsend with hphase
    exact ⟨upload, hupload, hphase, (Option.some.inj hsend).symm⟩
  · cases hsend

theorem clean_spec {outcome : Outcome} (hclean : storage.clean id outcome = some next) :
    ∃ upload, storage.uploads.lookup id = some upload ∧ upload.phase = .cleaning ∧
      next = { storage with
        objects := outcome.leaves storage.objects (storage.objects.erase (upload.key id))
        uploads := storage.uploads.insert id (upload.cleaned outcome) } := by
  unfold StorageState.clean at hclean
  split at hclean
  · rename_i upload hupload
    split_ifs at hclean with hphase
    exact ⟨upload, hupload, hphase, (Option.some.inj hclean).symm⟩
  · cases hclean

theorem Upload.stores_sent (upload : Upload) (outcome : Outcome) :
    (upload.sent outcome).Stores := by
  unfold Upload.Stores Upload.sent
  by_cases hdone : outcome = .done
  · exact .inl (if_pos hdone)
  · exact .inr (.inl (if_neg hdone))

theorem reliable_send {outcome : Outcome} (hreliable : storage.Reliable)
    (hsend : storage.send id outcome = some next) : next.Reliable := by
  obtain ⟨upload, hupload, hsending, heq⟩ := send_spec hsend
  have hstores := upload.stores_sent outcome
  have hlater : Later storage next :=
    Later.of_insert hupload (show (upload.sent outcome).input = upload.input from rfl)
      hstores.ne_sending (by rw [heq])
  have hlookup : ∀ other, next.uploads.lookup other =
      if other = id then some (upload.sent outcome) else storage.uploads.lookup other := by
    intro other
    rw [heq, AList.lookup_insert_eq]
  -- the request concerns its own key
  have hobjects : ∀ key, key ≠ upload.key id →
      next.objects.lookup key = storage.objects.lookup key := by
    intro key hne
    rw [heq]
    dsimp only [Outcome.leaves]
    split_ifs
    · rfl
    · rw [AList.lookup_insert_ne hne]
  have hother : ∀ {other otherUpload}, storage.uploads.lookup other = some otherUpload →
      otherUpload.phase ≠ .sending → next.uploads.lookup other = some otherUpload := by
    intro other otherUpload hmem hphase
    rw [hlookup, if_neg, hmem]
    rintro rfl
    rw [hupload, Option.some_inj] at hmem
    exact hphase (hmem ▸ hsending)
  have hnone : ∀ key, storage.Settled key → next.Sole key →
      storage.objects.lookup key = none → next.objects.lookup key = none := by
    intro key hsettled hsole habsent
    rw [hobjects key ((hlater.sole hsole).ne_of_settled hupload hsending hsettled), habsent]
  constructor
  · intro other otherUpload hmem
    rw [hlookup] at hmem
    split_ifs at hmem with hid
    · obtain rfl := Option.some.inj hmem
      rw [heq]
      exact hreliable.accepted id upload hupload
    · rw [heq]
      exact hreliable.accepted other otherUpload hmem
  · intro key object hobject
    by_cases hkey : key = upload.key id ∧ outcome ≠ .failed
    · rw [heq, hkey.1] at hobject
      dsimp only [Outcome.leaves] at hobject
      rw [if_neg hkey.2, AList.lookup_insert, Option.some_inj] at hobject
      exact ⟨id, upload.sent outcome, by rw [hlookup, if_pos rfl], hkey.1.symm, hobject, hstores⟩
    · have hold : storage.objects.lookup key = some object := by
        rw [← hobject, heq]
        dsimp only [Outcome.leaves]
        split_ifs with hfailed
        · rfl
        · rw [AList.lookup_insert_ne fun hsame => hkey ⟨hsame, hfailed⟩]
      obtain ⟨other, otherUpload, hmem, hrest⟩ := hreliable.stored key object hold
      exact ⟨other, otherUpload, hother hmem hrest.2.2.ne_sending, hrest⟩
  · intro other otherUpload hmem hphase hsole hremoved
    rw [hlookup] at hmem
    split_ifs at hmem with hid
    · obtain rfl := Option.some.inj hmem
      have hdone : outcome = .done := by
        by_contra hne
        rw [Upload.sent, if_neg hne] at hphase
        cases hphase
      rw [hid, heq, hdone]
      exact AList.lookup_insert _
    · have hmemNext : next.uploads.lookup other = some otherUpload := by
        rw [hlookup, if_neg hid, hmem]
      have hne : otherUpload.key other ≠ upload.key id := fun hkey =>
        hid (hsole other id otherUpload (upload.sent outcome) hmemNext
          (by rw [hlookup, if_pos rfl]) rfl hkey.symm)
      rw [hobjects _ hne]
      refine hreliable.kept other otherUpload hmem hphase (hlater.sole hsole) ?_
      rw [heq] at hremoved
      exact hremoved
  · intro key cause hmem
    rw [heq] at hmem
    obtain ⟨hcovers, hsettled, habsent⟩ := hreliable.removed key cause hmem
    exact ⟨hcovers, hlater.settled hsettled, fun hsole =>
      hnone key hsettled hsole (habsent (hlater.sole hsole))⟩
  · intro purge hmem
    rw [heq] at hmem
    exact (hreliable.purges purge hmem).later hlater hnone

/-- What deleting does to any storage. -/
theorem lookup_erase_leaves {objects : HashMap (List Char) StoredObject} {outcome : Outcome}
    {object : StoredObject} {other : List Char}
    (hobject : (outcome.leaves objects (objects.erase key)).lookup other = some object) :
    objects.lookup other = some object ∧ (other = key → outcome = .failed) := by
  unfold Outcome.leaves at hobject
  split_ifs at hobject with hfailed
  · exact ⟨hobject, fun _ => hfailed⟩
  · rw [AList.lookup_erase_eq] at hobject
    split_ifs at hobject with heq
    exact ⟨hobject, fun hsame => absurd hsame heq⟩

theorem lookup_erase_leaves_of_ne (objects : HashMap (List Char) StoredObject) (outcome : Outcome)
    {other : List Char} (hne : other ≠ key) :
    (outcome.leaves objects (objects.erase key)).lookup other = objects.lookup other := by
  unfold Outcome.leaves
  split_ifs
  · rfl
  · rw [AList.lookup_erase_eq, if_neg hne]

theorem lookup_erase_leaves_eq_none {objects : HashMap (List Char) StoredObject}
    (outcome : Outcome) {other : List Char} (hnone : objects.lookup other = none) :
    (outcome.leaves objects (objects.erase key)).lookup other = none := by
  rw [Option.eq_none_iff_forall_ne_some]
  intro object hobject
  rw [(lookup_erase_leaves hobject).1] at hnone
  cases hnone

theorem reliable_clean {outcome : Outcome} (hreliable : storage.Reliable)
    (hclean : storage.clean id outcome = some next) : next.Reliable := by
  obtain ⟨upload, hupload, hcleaning, heq⟩ := clean_spec hclean
  have hphase : (upload.cleaned outcome).phase ≠ .sending := Phase.noConfusion
  have hlater : Later storage next :=
    Later.of_insert hupload (show (upload.cleaned outcome).input = upload.input from rfl) hphase
      (by rw [heq])
  have hlookup : ∀ other, next.uploads.lookup other =
      if other = id then some (upload.cleaned outcome) else storage.uploads.lookup other := by
    intro other
    rw [heq, AList.lookup_insert_eq]
  have hnone : ∀ key, storage.Settled key → next.Sole key →
      storage.objects.lookup key = none → next.objects.lookup key = none := by
    intro key _ _ habsent
    rw [heq]
    exact lookup_erase_leaves_eq_none outcome habsent
  constructor
  · intro other otherUpload hmem
    rw [hlookup] at hmem
    rw [heq]
    split_ifs at hmem with hid
    · obtain rfl := Option.some.inj hmem
      exact hreliable.accepted id upload hupload
    · exact hreliable.accepted other otherUpload hmem
  · intro key object hobject
    rw [heq] at hobject
    obtain ⟨hold, hfailed⟩ := lookup_erase_leaves hobject
    obtain ⟨other, otherUpload, hmem, hkey, hsame, hstores⟩ := hreliable.stored key object hold
    by_cases hid : other = id
    · rw [hid, hupload, Option.some_inj] at hmem
      subst hmem
      refine ⟨id, upload.cleaned outcome, by rw [hlookup, if_pos rfl], hid ▸ hkey, hsame,
        .inr (.inr ?_)⟩
      rw [Upload.cleaned, hfailed (hkey.symm.trans (by rw [hid]))]
      rfl
    · exact ⟨other, otherUpload, by rw [hlookup, if_neg hid, hmem], hkey, hsame, hstores⟩
  · intro other otherUpload hmem hreturned hsole hremoved
    rw [hlookup] at hmem
    split_ifs at hmem with hid
    · obtain rfl := Option.some.inj hmem
      cases hreturned
    · have hne : otherUpload.key other ≠ upload.key id := fun hkey =>
        hid (hsole other id otherUpload (upload.cleaned outcome)
          (by rw [hlookup, if_neg hid, hmem]) (by rw [hlookup, if_pos rfl]) rfl hkey.symm)
      rw [heq] at hremoved ⊢
      rw [lookup_erase_leaves_of_ne _ _ hne]
      exact hreliable.kept other otherUpload hmem hreturned (hlater.sole hsole) hremoved
  · intro key cause hmem
    rw [heq] at hmem
    obtain ⟨hcovers, hsettled, habsent⟩ := hreliable.removed key cause hmem
    exact ⟨hcovers, hlater.settled hsettled, fun hsole =>
      hnone key hsettled hsole (habsent (hlater.sole hsole))⟩
  · intro purge hmem
    rw [heq] at hmem
    exact (hreliable.purges purge hmem).later hlater hnone

/-- A deleted object is noted, with what it was deleted by. -/
theorem mem_removals_remove {cause : Cause} {outcome : Outcome} {other : List Char}
    {otherCause : Cause}
    (hmem : (other, otherCause) ∈ (storage.remove key cause outcome).removals) :
    (other, otherCause) ∈ storage.removals ∨
      other = key ∧ otherCause = cause ∧ key ∈ storage.objects ∧ outcome ≠ .failed := by
  unfold StorageState.remove Outcome.leaves at hmem
  dsimp only at hmem
  split_ifs at hmem with hfailed hkey
  · exact .inl hmem
  · rcases List.mem_append.mp hmem with hmem | hmem
    · exact .inl hmem
    · obtain ⟨rfl, rfl⟩ := Prod.mk.inj (List.mem_singleton.mp hmem)
      exact .inr ⟨rfl, rfl, hkey, hfailed⟩
  · exact .inl hmem

theorem reliable_remove {cause : Cause} {outcome : Outcome} (hreliable : storage.Reliable)
    (hcause : cause.Covers key) : (storage.remove key cause outcome).Reliable := by
  have hlater : Later storage (storage.remove key cause outcome) := Later.refl_of_uploads_eq rfl
  have hnone : ∀ other, storage.Settled other → (storage.remove key cause outcome).Sole other →
      storage.objects.lookup other = none →
        (storage.remove key cause outcome).objects.lookup other = none :=
    fun other _ _ habsent => lookup_erase_leaves_eq_none outcome habsent
  constructor
  · exact hreliable.accepted
  · intro other object hobject
    exact hreliable.stored other object (lookup_erase_leaves hobject).1
  · intro id upload hupload hreturned hsole hremoved
    have hold : upload.key id ∉ storage.removals.map Prod.fst := by
      intro hmem
      refine hremoved (List.map_subset _ ?_ hmem)
      unfold StorageState.remove Outcome.leaves
      dsimp only
      split_ifs
      · exact List.Subset.refl _
      · exact List.subset_append_left _ _
      · exact List.Subset.refl _
    have hobject := hreliable.kept id upload hupload hreturned hsole hold
    by_cases hkey : upload.key id = key
    · by_cases hfailed : outcome = .failed
      · rw [StorageState.remove, Outcome.leaves, if_pos hfailed]
        exact hobject
      · -- it would have been noted
        have hpresent : key ∈ storage.objects := by
          rw [← AList.lookup_isSome, ← hkey, hobject, Option.isSome_some]
        refine absurd ?_ hremoved
        have hnoted : (key, cause) ∈ (storage.remove key cause outcome).removals := by
          unfold StorageState.remove Outcome.leaves
          dsimp only
          rw [if_neg hfailed, if_pos hpresent]
          exact List.mem_append_right _ List.mem_cons_self
        exact List.mem_map.mpr ⟨(key, cause), hnoted, hkey.symm⟩
    · rw [← hobject]
      exact lookup_erase_leaves_of_ne _ _ hkey
  · intro other otherCause hmem
    rcases mem_removals_remove hmem with hmem | ⟨rfl, rfl, hkey, hfailed⟩
    · obtain ⟨hcovers, hsettled, habsent⟩ := hreliable.removed other otherCause hmem
      exact ⟨hcovers, hsettled, fun hsole => hnone other hsettled hsole (habsent hsole)⟩
    · refine ⟨hcause, hreliable.settled_of_mem hkey, fun _ => ?_⟩
      rw [StorageState.remove, Outcome.leaves, if_neg hfailed]
      exact AList.lookup_erase _ _
  · intro purge hmem
    exact (hreliable.purges purge hmem).later hlater hnone

theorem reliable_delete {outcome : Outcome} (hreliable : storage.Reliable) :
    (storage.delete key outcome).Reliable := by
  unfold StorageState.delete
  cases hvalid : validatePath key with
  | error response => exact hreliable
  | ok _ => exact reliable_remove hreliable ⟨rfl, hvalid⟩

theorem reliable_listPrefix {keyPrefix : List Char} {keys : List (List Char)}
    (hreliable : storage.Reliable)
    (hlist : storage.listPrefix keyPrefix keys = some next) : next.Reliable := by
  unfold StorageState.listPrefix at hlist
  split at hlist
  · exact Option.some.inj hlist ▸ hreliable
  rename_i hvalid
  split_ifs at hlist with hperm
  obtain rfl := Option.some.inj hlist
  refine ⟨hreliable.accepted, hreliable.stored, hreliable.kept, hreliable.removed, ?_⟩
  intro purge hmem
  rcases List.mem_append.mp hmem with hmem | hmem
  · exact (hreliable.purges purge hmem).later (Later.refl_of_uploads_eq rfl)
      fun _ _ _ habsent => habsent
  · obtain rfl := List.mem_singleton.mp hmem
    refine ⟨hvalid, ?_, List.Subset.refl _, fun _ key hkey hrest => absurd hkey hrest⟩
    intro key hkey
    obtain ⟨hpresent, hprefix⟩ := List.mem_filter.mp (hperm.mem_iff.mp hkey)
    exact ⟨List.isPrefixOf_iff_prefix.mp hprefix, hreliable.settled_of_mem hpresent⟩

theorem reliable_deleteListed {index : ℕ} {outcome : Outcome} (hreliable : storage.Reliable)
    (hdelete : storage.deleteListed index outcome = some next) : next.Reliable := by
  unfold StorageState.deleteListed at hdelete
  split at hdelete
  · rename_i keyPrefix listed key rest hindex
    obtain rfl := Option.some.inj hdelete
    obtain ⟨hvalid, hlisted, hrest, hdeleted⟩ :=
      hreliable.purges _ (List.mem_of_getElem? hindex)
    have hkey : key ∈ listed := hrest List.mem_cons_self
    have hcovers : (Cause.keyPrefix keyPrefix).Covers key := ⟨(hlisted key hkey).1, hvalid⟩
    have hremoved : (storage.remove key (.keyPrefix keyPrefix) outcome).Reliable :=
      reliable_remove hreliable hcovers
    refine ⟨hremoved.accepted, hremoved.stored, hremoved.kept, hremoved.removed, ?_⟩
    intro purge hmem
    rcases List.mem_or_eq_of_mem_set hmem with hmem | rfl
    · exact (hremoved.purges purge hmem).later (Later.refl_of_uploads_eq rfl)
        fun _ _ _ habsent => habsent
    · refine ⟨hvalid, hlisted, fun _ hmem => hrest (List.mem_cons_of_mem key hmem), ?_⟩
      intro haborted other hother hotherRest hsole
      have hdone : outcome = .done := by simpa using haborted
      by_cases heq : other = key
      · rw [heq, StorageState.remove, Outcome.leaves, hdone]
        exact AList.lookup_erase _ _
      · refine lookup_erase_leaves_eq_none outcome (hdeleted rfl other hother ?_ hsole)
        rw [List.mem_cons, not_or]
        exact ⟨heq, hotherRest⟩
  · cases hdelete

theorem reliable_step {action : StorageAction} (hreliable : storage.Reliable)
    (hstep : storageStep storage action = some next) : next.Reliable := by
  cases action with
  | start id input contentType opts => exact reliable_start hreliable hstep
  | send id outcome => exact reliable_send hreliable hstep
  | clean id outcome => exact reliable_clean hreliable hstep
  | delete key outcome => exact Option.some.inj hstep ▸ reliable_delete hreliable
  | listPrefix keyPrefix keys => exact reliable_listPrefix hreliable hstep
  | deleteListed index outcome => exact reliable_deleteListed hreliable hstep

theorem maxFileSize_step {action : StorageAction} (hstep : storageStep storage action = some next) :
    next.maxFileSize = storage.maxFileSize := by
  cases action with
  | start id input contentType opts =>
      obtain rfl | ⟨-, -, -, rfl⟩ := start_spec hstep <;> rfl
  | send id outcome =>
      obtain ⟨upload, -, -, rfl⟩ := send_spec hstep
      rfl
  | clean id outcome =>
      obtain ⟨upload, -, -, rfl⟩ := clean_spec hstep
      rfl
  | delete key outcome =>
      obtain rfl := Option.some.inj hstep
      unfold StorageState.delete
      split <;> rfl
  | listPrefix keyPrefix keys =>
      simp only [storageStep, StorageState.listPrefix] at hstep
      split at hstep
      · exact Option.some.inj hstep ▸ rfl
      · split_ifs at hstep
        exact Option.some.inj hstep ▸ rfl
  | deleteListed index outcome =>
      simp only [storageStep, StorageState.deleteListed] at hstep
      split at hstep
      · exact Option.some.inj hstep ▸ rfl
      · cases hstep

end Steps

/-- **Uploads and deletions**: in any run of them, objects are where the calls that returned say,
and where the prefixes of all uploads have no dot, no two have a key in common. -/
theorem storage_run {maxFileSize : Option ℕ} {actions : List StorageAction} {final : StorageState}
    (hrun : Machine.run storageStep (StorageState.new maxFileSize) actions = some final) :
    final.maxFileSize = maxFileSize ∧ final.Reliable ∧
      ((∀ id upload, final.uploads.lookup id = some upload → '.' ∉ upload.input.keyPrefix) →
        ∀ key, final.Sole key) := by
  refine ⟨?_, Machine.run_invariant StorageState.Reliable (fun _ _ _ => reliable_step)
    (StorageState.new_reliable maxFileSize) hrun, ?_⟩
  · exact Machine.run_invariant (fun storage => storage.maxFileSize = maxFileSize)
      (fun _ _ _ hinv hstep => (maxFileSize_step hstep).trans hinv) rfl hrun
  intro hdots key id other upload otherUpload hupload hother hkey hotherKey
  exact generateKey_inj (hdots id upload hupload) (hdots other otherUpload hother)
    (hkey.trans hotherKey.symm)

/-- A photo below `album/`. -/
def photoInput : PutInput := ⟨[1, 2], "album/".toList, some "a.PNG".toList, "image/png".toList⟩

def otherUlid : Ulid := ⟨List.replicate 26 '1', by decide, by decide⟩

/-- The answer of the first upload is lost, and its own deletion fails.  The album is listed for
deletion before the second upload. -/
def albumRun : List StorageAction :=
  [.start someUlid photoInput none noOptions, .send someUlid .lost,
    .start otherUlid photoInput none noOptions,
    .listPrefix "album/".toList [generateKey someUlid "album/".toList (some "png".toList)],
    .send otherUlid .done, .clean someUlid .failed, .deleteListed 0 .done]

theorem storage_run_album :
    ∃ final, Machine.run storageStep (StorageState.new (some 2)) albumRun = some final ∧
      final.objects.keys = [generateKey otherUlid "album/".toList (some "png".toList)] ∧
      final.Reliable := by
  have hrun : ∃ final, Machine.run storageStep (StorageState.new (some 2)) albumRun = some final ∧
      final.objects.keys = [generateKey otherUlid "album/".toList (some "png".toList)] :=
    Machine.exists_final (by decide +kernel)
  obtain ⟨final, hrun, hkeys⟩ := hrun
  exact ⟨final, hrun, hkeys, (storage_run hrun).2.1⟩

end Modo.Storage
