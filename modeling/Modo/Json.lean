import Mathlib.Data.Int.Basic
import Mathlib.Data.List.Basic

/-!
# JSON values

`serde_json::Value` as the program uses it.  The crate is built without
`preserve_order`, so an object is a `BTreeMap`: its members are kept in the
order of their keys, and inserting replaces the value under a key that is there
already.  Keys compare by their UTF-8 bytes, which is the order of their code
points.
-/

namespace Modo

/-- `serde_json::Number`. -/
inductive Number where
  | posInt (n : ℕ)
  | negInt (n : ℤ)
  /-- A float, by its bits. -/
  | float (bits : UInt64)
  deriving DecidableEq

/-- `serde_json::Value`. -/
inductive Json where
  | null
  | bool (value : Bool)
  | number (value : Number)
  | string (value : String)
  | array (items : List Json)
  | object (members : List (String × Json))

namespace Json

mutual

/-- Equality of values. -/
def decEq : (a b : Json) → Decidable (a = b)
  | null, null => isTrue rfl
  | bool a, bool b => decidable_of_iff (a = b) (by simp)
  | number a, number b => decidable_of_iff (a = b) (by simp)
  | string a, string b => decidable_of_iff (a = b) (by simp)
  | array a, array b =>
      match decEqItems a b with
      | isTrue h => isTrue (congrArg array h)
      | isFalse h => isFalse fun heq => h (array.inj heq)
  | object a, object b =>
      match decEqMembers a b with
      | isTrue h => isTrue (congrArg object h)
      | isFalse h => isFalse fun heq => h (object.inj heq)
  | null, bool _ | null, number _ | null, string _ | null, array _ | null, object _
  | bool _, null | bool _, number _ | bool _, string _ | bool _, array _ | bool _, object _
  | number _, null | number _, bool _ | number _, string _ | number _, array _
  | number _, object _
  | string _, null | string _, bool _ | string _, number _ | string _, array _
  | string _, object _
  | array _, null | array _, bool _ | array _, number _ | array _, string _ | array _, object _
  | object _, null | object _, bool _ | object _, number _ | object _, string _
  | object _, array _ => isFalse nofun

/-- Equality of the items of arrays. -/
def decEqItems : (a b : List Json) → Decidable (a = b)
  | [], [] => isTrue rfl
  | [], _ :: _ | _ :: _, [] => isFalse nofun
  | a :: as, b :: bs =>
      match decEq a b, decEqItems as bs with
      | isTrue h, isTrue hs => isTrue (h ▸ hs ▸ rfl)
      | isFalse h, _ => isFalse fun heq => h (List.cons.inj heq).1
      | _, isFalse hs => isFalse fun heq => hs (List.cons.inj heq).2

/-- Equality of the members of objects. -/
def decEqMembers : (a b : List (String × Json)) → Decidable (a = b)
  | [], [] => isTrue rfl
  | [], _ :: _ | _ :: _, [] => isFalse nofun
  | (k, a) :: as, (l, b) :: bs =>
      match decEq a b, decEqMembers as bs with
      | isTrue h, isTrue hs =>
          if hk : k = l then isTrue (hk ▸ h ▸ hs ▸ rfl)
          else isFalse fun heq => hk (Prod.mk.inj (List.cons.inj heq).1).1
      | isFalse h, _ => isFalse fun heq => h (Prod.mk.inj (List.cons.inj heq).1).2
      | _, isFalse hs => isFalse fun heq => hs (List.cons.inj heq).2

end

instance : DecidableEq Json := decEq

/-- `Map::insert`. -/
def insertMember (key : String) (value : Json) : List (String × Json) → List (String × Json)
  | [] => [(key, value)]
  | (other, old) :: rest =>
      if key = other then (key, value) :: rest
      else if key < other then (key, value) :: (other, old) :: rest
      else (other, old) :: insertMember key value rest

/-- `Map::remove`. -/
def removeMember (key : String) (members : List (String × Json)) : List (String × Json) :=
  members.filter fun member => decide (member.1 ≠ key)

/-- `Value::get` with a key. -/
def get (key : String) : Json → Option Json
  | object members => members.lookup key
  | _ => none

/-- `value[key] = member` on an object. -/
def set (value : Json) (key : String) (member : Json) : Json :=
  match value with
  | object members => object (insertMember key member members)
  | other => other

/-- `Value::as_str`. -/
def asStr : Json → Option String
  | string value => some value
  | _ => none

/-- `Value::as_u64`. -/
def asU64 : Json → Option ℕ
  | number (.posInt n) => some n
  | _ => none

theorem lookup_insertMember (key other : String) (value : Json) (members : List (String × Json)) :
    (insertMember key value members).lookup other =
      if other = key then some value else members.lookup other := by
  have hcons : ∀ rest : List (String × Json), ((key, value) :: rest).lookup other =
      if other = key then some value else rest.lookup other := by
    intro rest
    rw [List.lookup_cons]
    by_cases hother : other = key
    · rw [if_pos hother, hother, beq_self_eq_true]
    · rw [if_neg hother, beq_false_of_ne hother]
  induction members with
  | nil => exact hcons []
  | cons member rest ih =>
      obtain ⟨name, old⟩ := member
      rw [insertMember]
      by_cases hname : key = name
      · subst hname
        rw [if_pos rfl, hcons, List.lookup_cons]
        by_cases hother : other = key
        · rw [if_pos hother, if_pos hother]
        · rw [if_neg hother, if_neg hother, beq_false_of_ne hother]
      · rw [if_neg hname]
        split
        · exact hcons _
        · rw [List.lookup_cons, List.lookup_cons, ih]
          by_cases hother : other = key
          · rw [if_pos hother, if_pos hother, hother, beq_false_of_ne hname]
          · rw [if_neg hother, if_neg hother]

end Json

end Modo
