/- Tsender/Json/Value
   source: jsoncpp.cpp (Value: operator[], size, isInt, asInt, asUInt, asInt64, asUInt64, asString)
   digest: JSON values and the accessors that throw on a value of the wrong type. -/

import Mathlib.Algebra.Ring.Int.Defs
import Mathlib.Algebra.Ring.Nat
import Mathlib.Data.List.Basic
import Mathlib.Tactic.Common
import Tsender.Lib.Fallible

set_option autoImplicit false
set_option relaxedAutoImplicit false

namespace Tsender.Json

/-- A `std::string`. -/
abbrev Str := List Char

/-- What the library does with a `double`. -/
class Doubles (R : Type) where
  /-- `istream >> double` on all of a text, if it succeeds. -/
  scan : Str → Option R
  /-- `InRange` between two integers. -/
  inRange : ℤ → ℤ → R → Bool
  /-- The conversion to an integer type. -/
  toInt : R → ℤ
  isIntegral : R → Bool
  /-- `valueToString`. -/
  toStr : R → Str

inductive Value (R : Type) where
  | null
  | bool (b : Bool)
  | int (n : Int64)
  | uint (n : UInt64)
  | real (r : R)
  | string (s : Str)
  | array (vs : List (Value R))
  | object (ms : List (Str × Value R))

inductive Fault where
  /-- `Json::LogicError`. -/
  | logicError
  /-- `Json::RuntimeError`. -/
  | runtimeError
  /-- An access behind the end of an array. -/
  | outOfBounds
  /-- The use of a null pointer. -/
  | nullPointer
  /-- The use of an object or a text that is gone. -/
  | useAfterFree
  | divideByZero
  deriving DecidableEq

def maxInt : ℤ := 2 ^ 31 - 1
def minInt : ℤ := -2 ^ 31
def maxUInt : ℤ := 2 ^ 32 - 1
def maxInt64 : ℤ := 2 ^ 63 - 1
def minInt64 : ℤ := -2 ^ 63
def maxUInt64 : ℤ := 2 ^ 64 - 1

section Members

variable {R : Type}

/-- Assignment to the member `key` of an object. -/
def setMember : List (Str × Value R) → Str → Value R → List (Str × Value R)
  | [], key, v => [(key, v)]
  | (k, w) :: ms, key, v => if key = k then (k, v) :: ms else (k, w) :: setMember ms key v

def getMember (ms : List (Str × Value R)) (key : Str) : Value R := (ms.lookup key).getD .null

/-- `operator[]` on an object inserts what is missing. -/
def touchMember (ms : List (Str × Value R)) (key : Str) : List (Str × Value R) :=
  match ms.lookup key with
  | some _ => ms
  | none => setMember ms key .null

private theorem setMember_eq_self_iff {ms : List (Str × Value R)} {key : Str} {v : Value R} :
    setMember ms key v = ms ↔ ms.lookup key = some v := by
  induction ms with
  | nil => simp [setMember]
  | cons m ms ih =>
    obtain ⟨k, w⟩ := m
    by_cases here : key = k
    · subst here
      simp [setMember, eq_comm]
    · have apart : (key == k) = false := by simpa using here
      simp [setMember, here, List.lookup_cons, apart, ih]

@[simp]
theorem lookup_setMember_same (ms : List (Str × Value R)) (key : Str) (v : Value R) :
    (setMember ms key v).lookup key = some v := by
  induction ms with
  | nil => simp [setMember]
  | cons m ms ih =>
    obtain ⟨k, w⟩ := m
    by_cases here : key = k
    · simp [setMember, here]
    · have apart : (key == k) = false := by simpa using here
      simp [setMember, here, List.lookup_cons, apart, ih]

theorem lookup_setMember_other {ms : List (Str × Value R)} {key other : Str} {v : Value R}
    (apart : other ≠ key) : (setMember ms key v).lookup other = ms.lookup other := by
  induction ms with
  | nil =>
    have different : (other == key) = false := by simpa using apart
    simp [setMember, List.lookup_cons, different]
  | cons m ms ih =>
    obtain ⟨k, w⟩ := m
    by_cases here : key = k
    · subst here
      have different : (other == key) = false := by simpa using apart
      simp [setMember, List.lookup_cons, different]
    · simp only [setMember, here, if_false, List.lookup_cons]
      split
      · rfl
      · exact ih

@[simp]
theorem getMember_setMember_same (ms : List (Str × Value R)) (key : Str) (v : Value R) :
    getMember (setMember ms key v) key = v := by
  simp [getMember]

theorem getMember_setMember_other {ms : List (Str × Value R)} {key other : Str} {v : Value R}
    (apart : other ≠ key) : getMember (setMember ms key v) other = getMember ms other := by
  simp [getMember, lookup_setMember_other apart]

@[simp]
theorem getMember_touchMember (ms : List (Str × Value R)) (key other : Str) :
    getMember (touchMember ms key) other = getMember ms other := by
  unfold touchMember
  split
  · rfl
  · rename_i missing
    by_cases same : other = key
    · simp [getMember, same, missing]
    · simp [getMember, lookup_setMember_other same]

theorem touchMember_eq_self_iff {ms : List (Str × Value R)} {key : Str} :
    touchMember ms key = ms ↔ (ms.lookup key).isSome = true := by
  unfold touchMember
  split
  · rename_i found
    simp [found]
  · rename_i missing
    simp [setMember_eq_self_iff, missing]

theorem setMember_setMember_eq_self_iff {ms : List (Str × Value R)} {key other : Str}
    {v w : Value R} (apart : key ≠ other) : setMember (setMember ms key v) other w = ms ↔
      ms.lookup key = some v ∧ ms.lookup other = some w := by
  constructor
  · intro same
    have first : (setMember (setMember ms key v) other w).lookup key =
        (setMember ms key v).lookup key := lookup_setMember_other apart
    have second := lookup_setMember_same (setMember ms key v) other w
    rw [same] at first second
    exact ⟨first.trans (lookup_setMember_same ms key v), second⟩
  · rintro ⟨first, second⟩
    rw [setMember_eq_self_iff.mpr first, setMember_eq_self_iff.mpr second]

end Members

namespace Value

variable {R : Type}

def isObject : Value R → Bool
  | .object _ => true
  | _ => false

def isString : Value R → Bool
  | .string _ => true
  | _ => false

/-- `null` or an object: what `operator[]` takes with a name. -/
def hasMembers : Value R → Bool
  | .null | .object _ => true
  | _ => false

/-- What `asString` converts. -/
def isPlain : Value R → Bool
  | .array _ | .object _ => false
  | _ => true

/-- `operator[](const char *)`. -/
def member (v : Value R) (key : Str) : Except Fault (Value R) :=
  match v with
  | .null => .ok .null
  | .object ms => .ok (getMember ms key)
  | _ => .error .logicError

/-- The members of an object; `null` has none. -/
def members : Value R → List (Str × Value R)
  | .object ms => ms
  | _ => []

@[simp] theorem hasMembers_object (ms : List (Str × Value R)) :
    (object ms).hasMembers = true := rfl

@[simp] theorem members_object (ms : List (Str × Value R)) : (object ms).members = ms := rfl

/-- `v[key] = x`. -/
def assign (v : Value R) (key : Str) (x : Value R) : Except Fault (Value R) :=
  match v with
  | .null | .object _ => .ok (.object (setMember v.members key x))
  | _ => .error .logicError

/-- `v[key].append(x)`. -/
def appendTo (v : Value R) (key : Str) (x : Value R) : Except Fault (Value R) := do
  let list ← v.member key
  match list with
  | .null => v.assign key (.array [x])
  | .array vs => v.assign key (.array (vs ++ [x]))
  | _ => .error .logicError

/-- `clear`: what has been an object stays one. -/
def clear : Value R → Except Fault (Value R)
  | .null => .ok .null
  | .array _ => .ok (.array [])
  | .object _ => .ok (.object [])
  | _ => .error .logicError

/-- `operator==` with a string. -/
def isText (v : Value R) (text : Str) : Bool :=
  match v with
  | .string s => s = text
  | _ => false

section Numbers

variable [Doubles R]

def isInt : Value R → Bool
  | .int n => minInt ≤ n.toInt ∧ n.toInt ≤ maxInt
  | .uint n => n.toNat ≤ maxInt
  | .real r => Doubles.inRange minInt maxInt r && Doubles.isIntegral r
  | _ => false

/-- What `asInt` and its like convert to an integer between `lo` and `hi`. -/
def inRange (lo hi : ℤ) : Value R → Bool
  | .null | .bool _ => true
  | .int n => lo ≤ n.toInt ∧ n.toInt ≤ hi
  | .uint n => lo ≤ n.toNat ∧ n.toNat ≤ hi
  | .real r => Doubles.inRange lo hi r
  | .string _ | .array _ | .object _ => false

def toInteger : Value R → ℤ
  | .bool b => if b then 1 else 0
  | .int n => n.toInt
  | .uint n => n.toNat
  | .real r => Doubles.toInt r
  | .null | .string _ | .array _ | .object _ => 0

def asInteger (lo hi : ℤ) (v : Value R) : Except Fault ℤ :=
  if v.inRange lo hi then .ok v.toInteger else .error .logicError

def asInt (v : Value R) : Except Fault ℤ := v.asInteger minInt maxInt
def asUInt (v : Value R) : Except Fault ℤ := v.asInteger 0 maxUInt
def asInt64 (v : Value R) : Except Fault ℤ := v.asInteger minInt64 maxInt64
def asUInt64 (v : Value R) : Except Fault ℤ := v.asInteger 0 maxUInt64

/-- `asString`, for the types it converts. -/
def toStr : Value R → Str
  | .bool b => if b then "true".toList else "false".toList
  | .int n => (toString n.toInt).toList
  | .uint n => (toString n.toNat).toList
  | .real r => Doubles.toStr r
  | .string s => s
  | .null | .array _ | .object _ => []

def asString (v : Value R) : Except Fault Str :=
  if v.isPlain then .ok v.toStr else .error .logicError

theorem string_toStr {v : Value R} (text : v.isString = true) : .string v.toStr = v := by
  cases v with
  | string s => rfl
  | _ => cases text

theorem inRange_of_isInt {v : Value R} (h : v.isInt = true) : v.inRange minInt maxInt = true := by
  cases v with
  | int n => simpa [isInt, inRange] using h
  | uint n =>
    have small : (n.toNat : ℤ) ≤ maxInt := by simpa [isInt] using h
    have low : minInt ≤ n.toNat := by
      unfold minInt
      omega
    simp [inRange, small, low]
  | real r =>
    simp only [isInt, Bool.and_eq_true] at h
    exact h.1
  | null | bool _ | string _ | array _ | object _ => simp [isInt] at h

end Numbers

/-- The value of a member, whatever it is a member of. -/
def get (v : Value R) (key : Str) : Value R :=
  match v with
  | .object ms => getMember ms key
  | _ => .null

end Value

section Accessors

open Lib.Fallible

variable {R : Type}

@[simp]
theorem yields_member {v : Value R} {key : Str} {P : Value R → Prop} :
    Yields (v.member key) P ↔ v.hasMembers = true ∧ P (v.get key) := by
  cases v <;> simp [Value.member, Value.hasMembers, Value.get]

theorem yields_assign {v x : Value R} {key : Str} {P : Value R → Prop} :
    Yields (v.assign key x) P ↔
      v.hasMembers = true ∧ P (.object (setMember v.members key x)) := by
  cases v <;> simp [Value.assign, Value.hasMembers]

theorem eq_of_member {v x : Value R} {key : Str} (done : v.member key = .ok x) :
    x = v.get key := by
  have yields : Yields (v.member key) fun y => y = x := ⟨x, done, rfl⟩
  exact (yields_member.mp yields).2.symm

theorem member_eq {v : Value R} {key : Str} (members : v.hasMembers = true) :
    v.member key = .ok (v.get key) := by
  cases v with
  | null | object ms => rfl
  | _ => cases members

variable [Doubles R] {v : Value R}

@[simp]
theorem yields_asString {P : Str → Prop} :
    Yields v.asString P ↔ v.isPlain = true ∧ P v.toStr := by
  unfold Value.asString
  split <;> simp_all

private theorem yields_asInteger {lo hi : ℤ} {P : ℤ → Prop} :
    Yields (v.asInteger lo hi) P ↔ v.inRange lo hi = true ∧ P v.toInteger := by
  unfold Value.asInteger
  split <;> simp_all

@[simp]
theorem yields_asInt {P : ℤ → Prop} :
    Yields v.asInt P ↔ v.inRange minInt maxInt = true ∧ P v.toInteger := yields_asInteger

@[simp]
theorem yields_asUInt {P : ℤ → Prop} :
    Yields v.asUInt P ↔ v.inRange 0 maxUInt = true ∧ P v.toInteger := yields_asInteger

@[simp]
theorem yields_asInt64 {P : ℤ → Prop} :
    Yields v.asInt64 P ↔ v.inRange minInt64 maxInt64 = true ∧ P v.toInteger := yields_asInteger

@[simp]
theorem yields_asUInt64 {P : ℤ → Prop} :
    Yields v.asUInt64 P ↔ v.inRange 0 maxUInt64 = true ∧ P v.toInteger := yields_asInteger

theorem asUInt64_eq (small : v.inRange 0 maxUInt64 = true) :
    v.asUInt64 = .ok v.toInteger := if_pos small

theorem eq_of_asUInt64 {n : ℤ} (done : v.asUInt64 = .ok n) : n = v.toInteger := by
  have yields : Yields v.asUInt64 fun m => m = n := ⟨n, done, rfl⟩
  exact (yields_asUInt64.mp yields).2.symm

end Accessors

end Tsender.Json
