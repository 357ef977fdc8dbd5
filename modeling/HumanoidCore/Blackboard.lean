import HumanoidCore.Lib.Map
import Mathlib.Algebra.GroupWithZero.Nat

namespace HumanoidCore.Blackboard
open Lib

variable {τ ν : Type}

/-- A stored value with the type it was stored as; `τ` are the type indices. -/
structure ValueHolder (τ ν : Type) where
  type : τ
  value : ν
  deriving DecidableEq

abbrev NamespaceValues (τ ν : Type) := Map String (ValueHolder τ ν)

/-- The values by namespace and key. -/
abbrev Values (τ ν : Type) := Map String (NamespaceValues τ ν)

def isValidAddress (namespaceName key : String) : Bool := namespaceName ≠ "" && key ≠ ""

def storeValue (values : Values τ ν) (namespaceName key : String)
    (value : Option (ValueHolder τ ν)) : Values τ ν × Bool :=
  match value with
  | none => (values, false)
  | some holder =>
    if !isValidAddress namespaceName key then (values, false)
    else
      let found := (values.get? namespaceName).getD ∅
      (values.insert namespaceName (found.insert key holder), true)

/-- Both overloads of `Store` end here; only the one for shared values can pass a null. -/
def storeShared (values : Values τ ν) (namespaceName key : String) (type : τ) (value : Option ν) :
    Values τ ν × Bool :=
  match value with
  | none => (values, false)
  | some v => storeValue values namespaceName key (some ⟨type, v⟩)

def getValue (values : Values τ ν) (namespaceName key : String) : Option (ValueHolder τ ν) :=
  if !isValidAddress namespaceName key then none
  else match values.get? namespaceName with
    | none => none
    | some found => found.get? key

def get [DecidableEq τ] (values : Values τ ν) (type : τ) (namespaceName key : String) : Option ν :=
  match getValue values namespaceName key with
  | none => none
  | some stored => if stored.type ≠ type then none else some stored.value

def contains (values : Values τ ν) (namespaceName key : String) : Bool :=
  (getValue values namespaceName key).isSome

def remove (values : Values τ ν) (namespaceName key : String) : Values τ ν × Bool :=
  if !isValidAddress namespaceName key then (values, false)
  else match values.get? namespaceName with
    | none => (values, false)
    | some found =>
      if found.get? key = none then (values, false)
      else if (found.erase key).entries.isEmpty then (values.erase namespaceName, true)
      else (values.insert namespaceName (found.erase key), true)

/-- `Clear` of one namespace. -/
def clear (values : Values τ ν) (namespaceName : String) : Values τ ν × Nat :=
  if namespaceName = "" then (values, 0)
  else match values.get? namespaceName with
    | none => (values, 0)
    | some found => (values.erase namespaceName, found.entries.length)

/-- `Clear` of everything. -/
def clearAll (values : Values τ ν) : Values τ ν × Nat :=
  (∅, (values.entries.map (·.2.entries.length)).sum)

/-- The calls that write. Each holds the lock from its first look at the values on, so what
threads do at once is a list of them. -/
inductive Op (τ ν : Type) where
  | store (namespaceName key : String) (type : τ) (value : Option ν)
  | remove (namespaceName key : String)
  | clear (namespaceName : String)
  | clearAll

/-- The values after a call, and how many it says it stored or removed. -/
def apply (values : Values τ ν) : Op τ ν → Values τ ν × Nat
  | .store namespaceName key type value =>
    let (values', stored) := storeShared values namespaceName key type value
    (values', stored.toNat)
  | .remove namespaceName key =>
    let (values', removed) := remove values namespaceName key
    (values', removed.toNat)
  | .clear namespaceName => clear values namespaceName
  | .clearAll => clearAll values

def next (values : Values τ ν) (op : Op τ ν) : Values τ ν := (apply values op).1

def after (ops : List (Op τ ν)) : Values τ ν := ops.foldl next ∅

end HumanoidCore.Blackboard
