import LateBinding.StringTable.Hash

/-!
# String tables

An open-addressed hash table from strings to values. The bucket array has a power of two of places;
a key is looked for from the place of its hash onward, one place at a time and round the end, until
it or an empty place is met. A new key that would fill the array beyond three quarters doubles it
first, so an empty place always remains and every search ends. Keys leave only all at once.

The order of the entries is the order of their places, and is part of what a table shows.
-/

namespace LateBinding

structure Bucket (α : Type) where
  key : String
  hash : UInt32
  value : α

structure StringTable (α : Type) where
  buckets : Array (Option (Bucket α))
  count : Nat

namespace StringTable

variable {α : Type}

/-- What a search along the places of a table meets first. -/
inductive Place where
  | found (index : Nat)
  | vacant (index : Nat)
  | full
  deriving DecidableEq, Repr

/-- An empty table of at least `capacity` places, rounded up to a power of two and never below 2. -/
def withCapacity (capacity : Nat) : StringTable α :=
  { buckets := Array.replicate (max capacity 2).nextPowerOfTwo none, count := 0 }

def empty : StringTable α := withCapacity 2

instance : Inhabited (StringTable α) := ⟨empty⟩

def capacity (table : StringTable α) : Nat := table.buckets.size

def size (table : StringTable α) : Nat := table.count

def isEmpty (table : StringTable α) : Bool := table.count == 0

/-! ### Searching -/

def probe (buckets : Array (Option (Bucket α))) (key : String) (hash : UInt32) :
    Nat → Nat → Place
  | 0, _ => .full
  | left + 1, index =>
    if h : index < buckets.size then
      match buckets[index] with
      | none => .vacant index
      | some bucket =>
        if bucket.hash = hash ∧ bucket.key = key then .found index
        else probe buckets key hash left ((index + 1) % buckets.size)
    else .full

/-- The place of `key`, or the empty place that a search for it ends in. -/
def locate (buckets : Array (Option (Bucket α))) (key : String) (hash : UInt32) : Place :=
  probe buckets key hash buckets.size (hash.toNat % buckets.size)

/-- The first empty place from `index` on, among at most the given number of places. -/
def firstVacant (buckets : Array (Option (Bucket α))) : Nat → Nat → Option Nat
  | 0, _ => none
  | left + 1, index =>
    if h : index < buckets.size then
      if buckets[index].isNone then some index
      else firstVacant buckets left ((index + 1) % buckets.size)
    else none

def bucket? (table : StringTable α) (key : String) : Option (Bucket α) :=
  match locate table.buckets key (hashKey key) with
  | .found index => table.buckets[index]?.join
  | _ => none

def get? (table : StringTable α) (key : String) : Option α :=
  (table.bucket? key).map (·.value)

def getEntry? (table : StringTable α) (key : String) : Option (String × α) :=
  (table.bucket? key).map fun bucket => (bucket.key, bucket.value)

def contains (table : StringTable α) (key : String) : Bool := (table.get? key).isSome

/-! ### Storing -/

/-- File a bucket whose key is not stored yet in the first empty place from that of its hash on. -/
def settle (buckets : Array (Option (Bucket α))) (bucket : Bucket α) :
    Array (Option (Bucket α)) :=
  match firstVacant buckets buckets.size (bucket.hash.toNat % buckets.size) with
  | some index => buckets.setIfInBounds index (some bucket)
  | none => buckets

/-- Twice the places, with the buckets filed anew in the order of their old places. -/
def grow (buckets : Array (Option (Bucket α))) : Array (Option (Bucket α)) :=
  buckets.toList.foldl (fun filed bucket => bucket.elim filed (settle filed))
    (Array.replicate (buckets.size * 2) none)

/-- Whether one more key would occupy more than three quarters of the places. -/
def crowded (table : StringTable α) : Bool := (table.count + 1) * 4 > table.buckets.size * 3

/-- File `value` under `key`. Also gives the value that it replaces. -/
def insert (table : StringTable α) (key : String) (value : α) : StringTable α × Option α :=
  let hash := hashKey key
  match locate table.buckets key hash with
  | .found index =>
    let old := table.buckets[index]?.join.map (·.value)
    ({ table with buckets := table.buckets.setIfInBounds index (some ⟨key, hash, value⟩) }, old)
  | _ =>
    let crowded := table.crowded
    match table with
    | ⟨buckets, count⟩ =>
      let buckets := if crowded then grow buckets else buckets
      match locate buckets key hash with
      | .found index | .vacant index =>
        (⟨buckets.setIfInBounds index (some ⟨key, hash, value⟩), count + 1⟩, none)
      | .full => (⟨buckets, count⟩, none)

/-- Forget every key. The places stay. -/
def clear (table : StringTable α) : StringTable α :=
  { buckets := Array.replicate table.buckets.size none, count := 0 }

def toList (table : StringTable α) : List (String × α) :=
  table.buckets.toList.filterMap fun bucket => bucket.map fun bucket => (bucket.key, bucket.value)

/-! ### Small facts -/

@[simp] theorem capacity_clear (table : StringTable α) : table.clear.capacity = table.capacity := by
  simp [clear, capacity]

@[simp] theorem size_clear (table : StringTable α) : table.clear.size = 0 := rfl

@[simp] theorem toList_clear (table : StringTable α) : table.clear.toList = [] := by
  simp [clear, toList]

theorem capacity_withCapacity (capacity : Nat) :
    (withCapacity capacity : StringTable α).capacity = (max capacity 2).nextPowerOfTwo := by
  simp [withCapacity, StringTable.capacity]

end StringTable

end LateBinding
