import LateBinding.Proofs.StringTable.Storing
import Std.Data.ExtTreeMap

/-!
# A string table is a finite map

Whatever is stored in a table and however often it is cleared, it answers as a plain map does, and
its entries are those of the map. The number of its places stays a power of two of which at most
three quarters are occupied. So every search ends within one round, and so does the search for an
empty place when the buckets are filed anew. The places are doubled exactly when a new key would
occupy more than three quarters of them.
-/

namespace LateBinding.StringTable

variable {α : Type} {table : StringTable α} {buckets : Array (Option (Bucket α))}

/-! ### What a table shows -/

theorem Sound.exists_vacancy (sound : table.Sound) :
    ∃ index < table.buckets.size, bucketAt table.buckets index = none :=
  StringTable.exists_vacancy (by rw [sound.count]; exact sound.room)

theorem Sound.get?_of_bucket (sound : table.Sound) {index : Nat} {bucket : Bucket α}
    (hbucket : bucketAt table.buckets index = some bucket) :
    table.get? bucket.key = some bucket.value :=
  (sound.get?_eq_some_iff bucket.key bucket.value).mpr ⟨index, bucket, hbucket, rfl, rfl⟩

theorem Sound.get?_eq_none_iff (sound : table.Sound) (key : String) : table.get? key = none ↔
    ∀ index bucket, bucketAt table.buckets index = some bucket → bucket.key ≠ key := by
  constructor
  · rintro hnone index bucket hbucket rfl
    rw [sound.get?_of_bucket hbucket] at hnone
    cases hnone
  · intro habsent
    rw [Option.eq_none_iff_forall_ne_some]
    intro value hvalue
    obtain ⟨index, bucket, hbucket, hkey, -⟩ := (sound.get?_eq_some_iff key value).mp hvalue
    exact habsent index bucket hbucket hkey

/-- The stored key is the one that was looked up. -/
theorem Sound.getEntry?_eq (sound : table.Sound) (key : String) :
    table.getEntry? key = (table.get? key).map (key, ·) := by
  have hkey : ∀ bucket, table.bucket? key = some bucket → bucket.key = key := by
    intro bucket hbucket
    rcases sound.filed.locate_cases sound.exists_vacancy key with
      ⟨index, found, hlocate, hfound, hkey⟩ | ⟨last, -, hlocate, -⟩
    · rw [bucket?, hlocate] at hbucket
      cases hfound.symm.trans hbucket
      exact hkey
    · rw [bucket?, hlocate] at hbucket
      cases hbucket
  unfold getEntry? get?
  cases hbucket : table.bucket? key with
  | none => rfl
  | some bucket => simp [hkey bucket hbucket]

theorem toList_eq (table : StringTable α) : table.toList =
    (table.buckets.toList.filterMap id).map fun bucket => (bucket.key, bucket.value) := by
  rw [toList, List.map_filterMap]
  rfl

theorem Sound.nodup_keys (sound : table.Sound) : (table.toList.map Prod.fst).Nodup := by
  rw [toList_eq, List.map_map]
  exact sound.filed.nodup_keys

theorem Sound.mem_toList_iff (sound : table.Sound) (key : String) (value : α) :
    (key, value) ∈ table.toList ↔ table.get? key = some value := by
  rw [sound.get?_eq_some_iff, toList_eq, List.mem_map]
  constructor
  · rintro ⟨bucket, hbucket, heq⟩
    cases heq
    obtain ⟨index, hindex⟩ := mem_filterMap_iff.mp hbucket
    exact ⟨index, bucket, hindex, rfl, rfl⟩
  · rintro ⟨index, bucket, hindex, rfl, rfl⟩
    exact ⟨bucket, mem_filterMap_iff.mpr ⟨index, hindex⟩, rfl⟩

/-! ### What storing a value gives -/

theorem Sound.replaced_eq (sound : table.Sound) (key : String) (value : α) :
    (table.insert key value).2 = table.get? key := by
  rcases sound.insert_cases key value with ⟨index, old, -, hold, hkey, hinsert⟩ |
    ⟨habsent, last, -, -, -, hinsert⟩
  · subst hkey
    rw [hinsert, sound.get?_of_bucket hold]
  · rw [hinsert, (sound.get?_eq_none_iff key).mpr habsent]

theorem Sound.size_insert (sound : table.Sound) (key : String) (value : α) :
    (table.insert key value).1.size =
      if table.get? key = none then table.size + 1 else table.size := by
  rcases sound.insert_cases key value with ⟨index, old, -, hold, hkey, hinsert⟩ |
    ⟨habsent, last, -, -, -, hinsert⟩
  · subst hkey
    rw [hinsert, sound.get?_of_bucket hold, if_neg (by nofun)]
    rfl
  · rw [hinsert, if_pos ((sound.get?_eq_none_iff key).mpr habsent)]
    rfl

/-- A new key that would occupy more than three quarters of the places doubles them. -/
theorem Sound.capacity_insert (sound : table.Sound) (key : String) (value : α) :
    (table.insert key value).1.capacity =
      if table.get? key = none ∧ 3 * table.capacity < 4 * (table.size + 1) then 2 * table.capacity
      else table.capacity := by
  rcases sound.insert_cases key value with ⟨index, old, -, hold, hkey, hinsert⟩ |
    ⟨habsent, last, -, -, -, hinsert⟩
  · subst hkey
    rw [hinsert, sound.get?_of_bucket hold, if_neg (by simp), capacity, Array.size_setIfInBounds]
    rfl
  · have hcrowded : table.crowded = true ↔ 3 * table.capacity < 4 * (table.size + 1) := by
      rw [crowded, decide_eq_true_eq, capacity, size]
      omega
    have hnone := (sound.get?_eq_none_iff key).mpr habsent
    rw [hinsert, capacity, Array.size_setIfInBounds, StringTable.spacious]
    by_cases hload : 3 * table.capacity < 4 * (table.size + 1)
    · rw [if_pos (hcrowded.mpr hload), if_pos ⟨hnone, hload⟩, sound.filed.grow.2.1, Nat.mul_comm]
      rfl
    · rw [if_neg (fun h => hload (hcrowded.mp h)), if_neg (fun h => hload h.2)]
      rfl

/-! ### Places -/

/-- All buckets are filed and counted, among a power of two of places of which at most three quarters
are occupied. -/
structure Balanced (table : StringTable α) : Prop extends table.Sound where
  powerOfTwo : table.capacity.isPowerOfTwo
  load : 4 * table.size ≤ 3 * table.capacity

theorem balanced_withCapacity (initial : Nat) : (withCapacity initial : StringTable α).Balanced where
  toSound := sound_withCapacity initial
  powerOfTwo := by
    rw [capacity_withCapacity]
    exact Nat.isPowerOfTwo_nextPowerOfTwo _
  load := Nat.zero_le _

theorem Balanced.clear (balanced : table.Balanced) : table.clear.Balanced where
  toSound := balanced.toSound.clear
  powerOfTwo := by
    rw [capacity_clear]
    exact balanced.powerOfTwo
  load := Nat.zero_le _

theorem Balanced.insert (balanced : table.Balanced) (key : String) (value : α) :
    (table.insert key value).1.Balanced where
  toSound := (insert_spec balanced.toSound key value).1
  powerOfTwo := by
    rw [balanced.capacity_insert]
    split
    · rw [Nat.mul_comm]
      exact Nat.isPowerOfTwo_mul_two_of_isPowerOfTwo balanced.powerOfTwo
    · exact balanced.powerOfTwo
  load := by
    have hload := balanced.load
    have hroom : table.size < table.capacity := balanced.room
    rw [balanced.size_insert, balanced.capacity_insert]
    by_cases hnone : table.get? key = none
    · rw [if_pos hnone]
      by_cases hfull : 3 * table.capacity < 4 * (table.size + 1)
      · rw [if_pos ⟨hnone, hfull⟩]
        omega
      · rw [if_neg fun h => hfull h.2]
        omega
    · rw [if_neg hnone, if_neg fun h => hnone h.1]
      exact hload

/-! ### Searches that end -/

/-- A search for a key visits less than all places. It passes other keys, and then it finds the key
or an empty place. -/
def Stops (buckets : Array (Option (Bucket α))) (key : String) : Prop :=
  ∃ last < buckets.size,
    (∀ earlier < last, ∃ other,
      bucketAt buckets (placeAt buckets.size (hashKey key) earlier) = some other ∧
        other.key ≠ key) ∧
    ((∃ bucket, bucketAt buckets (placeAt buckets.size (hashKey key) last) = some bucket ∧
        bucket.key = key ∧
        locate buckets key (hashKey key) = .found (placeAt buckets.size (hashKey key) last)) ∨
      bucketAt buckets (placeAt buckets.size (hashKey key) last) = none ∧
        locate buckets key (hashKey key) = .vacant (placeAt buckets.size (hashKey key) last))

theorem Filed.stops (filed : Filed buckets)
    (hvacancy : ∃ index < buckets.size, bucketAt buckets index = none) (key : String) :
    Stops buckets key := by
  rcases filed.locate_cases hvacancy key with ⟨index, bucket, hlocate, hbucket, rfl⟩ |
    ⟨last, hlast, hlocate, hempty, hbefore, -⟩
  · obtain ⟨step, hstep, rfl, hbefore⟩ := filed.reached index bucket hbucket
    have hhash := filed.hash _ _ hbucket
    rw [hhash] at hbefore hbucket hlocate
    exact ⟨step, hstep, hbefore, .inl ⟨bucket, hbucket, rfl, hlocate⟩⟩
  · exact ⟨last, hlast, hbefore, .inr ⟨hempty, hlocate⟩⟩

/-- The search for the first empty place from that of a hash on visits less than all places, passes
occupied ones and then finds one. -/
def Vacates (buckets : Array (Option (Bucket α))) (hash : UInt32) : Prop :=
  ∃ last < buckets.size,
    (∀ earlier < last, bucketAt buckets (placeAt buckets.size hash earlier) ≠ none) ∧
    bucketAt buckets (placeAt buckets.size hash last) = none ∧
    firstVacant buckets buckets.size (hash.toNat % buckets.size) =
      some (placeAt buckets.size hash last)

theorem vacates_of_occupied (hoccupied : occupied buckets < buckets.size) (hash : UInt32) :
    Vacates buckets hash := by
  have hpositive : 0 < buckets.size := Nat.lt_of_le_of_lt (Nat.zero_le _) hoccupied
  obtain ⟨vacant, hvacant, hempty⟩ := StringTable.exists_vacancy hoccupied
  have hbefore : ∀ earlier < 0, bucketAt buckets (placeAt buckets.size hash earlier) ≠ none :=
    fun earlier hearlier => absurd hearlier (Nat.not_lt_zero _)
  have hcases := firstVacant_cases hpositive buckets.size hbefore
  rw [Nat.zero_add, placeAt_zero] at hcases
  rcases hcases with hfree | hfull
  · exact hfree
  · obtain ⟨step, hstep, rfl⟩ := exists_placeAt hvacant hash
    exact absurd hempty (hfull step hstep)

/-- While the buckets are filed anew among twice the places, each finds an empty place. -/
theorem Filed.vacates_refiled (filed : Filed buckets) {earlier later : List (Option (Bucket α))}
    {bucket : Bucket α} (hbuckets : buckets.toList = earlier ++ some bucket :: later) :
    Vacates (StringTable.refiled (buckets.size * 2) earlier) bucket.hash := by
  have hplaces : buckets.size ≤ buckets.size * 2 := Nat.le_mul_of_pos_right _ (by decide)
  obtain ⟨-, hsize, hoccupied, -⟩ := filed.refiled hbuckets hplaces
  apply vacates_of_occupied
  have hpositive := filed.nonempty
  have hlength : earlier.length < buckets.size := by
    rw [← Array.length_toList, hbuckets, List.length_append, List.length_cons]
    omega
  have hfilter := List.length_filterMap_le id earlier
  rw [hsize, hoccupied]
  omega

/-! ### Edits -/

/-- What is done to a table. -/
inductive Edit (α : Type) where
  | insert (key : String) (value : α)
  | clear

def edit (table : StringTable α) : Edit α → StringTable α
  | .insert key value => (table.insert key value).1
  | .clear => table.clear

/-- What is done to a plain map instead. -/
def Edit.onMap (map : Std.ExtTreeMap String α) : Edit α → Std.ExtTreeMap String α
  | .insert key value => map.insert key value
  | .clear => ∅

/-- A table that was set up for a number of places, after some edits. -/
def edited (initial : Nat) (edits : List (Edit α)) : StringTable α :=
  edits.foldl edit (withCapacity initial)

def recorded (edits : List (Edit α)) : Std.ExtTreeMap String α := edits.foldl Edit.onMap ∅

/-- The table answers as the map does, and shows its entries. -/
structure Shows (table : StringTable α) (map : Std.ExtTreeMap String α) : Prop where
  get? : ∀ key, table.get? key = map[key]?
  contains : ∀ key, table.contains key = map.contains key
  getEntry? : ∀ key, table.getEntry? key = map[key]?.map (key, ·)
  replaced : ∀ key value, (table.insert key value).2 = map[key]?
  size : table.size = map.size
  isEmpty : table.isEmpty = map.isEmpty
  keys : (table.toList.map Prod.fst).Nodup
  entries : ∀ key value, (key, value) ∈ table.toList ↔ map[key]? = some value

theorem Sound.shows {map : Std.ExtTreeMap String α} (sound : table.Sound)
    (hget : ∀ key, table.get? key = map[key]?) (hsize : table.size = map.size) :
    table.Shows map where
  get? := hget
  contains key := by
    rw [StringTable.contains, hget, Std.ExtTreeMap.contains_eq_isSome_getElem?]
  getEntry? key := by rw [sound.getEntry?_eq, hget]
  replaced key value := by rw [sound.replaced_eq, hget]
  size := hsize
  isEmpty := by
    rw [StringTable.isEmpty, Std.ExtTreeMap.isEmpty_eq_size_beq_zero, ← hsize]
    rfl
  keys := sound.nodup_keys
  entries key value := by rw [sound.mem_toList_iff, hget]

theorem Balanced.edit (balanced : table.Balanced) (change : Edit α) :
    (table.edit change).Balanced := by
  cases change with
  | insert key value => exact balanced.insert key value
  | clear => exact balanced.clear

/-- What an edit does to a table it does to the map that the table stands for. -/
theorem Shows.edit {map : Std.ExtTreeMap String α} (shows : table.Shows map)
    (balanced : table.Balanced) (change : Edit α) :
    (table.edit change).Shows (change.onMap map) := by
  have hedited := balanced.edit change
  cases change with
  | clear =>
    refine hedited.toSound.shows ?_ rfl
    intro key
    exact (balanced.toSound.get?_clear key).trans Std.ExtTreeMap.getElem?_empty.symm
  | insert key value =>
    refine hedited.toSound.shows ?_ ?_
    · intro other
      rw [StringTable.edit, StringTable.get?_insert balanced.toSound, Edit.onMap,
        Std.ExtTreeMap.getElem?_insert, shows.get?]
      simp only [Std.compare_eq_iff_eq]
    · rw [StringTable.edit, balanced.size_insert, Edit.onMap, Std.ExtTreeMap.size_insert,
        Std.ExtTreeMap.contains_eq_isSome_getElem?, ← shows.get?, ← shows.size]
      cases table.get? key <;> rfl

theorem Shows.foldl_edit {map : Std.ExtTreeMap String α} (shows : table.Shows map)
    (balanced : table.Balanced) (edits : List (Edit α)) :
    (edits.foldl StringTable.edit table).Balanced ∧
      (edits.foldl StringTable.edit table).Shows (edits.foldl Edit.onMap map) := by
  induction edits generalizing table map with
  | nil => exact ⟨balanced, shows⟩
  | cons change rest ih => exact ih (shows.edit balanced change) (balanced.edit change)

theorem edited_spec (initial : Nat) (edits : List (Edit α)) :
    (edited initial edits).Balanced ∧ (edited initial edits).Shows (recorded edits) := by
  have balanced : (withCapacity initial : StringTable α).Balanced := balanced_withCapacity initial
  have shows : (withCapacity initial : StringTable α).Shows ∅ := by
    refine balanced.toSound.shows ?_ rfl
    intro key
    exact (get?_withCapacity initial key).trans Std.ExtTreeMap.getElem?_empty.symm
  exact shows.foldl_edit balanced edits

/-- The places never become fewer. -/
theorem Balanced.capacity_le_edit (balanced : table.Balanced) (change : Edit α) :
    table.capacity ≤ (table.edit change).capacity := by
  cases change with
  | insert key value =>
    rw [StringTable.edit, balanced.capacity_insert]
    split <;> omega
  | clear => exact Nat.le_of_eq (capacity_clear table).symm

theorem Balanced.capacity_le_foldl_edit (balanced : table.Balanced) (edits : List (Edit α)) :
    table.capacity ≤ (edits.foldl StringTable.edit table).capacity := by
  induction edits generalizing table with
  | nil => exact Nat.le_refl _
  | cons change rest ih =>
    exact Nat.le_trans (balanced.capacity_le_edit change) (ih (balanced.edit change))

/-- Every search that is made to look up or store a key or to file the buckets anew ends. -/
structure Terminates (table : StringTable α) : Prop where
  search : ∀ key, Stops table.buckets key
  searchAgain : ∀ key, Stops table.spacious key
  refile : ∀ earlier bucket later, table.buckets.toList = earlier ++ some bucket :: later →
    Vacates (refiled (table.buckets.size * 2) earlier) bucket.hash

theorem Sound.terminates (sound : table.Sound) : table.Terminates where
  search := sound.filed.stops sound.exists_vacancy
  searchAgain := by
    obtain ⟨hfiled, hoccupied, hroom, -⟩ := sound.spacious
    exact hfiled.stops (StringTable.exists_vacancy (by omega))
  refile _ _ _ hbuckets := sound.filed.vacates_refiled hbuckets

/-- After any edits a table shows what a plain map does after the same edits, whatever keys collide.
Its places stay in balance, every search ends, and the places are doubled exactly when a new key
would occupy more than three quarters of them. -/
theorem edited_shows_recorded (initial : Nat) (edits : List (Edit α)) :
    let table := edited initial edits
    let map := recorded edits
    table.Shows map ∧ table.Balanced ∧ table.Terminates ∧
      (∀ key value, (table.insert key value).1.capacity =
        if map[key]? = none ∧ 3 * table.capacity < 4 * (map.size + 1) then 2 * table.capacity
        else table.capacity) ∧
      table.clear.capacity = table.capacity ∧
      ∀ later, table.capacity ≤ (edited initial (edits ++ later)).capacity := by
  intro table map
  obtain ⟨balanced, shows⟩ : table.Balanced ∧ table.Shows map := edited_spec initial edits
  refine ⟨shows, balanced, balanced.terminates, ?_, capacity_clear table, ?_⟩
  · intro key value
    rw [balanced.capacity_insert, shows.get?, shows.size]
  · intro later
    have hlater : edited initial (edits ++ later) = later.foldl StringTable.edit table :=
      List.foldl_append
    rw [hlater]
    exact balanced.capacity_le_foldl_edit later

end LateBinding.StringTable
