import LateBinding.StringTable

/-!
# Searches along the places of a string table

A search for a key visits the places from that of the key's hash onward. It ends at the first one
that is empty or holds the key. A key is *filed* where a search for it ends up, so as long as a place
stays empty, a search finds what is filed and nothing else.
-/

namespace LateBinding.StringTable

variable {α : Type} {buckets : Array (Option (Bucket α))} {key : String} {hash : UInt32}

def bucketAt (buckets : Array (Option (Bucket α))) (index : Nat) : Option (Bucket α) :=
  buckets[index]?.join

/-- The place that a search visits after some steps. -/
def placeAt (size : Nat) (hash : UInt32) (step : Nat) : Nat := (hash.toNat % size + step) % size

theorem placeAt_lt {size : Nat} (hsize : 0 < size) (hash : UInt32) (step : Nat) :
    placeAt size hash step < size := Nat.mod_lt _ hsize

theorem placeAt_zero (size : Nat) (hash : UInt32) : placeAt size hash 0 = hash.toNat % size := by
  rw [placeAt, Nat.add_zero, Nat.mod_mod]

theorem placeAt_succ (size : Nat) (hash : UInt32) (step : Nat) :
    (placeAt size hash step + 1) % size = placeAt size hash (step + 1) := by
  rw [placeAt, placeAt, Nat.mod_add_mod, Nat.add_assoc]

theorem exists_placeAt {size index : Nat} (hindex : index < size) (hash : UInt32) :
    ∃ step < size, placeAt size hash step = index := by
  have hsize : 0 < size := Nat.lt_of_le_of_lt (Nat.zero_le _) hindex
  have hhome : hash.toNat % size < size := Nat.mod_lt _ hsize
  by_cases hbefore : hash.toNat % size ≤ index
  · refine ⟨index - hash.toNat % size, by omega, ?_⟩
    rw [placeAt, Nat.add_sub_cancel' hbefore, Nat.mod_eq_of_lt hindex]
  · refine ⟨index + size - hash.toNat % size, by omega, ?_⟩
    rw [placeAt, Nat.add_sub_cancel' (by omega), Nat.add_mod_right, Nat.mod_eq_of_lt hindex]

theorem getElem_eq_bucketAt {index : Nat} (hindex : index < buckets.size) :
    buckets[index] = bucketAt buckets index := by
  rw [bucketAt, Array.getElem?_eq_getElem hindex]
  rfl

/-- The place at some step holds another key, so that the search goes on. -/
def Passes (buckets : Array (Option (Bucket α))) (key : String) (hash : UInt32) (step : Nat) :
    Prop :=
  ∃ bucket, bucketAt buckets (placeAt buckets.size hash step) = some bucket ∧
    ¬ (bucket.hash = hash ∧ bucket.key = key)

/-- How a search ends that visits a number of places at most. -/
inductive Ends (buckets : Array (Option (Bucket α))) (key : String) (hash : UInt32) (bound : Nat) :
    Place → Prop
  | vacant {last : Nat} (within : last < bound)
      (before : ∀ earlier < last, Passes buckets key hash earlier)
      (empty : bucketAt buckets (placeAt buckets.size hash last) = none) :
      Ends buckets key hash bound (.vacant (placeAt buckets.size hash last))
  | found {last : Nat} {bucket : Bucket α}
      (holds : bucketAt buckets (placeAt buckets.size hash last) = some bucket)
      (key_eq : bucket.key = key) :
      Ends buckets key hash bound (.found (placeAt buckets.size hash last))
  | full (before : ∀ earlier < bound, Passes buckets key hash earlier) :
      Ends buckets key hash bound .full

theorem probe_ends (hsize : 0 < buckets.size) {left step : Nat}
    (hbefore : ∀ earlier < step, Passes buckets key hash earlier) :
    Ends buckets key hash (step + left)
      (probe buckets key hash left (placeAt buckets.size hash step)) := by
  induction left generalizing step with
  | zero => exact .full hbefore
  | succ left ih =>
    have hplace := placeAt_lt hsize hash step
    rw [probe, dif_pos hplace, placeAt_succ]
    have hget := getElem_eq_bucketAt hplace
    cases hbucket : bucketAt buckets (placeAt buckets.size hash step) with
    | none =>
      simp only [hget, hbucket]
      exact .vacant (by omega) hbefore hbucket
    | some bucket =>
      simp only [hget, hbucket]
      by_cases hmatch : bucket.hash = hash ∧ bucket.key = key
      · rw [if_pos hmatch]
        exact .found hbucket hmatch.2
      · rw [if_neg hmatch, Nat.add_comm left, ← Nat.add_assoc]
        exact ih (Nat.forall_lt_succ_right.mpr ⟨hbefore, bucket, hbucket, hmatch⟩)

theorem locate_ends (hsize : 0 < buckets.size) (key : String) (hash : UInt32) :
    Ends buckets key hash buckets.size (locate buckets key hash) := by
  have hends : Ends buckets key hash (0 + buckets.size)
      (probe buckets key hash buckets.size (placeAt buckets.size hash 0)) :=
    probe_ends hsize fun earlier hearlier => absurd hearlier (Nat.not_lt_zero _)
  rw [Nat.zero_add, placeAt_zero] at hends
  exact hends

/-- The first empty place comes after occupied ones only. -/
theorem firstVacant_cases (hsize : 0 < buckets.size) (left : Nat) {step : Nat}
    (hbefore : ∀ earlier < step, bucketAt buckets (placeAt buckets.size hash earlier) ≠ none) :
    (∃ last < step + left,
        (∀ earlier < last, bucketAt buckets (placeAt buckets.size hash earlier) ≠ none) ∧
        bucketAt buckets (placeAt buckets.size hash last) = none ∧
        firstVacant buckets left (placeAt buckets.size hash step) =
          some (placeAt buckets.size hash last)) ∨
      ∀ earlier < step + left, bucketAt buckets (placeAt buckets.size hash earlier) ≠ none := by
  induction left generalizing step with
  | zero => exact .inr hbefore
  | succ left ih =>
    have hplace := placeAt_lt hsize hash step
    rw [firstVacant, dif_pos hplace, getElem_eq_bucketAt hplace, placeAt_succ]
    cases hbucket : bucketAt buckets (placeAt buckets.size hash step) with
    | none => exact .inl ⟨step, by omega, hbefore, hbucket, rfl⟩
    | some bucket =>
      have hoccupied : bucketAt buckets (placeAt buckets.size hash step) ≠ none := by
        rw [hbucket]
        nofun
      rw [Nat.add_comm left, ← Nat.add_assoc]
      exact ih (Nat.forall_lt_succ_right.mpr ⟨hbefore, hoccupied⟩)

/-! ### What is filed -/

/-- Every bucket is where a search for its key ends up. -/
structure Filed (buckets : Array (Option (Bucket α))) : Prop where
  nonempty : 0 < buckets.size
  hash : ∀ index bucket, bucketAt buckets index = some bucket → bucket.hash = hashKey bucket.key
  reached : ∀ index bucket, bucketAt buckets index = some bucket →
    ∃ step < buckets.size, placeAt buckets.size bucket.hash step = index ∧
      ∀ earlier < step, ∃ other,
        bucketAt buckets (placeAt buckets.size bucket.hash earlier) = some other ∧
          other.key ≠ bucket.key

def Files (buckets : Array (Option (Bucket α))) (key : String) (value : α) : Prop :=
  ∃ index bucket, bucketAt buckets index = some bucket ∧ bucket.key = key ∧ bucket.value = value

/-- Two steps of searches for one key do not both reach it. -/
theorem Filed.unique (filed : Filed buckets) {index other : Nat} {bucket second : Bucket α}
    (hbucket : bucketAt buckets index = some bucket) (hsecond : bucketAt buckets other = some second)
    (hkey : bucket.key = second.key) : index = other := by
  have hhash : bucket.hash = second.hash := by
    rw [filed.hash _ _ hbucket, filed.hash _ _ hsecond, hkey]
  obtain ⟨step, -, hplace, hbefore⟩ := filed.reached _ _ hbucket
  obtain ⟨step', -, hplace', hbefore'⟩ := filed.reached _ _ hsecond
  rw [← hhash] at hplace' hbefore'
  rcases Nat.lt_trichotomy step step' with hlt | rfl | hgt
  · obtain ⟨found, hfound, hne⟩ := hbefore' step hlt
    rw [hplace, hbucket] at hfound
    cases hfound
    exact absurd hkey hne
  · rw [← hplace, ← hplace']
  · obtain ⟨found, hfound, hne⟩ := hbefore step' hgt
    rw [hplace', hsecond] at hfound
    cases hfound
    exact absurd hkey.symm hne

/-- How a search for a key ends as long as a place is empty. -/
theorem Filed.locate_cases (filed : Filed buckets)
    (hvacancy : ∃ index < buckets.size, bucketAt buckets index = none) (key : String) :
    (∃ index bucket, locate buckets key (hashKey key) = .found index ∧
        bucketAt buckets index = some bucket ∧ bucket.key = key) ∨
      ∃ last < buckets.size,
        locate buckets key (hashKey key) = .vacant (placeAt buckets.size (hashKey key) last) ∧
        bucketAt buckets (placeAt buckets.size (hashKey key) last) = none ∧
        (∀ earlier < last, ∃ other,
          bucketAt buckets (placeAt buckets.size (hashKey key) earlier) = some other ∧
            other.key ≠ key) ∧
        ∀ index bucket, bucketAt buckets index = some bucket → bucket.key ≠ key := by
  have hends := locate_ends filed.nonempty key (hashKey key)
  have hother : ∀ step, Passes buckets key (hashKey key) step → ∃ other,
      bucketAt buckets (placeAt buckets.size (hashKey key) step) = some other ∧
        other.key ≠ key := by
    intro step h
    obtain ⟨bucket, hbucket, hdiffers⟩ := h
    refine ⟨bucket, hbucket, ?_⟩
    intro heq
    subst heq
    exact hdiffers ⟨filed.hash _ _ hbucket, rfl⟩
  generalize hlocated : locate buckets key (hashKey key) = place at hends
  cases hends with
  | @found last bucket holds key_eq => exact .inl ⟨_, bucket, rfl, holds, key_eq⟩
  | @vacant last within before empty =>
    refine .inr ⟨last, within, rfl, empty, fun earlier h => hother _ (before earlier h), ?_⟩
    intro index bucket hbucket heq
    subst heq
    obtain ⟨step, -, hplace, hbefore⟩ := filed.reached _ _ hbucket
    rw [filed.hash _ _ hbucket] at hplace hbefore
    rcases Nat.lt_trichotomy step last with hlt | rfl | hgt
    · obtain ⟨found, hfound, hne⟩ := hother _ (before step hlt)
      rw [hplace, hbucket] at hfound
      cases hfound
      exact hne rfl
    · rw [hplace, hbucket] at empty
      cases empty
    · obtain ⟨found, hfound, -⟩ := hbefore last hgt
      rw [empty] at hfound
      cases hfound
  | full before =>
    obtain ⟨index, hindex, hempty⟩ := hvacancy
    obtain ⟨step, hstep, rfl⟩ := exists_placeAt hindex (hashKey key)
    obtain ⟨bucket, hbucket, -⟩ := before step hstep
    rw [hempty] at hbucket
    cases hbucket

theorem Filed.get?_eq_some_iff {table : StringTable α} (filed : Filed table.buckets)
    (hvacancy : ∃ index < table.buckets.size, bucketAt table.buckets index = none) (key : String)
    (value : α) : table.get? key = some value ↔ Files table.buckets key value := by
  rcases filed.locate_cases hvacancy key with ⟨index, bucket, hlocate, hbucket, hkey⟩ |
    ⟨last, -, hlocate, -, -, habsent⟩
  · have hget : table.get? key = some bucket.value := by
      rw [get?, bucket?, hlocate]
      exact congrArg (Option.map Bucket.value) hbucket
    rw [hget, Option.some.injEq]
    constructor
    · intro heq
      subst heq
      exact ⟨index, bucket, hbucket, hkey, rfl⟩
    · intro h
      obtain ⟨other, second, hsecond, hsecondKey, rfl⟩ := h
      have hsame := filed.unique hbucket hsecond (hkey.trans hsecondKey.symm)
      rw [← hsame, hbucket] at hsecond
      cases hsecond
      rfl
  · have hget : table.get? key = none := by
      rw [get?, bucket?, hlocate]
      rfl
    rw [hget]
    constructor
    · nofun
    · intro h
      obtain ⟨index, bucket, hbucket, hkey, -⟩ := h
      exact absurd hkey (habsent index bucket hbucket)

end LateBinding.StringTable
