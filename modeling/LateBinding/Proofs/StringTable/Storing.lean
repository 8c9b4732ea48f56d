import LateBinding.Proofs.StringTable.Searching

/-!
# A string table is a map

Storing keeps every bucket where a search ends up, and some place empty: a table that would become
crowded grows first. So a table shows what was stored last under each key, whatever keys collide.
-/

namespace LateBinding.StringTable

variable {α : Type} {buckets : Array (Option (Bucket α))} {bucket : Bucket α}

def occupied (buckets : Array (Option (Bucket α))) : Nat := buckets.countP (·.isSome)

theorem bucketAt_set {index : Nat} (hindex : index < buckets.size) (stored : Option (Bucket α))
    (other : Nat) : bucketAt (buckets.setIfInBounds index stored) other =
      if index = other then stored else bucketAt buckets other := by
  rw [bucketAt, Array.getElem?_setIfInBounds, if_pos hindex]
  split <;> rfl

theorem occupied_set {index : Nat} (hindex : index < buckets.size) (bucket : Bucket α) :
    occupied (buckets.setIfInBounds index (some bucket)) =
      occupied buckets + if bucketAt buckets index = none then 1 else 0 := by
  have hle : (if buckets[index].isSome then 1 else 0) ≤ buckets.countP (·.isSome) := by
    split
    · next hsome => exact Array.countP_pos_iff.mpr ⟨_, Array.getElem_mem hindex, hsome⟩
    · exact Nat.zero_le _
  rw [occupied, occupied, Array.setIfInBounds, dif_pos hindex, Array.countP_set,
    ← getElem_eq_bucketAt hindex]
  cases hold : buckets[index] with
  | none => simp
  | some old =>
    rw [hold] at hle
    simp only [Option.isSome_some, if_true] at hle ⊢
    simp only [reduceCtorEq, if_false]
    omega

/-- As long as not all places are occupied one is empty. -/
theorem exists_vacancy (hoccupied : occupied buckets < buckets.size) :
    ∃ index < buckets.size, bucketAt buckets index = none := by
  apply Classical.byContradiction
  intro hnone
  have hall : occupied buckets = buckets.size := by
    rw [occupied, Array.countP_eq_size]
    intro held hheld
    obtain ⟨index, hindex, rfl⟩ := Array.mem_iff_getElem.mp hheld
    rw [Option.isSome_iff_ne_none, getElem_eq_bucketAt hindex]
    exact fun hempty => hnone ⟨index, hindex, hempty⟩
  omega

/-! ### Filing a bucket -/

theorem Filed.put (filed : Filed buckets) (bucket : Bucket α) {last : Nat}
    (hhash : bucket.hash = hashKey bucket.key) (hlast : last < buckets.size)
    (hempty : bucketAt buckets (placeAt buckets.size bucket.hash last) = none)
    (hbefore : ∀ earlier < last, ∃ other,
      bucketAt buckets (placeAt buckets.size bucket.hash earlier) = some other ∧
        other.key ≠ bucket.key) :
    Filed (buckets.setIfInBounds (placeAt buckets.size bucket.hash last) (some bucket)) := by
  have hget := bucketAt_set (placeAt_lt filed.nonempty bucket.hash last) (some bucket)
  -- what is on the way of a search was there before, so it is not the place that is taken
  have hkept : ∀ hash step other,
      bucketAt buckets (placeAt buckets.size hash step) = some other →
      bucketAt (buckets.setIfInBounds (placeAt buckets.size bucket.hash last) (some bucket))
        (placeAt buckets.size hash step) = some other := by
    intro hash step other hother
    rw [hget, if_neg, hother]
    intro heq
    rw [heq, hother] at hempty
    cases hempty
  constructor
  case nonempty =>
    rw [Array.size_setIfInBounds]
    exact filed.nonempty
  case hash =>
    intro index other hother
    rw [hget] at hother
    split at hother
    · cases hother
      exact hhash
    · exact filed.hash index other hother
  case reached =>
    intro index other hother
    rw [hget] at hother
    rw [Array.size_setIfInBounds]
    split at hother
    · next heq =>
      cases hother
      refine ⟨last, hlast, heq, ?_⟩
      intro earlier hearlier
      obtain ⟨second, hsecond, hne⟩ := hbefore earlier hearlier
      exact ⟨second, hkept _ _ _ hsecond, hne⟩
    · obtain ⟨step, hstep, hplace, hway⟩ := filed.reached index other hother
      refine ⟨step, hstep, hplace, ?_⟩
      intro earlier hearlier
      obtain ⟨second, hsecond, hne⟩ := hway earlier hearlier
      exact ⟨second, hkept _ _ _ hsecond, hne⟩

theorem files_put {index : Nat} (hindex : index < buckets.size)
    (hempty : bucketAt buckets index = none) (key : String) (value : α) :
    Files (buckets.setIfInBounds index (some bucket)) key value ↔
      (bucket.key = key ∧ bucket.value = value) ∨ Files buckets key value := by
  have hget := bucketAt_set hindex (some bucket)
  constructor
  · intro h
    obtain ⟨other, second, hsecond, hkey, hvalue⟩ := h
    rw [hget] at hsecond
    split at hsecond
    · cases hsecond
      exact .inl ⟨hkey, hvalue⟩
    · exact .inr ⟨other, second, hsecond, hkey, hvalue⟩
  · intro h
    rcases h with ⟨hkey, hvalue⟩ | ⟨other, second, hsecond, hkey, hvalue⟩
    · exact ⟨index, bucket, by rw [hget, if_pos rfl], hkey, hvalue⟩
    · refine ⟨other, second, ?_, hkey, hvalue⟩
      rw [hget, if_neg, hsecond]
      intro heq
      subst heq
      rw [hempty] at hsecond
      cases hsecond

theorem Filed.settle (filed : Filed buckets) (hhash : bucket.hash = hashKey bucket.key)
    (hnew : ∀ value, ¬ Files buckets bucket.key value) (hroom : occupied buckets < buckets.size) :
    Filed (settle buckets bucket) ∧ (settle buckets bucket).size = buckets.size ∧
      occupied (settle buckets bucket) = occupied buckets + 1 ∧
      ∀ key value, Files (settle buckets bucket) key value ↔
        (bucket.key = key ∧ bucket.value = value) ∨ Files buckets key value := by
  obtain ⟨vacant, hvacant, hempty⟩ := exists_vacancy hroom
  have hbefore : ∀ earlier < 0,
      bucketAt buckets (placeAt buckets.size bucket.hash earlier) ≠ none :=
    fun earlier hearlier => absurd hearlier (Nat.not_lt_zero _)
  have hcases := firstVacant_cases filed.nonempty buckets.size hbefore
  rw [Nat.zero_add, placeAt_zero] at hcases
  rcases hcases with ⟨last, hlast, hbefore, hfree, hfirst⟩ | hfull
  · have hplace := placeAt_lt filed.nonempty bucket.hash last
    rw [StringTable.settle, hfirst]
    dsimp only
    refine ⟨filed.put bucket hhash hlast hfree ?_, Array.size_setIfInBounds, ?_, files_put hplace hfree⟩
    · intro earlier hearlier
      obtain ⟨other, hother⟩ := Option.ne_none_iff_exists'.mp (hbefore earlier hearlier)
      exact ⟨other, hother, fun hkey => hnew other.value ⟨_, other, hother, hkey, rfl⟩⟩
    · rw [occupied_set hplace, if_pos hfree]
  · obtain ⟨step, hstep, rfl⟩ := exists_placeAt hvacant bucket.hash
    exact absurd hempty (hfull step hstep)

theorem Filed.replace (filed : Filed buckets) {index : Nat} {old : Bucket α}
    (hold : bucketAt buckets index = some old) (hkey : bucket.key = old.key)
    (hhash : bucket.hash = hashKey bucket.key) :
    Filed (buckets.setIfInBounds index (some bucket)) := by
  have hindex : index < buckets.size := by
    obtain ⟨step, -, hplace, -⟩ := filed.reached index old hold
    rw [← hplace]
    exact placeAt_lt filed.nonempty _ _
  have hget := bucketAt_set hindex (some bucket)
  have holdHash : bucket.hash = old.hash := by
    rw [hhash, hkey, filed.hash index old hold]
  have hkept : ∀ other second, bucketAt buckets other = some second →
      ∃ after, bucketAt (buckets.setIfInBounds index (some bucket)) other = some after ∧
        after.key = second.key := by
    intro other second hsecond
    rw [hget]
    split
    · next heq =>
      rw [← heq, hold] at hsecond
      cases hsecond
      exact ⟨bucket, rfl, hkey⟩
    · exact ⟨second, hsecond, rfl⟩
  have hway : ∀ hash step key, (∀ earlier < step, ∃ other,
        bucketAt buckets (placeAt buckets.size hash earlier) = some other ∧ other.key ≠ key) →
      ∀ earlier < step, ∃ other, bucketAt (buckets.setIfInBounds index (some bucket))
        (placeAt buckets.size hash earlier) = some other ∧ other.key ≠ key := by
    intro hash step key hbefore earlier hearlier
    obtain ⟨second, hsecond, hne⟩ := hbefore earlier hearlier
    obtain ⟨after, hafter, hafterKey⟩ := hkept _ _ hsecond
    exact ⟨after, hafter, by rw [hafterKey]; exact hne⟩
  constructor
  case nonempty =>
    rw [Array.size_setIfInBounds]
    exact filed.nonempty
  case hash =>
    intro other second hsecond
    rw [hget] at hsecond
    split at hsecond
    · cases hsecond
      exact hhash
    · exact filed.hash other second hsecond
  case reached =>
    intro other second hsecond
    rw [hget] at hsecond
    rw [Array.size_setIfInBounds]
    split at hsecond
    · next heq =>
      cases hsecond
      obtain ⟨step, hstep, hplace, hbefore⟩ := filed.reached index old hold
      rw [← holdHash] at hplace hbefore
      rw [← hkey] at hbefore
      exact ⟨step, hstep, hplace.trans heq, hway _ _ _ hbefore⟩
    · obtain ⟨step, hstep, hplace, hbefore⟩ := filed.reached other second hsecond
      exact ⟨step, hstep, hplace, hway _ _ _ hbefore⟩

theorem Filed.files_replace (filed : Filed buckets) {index : Nat} {old : Bucket α}
    (hold : bucketAt buckets index = some old) (hkey : bucket.key = old.key) (key : String)
    (value : α) : Files (buckets.setIfInBounds index (some bucket)) key value ↔
      if bucket.key = key then bucket.value = value else Files buckets key value := by
  have hindex : index < buckets.size := by
    obtain ⟨step, -, hplace, -⟩ := filed.reached index old hold
    rw [← hplace]
    exact placeAt_lt filed.nonempty _ _
  have hget := bucketAt_set hindex (some bucket)
  constructor
  · intro h
    obtain ⟨other, second, hsecond, rfl, rfl⟩ := h
    rw [hget] at hsecond
    split at hsecond
    · cases hsecond
      rw [if_pos rfl]
    · next hne =>
      rw [if_neg]
      · exact ⟨other, second, hsecond, rfl, rfl⟩
      · intro heq
        exact hne (filed.unique hold hsecond (hkey.symm.trans heq))
  · split
    · next hsame => exact fun hvalue => ⟨index, bucket, by rw [hget, if_pos rfl], hsame, hvalue⟩
    · next hdiffers =>
      intro h
      obtain ⟨other, second, hsecond, rfl, rfl⟩ := h
      refine ⟨other, second, ?_, rfl, rfl⟩
      rw [hget, if_neg, hsecond]
      intro heq
      subst heq
      rw [hold] at hsecond
      cases hsecond
      exact hdiffers hkey

/-! ### Growing -/

theorem bucketAt_replicate (size index : Nat) :
    bucketAt (Array.replicate size (none : Option (Bucket α))) index = none := by
  rw [bucketAt, Array.getElem?_replicate]
  split <;> rfl

theorem filed_replicate {size : Nat} (hsize : 0 < size) :
    Filed (Array.replicate size (none : Option (Bucket α))) where
  nonempty := by
    rw [Array.size_replicate]
    exact hsize
  hash := by
    intro index bucket hbucket
    rw [bucketAt_replicate] at hbucket
    cases hbucket
  reached := by
    intro index bucket hbucket
    rw [bucketAt_replicate] at hbucket
    cases hbucket

theorem not_files_replicate (size : Nat) (key : String) (value : α) :
    ¬ Files (Array.replicate size none) key value := by
  intro h
  obtain ⟨index, bucket, hbucket, -⟩ := h
  rw [bucketAt_replicate] at hbucket
  cases hbucket

theorem Filed.settleAll (filed : Filed buckets) (held : List (Option (Bucket α)))
    (hhash : ∀ bucket ∈ held.filterMap id, bucket.hash = hashKey bucket.key)
    (hdistinct : ((held.filterMap id).map Bucket.key).Nodup)
    (hnew : ∀ bucket ∈ held.filterMap id, ∀ value, ¬ Files buckets bucket.key value)
    (hroom : occupied buckets + (held.filterMap id).length ≤ buckets.size) :
    let filled := held.foldl (fun filed bucket => bucket.elim filed (StringTable.settle filed)) buckets
    Filed filled ∧ filled.size = buckets.size ∧
      occupied filled = occupied buckets + (held.filterMap id).length ∧
      ∀ key value, Files filled key value ↔ Files buckets key value ∨
        ∃ bucket ∈ held.filterMap id, bucket.key = key ∧ bucket.value = value := by
  induction held generalizing buckets with
  | nil => exact ⟨filed, rfl, rfl, fun key value => by simp⟩
  | cons first rest ih =>
    cases first with
    | none =>
      rw [List.filterMap_cons_none rfl] at hhash hdistinct hnew hroom ⊢
      exact ih filed hhash hdistinct hnew hroom
    | some bucket =>
      have hcons : (some bucket :: rest).filterMap id = bucket :: rest.filterMap id := rfl
      rw [hcons] at hhash hdistinct hnew hroom ⊢
      rw [List.map_cons, List.nodup_cons] at hdistinct
      rw [List.length_cons] at hroom
      obtain ⟨hsettled, hsize, hcount, hfiles⟩ := filed.settle (hhash bucket List.mem_cons_self)
        (hnew bucket List.mem_cons_self) (by omega)
      have hrest := ih hsettled (fun other hother => hhash other (List.mem_cons_of_mem _ hother))
        hdistinct.2 ?_ (by omega)
      · obtain ⟨hfiled, hfilledSize, hfilledCount, hfilledFiles⟩ := hrest
        refine ⟨hfiled, hfilledSize.trans hsize, ?_, ?_⟩
        · rw [List.length_cons]
          change occupied (rest.foldl _ (StringTable.settle buckets bucket)) = _
          omega
        · intro key value
          refine (hfilledFiles key value).trans ?_
          rw [hfiles]
          constructor
          · intro h
            rcases h with (hfirst | hold) | ⟨other, hother, hvalues⟩
            · exact .inr ⟨bucket, List.mem_cons_self, hfirst⟩
            · exact .inl hold
            · exact .inr ⟨other, List.mem_cons_of_mem _ hother, hvalues⟩
          · intro h
            rcases h with hold | ⟨other, hother, hvalues⟩
            · exact .inl (.inr hold)
            · rcases List.mem_cons.mp hother with rfl | hmem
              · exact .inl (.inl hvalues)
              · exact .inr ⟨other, hmem, hvalues⟩
      · intro other hother value hfiled
        rcases (hfiles other.key value).mp hfiled with ⟨hkey, -⟩ | hold
        · apply hdistinct.1
          rw [hkey]
          exact List.mem_map_of_mem hother
        · exact hnew other (List.mem_cons_of_mem _ hother) value hold

theorem Filed.nodup_keys (filed : Filed buckets) :
    ((buckets.toList.filterMap id).map Bucket.key).Nodup := by
  rw [List.Nodup, List.pairwise_map, List.pairwise_filterMap, List.pairwise_iff_getElem]
  intro first second hfirst hsecond hlt bucket hbucket other hother hkey
  rw [Array.length_toList] at hfirst hsecond
  have hbucketAt : bucketAt buckets first = some bucket := by
    rw [← getElem_eq_bucketAt hfirst, ← Array.getElem_toList]
    exact hbucket
  have hotherAt : bucketAt buckets second = some other := by
    rw [← getElem_eq_bucketAt hsecond, ← Array.getElem_toList]
    exact hother
  exact absurd (filed.unique hbucketAt hotherAt hkey) (Nat.ne_of_lt hlt)

theorem mem_filterMap_iff : bucket ∈ buckets.toList.filterMap id ↔
    ∃ index, bucketAt buckets index = some bucket := by
  rw [List.mem_filterMap]
  constructor
  · intro h
    obtain ⟨held, hheld, heq⟩ := h
    obtain ⟨index, hindex, rfl⟩ := List.mem_iff_getElem.mp hheld
    rw [Array.length_toList] at hindex
    refine ⟨index, ?_⟩
    rw [← getElem_eq_bucketAt hindex, ← Array.getElem_toList]
    exact heq
  · intro h
    obtain ⟨index, hbucket⟩ := h
    have hheld := Option.join_eq_some_iff.mp hbucket
    exact ⟨some bucket, Array.mem_toList_iff.mpr (Array.mem_of_getElem? hheld), rfl⟩

/-- The buckets of a list, filed anew in the order of the list. -/
def refiled (places : Nat) (held : List (Option (Bucket α))) : Array (Option (Bucket α)) :=
  held.foldl (fun filed bucket => bucket.elim filed (StringTable.settle filed))
    (Array.replicate places none)

theorem length_filterMap_toList (buckets : Array (Option (Bucket α))) :
    (buckets.toList.filterMap id).length = occupied buckets := by
  rw [List.length_filterMap_eq_countP, occupied, ← Array.countP_toList]
  rfl

/-- The first buckets of an array can be filed anew among any number of places that is not smaller. -/
theorem Filed.refiled (filed : Filed buckets) {earlier later : List (Option (Bucket α))}
    (hbuckets : buckets.toList = earlier ++ later) {places : Nat} (hplaces : buckets.size ≤ places) :
    Filed (refiled places earlier) ∧ (refiled places earlier).size = places ∧
      occupied (refiled places earlier) = (earlier.filterMap id).length ∧
      ∀ key value, Files (refiled places earlier) key value ↔
        ∃ bucket ∈ earlier.filterMap id, bucket.key = key ∧ bucket.value = value := by
  have hempty : occupied (Array.replicate places (none : Option (Bucket α))) = 0 := by
    rw [occupied, Array.countP_replicate]
    rfl
  have hheld : buckets.toList.filterMap id = earlier.filterMap id ++ later.filterMap id := by
    rw [hbuckets, List.filterMap_append]
  have hlength : (earlier.filterMap id).length ≤ occupied buckets := by
    rw [← length_filterMap_toList, hheld, List.length_append]
    exact Nat.le_add_right _ _
  have hle : occupied buckets ≤ buckets.size := Array.countP_le_size
  have hdistinct : ((earlier.filterMap id).map Bucket.key).Nodup := by
    have hnodup := filed.nodup_keys
    rw [hheld, List.map_append] at hnodup
    exact (List.nodup_append.mp hnodup).1
  have hall := (filed_replicate (Nat.lt_of_lt_of_le filed.nonempty hplaces)).settleAll earlier ?_
    hdistinct (fun bucket _ value => not_files_replicate _ _ _) ?_
  · obtain ⟨hfiled, hsize, hoccupied, hfiles⟩ := hall
    refine ⟨hfiled, hsize.trans Array.size_replicate, ?_, ?_⟩
    · refine hoccupied.trans ?_
      rw [hempty, Nat.zero_add]
    · intro key value
      refine (hfiles key value).trans ?_
      rw [or_iff_right (not_files_replicate _ _ _)]
  · intro bucket hbucket
    have hmem : bucket ∈ buckets.toList.filterMap id := by
      rw [hheld]
      exact List.mem_append_left _ hbucket
    obtain ⟨index, hindex⟩ := mem_filterMap_iff.mp hmem
    exact filed.hash index bucket hindex
  · rw [hempty, Array.size_replicate]
    omega

theorem Filed.grow (filed : Filed buckets) : Filed (grow buckets) ∧
    (grow buckets).size = buckets.size * 2 ∧ occupied (grow buckets) = occupied buckets ∧
    ∀ key value, Files (grow buckets) key value ↔ Files buckets key value := by
  have hplaces : buckets.size ≤ buckets.size * 2 := Nat.le_mul_of_pos_right _ (by decide)
  obtain ⟨hfiled, hsize, hoccupied, hfiles⟩ :=
    filed.refiled (List.append_nil buckets.toList).symm hplaces
  refine ⟨hfiled, hsize, hoccupied.trans (length_filterMap_toList buckets), ?_⟩
  intro key value
  refine (hfiles key value).trans ?_
  constructor
  · intro h
    obtain ⟨bucket, hbucket, hkey, hvalue⟩ := h
    obtain ⟨index, hindex⟩ := mem_filterMap_iff.mp hbucket
    exact ⟨index, bucket, hindex, hkey, hvalue⟩
  · intro h
    obtain ⟨index, bucket, hbucket, hkey, hvalue⟩ := h
    exact ⟨bucket, mem_filterMap_iff.mpr ⟨index, hbucket⟩, hkey, hvalue⟩

/-! ### Whole tables -/

/-- All buckets are filed and counted, and a place stays empty. -/
structure Sound (table : StringTable α) : Prop where
  filed : Filed table.buckets
  count : occupied table.buckets = table.count
  room : table.count < table.buckets.size

theorem Sound.get?_eq_some_iff {table : StringTable α} (sound : table.Sound) (key : String)
    (value : α) : table.get? key = some value ↔ Files table.buckets key value :=
  sound.filed.get?_eq_some_iff (exists_vacancy (by rw [sound.count]; exact sound.room)) key value

theorem sound_replicate {places : Nat} (hpositive : 0 < places) :
    (⟨Array.replicate places none, 0⟩ : StringTable α).Sound := by
  refine ⟨filed_replicate hpositive, ?_, ?_⟩
  · rw [occupied, Array.countP_replicate]
    rfl
  · rw [Array.size_replicate]
    exact hpositive

theorem get?_replicate {places : Nat} (hpositive : 0 < places) (key : String) :
    (⟨Array.replicate places none, 0⟩ : StringTable α).get? key = none := by
  rw [Option.eq_none_iff_forall_ne_some]
  intro value hvalue
  exact not_files_replicate _ key value
    (((sound_replicate hpositive).get?_eq_some_iff key value).mp hvalue)

theorem places_pos (capacity : Nat) : 0 < (max capacity 2).nextPowerOfTwo :=
  Nat.pos_of_isPowerOfTwo (Nat.isPowerOfTwo_nextPowerOfTwo _)

theorem sound_withCapacity (capacity : Nat) : (withCapacity capacity : StringTable α).Sound :=
  sound_replicate (places_pos capacity)

theorem get?_withCapacity (capacity : Nat) (key : String) :
    (withCapacity capacity : StringTable α).get? key = none :=
  get?_replicate (places_pos capacity) key

theorem Sound.places_pos {table : StringTable α} (sound : table.Sound) : 0 < table.buckets.size :=
  Nat.lt_of_le_of_lt (Nat.zero_le _) sound.room

theorem Sound.clear {table : StringTable α} (sound : table.Sound) : table.clear.Sound :=
  sound_replicate sound.places_pos

theorem Sound.get?_clear {table : StringTable α} (sound : table.Sound) (key : String) :
    table.clear.get? key = none :=
  get?_replicate sound.places_pos key

/-- The places that a new key is filed among: twice as many if there were few left. -/
def spacious (table : StringTable α) : Array (Option (Bucket α)) :=
  if table.crowded then grow table.buckets else table.buckets

theorem Sound.spacious {table : StringTable α} (sound : table.Sound) :
    Filed table.spacious ∧ occupied table.spacious = table.count ∧
      table.count + 1 < table.spacious.size ∧
      ∀ key value, Files table.spacious key value ↔ Files table.buckets key value := by
  have hroom := sound.room
  unfold StringTable.spacious
  by_cases hcrowded : table.crowded = true
  · rw [if_pos hcrowded]
    obtain ⟨hfiled, hsize, hoccupied, hfiles⟩ := sound.filed.grow
    exact ⟨hfiled, hoccupied.trans sound.count, by omega, hfiles⟩
  · rw [if_neg hcrowded]
    have hspare : ¬ (table.count + 1) * 4 > table.buckets.size * 3 := by
      simpa [crowded] using hcrowded
    exact ⟨sound.filed, sound.count, by omega, fun _ _ => Iff.rfl⟩

theorem insert_of_vacant {table : StringTable α} {key : String} {first last : Nat} (value : α)
    (hfirst : locate table.buckets key (hashKey key) = .vacant first)
    (hlast : locate table.spacious key (hashKey key) = .vacant last) :
    table.insert key value =
      (⟨table.spacious.setIfInBounds last (some ⟨key, hashKey key, value⟩), table.count + 1⟩,
        none) := by
  have hplaces : table.spacious = if table.crowded then grow table.buckets else table.buckets := rfl
  rw [hplaces] at hlast
  unfold insert
  simp only [hfirst, hlast]
  rfl

/-- What storing a value does: the key is stored already and gets the value, or it is filed. -/
theorem Sound.insert_cases {table : StringTable α} (sound : table.Sound) (key : String) (value : α) :
    (∃ index old, index < table.buckets.size ∧ bucketAt table.buckets index = some old ∧
      old.key = key ∧ table.insert key value =
        ({ table with
            buckets := table.buckets.setIfInBounds index (some ⟨key, hashKey key, value⟩) },
          some old.value)) ∨
    (∀ index bucket, bucketAt table.buckets index = some bucket → bucket.key ≠ key) ∧
      ∃ last < table.spacious.size,
        bucketAt table.spacious (placeAt table.spacious.size (hashKey key) last) = none ∧
        (∀ earlier < last, ∃ other,
          bucketAt table.spacious (placeAt table.spacious.size (hashKey key) earlier) = some other ∧
            other.key ≠ key) ∧
        table.insert key value =
          (⟨table.spacious.setIfInBounds (placeAt table.spacious.size (hashKey key) last)
            (some ⟨key, hashKey key, value⟩), table.count + 1⟩, none) := by
  have hvacancy : ∃ index < table.buckets.size, bucketAt table.buckets index = none :=
    exists_vacancy (by rw [sound.count]; exact sound.room)
  rcases sound.filed.locate_cases hvacancy key with ⟨index, old, hlocate, hold, hkey⟩ |
    ⟨first, -, hlocate, -, -, habsent⟩
  · have hindex : index < table.buckets.size := by
      obtain ⟨step, -, hplace, -⟩ := sound.filed.reached index old hold
      rw [← hplace]
      exact placeAt_lt sound.filed.nonempty _ _
    refine .inl ⟨index, old, hindex, hold, hkey, ?_⟩
    have hvalue : table.buckets[index]?.join.map (·.value) = some old.value :=
      congrArg (Option.map Bucket.value) hold
    unfold insert
    simp only [hlocate, hvalue]
  · obtain ⟨hfiled, hoccupied, hroom, hfiles⟩ := sound.spacious
    have hspare : ∃ index < table.spacious.size, bucketAt table.spacious index = none :=
      exists_vacancy (by omega)
    rcases hfiled.locate_cases hspare key with ⟨index, old, -, hold, hkey⟩ |
      ⟨last, hlast, hlocateLast, hempty, hbefore, -⟩
    · obtain ⟨other, second, hsecond, hsecondKey, -⟩ :=
        (hfiles key old.value).mp ⟨index, old, hold, hkey, rfl⟩
      exact absurd hsecondKey (habsent other second hsecond)
    · exact .inr ⟨habsent, last, hlast, hempty, hbefore, insert_of_vacant value hlocate hlocateLast⟩

theorem insert_spec {table : StringTable α} (sound : table.Sound) (key : String) (value : α) :
    (table.insert key value).1.Sound ∧ ∀ other second,
      Files (table.insert key value).1.buckets other second ↔
        if key = other then value = second else Files table.buckets other second := by
  rcases sound.insert_cases key value with ⟨index, old, hindex, hold, hkey, hinsert⟩ |
    ⟨habsent, last, hlast, hempty, hbefore, hinsert⟩
  · rw [hinsert]
    refine ⟨⟨sound.filed.replace hold hkey.symm rfl, ?_, ?_⟩, ?_⟩
    · rw [occupied_set hindex, hold, if_neg (by nofun), Nat.add_zero, sound.count]
    · rw [Array.size_setIfInBounds]
      exact sound.room
    · exact sound.filed.files_replace hold hkey.symm
  · obtain ⟨hfiled, hoccupied, hroom, hfiles⟩ := sound.spacious
    have hplace := placeAt_lt hfiled.nonempty (hashKey key) last
    rw [hinsert]
    refine ⟨⟨hfiled.put ⟨key, hashKey key, value⟩ rfl hlast hempty hbefore, ?_, ?_⟩, ?_⟩
    · rw [occupied_set hplace, if_pos hempty, hoccupied]
    · rw [Array.size_setIfInBounds]
      exact hroom
    · intro other second
      rw [files_put hplace hempty, hfiles]
      by_cases heq : key = other
      · subst heq
        rw [if_pos rfl]
        constructor
        · intro h
          rcases h with ⟨-, hvalue⟩ | ⟨index, bucket, hbucket, hkey, -⟩
          · exact hvalue
          · exact absurd hkey (habsent index bucket hbucket)
        · exact fun hvalue => .inl ⟨rfl, hvalue⟩
      · rw [if_neg heq]
        constructor
        · intro h
          rcases h with ⟨hkey, -⟩ | hold
          · exact absurd hkey heq
          · exact hold
        · exact .inr

theorem get?_insert {table : StringTable α} (sound : table.Sound) (key other : String) (value : α) :
    (table.insert key value).1.get? other = if key = other then some value else table.get? other := by
  obtain ⟨hsound, hfiles⟩ := insert_spec sound key value
  apply Option.ext
  intro second
  rw [hsound.get?_eq_some_iff, hfiles]
  split
  · rw [Option.some.injEq]
  · rw [sound.get?_eq_some_iff]

end LateBinding.StringTable
