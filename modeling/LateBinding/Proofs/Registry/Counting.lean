import LateBinding.Proofs.Registry.Consistent

/-!
# Counting classes

The registered classes are listed by number, each once. In a consistent registry without loose
classes the maps count the same classes as the records do.
-/

namespace LateBinding.Registry

variable (registry : Registry)

/-- The numbers of the registered classes. -/
def ids : List ClassId :=
  ((List.range registry.records.size).map ClassId.mk).filter fun id => (registry.record? id).isSome

/-- The numbers of the classes that are not linked yet. -/
def pendingIds : List ClassId :=
  registry.ids.filter fun id => (registry.record? id).any (·.state = .pending)

theorem mem_ids {id : ClassId} : id ∈ registry.ids ↔ ∃ record, registry.record? id = some record := by
  rw [ids, List.mem_filter, Option.isSome_iff_exists, List.mem_map, and_iff_right_iff_imp]
  intro h
  obtain ⟨record, hrecord⟩ := h
  exact ⟨id.index, List.mem_range.mpr (registry.index_lt_of_record? hrecord), rfl⟩

theorem nodup_ids : registry.ids.Nodup := by
  refine List.Nodup.filter _ (List.Nodup.map ?_ List.nodup_range)
  intro first second heq
  exact congrArg ClassId.index heq

theorem length_ids_le : registry.ids.length ≤ registry.records.size := by
  have hfilter := List.length_filter_le (fun id => (registry.record? id).isSome)
    ((List.range registry.records.size).map ClassId.mk)
  rw [List.length_map, List.length_range] at hfilter
  exact hfilter

theorem mem_pendingIds {id : ClassId} : id ∈ registry.pendingIds ↔
    ∃ record, registry.record? id = some record ∧ record.state = .pending := by
  rw [pendingIds, List.mem_filter, mem_ids]
  cases registry.record? id with
  | none => simp
  | some record => simp

theorem nodup_pendingIds : registry.pendingIds.Nodup := registry.nodup_ids.filter _

theorem length_pendingIds_le : registry.pendingIds.length ≤ registry.records.size :=
  Nat.le_trans (List.length_filter_le _ _) registry.length_ids_le

theorem classes_eq : registry.classes = registry.ids.filterMap registry.record? := by
  have hentries : registry.records.toList =
      ((List.range registry.records.size).map ClassId.mk).map registry.record? := by
    apply List.ext_getElem
    · simp
    · intro index hleft hright
      have hin : index < registry.records.size := by simpa using hleft
      simp [record?, hin]
  have hfilter : ∀ ids : List ClassId,
      (ids.filter fun id => (registry.record? id).isSome).filterMap registry.record? =
        ids.filterMap registry.record? := by
    intro ids
    induction ids with
    | nil => rfl
    | cons id rest ih =>
      cases hrecord : registry.record? id with
      | none => simp [hrecord, ih]
      | some record => simp [hrecord, ih]
  rw [classes, hentries, ids, hfilter, List.filterMap_map]
  rfl

theorem linkedCount_add_length_pendingIds :
    registry.linkedCount + registry.pendingIds.length = registry.ids.length := by
  have hlinked : registry.linkedCount =
      registry.ids.countP fun id => (registry.record? id).any (·.isLinked) := by
    rw [linkedCount, classes_eq, List.countP_filterMap]
    congr 1
    funext id
    cases registry.record? id <;> rfl
  have hpending : registry.pendingIds.length =
      registry.ids.countP fun id => ¬ (registry.record? id).any (·.isLinked) = true := by
    rw [pendingIds, ← List.countP_eq_length_filter]
    apply List.countP_congr
    intro id hid
    obtain ⟨record, hrecord⟩ := registry.mem_ids.mp hid
    simp [hrecord, Record.isLinked]
  rw [hlinked, hpending]
  exact (List.length_eq_countP_add_countP _).symm

/-- A list of numbers of registered classes that leaves out one of them is shorter by one. -/
theorem length_lt_of_subset {smaller larger : List ClassId} {id : ClassId} (hnodup : smaller.Nodup)
    (hid : id ∈ larger) (hsubset : ∀ other ∈ smaller, other ∈ larger ∧ other ≠ id) :
    smaller.length < larger.length := by
  have hcons : (id :: smaller).Nodup :=
    List.nodup_cons.mpr ⟨fun hmem => (hsubset id hmem).2 rfl, hnodup⟩
  have hlength := (List.subperm_of_subset hcons (List.cons_subset.mpr
    ⟨hid, fun other hother => (hsubset other hother).1⟩)).length_le
  rw [List.length_cons] at hlength
  exact hlength

namespace Consistent

variable {registry : Registry} {loose : List ClassId}

theorem size_eq (consistent : registry.Consistent loose) :
    registry.size = registry.ids.length := by
  have hmem : ∀ name id, (name, id) ∈ registry.names.toList ↔
      ∃ record, registry.record? id = some record ∧ record.name = name := by
    intro name id
    rw [Std.ExtTreeMap.mem_toList_iff_getElem?_eq_some]
    change registry.idOf? name = some id ↔ _
    rw [consistent.names]
    simp [standing?, Record.standing]
  have hnodup : (registry.names.toList.map Prod.snd).Nodup := by
    refine List.Nodup.map_on ?_ ?_
    · rintro ⟨name, id⟩ hfirst ⟨other, _⟩ hsecond rfl
      obtain ⟨record, hrecord, rfl⟩ := (hmem name id).mp hfirst
      obtain ⟨record', hrecord', rfl⟩ := (hmem other id).mp hsecond
      rw [hrecord] at hrecord'
      cases hrecord'
      rfl
    · have hkeys : registry.names.keys.Nodup := Std.ExtTreeMap.nodup_keys
      rw [← Std.ExtTreeMap.map_fst_toList_eq_keys] at hkeys
      exact hkeys.of_map _
  have hperm : (registry.names.toList.map Prod.snd).Perm registry.ids := by
    rw [List.perm_ext_iff_of_nodup hnodup registry.nodup_ids]
    intro id
    rw [mem_ids, List.mem_map]
    constructor
    · intro h
      obtain ⟨⟨name, _⟩, hname, rfl⟩ := h
      obtain ⟨record, hrecord, -⟩ := (hmem name _).mp hname
      exact ⟨record, hrecord⟩
    · intro h
      obtain ⟨record, hrecord⟩ := h
      exact ⟨(record.name, id), (hmem _ _).mpr ⟨record, hrecord, rfl⟩, rfl⟩
  rw [size, ← Std.ExtTreeMap.length_toList, ← hperm.length_eq, List.length_map]

theorem pendingCount_eq (consistent : registry.Consistent []) :
    registry.pendingCount = registry.pendingIds.length := by
  have hmem : ∀ name waiters, (name, waiters) ∈ registry.waiting.toList →
      registry.waitersOf name = waiters := by
    intro name waiters hpair
    rw [Std.ExtTreeMap.mem_toList_iff_getElem?_eq_some] at hpair
    rw [waitersOf, hpair, Option.getD_some]
  have hnodup : (registry.waiting.toList.flatMap (·.2)).Nodup := by
    rw [List.nodup_flatMap]
    constructor
    · rintro ⟨name, waiters⟩ hpair
      have hwaiters := consistent.waitersNodup name
      rw [hmem name waiters hpair] at hwaiters
      exact hwaiters
    · refine List.Pairwise.imp_of_mem ?_ Std.ExtTreeMap.distinct_keys_toList
      rintro ⟨name, waiters⟩ ⟨other, others⟩ hfirst hsecond hne id hid hid'
      have hwaits : id ∈ registry.waitersOf name := by
        rw [hmem name waiters hfirst]
        exact hid
      have hwaits' : id ∈ registry.waitersOf other := by
        rw [hmem other others hsecond]
        exact hid'
      exact hne (Std.compare_eq_iff_eq.mpr (consistent.awaited_unique hwaits hwaits'))
  have hperm : (registry.waiting.toList.flatMap (·.2)).Perm registry.pendingIds := by
    rw [List.perm_ext_iff_of_nodup hnodup registry.nodup_pendingIds]
    intro id
    rw [mem_pendingIds, List.mem_flatMap]
    constructor
    · intro h
      obtain ⟨⟨name, waiters⟩, hpair, hid⟩ := h
      rw [← hmem name waiters hpair] at hid
      obtain ⟨standing, hstanding, hpending, -⟩ := consistent.waiter name id hid
      obtain ⟨record, hrecord, rfl⟩ := Option.map_eq_some_iff.mp hstanding
      exact ⟨record, hrecord, hpending⟩
    · intro h
      obtain ⟨record, hrecord, hpending⟩ := h
      obtain ⟨awaited, -, hwaits⟩ := consistent.pending id record.standing
        (standing?_of_record hrecord) hpending List.not_mem_nil
      cases hkept : registry.waiting[awaited]? with
      | none =>
        rw [waitersOf, hkept] at hwaits
        cases hwaits
      | some waiters =>
        rw [waitersOf, hkept] at hwaits
        exact ⟨(awaited, waiters), Std.ExtTreeMap.mem_toList_iff_getElem?_eq_some.mpr hkept, hwaits⟩
  exact hperm.length_eq

end Consistent

end LateBinding.Registry
