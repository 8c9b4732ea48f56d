import LateBinding.Proofs.Registry.Counting
import LateBinding.System.Shutdown

/-!
# What a shutdown reports

The report names each class that waits for its superclass, each category that waits for its class
and each name that static instances wait under. No two classes have the same name, so the classes
and the names are in strictly ascending order.
-/

namespace LateBinding

/-! ### Sorting by a name -/

theorem List.nodup_eraseDups {α : Type} [BEq α] [LawfulBEq α] (list : List α) :
    list.eraseDups.Nodup := by
  induction hlength : list.length using Nat.strongRecOn generalizing list with
  | _ length ih =>
    cases list with
    | nil => exact List.nodup_nil
    | cons item rest =>
      subst hlength
      rw [List.eraseDups_cons]
      refine List.nodup_cons.mpr ⟨?_, ih _ ?_ _ rfl⟩
      · rw [List.mem_eraseDups, List.mem_filter]
        rintro ⟨-, hne⟩
        simp at hne
      · exact Nat.lt_succ_of_le (List.length_filter_le _ _)

/-- Entries with different names are in strictly ascending order once they are sorted by name. -/
theorem List.pairwise_mergeSort_of_names {α : Type} {entries : List α} {name : α → String}
    (hnodup : (entries.map name).Nodup) :
    (entries.mergeSort fun left right => name left ≤ name right).Pairwise
      fun left right => name left < name right := by
  have hperm := List.mergeSort_perm entries fun left right => decide (name left ≤ name right)
  have hnames := List.pairwise_map.mp ((hperm.map name).nodup_iff.mpr hnodup)
  have hsorted : (entries.mergeSort fun left right => name left ≤ name right).Pairwise
      fun left right => decide (name left ≤ name right) = true := by
    apply List.pairwise_mergeSort
    · intro first second third hfirst hsecond
      rw [decide_eq_true_eq] at hfirst hsecond ⊢
      exact String.le_trans hfirst hsecond
    · intro left right
      rw [Bool.or_eq_true, decide_eq_true_eq, decide_eq_true_eq]
      exact String.le_total (name left) (name right)
  refine hsorted.imp₂ (fun left right hle hne => ?_) hnames
  exact Std.lt_of_le_of_ne (of_decide_eq_true hle) hne

/-! ### Pending classes -/

namespace Registry

theorem mem_unresolved {registry : Registry} {name awaited : String} :
    (name, awaited) ∈ registry.unresolved ↔ ∃ id record, registry.record? id = some record ∧
      record.state = .pending ∧ record.name = name ∧ record.superclassName = some awaited := by
  have hrecord : ∀ record : Record, (if record.isLinked = true then none
      else record.superclassName.map fun awaited => (record.name, awaited)) =
        some (name, awaited) ↔
      record.state = .pending ∧ record.name = name ∧ record.superclassName = some awaited := by
    intro record
    by_cases hstate : record.state = .pending
    · cases record.superclassName <;> simp [Record.isLinked, hstate]
    · simp [Record.isLinked, hstate]
  rw [unresolved, List.mem_mergeSort, List.mem_filterMap]
  simp only [hrecord, classes_eq, List.mem_filterMap, mem_ids]
  constructor
  · intro h
    obtain ⟨record, ⟨id, -, hid⟩, h⟩ := h
    exact ⟨id, record, hid, h⟩
  · intro h
    obtain ⟨id, record, hid, h⟩ := h
    exact ⟨record, ⟨id, ⟨record, hid⟩, hid⟩, h⟩

variable {registry : Registry} {loose : List ClassId}

theorem Consistent.sorted_unresolved (consistent : registry.Consistent loose) :
    registry.unresolved.Pairwise fun left right => left.1 < right.1 := by
  refine List.pairwise_mergeSort_of_names ?_
  rw [classes_eq, List.filterMap_filterMap, List.map_filterMap]
  refine registry.nodup_ids.filterMap ?_
  have hname : ∀ id (name : String), name ∈ ((registry.record? id).bind fun record =>
      if record.isLinked = true then none
      else record.superclassName.map fun awaited => (record.name, awaited)).map Prod.fst →
      registry.idOf? name = some id := by
    intro id name hname
    obtain ⟨entry, hentry, rfl⟩ := Option.map_eq_some_iff.mp hname
    obtain ⟨record, hrecord, hentry⟩ := Option.bind_eq_some_iff.mp hentry
    split at hentry
    · cases hentry
    · obtain ⟨awaited, -, rfl⟩ := Option.map_eq_some_iff.mp hentry
      exact (consistent.names record.name id).mpr
        ⟨record.standing, standing?_of_record hrecord, rfl⟩
  intro id other name hid hother
  exact Option.some.inj ((hname id name hid).symm.trans (hname other name hother))

/-! ### Pending categories -/

theorem sorted_orphans (registry : Registry) : registry.orphans.Pairwise fun left right =>
    left.1 < right.1 ∨ left.1 = right.1 ∧ left.2 ≤ right.2 := by
  have hsorted : registry.orphans.Pairwise fun left right =>
      decide (left.1 < right.1 ∨ (left.1 = right.1 ∧ left.2 ≤ right.2)) = true := by
    apply List.pairwise_mergeSort
    · intro first second third hfirst hsecond
      rw [decide_eq_true_eq] at hfirst hsecond ⊢
      rcases hfirst with hfirst | ⟨hfirst, hle⟩
      · rcases hsecond with hsecond | ⟨hsecond, -⟩
        · exact .inl (String.lt_trans hfirst hsecond)
        · exact .inl (hsecond ▸ hfirst)
      · rcases hsecond with hsecond | ⟨hsecond, hle'⟩
        · exact .inl (hfirst ▸ hsecond)
        · exact .inr ⟨hfirst.trans hsecond, String.le_trans hle hle'⟩
    · intro left right
      rw [Bool.or_eq_true, decide_eq_true_eq, decide_eq_true_eq]
      by_cases heq : left.1 = right.1
      · rcases String.le_total left.2 right.2 with hle | hle
        · exact .inl (.inr ⟨heq, hle⟩)
        · exact .inr (.inr ⟨heq.symm, hle⟩)
      · rcases String.le_total left.1 right.1 with hle | hle
        · exact .inl (.inl (Std.lt_of_le_of_ne hle heq))
        · exact .inr (.inl (Std.lt_of_le_of_ne hle (Ne.symm heq)))
  exact hsorted.imp of_decide_eq_true

theorem Consistent.size_eq_length_classes (consistent : registry.Consistent loose) :
    registry.size = registry.classes.length := by
  rw [consistent.size_eq, classes_eq, List.length_filterMap_eq_countP, List.countP_eq_length.mpr]
  intro id hid
  obtain ⟨record, hrecord⟩ := registry.mem_ids.mp hid
  rw [hrecord]
  rfl

end Registry

/-! ### Waiting static instances -/

namespace StaticQueue

variable (queue : StaticQueue)

theorem length_under (name : String) :
    (queue.under name).length = queue.countP fun (other, _) => other = name := by
  rw [under, List.length_filterMap_eq_countP]
  refine List.countP_congr fun entry _ => ?_
  obtain ⟨other, object⟩ := entry
  dsimp only
  split <;> simp [*]

theorem mem_counts {name : String} {count : Nat} : (name, count) ∈ queue.counts ↔
    0 < count ∧ count = queue.countP fun (other, _) => other = name := by
  have hname : (∃ entry ∈ queue, entry.1 = name) ↔
      0 < queue.countP fun (other, _) => other = name := by
    rw [List.countP_pos_iff]
    simp only [decide_eq_true_eq]
  simp only [counts, List.mem_map, List.mem_mergeSort, List.mem_eraseDups, length_under,
    Prod.mk.injEq]
  constructor
  · rintro ⟨_, hmem, rfl, rfl⟩
    exact ⟨hname.mp hmem, rfl⟩
  · rintro ⟨hpos, rfl⟩
    exact ⟨name, hname.mpr hpos, rfl, rfl⟩

theorem sorted_counts : queue.counts.Pairwise fun left right => left.1 < right.1 := by
  unfold counts
  rw [List.pairwise_map]
  refine @List.pairwise_mergeSort_of_names String _ (fun name => name) ?_
  rw [List.map_id']
  exact List.nodup_eraseDups _

end StaticQueue

/-! ### The report -/

/-- What a shutdown is to report of a system. -/
structure ShutdownReport.Covers (report : ShutdownReport) (system : System) : Prop where
  unresolved : ∀ name awaited, (name, awaited) ∈ report.unresolved ↔
    ∃ id record, system.registry.record? id = some record ∧ record.state = .pending ∧
      record.name = name ∧ record.superclassName = some awaited
  awaits : ∀ id record, system.registry.record? id = some record → record.state = .pending →
    ∃ awaited, record.superclassName = some awaited
  sortedUnresolved : report.unresolved.Pairwise fun left right => left.1 < right.1
  orphans : report.orphans.Perm (system.registry.pendingCategories.map fun category =>
    (category.className, category.name))
  sortedOrphans : report.orphans.Pairwise fun left right =>
    left.1 < right.1 ∨ left.1 = right.1 ∧ left.2 ≤ right.2
  forgotten : ∀ name count, (name, count) ∈ report.forgotten ↔
    0 < count ∧ count = system.statics.countP fun (other, _) => other = name
  sortedForgotten : report.forgotten.Pairwise fun left right => left.1 < right.1
  selectors : report.selectorsReleased = system.selectors.infos.size
  classes : report.classesReleased = system.registry.classes.length

theorem System.covers_shutdownReport {system : System} (consistent : system.registry.Consistent []) :
    system.shutdownReport.Covers system where
  unresolved _ _ := Registry.mem_unresolved
  awaits id record hrecord hpending := by
    obtain ⟨awaited, hawaited, -⟩ := consistent.pending id record.standing
      (Registry.standing?_of_record hrecord) hpending List.not_mem_nil
    exact ⟨awaited, hawaited⟩
  sortedUnresolved := consistent.sorted_unresolved
  orphans := List.mergeSort_perm _ _
  sortedOrphans := system.registry.sorted_orphans
  forgotten _ _ := system.statics.mem_counts
  sortedForgotten := system.statics.sorted_counts
  selectors := rfl
  classes := consistent.size_eq_length_classes

end LateBinding
