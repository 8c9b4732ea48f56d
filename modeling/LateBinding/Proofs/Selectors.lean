import LateBinding.Proofs.StringTable.Storing
import LateBinding.Selector
import Mathlib.Data.List.Dedup
import Mathlib.Data.List.Perm.Subperm

/-!
# Selectors stand for names

A selector table gives every name a selector of its own, and a name keeps its selector for as long
as names are only added. It runs out of selectors only if more names are met than there are uids.
-/

namespace LateBinding.SelectorTable

variable {table : SelectorTable}

/-- The interned names in the order of their uids. -/
def names (table : SelectorTable) : Array String := table.infos.map (·.name)

theorem name?_eq (table : SelectorTable) (sel : Sel) :
    table.name? sel = if sel.uid = 0 then none else table.names[sel.uid - 1]? := by
  rw [name?, info?, names, Array.getElem?_map]
  split <;> rfl

theorem name?_eq_some_iff {sel : Sel} {name : String} :
    table.name? sel = some name ↔ 1 ≤ sel.uid ∧ table.names[sel.uid - 1]? = some name := by
  rw [name?_eq]
  split
  · next hzero => simp [hzero]
  · next hpositive =>
    have hle : 1 ≤ sel.uid := Nat.one_le_iff_ne_zero.mpr hpositive
    simp [hle]

/-- The names and the selectors of a table stand for one another. -/
structure Sound (table : SelectorTable) : Prop where
  uids : table.uids.Sound
  named : ∀ name sel, table.uids.get? name = some sel ↔ table.name? sel = some name
  size_le : table.names.size ≤ maxUid

theorem Sound.lookup_eq_ok_iff (sound : table.Sound) (name : String) (sel : Sel) :
    table.lookup name = .ok sel ↔ table.name? sel = some name := by
  rw [← sound.named, lookup]
  cases table.uids.get? name <;> simp

theorem Sound.unique (sound : table.Sound) {name : String} {sel other : Sel}
    (hsel : table.name? sel = some name) (hother : table.name? other = some name) : sel = other := by
  rw [← sound.named] at hsel hother
  rw [hsel] at hother
  exact Option.some.inj hother

/-- A selector that was handed out fits into a dispatch table. -/
theorem Sound.uid_le (sound : table.Sound) {sel : Sel} {name : String}
    (hsel : table.name? sel = some name) : sel.uid ≤ maxUid := by
  obtain ⟨hpositive, hname⟩ := name?_eq_some_iff.mp hsel
  obtain ⟨hindex, -⟩ := Array.getElem?_eq_some_iff.mp hname
  have hsize := sound.size_le
  omega

theorem sound_of_empty {uids : StringTable Sel} (sound : uids.Sound)
    (hnone : ∀ name, uids.get? name = none) (policy : TypeMismatchPolicy) :
    (⟨uids, #[], policy⟩ : SelectorTable).Sound where
  uids := sound
  named := by
    intro name sel
    rw [name?_eq_some_iff]
    simp [hnone, names]
  size_le := by simp [names]

theorem sound_withCapacity (capacity : Nat) (policy : TypeMismatchPolicy) :
    (withCapacity capacity policy).Sound :=
  sound_of_empty (StringTable.sound_withCapacity capacity)
    (StringTable.get?_withCapacity capacity) policy

theorem Sound.clear (sound : table.Sound) : table.clear.Sound :=
  sound_of_empty sound.uids.clear sound.uids.get?_clear table.policy

theorem name?_succ {index : Nat} (hindex : index < table.names.toList.length) :
    table.name? ⟨index + 1⟩ = some table.names.toList[index] := by
  rw [Array.length_toList] at hindex
  rw [name?_eq_some_iff, Nat.add_sub_cancel, Array.getElem_toList]
  exact ⟨Nat.le_add_left 1 index, Array.getElem?_eq_getElem hindex⟩

theorem mem_names_iff {name : String} :
    name ∈ table.names.toList ↔ ∃ sel, table.name? sel = some name := by
  constructor
  · intro hmem
    obtain ⟨index, hindex, rfl⟩ := List.mem_iff_getElem.mp hmem
    exact ⟨_, name?_succ hindex⟩
  · intro h
    obtain ⟨sel, hsel⟩ := h
    exact Array.mem_toList_iff.mpr (Array.mem_of_getElem? (name?_eq_some_iff.mp hsel).2)

theorem Sound.nodup_names (sound : table.Sound) : table.names.toList.Nodup := by
  rw [List.Nodup, List.pairwise_iff_getElem]
  intro first second hfirst hsecond hlt heq
  have hfirstAt := name?_succ hfirst
  rw [heq] at hfirstAt
  have hsame := congrArg Sel.uid (sound.unique hfirstAt (name?_succ hsecond))
  dsimp only at hsame
  omega

/-! ### Interning -/

structure Interns (table : SelectorTable) (name : String) (sel : Sel) (final : SelectorTable) :
    Prop where
  sound : final.Sound
  named : final.name? sel = some name
  kept : ∀ other known, table.name? other = some known → final.name? other = some known
  only : ∀ other known, final.name? other = some known →
    known = name ∨ table.name? other = some known

/-- Type encodings have nothing to do with names. -/
theorem names_reconcile (table : SelectorTable) (sel : Sel) (types : Option String) :
    (table.reconcile sel types).1.names = table.names := by
  unfold reconcile
  split
  · next name _ hinfo =>
    have hget : table.infos[sel.uid - 1]? = some ⟨name, none⟩ := by
      rw [info?] at hinfo
      split at hinfo
      · cases hinfo
      · exact hinfo
    apply Array.ext_getElem?
    intro index
    simp only [names, Array.getElem?_map, Array.getElem?_setIfInBounds]
    split
    · next heq =>
      subst heq
      obtain ⟨hindex, -⟩ := Array.getElem?_eq_some_iff.mp hget
      rw [hget, if_pos hindex]
      rfl
    · rfl
  · rfl
  · rfl

theorem uids_reconcile (table : SelectorTable) (sel : Sel) (types : Option String) :
    (table.reconcile sel types).1.uids = table.uids := by
  unfold reconcile
  split <;> rfl

@[simp] theorem policy_reconcile (table : SelectorTable) (sel : Sel) (types : Option String) :
    (table.reconcile sel types).1.policy = table.policy := by
  unfold reconcile
  split <;> rfl

theorem name?_reconcile (table : SelectorTable) (sel other : Sel) (types : Option String) :
    (table.reconcile sel types).1.name? other = table.name? other := by
  rw [name?_eq, name?_eq, names_reconcile]

theorem Sound.reconcile (sound : table.Sound) (sel : Sel) (types : Option String) :
    (table.reconcile sel types).1.Sound where
  uids := by
    rw [uids_reconcile]
    exact sound.uids
  named other known := by
    rw [uids_reconcile, name?_reconcile]
    exact sound.named other known
  size_le := by
    rw [names_reconcile]
    exact sound.size_le

theorem intern_of_known {name : String} {sel : Sel} (types : Option String) (sound : table.Sound)
    (hknown : table.uids.get? name = some sel) :
    ∃ final conflict, table.intern name types = .ok (sel, final, conflict) ∧
      table.Interns name sel final := by
  have hname := fun other => table.name?_reconcile sel other types
  refine ⟨(table.reconcile sel types).1, (table.reconcile sel types).2, ?_,
    sound.reconcile sel types, ?_, ?_, ?_⟩
  · simp only [intern, hknown]
  · rw [hname]
    exact (sound.named name sel).mp hknown
  · intro other known hknown
    rw [hname]
    exact hknown
  · intro other known hknown
    rw [hname] at hknown
    exact .inr hknown

def nextSel (table : SelectorTable) : Sel := ⟨table.infos.size + 1⟩

def extended (table : SelectorTable) (name : String) (types : Option String) : SelectorTable where
  uids := (table.uids.insert name table.nextSel).1
  infos := table.infos.push ⟨name, someTypes types⟩
  policy := table.policy

theorem name?_extended (table : SelectorTable) (name : String) (types : Option String) (sel : Sel) :
    (table.extended name types).name? sel =
      if sel = table.nextSel then some name else table.name? sel := by
  have hiff : sel = table.nextSel ↔ sel.uid = table.infos.size + 1 := by
    cases sel
    simp [nextSel]
  simp only [name?_eq, names, extended, Array.map_push, Array.getElem?_push, Array.size_map, hiff]
  by_cases hzero : sel.uid = 0
  · simp [hzero]
  · have hsub : sel.uid - 1 = table.infos.size ↔ sel.uid = table.infos.size + 1 := by omega
    simp only [hzero, if_false, hsub]

theorem name?_nextSel (table : SelectorTable) : table.name? table.nextSel = none := by
  rw [name?_eq]
  simp [nextSel, names]

theorem Sound.named_extended {name : String} (sound : table.Sound)
    (hnew : table.uids.get? name = none) (types : Option String) (other : String) (sel : Sel) :
    (table.extended name types).uids.get? other = some sel ↔
      (table.extended name types).name? sel = some other := by
  rw [name?_extended, extended, StringTable.get?_insert sound.uids]
  by_cases hother : name = other
  · subst hother
    rw [if_pos rfl]
    by_cases hsel : sel = table.nextSel
    · simp [hsel]
    · rw [if_neg hsel, ← sound.named, hnew]
      simp [Ne.symm hsel]
  · rw [if_neg hother]
    by_cases hsel : sel = table.nextSel
    · subst hsel
      rw [if_pos rfl, sound.named, name?_nextSel]
      simp [hother]
    · rw [if_neg hsel]
      exact sound.named other sel

theorem Sound.extended {name : String} (sound : table.Sound) (hnew : table.uids.get? name = none)
    (types : Option String) (hroom : table.size < maxUid) :
    (table.extended name types).Sound where
  uids := (StringTable.insert_spec sound.uids name _).1
  named := sound.named_extended hnew types
  size_le := by
    simp only [names, SelectorTable.extended, Array.size_map, Array.size_push]
    exact hroom

theorem intern_eq_extended {name : String} (types : Option String)
    (hnew : table.uids.get? name = none) (hroom : table.size < maxUid) :
    table.intern name types = .ok (table.nextSel, table.extended name types, none) := by
  simp only [intern, hnew, if_neg (Nat.not_le.mpr hroom)]
  rfl

theorem intern_of_new {name : String} (types : Option String) (sound : table.Sound)
    (hnew : table.uids.get? name = none) (hroom : table.size < maxUid) :
    ∃ sel final conflict, table.intern name types = .ok (sel, final, conflict) ∧
      table.Interns name sel final := by
  have hname := table.name?_extended name types
  refine ⟨table.nextSel, table.extended name types, none, intern_eq_extended types hnew hroom,
    sound.extended hnew types hroom, ?_, ?_, ?_⟩
  · rw [hname, if_pos rfl]
  · intro other known hknown
    rw [hname, if_neg, hknown]
    intro heq
    subst heq
    rw [name?_nextSel] at hknown
    cases hknown
  · intro other known hknown
    rw [hname] at hknown
    split at hknown
    · cases hknown
      exact .inl rfl
    · exact .inr hknown

/-! ### Keeping names -/

/-- Every name keeps its selector. -/
def Grows (table final : SelectorTable) : Prop :=
  ∀ sel name, table.name? sel = some name → final.name? sel = some name

theorem Grows.refl : table.Grows table := fun _ _ h => h

theorem Grows.trans {final third : SelectorTable} (first : table.Grows final)
    (second : final.Grows third) : table.Grows third :=
  fun sel name h => second sel name (first sel name h)

theorem grows_reconcile (table : SelectorTable) (sel : Sel) (types : Option String) :
    table.Grows (table.reconcile sel types).1 := by
  intro other name hname
  rw [name?_reconcile, hname]

/-! ### Running out of selectors -/

theorem contains_iff (table : SelectorTable) (sel : Sel) :
    table.contains sel = true ↔ ∃ name, table.name? sel = some name := by
  rw [contains, name?, ← Option.isSome_iff_exists, Option.isSome_map]

theorem Grows.contains {final : SelectorTable} (grows : table.Grows final) {sel : Sel}
    (hsel : table.contains sel = true) : final.contains sel = true := by
  obtain ⟨name, hname⟩ := (table.contains_iff sel).mp hsel
  exact (final.contains_iff sel).mpr ⟨name, grows sel name hname⟩

theorem Sound.uid_of_contains (sound : table.Sound) {sel : Sel} (hsel : table.contains sel = true) :
    1 ≤ sel.uid ∧ sel.uid ≤ maxUid := by
  obtain ⟨name, hname⟩ := (table.contains_iff sel).mp hsel
  exact ⟨(name?_eq_some_iff.mp hname).1, sound.uid_le hname⟩

/-- Names of a list were interned, and no others. -/
structure Extends (table : SelectorTable) (names : List String) (final : SelectorTable) :
    Prop where
  sound : final.Sound
  grows : table.Grows final
  only : ∀ sel name, final.name? sel = some name → table.name? sel = some name ∨ name ∈ names

/-- While names of a list were interned, a new one was met when all uids were taken. -/
def Exhausts (table : SelectorTable) (names : List String) (reason : Abort) : Prop :=
  ∃ name full, reason = .selectorsExhausted name ∧ name ∈ names ∧ table.Extends names full ∧
    full.size = maxUid ∧ full.lookup name = .error ⟨name⟩

section

variable {names wider : List String} {middle final : SelectorTable} {reason : Abort}

theorem Sound.extends_self (sound : table.Sound) (names : List String) :
    table.Extends names table :=
  ⟨sound, .refl, fun _ _ h => .inl h⟩

theorem Extends.trans (first : table.Extends names middle) (second : middle.Extends names final) :
    table.Extends names final where
  sound := second.sound
  grows := first.grows.trans second.grows
  only sel name h := (second.only sel name h).elim (first.only sel name) .inr

theorem Extends.mono (extended : table.Extends names final) (hwider : names ⊆ wider) :
    table.Extends wider final :=
  ⟨extended.sound, extended.grows,
    fun sel name h => (extended.only sel name h).imp_right fun hmem => hwider hmem⟩

theorem Exhausts.mono (exhausts : table.Exhausts names reason) (hwider : names ⊆ wider) :
    table.Exhausts wider reason := by
  obtain ⟨name, full, hreason, hname, extended, hfull, hnew⟩ := exhausts
  exact ⟨name, full, hreason, hwider hname, extended.mono hwider, hfull, hnew⟩

theorem Extends.exhausts (first : table.Extends names middle)
    (exhausts : middle.Exhausts names reason) : table.Exhausts names reason := by
  obtain ⟨name, full, hreason, hname, extended, hfull, hnew⟩ := exhausts
  exact ⟨name, full, hreason, hname, first.trans extended, hfull, hnew⟩

theorem Sound.intern_cases (sound : table.Sound) (name : String) (types : Option String) :
    (∃ sel final conflict, table.intern name types = .ok (sel, final, conflict) ∧
      table.Extends [name] final ∧ final.name? sel = some name) ∨
    ∃ reason, table.intern name types = .error reason ∧ table.Exhausts [name] reason := by
  have hextends : ∀ sel final, table.Interns name sel final → table.Extends [name] final :=
    fun sel final interns => ⟨interns.sound, interns.kept, fun other known h =>
      ((interns.only other known h).imp_left fun heq => List.mem_singleton.mpr heq).symm⟩
  cases hget : table.uids.get? name with
  | some known =>
    obtain ⟨final, conflict, hintern, interns⟩ := intern_of_known types sound hget
    exact .inl ⟨known, final, conflict, hintern, hextends known final interns, interns.named⟩
  | none =>
    by_cases hroom : table.size < maxUid
    · obtain ⟨sel, final, conflict, hintern, interns⟩ := intern_of_new types sound hget hroom
      exact .inl ⟨sel, final, conflict, hintern, hextends sel final interns, interns.named⟩
    · refine .inr ⟨.selectorsExhausted name, ?_, name, table, rfl, List.mem_singleton.mpr rfl,
        sound.extends_self _, ?_, ?_⟩
      · simp only [SelectorTable.intern, hget, if_pos (Nat.le_of_not_lt hroom)]
      · have hsize := sound.size_le
        rw [SelectorTable.names, Array.size_map] at hsize
        exact Nat.le_antisymm hsize (Nat.le_of_not_lt hroom)
      · rw [lookup, hget]

theorem Sound.internAll_cases (sound : table.Sound) (names : List String) :
    (∃ sel final, table.internAll names = .ok (sel, final) ∧ table.Extends names final ∧
      ∀ name ∈ names, name ∈ final.names.toList) ∨
    ∃ reason, table.internAll names = .error reason ∧ table.Exhausts names reason := by
  unfold SelectorTable.internAll
  generalize (⟨0⟩ : Sel) = first
  induction names generalizing table first with
  | nil => exact .inl ⟨first, table, rfl, sound.extends_self [], fun _ h => nomatch h⟩
  | cons name rest ih =>
    have hname : [name] ⊆ name :: rest := List.cons_subset_cons name (List.nil_subset rest)
    rw [List.foldlM_cons]
    dsimp only
    rcases sound.intern_cases name none with
      ⟨sel, middle, conflict, hintern, extended, hsel⟩ | ⟨reason, hintern, exhausts⟩
    · rw [hintern]
      have hwhole := extended.mono hname
      rcases ih extended.sound sel with
        ⟨last, final, hrun, hrest, hknown⟩ | ⟨reason, hrun, hrest⟩
      · refine .inl ⟨last, final, hrun,
          hwhole.trans (hrest.mono (List.subset_cons_self name rest)), ?_⟩
        rw [List.forall_mem_cons]
        exact ⟨mem_names_iff.mpr ⟨sel, hrest.grows sel name hsel⟩, hknown⟩
      · exact .inr ⟨reason, hrun, hwhole.exhausts (hrest.mono (List.subset_cons_self name rest))⟩
    · rw [hintern]
      exact .inr ⟨reason, rfl, exhausts.mono hname⟩

/-- There is no room for more names than there are uids. -/
theorem Sound.internAll_fails (sound : table.Sound) {names : List String}
    (hmany : maxUid < names.dedup.length) : ∃ reason, table.internAll names = .error reason := by
  rcases sound.internAll_cases names with
    ⟨sel, final, -, extended, hknown⟩ | ⟨reason, hintern, -⟩
  · have hsubset : names.dedup ⊆ final.names.toList :=
      fun name hname => hknown name (List.mem_dedup.mp hname)
    have hle := (List.subperm_of_subset names.nodup_dedup hsubset).length_le
    exact absurd (Nat.le_trans hle extended.sound.size_le) (Nat.not_le_of_lt hmany)
  · exact ⟨reason, hintern⟩

end

theorem policy_of_intern {name : String} {types : Option String} {sel : Sel}
    {final : SelectorTable} {conflict : Option TypeConflict}
    (hintern : table.intern name types = .ok (sel, final, conflict)) :
    final.policy = table.policy := by
  cases hknown : table.uids.get? name with
  | some known =>
    simp only [SelectorTable.intern, hknown] at hintern
    cases hintern
    exact table.policy_reconcile sel types
  | none =>
    simp only [SelectorTable.intern, hknown] at hintern
    split at hintern
    · cases hintern
    · cases hintern
      rfl

theorem policy_of_internAll {names : List String} {sel : Sel} {final : SelectorTable}
    (hintern : table.internAll names = .ok (sel, final)) : final.policy = table.policy := by
  unfold SelectorTable.internAll at hintern
  generalize (⟨0⟩ : Sel) = first at hintern
  induction names generalizing table first with
  | nil =>
    cases hintern
    rfl
  | cons name rest ih =>
    rw [List.foldlM_cons] at hintern
    dsimp only at hintern
    cases hname : table.intern name none with
    | error reason =>
      rw [hname] at hintern
      cases hintern
    | ok interned =>
      rw [hname] at hintern
      exact (ih _ hintern).trans (policy_of_intern hname)

/-- Whatever name is interned, the table stays sound and keeps the names that it has. -/
theorem Sound.intern (sound : table.Sound) {name : String} {types : Option String} {sel : Sel}
    {final : SelectorTable} {conflict : Option TypeConflict}
    (hintern : table.intern name types = .ok (sel, final, conflict)) :
    final.Sound ∧ table.Grows final := by
  rcases sound.intern_cases name types with ⟨_, _, _, heq, extended, -⟩ | ⟨_, heq, -⟩
  · cases heq.symm.trans hintern
    exact ⟨extended.sound, extended.grows⟩
  · cases heq.symm.trans hintern

theorem Sound.internAll (sound : table.Sound) {names : List String} {sel : Sel}
    {final : SelectorTable} (hintern : table.internAll names = .ok (sel, final)) :
    final.Sound ∧ table.Grows final := by
  rcases sound.internAll_cases names with ⟨_, _, heq, extended, -⟩ | ⟨_, heq, -⟩
  · cases heq.symm.trans hintern
    exact ⟨extended.sound, extended.grows⟩
  · cases heq.symm.trans hintern

/-! ### Room for all names -/

/-- All names that a table knows are in some list. -/
def Within (table : SelectorTable) (known : List String) : Prop :=
  ∀ sel name, table.name? sel = some name → name ∈ known

/-- A new name finds room if the names that may come are not too many. -/
theorem Sound.size_lt (sound : table.Sound) {known : List String} {name : String}
    (within : table.Within known) (hname : name ∈ known) (hnew : table.uids.get? name = none)
    (hknown : known.dedup.length ≤ maxUid) : table.size < maxUid := by
  have hnot : name ∉ table.names.toList := by
    intro hmem
    obtain ⟨sel, hsel⟩ := mem_names_iff.mp hmem
    rw [← sound.named, hnew] at hsel
    cases hsel
  have hsubset : name :: table.names.toList ⊆ known.dedup := by
    intro other hother
    rw [List.mem_dedup]
    rcases List.mem_cons.mp hother with rfl | hmem
    · exact hname
    · obtain ⟨sel, hsel⟩ := mem_names_iff.mp hmem
      exact within sel other hsel
  have hle := (List.subperm_of_subset (List.nodup_cons.mpr ⟨hnot, sound.nodup_names⟩)
    hsubset).length_le
  rw [List.length_cons, Array.length_toList, names, Array.size_map] at hle
  rw [size]
  omega

theorem exists_interns {known : List String} {name : String} (types : Option String)
    (sound : table.Sound) (within : table.Within known) (hname : name ∈ known)
    (hknown : known.dedup.length ≤ maxUid) :
    ∃ sel final conflict, table.intern name types = .ok (sel, final, conflict) ∧
      table.Interns name sel final ∧ final.Within known := by
  have hwithin : ∀ sel final, table.Interns name sel final → final.Within known := by
    intro sel final interns other known' hother
    rcases interns.only other known' hother with rfl | hold
    · exact hname
    · exact within other known' hold
  cases hget : table.uids.get? name with
  | none =>
    obtain ⟨sel, final, conflict, hintern, interns⟩ :=
      intern_of_new types sound hget (sound.size_lt within hname hget hknown)
    exact ⟨sel, final, conflict, hintern, interns, hwithin sel final interns⟩
  | some sel =>
    obtain ⟨final, conflict, hintern, interns⟩ := intern_of_known types sound hget
    exact ⟨sel, final, conflict, hintern, interns, hwithin sel final interns⟩

end LateBinding.SelectorTable
