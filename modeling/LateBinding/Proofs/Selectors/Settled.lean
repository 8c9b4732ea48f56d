import LateBinding.Proofs.Selectors

/-!
# Declarations that are settled

A declaration is settled in a table if its name has a selector, with an encoding in case it gives one.
Interning settles it, and it stays settled. Interned once more it changes nothing.
-/

namespace LateBinding.SelectorTable

variable {table final : SelectorTable} {name : String} {sel : Sel} {types : Option String}
  {conflict : Option TypeConflict}

/-- Every name keeps its selector, and no selector loses its encoding. -/
structure Retains (table final : SelectorTable) : Prop where
  grows : table.Grows final
  types : ∀ sel, (table.types? sel).isSome = true → (final.types? sel).isSome = true

theorem Retains.refl : table.Retains table := ⟨.refl, fun _ h => h⟩

theorem Retains.trans {third : SelectorTable} (first : table.Retains final)
    (second : final.Retains third) : table.Retains third :=
  ⟨first.grows.trans second.grows, fun sel h => second.types sel (first.types sel h)⟩

def Settles (table : SelectorTable) (name : String) (types : Option String) : Prop :=
  ∃ sel, table.name? sel = some name ∧
    (someTypes types = none ∨ (table.types? sel).isSome = true)

theorem Retains.settles (retains : table.Retains final) (settles : table.Settles name types) :
    final.Settles name types := by
  obtain ⟨sel, hsel, htypes⟩ := settles
  exact ⟨sel, retains.grows sel name hsel, htypes.imp_right (retains.types sel)⟩

/-! ### Declaring an encoding -/

/-- An encoding is noted where there was none. -/
theorem types?_reconcile {encoding : String} (hsome : someTypes types = some encoding)
    (hinfo : table.info? sel = some ⟨name, none⟩) (other : Sel) :
    (table.reconcile sel types).1.types? other =
      if other = sel then some encoding else table.types? other := by
  obtain ⟨hpositive, hentry⟩ : ¬ sel.uid = 0 ∧ table.infos[sel.uid - 1]? = some ⟨name, none⟩ := by
    rw [info?] at hinfo
    split at hinfo
    · cases hinfo
    · next hpositive => exact ⟨hpositive, hinfo⟩
  obtain ⟨hindex, -⟩ := Array.getElem?_eq_some_iff.mp hentry
  have hiff : other = sel ↔ other.uid = sel.uid := by
    cases other
    cases sel
    simp
  have hnoted : (table.reconcile sel types).1 = { table with
      infos := table.infos.setIfInBounds (sel.uid - 1) ⟨name, some encoding⟩ } := by
    rw [reconcile, hsome, hinfo]
  rw [hnoted]
  simp only [types?, info?, Array.getElem?_setIfInBounds, hiff]
  by_cases hzero : other.uid = 0
  · have hne : ¬ other.uid = sel.uid := by omega
    rw [if_pos hzero, if_neg hne, if_pos hzero]
  · have hsub : sel.uid - 1 = other.uid - 1 ↔ other.uid = sel.uid := by omega
    simp only [if_neg hzero, hsub, if_pos hindex]
    split
    · rw [Option.bind_some]
    · rfl

/-- Either nothing is noted, or an encoding where there was none. -/
theorem reconcile_cases (table : SelectorTable) (sel : Sel) (types : Option String) :
    (table.reconcile sel types).1 = table ∧ (table.contains sel = true →
      someTypes types = none ∨ (table.types? sel).isSome = true) ∨
    ∃ name encoding, someTypes types = some encoding ∧ table.info? sel = some ⟨name, none⟩ := by
  cases hsome : someTypes types with
  | none =>
    refine .inl ⟨?_, fun _ => .inl rfl⟩
    rw [reconcile, hsome]
  | some encoding =>
    cases hinfo : table.info? sel with
    | none =>
      refine .inl ⟨?_, fun hcontains => ?_⟩
      · rw [reconcile, hsome, hinfo]
      · rw [contains, hinfo] at hcontains
        cases hcontains
    | some info =>
      obtain ⟨name, kept⟩ := info
      cases kept with
      | none => exact .inr ⟨name, encoding, rfl, rfl⟩
      | some kept =>
        refine .inl ⟨?_, fun _ => .inr ?_⟩
        · rw [reconcile, hsome, hinfo]
        · rw [types?, hinfo]
          rfl

theorem retains_reconcile (table : SelectorTable) (sel : Sel) (types : Option String) :
    table.Retains (table.reconcile sel types).1 where
  grows := table.grows_reconcile sel types
  types other hother := by
    rcases table.reconcile_cases sel types with ⟨hsame, -⟩ | ⟨name, encoding, hsome, hinfo⟩
    · rwa [hsame]
    · rw [types?_reconcile hsome hinfo]
      split
      · rfl
      · exact hother

theorem settles_reconcile (types : Option String) (hname : table.name? sel = some name) :
    (table.reconcile sel types).1.Settles name types := by
  refine ⟨sel, (table.name?_reconcile sel sel types).trans hname, ?_⟩
  rcases table.reconcile_cases sel types with ⟨hsame, hsettled⟩ | ⟨known, encoding, hsome, hinfo⟩
  · rw [hsame]
    exact hsettled ((table.contains_iff sel).mpr ⟨name, hname⟩)
  · rw [types?_reconcile hsome hinfo, if_pos rfl]
    exact .inr rfl

/-- What is settled is declared again for nothing. -/
theorem reconcile_eq_self (hsettled : someTypes types = none ∨ (table.types? sel).isSome = true) :
    (table.reconcile sel types).1 = table := by
  rcases table.reconcile_cases sel types with ⟨hsame, -⟩ | ⟨name, encoding, hsome, hinfo⟩
  · exact hsame
  · rw [types?, hinfo, hsome] at hsettled
    rcases hsettled with hnone | hkept
    · cases hnone
    · cases hkept

/-! ### Interning -/

theorem types?_extended (table : SelectorTable) (name : String) (types : Option String) (sel : Sel) :
    (table.extended name types).types? sel =
      if sel = table.nextSel then someTypes types else table.types? sel := by
  have hiff : sel = table.nextSel ↔ sel.uid = table.infos.size + 1 := by
    cases sel
    simp [nextSel]
  simp only [types?, info?, extended, Array.getElem?_push, hiff]
  by_cases hzero : sel.uid = 0
  · simp [hzero]
  · have hsub : sel.uid - 1 = table.infos.size ↔ sel.uid = table.infos.size + 1 := by omega
    simp only [hzero, if_false, hsub]
    split <;> rfl

theorem types?_nextSel (table : SelectorTable) : table.types? table.nextSel = none := by
  simp [types?, info?, nextSel]

theorem retains_extended (table : SelectorTable) (name : String) (types : Option String) :
    table.Retains (table.extended name types) where
  grows sel known hknown := by
    rw [name?_extended, if_neg, hknown]
    rintro rfl
    rw [name?_nextSel] at hknown
    cases hknown
  types sel hsel := by
    rw [types?_extended, if_neg, hsel]
    rintro rfl
    rw [types?_nextSel] at hsel
    cases hsel

/-- A name that is interned is settled from then on, and whatever was settled stays so. -/
theorem Sound.settles_of_intern (sound : table.Sound)
    (hintern : table.intern name types = .ok (sel, final, conflict)) :
    final.Sound ∧ table.Retains final ∧ final.name? sel = some name ∧ final.Settles name types := by
  have hsound := (sound.intern hintern).1
  cases hknown : table.uids.get? name with
  | some known =>
    have hname := (sound.named name known).mp hknown
    simp only [SelectorTable.intern, hknown] at hintern
    cases hintern
    exact ⟨hsound, table.retains_reconcile sel types,
      (table.name?_reconcile sel sel types).trans hname, settles_reconcile types hname⟩
  | none =>
    by_cases hroom : table.size < maxUid
    · rw [intern_eq_extended types hknown hroom] at hintern
      cases hintern
      have hname : (table.extended name types).name? table.nextSel = some name := by
        rw [name?_extended, if_pos rfl]
      refine ⟨hsound, table.retains_extended name types, hname, table.nextSel, hname, ?_⟩
      rw [types?_extended, if_pos rfl]
      cases someTypes types with
      | none => exact .inl rfl
      | some encoding => exact .inr rfl
    · simp only [SelectorTable.intern, hknown, if_pos (Nat.le_of_not_lt hroom)] at hintern
      cases hintern

theorem Settles.intern_eq (settles : table.Settles name types) (sound : table.Sound) :
    ∃ sel conflict, table.name? sel = some name ∧
      table.intern name types = .ok (sel, table, conflict) := by
  obtain ⟨sel, hsel, htypes⟩ := settles
  refine ⟨sel, (table.reconcile sel types).2, hsel, ?_⟩
  simp only [SelectorTable.intern, (sound.named name sel).mpr hsel]
  rw [reconcile_eq_self htypes]

end LateBinding.SelectorTable
