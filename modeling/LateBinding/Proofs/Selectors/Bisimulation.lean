import LateBinding.Proofs.Selectors

/-!
# Selector tables that cannot be told apart

What a selector table answers depends on the selectors that it knows, not on where it has filed their
names. Tables that know the same selectors give the same answers, whatever is interned in both.
-/

namespace LateBinding

namespace SelectorTable

/-- Interning a name comes to the same in two tables, and they stay alike. -/
def InternedAlike (alike : SelectorTable → SelectorTable → Prop) :
    Except Abort (Sel × SelectorTable × Option TypeConflict) →
      Except Abort (Sel × SelectorTable × Option TypeConflict) → Prop
  | .ok (sel, table, conflict), .ok (sel', image, conflict') =>
    sel' = sel ∧ conflict' = conflict ∧ alike table image
  | .error reason, .error reason' => reason' = reason
  | _, _ => False

/-- Tables that are alike know the same selectors, whatever is interned in both. -/
structure Bisimulation (alike : SelectorTable → SelectorTable → Prop) : Prop where
  infos {table image : SelectorTable} (halike : alike table image) : image.infos = table.infos
  intern {table image : SelectorTable} (halike : alike table image) (name : String)
    (types : Option String) : InternedAlike alike (table.intern name types) (image.intern name types)
  reconcile {table image : SelectorTable} (halike : alike table image) (sel : Sel)
    (types : Option String) :
    (image.reconcile sel types).2 = (table.reconcile sel types).2 ∧
      alike (table.reconcile sel types).1 (image.reconcile sel types).1

theorem bisimulation_eq : Bisimulation Eq where
  infos halike := congrArg infos halike.symm
  intern halike name types := by
    subst halike
    unfold InternedAlike
    cases SelectorTable.intern _ name types with
    | error reason => exact rfl
    | ok answered => exact ⟨rfl, rfl, rfl⟩
  reconcile halike sel types := by
    subst halike
    exact ⟨rfl, rfl⟩

variable {alike : SelectorTable → SelectorTable → Prop} {table image : SelectorTable}

theorem Bisimulation.contains (bisimulation : Bisimulation alike) (halike : alike table image)
    (sel : Sel) : image.contains sel = table.contains sel := by
  rw [SelectorTable.contains, SelectorTable.contains, info?, info?, bisimulation.infos halike]

theorem Bisimulation.internAll (bisimulation : Bisimulation alike) (halike : alike table image)
    (names : List String) :
    match table.internAll names, image.internAll names with
    | .ok (sel, final), .ok (sel', final') => sel' = sel ∧ alike final final'
    | .error reason, .error reason' => reason' = reason
    | _, _ => False := by
  unfold SelectorTable.internAll
  generalize (⟨0⟩ : Sel) = first
  induction names generalizing table image first with
  | nil => exact ⟨rfl, halike⟩
  | cons name rest ih =>
    rw [List.foldlM_cons, List.foldlM_cons]
    dsimp only
    have hname := bisimulation.intern halike name none
    revert hname
    cases table.intern name none with
    | error reason =>
      cases image.intern name none with
      | error reason' => exact fun h => h
      | ok answered => exact False.elim
    | ok answered =>
      cases image.intern name none with
      | error reason' => exact False.elim
      | ok answered' =>
        rintro ⟨hsel, -, hnext⟩
        obtain ⟨sel, middle, conflict⟩ := answered
        obtain ⟨sel', middle', conflict'⟩ := answered'
        change sel' = sel at hsel
        subst hsel
        exact ih hnext sel'

/-! ### Tables that know the same -/

/-- Two sound tables with the same selectors. How many places they have for names is not seen. -/
structure Alike (table image : SelectorTable) : Prop where
  infos : image.infos = table.infos
  policy : image.policy = table.policy
  sound : table.Sound
  image : image.Sound

namespace Alike

variable (halike : table.Alike image)

include halike

theorem info?_eq (sel : Sel) : image.info? sel = table.info? sel := by
  rw [info?, info?, halike.infos]

theorem get?_eq (name : String) : image.uids.get? name = table.uids.get? name := by
  apply Option.ext
  intro sel
  have hname : image.name? sel = table.name? sel := congrArg (Option.map _) (halike.info?_eq sel)
  rw [halike.image.named, halike.sound.named, hname]

theorem lookup_eq (name : String) : image.lookup name = table.lookup name := by
  rw [lookup, lookup, halike.get?_eq]

theorem describe_eq (sel : Sel) : image.describe sel = table.describe sel := by
  rw [describe, describe, name?, name?, halike.info?_eq]

theorem reconcile (sel : Sel) (types : Option String) :
    (image.reconcile sel types).2 = (table.reconcile sel types).2 ∧
      (table.reconcile sel types).1.Alike (image.reconcile sel types).1 := by
  have hsound := halike.sound.reconcile sel types
  have himage := halike.image.reconcile sel types
  have hparts : (image.reconcile sel types).2 = (table.reconcile sel types).2 ∧
      (image.reconcile sel types).1.infos = (table.reconcile sel types).1.infos ∧
      (image.reconcile sel types).1.policy = (table.reconcile sel types).1.policy := by
    unfold SelectorTable.reconcile
    rw [halike.info?_eq, halike.infos, halike.policy]
    split
    · exact ⟨rfl, rfl, rfl⟩
    · exact ⟨rfl, halike.infos, halike.policy⟩
    · exact ⟨rfl, halike.infos, halike.policy⟩
  exact ⟨hparts.1, hparts.2.1, hparts.2.2, hsound, himage⟩

theorem intern (name : String) (types : Option String) :
    InternedAlike Alike (table.intern name types) (image.intern name types) := by
  have hsize : image.size = table.size := congrArg Array.size halike.infos
  cases hknown : table.uids.get? name with
  | some sel =>
    obtain ⟨hconflict, hreconciled⟩ := halike.reconcile sel types
    have himage := (halike.get?_eq name).trans hknown
    simp only [SelectorTable.intern, hknown, himage]
    exact ⟨rfl, hconflict, hreconciled⟩
  | none =>
    have himage := (halike.get?_eq name).trans hknown
    by_cases hfull : maxUid ≤ table.size
    · simp only [SelectorTable.intern, hknown, himage, hsize, if_pos hfull]
      exact rfl
    · have hroom : table.size < maxUid := Nat.not_le.mp hfull
      have hsel : image.nextSel = table.nextSel := congrArg (fun size => Sel.mk (size + 1)) hsize
      have hextended : (table.extended name types).Alike (image.extended name types) :=
        ⟨congrArg (fun infos : Array SelectorInfo => infos.push ⟨name, someTypes types⟩)
            halike.infos,
          halike.policy, halike.sound.extended hknown types hroom,
          halike.image.extended himage types (hsize ▸ hroom)⟩
      rw [intern_eq_extended types hknown hroom, intern_eq_extended types himage (hsize ▸ hroom)]
      exact ⟨hsel, rfl, hextended⟩

theorem clear : table.clear.Alike image.clear :=
  ⟨rfl, halike.policy, halike.sound.clear, halike.image.clear⟩

end Alike

theorem bisimulation_alike : Bisimulation Alike where
  infos halike := halike.infos
  intern halike := halike.intern
  reconcile halike := halike.reconcile

/-- A table that was cleared is like a new one. -/
theorem alike_clear {capacity : Nat} (sound : table.Sound) :
    (withCapacity capacity table.policy).Alike table.clear :=
  ⟨rfl, rfl, sound_withCapacity _ _, sound.clear⟩

end SelectorTable

end LateBinding
