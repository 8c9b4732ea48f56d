import LateBinding.Proofs.System.Outcome
import Mathlib.Data.List.Forall2

/-!
# Two runs that come to the same

Two runs from related states *match* if both reply or both are cut short for the same reason, and
lead to related states again. They are taken apart along their steps.
-/

namespace LateBinding

variable {ε σ τ α β γ δ : Type} {mirrors : σ → τ → Prop} {Q : α → β → Prop} {P : γ → δ → Prop}
  {start : σ} {image : τ}

/-- The runs give replies that stand for one another, or are cut short for the same reason, and lead
to states that mirror one another. -/
def Matches (mirrors : σ → τ → Prop) (Q : α → β → Prop) (start : σ) (image : τ)
    (run : EStateM ε σ α) (other : EStateM ε τ β) : Prop :=
  match run start, other image with
  | .ok reply final, .ok reply' final' => Q reply reply' ∧ mirrors final final'
  | .error reason final, .error reason' final' => reason' = reason ∧ mirrors final final'
  | _, _ => False

theorem matches_pure (hmirrors : mirrors start image) {reply : α} {reply' : β}
    (hreply : Q reply reply') :
    Matches mirrors Q start image (pure reply : EStateM ε σ α) (pure reply') := ⟨hreply, hmirrors⟩

/-- What comes next may depend on how the first run went. -/
theorem Matches.bind_run {first : EStateM ε σ α} {other : EStateM ε τ β}
    {next : α → EStateM ε σ γ} {later : β → EStateM ε τ δ}
    (hfirst : Matches mirrors Q start image first other)
    (hnext : ∀ reply reply' middle middle', first start = .ok reply middle → Q reply reply' →
      mirrors middle middle' → Matches mirrors P middle middle' (next reply) (later reply')) :
    Matches mirrors P start image (first >>= next) (other >>= later) := by
  unfold Matches at hfirst ⊢
  change match EStateM.bind first next start, EStateM.bind other later image with
    | .ok reply final, .ok reply' final' => _
    | .error reason final, .error reason' final' => _
    | _, _ => _
  unfold EStateM.bind
  revert hfirst
  cases hrun : first start with
  | error reason final =>
    cases other image with
    | error reason' final' => exact fun h => h
    | ok reply' final' => exact False.elim
  | ok reply final =>
    cases other image with
    | error reason' final' => exact False.elim
    | ok reply' final' => exact fun h => hnext reply reply' final final' hrun h.1 h.2

theorem Matches.bind {first : EStateM ε σ α} {other : EStateM ε τ β} {next : α → EStateM ε σ γ}
    {later : β → EStateM ε τ δ} (hfirst : Matches mirrors Q start image first other)
    (hnext : ∀ reply reply' middle middle', Q reply reply' → mirrors middle middle' →
      Matches mirrors P middle middle' (next reply) (later reply')) :
    Matches mirrors P start image (first >>= next) (other >>= later) :=
  hfirst.bind_run fun reply reply' middle middle' _ => hnext reply reply' middle middle'

theorem matches_get_bind {next : σ → EStateM ε σ γ} {later : τ → EStateM ε τ δ}
    (hnext : Matches mirrors P start image (next start) (later image)) :
    Matches mirrors P start image (get >>= next) (get >>= later) := hnext

theorem matches_modify {change : σ → σ} {other : τ → τ}
    (hchange : mirrors (change start) (other image)) :
    Matches mirrors Eq start image (modify change : EStateM ε σ PUnit) (modify other) :=
  ⟨rfl, hchange⟩

theorem Matches.mono {run : EStateM ε σ α} {other : EStateM ε τ β} {weaker : α → β → Prop}
    (matched : Matches mirrors Q start image run other)
    (hweaker : ∀ reply reply', Q reply reply' → weaker reply reply') :
    Matches mirrors weaker start image run other := by
  unfold Matches at matched ⊢
  revert matched
  cases run start <;> cases other image
  · exact fun h => ⟨hweaker _ _ h.1, h.2⟩
  · exact False.elim
  · exact False.elim
  · exact fun h => h

/-- Less may be said of the states. -/
theorem Matches.weaken {run : EStateM ε σ α} {other : EStateM ε τ β} {weaker : σ → τ → Prop}
    (matched : Matches mirrors Q start image run other)
    (hweaker : ∀ final final', mirrors final final' → weaker final final') :
    Matches weaker Q start image run other := by
  unfold Matches at matched ⊢
  revert matched
  cases run start <;> cases other image
  · exact fun h => ⟨h.1, hweaker _ _ h.2⟩
  · exact False.elim
  · exact False.elim
  · exact fun h => ⟨h.1, hweaker _ _ h.2⟩

theorem List.forall₂_eq_map_iff {f : α → β} {list : List α} {list' : List β} :
    List.Forall₂ (fun item item' => item' = f item) list list' ↔ list' = list.map f := by
  constructor
  · intro hlist
    induction hlist with
    | nil => rfl
    | cons hitem _ ih => rw [hitem, ih, List.map_cons]
  · rintro rfl
    exact List.forall₂_map_right_iff.mpr (List.forall₂_same.mpr fun _ _ => rfl)

theorem matches_mapM {list : List α} {list' : List β} {step : α → EStateM ε σ γ}
    {other : β → EStateM ε τ δ} (hlist : List.Forall₂ Q list list') (hmirrors : mirrors start image)
    (hstep : ∀ item item' middle middle', Q item item' → mirrors middle middle' →
      Matches mirrors P middle middle' (step item) (other item')) :
    Matches mirrors (List.Forall₂ P) start image (list.mapM step) (list'.mapM other) := by
  induction hlist generalizing start image with
  | nil => exact matches_pure hmirrors .nil
  | cons hitem _ ih =>
    rw [List.mapM_cons, List.mapM_cons]
    refine (hstep _ _ start image hitem hmirrors).bind ?_
    intro reply reply' middle middle' hreply hmiddle
    refine (ih hmiddle).bind ?_
    exact fun replies replies' _ _ hreplies hfinal => matches_pure hfinal (.cons hreply hreplies)

theorem matches_forM {list : List α} {list' : List β} {step : α → EStateM ε σ PUnit}
    {other : β → EStateM ε τ PUnit} (hlist : List.Forall₂ Q list list')
    (hmirrors : mirrors start image)
    (hstep : ∀ item item' middle middle', Q item item' → mirrors middle middle' →
      Matches mirrors Eq middle middle' (step item) (other item')) :
    Matches mirrors Eq start image (list.forM step) (list'.forM other) := by
  induction hlist generalizing start image with
  | nil => exact matches_pure hmirrors rfl
  | cons hitem _ ih =>
    exact (hstep _ _ start image hitem hmirrors).bind fun _ _ _ _ _ hmiddle => ih hmiddle

end LateBinding
