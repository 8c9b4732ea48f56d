import LateBinding.Registry.Methods
import LateBinding.Registry.Register
import LateBinding.Registry.Unregister

/-!
# What a change of the classes leads to

A change that is started with some classes either answers, with the classes as they are then, or
ends everything. What it leads to is said by a property of the answer and the classes, and by the
condition under which it may end everything. The rules below take a change apart along its steps.
-/

namespace LateBinding.Linking

variable {α β : Type} {fault : Prop} {start : Classes}

/-- The change ends everything only if `fault` holds, and else leads to what `post` says. -/
def Leads (change : Linking α) (fault : Prop) (start : Classes) (post : α → Classes → Prop) :
    Prop :=
  match change start with
  | .ok (answer, classes) => post answer classes
  | .error _ => fault

theorem Leads.mono {change : Linking α} {post weaker : α → Classes → Prop}
    (leads : change.Leads fault start post)
    (hpost : ∀ answer classes, post answer classes → weaker answer classes) :
    change.Leads fault start weaker := by
  unfold Leads at leads ⊢
  split
  · next answer classes heq =>
    rw [heq] at leads
    exact hpost answer classes leads
  · next reason heq =>
    rw [heq] at leads
    exact leads

theorem Leads.and {change : Linking α} {post other : α → Classes → Prop}
    (leads : change.Leads fault start post) (leadsOther : change.Leads fault start other) :
    change.Leads fault start fun answer classes => post answer classes ∧ other answer classes := by
  unfold Leads at leads leadsOther ⊢
  split
  · next answer classes heq =>
    rw [heq] at leads leadsOther
    exact ⟨leads, leadsOther⟩
  · next reason heq =>
    rw [heq] at leads
    exact leads

theorem Leads.of_false {change : Linking α} {post : α → Classes → Prop}
    (leads : change.Leads False start post) : change.Leads fault start post := by
  unfold Leads at leads ⊢
  split
  · next answer classes heq =>
    rw [heq] at leads
    exact leads
  · next reason heq =>
    rw [heq] at leads
    exact leads.elim

theorem Leads.of_ok {change : Linking α} {post : α → Classes → Prop} {answer : α}
    {classes : Classes} (leads : change.Leads fault start post)
    (hrun : change start = .ok (answer, classes)) : post answer classes := by
  rw [Leads, hrun] at leads
  exact leads

theorem Leads.exists_ok {change : Linking α} {post : α → Classes → Prop}
    (leads : change.Leads False start post) :
    ∃ answer final, change start = .ok (answer, final) ∧ post answer final := by
  unfold Leads at leads
  split at leads
  · next answer final hrun => exact ⟨answer, final, hrun, leads⟩
  · exact leads.elim

@[simp] theorem leads_pure (answer : α) (post : α → Classes → Prop) :
    (pure answer : Linking α).Leads fault start post ↔ post answer start := Iff.rfl

@[simp] theorem leads_bind (change : Linking α) (next : α → Linking β)
    (post : β → Classes → Prop) :
    (change >>= next).Leads fault start post ↔
      change.Leads fault start fun answer classes => (next answer).Leads fault classes post := by
  simp only [Leads, Bind.bind, StateT.bind, Except.bind]
  cases change start <;> rfl

@[simp] theorem leads_map (change : Linking α) (f : α → β) (post : β → Classes → Prop) :
    (f <$> change).Leads fault start post ↔
      change.Leads fault start fun answer classes => post (f answer) classes := by
  simp only [Leads, Functor.map, StateT.map, Bind.bind, Except.bind]
  cases change start <;> rfl

@[simp] theorem leads_get (post : Classes → Classes → Prop) :
    (get : Linking Classes).Leads fault start post ↔ post start start := Iff.rfl

@[simp] theorem leads_report (event : Event) (post : Unit → Classes → Prop) :
    (report event).Leads fault start post ↔
      post () { start with log := start.log.push event } := Iff.rfl

@[simp] theorem leads_onHeap (change : Heap → Heap) (post : Unit → Classes → Prop) :
    (onHeap change).Leads fault start post ↔
      post () { start with heap := change start.heap } := Iff.rfl

@[simp] theorem leads_onRegistry (change : Registry → Registry) (post : Unit → Classes → Prop) :
    (onRegistry change).Leads fault start post ↔
      post () { start with registry := change start.registry } := Iff.rfl

theorem leads_lift (computed : Except Abort α) (post : α → Classes → Prop) :
    (liftM computed : Linking α).Leads fault start post ↔
      match computed with
      | .ok answer => post answer start
      | .error _ => fault := by
  cases computed <;> rfl

/-! ### What a change keeps of the heap -/

/-- If the property holds of the heap before the change and the change answers, it holds
afterwards. -/
def Keeps (change : Linking α) (holds : Heap → Prop) : Prop :=
  ∀ classes, holds classes.heap → change.Leads True classes fun _ final => holds final.heap

variable {holds : Heap → Prop}

theorem keeps_pure (answer : α) : (pure answer : Linking α).Keeps holds := fun _ h => h

theorem keeps_report (event : Event) : (report event).Keeps holds := fun _ h => h

theorem keeps_onRegistry (change : Registry → Registry) : (onRegistry change).Keeps holds :=
  fun _ h => h

theorem keeps_onHeap {change : Heap → Heap} (hchange : ∀ heap, holds heap → holds (change heap)) :
    (onHeap change).Keeps holds :=
  fun classes h => hchange classes.heap h

theorem keeps_lift (computed : Except Abort α) : (liftM computed : Linking α).Keeps holds := by
  intro classes h
  rw [leads_lift]
  cases computed with
  | ok answer => exact h
  | error reason => trivial

theorem Keeps.bind {change : Linking α} {next : α → Linking β} (first : change.Keeps holds)
    (second : ∀ answer, (next answer).Keeps holds) : (change >>= next).Keeps holds := by
  intro classes h
  rw [leads_bind]
  exact (first classes h).mono fun answer middle hmiddle => second answer middle hmiddle

theorem keeps_get_bind {next : Classes → Linking α}
    (keeps : ∀ classes, (next classes).Keeps holds) : (get >>= next).Keeps holds :=
  fun classes => keeps classes classes

theorem Keeps.forM {step : α → Linking PUnit} (keeps : ∀ item, (step item).Keeps holds)
    (items : List α) : (items.forM step).Keeps holds := by
  induction items with
  | nil => exact keeps_pure PUnit.unit
  | cons item rest ih => exact (keeps item).bind fun _ => ih

end LateBinding.Linking
