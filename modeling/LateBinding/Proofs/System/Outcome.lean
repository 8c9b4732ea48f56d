import LateBinding.Proofs.Registry.Outcome
import LateBinding.System.Loading
import LateBinding.System.Shutdown

/-!
# What an action in a session leads to

An action either replies, with the session as it is then, or ends everything. Its outcome is taken
apart along its steps by the same rules as that of a change of the classes. Some properties of a
session are kept by whatever an action does.
-/

namespace LateBinding

theorem EStateM.bind_eq_ok_iff {ε σ α β : Type} {first : EStateM ε σ α} {next : α → EStateM ε σ β}
    {start final : σ} {reply : β} : (first >>= next) start = .ok reply final ↔
      ∃ value middle, first start = .ok value middle ∧ next value middle = .ok reply final := by
  change EStateM.bind first next start = _ ↔ _
  unfold EStateM.bind
  cases first start with
  | ok value middle =>
    constructor
    · exact fun h => ⟨value, middle, rfl, h⟩
    · rintro ⟨_, _, ⟨⟩, h⟩
      exact h
  | error halt middle =>
    constructor
    · exact fun h => nomatch h
    · rintro ⟨_, _, ⟨⟩, _⟩

def Session.classes (session : Session) : Classes :=
  ⟨session.heap, session.system.registry, session.log⟩

def Session.withClasses (session : Session) (classes : Classes) : Session :=
  { heap := classes.heap
    system := { session.system with registry := classes.registry }
    log := classes.log }

namespace Act

variable {α β : Type} {fault : Prop} {start : Session}

/-- The action ends everything only if `fault` holds, and else leads to what `post` says. -/
def Leads (action : Act α) (fault : Prop) (start : Session) (post : α → Session → Prop) : Prop :=
  match action start with
  | .ok reply session => post reply session
  | .error _ _ => fault

theorem Leads.mono {action : Act α} {post weaker : α → Session → Prop}
    (leads : action.Leads fault start post)
    (hpost : ∀ reply session, post reply session → weaker reply session) :
    action.Leads fault start weaker := by
  unfold Leads at leads ⊢
  split
  · next reply session heq =>
    rw [heq] at leads
    exact hpost reply session leads
  · next reason session heq =>
    rw [heq] at leads
    exact leads

theorem Leads.and {action : Act α} {post other : α → Session → Prop}
    (leads : action.Leads fault start post) (leadsOther : action.Leads fault start other) :
    action.Leads fault start fun reply session => post reply session ∧ other reply session := by
  unfold Leads at leads leadsOther ⊢
  split
  · next reply session heq =>
    rw [heq] at leads leadsOther
    exact ⟨leads, leadsOther⟩
  · next reason session heq =>
    rw [heq] at leads
    exact leads

theorem Leads.of_ok {action : Act α} {post : α → Session → Prop} {reply : α} {session : Session}
    (leads : action.Leads fault start post) (hrun : action start = .ok reply session) :
    post reply session := by
  rw [Leads, hrun] at leads
  exact leads

/-- What holds whenever there is a reply is what the action leads to. -/
theorem leads_of_ok {action : Act α} {post : α → Session → Prop}
    (h : ∀ reply final, action start = .ok reply final → post reply final) :
    action.Leads True start post := by
  unfold Leads
  cases hrun : action start with
  | ok reply final => exact h reply final hrun
  | error reason final => trivial

theorem Leads.exists_ok {action : Act α} {post : α → Session → Prop}
    (leads : action.Leads False start post) :
    ∃ reply final, action start = .ok reply final ∧ post reply final := by
  unfold Leads at leads
  split at leads
  · next reply final hrun => exact ⟨reply, final, hrun, leads⟩
  · exact leads.elim

@[simp] theorem leads_pure (reply : α) (post : α → Session → Prop) :
    (pure reply : Act α).Leads fault start post ↔ post reply start := Iff.rfl

@[simp] theorem leads_bind (action : Act α) (next : α → Act β) (post : β → Session → Prop) :
    (action >>= next).Leads fault start post ↔
      action.Leads fault start fun reply session => (next reply).Leads fault session post := by
  simp only [Leads, Bind.bind, EStateM.bind]
  cases action start <;> rfl

@[simp] theorem leads_map (action : Act α) (f : α → β) (post : β → Session → Prop) :
    (f <$> action).Leads fault start post ↔
      action.Leads fault start fun reply session => post (f reply) session := by
  simp only [Leads, Functor.map, EStateM.map]
  cases action start <;> rfl

@[simp] theorem leads_get (post : Session → Session → Prop) :
    (get : Act Session).Leads fault start post ↔ post start start := Iff.rfl

@[simp] theorem leads_modify (change : Session → Session) (post : PUnit → Session → Prop) :
    (modify change : Act PUnit).Leads fault start post ↔ post ⟨⟩ (change start) := Iff.rfl

@[simp] theorem leads_report (event : Event) (post : Unit → Session → Prop) :
    (report event).Leads fault start post ↔
      post () { start with log := start.log.push event } := Iff.rfl

@[simp] theorem leads_onSystem (change : System → System) (post : Unit → Session → Prop) :
    (onSystem change).Leads fault start post ↔
      post () { start with system := change start.system } := Iff.rfl

theorem leads_onClasses (change : Linking α) (post : α → Session → Prop) :
    (onClasses change).Leads fault start post ↔
      change.Leads fault start.classes fun answer classes =>
        post answer (start.withClasses classes) := by
  unfold Leads onClasses Linking.Leads Session.classes StateT.run
  dsimp only
  cases change ⟨start.heap, start.system.registry, start.log⟩ <;> rfl

/-! ### What an action keeps -/

/-- If the property holds before the action and the action replies, it holds afterwards. -/
def Keeps (action : Act α) (holds : Session → Prop) : Prop :=
  ∀ session, holds session → action.Leads True session fun _ final => holds final

variable {holds : Session → Prop}

theorem keeps_pure (reply : α) : (pure reply : Act α).Keeps holds := fun _ h => h

theorem keeps_modify {change : Session → Session}
    (hchange : ∀ session, holds session → holds (change session)) :
    (modify change : Act PUnit).Keeps holds := hchange

theorem Keeps.bind {action : Act α} {next : α → Act β} (first : action.Keeps holds)
    (second : ∀ reply, (next reply).Keeps holds) : (action >>= next).Keeps holds := by
  intro session h
  rw [leads_bind]
  exact (first session h).mono fun reply after hafter => second reply after hafter

theorem Keeps.map {action : Act α} (f : α → β) (keeps : action.Keeps holds) :
    (f <$> action).Keeps holds := by
  intro session h
  rw [leads_map]
  exact keeps session h

/-- What is done next may depend on the session, and on what holds of it. -/
theorem keeps_get_bind {next : Session → Act α} (keeps : ∀ session, holds session →
    (next session).Leads True session fun _ final => holds final) :
    ((get : Act Session) >>= next).Keeps holds := keeps

theorem Keeps.mapM {list : List α} {step : α → Act β} (keeps : ∀ item, (step item).Keeps holds) :
    (list.mapM step).Keeps holds := by
  induction list with
  | nil => exact keeps_pure []
  | cons item rest ih =>
    rw [List.mapM_cons]
    exact (keeps item).bind fun _ => ih.bind fun _ => keeps_pure _

theorem Keeps.forM {list : List α} {step : α → Act PUnit} (keeps : ∀ item, (step item).Keeps holds) :
    (list.forM step).Keeps holds := by
  induction list with
  | nil => exact keeps_pure PUnit.unit
  | cons item rest ih => exact (keeps item).bind fun _ => ih

end Act

end LateBinding
