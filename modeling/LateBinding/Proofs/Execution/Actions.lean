import LateBinding.Proofs.Execution.Atomic
import LateBinding.Proofs.Execution.Steps
import LateBinding.Proofs.System.Shutdown

/-!
# Actions go from step to step

Whatever is done in one go is made of deeds, in which nobody's turn to be initialized comes and
nothing is released, also if it ends everything half way.
-/

namespace LateBinding

open Session

def Session.pairsOf (session : Session) (ids : List ClassId) : List PairId :=
  ids.filterMap fun id => (session.system.registry.record? id).map (·.pair)

theorem Session.AtRest.hasPair_of_pairsOf {policy : CategoryConflictPolicy} {start : Session}
    (atRest : start.AtRest policy) {ids : List ClassId} :
    ∀ pair ∈ start.pairsOf ids, start.heap.HasPair pair := by
  intro pair hpair
  obtain ⟨id, -, hid⟩ := List.mem_filterMap.mp hpair
  obtain ⟨record, hrecord, rfl⟩ := Option.map_eq_some_iff.mp hid
  exact atRest.upToDate.housed.hasPair id record hrecord

theorem Session.AtRest.hasPair_of_classForName? {policy : CategoryConflictPolicy} {start : Session}
    (atRest : start.AtRest policy) {name : String} {cls : ClassRef}
    (hcls : start.classForName? name = some cls) : start.heap.HasPair cls.pair := by
  obtain ⟨id, content, -, -, hcontent, rfl⟩ :=
    (Registry.classForName?_eq_some_iff name cls).mp hcls
  obtain ⟨record, hrecord, rfl⟩ := Option.map_eq_some_iff.mp hcontent
  exact atRest.upToDate.housed.hasPair id record hrecord

/-- The values that an operation puts into slots. -/
def Operation.stored : Operation → List Value
  | .createLiteral slots => slots
  | .setSlot _ _ value => [value]
  | _ => []

namespace Act

variable {α β : Type} {policy : CategoryConflictPolicy} {given : Value → Prop} {start : Session}

/-! ### What actions do -/

/-- The session at the end of an action, whether it replies or ends everything. -/
def after (action : Act α) (start : Session) : Session :=
  match action start with
  | .ok _ final => final
  | .error _ final => final

/-- The action is made of deeds, given some values. -/
def WalksOf (given : Value → Prop) (action : Act α) (start : Session) : Prop :=
  start.DeedsOf given (action.after start)

abbrev Walks (action : Act α) (start : Session) : Prop := action.WalksOf (fun _ => True) start

/-- The action is made of deeds wherever nothing is owed. -/
def RoamsOf (given : Value → Prop) (policy : CategoryConflictPolicy) (action : Act α) : Prop :=
  ∀ start, start.AtRest policy → action.WalksOf given start

abbrev Roams (policy : CategoryConflictPolicy) (action : Act α) : Prop :=
  action.RoamsOf (fun _ => True) policy

theorem after_of_ok {action : Act α} {reply : α} {final : Session}
    (hrun : action start = .ok reply final) : action.after start = final := by
  rw [after, hrun]

theorem WalksOf.trail {action : Act α} (walks : action.WalksOf given start) :
    start.Trail (action.after start) := DeedsOf.trail walks

theorem WalksOf.deeds_of_ok {action : Act α} {reply : α} {final : Session}
    (walks : action.WalksOf given start) (hrun : action start = .ok reply final) :
    start.DeedsOf given final := by
  rw [WalksOf, after_of_ok hrun] at walks
  exact walks

theorem WalksOf.of_ok {action : Act α} {reply : α} {final : Session}
    (walks : action.Walks start) (hrun : action start = .ok reply final) : start.Trail final :=
  (walks.deeds_of_ok hrun).trail

theorem WalksOf.atRest {action : Act α} {reply : α} {final : Session}
    (walks : action.WalksOf given start) (hrun : action start = .ok reply final)
    (atRest : start.AtRest policy) : final.AtRest policy :=
  Trail.atRest (walks.deeds_of_ok hrun).trail atRest

theorem walks_bind {first : Act α} {next : α → Act β} (hfirst : first.WalksOf given start)
    (hnext : ∀ reply middle, first start = .ok reply middle → (next reply).WalksOf given middle) :
    (first >>= next).WalksOf given start := by
  unfold WalksOf after at hfirst ⊢
  change start.DeedsOf given (match EStateM.bind first next start with
    | .ok _ final => final
    | .error _ final => final)
  unfold EStateM.bind
  cases hrun : first start with
  | ok reply middle =>
    rw [hrun] at hfirst
    exact hfirst.trans (hnext reply middle hrun)
  | error reason final =>
    rw [hrun] at hfirst
    exact hfirst

theorem walks_map {action : Act α} (walks : action.WalksOf given start) (f : α → β) :
    (f <$> action).WalksOf given start := by
  rw [map_eq_pure_bind]
  exact walks_bind walks fun _ _ _ => .refl

theorem walks_modify {change : Session → Session} (deed : start.Deed given (change start)) :
    (modify change : Act PUnit).WalksOf given start := .single deed

theorem walks_onClasses {change : Linking α}
    (leads : change.Leads True start.classes fun _ final => start.classes.Change final) :
    (onClasses change).WalksOf given start := by
  unfold WalksOf after onClasses
  unfold Linking.Leads Session.classes at leads
  dsimp only [StateT.run]
  cases hrun : change ⟨start.heap, start.system.registry, start.log⟩ with
  | ok answered =>
    rw [hrun] at leads
    exact .single (.classes leads)
  | error reason => exact .refl

theorem roams_pure (reply : α) : (pure reply : Act α).RoamsOf given policy := fun _ _ => .refl

theorem roams_get_bind {next : Session → Act β}
    (h : ∀ session, session.AtRest policy → (next session).WalksOf given session) :
    ((get : Act Session) >>= next).RoamsOf given policy := h

theorem roams_modify {change : Session → Session}
    (deed : ∀ start : Session, start.Deed given (change start)) :
    (modify change : Act PUnit).RoamsOf given policy := fun start _ => walks_modify (deed start)

theorem RoamsOf.bind {first : Act α} {next : α → Act β} (hfirst : first.RoamsOf given policy)
    (hnext : ∀ reply, (next reply).RoamsOf given policy) :
    (first >>= next).RoamsOf given policy := by
  intro start atRest
  refine walks_bind (hfirst start atRest) ?_
  intro reply middle hrun
  exact hnext reply middle ((hfirst start atRest).atRest hrun atRest)

theorem RoamsOf.map {action : Act α} (roams : action.RoamsOf given policy) (f : α → β) :
    (f <$> action).RoamsOf given policy := fun start atRest => walks_map (roams start atRest) f

theorem RoamsOf.mapM {list : List α} {step : α → Act β}
    (roams : ∀ item, (step item).RoamsOf given policy) : (list.mapM step).RoamsOf given policy := by
  induction list with
  | nil => exact roams_pure []
  | cons item rest ih =>
    rw [List.mapM_cons]
    exact (roams item).bind fun _ => ih.bind fun _ => roams_pure _

theorem RoamsOf.forM {list : List α} {step : α → Act PUnit}
    (roams : ∀ item ∈ list, (step item).RoamsOf given policy) :
    (list.forM step).RoamsOf given policy := by
  induction list with
  | nil => exact roams_pure PUnit.unit
  | cons item rest ih =>
    exact (roams item List.mem_cons_self).bind fun _ =>
      ih fun other hother => roams other (List.mem_cons_of_mem _ hother)

/-! ### Selectors and objects -/

theorem roams_report {event : Event} (quiet : event.initializes = none) :
    (report event).RoamsOf given policy := roams_modify fun _ => .note quiet

theorem roams_reportConflict (conflict : Option TypeConflict) :
    (reportConflict conflict).RoamsOf given policy := by
  cases conflict with
  | none => exact roams_pure ()
  | some conflict => exact roams_report rfl

theorem roams_intern (name : String) (types : Option String) :
    (intern name types).RoamsOf given policy := by
  apply roams_get_bind
  intro session atRest
  cases hintern : session.system.selectors.intern name types with
  | error reason => exact .refl
  | ok interned =>
    obtain ⟨sel, selectors, conflict⟩ := interned
    have hset : (onSystem ({ · with selectors })).WalksOf given session :=
      walks_modify (.intern (SelectorTable.policy_of_intern hintern) fun sound =>
        sound.intern hintern)
    refine walks_bind hset ?_
    intro _ middle hrun
    have hrest : (reportConflict conflict >>= fun _ => pure sel : Act Sel).RoamsOf given policy :=
      (roams_reportConflict conflict).bind fun _ => roams_pure sel
    exact hrest middle (hset.atRest hrun atRest)

theorem roams_internAll (names : List String) : (internAll names).RoamsOf given policy := by
  apply roams_get_bind
  intro session _
  cases hintern : session.system.selectors.internAll names with
  | error reason => exact .refl
  | ok interned =>
    obtain ⟨sel, selectors⟩ := interned
    exact walks_bind (walks_modify (.intern (SelectorTable.policy_of_internAll hintern)
      fun sound => sound.internAll hintern))
      fun _ _ _ => .refl

theorem roams_reconcile (sel : Sel) (types : Option String) :
    (reconcile sel types).RoamsOf given policy := by
  apply roams_get_bind
  intro session atRest
  have hset : (onSystem ({ · with
      selectors := (session.system.selectors.reconcile sel types).1 })).WalksOf given session :=
    walks_modify (.intern (SelectorTable.policy_reconcile _ sel types) fun sound =>
      ⟨sound.reconcile sel types, SelectorTable.grows_reconcile _ sel types⟩)
  have hwalks : (onSystem ({ · with
      selectors := (session.system.selectors.reconcile sel types).1 }) >>= fun _ =>
      reportConflict (session.system.selectors.reconcile sel types).2).WalksOf given session :=
    walks_bind hset fun _ middle hrun =>
      roams_reportConflict _ middle (hset.atRest hrun atRest)
  exact hwalks

theorem roams_defineMethods (methods : Sided (List MethodSpec)) :
    (defineMethods methods).RoamsOf given policy := by
  have hone : ∀ method, (defineMethod method).RoamsOf given policy := fun method =>
    (roams_intern method.name (someTypes method.types)).bind fun _ => roams_pure _
  exact (RoamsOf.mapM hone).bind fun _ => (RoamsOf.mapM hone).bind fun _ => roams_pure _

theorem walks_bindWaiting {pairs : List PairId} (hpairs : ∀ pair ∈ pairs, start.heap.HasPair pair) :
    (pairs.forM bindWaiting).WalksOf given start := by
  induction pairs generalizing start with
  | nil => exact .refl
  | cons pair rest ih =>
    have fits : start.heap.Fits given (start.heap.bindAll pair
        (start.system.statics.under (start.heap.pair pair).name)).2 :=
      Heap.fits_bindAll (hpairs pair List.mem_cons_self) _
    have hbind : (bindWaiting pair).WalksOf given start := walks_modify (.store fits)
    refine walks_bind hbind ?_
    rintro _ middle hrun
    cases hrun
    refine ih fun other hother => ?_
    rw [fits.hasPair_eq]
    exact hpairs other (List.mem_cons_of_mem _ hother)

theorem roams_finishLinking (linked : List ClassId) :
    (finishLinking linked).RoamsOf given policy := by
  intro start atRest
  refine walks_bind (.refl : (pairsOf linked).WalksOf given start) ?_
  rintro _ _ hrun
  cases hrun
  exact walks_bind (walks_bindWaiting atRest.hasPair_of_pairsOf) fun _ _ _ => .refl

theorem roams_createInstance (cls : ClassRef) : (createInstance cls).RoamsOf given policy := by
  apply roams_get_bind
  intro session _
  dsimp only
  split
  · exact .refl
  · split
    · exact .refl
    · next hlinked =>
      have fits : session.heap.Fits given (session.heap.addObject
          ⟨some cls.pair, Array.replicate (session.heap.instanceSize cls) Value.nil⟩).2 := by
        refine Heap.fits_addObject ?_ ?_
        · intro value hvalue hrefers
          rw [Array.eq_of_mem_replicate hvalue] at hrefers
          exact hrefers.elim
        · intro own hown
          obtain rfl := Option.some_inj.mp hown
          rw [Bool.not_eq_true', Bool.not_eq_false] at hlinked
          obtain ⟨table, htable⟩ := Option.isSome_iff_exists.mp hlinked
          exact Heap.hasPair_of_table? htable
      exact walks_bind (walks_modify (.store fits)) fun _ _ _ => .refl

theorem roams_createLiteral {slots : List Value}
    (hslots : ∀ value ∈ slots, value.Refers → given value) :
    (createLiteral slots).RoamsOf given policy := by
  apply roams_get_bind
  intro session _
  have fits : session.heap.Fits given (session.heap.addObject ⟨none, slots.toArray⟩).2 :=
    Heap.fits_addObject (fun value hvalue => hslots value (List.mem_toArray.mp hvalue))
      fun _ h => nomatch h
  exact walks_bind (walks_modify (.store fits)) fun _ _ _ => .refl

theorem roams_setSlot (object : ObjectId) (index : Nat) {value : Value}
    (hvalue : value.Refers → given value) : (setSlot object index value).RoamsOf given policy := by
  apply roams_get_bind
  intro session _
  exact walks_bind (walks_modify (.store (Heap.fits_setSlot object index hvalue)))
    fun _ _ _ => .refl

theorem roams_registerStatics (className : String) (objects : List ObjectId) :
    (registerStatics className objects).RoamsOf given policy := by
  apply roams_get_bind
  intro session atRest
  cases hcls : session.classForName? className with
  | some cls =>
    have hpair := atRest.hasPair_of_classForName? hcls
    exact walks_bind (walks_modify (.store (Heap.fits_bindAll hpair _))) fun _ _ _ => .refl
  | none => exact walks_bind (walks_modify (.store .refl)) fun _ _ _ => .refl

theorem roams_setForward (handler : Option Imp) : (setForward handler).RoamsOf given policy :=
  roams_modify fun _ => .store .refl

/-! ### Classes -/

theorem walks_enterClass (spec : ClassSpec) (atRest : start.AtRest policy)
    (hfree : start.system.registry.idOf? spec.name = none) :
    (enterClass spec).WalksOf given start := by
  refine walks_bind (roams_defineMethods spec.methods start atRest) ?_
  intro methods defined hrun
  have hkeeps := keeps_defineMethods keeps_atRest_of_same spec.methods start ⟨atRest, rfl⟩
  obtain ⟨hdefined, hregistry⟩ := hkeeps.of_ok hrun
  have hname : defined.classes.registry.idOf? spec.name = none := by
    rw [← hfree, ← hregistry]
    rfl
  apply walks_onClasses
  exact (Linking.register_leads hdefined.consistent hname (.inl trivial)).mono
    fun _ _ h => .registers hname h.2

theorem roams_register (spec : ClassSpec) : (register spec).RoamsOf given policy := by
  apply roams_get_bind
  intro session atRest
  split
  · exact .refl
  · next hfree =>
    have hentered : (enterClass spec).WalksOf given session :=
      walks_enterClass spec atRest (Option.not_isSome_iff_eq_none.mp hfree)
    refine walks_bind hentered ?_
    intro answer entered hrun
    exact (roams_finishLinking answer.2).bind (fun _ => roams_pure _) entered
      (hentered.atRest hrun atRest)

theorem roams_applyCategory (spec : CategorySpec) : (applyCategory spec).RoamsOf given policy := by
  refine (roams_defineMethods spec.methods).bind ?_
  intro methods defined atRest
  apply walks_onClasses
  exact (Linking.applyCategory_leads atRest.consistent (.inl trivial)).mono
    fun _ _ applies => .applies applies

theorem roams_unregister (name : String) : (unregister name).RoamsOf given policy := by
  apply roams_get_bind
  intro session _
  cases session.system.registry.idOf? name with
  | none => exact .refl
  | some id =>
    refine walks_bind (walks_onClasses ?_) fun _ _ _ => .refl
    exact (Linking.unregister_leads id).of_false.mono fun _ _ removal => .removes removal

theorem roams_resolveMethod (cls : ClassRef) (sel : Sel) (imp : Imp) (types : Option String) :
    (resolveMethod cls sel imp types).RoamsOf given policy := by
  apply roams_get_bind
  intro session atRest
  cases session.system.registry.resolve session.heap cls with
  | error error => exact .refl
  | ok id =>
    dsimp only
    split
    · exact (roams_reconcile sel (someTypes types)).bind (fun _ => roams_pure _) session atRest
    · exact .refl

theorem roams_addMethod (cls : ClassRef) (sel : Sel) (imp : Imp) (types : Option String) :
    (addMethod cls sel imp types).RoamsOf given policy := by
  refine (roams_resolveMethod cls sel imp types).bind ?_
  rintro (error | ⟨id, definition⟩)
  · exact roams_pure _
  · intro session _
    refine walks_bind (walks_onClasses ?_) fun _ _ _ => .refl
    exact (Linking.addMethod_leads (.inl trivial)).mono fun _ _ adds => .adds adds

theorem roams_replaceMethod (cls : ClassRef) (sel : Sel) (imp : Imp) (types : Option String) :
    (replaceMethod cls sel imp types).RoamsOf given policy := by
  refine (roams_resolveMethod cls sel imp types).bind ?_
  rintro (error | ⟨id, definition⟩)
  · exact roams_pure _
  · intro session _
    refine walks_bind (walks_onClasses ?_) fun _ _ _ => .refl
    exact (Linking.replaceMethod_leads (.inl trivial)).mono fun _ _ replaces => .replaces replaces

theorem roams_shutdown : shutdown.RoamsOf given policy := by
  apply roams_get_bind
  intro session atRest
  have hreported : (session.system.shutdownReport.events.forM report).RoamsOf given policy :=
    RoamsOf.forM fun event hevent =>
      roams_report (session.system.shutdownReport.quiet_events event hevent)
  refine walks_bind (hreported session atRest) ?_
  intro _ reported _
  exact .single .shutdown

theorem roams_perform {operation : Operation} (hgiven : ∀ value ∈ operation.stored, given value) :
    operation.perform.RoamsOf given policy := by
  cases operation with
  | intern name types => exact roams_intern name types
  | internAll names => exact roams_internAll names
  | applyCategory spec => exact roams_applyCategory spec
  | unregister name => exact roams_unregister name
  | addMethod cls sel imp types => exact roams_addMethod cls sel imp types
  | replaceMethod cls sel imp types => exact roams_replaceMethod cls sel imp types
  | createInstance cls => exact roams_createInstance cls
  | createLiteral slots => exact roams_createLiteral fun value hvalue _ => hgiven value hvalue
  | setSlot object index value =>
    exact roams_setSlot object index fun _ => hgiven value (List.mem_singleton_self value)
  | registerStatics className objects => exact roams_registerStatics className objects
  | setForward handler => exact roams_setForward handler
  | shutdown => exact roams_shutdown

/-! ### Loading a unit -/

theorem walks_enterClasses {specs : List ClassSpec} (atRest : start.AtRest policy)
    (hnodup : (specs.map (·.name)).Nodup)
    (hfree : ∀ spec ∈ specs, start.system.registry.idOf? spec.name = none) :
    (enterClasses specs).WalksOf given start := by
  induction specs generalizing start with
  | nil => exact .refl
  | cons spec rest ih =>
    rw [List.map_cons, List.nodup_cons] at hnodup
    have hhere := hfree spec List.mem_cons_self
    rw [enterClasses_cons]
    refine walks_bind (walks_enterClass spec atRest hhere) ?_
    intro answer entered hrun
    obtain ⟨hentered, hnames⟩ := (enterClass_leads spec atRest hhere).of_ok hrun
    exact walks_map (ih hentered hnodup.2 (free_of_enterClass hnodup.1 hfree hnames)) _

theorem roams_createStatics (group : StaticGroup) : (createStatics group).RoamsOf given policy :=
  (RoamsOf.mapM fun slots => roams_createLiteral (Value.given_of_constants slots)).bind
    fun objects =>
    (roams_registerStatics group.className objects).bind fun _ => roams_pure objects

theorem roams_finishUnit (unit : LoadUnit) (classes : List ClassSpec)
    (categories : List CategorySpec) (linked : List ClassId) :
    (finishUnit unit classes categories linked).RoamsOf given policy := by
  refine (RoamsOf.mapM roams_applyCategory).bind fun statuses => ?_
  refine (roams_finishLinking linked).bind fun pairs => ?_
  refine (RoamsOf.mapM roams_createStatics).bind fun statics => ?_
  refine roams_get_bind fun session atRest => ?_
  exact (roams_report rfl).bind (fun _ => roams_pure _) session atRest

theorem roams_load (unit : LoadUnit) (imps : String → Option Imp) :
    (load unit imps).RoamsOf given policy := by
  apply roams_get_bind
  intro session atRest
  cases hresolve : unit.resolve imps session.system.registry with
  | error error => exact .refl
  | ok declared =>
    obtain ⟨classes, categories⟩ := declared
    obtain ⟨hnodup, hfree⟩ := LoadUnit.resolve_names hresolve
    have hselectors :
        (unit.selectors.forM fun ref => discard (intern ref.name ref.types)).RoamsOf given
        policy := RoamsOf.forM fun ref _ => (roams_intern ref.name ref.types).map _
    dsimp only
    rw [execute_eq, bind_assoc]
    refine walks_bind (hselectors session atRest) ?_
    intro _ interned hrun
    obtain ⟨hinterned, hregistry⟩ := (keeps_selectors unit session ⟨atRest, rfl⟩).of_ok hrun
    have hwalks : (enterClasses classes).WalksOf given interned :=
      walks_enterClasses hinterned hnodup (by rwa [hregistry])
    rw [bind_assoc]
    refine walks_bind hwalks ?_
    intro linked entered hentered
    exact (roams_finishUnit unit classes categories linked).bind (fun _ => roams_pure _) entered
      (hwalks.atRest hentered hinterned)

end Act

end LateBinding
