import LateBinding.Proofs.Order.Declarations
import LateBinding.Proofs.Registry.Mentions
import LateBinding.Proofs.System.Sound

/-!
# Only a lack of selectors ends everything

In an indexed session all selectors that the registry mentions are interned, so a table can hold them
all. Whatever is done in one go leaves a session indexed. It interns the names that it declares, and
it ends everything only if there is no uid left for one of them.
-/

namespace LateBinding

/-- What holds of a session between the things that are done in one go. -/
structure Session.Indexed (policy : CategoryConflictPolicy) (session : Session) : Prop where
  atRest : session.AtRest policy
  sound : session.system.selectors.Sound
  interned : ∀ sel, session.system.registry.Mentions sel →
    session.system.selectors.contains sel = true

namespace Session

variable {policy : CategoryConflictPolicy} {start final : Session}

theorem indexed_start (options : Options) :
    (Session.start options).Indexed options.categoryConflicts where
  atRest := atRest_start options
  sound := SelectorTable.sound_withCapacity _ _
  interned sel mentions := absurd mentions (Registry.not_mentions_empty _ sel)

theorem Indexed.addressable (indexed : start.Indexed policy) :
    start.system.registry.Addressable :=
  Registry.addressable_of_mentions fun sel hsel =>
    (indexed.sound.uid_of_contains (indexed.interned sel hsel)).2

/-- What concerns neither tables nor selectors makes no difference. -/
theorem Indexed.transfer (indexed : start.Indexed policy) (same : start.SameClasses final)
    (hselectors : final.system.selectors = start.system.selectors) : final.Indexed policy where
  atRest := indexed.atRest.transfer same
  sound := by
    rw [hselectors]
    exact indexed.sound
  interned sel mentions := by
    rw [hselectors]
    rw [same.registry] at mentions
    exact indexed.interned sel mentions

theorem Indexed.setSelectors (indexed : start.Indexed policy) {names : List String}
    {selectors : SelectorTable} (extended : start.system.selectors.Extends names selectors) :
    ({ start with system := { start.system with selectors } } : Session).Indexed policy where
  atRest := indexed.atRest.transfer ⟨.refl, rfl⟩
  sound := extended.sound
  interned sel mentions := extended.grows.contains (indexed.interned sel mentions)

end Session

namespace Act

variable {α β : Type} {policy : CategoryConflictPolicy} {names wider : List String}
  {start : Session} {post : α → Session → Prop}

/-- The action leads to an indexed session, and has interned no other names than these. It ends
everything only if there is no room for one of them. -/
def InternsFrom (action : Act α) (policy : CategoryConflictPolicy) (names : List String)
    (start : Session) (post : α → Session → Prop) : Prop :=
  match action start with
  | .ok reply final => final.Indexed policy ∧
      start.system.selectors.Extends names final.system.selectors ∧ post reply final
  | .error reason _ => start.system.selectors.Exhausts names reason

/-- The action does so from every indexed session. -/
def Interns (policy : CategoryConflictPolicy) (names : List String) (action : Act α) : Prop :=
  ∀ start, start.Indexed policy → action.InternsFrom policy names start fun _ _ => True

theorem InternsFrom.of_ok {action : Act α} {reply : α} {final : Session}
    (interns : action.InternsFrom policy names start post)
    (hrun : action start = .ok reply final) : final.Indexed policy ∧
      start.system.selectors.Extends names final.system.selectors ∧ post reply final := by
  rw [InternsFrom, hrun] at interns
  exact interns

theorem InternsFrom.of_error {action : Act α} {reason : Abort} {final : Session}
    (interns : action.InternsFrom policy names start post)
    (hrun : action start = .error reason final) :
    start.system.selectors.Exhausts names reason := by
  rw [InternsFrom, hrun] at interns
  exact interns

theorem InternsFrom.weaken {action : Act α} {weaker : α → Session → Prop}
    (interns : action.InternsFrom policy names start post) (hwider : names ⊆ wider)
    (hpost : ∀ reply final, post reply final → weaker reply final) :
    action.InternsFrom policy wider start weaker := by
  unfold InternsFrom at interns ⊢
  split
  · next reply final heq =>
    rw [heq] at interns
    exact ⟨interns.1, interns.2.1.mono hwider, hpost reply final interns.2.2⟩
  · next reason final heq =>
    rw [heq] at interns
    exact interns.mono hwider

/-- The names that were interned before keep their selectors. -/
theorem InternsFrom.grown {action : Act α} (interns : action.InternsFrom policy names start post) :
    action.InternsFrom policy names start fun reply final =>
      start.system.selectors.Grows final.system.selectors ∧ post reply final := by
  unfold InternsFrom at interns ⊢
  split
  · next reply final heq =>
    rw [heq] at interns
    exact ⟨interns.1, interns.2.1, interns.2.1.grows, interns.2.2⟩
  · next reason final heq =>
    rw [heq] at interns
    exact interns

theorem Interns.mono {action : Act α} (interns : action.Interns policy names)
    (hwider : names ⊆ wider) : action.Interns policy wider :=
  fun start indexed => (interns start indexed).weaken hwider fun _ _ h => h

theorem internsFrom_pure (indexed : start.Indexed policy) {reply : α} (h : post reply start) :
    (pure reply : Act α).InternsFrom policy names start post :=
  ⟨indexed, indexed.sound.extends_self names, h⟩

theorem internsFrom_bind {first : Act α} {next : α → Act β} {reached : α → Session → Prop}
    {post : β → Session → Prop} (hfirst : first.InternsFrom policy names start reached)
    (hnext : ∀ reply middle, first start = .ok reply middle → middle.Indexed policy →
      reached reply middle → (next reply).InternsFrom policy names middle post) :
    (first >>= next).InternsFrom policy names start post := by
  change match EStateM.bind first next start with
    | .ok reply final => _
    | .error reason _ => _
  unfold EStateM.bind
  cases hrun : first start with
  | ok reply middle =>
    obtain ⟨hmiddle, extended, hreached⟩ := hfirst.of_ok hrun
    have hrest := hnext reply middle hrun hmiddle hreached
    unfold InternsFrom at hrest
    dsimp only
    split
    · next other final heq =>
      rw [heq] at hrest
      exact ⟨hrest.1, extended.trans hrest.2.1, hrest.2.2⟩
    · next reason final heq =>
      rw [heq] at hrest
      exact extended.exhausts hrest
  | error reason final => exact hfirst.of_error hrun

/-- The classes change, and what they mention is interned already. -/
theorem internsFrom_onClasses {change : Linking α} (indexed : start.Indexed policy)
    (leads : change.Leads False start.classes fun _ final => final.AtRest policy ∧
      ∀ sel, final.registry.Mentions sel → start.system.registry.Mentions sel ∨
        start.system.selectors.contains sel = true) :
    (onClasses change).InternsFrom policy names start fun _ _ => True := by
  unfold InternsFrom onClasses
  unfold Linking.Leads Session.classes at leads
  dsimp only [StateT.run]
  cases hrun : change ⟨start.heap, start.system.registry, start.log⟩ with
  | ok answered =>
    rw [hrun] at leads
    refine ⟨⟨leads.1, indexed.sound, ?_⟩, indexed.sound.extends_self names, trivial⟩
    exact fun sel mentions => (leads.2 sel mentions).elim (indexed.interned sel) id
  | error reason =>
    rw [hrun] at leads
    exact leads.elim

theorem interns_pure (reply : α) : (pure reply : Act α).Interns policy names :=
  fun _ indexed => internsFrom_pure indexed trivial

theorem Interns.bind {first : Act α} {next : α → Act β} (hfirst : first.Interns policy names)
    (hnext : ∀ reply, (next reply).Interns policy names) :
    (first >>= next).Interns policy names :=
  fun start indexed => internsFrom_bind (hfirst start indexed)
    fun reply middle _ hmiddle _ => hnext reply middle hmiddle

theorem Interns.map {action : Act α} (interns : action.Interns policy names) (f : α → β) :
    (f <$> action).Interns policy names := by
  rw [map_eq_pure_bind]
  exact interns.bind fun _ => interns_pure _

theorem Interns.mapM {list : List α} {step : α → Act β}
    (interns : ∀ item ∈ list, (step item).Interns policy names) :
    (list.mapM step).Interns policy names := by
  induction list with
  | nil => exact interns_pure []
  | cons item rest ih =>
    rw [List.mapM_cons]
    exact (interns item List.mem_cons_self).bind fun _ =>
      (ih fun other hother => interns other (List.mem_cons_of_mem _ hother)).bind fun _ =>
        interns_pure _

theorem Interns.forM {list : List α} {step : α → Act PUnit}
    (interns : ∀ item ∈ list, (step item).Interns policy names) :
    (list.forM step).Interns policy names := by
  induction list with
  | nil => exact interns_pure PUnit.unit
  | cons item rest ih =>
    exact (interns item List.mem_cons_self).bind fun _ =>
      ih fun other hother => interns other (List.mem_cons_of_mem _ hother)

theorem internsFrom_get_bind {next : Session → Act α} {post : α → Session → Prop}
    (h : (next start).InternsFrom policy names start post) :
    ((get : Act Session) >>= next).InternsFrom policy names start post := h

theorem interns_get_bind {next : Session → Act α}
    (h : ∀ session, session.Indexed policy →
      (next session).InternsFrom policy names session fun _ _ => True) :
    ((get : Act Session) >>= next).Interns policy names := h

/-- A change beside tables and selectors interns nothing. -/
theorem internsFrom_beside {change : Session → Session} (indexed : start.Indexed policy)
    (same : start.SameClasses (change start))
    (hselectors : (change start).system.selectors = start.system.selectors) :
    (modify change : Act PUnit).InternsFrom policy names start fun _ _ => True := by
  refine ⟨indexed.transfer same hselectors, ?_, trivial⟩
  rw [hselectors]
  exact indexed.sound.extends_self names

/-! ### Selectors -/

theorem interns_report (event : Event) : (report event).Interns policy names :=
  fun _ indexed => internsFrom_beside indexed ⟨.refl, rfl⟩ rfl

theorem internsFrom_storeSelectors {selectors : SelectorTable} (indexed : start.Indexed policy)
    (extended : start.system.selectors.Extends names selectors) :
    (onSystem ({ · with selectors })).InternsFrom policy names start
      fun _ final => final.system.selectors = selectors :=
  ⟨indexed.setSelectors extended, extended, rfl⟩

/-- The selectors were extended, and it is reported if a type encoding was ignored. -/
theorem internsFrom_setSelectors {selectors : SelectorTable} (indexed : start.Indexed policy)
    (extended : start.system.selectors.Extends names selectors) (conflict : Option TypeConflict) :
    (onSystem ({ · with selectors }) >>= fun _ => reportConflict conflict).InternsFrom policy names
      start fun _ final => final.system.selectors = selectors := by
  refine internsFrom_bind (internsFrom_storeSelectors indexed extended) ?_
  rintro _ middle - hmiddle rfl
  cases conflict with
  | none => exact internsFrom_pure hmiddle rfl
  | some conflict =>
    exact ⟨hmiddle.transfer ⟨.refl, rfl⟩ rfl, hmiddle.sound.extends_self names, rfl⟩

theorem intern_internsFrom (name : String) (types : Option String) (indexed : start.Indexed policy) :
    (intern name types).InternsFrom policy [name] start
      fun sel final => final.system.selectors.contains sel = true := by
  apply internsFrom_get_bind
  rcases indexed.sound.intern_cases name types with
    ⟨sel, selectors, conflict, hintern, extended, hname⟩ | ⟨reason, hintern, exhausts⟩
  · rw [hintern]
    dsimp only
    rw [← bind_assoc]
    refine internsFrom_bind (internsFrom_setSelectors indexed extended conflict) ?_
    rintro _ middle - hmiddle hselectors
    refine internsFrom_pure hmiddle ?_
    rw [hselectors]
    exact (selectors.contains_iff sel).mpr ⟨name, hname⟩
  · rw [hintern]
    exact exhausts

theorem interns_intern (name : String) (types : Option String) :
    (intern name types).Interns policy [name] :=
  fun _ indexed => (intern_internsFrom name types indexed).weaken (List.Subset.refl _)
    fun _ _ _ => trivial

theorem interns_internAll (all : List String) : (internAll all).Interns policy all := by
  apply interns_get_bind
  intro session indexed
  rcases indexed.sound.internAll_cases all with
    ⟨sel, selectors, hintern, extended, -⟩ | ⟨reason, hintern, exhausts⟩
  · rw [hintern]
    refine internsFrom_bind (internsFrom_storeSelectors indexed extended) ?_
    exact fun _ middle _ hmiddle _ => internsFrom_pure hmiddle trivial
  · rw [hintern]
    exact exhausts

theorem interns_reconcile (sel : Sel) (types : Option String) :
    (reconcile sel types).Interns policy names := by
  apply interns_get_bind
  intro session indexed
  have extended : session.system.selectors.Extends names
      (session.system.selectors.reconcile sel types).1 := by
    refine ⟨indexed.sound.reconcile sel types, SelectorTable.grows_reconcile _ sel types, ?_⟩
    intro other name hname
    rw [SelectorTable.name?_reconcile] at hname
    exact .inl hname
  exact (internsFrom_setSelectors indexed extended _).weaken (List.Subset.refl _)
    fun _ _ _ => trivial

/-- The selectors of all methods are interned in the end. -/
theorem mapM_defineMethod_internsFrom (methods : List MethodSpec) (indexed : start.Indexed policy) :
    (methods.mapM defineMethod).InternsFrom policy (methods.map (·.name)) start
      fun definitions final => ∀ sel, Mentions definitions sel →
        final.system.selectors.contains sel = true := by
  induction methods generalizing start with
  | nil => exact internsFrom_pure indexed fun sel ⟨_, hmethod, _⟩ => nomatch hmethod
  | cons method rest ih =>
    rw [List.mapM_cons]
    have hhead : [method.name] ⊆ (method :: rest).map (·.name) :=
      List.cons_subset_cons _ (List.nil_subset _)
    have htail : rest.map (·.name) ⊆ (method :: rest).map (·.name) :=
      List.subset_cons_self _ _
    have hfirst : (defineMethod method).InternsFrom policy ((method :: rest).map (·.name)) start
        fun definition final => final.system.selectors.contains definition.sel = true := by
      refine internsFrom_bind ((intern_internsFrom method.name _ indexed).weaken hhead
        fun _ _ h => h) ?_
      exact fun sel middle _ hmiddle hsel => internsFrom_pure hmiddle hsel
    refine internsFrom_bind hfirst ?_
    intro definition middle _ hmiddle hdefinition
    refine internsFrom_bind ((ih hmiddle).weaken htail fun _ _ h => h).grown ?_
    rintro others last - hlast ⟨hgrows, hothers⟩
    refine internsFrom_pure hlast ?_
    rintro _ ⟨other, hother, rfl⟩
    rcases List.mem_cons.mp hother with rfl | hmem
    · exact hgrows.contains hdefinition
    · exact hothers other.sel ⟨other, hmem, rfl⟩

theorem defineMethods_internsFrom (methods : Sided (List MethodSpec))
    (indexed : start.Indexed policy) :
    (defineMethods methods).InternsFrom policy (Declaration.sidesNames methods) start
      fun definitions final => ∀ kind sel, Mentions (definitions.get kind) sel →
        final.system.selectors.contains sel = true := by
  have hplain := (mapM_defineMethod_internsFrom methods.plain indexed).weaken
    (List.subset_append_left _ (methods.metaclass.map (·.name))) fun _ _ h => h
  refine internsFrom_bind hplain ?_
  intro plain middle _ hmiddle hinstances
  have hmetaclass := (mapM_defineMethod_internsFrom methods.metaclass hmiddle).weaken
    (List.subset_append_right (methods.plain.map (·.name)) _) fun _ _ h => h
  refine internsFrom_bind hmetaclass.grown ?_
  rintro metaclass final - hfinal ⟨hgrows, hclassObjects⟩
  refine internsFrom_pure hfinal ?_
  intro kind sel hsel
  cases kind with
  | plain => exact hgrows.contains (hinstances sel hsel)
  | metaclass => exact hclassObjects sel hsel

/-! ### Objects -/

theorem interns_finishLinking (linked : List ClassId) :
    (finishLinking linked).Interns policy names := by
  have hpairs : (pairsOf linked).Interns policy names :=
    interns_get_bind fun _ indexed => internsFrom_pure indexed trivial
  have hbind : ∀ pair, (bindWaiting pair).Interns policy names := fun _ _ indexed =>
    internsFrom_beside indexed ⟨.of_pairs (Heap.stores_bindAll _ _ _).pairs, rfl⟩ rfl
  exact hpairs.bind fun pairs =>
    (Interns.forM fun pair _ => hbind pair).bind fun _ => interns_pure pairs

theorem interns_createInstance (cls : ClassRef) : (createInstance cls).Interns policy names := by
  apply interns_get_bind
  intro session indexed
  dsimp only
  split
  · exact internsFrom_pure indexed trivial
  · split
    · exact internsFrom_pure indexed trivial
    · exact internsFrom_bind (internsFrom_beside indexed ⟨.of_pairs rfl, rfl⟩ rfl)
        fun _ _ _ hfinal _ => internsFrom_pure hfinal trivial

theorem interns_createLiteral (slots : List Value) :
    (createLiteral slots).Interns policy names :=
  interns_get_bind fun _ indexed =>
    internsFrom_bind (internsFrom_beside indexed ⟨.of_pairs rfl, rfl⟩ rfl)
      fun _ _ _ hfinal _ => internsFrom_pure hfinal trivial

theorem interns_setSlot (object : ObjectId) (index : Nat) (value : Value) :
    (setSlot object index value).Interns policy names :=
  interns_get_bind fun _ indexed =>
    internsFrom_bind
      (internsFrom_beside indexed ⟨.of_pairs (Heap.stores_setSlot _ _ _ _).pairs, rfl⟩ rfl)
      fun _ _ _ hfinal _ => internsFrom_pure hfinal trivial

theorem interns_registerStatics (className : String) (objects : List ObjectId) :
    (registerStatics className objects).Interns policy names := by
  apply interns_get_bind
  intro session indexed
  cases session.classForName? className with
  | some cls =>
    exact internsFrom_bind
      (internsFrom_beside indexed ⟨.of_pairs (Heap.stores_bindAll _ _ _).pairs, rfl⟩ rfl)
      fun _ _ _ hfinal _ => internsFrom_pure hfinal trivial
  | none =>
    exact internsFrom_bind (internsFrom_beside indexed ⟨.refl, rfl⟩ rfl)
      fun _ _ _ hfinal _ => internsFrom_pure hfinal trivial

theorem interns_setForward (handler : Option Imp) : (setForward handler).Interns policy names :=
  fun _ indexed => internsFrom_beside indexed ⟨.refl, rfl⟩ rfl

/-! ### Classes -/

/-- A class that is entered mentions the selectors of its methods, which were interned first. -/
theorem enterClass_internsFrom (spec : ClassSpec) (indexed : start.Indexed policy)
    (hfree : start.system.registry.idOf? spec.name = none) :
    (enterClass spec).InternsFrom policy (Declaration.sidesNames spec.methods) start
      fun _ _ => True := by
  refine internsFrom_bind (defineMethods_internsFrom spec.methods indexed) ?_
  intro methods defined hrun hdefined hmethods
  have hkeeps := keeps_defineMethods keeps_atRest_of_same spec.methods start ⟨indexed.atRest, rfl⟩
  obtain ⟨-, hregistry⟩ := hkeeps.of_ok hrun
  let definition : ClassDefinition :=
    { name := spec.name, superclass := spec.superclass, size := spec.size, methods
      protocols := spec.protocols }
  have hname : defined.classes.registry.idOf? definition.name = none := by
    rw [← hfree, ← hregistry]
    rfl
  have haddressable : definition.Addressable := fun kind =>
    addressable_iff_mentions.mpr fun sel hsel =>
      (hdefined.sound.uid_of_contains (hmethods kind sel hsel)).2
  apply internsFrom_onClasses hdefined
  refine (Linking.register_leads hdefined.atRest.consistent hname
    (.inr ⟨hdefined.addressable, haddressable⟩)).mono ?_
  rintro answer final ⟨-, registers⟩
  refine ⟨registers.atRest hname hdefined.atRest, ?_⟩
  intro sel mentions
  exact (registers.mentions mentions).imp_right fun ⟨kind, hsel⟩ => hmethods kind sel hsel

theorem interns_register (spec : ClassSpec) :
    (register spec).Interns policy (Declaration.sidesNames spec.methods) := by
  apply interns_get_bind
  intro session indexed
  split
  · exact internsFrom_pure indexed trivial
  · next hfree =>
    refine internsFrom_bind (enterClass_internsFrom spec indexed
      (Option.not_isSome_iff_eq_none.mp hfree)) ?_
    rintro answer entered - hentered -
    exact (interns_finishLinking answer.2).bind (fun _ => interns_pure _) entered hentered

theorem interns_applyCategory (spec : CategorySpec) :
    (applyCategory spec).Interns policy (Declaration.sidesNames spec.methods) := by
  intro start indexed
  refine internsFrom_bind (defineMethods_internsFrom spec.methods indexed) ?_
  intro methods defined _ hdefined hmethods
  let category : CategoryDefinition :=
    { name := spec.name, className := spec.className, methods, protocols := spec.protocols }
  have hsafe : False ∨ defined.classes.registry.Addressable ∧ category.Addressable :=
    .inr ⟨hdefined.addressable, fun kind => addressable_iff_mentions.mpr fun sel hsel =>
      (hdefined.sound.uid_of_contains (hmethods kind sel hsel)).2⟩
  apply internsFrom_onClasses hdefined
  refine (Linking.applyCategory_leads hdefined.atRest.consistent hsafe).mono ?_
  intro status final applies
  refine ⟨applies.atRest hdefined.atRest, ?_⟩
  intro sel mentions
  exact (applies.mentions mentions).imp_right fun ⟨kind, hsel⟩ => hmethods kind sel hsel

theorem interns_unregister (name : String) : (unregister name).Interns policy names := by
  apply interns_get_bind
  intro session indexed
  cases session.system.registry.idOf? name with
  | none => exact internsFrom_pure indexed trivial
  | some id =>
    refine internsFrom_bind (internsFrom_onClasses indexed ?_)
      fun _ _ _ hfinal _ => internsFrom_pure hfinal trivial
    refine (Linking.unregister_leads id).mono ?_
    intro pairs final removal
    refine ⟨removal.atRest indexed.atRest, ?_⟩
    exact fun sel mentions =>
      .inl (removal.mentions (indexed.atRest.consistent.loosen _) mentions)

/-- A selector that is not interned is refused. -/
theorem resolveMethod_internsFrom (cls : ClassRef) (sel : Sel) (imp : Imp) (types : Option String)
    (indexed : start.Indexed policy) :
    (resolveMethod cls sel imp types).InternsFrom policy names start fun reply final =>
      ∀ id definition, reply = .ok (id, definition) →
        final.system.selectors.contains definition.sel = true := by
  apply internsFrom_get_bind
  cases start.system.registry.resolve start.heap cls with
  | error error => exact internsFrom_pure indexed (by rintro _ _ ⟨⟩)
  | ok id =>
    dsimp only
    split
    · next hcontains =>
      refine internsFrom_bind (interns_reconcile sel (someTypes types) start indexed).grown ?_
      rintro _ middle - hmiddle ⟨hgrows, -⟩
      refine internsFrom_pure hmiddle ?_
      rintro _ _ ⟨⟩
      exact hgrows.contains hcontains
    · exact internsFrom_pure indexed (by rintro _ _ ⟨⟩)

theorem interns_addMethod (cls : ClassRef) (sel : Sel) (imp : Imp) (types : Option String) :
    (addMethod cls sel imp types).Interns policy names := by
  intro start indexed
  refine internsFrom_bind (resolveMethod_internsFrom cls sel imp types indexed) ?_
  rintro (error | ⟨id, definition⟩) middle - hmiddle hdefinition
  · exact internsFrom_pure hmiddle trivial
  · have hcontains := hdefinition id definition rfl
    refine internsFrom_bind (internsFrom_onClasses hmiddle ?_)
      fun _ _ _ hfinal _ => internsFrom_pure hfinal trivial
    refine (Linking.addMethod_leads
      (.inr ⟨hmiddle.addressable, (hmiddle.sound.uid_of_contains hcontains).2⟩)).mono ?_
    intro added final adds
    refine ⟨adds.atRest hmiddle.atRest, ?_⟩
    intro sel mentions
    rcases adds.mentions mentions with hold | rfl
    · exact .inl hold
    · exact .inr hcontains

theorem interns_replaceMethod (cls : ClassRef) (sel : Sel) (imp : Imp) (types : Option String) :
    (replaceMethod cls sel imp types).Interns policy names := by
  intro start indexed
  refine internsFrom_bind (resolveMethod_internsFrom cls sel imp types indexed) ?_
  rintro (error | ⟨id, definition⟩) middle - hmiddle hdefinition
  · exact internsFrom_pure hmiddle trivial
  · have hcontains := hdefinition id definition rfl
    refine internsFrom_bind (internsFrom_onClasses hmiddle ?_)
      fun _ _ _ hfinal _ => internsFrom_pure hfinal trivial
    refine (Linking.replaceMethod_leads
      (.inr ⟨hmiddle.addressable, (hmiddle.sound.uid_of_contains hcontains).2⟩)).mono ?_
    intro replaced final replaces
    refine ⟨replaces.atRest hmiddle.atRest, ?_⟩
    intro sel mentions
    rcases replaces.mentions mentions with hold | rfl
    · exact .inl hold
    · exact .inr hcontains

end Act

end LateBinding
