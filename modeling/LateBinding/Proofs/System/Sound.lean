import LateBinding.Proofs.Heap.Objects
import LateBinding.Proofs.System.Outcome
import LateBinding.Proofs.Tables.Kept

/-!
# What is done in one go leaves a system at rest

Selectors and objects are no concern of the tables, and each change of the classes leaves nothing
owed. So whatever is done in one go in a session leaves its classes consistent and their tables up
to date.
-/

namespace LateBinding

namespace Session

variable {start final : Session} {policy : CategoryConflictPolicy}

/-- What concerns the tables is the same. -/
structure SameClasses (start final : Session) : Prop where
  tables : start.heap.SameTables final.heap
  registry : final.system.registry = start.system.registry

/-- What holds of a session between the things that are done in one go. -/
def AtRest (policy : CategoryConflictPolicy) (session : Session) : Prop :=
  session.classes.AtRest policy

theorem AtRest.transfer (atRest : start.AtRest policy) (same : start.SameClasses final) :
    final.AtRest policy where
  policy_eq := by
    change final.system.registry.policy = policy
    rw [same.registry]
    exact atRest.policy_eq
  consistent := by
    change final.system.registry.Consistent []
    rw [same.registry]
    exact atRest.consistent
  upToDate := by
    apply atRest.upToDate.transfer same.tables
    · exact congrArg Registry.record? same.registry
    · exact congrArg Registry.policy same.registry

theorem atRest_start (options : Options) :
    (Session.start options).AtRest options.categoryConflicts :=
  .empty options.categoryConflicts .empty #[]

end Session

namespace Act

/-! ### Selectors and objects -/

section

variable {holds : Session → Prop}
  (hclosed : ∀ start final : Session, start.SameClasses final → holds start → holds final)

include hclosed

theorem keeps_report (event : Event) : (report event).Keeps holds :=
  keeps_modify fun session => hclosed session _ ⟨.refl, rfl⟩

theorem keeps_setSelectors (selectors : SelectorTable) :
    (onSystem ({ · with selectors })).Keeps holds :=
  keeps_modify fun session => hclosed session _ ⟨.refl, rfl⟩

theorem keeps_setForward (handler : Option Imp) : (setForward handler).Keeps holds :=
  keeps_modify fun session => hclosed session _ ⟨.refl, rfl⟩

theorem keeps_reportConflict (conflict : Option TypeConflict) :
    (reportConflict conflict).Keeps holds := by
  cases conflict with
  | none => exact keeps_pure ()
  | some conflict => exact keeps_report hclosed (.typesIgnored conflict)

theorem keeps_intern (name : String) (types : Option String) : (intern name types).Keeps holds := by
  apply keeps_get_bind
  intro session hholds
  cases session.system.selectors.intern name types with
  | error reason => trivial
  | ok answer =>
    obtain ⟨sel, selectors, conflict⟩ := answer
    have keeps : (do onSystem ({ · with selectors }); reportConflict conflict; return sel :
        Act Sel).Keeps holds :=
      (keeps_setSelectors hclosed _).bind fun _ =>
        (keeps_reportConflict hclosed conflict).bind fun _ => keeps_pure sel
    exact keeps session hholds

theorem keeps_internAll (names : List String) : (internAll names).Keeps holds := by
  apply keeps_get_bind
  intro session hholds
  cases session.system.selectors.internAll names with
  | error reason => trivial
  | ok answer =>
    obtain ⟨sel, selectors⟩ := answer
    have keeps : (do onSystem ({ · with selectors }); return sel : Act Sel).Keeps holds :=
      (keeps_setSelectors hclosed _).bind fun _ => keeps_pure sel
    exact keeps session hholds

theorem keeps_reconcile (sel : Sel) (types : Option String) : (reconcile sel types).Keeps holds := by
  apply keeps_get_bind
  intro session hholds
  have keeps : (do
      onSystem ({ · with selectors := (session.system.selectors.reconcile sel types).1 })
      reportConflict (session.system.selectors.reconcile sel types).2 : Act Unit).Keeps holds :=
    (keeps_setSelectors hclosed _).bind fun _ => keeps_reportConflict hclosed _
  exact keeps session hholds

theorem keeps_defineMethods (methods : Sided (List MethodSpec)) :
    (defineMethods methods).Keeps holds := by
  have hone : ∀ method, (defineMethod method).Keeps holds := fun method =>
    (keeps_intern hclosed method.name (someTypes method.types)).bind fun _ => keeps_pure _
  exact (Keeps.mapM hone).bind fun _ => (Keeps.mapM hone).bind fun _ => keeps_pure _

theorem keeps_resolveMethod (cls : ClassRef) (sel : Sel) (imp : Imp) (types : Option String) :
    (resolveMethod cls sel imp types).Keeps holds := by
  apply keeps_get_bind
  intro session hholds
  cases session.system.registry.resolve session.heap cls with
  | error error => exact hholds
  | ok id =>
    dsimp only
    split
    · rw [leads_bind]
      exact keeps_reconcile hclosed sel (someTypes types) session hholds
    · exact hholds

theorem keeps_bindWaiting (pair : PairId) : (bindWaiting pair).Keeps holds :=
  keeps_modify fun session => hclosed session _ ⟨.of_pairs (Heap.stores_bindAll _ _ _).pairs, rfl⟩

theorem keeps_finishLinking (linked : List ClassId) : (finishLinking linked).Keeps holds := by
  have hpairs : (pairsOf linked).Keeps holds := keeps_get_bind fun _ hholds => hholds
  exact hpairs.bind fun pairs =>
    (Keeps.forM (keeps_bindWaiting hclosed)).bind fun _ => keeps_pure pairs

theorem keeps_createInstance (cls : ClassRef) : (createInstance cls).Keeps holds := by
  apply keeps_get_bind
  intro session hholds
  dsimp only
  split
  · exact hholds
  · split
    · exact hholds
    · exact hclosed session _ ⟨.of_pairs rfl, rfl⟩ hholds

theorem keeps_createLiteral (slots : List Value) : (createLiteral slots).Keeps holds := by
  apply keeps_get_bind
  intro session hholds
  exact hclosed session _ ⟨.of_pairs rfl, rfl⟩ hholds

theorem keeps_setSlot (object : ObjectId) (index : Nat) (value : Value) :
    (setSlot object index value).Keeps holds := by
  apply keeps_get_bind
  intro session hholds
  exact hclosed session _ ⟨.of_pairs (Heap.stores_setSlot _ _ _ _).pairs, rfl⟩ hholds

theorem keeps_registerStatics (className : String) (objects : List ObjectId) :
    (registerStatics className objects).Keeps holds := by
  apply keeps_get_bind
  intro session hholds
  cases session.classForName? className with
  | some cls => exact hclosed session _ ⟨.of_pairs (Heap.stores_bindAll _ _ _).pairs, rfl⟩ hholds
  | none => exact hclosed session _ ⟨.refl, rfl⟩ hholds

theorem keeps_createStatics (group : StaticGroup) : (createStatics group).Keeps holds :=
  (Keeps.mapM fun _ => keeps_createLiteral hclosed _).bind fun objects =>
    (keeps_registerStatics hclosed group.className objects).bind fun _ => keeps_pure objects

end

/-! ### Classes -/

variable {policy : CategoryConflictPolicy}

theorem keeps_atRest_of_same {registry : Registry} (start final : Session)
    (same : start.SameClasses final)
    (h : start.AtRest policy ∧ start.system.registry = registry) :
    final.AtRest policy ∧ final.system.registry = registry :=
  ⟨h.1.transfer same, same.registry.trans h.2⟩

/-- A class is entered as it is declared. Its methods are defined first, which leaves the classes
alone. -/
theorem enterClass_enters {start : Session} (spec : ClassSpec) (atRest : start.AtRest policy)
    (hfree : start.system.registry.idOf? spec.name = none) :
    (enterClass spec).Leads True start fun answer final =>
      ∃ (defined : Session) (methods : Sided (List MethodDefinition)), defined.AtRest policy ∧
        defined.system.registry = start.system.registry ∧
        answer.1 = (defined.classes.newRecord
          ⟨spec.name, spec.superclass, spec.size, methods, spec.protocols⟩).pair ∧
        defined.classes.Registers ⟨spec.name, spec.superclass, spec.size, methods, spec.protocols⟩
          answer.2 final.classes := by
  rw [enterClass, leads_bind]
  refine ((keeps_defineMethods keeps_atRest_of_same spec.methods) start ⟨atRest, rfl⟩).mono ?_
  intro methods defined h
  obtain ⟨hdefined, hregistry⟩ := h
  rw [leads_onClasses]
  have hname : defined.classes.registry.idOf? spec.name = none := by
    rw [← hfree, ← hregistry]
    rfl
  exact (Linking.register_leads hdefined.consistent hname (.inl trivial)).mono
    fun _ _ h => ⟨defined, methods, hdefined, hregistry, h⟩

theorem enterClass_registers {start : Session} (spec : ClassSpec) (atRest : start.AtRest policy)
    (hfree : start.system.registry.idOf? spec.name = none) :
    (enterClass spec).Leads True start fun answer final =>
      ∃ (defined : Session) (definition : ClassDefinition), defined.AtRest policy ∧
        defined.system.registry = start.system.registry ∧ definition.name = spec.name ∧
        answer.1 = (defined.classes.newRecord definition).pair ∧
        defined.classes.Registers definition answer.2 final.classes := by
  refine (enterClass_enters spec atRest hfree).mono ?_
  intro answer final h
  obtain ⟨defined, methods, hdefined, hregistry, hpair, registers⟩ := h
  exact ⟨defined, _, hdefined, hregistry, rfl, hpair, registers⟩

theorem enterClass_leads {start : Session} (spec : ClassSpec) (atRest : start.AtRest policy)
    (hfree : start.system.registry.idOf? spec.name = none) :
    (enterClass spec).Leads True start fun _ final => final.AtRest policy ∧
      ∀ name, name ≠ spec.name →
        final.system.registry.idOf? name = start.system.registry.idOf? name := by
  refine (enterClass_registers spec atRest hfree).mono ?_
  rintro answer final ⟨defined, definition, hdefined, hregistry, hname, -, registers⟩
  have hnone : defined.classes.registry.idOf? definition.name = none := by
    rw [hname, ← hfree, ← hregistry]
    rfl
  refine ⟨registers.atRest hnone hdefined, ?_⟩
  intro name hne
  rw [← hregistry]
  exact (registers.idOf?_eq name).trans (if_neg (hname ▸ Ne.symm hne))

theorem keeps_register (spec : ClassSpec) : (register spec).Keeps (Session.AtRest policy) := by
  apply keeps_get_bind
  intro session atRest
  split
  · exact atRest
  · next hfree =>
    rw [Option.not_isSome_iff_eq_none] at hfree
    simp only [leads_bind]
    refine (enterClass_leads spec atRest hfree).mono ?_
    intro answer entered h
    obtain ⟨hentered, -⟩ := h
    have hfinish := keeps_finishLinking (fun _ _ same atRest => atRest.transfer same) answer.2
      entered hentered
    exact hfinish.mono fun _ _ hfinal => hfinal

theorem keeps_applyCategory (spec : CategorySpec) :
    (applyCategory spec).Keeps (Session.AtRest policy) := by
  refine (keeps_defineMethods (fun _ _ same atRest => atRest.transfer same) spec.methods).bind ?_
  intro methods session atRest
  rw [leads_onClasses]
  exact (Linking.applyCategory_leads atRest.consistent (.inl trivial)).mono
    fun _ _ applies => applies.atRest atRest

theorem keeps_unregister (name : String) : (unregister name).Keeps (Session.AtRest policy) := by
  apply keeps_get_bind
  intro session atRest
  cases session.system.registry.idOf? name with
  | none => exact atRest
  | some id =>
    dsimp only
    rw [leads_bind, leads_onClasses]
    exact (Linking.unregister_leads id).of_false.mono fun _ _ removal => removal.atRest atRest

theorem keeps_addMethod (cls : ClassRef) (sel : Sel) (imp : Imp) (types : Option String) :
    (addMethod cls sel imp types).Keeps (Session.AtRest policy) := by
  refine (keeps_resolveMethod (fun _ _ same atRest => atRest.transfer same) cls sel imp
    types).bind ?_
  intro h
  rcases h with error | ⟨id, definition⟩
  · exact keeps_pure _
  · intro session atRest
    dsimp only
    rw [leads_bind, leads_onClasses]
    exact (Linking.addMethod_leads (.inl trivial)).mono fun _ _ adds => adds.atRest atRest

theorem keeps_replaceMethod (cls : ClassRef) (sel : Sel) (imp : Imp) (types : Option String) :
    (replaceMethod cls sel imp types).Keeps (Session.AtRest policy) := by
  refine (keeps_resolveMethod (fun _ _ same atRest => atRest.transfer same) cls sel imp
    types).bind ?_
  intro h
  rcases h with error | ⟨id, definition⟩
  · exact keeps_pure _
  · intro session atRest
    dsimp only
    rw [leads_bind, leads_onClasses]
    exact (Linking.replaceMethod_leads (.inl trivial)).mono
      fun _ _ replaces => replaces.atRest atRest

theorem keeps_shutdown : shutdown.Keeps (Session.AtRest policy) := by
  apply keeps_get_bind
  intro session atRest
  dsimp only
  rw [leads_bind]
  refine (Keeps.forM (fun event => keeps_report (fun _ _ same atRest => atRest.transfer same) event)
    session atRest).mono ?_
  intro _ reported hreported
  rw [leads_bind, leads_onClasses]
  refine Linking.clear_leads.of_false.mono ?_
  intro _ classes heq
  subst heq
  simp only [leads_bind, leads_onSystem, leads_pure]
  have hpolicy := hreported.policy_eq
  subst hpolicy
  exact .empty _ _ _

end Act

/-! ### Loading a unit -/

/-- What is checked of each item of a list holds of each. -/
theorem Except.of_forM_eq_ok {ε α : Type} {list : List α} {check : α → Except ε Unit}
    (hchecked : list.forM check = .ok ()) : ∀ item ∈ list, check item = .ok () := by
  induction list with
  | nil => exact fun item hitem => absurd hitem List.not_mem_nil
  | cons first rest ih =>
    obtain ⟨⟨⟩, hfirst, hrest⟩ := Except.bind_eq_ok_iff.mp hchecked
    intro item hitem
    rcases List.mem_cons.mp hitem with rfl | hmem
    · exact hfirst
    · exact ih hrest item hmem

theorem LoadUnit.resolveClasses_names {unit : String} {imps : String → Option Imp}
    {earlier : List String} {classes : List ClassDef} {specs : List ClassSpec}
    (hresolve : resolveClasses unit imps earlier classes = .ok specs) :
    (specs.map (·.name)).Nodup ∧ ∀ name ∈ specs.map (·.name), name ∉ earlier := by
  induction classes generalizing earlier specs with
  | nil =>
    cases hresolve
    exact ⟨List.nodup_nil, fun name hname => absurd hname List.not_mem_nil⟩
  | cons cls rest ih =>
    rw [resolveClasses] at hresolve
    by_cases hearlier : earlier.contains cls.name = true
    · rw [if_pos hearlier] at hresolve
      cases hresolve
    · rw [if_neg hearlier] at hresolve
      obtain ⟨methods, -, hresolve⟩ := Except.bind_eq_ok_iff.mp hresolve
      obtain ⟨others, hothers, hresolve⟩ := Except.bind_eq_ok_iff.mp hresolve
      cases hresolve
      obtain ⟨hnodup, hapart⟩ := ih hothers
      rw [List.map_cons]
      constructor
      · rw [List.nodup_cons]
        exact ⟨fun hname => hapart _ hname List.mem_cons_self, hnodup⟩
      · intro name hname
        rcases List.mem_cons.mp hname with rfl | hmem
        · simpa using hearlier
        · exact fun hbefore => hapart name hmem (List.mem_cons_of_mem _ hbefore)

theorem LoadUnit.resolve_names {unit : LoadUnit} {imps : String → Option Imp} {registry : Registry}
    {classes : List ClassSpec} {categories : List CategorySpec}
    (hresolve : unit.resolve imps registry = .ok (classes, categories)) :
    (classes.map (·.name)).Nodup ∧ ∀ spec ∈ classes, registry.idOf? spec.name = none := by
  obtain ⟨specs, hspecs, hresolve⟩ := Except.bind_eq_ok_iff.mp hresolve
  obtain ⟨others, -, hresolve⟩ := Except.bind_eq_ok_iff.mp hresolve
  obtain ⟨⟨⟩, hchecked, hresolve⟩ := Except.bind_eq_ok_iff.mp hresolve
  cases hresolve
  refine ⟨(resolveClasses_names hspecs).1, ?_⟩
  intro spec hspec
  have hfree := Except.of_forM_eq_ok hchecked spec hspec
  by_cases htaken : (registry.idOf? spec.name).isSome = true
  · simp [htaken] at hfree
  · exact Option.not_isSome_iff_eq_none.mp htaken

namespace Act

variable {policy : CategoryConflictPolicy}

theorem enterClasses_cons (spec : ClassSpec) (rest : List ClassSpec) :
    enterClasses (spec :: rest) = enterClass spec >>= fun entered =>
      (entered.2 ++ ·) <$> enterClasses rest := by
  simp only [enterClasses, List.mapM_cons, bind_assoc, pure_bind, map_eq_pure_bind,
    List.flatten_cons]

/-- Entering a class leaves the other names free. -/
theorem free_of_enterClass {spec : ClassSpec} {rest : List ClassSpec} {start entered : Session}
    (hnodup : spec.name ∉ rest.map (·.name))
    (hfree : ∀ other ∈ spec :: rest, start.system.registry.idOf? other.name = none)
    (hnames : ∀ name, name ≠ spec.name →
      entered.system.registry.idOf? name = start.system.registry.idOf? name) :
    ∀ other ∈ rest, entered.system.registry.idOf? other.name = none := by
  intro other hother
  rw [hnames other.name, hfree other (List.mem_cons_of_mem _ hother)]
  intro heq
  exact hnodup (heq ▸ List.mem_map_of_mem hother)

theorem enterClasses_leads {specs : List ClassSpec} {start : Session} (atRest : start.AtRest policy)
    (hnodup : (specs.map (·.name)).Nodup)
    (hfree : ∀ spec ∈ specs, start.system.registry.idOf? spec.name = none) :
    (enterClasses specs).Leads True start fun _ final => final.AtRest policy := by
  induction specs generalizing start with
  | nil => exact atRest
  | cons spec rest ih =>
    rw [List.map_cons, List.nodup_cons] at hnodup
    rw [enterClasses_cons, leads_bind]
    refine (enterClass_leads spec atRest (hfree spec List.mem_cons_self)).mono ?_
    intro answer entered h
    obtain ⟨hentered, hnames⟩ := h
    rw [leads_map]
    exact ih hentered hnodup.2 (free_of_enterClass hnodup.1 hfree hnames)

/-- Interning the selectors of a unit leaves the classes alone. -/
theorem keeps_selectors (unit : LoadUnit) {registry : Registry} :
    (unit.selectors.forM fun ref => discard (intern ref.name ref.types)).Keeps
      fun session => session.AtRest policy ∧ session.system.registry = registry :=
  Keeps.forM fun ref => (keeps_intern keeps_atRest_of_same ref.name ref.types).map _

theorem execute_leads {start : Session} (unit : LoadUnit) {classes : List ClassSpec}
    (categories : List CategorySpec) (atRest : start.AtRest policy)
    (hnodup : (classes.map (·.name)).Nodup)
    (hfree : ∀ spec ∈ classes, start.system.registry.idOf? spec.name = none) :
    (execute unit classes categories).Leads True start fun _ final => final.AtRest policy := by
  have hclosed := fun (before after : Session) (same : before.SameClasses after)
    (h : before.AtRest policy) => h.transfer same
  rw [execute, leads_bind]
  refine (keeps_selectors unit start ⟨atRest, rfl⟩).mono ?_
  intro _ interned h
  obtain ⟨hinterned, hregistry⟩ := h
  rw [leads_bind]
  refine (enterClasses_leads hinterned hnodup (by rwa [hregistry])).mono ?_
  intro linked entered hentered
  rw [leads_bind]
  refine (Keeps.mapM keeps_applyCategory entered hentered).mono ?_
  intro statuses applied happlied
  rw [leads_bind]
  refine (keeps_finishLinking hclosed linked applied happlied).mono ?_
  intro pairs bound hbound
  rw [leads_bind]
  refine (Keeps.mapM (keeps_createStatics hclosed) bound hbound).mono ?_
  intro statics made hmade
  simp only [leads_bind, leads_get, leads_report, leads_pure]
  exact hmade.transfer ⟨.refl, rfl⟩

theorem keeps_load (unit : LoadUnit) (imps : String → Option Imp) :
    (load unit imps).Keeps (Session.AtRest policy) := by
  apply keeps_get_bind
  intro session atRest
  cases hresolve : unit.resolve imps session.system.registry with
  | error error => exact atRest
  | ok declared =>
    obtain ⟨classes, categories⟩ := declared
    obtain ⟨hnodup, hfree⟩ := LoadUnit.resolve_names hresolve
    dsimp only
    rw [leads_bind]
    exact execute_leads unit categories atRest hnodup hfree

end Act

end LateBinding
