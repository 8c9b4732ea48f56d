import LateBinding.Proofs.Execution.Stepwise
import LateBinding.Proofs.Order.Registering

/-!
# What a call does with static instances

A call makes objects, registers some under names, and may link classes. Whatever it does, afterwards
the registered objects wait under those of their names that no linked class has, and under no
others; an object that was registered under the name of a linked class has got a class; and whoever
got one got that of one of its names.
-/

namespace LateBinding

/-! ### Classes that are found by name -/

theorem Registry.Loses.classForName?_eq_none {start final : Registry} {ids : List ClassId}
    (loses : start.Loses ids final) {name : String} (hnone : start.classForName? name = none) :
    final.classForName? name = none := by
  rw [classForName?] at hnone
  rw [classForName?, loses.idOf?]
  cases hid : start.idOf? name with
  | none => rfl
  | some id =>
    rw [hid] at hnone
    by_cases hmem : id ∈ ids
    · rw [Option.filter_some, if_neg (by simpa using hmem)]
      rfl
    · rw [Option.filter_some, if_pos (by simpa using hmem), Option.bind_some, loses.record?,
        if_neg hmem, Option.bind_map]
      exact hnone

namespace Classes

variable {start final : Classes}

theorem Adds.classForName?_eq {id : ClassId} {kind : ClassKind} {method : MethodDefinition}
    {added : Bool} (adds : start.Adds id kind method added final) :
    final.registry.classForName? = start.registry.classForName? := by
  cases adds with
  | unknown => rfl
  | defined => rfl
  | adds _ alters => exact alters.classForName?_eq

theorem Replaces.classForName?_eq {id : ClassId} {kind : ClassKind} {method : MethodDefinition}
    {replaced : Option Imp} (replaces : start.Replaces id kind method replaced final) :
    final.registry.classForName? = start.registry.classForName? := by
  cases replaces with
  | unknown => rfl
  | replaces alters => exact alters.classForName?_eq

end Classes

namespace Session

variable {start final : Session}

/-- Names that no linked class has are still without one. -/
def LinksNone (start final : Session) : Prop :=
  ∀ name, start.classForName? name = none → final.classForName? name = none

theorem LinksNone.of_eq (h : final.classForName? = start.classForName?) : start.LinksNone final :=
  fun name hnone => (congrFun h name).trans hnone

theorem classForName?_of_registry (h : final.system.registry = start.system.registry) :
    final.classForName? = start.classForName? := by
  unfold classForName?
  rw [h]

theorem LinksNone.of_registry (h : final.system.registry = start.system.registry) :
    start.LinksNone final := .of_eq (classForName?_of_registry h)

end Session

namespace Act

variable {policy : CategoryConflictPolicy} {start : Session}

theorem keeps_registry_of_same (registry : Registry) (before after : Session)
    (same : before.SameClasses after) (h : before.system.registry = registry) :
    after.system.registry = registry := same.registry.trans h

theorem applyCategory_classForName? (spec : CategorySpec) (atRest : start.AtRest policy) :
    (applyCategory spec).Leads True start fun _ final =>
      final.classForName? = start.classForName? := by
  rw [applyCategory, leads_bind]
  refine (keeps_defineMethods keeps_atRest_of_same spec.methods start ⟨atRest, rfl⟩).mono ?_
  rintro methods defined ⟨hdefined, hregistry⟩
  rw [leads_onClasses]
  refine (Linking.applyCategory_leads hdefined.consistent (.inl trivial)).mono ?_
  intro status classes applies
  have hsame : classes.registry.classForName? = defined.system.registry.classForName? :=
    applies.classForName?_eq
  rw [hregistry] at hsame
  exact hsame

/-- Methods are added and replaced without linking a class. -/
theorem alterMethod_classForName? {α : Type} {cls : ClassRef} {sel : Sel} {imp : Imp}
    {types : Option String} (change : ClassId → MethodDefinition → Linking α)
    (hchange : ∀ id method (classes : Classes), (change id method).Leads True classes
      fun _ changed => changed.registry.classForName? = classes.registry.classForName?)
    {reply : Except RegistryError α} {final : Session}
    (hrun : (resolveMethod cls sel imp types >>= fun
      | .error error => pure (.error error)
      | .ok (id, method) => do return .ok (← onClasses (change id method))) start =
        .ok reply final) : final.classForName? = start.classForName? := by
  obtain ⟨resolved, middle, hresolve, hrun⟩ := EStateM.bind_eq_ok_iff.mp hrun
  have hmiddle : middle.classForName? = start.classForName? :=
    Session.classForName?_of_registry ((keeps_resolveMethod (keeps_registry_of_same _) cls sel imp
      types start rfl).of_ok hresolve)
  cases resolved with
  | error error =>
    cases hrun
    exact hmiddle
  | ok method =>
    obtain ⟨answer, after, hafter, hpure⟩ := EStateM.bind_eq_ok_iff.mp hrun
    cases hpure
    have leads : (onClasses (change method.1 method.2)).Leads True middle fun _ changed =>
        changed.classForName? = middle.classForName? := by
      rw [leads_onClasses]
      exact hchange method.1 method.2 middle.classes
    exact (leads.of_ok hafter).trans hmiddle

end Act

/-- Operations link no classes. -/
theorem Operation.linksNone {policy : CategoryConflictPolicy} {start final : Session}
    {operation : Operation} {reply : operation.Reply} (atRest : start.AtRest policy)
    (hrun : operation.perform start = .ok reply final) : start.LinksNone final := by
  have hclosed := Act.keeps_registry_of_same start.system.registry
  cases operation with
  | intern name types =>
    exact .of_registry ((Act.keeps_intern hclosed name types start rfl).of_ok hrun)
  | internAll names =>
    exact .of_registry ((Act.keeps_internAll hclosed names start rfl).of_ok hrun)
  | applyCategory spec => exact .of_eq ((Act.applyCategory_classForName? spec atRest).of_ok hrun)
  | unregister name =>
    have leads : (Act.unregister name).Leads True start fun _ final => start.LinksNone final := by
      rw [Act.unregister, Act.leads_bind, Act.leads_get]
      cases start.system.registry.idOf? name with
      | none => exact fun _ hnone => hnone
      | some id =>
        dsimp only
        rw [Act.leads_bind, Act.leads_onClasses]
        refine (Linking.unregister_leads id).of_false.mono ?_
        intro pairs classes removal name hnone
        obtain ⟨ids, takesOut, -⟩ := removal.takesOut (atRest.consistent.loosen _)
        exact takesOut.registry.classForName?_eq_none hnone
    exact leads.of_ok hrun
  | addMethod cls sel imp types =>
    refine .of_eq (Act.alterMethod_classForName? (fun id => Linking.addMethod id cls.kind)
      (fun id method classes => ?_) hrun)
    exact (Linking.addMethod_leads (.inl trivial)).mono fun _ _ adds => adds.classForName?_eq
  | replaceMethod cls sel imp types =>
    refine .of_eq (Act.alterMethod_classForName? (fun id => Linking.replaceMethod id cls.kind)
      (fun id method classes => ?_) hrun)
    exact (Linking.replaceMethod_leads (.inl trivial)).mono
      fun _ _ replaces => replaces.classForName?_eq
  | createInstance cls =>
    exact .of_registry ((Act.keeps_createInstance hclosed cls start rfl).of_ok hrun)
  | createLiteral slots =>
    exact .of_registry ((Act.keeps_createLiteral hclosed slots start rfl).of_ok hrun)
  | setSlot object index value =>
    exact .of_registry ((Act.keeps_setSlot hclosed object index value start rfl).of_ok hrun)
  | registerStatics className objects =>
    exact .of_registry ((Act.keeps_registerStatics hclosed className objects start rfl).of_ok hrun)
  | setForward handler =>
    exact .of_registry ((Act.keeps_setForward hclosed handler start rfl).of_ok hrun)
  | shutdown =>
    cases (Act.shutdown_eq start).symm.trans hrun
    exact fun name _ => rfl

/-! ### What was bound -/

namespace Session

variable {pairs : List PairId}

theorem mem_statics_bound (session : Session) (name : String) (object : ObjectId) :
    (name, object) ∈ (session.bound pairs).system.statics ↔
      (name, object) ∈ session.system.statics ∧
        ∀ pair ∈ pairs, (session.heap.pair pair).name ≠ name := by
  induction pairs generalizing session with
  | nil => exact (and_iff_left fun _ h => absurd h List.not_mem_nil).symm
  | cons pair rest ih =>
    refine (ih (session.bindWaiting pair)).trans ?_
    change (name, object) ∈ session.system.statics.without _ ∧ (∀ other ∈ rest,
      (session.heap.pair other).name ≠ name) ↔ _
    rw [StaticQueue.mem_without, List.forall_mem_cons, and_assoc]
    exact and_congr_right fun _ => and_congr_left fun _ => ne_comm

theorem hasObject_bound (session : Session) (pairs : List PairId) :
    (session.bound pairs).heap.HasObject = session.heap.HasObject := by
  induction pairs generalizing session with
  | nil => rfl
  | cons pair rest ih => exact (ih _).trans (session.heap.hasObject_bindAll pair _)

theorem classOf?_bindWaiting (session : Session) (pair : PairId) (object : ObjectId) :
    (session.bindWaiting pair).heap.classOf? object = (session.heap.classOf? object).or
      (if ((session.heap.pair pair).name, object) ∈ session.system.statics ∧
        session.heap.HasObject object then some ⟨pair, .plain⟩ else none) := by
  simp only [← StaticQueue.mem_under]
  exact session.heap.classOf?_bindAll pair _ object

theorem classOf?_bound_of_some (session : Session) (pairs : List PairId) {object : ObjectId}
    {cls : ClassRef} (hcls : session.heap.classOf? object = some cls) :
    (session.bound pairs).heap.classOf? object = some cls := by
  induction pairs generalizing session with
  | nil => exact hcls
  | cons pair rest ih =>
    apply ih (session.bindWaiting pair)
    rw [classOf?_bindWaiting, hcls, Option.some_or]

/-- An object that waits for one of the classes has got a class, which may be that of another. -/
theorem exists_classOf?_bound (session : Session) {object : ObjectId} {pair : PairId}
    (hobject : session.heap.HasObject object) (hpair : pair ∈ pairs)
    (hwaits : ((session.heap.pair pair).name, object) ∈ session.system.statics) :
    ∃ cls, (session.bound pairs).heap.classOf? object = some cls := by
  induction pairs generalizing session with
  | nil => exact absurd hpair List.not_mem_nil
  | cons first rest ih =>
    by_cases hsame : (session.heap.pair first).name = (session.heap.pair pair).name
    · have hfirst : ∃ cls, (session.bindWaiting first).heap.classOf? object = some cls := by
        rw [classOf?_bindWaiting, hsame, if_pos ⟨hwaits, hobject⟩]
        cases session.heap.classOf? object with
        | none => exact ⟨_, rfl⟩
        | some cls => exact ⟨cls, rfl⟩
      obtain ⟨cls, hcls⟩ := hfirst
      exact ⟨cls, classOf?_bound_of_some _ rest hcls⟩
    · have hmem : pair ∈ rest := by
        rcases List.mem_cons.mp hpair with heq | hmem
        · exact absurd (by rw [heq]) hsame
        · exact hmem
      have hhas : (session.bindWaiting first).heap.HasObject = session.heap.HasObject :=
        session.heap.hasObject_bindAll first _
      refine ih (session.bindWaiting first) ?_ hmem ?_
      · rwa [hhas]
      · exact (StaticQueue.mem_without _).mpr ⟨hwaits, Ne.symm hsame⟩

/-- Whoever has got a class waited for it. -/
theorem origin_of_classOf?_bound (session : Session) {object : ObjectId} {cls : ClassRef}
    (hcls : (session.bound pairs).heap.classOf? object = some cls) :
    session.heap.classOf? object = some cls ∨ ∃ pair ∈ pairs, cls = ⟨pair, .plain⟩ ∧
      ((session.heap.pair pair).name, object) ∈ session.system.statics := by
  induction pairs generalizing session with
  | nil => exact .inl hcls
  | cons pair rest ih =>
    rcases ih (session.bindWaiting pair) hcls with hbound | ⟨other, hother, rfl, hwaits⟩
    · rw [classOf?_bindWaiting, Option.or_eq_some_iff] at hbound
      rcases hbound with hbefore | ⟨-, hhere⟩
      · exact .inl hbefore
      · split at hhere
        · next hwaits =>
          cases hhere
          exact .inr ⟨pair, List.mem_cons_self, rfl, hwaits.1⟩
        · cases hhere
    · exact .inr ⟨other, List.mem_cons_of_mem _ hother, rfl,
        ((StaticQueue.mem_without _).mp hwaits).1⟩

end Session

/-! ### Providing for what is registered -/

/-- What a call has to do with objects: those that it makes, without a class or with one, and those
that it registers, each with the name. -/
structure Dealings where
  literals : List ObjectId
  instances : List ObjectId
  entries : List (String × ObjectId)

namespace Dealings

def nothing : Dealings := ⟨[], [], []⟩

def and (first second : Dealings) : Dealings :=
  ⟨first.literals ++ second.literals, first.instances ++ second.instances,
    first.entries ++ second.entries⟩

end Dealings

namespace Session

/-- No object waits under the name of a linked class. -/
def Unlinked (session : Session) : Prop :=
  ∀ entry ∈ session.system.statics, session.classForName? entry.1 = none

def Present (session : Session) : Prop :=
  ∀ entry ∈ session.system.statics, session.heap.HasObject entry.2

/-- The object waits under the name, or it is registered under it now. -/
def Awaits (start : Session) (dealings : Dealings) (entry : String × ObjectId) : Prop :=
  entry ∈ start.system.statics ∨ entry ∈ dealings.entries

/-- A call provides for what is registered: whoever awaits a class waits on if none of the name is
linked afterwards, and has got a class else. Whoever has got one awaited it under its name. -/
structure Provides (start : Session) (dealings : Dealings) (final : Session) : Prop where
  stay : ∀ object, start.heap.HasObject object → final.heap.HasObject object
  made : ∀ object ∈ dealings.literals ++ dealings.instances,
    ¬ start.heap.HasObject object ∧ final.heap.HasObject object
  exist : ∀ entry ∈ dealings.entries, final.heap.HasObject entry.2
  waits : ∀ entry, entry ∈ final.system.statics ↔
    start.Awaits dealings entry ∧ final.classForName? entry.1 = none
  kept : ∀ object cls, start.heap.classOf? object = some cls →
    final.heap.classOf? object = some cls
  bound : start.Present → ∀ name object cls, start.Awaits dealings (name, object) →
    final.classForName? name = some cls → ∃ own, final.heap.classOf? object = some own
  origin : ∀ object cls, object ∉ dealings.instances →
    final.heap.classOf? object = some cls → start.heap.classOf? object = some cls ∨
      ∃ name, start.Awaits dealings (name, object) ∧ final.classForName? name = some cls

variable {start final : Session} {dealings : Dealings}

theorem Provides.unlinked (provides : start.Provides dealings final) : final.Unlinked :=
  fun entry hentry => ((provides.waits entry).mp hentry).2

theorem Provides.present (provides : start.Provides dealings final) (present : start.Present) :
    final.Present := by
  intro entry hentry
  rcases ((provides.waits entry).mp hentry).1 with hwaits | hnew
  · exact provides.stay _ (present entry hwaits)
  · exact provides.exist entry hnew

/-- Nothing is registered, and no class links. -/
theorem Unlinked.provides (unlinked : start.Unlinked) (linksNone : start.LinksNone final)
    (hstatics : final.system.statics = start.system.statics) (hentries : dealings.entries = [])
    (stay : ∀ object, start.heap.HasObject object → final.heap.HasObject object)
    (made : ∀ object ∈ dealings.literals ++ dealings.instances,
      ¬ start.heap.HasObject object ∧ final.heap.HasObject object)
    (kept : ∀ object cls, start.heap.classOf? object = some cls →
      final.heap.classOf? object = some cls)
    (origin : ∀ object cls, object ∉ dealings.instances →
      final.heap.classOf? object = some cls → start.heap.classOf? object = some cls) :
    start.Provides dealings final := by
  have hawaits : ∀ entry, start.Awaits dealings entry ↔ entry ∈ start.system.statics := by
    intro entry
    rw [Awaits, hentries]
    exact or_iff_left List.not_mem_nil
  have hnone : ∀ entry, start.Awaits dealings entry → final.classForName? entry.1 = none :=
    fun entry awaits => linksNone _ (unlinked entry ((hawaits entry).mp awaits))
  refine ⟨stay, made, ?_, ?_, kept, ?_, ?_⟩
  · rw [hentries]
    exact fun _ h => absurd h List.not_mem_nil
  · intro entry
    rw [hstatics, ← hawaits]
    exact (and_iff_left_of_imp (hnone entry)).symm
  · intro _ name object cls awaits hcls
    rw [hnone _ awaits] at hcls
    cases hcls
  · exact fun object cls hmade hcls => .inl (origin object cls hmade hcls)

theorem Unlinked.provides_of_objects (unlinked : start.Unlinked) (linksNone : start.LinksNone final)
    (hstatics : final.system.statics = start.system.statics)
    (hobjects : final.heap.objects = start.heap.objects) : start.Provides .nothing final := by
  have hclass := Heap.classOf?_of_objects hobjects
  refine unlinked.provides linksNone hstatics rfl ?_ ?_ ?_ ?_
  · rw [Heap.hasObject_of_objects hobjects]
    exact fun _ h => h
  · exact fun _ h => absurd h List.not_mem_nil
  · rw [hclass]
    exact fun _ _ h => h
  · rw [hclass]
    exact fun _ _ _ h => h

end Session

namespace Act

variable {α : Type} {action : Act α} {start final : Session} {reply : α}

theorem Apart.provides (apart : action.Apart) (hrun : action start = .ok reply final)
    (unlinked : start.Unlinked) (linksNone : start.LinksNone final) :
    start.Provides .nothing final := by
  have hfinal := apart.eq_beside hrun
  exact unlinked.provides_of_objects linksNone (congrArg (·.system.statics) hfinal)
    (congrArg (·.heap.objects) hfinal)

/-! ### Operations -/

theorem apart_setForward (handler : Option Imp) : (setForward handler).Apart :=
  fun session objects statics => matches_setForward (session.mirrors_beside objects statics) handler

theorem apart_intern (name : String) (types : Option String) : (intern name types).Apart :=
  fun session objects statics =>
    matches_intern SelectorTable.bisimulation_eq (session.mirrors_beside objects statics) name types

theorem apart_internAll (names : List String) : (internAll names).Apart :=
  fun session objects statics =>
    matches_internAll SelectorTable.bisimulation_eq (session.mirrors_beside objects statics) names

theorem apart_applyCategory (spec : CategorySpec) : (applyCategory spec).Apart :=
  fun session objects statics => matches_applyCategory (session.mirrors_beside objects statics)
    SelectorTable.bisimulation_eq spec

theorem apart_addMethod (cls : ClassRef) (sel : Sel) (imp : Imp) (types : Option String) :
    (addMethod cls sel imp types).Apart :=
  fun session objects statics => matches_addMethod (session.mirrors_beside objects statics)
    SelectorTable.bisimulation_eq cls sel imp types

theorem apart_replaceMethod (cls : ClassRef) (sel : Sel) (imp : Imp) (types : Option String) :
    (replaceMethod cls sel imp types).Apart :=
  fun session objects statics => matches_replaceMethod (session.mirrors_beside objects statics)
    SelectorTable.bisimulation_eq cls sel imp types

theorem apart_unregister (name : String) : (unregister name).Apart := by
  intro session objects statics
  refine (matches_unregister (session.mirrors_beside objects statics) name).mono ?_
  rintro (error | pairs) _ rfl
  · rfl
  · exact congrArg Except.ok (List.map_id pairs).symm

section

variable {className : String} {objects : List ObjectId}
  (exist : ∀ object ∈ objects, start.heap.HasObject object)

theorem mem_registered {entry : String × ObjectId} :
    entry ∈ objects.map (className, ·) ↔ entry.1 = className ∧ entry.2 ∈ objects := by
  obtain ⟨name, object⟩ := entry
  simp only [List.mem_map, Prod.mk.injEq]
  constructor
  · rintro ⟨_, hobject, rfl, rfl⟩
    exact ⟨rfl, hobject⟩
  · rintro ⟨rfl, hobject⟩
    exact ⟨object, hobject, rfl, rfl⟩

include exist

/-- The class is not linked, and the objects wait for it. -/
theorem provides_enlisted (unlinked : start.Unlinked)
    (hnone : start.classForName? className = none) :
    start.Provides ⟨[], [], objects.map (className, ·)⟩
      { start with system :=
        { start.system with statics := start.system.statics.addAll className objects } } := by
  have hawaits : ∀ entry, start.Awaits ⟨[], [], objects.map (className, ·)⟩ entry →
      start.classForName? entry.1 = none := by
    rintro entry (hwaits | hnew)
    · exact unlinked entry hwaits
    · rw [(mem_registered.mp hnew).1]
      exact hnone
  constructor
  · exact fun _ h => h
  · exact fun _ h => absurd h List.not_mem_nil
  · exact fun entry hentry => exist _ (mem_registered.mp hentry).2
  · intro entry
    rw [StaticQueue.mem_addAll]
    exact (and_iff_left_of_imp (hawaits entry)).symm
  · exact fun _ _ h => h
  · intro _ name object cls awaits hcls
    cases (hawaits _ awaits).symm.trans hcls
  · exact fun _ _ _ h => .inl h

/-- The class is linked, and the objects that have none get it. -/
theorem provides_bound (unlinked : start.Unlinked) {cls : ClassRef}
    (hcls : start.classForName? className = some cls) :
    start.Provides ⟨[], [], objects.map (className, ·)⟩
      { start with heap := (start.heap.bindAll cls.pair objects).2 } := by
  have hown : (⟨cls.pair, .plain⟩ : ClassRef) = cls := by
    obtain ⟨_, _, -, -, -, rfl⟩ := (Registry.classForName?_eq_some_iff className cls).mp hcls
    rfl
  have hclass := start.heap.classOf?_bindAll cls.pair objects
  have hhas := start.heap.hasObject_bindAll cls.pair objects
  rw [hown] at hclass
  constructor
  · rw [hhas]
    exact fun _ h => h
  · exact fun _ h => absurd h List.not_mem_nil
  · rw [hhas]
    exact fun entry hentry => exist _ (mem_registered.mp hentry).2
  · intro entry
    constructor
    · exact fun hwaits => ⟨.inl hwaits, unlinked entry hwaits⟩
    · rintro ⟨hwaits | hnew, hnone⟩
      · exact hwaits
      · rw [(mem_registered.mp hnew).1] at hnone
        cases hcls.symm.trans hnone
  · intro object own hown
    rw [hclass, hown, Option.some_or]
  · rintro _ name object own (hwaits | hnew) howned
    · cases (unlinked _ hwaits).symm.trans howned
    · have hobject := (mem_registered.mp hnew).2
      rw [hclass, if_pos ⟨hobject, exist object hobject⟩]
      cases start.heap.classOf? object with
      | none => exact ⟨cls, rfl⟩
      | some own => exact ⟨own, rfl⟩
  · intro object own _ howned
    rw [hclass, Option.or_eq_some_iff] at howned
    rcases howned with hbefore | ⟨-, hhere⟩
    · exact .inl hbefore
    · split at hhere
      · next hobject =>
        cases hhere
        exact .inr ⟨className, .inr (mem_registered.mpr ⟨rfl, hobject.1⟩), hcls⟩
      · cases hhere

theorem provides_registerStatics (unlinked : start.Unlinked) {count : Nat}
    (hrun : registerStatics className objects start = .ok count final) :
    start.Provides ⟨[], [], objects.map (className, ·)⟩ final := by
  rw [registerStatics, bind_of_ok (run_get start)] at hrun
  cases hcls : start.classForName? className with
  | some cls =>
    rw [hcls] at hrun
    cases hrun
    exact provides_bound exist unlinked hcls
  | none =>
    rw [hcls] at hrun
    cases hrun
    exact provides_enlisted exist unlinked hcls

end

/-- A new object has no class unless it is an instance. -/
theorem provides_addObject (unlinked : start.Unlinked) {object : Object} {dealings : Dealings}
    (hentries : dealings.entries = [])
    (hmade : dealings.literals ++ dealings.instances = [(start.heap.addObject object).1])
    (hcls : (start.heap.addObject object).1 ∈ dealings.instances ∨ object.cls = none) :
    start.Provides dealings { start with heap := (start.heap.addObject object).2 } := by
  have hhas := start.heap.hasObject_addObject object
  have hfresh := start.heap.not_hasObject_addObject object
  refine unlinked.provides (.of_eq rfl) rfl hentries (fun other h => (hhas other).mpr (.inl h)) ?_
    ?_ ?_
  · intro other hother
    rw [hmade, List.mem_singleton] at hother
    rw [hother]
    exact ⟨hfresh, (hhas _).mpr (.inr rfl)⟩
  · exact (start.heap.stores_addObject object).classOf
  · intro other cls hother howned
    change (start.heap.addObject object).2.classOf? other = some cls at howned
    rw [Heap.classOf?_addObject] at howned
    split at howned
    · next heq =>
      rw [heq] at hother
      rw [hcls.resolve_left hother] at howned
      cases howned
    · exact howned

theorem provides_createLiteral {slots : List Value} (unlinked : start.Unlinked) {object : ObjectId}
    (hrun : createLiteral slots start = .ok object final) :
    start.Provides ⟨[object], [], []⟩ final := by
  cases hrun
  exact provides_addObject unlinked rfl rfl (.inr rfl)

theorem provides_createInstance {cls : ClassRef} (unlinked : start.Unlinked)
    {reply : Except RegistryError ObjectId} (hrun : createInstance cls start = .ok reply final) :
    start.Provides ⟨[], reply.toOption.toList, []⟩ final := by
  have hsame : start.Provides .nothing start :=
    unlinked.provides_of_objects (fun _ h => h) rfl rfl
  rw [createInstance, bind_of_ok (run_get start)] at hrun
  dsimp only at hrun
  split at hrun
  · cases hrun
    exact hsame
  · split at hrun
    · cases hrun
      exact hsame
    · cases hrun
      exact provides_addObject unlinked rfl rfl (.inl List.mem_cons_self)

theorem provides_setSlot {object : ObjectId} {index : Nat} {value : Value}
    (unlinked : start.Unlinked) {done : Bool}
    (hrun : setSlot object index value start = .ok done final) :
    start.Provides .nothing final := by
  have hfinal : { start with heap := (start.heap.setSlot object index value).2 } = final := by
    cases hrun
    rfl
  have hhas := start.heap.hasObject_setSlot object index value
  have hclass := start.heap.classOf?_setSlot object index value
  rw [← hfinal]
  refine unlinked.provides (.of_eq rfl) rfl rfl ?_ (fun _ h => absurd h List.not_mem_nil) ?_ ?_
  · rw [hhas]
    exact fun _ h => h
  · rw [hclass]
    exact fun _ _ h => h
  · rw [hclass]
    exact fun _ _ _ h => h

end Act

namespace Operation

def dealings : (operation : Operation) → operation.Reply → Dealings
  | .createInstance _, .ok object => ⟨[], [object], []⟩
  | .createLiteral _, object => ⟨[object], [], []⟩
  | .registerStatics className objects, _ => ⟨[], [], objects.map (className, ·)⟩
  | _, _ => .nothing

def clears : Operation → Bool
  | .shutdown => true
  | _ => false

theorem provides {operation : Operation} {start final : Session} {reply : operation.Reply}
    {policy : CategoryConflictPolicy} (atRest : start.AtRest policy) (unlinked : start.Unlinked)
    (exist : ∀ entry ∈ (operation.dealings reply).entries, start.heap.HasObject entry.2)
    (hclears : operation.clears = false) (hrun : operation.perform start = .ok reply final) :
    start.Provides (operation.dealings reply) final := by
  have linksNone := operation.linksNone atRest hrun
  cases operation with
  | intern name types => exact (Act.apart_intern name types).provides hrun unlinked linksNone
  | internAll names => exact (Act.apart_internAll names).provides hrun unlinked linksNone
  | applyCategory spec => exact (Act.apart_applyCategory spec).provides hrun unlinked linksNone
  | unregister name => exact (Act.apart_unregister name).provides hrun unlinked linksNone
  | addMethod cls sel imp types =>
    exact (Act.apart_addMethod cls sel imp types).provides hrun unlinked linksNone
  | replaceMethod cls sel imp types =>
    exact (Act.apart_replaceMethod cls sel imp types).provides hrun unlinked linksNone
  | createInstance cls =>
    have hprovides := Act.provides_createInstance unlinked hrun
    cases reply with
    | error error => exact hprovides
    | ok object => exact hprovides
  | createLiteral slots => exact Act.provides_createLiteral unlinked hrun
  | setSlot object index value => exact Act.provides_setSlot unlinked hrun
  | registerStatics className objects =>
    refine Act.provides_registerStatics (fun object hobject => ?_) unlinked hrun
    exact exist (className, object) (Act.mem_registered.mpr ⟨rfl, hobject⟩)
  | setForward handler => exact (Act.apart_setForward handler).provides hrun unlinked linksNone
  | shutdown => cases hclears

end Operation

/-! ### Registering a class -/

namespace Session

variable {start middle final : Session}

/-- The call provides for what is registered, and linked classes are still found by name. -/
structure Furthers (start : Session) (dealings : Dealings) (final : Session) : Prop where
  provides : start.Provides dealings final
  linked : ∀ name cls, start.classForName? name = some cls → final.classForName? name = some cls

theorem Provides.furthers {dealings : Dealings} (provides : start.Provides dealings final)
    (hhome : final.classForName? = start.classForName?) : start.Furthers dealings final := by
  refine ⟨provides, ?_⟩
  rw [hhome]
  exact fun _ _ h => h

/-- The classes of some pairs have linked, and no others. What waits for them is bound. -/
theorem Unlinked.provides_bound (unlinked : start.Unlinked) {pairs : List PairId}
    (hobjects : middle.heap.objects = start.heap.objects)
    (hstatics : middle.system.statics = start.system.statics)
    (hlinked : ∀ pair ∈ pairs,
      middle.classForName? (middle.heap.pair pair).name = some ⟨pair, .plain⟩)
    (hnew : ∀ name, start.classForName? name = middle.classForName? name ∨
      ∃ pair ∈ pairs, (middle.heap.pair pair).name = name) :
    start.Provides .nothing (middle.bound pairs) := by
  have hhome : (middle.bound pairs).classForName? = middle.classForName? := by
    rw [middle.bound_eq_beside]
    rfl
  have hhas : (middle.bound pairs).heap.HasObject = start.heap.HasObject :=
    (middle.hasObject_bound pairs).trans (Heap.hasObject_of_objects hobjects)
  have hclass := Heap.classOf?_of_objects hobjects
  have hawaits : ∀ entry, start.Awaits .nothing entry ↔ entry ∈ middle.system.statics := by
    intro entry
    rw [hstatics]
    exact or_iff_left List.not_mem_nil
  -- a name that something waits under has a linked class now only if that is one of them
  have hpair : ∀ entry, start.Awaits .nothing entry → ∀ cls,
      middle.classForName? entry.1 = some cls →
        ∃ pair ∈ pairs, (middle.heap.pair pair).name = entry.1 := by
    intro entry awaits cls hcls
    rw [hawaits, hstatics] at awaits
    refine (hnew entry.1).resolve_left fun hsame => ?_
    cases (unlinked entry awaits).symm.trans (hsame.trans hcls)
  constructor
  · rw [hhas]
    exact fun _ h => h
  · exact fun _ h => absurd h List.not_mem_nil
  · exact fun _ h => absurd h List.not_mem_nil
  · intro entry
    rw [hhome, hawaits, show entry = (entry.1, entry.2) from rfl, middle.mem_statics_bound]
    refine and_congr_right fun hwaits => ?_
    constructor
    · intro hnone
      rw [Option.eq_none_iff_forall_ne_some]
      intro cls hcls
      obtain ⟨pair, hmem, hname⟩ := hpair entry ((hawaits entry).mpr hwaits) cls hcls
      exact hnone pair hmem hname
    · intro hnone pair hmem hname
      have hcls := hlinked pair hmem
      rw [hname] at hcls
      cases hnone.symm.trans hcls
  · intro object cls hcls
    apply middle.classOf?_bound_of_some
    rwa [hclass]
  · intro present name object cls awaits hcls
    rw [hhome] at hcls
    obtain ⟨pair, hmem, hname⟩ := hpair _ awaits cls hcls
    have hwaits := (hawaits _).mp awaits
    dsimp only at hname
    subst hname
    apply middle.exists_classOf?_bound _ hmem hwaits
    rw [Heap.hasObject_of_objects hobjects]
    rw [hstatics] at hwaits
    exact present _ hwaits
  · intro object cls _ howned
    rw [← hclass]
    rcases middle.origin_of_classOf?_bound howned with hbefore | ⟨pair, hmem, rfl, hwaits⟩
    · exact .inl hbefore
    · refine .inr ⟨_, (hawaits _).mpr hwaits, ?_⟩
      rw [hhome]
      exact hlinked pair hmem

end Session

namespace Act

variable {policy : CategoryConflictPolicy} {start final : Session}

/-- A class is found by its name before and after another is entered, unless it links along with
that. -/
theorem enterClass_classForName? (spec : ClassSpec) (atRest : start.AtRest policy)
    (hfree : start.system.registry.idOf? spec.name = none) :
    (enterClass spec).Leads True start fun answer entered =>
      (∀ id ∈ answer.2, entered.system.registry.IsLinked id) ∧
      ∀ name, start.classForName? name = entered.classForName? name ∨
        start.classForName? name = none ∧
          ∃ id ∈ answer.2, entered.system.registry.idOf? name = some id := by
  refine (enterClass_registers spec atRest hfree).mono ?_
  rintro answer entered ⟨defined, definition, hdefined, hregistry, hname, -, registers⟩
  have hnone : defined.classes.registry.idOf? definition.name = none := by
    rw [hname, ← hfree, ← hregistry]
    rfl
  refine ⟨fun id hid => (registers.isLinked_iff id).mpr (.inr hid), fun name => ?_⟩
  have hsame : start.classForName? name = defined.classes.registry.classForName? name := by
    unfold Session.classForName?
    rw [← hregistry]
    rfl
  rw [hsame]
  by_cases hlinks : ∃ id ∈ answer.2, entered.system.registry.idOf? name = some id
  · obtain ⟨id, hid, hidOf⟩ := hlinks
    exact .inr ⟨registers.classForName?_of_mem hnone hdefined.consistent hid hidOf, id, hid, hidOf⟩
  · left
    apply registers.classForName?_of_not_mem hnone hdefined.consistent
    exact fun id hid hidOf => hlinks ⟨id, hid, hidOf⟩

theorem furthers_register {spec : ClassSpec} {reply : Except RegistryError (PairId × List PairId)}
    (atRest : start.AtRest policy) (unlinked : start.Unlinked)
    (hrun : register spec start = .ok reply final) : start.Furthers .nothing final := by
  rcases register_cases hrun with ⟨-, rfl⟩ | ⟨answer, entered, hfree, hentered, -, rfl⟩
  · exact ⟨unlinked.provides_of_objects (fun _ h => h) rfl rfl, fun _ _ h => h⟩
  · have hatRest := ((enterClass_leads spec atRest hfree).of_ok hentered).1
    have hapart := (apart_enterClass spec).eq_beside hentered
    obtain ⟨hlinked, hhome⟩ := (enterClass_classForName? spec atRest hfree).of_ok hentered
    constructor
    · apply unlinked.provides_bound (congrArg (·.heap.objects) hapart)
        (congrArg (·.system.statics) hapart)
      · exact fun pair => hatRest.classForName?_pairName hlinked
      · intro name
        refine (hhome name).imp_right fun hnew => ?_
        exact (hatRest.exists_pairName_iff answer.2 name).mpr hnew.2
    · intro name cls hcls
      rw [entered.bound_eq_beside]
      change entered.classForName? name = some cls
      rcases hhome name with hsame | ⟨hnone, -⟩
      · exact hsame.symm.trans hcls
      · cases hnone.symm.trans hcls

end Act

/-! ### One call after the other -/

namespace Session

variable {start middle final : Session} {first second : Dealings}

theorem Furthers.refl (unlinked : start.Unlinked) : start.Furthers .nothing start :=
  ⟨unlinked.provides_of_objects (fun _ h => h) rfl rfl, fun _ _ h => h⟩

theorem awaits_and (entry : String × ObjectId) : start.Awaits (first.and second) entry ↔
    start.Awaits first entry ∨ entry ∈ second.entries := by
  rw [Awaits, Awaits, or_assoc]
  exact or_congr_right List.mem_append

theorem Furthers.trans (hfirst : start.Furthers first middle)
    (hsecond : middle.Furthers second final) : start.Furthers (first.and second) final where
  provides := by
    obtain ⟨provides, hkept⟩ := hfirst
    obtain ⟨later, hlinked⟩ := hsecond
    -- what still has no linked class at the end had none before, so it waited
    have hwaited : ∀ entry, start.Awaits first entry → final.classForName? entry.1 = none →
        entry ∈ middle.system.statics := by
      intro entry awaits hnone
      refine (provides.waits entry).mpr ⟨awaits, ?_⟩
      rw [Option.eq_none_iff_forall_ne_some]
      intro cls hcls
      cases hnone.symm.trans (hlinked _ cls hcls)
    constructor
    · exact fun object h => later.stay object (provides.stay object h)
    · intro object hobject
      have hor : object ∈ first.literals ++ first.instances ∨
          object ∈ second.literals ++ second.instances := by
        simp only [Dealings.and, List.mem_append] at hobject ⊢
        tauto
      rcases hor with hmade | hmade
      · obtain ⟨hnew, hhas⟩ := provides.made object hmade
        exact ⟨hnew, later.stay object hhas⟩
      · obtain ⟨hnew, hhas⟩ := later.made object hmade
        exact ⟨fun hbefore => hnew (provides.stay object hbefore), hhas⟩
    · intro entry hentry
      rcases List.mem_append.mp hentry with hearlier | hlater
      · exact later.stay _ (provides.exist entry hearlier)
      · exact later.exist entry hlater
    · intro entry
      rw [later.waits, awaits_and]
      constructor
      · rintro ⟨hwaits | hnew, hnone⟩
        · exact ⟨.inl ((provides.waits entry).mp hwaits).1, hnone⟩
        · exact ⟨.inr hnew, hnone⟩
      · rintro ⟨awaits | hnew, hnone⟩
        · exact ⟨.inl (hwaited entry awaits hnone), hnone⟩
        · exact ⟨.inr hnew, hnone⟩
    · exact fun object cls h => later.kept object cls (provides.kept object cls h)
    · intro present name object cls awaits hcls
      have hmiddle := provides.present present
      rcases (awaits_and _).mp awaits with awaits | hnew
      · cases hhome : middle.classForName? name with
        | none =>
          exact later.bound hmiddle name object cls
            (.inl ((provides.waits _).mpr ⟨awaits, hhome⟩)) hcls
        | some home =>
          obtain ⟨own, hown⟩ := provides.bound present name object home awaits hhome
          exact ⟨own, later.kept object own hown⟩
      · exact later.bound hmiddle name object cls (.inr hnew) hcls
    · intro object cls hmade hcls
      have hnone : object ∉ first.instances ∧ object ∉ second.instances := by
        rw [← not_or, ← List.mem_append]
        exact hmade
      rcases later.origin object cls hnone.2 hcls with hbefore | ⟨name, hwaits | hnew, hhome⟩
      · rcases provides.origin object cls hnone.1 hbefore with hstart | ⟨name, awaits, hhome⟩
        · exact .inl hstart
        · exact .inr ⟨name, (awaits_and _).mpr (.inl awaits), hlinked name cls hhome⟩
      · exact .inr ⟨name, (awaits_and _).mpr (.inl ((provides.waits _).mp hwaits).1), hhome⟩
      · exact .inr ⟨name, (awaits_and _).mpr (.inr hnew), hhome⟩
  linked name cls h := hsecond.linked name cls (hfirst.linked name cls h)

end Session

end LateBinding
