import LateBinding.Proofs.Registry.Relocation
import LateBinding.Proofs.Selectors.Bisimulation
import LateBinding.Proofs.System.Matching

/-!
# Sessions that mirror one another

One session *mirrors* another if its classes are those of the other in another heap, and its selectors
cannot be told from those of the other. Actions that concern classes and selectors only answer alike
in both, but for the identities of pairs, and lead to sessions that mirror one another again.
-/

namespace LateBinding

/-! ### Mirroring sessions -/

/-- One session mirrors another: it has the same classes in another heap, and its waiting static
instances are what `queue` makes of those of the other. -/
structure Session.Mirrors (relocation : Relocation) (alike : SelectorTable → SelectorTable → Prop)
    (queue : StaticQueue → StaticQueue) (session image : Session) : Prop where
  classes : image.classes = relocation.classes session.classes
  selectors : alike session.system.selectors image.system.selectors
  statics : image.system.statics = queue session.system.statics
  forward : image.system.forward = session.system.forward
  options : image.system.options = session.system.options

namespace Act

variable {α β : Type} {session image : Session}

/-! ### Selectors -/

section

variable {relocation : Relocation} {alike : SelectorTable → SelectorTable → Prop}
  {queue : StaticQueue → StaticQueue}
  (bisimulation : SelectorTable.Bisimulation alike)
  (hmirrors : session.Mirrors relocation alike queue image)

include hmirrors

theorem matches_report (event : Event) :
    Matches (Session.Mirrors relocation alike queue) Eq session image (report event)
      (report (event.rename relocation.pair)) := by
  refine matches_modify { hmirrors with classes := ?_ }
  have hclasses := hmirrors.classes
  unfold Session.classes Relocation.classes at hclasses ⊢
  rw [Classes.mk.injEq] at hclasses ⊢
  refine ⟨hclasses.1, hclasses.2.1, ?_⟩
  rw [Array.map_push, hclasses.2.2]

theorem matches_reportConflict (conflict : Option TypeConflict) :
    Matches (Session.Mirrors relocation alike queue) Eq session image (reportConflict conflict)
      (reportConflict conflict) := by
  cases conflict with
  | none => exact matches_pure hmirrors rfl
  | some conflict => exact matches_report hmirrors (.typesIgnored conflict)

theorem matches_setSelectors {selectors others : SelectorTable} (halike : alike selectors others) :
    Matches (Session.Mirrors relocation alike queue) Eq session image
      (onSystem ({ · with selectors })) (onSystem ({ · with selectors := others })) :=
  matches_modify { hmirrors with selectors := halike }

include bisimulation

theorem matches_intern (name : String) (types : Option String) :
    Matches (Session.Mirrors relocation alike queue) Eq session image (intern name types)
      (intern name types) := by
  apply matches_get_bind
  have hintern := bisimulation.intern hmirrors.selectors name types
  revert hintern
  cases session.system.selectors.intern name types with
  | error reason =>
    cases image.system.selectors.intern name types with
    | error reason' => exact fun h => ⟨h, hmirrors⟩
    | ok answered' => exact False.elim
  | ok answered =>
    cases image.system.selectors.intern name types with
    | error reason' => exact False.elim
    | ok answered' =>
      obtain ⟨sel, selectors, conflict⟩ := answered
      obtain ⟨sel', selectors', conflict'⟩ := answered'
      rintro ⟨rfl, rfl, halike⟩
      refine (matches_setSelectors hmirrors halike).bind fun _ _ _ _ _ hstored => ?_
      exact (matches_reportConflict hstored conflict').bind fun _ _ _ _ _ hfinal =>
        matches_pure hfinal rfl

theorem matches_internAll (names : List String) :
    Matches (Session.Mirrors relocation alike queue) Eq session image (internAll names)
      (internAll names) := by
  apply matches_get_bind
  have hintern := bisimulation.internAll hmirrors.selectors names
  revert hintern
  cases session.system.selectors.internAll names with
  | error reason =>
    cases image.system.selectors.internAll names with
    | error reason' => exact fun h => ⟨h, hmirrors⟩
    | ok answered' => exact False.elim
  | ok answered =>
    cases image.system.selectors.internAll names with
    | error reason' => exact False.elim
    | ok answered' =>
      obtain ⟨sel, selectors⟩ := answered
      obtain ⟨sel', selectors'⟩ := answered'
      rintro ⟨rfl, halike⟩
      exact (matches_setSelectors hmirrors halike).bind fun _ _ _ _ _ hfinal =>
        matches_pure hfinal rfl

theorem matches_reconcile (sel : Sel) (types : Option String) :
    Matches (Session.Mirrors relocation alike queue) Eq session image (reconcile sel types)
      (reconcile sel types) := by
  apply matches_get_bind
  obtain ⟨hconflict, halike⟩ := bisimulation.reconcile hmirrors.selectors sel types
  dsimp only
  rw [hconflict]
  exact (matches_setSelectors hmirrors halike).bind fun _ _ _ _ _ hstored =>
    matches_reportConflict hstored _

theorem matches_defineMethods (methods : Sided (List MethodSpec)) :
    Matches (Session.Mirrors relocation alike queue) Eq session image (defineMethods methods)
      (defineMethods methods) := by
  have hlist : ∀ {list list' : List MethodDefinition}, List.Forall₂ Eq list list' → list = list' :=
    fun h => List.forall₂_eq_eq_eq ▸ h
  have hmethods : ∀ (list : List MethodSpec) {middle middle' : Session},
      middle.Mirrors relocation alike queue middle' →
        Matches (Session.Mirrors relocation alike queue) Eq middle middle'
          (list.mapM defineMethod) (list.mapM defineMethod) := by
    intro list middle middle' hmiddle
    have hsame : List.Forall₂ Eq list list := List.forall₂_eq_eq_eq ▸ rfl
    refine (matches_mapM hsame hmiddle ?_).mono fun _ _ => hlist
    rintro method _ start start' rfl hstart
    refine (matches_intern bisimulation hstart method.name _).bind ?_
    rintro sel _ final final' rfl hfinal
    exact matches_pure hfinal rfl
  refine (hmethods methods.plain hmirrors).bind ?_
  rintro plain _ middle middle' rfl hmiddle
  refine (hmethods methods.metaclass hmiddle).bind ?_
  rintro metaclass _ final final' rfl hfinal
  exact matches_pure hfinal rfl

end

/-! ### Classes -/

section

variable {relocation : Relocation} {alike : SelectorTable → SelectorTable → Prop}
  {queue : StaticQueue → StaticQueue}

theorem onClasses_eq (change : Linking α) (session : Session) :
    onClasses change session =
      match change session.classes with
      | .ok (answer, classes) => .ok answer (session.withClasses classes)
      | .error reason => .error reason session := by
  unfold onClasses StateT.run
  have hclasses : Classes.mk session.heap session.system.registry session.log = session.classes :=
    rfl
  dsimp only
  rw [hclasses]
  cases change session.classes <;> rfl

variable (hmirrors : session.Mirrors relocation alike queue image)

include hmirrors

theorem matches_onClasses {change : Linking α} {other : Linking β} {g : α → β}
    (htracks : change.Tracks relocation g session.classes other) :
    Matches (Session.Mirrors relocation alike queue) (fun answer answer' => answer' = g answer)
      session image (onClasses change) (onClasses other) := by
  unfold Matches
  rw [onClasses_eq, onClasses_eq, hmirrors.classes, htracks]
  cases change session.classes with
  | error reason => exact ⟨rfl, hmirrors⟩
  | ok answered => exact ⟨rfl, rfl, hmirrors.selectors, hmirrors.statics, hmirrors.forward,
      hmirrors.options⟩

theorem idOf?_eq (name : String) :
    image.system.registry.idOf? name = session.system.registry.idOf? name :=
  congrArg (·.registry.idOf? name) hmirrors.classes

theorem resolve_eq (cls : ClassRef) :
    image.system.registry.resolve image.heap (cls.rename relocation.pair) =
      session.system.registry.resolve session.heap cls := by
  have hclasses := hmirrors.classes
  have hheap : image.heap = relocation.heap session.heap := congrArg Classes.heap hclasses
  have hregistry : image.system.registry = session.system.registry.rename relocation.pair :=
    congrArg Classes.registry hclasses
  unfold Registry.resolve ClassRef.rename
  rw [hheap, hregistry]
  dsimp only
  have hid : ((session.heap.pair cls.pair).rename relocation.pair).id =
      (session.heap.pair cls.pair).id := rfl
  rw [relocation.pair_heap, Registry.record?_rename, hid]
  cases session.system.registry.record? (session.heap.pair cls.pair).id with
  | none => rfl
  | some record =>
    have hpair : (record.rename relocation.pair).pair = relocation.pair cls.pair ↔
        record.pair = cls.pair := relocation.injective.eq_iff
    simp only [Option.map_some, hpair]
    rfl

variable (bisimulation : SelectorTable.Bisimulation alike)

include bisimulation

theorem matches_enterClass (spec : ClassSpec) :
    Matches (Session.Mirrors relocation alike queue)
      (fun entered entered' => entered' = (relocation.pair entered.1, entered.2)) session image
      (enterClass spec) (enterClass spec) := by
  refine (matches_defineMethods bisimulation hmirrors spec.methods).bind ?_
  rintro methods _ middle middle' rfl hmiddle
  exact matches_onClasses hmiddle (Linking.tracks_register _)

theorem matches_applyCategory (spec : CategorySpec) :
    Matches (Session.Mirrors relocation alike queue) Eq session image (applyCategory spec)
      (applyCategory spec) := by
  refine (matches_defineMethods bisimulation hmirrors spec.methods).bind ?_
  rintro methods _ middle middle' rfl hmiddle
  exact (matches_onClasses hmiddle (Linking.tracks_applyCategory _)).mono fun _ _ => Eq.symm

theorem matches_resolveMethod (cls : ClassRef) (sel : Sel) (imp : Imp) (types : Option String) :
    Matches (Session.Mirrors relocation alike queue) Eq session image
      (resolveMethod cls sel imp types) (resolveMethod (cls.rename relocation.pair) sel imp types) := by
  apply matches_get_bind
  have hcontains := bisimulation.contains hmirrors.selectors sel
  rw [resolve_eq hmirrors, hcontains]
  cases session.system.registry.resolve session.heap cls with
  | error error => exact matches_pure hmirrors rfl
  | ok id =>
    dsimp only
    split
    · exact (matches_reconcile bisimulation hmirrors sel _).bind fun _ _ _ _ _ hfinal =>
        matches_pure hfinal rfl
    · exact matches_pure hmirrors rfl

theorem matches_addMethod (cls : ClassRef) (sel : Sel) (imp : Imp) (types : Option String) :
    Matches (Session.Mirrors relocation alike queue) Eq session image
      (addMethod cls sel imp types) (addMethod (cls.rename relocation.pair) sel imp types) := by
  refine (matches_resolveMethod hmirrors bisimulation cls sel imp types).bind ?_
  rintro (error | ⟨id, definition⟩) _ middle middle' rfl hmiddle
  · exact matches_pure hmiddle rfl
  · refine (matches_onClasses hmiddle (Linking.tracks_addMethod id cls.kind definition)).bind ?_
    rintro added _ final final' rfl hfinal
    exact matches_pure hfinal rfl

theorem matches_replaceMethod (cls : ClassRef) (sel : Sel) (imp : Imp) (types : Option String) :
    Matches (Session.Mirrors relocation alike queue) Eq session image
      (replaceMethod cls sel imp types)
      (replaceMethod (cls.rename relocation.pair) sel imp types) := by
  refine (matches_resolveMethod hmirrors bisimulation cls sel imp types).bind ?_
  rintro (error | ⟨id, definition⟩) _ middle middle' rfl hmiddle
  · exact matches_pure hmiddle rfl
  · refine (matches_onClasses hmiddle (Linking.tracks_replaceMethod id cls.kind definition)).bind ?_
    rintro replaced _ final final' rfl hfinal
    exact matches_pure hfinal rfl

omit bisimulation in
theorem matches_unregister (name : String) :
    Matches (Session.Mirrors relocation alike queue)
      (fun reply reply' => reply' = reply.map (List.map relocation.pair)) session image
      (unregister name) (unregister name) := by
  apply matches_get_bind
  rw [idOf?_eq hmirrors]
  cases session.system.registry.idOf? name with
  | none => exact matches_pure hmirrors rfl
  | some id =>
    refine (matches_onClasses hmirrors (Linking.tracks_unregister id)).bind ?_
    rintro pairs _ final final' rfl hfinal
    exact matches_pure hfinal rfl

omit bisimulation in
theorem matches_setForward (handler : Option Imp) :
    Matches (Session.Mirrors relocation alike queue) Eq session image (setForward handler)
      (setForward handler) :=
  matches_modify { hmirrors with forward := rfl }

end

end Act

end LateBinding
