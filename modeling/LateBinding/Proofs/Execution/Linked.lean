import LateBinding.Proofs.Execution.Atomic
import LateBinding.Proofs.Registry.Lineage

/-!
# The classes that an operation links

Registering a class and loading a unit reply with the pairs of the classes that linked. These are
the classes that are linked afterwards and were not linked before, all of them and no others.
-/

namespace LateBinding

/-- The classes of a list are linked in the second registry and were not linked in the first, where
all that are linked stay so. -/
structure Registry.LinksAnew (start final : Registry) (linked : List ClassId) : Prop where
  kept : ∀ id, start.IsLinked id → final.IsLinked id
  mem_iff : ∀ id, id ∈ linked ↔ final.IsLinked id ∧ ¬ start.IsLinked id

/-- The class of a pair is linked in the second registry and was not linked in the first. -/
def Registry.LinksPair (start final : Registry) (pair : PairId) : Prop :=
  ∃ id record, final.record? id = some record ∧ record.pair = pair ∧ record.state ≠ .pending ∧
    ¬ start.IsLinked id

theorem Registry.not_linksPair_self (start : Registry) (pair : PairId) :
    ¬ start.LinksPair start pair := by
  rintro ⟨id, record, hrecord, -, hlinked, hnot⟩
  exact hnot ⟨record, hrecord, hlinked⟩

namespace Registry.LinksAnew

variable {start middle final : Registry} {linked others : List ClassId}

theorem of_isLinked_iff (h : ∀ id, final.IsLinked id ↔ start.IsLinked id) :
    start.LinksAnew final [] where
  kept id := (h id).mpr
  mem_iff id := iff_of_false List.not_mem_nil fun ⟨hfinal, hstart⟩ => hstart ((h id).mp hfinal)

theorem trans (first : start.LinksAnew middle linked) (second : middle.LinksAnew final others) :
    start.LinksAnew final (linked ++ others) where
  kept id h := second.kept id (first.kept id h)
  mem_iff id := by
    rw [List.mem_append, first.mem_iff, second.mem_iff]
    constructor
    · rintro (⟨hmiddle, hstart⟩ | ⟨hfinal, hmiddle⟩)
      · exact ⟨second.kept id hmiddle, hstart⟩
      · exact ⟨hfinal, fun hstart => hmiddle (first.kept id hstart)⟩
    · rintro ⟨hfinal, hstart⟩
      by_cases hmiddle : middle.IsLinked id
      · exact .inl ⟨hmiddle, hstart⟩
      · exact .inr ⟨hfinal, hmiddle⟩

end Registry.LinksAnew

theorem Classes.Registers.linksAnew {start final : Classes} {definition : ClassDefinition}
    {order : List ClassId} (registers : start.Registers definition order final) :
    start.registry.LinksAnew final.registry order where
  kept id h := (registers.isLinked_iff id).mpr (.inl h)
  mem_iff id := by
    rw [registers.isLinked_iff]
    constructor
    · exact fun hid => ⟨.inr hid, registers.links_once.2 id hid⟩
    · exact fun ⟨hfinal, hstart⟩ => hfinal.resolve_left hstart

namespace Act

variable {policy : CategoryConflictPolicy} {start : Session}

theorem enterClass_linksAnew (spec : ClassSpec) (atRest : start.AtRest policy)
    (hfree : start.system.registry.idOf? spec.name = none) :
    (enterClass spec).Leads True start fun answer final =>
      start.system.registry.LinksAnew final.system.registry answer.2 := by
  refine (enterClass_registers spec atRest hfree).mono ?_
  rintro answer final ⟨defined, definition, -, hregistry, -, -, registers⟩
  rw [← hregistry]
  exact registers.linksAnew

theorem enterClasses_linksAnew {specs : List ClassSpec} (atRest : start.AtRest policy)
    (hnodup : (specs.map (·.name)).Nodup)
    (hfree : ∀ spec ∈ specs, start.system.registry.idOf? spec.name = none) :
    (enterClasses specs).Leads True start fun linked final =>
      start.system.registry.LinksAnew final.system.registry linked := by
  induction specs generalizing start with
  | nil => exact .of_isLinked_iff fun _ => Iff.rfl
  | cons spec rest ih =>
    rw [List.map_cons, List.nodup_cons] at hnodup
    have hhere := hfree spec List.mem_cons_self
    rw [enterClasses_cons, leads_bind]
    refine ((enterClass_leads spec atRest hhere).and
      (enterClass_linksAnew spec atRest hhere)).mono ?_
    rintro answer entered ⟨⟨hentered, hnames⟩, hhead⟩
    rw [leads_map]
    exact (ih hentered hnodup.2 (free_of_enterClass hnodup.1 hfree hnames)).mono
      fun _ _ hrest => hhead.trans hrest

/-- The pairs of the classes that linked, and the registry that they are in. -/
theorem finishLinking_linksPair {before : Registry} {linked : List ClassId}
    (linksAnew : before.LinksAnew start.system.registry linked) :
    (finishLinking linked).Leads True start fun pairs final =>
      final.system.registry = start.system.registry ∧
        ∀ pair, pair ∈ pairs ↔ before.LinksPair start.system.registry pair := by
  have hkeeps : ∀ pairs : List PairId, (pairs.forM bindWaiting).Keeps fun session =>
      session.system.registry = start.system.registry := fun pairs =>
    Keeps.forM fun pair => keeps_bindWaiting (fun _ _ same h => same.registry.trans h) pair
  rw [finishLinking, leads_bind, pairsOf, leads_bind, leads_get, leads_pure, leads_bind]
  refine (hkeeps _ start rfl).mono ?_
  intro _ final hregistry
  refine ⟨hregistry, ?_⟩
  intro pair
  simp only [List.mem_filterMap, Option.map_eq_some_iff, linksAnew.mem_iff]
  constructor
  · rintro ⟨id, ⟨⟨record, hrecord, hlinked⟩, hnot⟩, own, hown, rfl⟩
    cases hrecord.symm.trans hown
    exact ⟨id, record, hrecord, rfl, hlinked, hnot⟩
  · rintro ⟨id, record, hrecord, rfl, hlinked, hnot⟩
    exact ⟨id, ⟨⟨record, hrecord, hlinked⟩, hnot⟩, record, hrecord, rfl⟩

theorem applyCategory_linksAnew {before : Registry} {linked : List ClassId} (spec : CategorySpec)
    (atRest : start.AtRest policy)
    (linksAnew : before.LinksAnew start.system.registry linked) :
    (applyCategory spec).Leads True start fun _ final =>
      before.LinksAnew final.system.registry linked := by
  rw [applyCategory, leads_bind]
  refine ((keeps_defineMethods keeps_atRest_of_same spec.methods) start ⟨atRest, rfl⟩).mono ?_
  rintro methods defined ⟨hdefined, hregistry⟩
  rw [leads_onClasses]
  refine (Linking.applyCategory_leads hdefined.consistent (.inl trivial)).mono ?_
  intro status classes applies
  have hsame : start.system.registry.LinksAnew classes.registry [] := by
    rw [← hregistry]
    exact .of_isLinked_iff applies.isLinked_iff
  have hlinks := linksAnew.trans hsame
  rwa [List.append_nil] at hlinks

/-- Categories and static instances have nothing to do with who is linked. -/
theorem finishUnit_linksPair {before : Registry} {linked : List ClassId} (unit : LoadUnit)
    (classes : List ClassSpec) (categories : List CategorySpec) (atRest : start.AtRest policy)
    (linksAnew : before.LinksAnew start.system.registry linked) :
    (finishUnit unit classes categories linked).Leads True start fun answer final =>
      ∀ pair, pair ∈ answer.2 ↔ before.LinksPair final.system.registry pair := by
  have hcategory : ∀ category, (applyCategory category).Keeps fun session =>
      session.AtRest policy ∧ before.LinksAnew session.system.registry linked := by
    rintro category session ⟨hsession, hlinks⟩
    exact (keeps_applyCategory category session hsession).and
      (applyCategory_linksAnew category hsession hlinks)
  rw [finishUnit, leads_bind]
  refine (Keeps.mapM hcategory start ⟨atRest, linksAnew⟩).mono ?_
  rintro statuses applied ⟨-, happlied⟩
  rw [leads_bind]
  refine (finishLinking_linksPair happlied).mono ?_
  rintro pairs finished ⟨hfinished, hpairs⟩
  have hstatics : ∀ group, (createStatics group).Keeps fun session =>
      session.system.registry = finished.system.registry :=
    keeps_createStatics fun _ _ same h => same.registry.trans h
  rw [leads_bind]
  refine (Keeps.mapM hstatics finished rfl).mono ?_
  intro statics made hmade
  rw [← hfinished, ← hmade] at hpairs
  simp only [leads_bind, leads_get, leads_report, leads_pure]
  exact hpairs

theorem register_linksPair (spec : ClassSpec) (atRest : start.AtRest policy) :
    (register spec).Leads True start fun reply final => ∀ made pairs, reply = .ok (made, pairs) →
      ∀ pair, pair ∈ pairs ↔
        start.system.registry.LinksPair final.system.registry pair := by
  rw [register, leads_bind, leads_get]
  split
  · intro _ _ h
    cases h
  · next hfree =>
    rw [leads_bind]
    refine (enterClass_linksAnew spec atRest (Option.not_isSome_iff_eq_none.mp hfree)).mono ?_
    intro answer entered linksAnew
    rw [leads_bind]
    refine (finishLinking_linksPair linksAnew).mono ?_
    rintro pairs final ⟨hregistry, hpairs⟩ made others heq
    cases heq
    rwa [← hregistry] at hpairs

theorem load_linksPair (unit : LoadUnit) (imps : String → Option Imp)
    (atRest : start.AtRest policy) :
    (load unit imps).Leads True start fun reply final => ∀ answer, reply = .ok answer →
      ∀ pair, pair ∈ answer.2 ↔
        start.system.registry.LinksPair final.system.registry pair := by
  rw [load, leads_bind, leads_get]
  cases hresolve : unit.resolve imps start.system.registry with
  | error error =>
    intro _ h
    cases h
  | ok declared =>
    obtain ⟨classes, categories⟩ := declared
    obtain ⟨hnodup, hfree⟩ := LoadUnit.resolve_names hresolve
    dsimp only
    rw [execute_eq, leads_bind, leads_bind]
    refine (keeps_selectors unit start ⟨atRest, rfl⟩).mono ?_
    rintro _ interned ⟨hinterned, hregistry⟩
    rw [← hregistry] at hfree ⊢
    rw [leads_bind]
    refine ((enterClasses_leads hinterned hnodup hfree).and
      (enterClasses_linksAnew hinterned hnodup hfree)).mono ?_
    rintro linked entered ⟨hentered, linksAnew⟩
    refine (finishUnit_linksPair unit classes categories hentered linksAnew).mono ?_
    rintro answer final hpairs other heq
    cases heq
    exact hpairs

end Act

/-- Whoever linked has a link. -/
theorem Classes.Settled.link_of_linksPair {classes : Classes} (settled : classes.Settled)
    {before : Registry} {pair : PairId} (hlinks : before.LinksPair classes.registry pair) :
    (classes.heap.pair pair).link ≠ none := by
  obtain ⟨id, record, hrecord, rfl, hlinked, -⟩ := hlinks
  obtain ⟨order, lineage⟩ := settled
  have hmem := (lineage.linked id record.seat (Registry.seat?_of_record hrecord)).mp
    (decide_eq_true hlinked)
  exact (lineage.inOrder.mem_iff record.pair).mp hmem

/-! ### Registering and loading up to the initializers -/

/-- What registering or loading does before the initializers run: the session that it leads to, and
the reply. -/
inductive Request.Enters (start : Session) :
    (request : Request) → request.Reply → Session → Prop
  | register {spec : ClassSpec} {outcome : Except RegistryError (PairId × List PairId)}
      {entered : Session} (run : Act.register spec start = .ok outcome entered) :
      Enters start (.register spec) (outcome.map fun (made, _) => ⟨made, .plain⟩) entered
  | load {unit : LoadUnit} {imps : String → Option Imp}
      {outcome : Except LoadError (LoadReport × List PairId)} {entered : Session}
      (run : Act.load unit imps start = .ok outcome entered) :
      Enters start (.load unit imps) (outcome.map Prod.fst) entered
  | loadBytes {bytes : List UInt8} {unit : LoadUnit} {imps : String → Option Imp}
      {outcome : Except LoadError (LoadReport × List PairId)} {entered : Session}
      (decodes : LoadUnit.decode bytes = .ok unit)
      (run : Act.load unit imps start = .ok outcome entered) :
      Enters start (.loadBytes bytes imps) (outcome.map Prod.fst) entered
  | undecoded {bytes : List UInt8} {imps : String → Option Imp} {error : UnitError}
      (fails : LoadUnit.decode bytes = .error error) :
      Enters start (.loadBytes bytes imps) (.error (.invalid error)) start

/-- Whether a request may link classes. -/
def Request.links : Request → Bool
  | .register _ | .load .. | .loadBytes .. => true
  | .send _ | .sendSuper .. | .call .. => false

/-- There is only one session and one reply. -/
theorem Request.Enters.unique {start entered other : Session} {request : Request}
    {reply another : request.Reply} (enters : request.Enters start reply entered)
    (entersOther : request.Enters start another other) : reply = another ∧ entered = other := by
  cases enters with
  | register hrun =>
    cases entersOther with
    | register hother =>
      cases hrun.symm.trans hother
      exact ⟨rfl, rfl⟩
  | load hrun =>
    cases entersOther with
    | load hother =>
      cases hrun.symm.trans hother
      exact ⟨rfl, rfl⟩
  | loadBytes hdecode hrun =>
    cases entersOther with
    | loadBytes hother hrunOther =>
      cases hdecode.symm.trans hother
      cases hrun.symm.trans hrunOther
      exact ⟨rfl, rfl⟩
    | undecoded hfails => cases hdecode.symm.trans hfails
  | undecoded hfails =>
    cases entersOther with
    | loadBytes hother _ => cases hfails.symm.trans hother
    | undecoded hother =>
      cases hfails.symm.trans hother
      exact ⟨rfl, rfl⟩

theorem Request.Enters.links {start entered : Session} {request : Request} {reply : request.Reply}
    (enters : request.Enters start reply entered) : request.links = true := by
  cases enters <;> rfl

end LateBinding
