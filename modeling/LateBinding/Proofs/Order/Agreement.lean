import LateBinding.Proofs.Order.Naming
import LateBinding.Proofs.Order.Declarations
import LateBinding.Proofs.System.Report
import LateBinding.Proofs.System.Sound
import LateBinding.Proofs.Tables.Resolution

/-!
# Systems with the same classes by name

Two systems at rest whose classes have the same definitions by name are linked in the same places:
a class is linked exactly if its chain of superclasses is complete, and chains are followed by name.
So the chains are the same by name, and with them all that is found along the chains.
-/

namespace LateBinding

/-- What walking up a chain of classes finds for a name. -/
def NamedClass.walkUp (policy : CategoryConflictPolicy) (kind : ClassKind)
    (chain : List NamedClass) (message : String) : Option Imp :=
  let found := chain.findSome? fun cls => cls.implementation? policy kind message
  match kind with
  | .plain => found
  | .metaclass =>
    found.or (chain.getLast?.bind fun root => root.implementation? policy .plain message)

section

variable {table : SelectorTable} {message : String}

theorem walkUp_eq_named (sound : table.Sound) {sel : Sel} (hsel : table.name? sel = some message)
    (policy : CategoryConflictPolicy) (kind : ClassKind) (chain : List Record) :
    walkUp policy kind chain sel =
      NamedClass.walkUp policy kind (chain.map (·.content.named table)) message := by
  have hown : ∀ kind, (fun record : Record => record.implementation? policy kind sel) =
      fun record => (record.content.named table).implementation? policy kind message := by
    intro kind
    funext record
    exact record.implementation?_eq_named sound hsel policy kind
  unfold walkUp NamedClass.walkUp
  cases kind with
  | plain =>
    simp only [hown, List.findSome?_map]
    rfl
  | metaclass =>
    simp only [hown, List.findSome?_map, List.getLast?_map, Option.bind_map]
    rfl

theorem lastNamed?_eq_none (hunknown : ∀ sel, table.name? sel ≠ some message)
    (methods : List MethodDefinition) :
    lastNamed? (methods.map (·.named table)) message = none := by
  rw [lastNamed?, Option.map_eq_none_iff, List.findRev?_eq_find?_reverse, List.find?_eq_none]
  intro method hmethod
  rw [List.mem_reverse] at hmethod
  obtain ⟨definition, -, rfl⟩ := List.mem_map.mp hmethod
  have hne : (definition.named table).name ≠ some message := hunknown definition.sel
  simpa using hne

theorem implementation?_named_eq_none (hunknown : ∀ sel, table.name? sel ≠ some message)
    (record : Record) (policy : CategoryConflictPolicy) (kind : ClassKind) :
    (record.content.named table).implementation? policy kind message = none := by
  have hcategory : ∀ category ∈ (record.content.named table).categories,
      lastNamed? (category.methods.get kind) message = none := by
    intro category hmem
    obtain ⟨definition, -, rfl⟩ := List.mem_map.mp hmem
    rw [CategoryDefinition.named, Sided.get_map]
    exact lastNamed?_eq_none hunknown _
  have hstrongest : ∀ category,
      (record.content.named table).strongest? policy kind message = some category →
      category ∈ (record.content.named table).categories := by
    intro category hfound
    unfold NamedClass.strongest? at hfound
    cases policy with
    | lastApplied =>
      dsimp only at hfound
      rw [List.findRev?_eq_find?_reverse] at hfound
      exact List.mem_reverse.mp (List.mem_of_find?_eq_some hfound)
    | firstApplied => exact List.mem_of_find?_eq_some hfound
  rw [NamedClass.implementation?]
  cases hfound : (record.content.named table).strongest? policy kind message with
  | some category => exact hcategory category (hstrongest category hfound)
  | none =>
    dsimp only
    rw [Content.named, Sided.get_map]
    exact lastNamed?_eq_none hunknown _

theorem walkUp_named_eq_none (hunknown : ∀ sel, table.name? sel ≠ some message)
    (policy : CategoryConflictPolicy) (kind : ClassKind) (chain : List Record) :
    NamedClass.walkUp policy kind (chain.map (·.content.named table)) message = none := by
  have hnone := fun record => implementation?_named_eq_none hunknown record policy
  have hfound : (chain.map (·.content.named table)).findSome?
      (fun cls => cls.implementation? policy kind message) = none := by
    rw [List.findSome?_eq_none_iff]
    intro cls hcls
    obtain ⟨record, -, rfl⟩ := List.mem_map.mp hcls
    exact hnone record kind
  unfold NamedClass.walkUp
  rw [hfound]
  cases kind with
  | plain => rfl
  | metaclass =>
    dsimp only
    rw [Option.none_or, List.getLast?_map, Option.bind_map, Option.bind_eq_none_iff]
    intro record _
    exact hnone record .plain

end

namespace Session

variable {policy : CategoryConflictPolicy} {first second session : Session}

/-- Two sessions at rest have the same classes by name. -/
structure Alike (policy : CategoryConflictPolicy) (first second : Session) : Prop where
  atRest : first.AtRest policy
  otherAtRest : second.AtRest policy
  sound : first.system.selectors.Sound
  otherSound : second.system.selectors.Sound
  registered : ∀ name, first.system.registry.idOf? name = none ↔
    second.system.registry.idOf? name = none
  contents : ∀ id record other another, first.system.registry.record? id = some record →
    second.system.registry.record? other = some another → record.name = another.name →
    record.content.named first.system.selectors = another.content.named second.system.selectors

theorem Alike.symm (alike : Alike policy first second) : Alike policy second first where
  atRest := alike.otherAtRest
  otherAtRest := alike.atRest
  sound := alike.otherSound
  otherSound := alike.sound
  registered name := (alike.registered name).symm
  contents id record other another hrecord hanother hname :=
    (alike.contents other another id record hanother hrecord hname.symm).symm

theorem AtRest.idOf?_eq_some_iff (atRest : session.AtRest policy) (name : String) (id : ClassId) :
    session.system.registry.idOf? name = some id ↔
      ∃ record, session.system.registry.record? id = some record ∧ record.name = name := by
  rw [show session.system.registry.idOf? name = some id ↔ _ from
    atRest.consistent.names name id]
  simp [Registry.standing?, Record.standing, Session.classes]

theorem Alike.exists_record (alike : Alike policy first second) {id : ClassId} {record : Record}
    (hrecord : first.system.registry.record? id = some record) :
    ∃ other another, second.system.registry.record? other = some another ∧
      second.system.registry.idOf? record.name = some other ∧
      another.name = record.name ∧ another.superclassName = record.superclassName := by
  have hid := (alike.atRest.idOf?_eq_some_iff record.name id).mpr ⟨record, hrecord, rfl⟩
  cases hother : second.system.registry.idOf? record.name with
  | none =>
    rw [(alike.registered record.name).mpr hother] at hid
    cases hid
  | some other =>
    obtain ⟨another, hanother, hname⟩ :=
      (alike.otherAtRest.idOf?_eq_some_iff record.name other).mp hother
    have hsame := alike.contents id record other another hrecord hanother hname.symm
    exact ⟨other, another, hanother, rfl, hname, (congrArg NamedClass.superclassName hsame).symm⟩

/-! ### Linked classes -/

theorem Alike.complete (alike : Alike policy first second) {id other : ClassId}
    (complete : first.system.registry.Complete id) {record another : Record}
    (hrecord : first.system.registry.record? id = some record)
    (hanother : second.system.registry.record? other = some another)
    (hname : record.name = another.name) : second.system.registry.Complete other := by
  have hsuper : ∀ {id other : ClassId} {record another : Record},
      first.system.registry.record? id = some record →
      second.system.registry.record? other = some another → record.name = another.name →
      another.superclassName = record.superclassName := by
    intro id other record another hrecord hanother hname
    have hsame := alike.contents id record other another hrecord hanother hname
    exact (congrArg NamedClass.superclassName hsame).symm
  -- superclasses are followed by name
  induction complete generalizing other record another with
  | @root id own registered top =>
    cases registered.symm.trans hrecord
    exact .root hanother ((hsuper hrecord hanother hname).trans top)
  | @under id parent own awaited registered hawaited known above ih =>
    cases registered.symm.trans hrecord
    obtain ⟨upper, hupper, hupperName⟩ :=
      (alike.atRest.idOf?_eq_some_iff awaited parent).mp known
    obtain ⟨otherParent, otherUpper, hotherUpper, hknown, hotherName, -⟩ :=
      alike.exists_record hupper
    rw [hupperName] at hknown
    exact .under hanother ((hsuper hrecord hanother hname).trans hawaited) hknown
      (ih hupper hotherUpper hotherName.symm)

theorem AtRest.linked_iff_complete (atRest : session.AtRest policy) {id : ClassId}
    {record : Record} (hrecord : session.system.registry.record? id = some record) :
    record.state ≠ .pending ↔ session.system.registry.Complete id := by
  have hstanding : session.system.registry.standing? id = some record.standing := by
    rw [Registry.standing?, hrecord, Option.map_some]
  constructor
  · intro hlinked
    exact Registry.Consistent.complete_of_linked atRest.consistent hstanding hlinked
  · intro complete
    exact Registry.Consistent.linked_of_complete atRest.consistent complete hrecord

theorem Alike.linked_iff (alike : Alike policy first second) {id other : ClassId}
    {record another : Record} (hrecord : first.system.registry.record? id = some record)
    (hanother : second.system.registry.record? other = some another)
    (hname : record.name = another.name) : record.state ≠ .pending ↔ another.state ≠ .pending := by
  rw [alike.atRest.linked_iff_complete hrecord, alike.otherAtRest.linked_iff_complete hanother]
  constructor
  · intro complete
    exact alike.complete complete hrecord hanother hname
  · intro complete
    exact alike.symm.complete complete hanother hrecord hname.symm

theorem Alike.pending_iff (alike : Alike policy first second) {id other : ClassId}
    {record another : Record} (hrecord : first.system.registry.record? id = some record)
    (hanother : second.system.registry.record? other = some another)
    (hname : record.name = another.name) : record.state = .pending ↔ another.state = .pending :=
  not_iff_not.mp (alike.linked_iff hrecord hanother hname)

theorem Alike.ancestry_eq (alike : Alike policy first second) {id other : ClassId}
    {chain otherChain : List Record} (ancestry : first.system.registry.Ancestry id chain)
    (otherAncestry : second.system.registry.Ancestry other otherChain) {record another : Record}
    (hrecord : first.system.registry.record? id = some record)
    (hanother : second.system.registry.record? other = some another)
    (hname : record.name = another.name) :
    chain.map (·.content.named first.system.selectors) =
      otherChain.map (·.content.named second.system.selectors) := by
  -- the chain of the one session is followed by name in the other
  induction ancestry generalizing other otherChain record another with
  | @root id own registered top =>
    cases registered.symm.trans hrecord
    have hsame := alike.contents id own other another hrecord hanother hname
    have hsuper : own.superclassName = another.superclassName :=
      congrArg NamedClass.superclassName hsame
    rw [(alike.atRest.consistent.superclassName_eq hrecord).1 top] at hsuper
    cases otherAncestry with
    | root otherRegistered _ =>
      cases otherRegistered.symm.trans hanother
      rw [List.map_singleton, List.map_singleton, hsame]
    | under otherRegistered linked above =>
      cases otherRegistered.symm.trans hanother
      obtain ⟨upper, rest, -, hupper, -⟩ := above.head
      rw [(alike.otherAtRest.consistent.superclassName_eq hanother).2 _ upper linked hupper] at hsuper
      cases hsuper
  | @under id parent own chain registered linked above ih =>
    cases registered.symm.trans hrecord
    have hsame := alike.contents id own other another hrecord hanother hname
    have hsuper : own.superclassName = another.superclassName :=
      congrArg NamedClass.superclassName hsame
    obtain ⟨upper, rest, -, hupper, -⟩ := above.head
    rw [(alike.atRest.consistent.superclassName_eq hrecord).2 parent upper linked hupper] at hsuper
    cases otherAncestry with
    | root otherRegistered top =>
      cases otherRegistered.symm.trans hanother
      rw [(alike.otherAtRest.consistent.superclassName_eq hanother).1 top] at hsuper
      cases hsuper
    | @under _ otherParent _ otherRest otherRegistered otherLinked otherAbove =>
      cases otherRegistered.symm.trans hanother
      obtain ⟨otherUpper, _, -, hotherUpper, -⟩ := otherAbove.head
      rw [(alike.otherAtRest.consistent.superclassName_eq hanother).2 otherParent otherUpper otherLinked
        hotherUpper] at hsuper
      rw [List.map_cons, List.map_cons, hsame,
        ih otherAbove hupper hotherUpper (Option.some.inj hsuper)]

theorem Alike.chain_eq (alike : Alike policy first second) {id other : ClassId}
    {record another : Record} (hrecord : first.system.registry.record? id = some record)
    (hanother : second.system.registry.record? other = some another)
    (hname : record.name = another.name) :
    (first.system.registry.chain id).map (·.content.named first.system.selectors) =
      (second.system.registry.chain other).map (·.content.named second.system.selectors) := by
  have hiff := alike.pending_iff hrecord hanother hname
  by_cases hstate : record.state = .pending
  · rw [Registry.chain_of_pending hrecord hstate,
      Registry.chain_of_pending hanother (hiff.mp hstate),
      List.map_singleton, List.map_singleton,
      alike.contents id record other another hrecord hanother hname]
  · have hlinked : another.state ≠ .pending := fun h => hstate (hiff.mpr h)
    exact alike.ancestry_eq (alike.atRest.hierarchy.ancestry_chain hrecord hstate)
      (alike.otherAtRest.hierarchy.ancestry_chain hanother hlinked) hrecord hanother hname

/-! ### What is seen by name -/

theorem Alike.states (alike : Alike policy first second) (name : String) :
    (first.system.registry.stateOf? name).map LinkState.name =
      (second.system.registry.stateOf? name).map LinkState.name := by
  rw [Registry.stateOf?, Registry.stateOf?]
  cases hid : first.system.registry.idOf? name with
  | none =>
    rw [(alike.registered name).mp hid]
    rfl
  | some id =>
    obtain ⟨record, hrecord, rfl⟩ := (alike.atRest.idOf?_eq_some_iff name id).mp hid
    obtain ⟨other, another, hanother, hother, hname, -⟩ := alike.exists_record hrecord
    have hiff := alike.pending_iff hrecord hanother hname.symm
    rw [hother, Option.bind_some, Option.bind_some, hrecord, hanother]
    cases hstate : record.state with
    | pending =>
      have hpending := hiff.mp hstate
      simp only [Option.map_some, hstate, hpending]
    | linked superclass =>
      have hlinked : another.state ≠ .pending := by
        rw [Ne, ← hiff, hstate]
        exact LinkState.noConfusion
      cases hanotherState : another.state with
      | pending => exact absurd hanotherState hlinked
      | linked => simp only [Option.map_some, hstate, hanotherState, LinkState.name]

theorem AtRest.resolve?_of_linked (atRest : session.AtRest policy)
    (sound : session.system.selectors.Sound) {id : ClassId} {record : Record}
    (hrecord : session.system.registry.record? id = some record) (hlinked : record.state ≠ .pending)
    (kind : ClassKind) (message : String) :
    session.resolve? record.name kind message =
      NamedClass.walkUp policy kind
        ((session.system.registry.chain id).map (·.content.named session.system.selectors))
        message := by
  have hid := (atRest.idOf?_eq_some_iff record.name id).mpr ⟨record, hrecord, rfl⟩
  have hcls : session.classForName? record.name = some ⟨record.pair, .plain⟩ :=
    (Registry.classForName?_eq_some_iff _ _).mpr ⟨id, record.content, hid,
      ⟨record, hrecord, hlinked⟩, Registry.content?_of_record hrecord, rfl⟩
  rw [resolve?, hcls, Option.bind_some]
  cases hlookup : session.system.selectors.lookup message with
  | ok sel =>
    have hsel := (sound.lookup_eq_ok_iff message sel).mp hlookup
    have ancestry := atRest.hierarchy.ancestry_chain hrecord hlinked
    obtain ⟨table, htable, hget⟩ := atRest.upToDate.exists_table ancestry hrecord kind
    have htable : session.heap.table? ⟨record.pair, kind⟩ = some table := htable
    dsimp only
    rw [Heap.lookup, htable, Option.bind_some, hget, atRest.policy_eq]
    exact walkUp_eq_named sound hsel policy kind _
  | error unknown =>
    have hunknown : ∀ sel, session.system.selectors.name? sel ≠ some message := by
      intro sel hsel
      rw [← sound.lookup_eq_ok_iff, hlookup] at hsel
      cases hsel
    exact (walkUp_named_eq_none hunknown policy kind _).symm

theorem AtRest.resolve?_of_pending (atRest : session.AtRest policy) {id : ClassId}
    {record : Record} (hrecord : session.system.registry.record? id = some record)
    (hpending : record.state = .pending) (kind : ClassKind) (message : String) :
    session.resolve? record.name kind message = none := by
  have hid := (atRest.idOf?_eq_some_iff record.name id).mpr ⟨record, hrecord, rfl⟩
  have hcls : session.classForName? record.name = none := by
    rw [classForName?, Registry.classForName?, hid, Option.bind_some, hrecord, Option.bind_some,
      Record.isLinked, hpending]
    rfl
  rw [resolve?, hcls, Option.bind_none]

theorem resolve?_of_unknown {name : String} (hid : session.system.registry.idOf? name = none)
    (kind : ClassKind) (message : String) : session.resolve? name kind message = none := by
  rw [resolve?, classForName?, Registry.classForName?, hid]
  rfl

theorem Alike.messages (alike : Alike policy first second) (name : String) (kind : ClassKind)
    (message : String) : first.resolve? name kind message = second.resolve? name kind message := by
  cases hid : first.system.registry.idOf? name with
  | none =>
    rw [resolve?_of_unknown hid, resolve?_of_unknown ((alike.registered name).mp hid)]
  | some id =>
    obtain ⟨record, hrecord, rfl⟩ := (alike.atRest.idOf?_eq_some_iff name id).mp hid
    obtain ⟨other, another, hanother, -, hname, -⟩ := alike.exists_record hrecord
    have hiff := alike.pending_iff hrecord hanother hname.symm
    by_cases hstate : record.state = .pending
    · rw [alike.atRest.resolve?_of_pending hrecord hstate, ← hname,
        alike.otherAtRest.resolve?_of_pending hanother (hiff.mp hstate)]
    · have hlinked : another.state ≠ .pending := fun h => hstate (hiff.mpr h)
      rw [alike.atRest.resolve?_of_linked alike.sound hrecord hstate,
        alike.chain_eq hrecord hanother hname.symm, ← hname,
        alike.otherAtRest.resolve?_of_linked alike.otherSound hanother hlinked]

theorem AtRest.conformsTo_eq (atRest : session.AtRest policy) {id : ClassId} {record : Record}
    (hrecord : session.system.registry.record? id = some record) (kind : ClassKind)
    (protocol : String) :
    session.conformsTo ⟨record.pair, kind⟩ protocol =
      ((session.system.registry.chain id).map
        (·.content.named session.system.selectors)).any (·.adopts protocol) := by
  have hresolve : session.system.registry.resolve session.heap ⟨record.pair, kind⟩ = .ok id :=
    atRest.upToDate.housed.resolve_eq hrecord kind
  rw [conformsTo, hresolve]
  dsimp only
  rw [Registry.conformsTo, List.any_map]
  congr 1
  funext own
  exact own.adopts_eq_named _ protocol

theorem Alike.protocols (alike : Alike policy first second) (name : String) (kind : ClassKind)
    (protocol : String) :
    first.conforms? name kind protocol = second.conforms? name kind protocol := by
  rw [conforms?, conforms?, recordOf?, recordOf?]
  cases hid : first.system.registry.idOf? name with
  | none =>
    rw [(alike.registered name).mp hid]
    rfl
  | some id =>
    obtain ⟨record, hrecord, rfl⟩ := (alike.atRest.idOf?_eq_some_iff name id).mp hid
    obtain ⟨other, another, hanother, hother, hname, -⟩ := alike.exists_record hrecord
    rw [hother, Option.bind_some, Option.bind_some, hrecord, hanother, Option.map_some,
      Option.map_some, alike.atRest.conformsTo_eq hrecord,
      alike.otherAtRest.conformsTo_eq hanother, alike.chain_eq hrecord hanother hname.symm]

/-! ### Pending classes -/

theorem Alike.mem_unresolved (alike : Alike policy first second) {entry : String × String}
    (hentry : entry ∈ first.system.registry.unresolved) :
    entry ∈ second.system.registry.unresolved := by
  obtain ⟨name, awaited⟩ := entry
  obtain ⟨id, record, hrecord, hpending, rfl, hawaited⟩ := Registry.mem_unresolved.mp hentry
  obtain ⟨other, another, hanother, -, hname, hsuper⟩ := alike.exists_record hrecord
  have hiff := alike.pending_iff hrecord hanother hname.symm
  exact Registry.mem_unresolved.mpr
    ⟨other, another, hanother, hiff.mp hpending, hname, hsuper.trans hawaited⟩

/-- The lists are sorted by name, and no two classes have the same name. -/
theorem Alike.pendingClasses (alike : Alike policy first second) :
    first.system.registry.unresolved = second.system.registry.unresolved := by
  have hmem : ∀ entry, entry ∈ first.system.registry.unresolved ↔
      entry ∈ second.system.registry.unresolved :=
    fun entry => ⟨alike.mem_unresolved, alike.symm.mem_unresolved⟩
  have hsorted := alike.atRest.consistent.sorted_unresolved
  have hother := alike.otherAtRest.consistent.sorted_unresolved
  have hne : ∀ {left right : String × String}, left.1 < right.1 → left ≠ right :=
    fun hlt heq => String.lt_irrefl _ (heq ▸ hlt)
  have hperm := (List.perm_ext_iff_of_nodup (hsorted.imp hne) (hother.imp hne)).mpr hmem
  exact hperm.eq_of_pairwise (fun _ _ _ _ hlt hgt => absurd hgt (String.lt_asymm hlt)) hsorted
    hother

end Session

end LateBinding
