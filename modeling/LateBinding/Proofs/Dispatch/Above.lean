import LateBinding.Proofs.Dispatch.Removed
import LateBinding.Proofs.Registry.Climbing

/-!
# What goes to the class above

A message that a method of a class sends on goes where it would go as a message to an instance of the
superclass, or to the superclass itself if the receiver is a class object. What the class and those
below it define has no part in it. Sent on from a root for a class object it goes by what the root
implements for its instances. Whoever sends on from class to class comes to an end at the root.
-/

namespace LateBinding

namespace Session

variable {options : Options} {policy : CategoryConflictPolicy} {session : Session} {id : ClassId}
  {record : Record} {current : ClassRef}

/-- Where a message leads for which a class finds some implementation or none. -/
def leadTo (session : Session) (cls : ClassRef) (sel : Sel) : Option Imp → Route
  | some imp => .run imp cls
  | none =>
    match session.system.forward with
    | some handler => .forward handler cls
    | none => .refuse (.doesNotRecognize (session.heap.className cls) (session.describe sel))

/-- The classes whose tables decide when a message is sent on from class to class. -/
def consulted (session : Session) (receiver : Value) (path : List ClassRef) : List ClassRef :=
  path.filterMap fun current => session.heap.superclass? (superSide receiver current)

theorem dispatch_of_table {cls : ClassRef} {table : DispatchTable}
    (htable : session.heap.table? cls = some table) (sel : Sel) :
    session.dispatch cls sel = session.leadTo cls sel (table.get? sel) := by
  rw [dispatch, htable]
  dsimp only
  cases table.get? sel with
  | some imp => rfl
  | none =>
    unfold leadTo
    cases session.system.forward <;> rfl

/-- A linked class leads a message to what walking up its chain finds. -/
theorem Steady.dispatch_eq_leadTo (steady : session.Steady policy)
    (hrecord : session.system.registry.record? id = some record) (hlinked : record.state ≠ .pending)
    (kind : ClassKind) (sel : Sel) : session.dispatch ⟨record.pair, kind⟩ sel =
      session.leadTo ⟨record.pair, kind⟩ sel
        (walkUp policy kind (session.system.registry.chain id) sel) := by
  have atRest := steady.atRest
  obtain ⟨table, htable, hget⟩ :=
    atRest.upToDate.exists_table (atRest.hierarchy.ancestry_chain hrecord hlinked) hrecord kind
  rw [atRest.policy_eq] at hget
  rw [dispatch_of_table htable, hget]
  rfl

/-- What is sent on from a class below another one goes where it leads from there. -/
theorem Steady.superRoute_of_under (steady : session.Steady policy)
    (hrecord : session.system.registry.record? id = some record) {parent : ClassId} {above : Record}
    (hstate : record.state = .linked (some parent))
    (habove : session.system.registry.record? parent = some above)
    (haboveLinked : above.state ≠ .pending)
    {receiver : Value} (hnil : receiver ≠ .nil) {kind : ClassKind}
    (hside : superSide receiver (record.side .plain) = record.side kind) (sel : Sel) :
    session.superRoute receiver (record.side .plain) sel = session.leadTo (above.side kind) sel
      (walkUp policy kind (session.system.registry.chain parent) sel) := by
  have hsuper := steady.inPlace.superclass?_of_under steady.held hrecord hstate habove kind
  rw [superRoute_of_above hnil (by rw [hside]; exact hsuper)]
  exact steady.dispatch_eq_leadTo habove haboveLinked kind sel

/-- What is sent on from a root for a class object goes by the methods of its instances. -/
theorem Steady.superRoute_of_top (steady : session.Steady policy)
    (hrecord : session.system.registry.record? id = some record) (htop : record.state = .linked none)
    (own : ClassRef) (sel : Sel) :
    session.superRoute (.classObject own) (record.side .plain) sel =
      session.leadTo (record.side .plain) sel (record.implementation? policy .plain sel) := by
  have hsuper : session.heap.superclass? (superSide (.classObject own) (record.side .plain)) =
      some (record.side .plain) := (steady.inPlace.superclass?_of_root steady.held hrecord htop).2
  have hchain : session.system.registry.chain id = [record] :=
    steady.atRest.hierarchy.chain_of_root hrecord htop
  have hroute := steady.dispatch_eq_leadTo hrecord (Record.ne_pending_of_linked htop) .plain sel
  rw [hchain, walkUp, List.findSome?_singleton] at hroute
  have hnil : Value.classObject own ≠ .nil := by simp
  rw [superRoute_of_above hnil hsuper]
  exact hroute

theorem Steady.route_of_class (steady : session.Steady policy)
    (hrecord : session.system.registry.record? id = some record) (hlinked : record.state ≠ .pending)
    {receiver : Value} {kind : ClassKind} {sel : Sel}
    (hclass : session.receiverClass receiver sel = .ok (some (record.side kind))) :
    session.route receiver sel = session.leadTo (record.side kind) sel
      (walkUp policy kind (session.system.registry.chain id) sel) := by
  rw [route, hclass]
  exact steady.dispatch_eq_leadTo hrecord hlinked kind sel

/-! ### What has no part in it -/

/-- Neither a class nor any class below it is found above it. -/
theorem Steady.not_mem_chain_above (steady : session.Steady policy)
    (hrecord : session.system.registry.record? id = some record) {parent : ClassId}
    (hstate : record.state = .linked (some parent)) {lower : ClassId} {below : Record}
    (hbelow : session.system.registry.record? lower = some below)
    (hmem : record ∈ session.system.registry.chain lower) :
    below ∉ session.system.registry.chain parent := by
  intro habove
  have hierarchy : session.system.registry.Hierarchy := steady.atRest.hierarchy
  obtain ⟨ancestry, hchain⟩ := hierarchy.chain_of_under hrecord hstate
  obtain ⟨other, rest, hother, hrest, hsuffix⟩ := ancestry.of_mem habove
  obtain rfl : other = lower := steady.atRest.upToDate.housed.id_unique hother hbelow rfl
  obtain ⟨own, -, -, hown, hlinked⟩ := hrest.head
  have hwhole := (hierarchy.ancestry_chain hown hlinked).unique hrest
  rw [hwhole] at hmem
  have hnodup := steady.inPlace.nodup_pairs steady.held (.under hrecord hstate ancestry)
  exact (List.nodup_cons.mp hnodup).1 (List.mem_map_of_mem (hsuffix.subset hmem))

/-! ### From class to class -/

theorem consulted_of_instance {receiver : Value} (hinstance : receiver.class? = none)
    {path : List ClassRef} (climbs : session.heap.Climbs current path) :
    session.consulted receiver path = path.tail := by
  simp only [consulted, superSide_of_instance hinstance]
  exact climbs.filterMap_superclass?

theorem Steady.consulted_of_classObject (steady : session.Steady policy) {chain : List Record}
    (ancestry : session.system.registry.Ancestry id chain)
    (hrecord : session.system.registry.record? id = some record) {root : Record}
    (hroot : chain.getLast? = some root) (own : ClassRef) :
    session.consulted (.classObject own) (chain.map (·.side .plain)) =
      (chain.map (·.side .metaclass) ++ [root.side .plain]).tail := by
  have climbs := steady.inPlace.climbs_metaclass steady.held ancestry hrecord hroot
  have htop := climbs.superclass?_getLast? List.getLast?_concat
  rw [← climbs.filterMap_superclass?, List.filterMap_append, List.filterMap_cons, htop,
    List.filterMap_nil, List.append_nil, consulted, List.filterMap_map, List.filterMap_map]
  rfl

/-! ### Sending on -/

/-- What a message leads to that is sent on from a class goes a route. -/
def SendsOn {σ : Type} (host : Host σ) (depth : Nat) (world : World σ) (current : ClassRef)
    (message : Message) (route : Route) : Prop :=
  host.Realizes (host.answer depth) message world
    (host.answer (depth + 1) (.sendSuper current message) world) route

/-- Sent on from a linked class, a message for an object goes where it would go for an instance of the
superclass, and a message for a class object where it would go for the superclass: to what is found on
the way up from there, else to the forward handler, else it is refused. No class at or below the one
that it is sent on from is met on that way. From a root a message for a class object goes by what the
root implements for its instances. Whoever sends on from class to class meets each class and consults
each table once at most. -/
theorem Reachable.sends_on_from_above {σ : Type} {world : World σ}
    (reachable : world.session.Reachable options)
    (hrecord : world.session.system.registry.record? id = some record)
    (hlinked : record.isLinked = true) (host : Host σ) (depth : Nat) (message : Message) :
    let session := world.session
    let registry := session.system.registry
    let policy := options.categoryConflicts
    let sel := message.sel
    let sendsOn := SendsOn host depth world (record.side .plain) message
    (∀ parent above, record.superclass? = some parent → registry.record? parent = some above →
      (∀ object own, message.receiver = .object object → session.heap.classOf? object = some own →
        ∃ route, sendsOn route ∧
          route = session.leadTo (above.side .plain) sel
            (walkUp policy .plain (registry.chain parent) sel) ∧
          ∀ other, session.heap.classOf? other = some (above.side .plain) →
            session.route (.object other) sel = route) ∧
      (∀ own, message.receiver = .classObject own →
        ∃ route, sendsOn route ∧
          route = session.leadTo (above.side .metaclass) sel
            (walkUp policy .metaclass (registry.chain parent) sel) ∧
          session.route (.classObject (above.side .plain)) sel = route) ∧
      ∀ lower below, registry.record? lower = some below → record ∈ registry.chain lower →
        below ∉ registry.chain parent) ∧
    (record.superclass? = none → ∀ own, message.receiver = .classObject own →
      sendsOn (session.leadTo (record.side .plain) sel (record.implementation? policy .plain sel))) ∧
    ∃ path, session.heap.Climbs (record.side .plain) path ∧ path.Nodup ∧
      path.length = (registry.chain id).length ∧
      ∀ receiver, (session.consulted receiver path).Nodup := by
  intro session registry policy sel sendsOn
  have steady := reachable.steady
  have hstate := of_decide_eq_true hlinked
  have hierarchy : registry.Hierarchy := steady.atRest.hierarchy
  have ancestry := hierarchy.ancestry_chain hrecord hstate
  have hsends := host.realizes_sendSuper depth message world (record.side .plain)
  refine ⟨?_, ?_, ?_⟩
  · intro parent above hsuper habove
    have hunder := (record.superclass?_eq_some_iff parent).mp hsuper
    obtain ⟨upper, hupper, haboveLinked⟩ := hierarchy.above id parent ⟨record, hrecord, hsuper⟩
    cases habove.symm.trans hupper
    refine ⟨?_, ?_, fun lower below => steady.not_mem_chain_above hrecord hunder⟩
    · intro object own hreceiver _
      rw [steady.superRoute_of_under hrecord hunder habove haboveLinked (by simp [hreceiver])
        (superSide_of_instance (by rw [hreceiver]; rfl) _)] at hsends
      refine ⟨_, hsends, rfl, fun other hother => ?_⟩
      apply steady.route_of_class habove haboveLinked
      rw [receiverClass, hother]
    · intro own hreceiver
      rw [steady.superRoute_of_under hrecord hunder habove haboveLinked (by simp [hreceiver])
        (by rw [hreceiver]; rfl)] at hsends
      refine ⟨_, hsends, rfl, ?_⟩
      apply steady.route_of_class habove haboveLinked
      have hisa : session.heap.isa? (above.side .plain) = some (above.side .metaclass) :=
        steady.held.isa?_plain habove
      rw [receiverClass, hisa]
  · intro hnone own hreceiver
    have htop : record.state = .linked none := by
      cases hlink : record.state with
      | pending => exact absurd hlink hstate
      | linked superclass =>
        rw [Record.superclass?, hlink] at hnone
        exact congrArg LinkState.linked hnone
    rw [hreceiver, steady.superRoute_of_top hrecord htop] at hsends
    exact hsends
  · have climbs := steady.inPlace.climbs_plain steady.held ancestry hrecord
    refine ⟨_, climbs, climbs.nodup, List.length_map _, fun receiver => ?_⟩
    cases hinstance : receiver.class? with
    | none =>
      rw [consulted_of_instance hinstance climbs]
      exact climbs.nodup.tail
    | some own =>
      obtain rfl : receiver = .classObject own := by
        cases receiver <;> cases hinstance
        rfl
      obtain ⟨root, hroot⟩ : ∃ root, (registry.chain id).getLast? = some root :=
        ⟨_, List.getLast?_eq_some_getLast ancestry.ne_nil⟩
      rw [steady.consulted_of_classObject ancestry hrecord hroot]
      exact (steady.inPlace.climbs_metaclass steady.held ancestry hrecord hroot).nodup.tail

/-- A host that replies to every message with the number of the implementation that runs. -/
def tellingHost : Host Unit :=
  ⟨fun imp _ => .done (.ok (.int (Int64.ofNat imp.id))), fun _ => []⟩

/-- The leaf has an implementation of its own, but for its instance the one of the root runs. -/
theorem sends_on_from_above_leaf :
    let message : Message := ⟨.object ⟨0⟩, ⟨1⟩, []⟩
    let world : World Unit := ⟨instanceSample, (), [], []⟩
    ∃ final, tellingHost.answer 1 (.sendSuper ⟨⟨1⟩, .plain⟩ message) world =
      .ok (.ok (.int 2)) final := by
  intro message world
  have hfacts : (instanceSample.system.registry.record? ⟨1⟩).any (fun record =>
        record.isLinked && record.pair = ⟨1⟩ && record.superclass? = some ⟨0⟩) = true ∧
      ((instanceSample.system.registry.record? ⟨0⟩).map (·.pair)) = some ⟨0⟩ ∧
      instanceSample.heap.classOf? ⟨0⟩ = some ⟨⟨1⟩, .plain⟩ ∧
      walkUp .lastApplied .plain (instanceSample.system.registry.chain ⟨0⟩) ⟨1⟩ = some ⟨2⟩ := by
    decide +kernel
  obtain ⟨hleaf, hroot, hclass, hfound⟩ := hfacts
  obtain ⟨record, hrecord, hchecks⟩ := (Option.any_eq_true _ _).mp hleaf
  obtain ⟨above, habove, -⟩ := Option.map_eq_some_iff.mp hroot
  simp only [Bool.and_eq_true, decide_eq_true_eq] at hchecks
  obtain ⟨⟨hlinked, hpair⟩, hsuper⟩ := hchecks
  have reachable : world.session.Reachable {} := reachable_instanceSample
  obtain ⟨hunder, -⟩ :=
    reachable.sends_on_from_above hrecord hlinked tellingHost 0 message
  obtain ⟨route, hsends, hroute, -⟩ := (hunder ⟨0⟩ above hsuper habove).1 ⟨0⟩ _ rfl hclass
  rw [hroute, show walkUp _ _ _ message.sel = some ⟨2⟩ from hfound] at hsends
  obtain ⟨held, hanswer⟩ := hsends
  rw [Record.side, hpair] at hanswer
  exact ⟨_, hanswer⟩

end Session

end LateBinding
