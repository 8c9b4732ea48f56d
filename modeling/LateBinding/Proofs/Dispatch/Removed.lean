import LateBinding.Proofs.Dispatch.Receivers
import LateBinding.Proofs.Execution.Unregistering

/-!
# Instances of removed classes

An instance keeps its class when the class is removed, and whatever happens later a message to it is
refused because its class is not linked. What is sent on for it from the removed class goes by the
class above alone. It is refused likewise, unless that class is still registered: then its tables
decide as ever, and its implementations run for the instance.
-/

namespace LateBinding

/-- A class that keeps its link finds above it the superclass below which it linked, as long as that
is not released. -/
theorem Classes.Steady.superclass?_of_link_eq {policy : CategoryConflictPolicy} {classes : Classes}
    {later : Heap} {id : ClassId} {record : Record} (steady : classes.Steady policy)
    (hrecord : classes.registry.record? id = some record)
    (hlink : (later.pair record.pair).link = (classes.heap.pair record.pair).link) :
    later.superclass? ⟨record.pair, .plain⟩ =
      (classes.registry.parentPair? record).bind
        fun above => later.unlessReleased ⟨above, .plain⟩ := by
  obtain ⟨order, lineage⟩ := steady.settled
  rw [Heap.superclass?, hlink]
  by_cases hpending : record.state = .pending
  · rw [(lineage.link_eq_none_iff hrecord).mpr hpending, Registry.parentPair?, Record.superclass?,
      hpending]
    rfl
  · rw [steady.inPlace id record hrecord hpending List.not_mem_nil, placeBelow_eq]
    cases classes.registry.parentPair? record <;> rfl

namespace Session

variable {options : Options} {policy : CategoryConflictPolicy} {session final later : Session}
  {id : ClassId} {record : Record} {receiver : Value} {current : ClassRef} {sel : Sel}

theorem Steady.isLinked_of_houses (steady : session.Steady policy) {cls : ClassRef}
    (hhouses : session.system.registry.Houses cls.pair)
    (hlink : (session.heap.pair cls.pair).link ≠ none) : session.heap.isLinked cls = true := by
  obtain ⟨order, lineage⟩ := steady.settled
  obtain ⟨id, record, hrecord, hpair⟩ := Registry.houses_iff.mp hhouses
  refine (Classes.Steady.isLinked_iff steady cls).mpr ⟨id, record, hrecord, hpair, fun hpending => ?_⟩
  rw [← hpair] at hlink
  exact hlink ((lineage.link_eq_none_iff hrecord).mpr hpending)

theorem Steady.link_ne_none_of_parentPair? (steady : session.Steady policy)
    (hrecord : session.system.registry.record? id = some record) {above : PairId}
    (hparent : session.system.registry.parentPair? record = some above) :
    (session.heap.pair above).link ≠ none := by
  obtain ⟨order, lineage⟩ := steady.settled
  obtain ⟨parent, upper, hsuper, hupper, rfl⟩ :=
    (Registry.parentPair?_eq_some_iff above).mp hparent
  obtain ⟨known, hknown, hlinked⟩ := steady.atRest.hierarchy.above id parent ⟨record, hrecord, hsuper⟩
  cases hupper.symm.trans hknown
  exact fun hnone => hlinked ((lineage.link_eq_none_iff hupper).mp hnone)

theorem Steady.dispatch_of_not_houses (steady : session.Steady policy) {cls : ClassRef}
    (hgone : ¬ session.system.registry.Houses cls.pair) (sel : Sel) :
    session.dispatch cls sel = .refuse (.notLinked (session.heap.className cls)) := by
  rw [dispatch, steady.table?_of_not_houses hgone]

/-- What a removed class sends on for an instance is refused, if the class above is removed too or if
there is none. -/
theorem Steady.superRoute_of_not_houses (steady : session.Steady policy)
    (hgone : ¬ session.system.registry.Houses current.pair)
    (habove : ∀ above, session.heap.superclass? current = some above →
      ¬ session.system.registry.Houses above.pair)
    (hnil : receiver ≠ .nil) (hinstance : receiver.class? = none) :
    ∃ name, session.superRoute receiver current sel = .refuse (.notLinked name) := by
  have hroute := session.superRoute_cases receiver current sel
  rw [superSide_of_instance hinstance] at hroute
  rcases hroute with ⟨hreceiver, -⟩ | ⟨-, ⟨above, hsuper, heq⟩ | ⟨-, ⟨hlinked, -⟩ | ⟨-, heq⟩⟩⟩
  · exact absurd hreceiver hnil
  · exact ⟨_, heq.trans (steady.dispatch_of_not_houses (habove above hsuper) sel)⟩
  · rw [Heap.isLinked, steady.table?_of_not_houses hgone] at hlinked
    cases hlinked
  · exact ⟨_, heq⟩

theorem superRoute_of_isLinked {above : ClassRef}
    (hsuper : session.heap.superclass? current = some above)
    (hlinked : session.heap.isLinked above = true) (hnil : receiver ≠ .nil)
    (hinstance : receiver.class? = none) :
    session.superRoute receiver current sel = session.dispatch above sel ∧
      ∀ name, session.superRoute receiver current sel ≠ .refuse (.notLinked name) := by
  have hroute : session.superRoute receiver current sel = session.dispatch above sel := by
    apply superRoute_of_above hnil
    rw [superSide_of_instance hinstance]
    exact hsuper
  refine ⟨hroute, ?_⟩
  intro name hrefuses
  rw [hroute] at hrefuses
  rcases session.dispatch_cases above sel with ⟨hnone, -⟩ | ⟨table, -, hfound⟩
  · rw [Heap.isLinked, hnone] at hlinked
    cases hlinked
  · rcases hfound with ⟨imp, -, heq⟩ | ⟨-, ⟨handler, -, heq⟩ | ⟨-, heq⟩⟩ <;>
    · cases heq.symm.trans hrefuses

/-- A class is outlived by the superclass below which it was linked: a later session has that class
registered. -/
structure OutlivedBy (session later : Session) (record : Record) (above : PairId) : Prop where
  parent : session.system.registry.parentPair? record = some above
  houses : later.system.registry.Houses above

/-- After a class was removed, in every later session: an instance of it is still one, and a message
to it is refused because the class is not linked. So is what is sent on for it from that class, unless
the class is outlived by its superclass: then the message goes where the tables of that one say. -/
theorem Reachable.removed_not_linked (reachable : session.Reachable options) {name : String}
    {pairs : List PairId} (hrun : (Operation.unregister name).perform session = .ok (.ok pairs) final)
    (hrecord : session.system.registry.record? id = some record) (hremoved : record.pair ∈ pairs)
    {σ : Type} {world : World σ} (onward : final.Onward world.session) (host : Host σ)
    (depth : Nat) :
    let cls : ClassRef := ⟨record.pair, .plain⟩
    (∀ object, final.heap.classOf? object = some cls →
      world.session.heap.classOf? object = some cls) ∧
    ∀ object sel args, world.session.heap.classOf? object = some cls →
      let message : Message := ⟨.object object, sel, args⟩
      host.answer (depth + 1) (.send message) world = .ok (.error (.notLinked record.name)) world ∧
      ((¬ ∃ above, session.OutlivedBy world.session record above) → ∃ name,
        host.answer (depth + 1) (.sendSuper cls message) world =
          .ok (.error (.notLinked name)) world) ∧
      ∀ above, session.OutlivedBy world.session record above →
        (∀ name, world.session.superRoute (.object object) cls sel ≠ .refuse (.notLinked name)) ∧
        host.Realizes (host.answer depth) message world
          (host.answer (depth + 1) (.sendSuper cls message) world)
          (world.session.dispatch ⟨above, .plain⟩ sel) := by
  intro cls
  have steady := reachable.steady
  obtain ⟨hlater, remembers, hgone, hname, hlink⟩ :=
    reachable.removed hrun hrecord hremoved onward
  have hsuper : world.session.heap.superclass? cls =
      (session.system.registry.parentPair? record).bind
        fun above => world.session.heap.unlessReleased ⟨above, .plain⟩ :=
    Classes.Steady.superclass?_of_link_eq steady hrecord hlink
  refine ⟨fun object => (onward.spec (reachable.move (.perform hrun))).2.classOf object cls, ?_⟩
  intro object sel args hclass message
  have hinstance : message.receiver ≠ .nil ∧ message.receiver.class? = none := ⟨nofun, rfl⟩
  have hsend := host.realizes_send depth message world
  have hsendSuper := host.realizes_sendSuper depth message world cls
  refine ⟨?_, ?_, ?_⟩
  · have hreceiver : world.session.receiverClass (.object object) sel = .ok (some cls) := by
      rw [receiverClass, hclass]
    have hroute : world.session.route message.receiver sel = .refuse (.notLinked record.name) := by
      rw [route, hreceiver, ← hname]
      exact hlater.steady.dispatch_of_not_houses hgone sel
    rw [hroute] at hsend
    exact hsend
  · intro houtlived
    have hgoneAbove : ∀ above, world.session.heap.superclass? cls = some above →
        ¬ world.session.system.registry.Houses above.pair := by
      intro above hfound hhouses
      obtain ⟨pair, hparent, hheld⟩ := Option.bind_eq_some_iff.mp (hsuper.symm.trans hfound)
      obtain rfl : ⟨pair, .plain⟩ = above := by
        unfold Heap.unlessReleased at hheld
        split at hheld
        · cases hheld
        · exact Option.some.inj hheld
      exact houtlived ⟨pair, hparent, hhouses⟩
    obtain ⟨name, hroute⟩ :=
      hlater.steady.superRoute_of_not_houses hgone hgoneAbove hinstance.1 hinstance.2
    rw [hroute] at hsendSuper
    exact ⟨name, hsendSuper⟩
  · rintro above ⟨hparent, hhouses⟩
    have hlink := remembers.ages.linked (steady.link_ne_none_of_parentPair? hrecord hparent)
    have hlinked : world.session.heap.isLinked ⟨above, .plain⟩ = true :=
      hlater.steady.isLinked_of_houses hhouses hlink
    have habove : world.session.heap.superclass? cls = some ⟨above, .plain⟩ := by
      rw [hsuper, hparent, Option.bind_some]
      exact hlater.steady.held.unlessReleased_eq hhouses
    obtain ⟨hroute, hne⟩ := superRoute_of_isLinked habove hlinked hinstance.1 hinstance.2
    rw [hroute] at hsendSuper
    exact ⟨hne, hsendSuper⟩

/-- A root class and an instance of a class below it. -/
def instanceSample : Session :=
  (((start {}).afterRegister rootSample).afterRegister leafSample).afterPerform
    (.createInstance ⟨⟨1⟩, .plain⟩)

theorem reachable_instanceSample : instanceSample.Reachable {} :=
  ((Reachable.start.afterRegister rootSample).afterRegister leafSample).afterPerform _

theorem unregister_instanceSample : (Operation.unregister "Leaf").perform instanceSample =
    .ok (.ok [⟨1⟩]) (instanceSample.afterPerform (.unregister "Leaf")) :=
  perform_unregister_of_reply (by decide +kernel)

/-- A class of the same name does not take the instance over. -/
theorem removed_not_linked_again :
    let world : World Unit :=
      ⟨(instanceSample.afterPerform (.unregister "Leaf")).afterRegister leafSample, (), [], []⟩
    (Host.replying (.int 42)).answer 1 (.send ⟨.object ⟨0⟩, ⟨1⟩, []⟩) world =
      .ok (.error (.notLinked "Leaf")) world := by
  intro world
  have hfacts : (instanceSample.system.registry.record? ⟨1⟩).any
        (fun record => record.name == "Leaf" && record.pair == ⟨1⟩) = true ∧
      world.session.heap.classOf? ⟨0⟩ = some ⟨⟨1⟩, .plain⟩ := by decide +kernel
  obtain ⟨hany, hclass⟩ := hfacts
  obtain ⟨record, hrecord, hboth⟩ := (Option.any_eq_true _ _).mp hany
  rw [Bool.and_eq_true] at hboth
  have hpair : record.pair = ⟨1⟩ := eq_of_beq hboth.2
  have hremoved : record.pair ∈ [⟨1⟩] := List.mem_singleton.mpr hpair
  have onward : (instanceSample.afterPerform (.unregister "Leaf")).Onward world.session :=
    onward_afterRegister _ leafSample
  obtain ⟨-, hanswers⟩ := reachable_instanceSample.removed_not_linked unregister_instanceSample
    hrecord hremoved onward (Host.replying (.int 42)) 0
  rw [hpair, eq_of_beq hboth.1] at hanswers
  have hanswers := hanswers ⟨0⟩ ⟨1⟩ [] hclass
  exact hanswers.1

/-- What the leaf sends on for its instance still reaches the root after the leaf was removed. -/
theorem sendSuper_reaches_root :
    let final := instanceSample.afterPerform (.unregister "Leaf")
    let leaf : ClassRef := ⟨⟨1⟩, .plain⟩
    let message : Message := ⟨.object ⟨0⟩, ⟨1⟩, []⟩
    let world : World Unit := ⟨final, (), [], []⟩
    instanceSample.Reachable {} ∧
      (Operation.unregister "Leaf").perform instanceSample = .ok (.ok [⟨1⟩]) final ∧
      final.heap.classOf? ⟨0⟩ = some leaf ∧
      (Host.replying (.int 42)).answer 1 (.sendSuper leaf message) world =
        .ok (.ok (.int 42)) world := by
  intro final leaf message world
  have hfacts : final.heap.classOf? ⟨0⟩ = some leaf ∧
      final.superRoute (.object ⟨0⟩) leaf ⟨1⟩ = .run ⟨2⟩ ⟨⟨0⟩, .plain⟩ := by decide +kernel
  obtain ⟨hclass, hroute⟩ := hfacts
  have hrealizes := (Host.replying (.int 42)).realizes_sendSuper 0 message world leaf
  rw [hroute] at hrealizes
  obtain ⟨held, hanswer⟩ := hrealizes
  exact ⟨reachable_instanceSample, unregister_instanceSample, hclass, hanswer⟩

end Session

end LateBinding
