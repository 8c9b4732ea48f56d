import LateBinding.Proofs.Order.Agreement
import LateBinding.Proofs.Order.Registering

/-!
# The order of declarations does not matter

Classes may come before or after their superclasses, categories before or after their classes, and
static instances at any time: as long as the categories for one class keep their order, whoever
knows classes and messages by name finds the same in the end.
-/

namespace LateBinding

open Declaration

namespace Declaration.Compatible

variable {done rest : List Declaration}

theorem name_not_mem {spec : ClassSpec} (compatible : Compatible (done ++ .cls spec :: rest)) :
    spec.name ∉ (classSpecs done).map (·.name) := by
  have hnodup := compatible.classes
  rw [classSpecs, List.filterMap_append, List.map_append, List.nodup_append] at hnodup
  intro hmem
  exact hnodup.2.2 spec.name hmem spec.name List.mem_cons_self rfl

theorem object_not_mem {className : String} {more : List ObjectId}
    (compatible : Compatible (done ++ .statics className more :: rest)) (name : String)
    (object : ObjectId) (hdeclared : (name, object) ∈ done.flatMap Declaration.literals) : object ∉ more := by
  have hnodup := compatible.literals
  rw [objects, List.flatMap_append, List.map_append, List.nodup_append] at hnodup
  intro hmem
  refine hnodup.2.2 object (List.mem_map.mpr ⟨_, hdeclared, rfl⟩) object ?_ rfl
  refine List.mem_map.mpr ⟨(className, object), ?_, rfl⟩
  rw [List.flatMap_cons]
  exact List.mem_append_left _ (List.mem_map.mpr ⟨object, hmem, rfl⟩)

theorem mem_objects {className : String} {more : List ObjectId} {object : ObjectId}
    (hmem : object ∈ more) : object ∈ objects (done ++ .statics className more :: rest) := by
  refine List.mem_map.mpr ⟨(className, object), ?_, rfl⟩
  refine List.mem_flatMap.mpr ⟨_, List.mem_append_right _ List.mem_cons_self, ?_⟩
  exact List.mem_map.mpr ⟨object, hmem, rfl⟩

end Declaration.Compatible

namespace Run

variable {σ α β : Type}

/-- The run does not end without a value, and leads to what `post` says. -/
def Leads (run : Run σ α) (world : World σ) (post : α → World σ → Prop) : Prop :=
  match run world with
  | .ok value final => post value final
  | .error _ _ => False

instance (run : Run σ α) (world : World σ) (post : α → World σ → Prop)
    [∀ value final, Decidable (post value final)] : Decidable (run.Leads world post) :=
  match heq : run world with
  | .ok value final => decidable_of_iff (post value final) (by rw [Leads, heq])
  | .error _ _ => .isFalse (by rw [Leads, heq]; exact id)

theorem Leads.mono {run : Run σ α} {world : World σ} {post weaker : α → World σ → Prop}
    (leads : run.Leads world post) (hpost : ∀ value final, post value final → weaker value final) :
    run.Leads world weaker := by
  unfold Leads at leads ⊢
  split
  · next value final heq =>
    rw [heq] at leads
    exact hpost value final leads
  · next halt final heq =>
    rw [heq] at leads
    exact leads

theorem Leads.exists_ok {run : Run σ α} {world : World σ} {post : α → World σ → Prop}
    (leads : run.Leads world post) : ∃ value final, run world = .ok value final ∧ post value final := by
  unfold Leads at leads
  split at leads
  · next value final heq => exact ⟨value, final, heq, leads⟩
  · exact leads.elim

variable {world : World σ}

@[simp] theorem leads_pure (value : α) (post : α → World σ → Prop) :
    (pure value : Run σ α).Leads world post ↔ post value world := Iff.rfl

@[simp] theorem leads_bind (first : Run σ α) (next : α → Run σ β) (post : β → World σ → Prop) :
    (first >>= next).Leads world post ↔
      first.Leads world fun value middle => (next value).Leads middle post := by
  simp only [Leads, Bind.bind, EStateM.bind]
  cases first world <;> rfl

@[simp] theorem leads_get (post : World σ → World σ → Prop) :
    (get : Run σ (World σ)).Leads world post ↔ post world world := Iff.rfl

@[simp] theorem leads_modify (change : World σ → World σ) (post : PUnit → World σ → Prop) :
    (modify change : Run σ PUnit).Leads world post ↔ post ⟨⟩ (change world) := Iff.rfl

theorem leads_liftAct (action : Act α) (post : α → World σ → Prop) :
    (liftAct action : Run σ α).Leads world post ↔
      action.Leads False world.session fun reply final =>
        post reply { world with session := final } := by
  obtain ⟨session, host, held, pinned⟩ := world
  unfold Leads liftAct Act.Leads
  dsimp only
  cases action session <;> rfl

theorem leads_framed (values : List Value) (inner : Run σ α) {holds : Session → Prop}
    (hinner : ∀ framed : World σ, framed.session = world.session →
      inner.Leads framed fun _ final => holds final.session) :
    (framed values inner).Leads world fun _ final => holds final.session := by
  rw [framed, leads_bind, leads_get, leads_bind, leads_modify, leads_bind]
  have hrun := hinner { world with held := [], pinned := values ++ world.held ++ world.pinned } rfl
  exact hrun.mono fun _ final hfinal => hfinal

theorem leads_runInitializers (host : Host σ) (answer : (request : Request) → Run σ request.Reply)
    (linked : List PairId) (hoff : world.session.system.options.sendInitialize = false) :
    (host.runInitializers answer linked).Leads world fun _ final => final = world := by
  rw [Host.runInitializers, leads_bind, leads_get]
  dsimp only
  rw [hoff, Bool.false_and, if_neg Bool.false_ne_true]
  rfl

end Run

section

variable {σ : Type} {options : Options} {known : List String} {objects : List ObjectId}
  {done : List Declaration} {world : World σ}

theorem Run.settle_declares (declared : world.session.Declared options known objects done)
    (holds : σ → List Value) : (Run.settle holds).Leads world fun _ final =>
      final.session.Declared options known objects done := by
  rw [Run.settle, Run.leads_modify, World.settle]
  split
  · exact declared
  · exact declared.release _

theorem Host.register_declares (host : Host σ)
    (answer : (request : Request) → Run σ request.Reply)
    (hoff : options.sendInitialize = false) (hknown : known.dedup.length ≤ maxUid)
    {spec : ClassSpec} (declared : world.session.Declared options known objects done)
    (hnames : ∀ name ∈ sidesNames spec.methods, name ∈ known)
    (hnew : spec.name ∉ (classSpecs done).map (·.name)) :
    (host.answerWith answer (.register spec)).Leads world fun _ final =>
      final.session.Declared options known objects (done ++ [.cls spec]) := by
  rw [answerWith, Run.leads_bind, Run.leads_liftAct]
  refine (Act.register_declares hknown declared hnames hnew).mono ?_
  rintro (error | ⟨pair, linked⟩) final hfinal
  · exact hfinal
  · refine (Run.leads_bind _ _ _).mpr (Run.leads_framed _ _ ?_)
    intro framed hframed
    refine (Run.leads_runInitializers host answer linked ?_).mono ?_
    · rw [hframed]
      dsimp only
      rw [hfinal.defines.options_eq]
      exact hoff
    · intro _ _ heq
      subst heq
      rw [hframed]
      exact hfinal

theorem Host.declareAll_declares (host : Host σ) (depth : Nat)
    (hoff : options.sendInitialize = false) (done rest : List Declaration)
    (compatible : Compatible (done ++ rest))
    (declared : world.session.Declared options ((done ++ rest).flatMap methodNames)
      (Declaration.objects (done ++ rest)) done) :
    (host.run (depth + 1) (declareAll rest)).Leads world fun _ final =>
      final.session.Declared options ((done ++ rest).flatMap methodNames)
        (Declaration.objects (done ++ rest)) (done ++ rest) := by
  induction rest generalizing done world with
  | nil =>
    rw [List.append_nil] at declared ⊢
    exact declared
  | cons next rest ih =>
    have hlist : done ++ next :: rest = (done ++ [next]) ++ rest := by
      rw [List.append_assoc, List.singleton_append]
    have hnames : ∀ name ∈ next.methodNames, name ∈ (done ++ next :: rest).flatMap methodNames := by
      intro name hname
      exact List.mem_flatMap.mpr
        ⟨next, List.mem_append_right _ List.mem_cons_self, hname⟩
    -- whatever the step is, the rest goes on from where it leads
    have hrest : ∀ final : World σ,
        final.session.Declared options ((done ++ next :: rest).flatMap methodNames)
          (Declaration.objects (done ++ next :: rest)) (done ++ [next]) →
        (host.run (depth + 1) (declareAll rest)).Leads final fun _ last =>
          last.session.Declared options ((done ++ next :: rest).flatMap methodNames)
            (Declaration.objects (done ++ next :: rest)) (done ++ next :: rest) := by
      intro final hfinal
      rw [hlist] at hfinal compatible ⊢
      exact ih (done ++ [next]) compatible hfinal
    have hsettled := Run.settle_declares declared host.holds
    cases next with
    | cls spec =>
      change (Run.settle host.holds >>= fun _ =>
        host.answerWith (host.answer depth) (.register spec) >>= fun _ =>
          host.run (depth + 1) (declareAll rest)).Leads world _
      refine (Run.leads_bind _ _ _).mpr (hsettled.mono ?_)
      intro _ settled hsettled
      refine (Run.leads_bind _ _ _).mpr ?_
      exact (host.register_declares _ hoff compatible.selectors hsettled hnames
        compatible.name_not_mem).mono fun _ final hfinal => hrest final hfinal
    | category spec =>
      change (Run.settle host.holds >>= fun _ => Run.liftAct (Act.applyCategory spec) >>= fun _ =>
        host.run (depth + 1) (declareAll rest)).Leads world _
      refine (Run.leads_bind _ _ _).mpr (hsettled.mono ?_)
      intro _ settled hsettled
      refine (Run.leads_bind _ _ _).mpr ((Run.leads_liftAct _ _).mpr ?_)
      exact (Act.applyCategory_declares compatible.selectors hsettled hnames).mono
        fun _ final hfinal => hrest _ hfinal
    | statics className more =>
      change (Run.settle host.holds >>= fun _ =>
        Run.liftAct (Act.registerStatics className more) >>= fun _ =>
          host.run (depth + 1) (declareAll rest)).Leads world _
      refine (Run.leads_bind _ _ _).mpr (hsettled.mono ?_)
      intro _ settled hsettled
      refine (Run.leads_bind _ _ _).mpr ((Run.leads_liftAct _ _).mpr ?_)
      exact (Act.registerStatics_declares hsettled (fun _ => Compatible.mem_objects)
        compatible.object_not_mem).mono fun _ final hfinal => hrest _ hfinal

end

namespace Session

variable {options : Options} {known otherKnown : List String} {objects otherObjects : List ObjectId}
  {done otherDone : List Declaration} {first second session : Session}

theorem Fresh.declared (fresh : session.Fresh options objects) :
    session.Declared options known objects [] := by
  obtain ⟨heap, system, log⟩ := session
  obtain ⟨hsystem, hexist, hunbound⟩ := fresh
  cases hsystem
  refine ⟨⟨rfl, .empty _ heap log, SelectorTable.sound_withCapacity _ _, ?_, ?_, ?_, ?_⟩, ?_⟩
  · intro sel name hname
    have hget := (SelectorTable.name?_eq_some_iff.mp hname).2
    simp [SelectorTable.withCapacity, SelectorTable.names] at hget
  · intro spec hspec
    cases hspec
  · intro id content hcontent
    cases hcontent
  · intro name _
    rfl
  · refine ⟨hexist, ?_, ?_, ?_, List.nodup_nil, ?_, fun object hobject _ => hunbound object hobject⟩
    · intro name object hdeclared
      cases hdeclared
    · intro name other object hdeclared
      cases hdeclared
    · intro name object
      constructor
      · intro hwaits
        cases hwaits
      · intro h
        obtain ⟨hdeclared, -⟩ := h
        cases hdeclared
    · intro name object cls hdeclared
      cases hdeclared

theorem Defines.alike (defines : first.Defines options known done)
    (otherDefines : second.Defines options otherKnown otherDone)
    (hclasses : ∀ spec, spec ∈ classSpecs done ↔ spec ∈ classSpecs otherDone)
    (hnames : ((classSpecs done).map (·.name)).Nodup)
    (hmerged : ∀ name, merged name done = merged name otherDone) :
    Alike options.categoryConflicts first second where
  atRest := defines.atRest
  otherAtRest := otherDefines.atRest
  sound := defines.sound
  otherSound := otherDefines.sound
  registered := by
    intro name
    rw [defines.idOf?_eq_none_iff, otherDefines.idOf?_eq_none_iff]
    simp only [List.mem_map, hclasses]
  contents := by
    intro id record other another hrecord hanother hname
    obtain ⟨spec, hspec, hnamed⟩ := defines.contents id record.content
      (Registry.content?_of_record hrecord)
    obtain ⟨otherSpec, hotherSpec, hotherNamed⟩ := otherDefines.contents other another.content
      (Registry.content?_of_record hanother)
    have hspecName : record.name = spec.name := congrArg NamedClass.name hnamed
    have hotherName : another.name = otherSpec.name := congrArg NamedClass.name hotherNamed
    have hsame : spec = otherSpec :=
      List.inj_on_of_nodup_map hnames hspec ((hclasses otherSpec).mpr hotherSpec)
        (hspecName.symm.trans (hname.trans hotherName))
    subst hsame
    rw [hnamed, hotherNamed, hmerged]

theorem Alike.classForName?_eq_none_iff {policy : CategoryConflictPolicy}
    (alike : Alike policy first second) (name : String) :
    first.classForName? name = none ↔ second.classForName? name = none := by
  have hstate : ∀ session : Session, session.classForName? name = none ↔
      (session.system.registry.stateOf? name).map LinkState.name ≠ some "linked" := by
    intro session
    rw [classForName?, Registry.classForName?, Registry.stateOf?]
    cases (session.system.registry.idOf? name).bind session.system.registry.record? with
    | none => simp
    | some record =>
      cases hstate : record.state <;> simp [Record.isLinked, hstate, LinkState.name]
  rw [hstate, hstate, alike.states]

theorem Declared.agrees (declared : first.Declared options known objects done)
    (otherDeclared : second.Declared options otherKnown otherObjects otherDone)
    (hclasses : ∀ spec, spec ∈ classSpecs done ↔ spec ∈ classSpecs otherDone)
    (hnames : ((classSpecs done).map (·.name)).Nodup)
    (hmerged : ∀ name, merged name done = merged name otherDone)
    (hliterals : ∀ pair, pair ∈ done.flatMap literals ↔ pair ∈ otherDone.flatMap literals)
    (hobjects : ∀ object ∈ objects, object ∈ otherObjects) : first.Agrees second objects := by
  have alike := declared.defines.alike otherDeclared.defines hclasses hnames hmerged
  have bindings := declared.bindings
  have otherBindings := otherDeclared.bindings
  have hlinked := alike.classForName?_eq_none_iff
  refine ⟨alike.states, alike.messages, alike.protocols, ?_, alike.pendingClasses, ?_, ?_⟩
  · intro object hobject
    by_cases hbound : ∃ name, (name, object) ∈ done.flatMap literals ∧
        first.classForName? name ≠ none
    · obtain ⟨name, hdeclared, hcls⟩ := hbound
      have hotherCls : second.classForName? name ≠ none := mt (hlinked name).mpr hcls
      obtain ⟨cls, hcls⟩ := Option.ne_none_iff_exists'.mp hcls
      obtain ⟨otherCls, hotherCls⟩ := Option.ne_none_iff_exists'.mp hotherCls
      exact .inr ⟨name, ⟨cls, hcls, bindings.bound name object cls hdeclared hcls⟩,
        otherCls, hotherCls,
        otherBindings.bound name object otherCls ((hliterals _).mp hdeclared) hotherCls⟩
    · have hnone : ∀ name, (name, object) ∈ done.flatMap literals →
          first.classForName? name = none := by
        intro name hdeclared
        by_contra hcls
        exact hbound ⟨name, hdeclared, hcls⟩
      refine .inl ⟨bindings.unbound object hobject hnone, ?_⟩
      refine otherBindings.unbound object (hobjects object hobject) fun name hdeclared => ?_
      exact (hlinked name).mp (hnone name ((hliterals _).mpr hdeclared))
  · intro name
    cases hid : first.system.registry.idOf? name with
    | none =>
      rw [declared.defines.heldBack name hid,
        otherDeclared.defines.heldBack name ((alike.registered name).mp hid), hmerged]
    | some id =>
      have hregistered : first.system.registry.idOf? name ≠ none := by
        rw [hid]
        nofun
      have hempty := Defines.waitingFor_eq_nil declared.defines hregistered
      have hotherEmpty := Defines.waitingFor_eq_nil otherDeclared.defines
        (mt (alike.registered name).mpr hregistered)
      rw [hempty, hotherEmpty]
  · refine (List.perm_ext_iff_of_nodup bindings.nodup otherBindings.nodup).mpr ?_
    intro h
    obtain ⟨name, object⟩ := h
    rw [bindings.waits, otherBindings.waits, hliterals, hlinked]

end Session

/-- However classes, categories and static instances are interleaved, what comes of declaring them
is the same by name, as long as the categories for one class keep their order. No call fails. -/
theorem declareAll_agrees {σ τ : Type} {options : Options} {first second : List Declaration}
    (hoff : options.sendInitialize = false) (compatible : Compatible first)
    (hperm : first.Perm second)
    (horder : ∀ name, categoriesFor name first = categoriesFor name second)
    (host : Host σ) (otherHost : Host τ) (depth otherDepth : Nat) {world : World σ}
    {otherWorld : World τ} (hworld : world.session.Fresh options (objects first))
    (hotherWorld : otherWorld.session.Fresh options (objects first)) :
    ∃ final otherFinal, host.run (depth + 1) (declareAll first) world = .ok () final ∧
      otherHost.run (otherDepth + 1) (declareAll second) otherWorld = .ok () otherFinal ∧
      final.session.Agrees otherFinal.session (objects first) := by
  have hclasses : (classSpecs first).Perm (classSpecs second) := hperm.filterMap _
  have hliterals : (first.flatMap literals).Perm (second.flatMap literals) :=
    hperm.flatMap_right _
  have hobjects : (objects first).Perm (objects second) := hliterals.map _
  have hselectors : (first.flatMap methodNames).Perm (second.flatMap methodNames) :=
    hperm.flatMap_right _
  have otherCompatible : Compatible second := by
    refine ⟨?_, ?_, ?_⟩
    · rw [← (hclasses.map _).nodup_iff]
      exact compatible.classes
    · rw [← hobjects.nodup_iff]
      exact compatible.literals
    · rw [← hselectors.dedup.length_eq]
      exact compatible.selectors
  have hotherWorld : otherWorld.session.Fresh options (objects second) :=
    ⟨hotherWorld.system_eq, fun object hobject => hotherWorld.exist object (hobjects.mem_iff.mpr hobject),
      fun object hobject => hotherWorld.unbound object (hobjects.mem_iff.mpr hobject)⟩
  obtain ⟨_, final, hrun, hfinal⟩ :=
    (host.declareAll_declares depth hoff [] first compatible hworld.declared).exists_ok
  obtain ⟨_, otherFinal, hotherRun, hotherFinal⟩ :=
    (otherHost.declareAll_declares otherDepth hoff [] second otherCompatible
      hotherWorld.declared).exists_ok
  refine ⟨final, otherFinal, hrun, hotherRun, ?_⟩
  refine hfinal.agrees hotherFinal (fun _ => hclasses.mem_iff) compatible.classes ?_
    (fun _ => hliterals.mem_iff) fun _ => hobjects.mem_iff.mp
  intro name
  rw [List.nil_append, List.nil_append, merged, merged, horder]

/-- A leaf class with a static instance, and two categories for the class above it. -/
def leafSamples : List Declaration :=
  [.statics "Leaf" [⟨0⟩],
    .category ⟨"First", "Root", ⟨[⟨"ping", none, ⟨1⟩⟩], []⟩, []⟩,
    .cls ⟨"Leaf", some "Root", 0, .both [], []⟩,
    .category ⟨"Second", "Root", ⟨[⟨"ping", none, ⟨2⟩⟩], []⟩, []⟩]

def rootSamples : List Declaration :=
  [.cls ⟨"Root", none, 0, ⟨[⟨"ping", none, ⟨3⟩⟩], []⟩, []⟩]

/-- A host without programs, in a session with one object that has no class. -/
def quietHost : Host Unit := ⟨fun _ _ => .done (.ok .nil), fun _ => []⟩

def quietWorld : World Unit :=
  ⟨⟨⟨#[], #[⟨none, #[]⟩], []⟩, .fresh { sendInitialize := false }, #[]⟩, (), [], []⟩

/-- The root class may come first or last: the leaf gets its instance and the later category. -/
theorem declareAll_agrees_rootLast : ∃ final otherFinal,
    quietHost.run 1 (declareAll (rootSamples ++ leafSamples)) quietWorld = .ok () final ∧
      quietHost.run 1 (declareAll (leafSamples ++ rootSamples)) quietWorld = .ok () otherFinal ∧
      final.session.Agrees otherFinal.session [⟨0⟩] ∧
      otherFinal.session.resolve? "Leaf" .plain "ping" = some ⟨2⟩ := by
  have compatible : Compatible (rootSamples ++ leafSamples) :=
    ⟨by decide, by decide, by decide +kernel⟩
  have horder : ∀ name, categoriesFor name (rootSamples ++ leafSamples) =
      categoriesFor name (leafSamples ++ rootSamples) := by
    intro name
    have hroot : rootSamples.filterMap (categoryFor? name) = [] := rfl
    rw [categoriesFor, categoriesFor, List.filterMap_append, List.filterMap_append, hroot,
      List.nil_append, List.append_nil]
  have fresh : quietWorld.session.Fresh { sendInitialize := false }
      (objects (rootSamples ++ leafSamples)) := ⟨rfl, by decide, by decide⟩
  obtain ⟨final, otherFinal, hrun, hotherRun, hagrees⟩ := declareAll_agrees rfl compatible
    List.perm_append_comm horder quietHost quietHost 0 0 fresh fresh
  have hleads : (quietHost.run 1 (declareAll (rootSamples ++ leafSamples))).Leads quietWorld
      fun _ reached => reached.session.resolve? "Leaf" .plain "ping" = some ⟨2⟩ := by
    decide +kernel
  obtain ⟨_, reached, hreached, hping⟩ := hleads.exists_ok
  cases hrun.symm.trans hreached
  exact ⟨final, otherFinal, hrun, hotherRun, hagrees,
    (hagrees.messages "Leaf" .plain "ping").symm.trans hping⟩

end LateBinding
