import LateBinding.Proofs.Execution.Grounded

/-!
# Requests on top of a ground

If the programs of a host are like themselves on top of a ground, then all requests are answered on
top of the ground as they are without it: messages go the same ways, the same classes link, and the
same initializers run in the same order.
-/

namespace LateBinding

/-- All pairs leave room for the classes above a class. -/
theorem Session.Steady.uninitializedChain_eq {policy : CategoryConflictPolicy} {session : Session}
    (steady : session.Steady policy) {pair : PairId} {fuel : Nat}
    (hlink : (session.heap.pair pair).link ≠ none) (hfuel : session.heap.pairs.size ≤ fuel) :
    session.heap.uninitializedChain fuel ⟨pair, .plain⟩ =
      session.heap.uninitializedChain session.heap.pairs.size ⟨pair, .plain⟩ := by
  obtain ⟨order, lineage⟩ := steady.settled
  have hmem := (lineage.inOrder.mem_iff pair).mpr hlink
  have hplace : order.idxOf pair < session.heap.pairs.size :=
    Nat.lt_of_lt_of_le (List.idxOf_lt_length_of_mem hmem) lineage.inOrder.length_le
  exact lineage.inOrder.uninitializedChain_eq (Nat.lt_of_lt_of_le hplace hfuel) hplace

namespace Host

variable {σ : Type} {offset : Offset} {policy : CategoryConflictPolicy} {hosts : σ → σ → Prop}
  {host : Host σ} {answer : (request : Request) → Run σ request.Reply} {linked : List PairId}
  {world image : World σ}

/-- The implementations of a host do the same on top of a ground. -/
structure Grounded (host : Host σ) (offset : Offset) (policy : CategoryConflictPolicy)
    (hosts : σ → σ → Prop) : Prop where
  roots : Roots offset hosts host.holds
  body : ∀ imp message, (host.body imp message).Alike offset policy hosts
    (fun reply reply' => reply' = reply.map (·.moved offset)) (host.body imp (message.moved offset))

variable (grounded : host.Grounded offset policy hosts)
  (hanswer : Answers offset policy hosts answer)

include grounded hanswer

theorem stacked_invoke (stacked : world.Stacked offset policy hosts linked image) (imp : Imp)
    (message : Message) (via : Option ClassRef) :
    Matches (World.Stacked offset policy hosts linked)
      (fun reply reply' => reply' = reply.map (·.moved offset)) world image
      (host.invoke answer imp message via)
      (host.invoke answer imp (message.moved offset) (via.map (·.rename offset.pair))) := by
  have hvalues : (message.moved offset).receiver :: (message.moved offset).args ++
      (via.map (·.rename offset.pair)).toList.map Value.classObject =
      (message.receiver :: message.args ++ via.toList.map Value.classObject).map
        (·.moved offset) := by
    rw [List.map_append, List.map_map]
    cases via <;> rfl
  unfold invoke
  rw [hvalues]
  exact Run.stacked_framed _ stacked fun _ _ hframed =>
    (grounded.body imp message).run grounded.roots hanswer hframed

theorem stacked_deliver (stacked : world.Stacked offset policy hosts linked image)
    (message : Message) (route : Route) :
    Matches (World.Stacked offset policy hosts linked)
      (fun reply reply' => reply' = reply.map (·.moved offset)) world image
      (host.deliver answer message route)
      (host.deliver answer (message.moved offset) (route.moved offset)) := by
  cases route with
  | nowhere => exact matches_pure stacked rfl
  | refuse error => exact matches_pure stacked rfl
  | run imp via => exact stacked_invoke grounded hanswer stacked imp message (some via)
  | forward handler via =>
    apply matches_get_bind
    obtain ⟨ground, hcarries⟩ := stacked.carries
    dsimp only
    rw [hcarries.className_eq]
    refine (Run.stacked_report rfl stacked).bind fun _ _ _ _ _ hmiddle => ?_
    exact stacked_invoke grounded hanswer hmiddle handler message (some via)

/-! ### Initializers -/

theorem stacked_initializeOne (stacked : world.Stacked offset policy hosts linked image) (sel : Sel)
    (cls : ClassRef) :
    Matches (World.Stacked offset policy hosts linked) Eq world image
      (host.initializeOne answer sel cls)
      (host.initializeOne answer sel (cls.rename offset.pair)) := by
  refine (Run.stacked_settle grounded.roots stacked).bind fun _ _ settled settled' _ hsettled => ?_
  apply matches_get_bind
  obtain ⟨ground, hcarries⟩ := hsettled.carries
  have hlookup : settled'.session.heap.lookup ⟨offset.pair cls.pair, .metaclass⟩ sel =
      settled.session.heap.lookup ⟨cls.pair, .metaclass⟩ sel :=
    hcarries.lookup_eq ⟨cls.pair, .metaclass⟩ sel
  have hpair : (cls.rename offset.pair).pair = offset.pair cls.pair := rfl
  dsimp only
  rw [hcarries.isInitialized_eq, hcarries.className_eq, hpair, hlookup]
  split
  · exact matches_pure hsettled rfl
  have hmarked : Matches (World.Stacked offset policy hosts linked) Eq settled settled'
      (Run.liftAct (Act.onHeap (·.markInitialized cls.pair)))
      (Run.liftAct (Act.onHeap (·.markInitialized (offset.pair cls.pair)))) := by
    obtain ⟨hsteady, remembers⟩ :=
      (Session.Move.markInitialized settled.session cls.pair).spec hsettled.steady
    refine Run.stacked_liftAct hsettled (fun ground hcarries => matches_modify ?_)
      ⟨hsteady, remembers.ages⟩
    dsimp only
    rw [hcarries.heap_eq]
    exact (congrArg (fun h => ground.Carries _ { settled'.session with heap := h })
      (ground.relocation.markInitialized_heap settled.session.heap cls.pair)).mpr
      (hcarries.setHeap _)
  refine hmarked.bind fun _ _ marked marked' _ hmarked => ?_
  cases settled.session.heap.lookup ⟨cls.pair, .metaclass⟩ sel with
  | none => exact matches_pure hmarked rfl
  | some imp =>
    have hreport : Matches (World.Stacked offset policy hosts linked) Eq marked marked'
        (Run.liftAct (Act.report (.initializing cls.pair (settled.session.heap.className cls))))
        (Run.liftAct (Act.report
          (.initializing (offset.pair cls.pair) (settled.session.heap.className cls)))) := by
      obtain ⟨hsteady, remembers⟩ := (Session.Move.report marked.session
        (.initializing cls.pair (settled.session.heap.className cls))).spec hmarked.steady
      exact Run.stacked_liftAct hmarked (fun ground hcarries => Act.matches_report hcarries _)
        ⟨hsteady, remembers.ages⟩
    refine hreport.bind fun _ _ _ _ _ hreported => ?_
    refine (stacked_invoke grounded hanswer hreported imp ⟨.classObject cls, sel, []⟩ none).bind ?_
    rintro (error | value) _ invoked invoked' rfl hinvoked
    · exact Run.stacked_report rfl hinvoked
    · exact matches_pure hinvoked rfl

theorem stacked_initializeEach (stacked : world.Stacked offset policy hosts linked image) (sel : Sel)
    (classes : List ClassRef) :
    Matches (World.Stacked offset policy hosts linked) Eq world image
      (host.initializeEach answer sel classes)
      (host.initializeEach answer sel (classes.map (·.rename offset.pair))) := by
  induction classes generalizing world image with
  | nil => exact matches_pure stacked rfl
  | cons cls rest ih =>
    have hvalues : ((cls :: rest).map (·.rename offset.pair)).map Value.classObject =
        ((cls :: rest).map Value.classObject).map (·.moved offset) := by
      rw [List.map_map, List.map_map]
      rfl
    rw [List.map_cons] at hvalues ⊢
    unfold initializeEach
    rw [hvalues]
    have hfirst := Run.stacked_framed ((cls :: rest).map Value.classObject) stacked
      fun _ _ hframed => stacked_initializeOne grounded hanswer hframed sel cls
    exact hfirst.bind fun _ _ _ _ _ hmiddle => ih hmiddle

theorem stacked_initializeClass (stacked : world.Stacked offset policy hosts linked image)
    (sel : Sel) {pair : PairId} (hpair : pair ∈ linked) :
    Matches (World.Stacked offset policy hosts linked) Eq world image
      (host.initializeClass answer sel pair)
      (host.initializeClass answer sel (offset.pair pair)) := by
  refine (Run.stacked_settle grounded.roots stacked).bind fun _ _ settled settled' _ hsettled => ?_
  apply matches_get_bind
  obtain ⟨ground, hcarries⟩ := hsettled.carries
  have hsize : settled'.session.heap.pairs.size = offset.pairs + settled.session.heap.pairs.size := by
    rw [hcarries.heap_eq, Ground.under, Array.size_append, Array.size_map, ground.pairs_size]
  have hchain : settled'.session.heap.uninitializedChain settled'.session.heap.pairs.size
      ⟨offset.pair pair, .plain⟩ =
      (settled.session.heap.uninitializedChain settled.session.heap.pairs.size ⟨pair, .plain⟩).map
        (·.rename offset.pair) := by
    rw [← hsettled.steady.uninitializedChain_eq (hsettled.linked pair hpair) (Nat.le_add_left _ _),
      ← hsize, hcarries.heap_eq]
    exact ground.relocation.uninitializedChain_heap settled.session.heap _ ⟨pair, .plain⟩
  dsimp only
  rw [hchain]
  exact stacked_initializeEach grounded hanswer hsettled sel _

theorem stacked_runInitializers (stacked : world.Stacked offset policy hosts linked image)
    {pairs : List PairId} (hpairs : pairs ⊆ linked) :
    Matches (World.Stacked offset policy hosts linked) Eq world image
      (host.runInitializers answer pairs) (host.runInitializers answer (pairs.map offset.pair)) := by
  apply matches_get_bind
  obtain ⟨ground, hcarries⟩ := stacked.carries
  dsimp only
  rw [hcarries.options, hcarries.selectors.lookup_eq, List.isEmpty_map]
  split
  · cases world.session.system.selectors.lookup
      world.session.system.options.initializerSelector with
    | error error => exact matches_pure stacked rfl
    | ok sel =>
      have hlist : List.Forall₂ (fun pair pair' => pair ∈ linked ∧ pair' = offset.pair pair) pairs
          (pairs.map offset.pair) :=
        List.forall₂_map_right_iff.mpr (List.forall₂_same.mpr fun pair hpair => ⟨hpairs hpair, rfl⟩)
      refine matches_forM hlist stacked ?_
      rintro pair _ middle middle' ⟨hpair, rfl⟩ hmiddle
      exact stacked_initializeClass grounded hanswer hmiddle sel hpair
  · exact matches_pure stacked rfl

/-! ### Registering and loading -/

theorem stacked_finish {pairs : List PairId} (values : List Value)
    (stacked : world.Stacked offset policy hosts linked image)
    (hlinked : ∀ pair ∈ pairs, (world.session.heap.pair pair).link ≠ none) :
    Matches (World.Stacked offset policy hosts linked) Eq world image
      (Run.framed values (host.runInitializers answer pairs))
      (Run.framed (values.map (·.moved offset))
        (host.runInitializers answer (pairs.map offset.pair))) := by
  have hmore : world.Stacked offset policy hosts (pairs ++ linked) image :=
    { stacked with
      linked := fun pair hpair => (List.mem_append.mp hpair).elim (hlinked pair)
        (stacked.linked pair) }
  have hframed := Run.stacked_framed values hmore fun _ _ hinner =>
    stacked_runInitializers grounded hanswer hinner (List.subset_append_left pairs linked)
  exact hframed.weaken fun _ _ h => h.narrow (List.subset_append_right pairs linked)

theorem stacked_register (stacked : world.Stacked offset policy hosts linked image)
    (spec : ClassSpec) :
    Matches (World.Stacked offset policy hosts linked)
      (fun reply reply' => reply' = reply.map (·.rename offset.pair)) world image
      (host.answerWith answer (.register spec)) (host.answerWith answer (.register spec)) := by
  have hregister := Run.stacked_liftAct_of_roams (Act.roams_register spec) stacked
    fun ground hcarries => Act.matches_register hcarries spec
  refine hregister.bind_run ?_
  rintro reply _ middle middle' hrun rfl hmiddle
  cases reply with
  | error error => exact matches_pure hmiddle rfl
  | ok answered =>
    obtain ⟨pair, pairs⟩ := answered
    obtain ⟨entered, hentered, rfl⟩ := Run.liftAct_eq_ok_iff.mp hrun
    have hlinks := (Act.register_linksPair spec stacked.steady.atRest).of_ok hentered pair pairs rfl
    have hvalues : ((pair :: pairs).map offset.pair).map
          (fun pair => Value.classObject ⟨pair, .plain⟩) =
        ((pair :: pairs).map fun pair => Value.classObject ⟨pair, .plain⟩).map
          (·.moved offset) := by
      rw [List.map_map, List.map_map]
      rfl
    have hfinish := stacked_finish grounded hanswer
      ((pair :: pairs).map fun pair => Value.classObject ⟨pair, .plain⟩) hmiddle
      fun other hother => hmiddle.steady.settled.link_of_linksPair ((hlinks other).mp hother)
    rw [← hvalues] at hfinish
    exact hfinish.bind fun _ _ _ _ _ hfinal => matches_pure hfinal rfl

theorem stacked_load (stacked : world.Stacked offset policy hosts linked image) (unit : LoadUnit)
    (imps : String → Option Imp) :
    Matches (World.Stacked offset policy hosts linked)
      (fun reply reply' => reply' = reply.map (·.moved offset)) world image
      (host.load answer unit imps) (host.load answer unit imps) := by
  have hload := Run.stacked_liftAct_of_roams (Act.roams_load unit imps) stacked
    fun ground hcarries => Act.matches_load hcarries unit imps
  refine hload.bind_run ?_
  rintro reply _ middle middle' hrun rfl hmiddle
  cases reply with
  | error error => exact matches_pure hmiddle rfl
  | ok answered =>
    obtain ⟨report, pairs⟩ := answered
    obtain ⟨entered, hentered, rfl⟩ := Run.liftAct_eq_ok_iff.mp hrun
    have hlinks := (Act.load_linksPair unit imps stacked.steady.atRest).of_ok hentered _ rfl
    have hvalues : (pairs.map offset.pair).map (fun pair => Value.classObject ⟨pair, .plain⟩) ++
        (report.moved offset).statics.map Value.object =
        (pairs.map (fun pair => Value.classObject ⟨pair, .plain⟩) ++
          report.statics.map Value.object).map (·.moved offset) := by
      rw [List.map_append, List.map_map, List.map_map, List.map_map, LoadReport.moved, List.map_map]
      rfl
    have hfinish := stacked_finish grounded hanswer (pairs.map (fun pair =>
      Value.classObject ⟨pair, .plain⟩) ++ report.statics.map Value.object) hmiddle
      fun other hother => hmiddle.steady.settled.link_of_linksPair ((hlinks other).mp hother)
    rw [← hvalues] at hfinish
    exact hfinish.bind fun _ _ _ _ _ hfinal => matches_pure hfinal rfl

/-! ### Requests -/

theorem answers_answerWith : Answers offset policy hosts (host.answerWith answer) := by
  intro request linked world image stacked
  cases request with
  | send message =>
    apply matches_get_bind
    obtain ⟨ground, hcarries⟩ := stacked.carries
    have hdeliver := stacked_deliver grounded hanswer stacked message
      (world.session.route message.receiver message.sel)
    rw [← hcarries.route_eq] at hdeliver
    exact hdeliver
  | sendSuper current message =>
    apply matches_get_bind
    obtain ⟨ground, hcarries⟩ := stacked.carries
    have hroute := hcarries.superRoute_eq message.receiver current message.sel
    refine Run.stacked_framed [.classObject current] stacked fun _ _ hframed => ?_
    have hdeliver := stacked_deliver grounded hanswer hframed message
      (world.session.superRoute message.receiver current message.sel)
    rw [← hroute] at hdeliver
    exact hdeliver
  | call imp message => exact stacked_invoke grounded hanswer stacked imp message none
  | register spec => exact stacked_register grounded hanswer stacked spec
  | load unit imps => exact stacked_load grounded hanswer stacked unit imps
  | loadBytes bytes imps =>
    unfold answerWith Request.moved
    dsimp only
    cases LoadUnit.decode bytes with
    | error error => exact matches_pure stacked rfl
    | ok unit => exact stacked_load grounded hanswer stacked unit imps

omit hanswer

theorem answers_answer (depth : Nat) : Answers offset policy hosts (host.answer depth) := by
  induction depth with
  | zero => exact fun _ _ _ _ stacked => ⟨rfl, stacked⟩
  | succ depth ih => exact answers_answerWith grounded ih

end Host

end LateBinding
