import LateBinding.Proofs.Execution.Chains
import LateBinding.Proofs.Execution.Linked
import LateBinding.Proofs.Execution.Onward
import LateBinding.Proofs.Heap.Releasing
import LateBinding.Proofs.System.Stacked

/-!
# Programs on top of a ground

Two programs are *alike* if one does with the identities on top of a ground what the other does with
those of a heap of its own: they look at the same things, hold on to the same values and ask for the
same. If the programs of a host are like themselves in this sense, then a run on top of a ground
answers what it answers without one, but for the identities that are handed out.
-/

namespace LateBinding

/-! ### Requests -/

def Message.moved (offset : Offset) (message : Message) : Message where
  receiver := message.receiver.moved offset
  sel := message.sel
  args := message.args.map (·.moved offset)

theorem Message.arg_moved (message : Message) (offset : Offset) (index : Nat) :
    (message.moved offset).arg index = (message.arg index).moved offset := by
  unfold arg moved
  rw [List.getD_eq_getElem?_getD, List.getD_eq_getElem?_getD, List.getElem?_map]
  cases message.args[index]? <;> rfl

def Request.moved (offset : Offset) : Request → Request
  | .send message => .send (message.moved offset)
  | .sendSuper current message => .sendSuper (current.rename offset.pair) (message.moved offset)
  | .call imp message => .call imp (message.moved offset)
  | request => request

def Request.movedReply (offset : Offset) :
    (request : Request) → request.Reply → (request.moved offset).Reply
  | .send _, reply => Except.map (·.moved offset) reply
  | .sendSuper .., reply => Except.map (·.moved offset) reply
  | .call .., reply => Except.map (·.moved offset) reply
  | .register _, reply => Except.map (·.rename offset.pair) reply
  | .load .., reply => Except.map (·.moved offset) reply
  | .loadBytes .., reply => Except.map (·.moved offset) reply

/-! ### Worlds -/

/-- A world, and the same one on top of a ground. Some of its classes are known to be linked. -/
structure World.Stacked {σ : Type} (offset : Offset) (policy : CategoryConflictPolicy)
    (hosts : σ → σ → Prop) (linked : List PairId) (world image : World σ) : Prop where
  carries : ∃ ground : Ground offset, ground.Carries world.session image.session
  steady : world.session.Steady policy
  linked : ∀ pair ∈ linked, (world.session.heap.pair pair).link ≠ none
  host : hosts world.host image.host
  held : image.held = world.held.map (·.moved offset)
  pinned : image.pinned = world.pinned.map (·.moved offset)

section

variable {σ : Type} {offset : Offset} {policy : CategoryConflictPolicy} {hosts : σ → σ → Prop}
  {linked : List PairId} {world image : World σ}

theorem World.Stacked.narrow {fewer : List PairId}
    (stacked : world.Stacked offset policy hosts linked image) (hfewer : fewer ⊆ linked) :
    world.Stacked offset policy hosts fewer image :=
  { stacked with linked := fun pair hpair => stacked.linked pair (hfewer hpair) }

/-- What the host holds on to on top of the ground is the same, but for some values underneath. -/
def Roots (offset : Offset) (hosts : σ → σ → Prop) (holds : σ → List Value) : Prop :=
  ∀ state image, hosts state image → offset.Roots (holds state) (holds image)

theorem Offset.Roots.append {held image : List Value} (roots : offset.Roots held image)
    (more : List Value) : offset.Roots (held ++ more) (image ++ more.map (·.moved offset)) := by
  obtain ⟨old, hold, hmem⟩ := roots
  refine ⟨old, hold, fun value => ?_⟩
  rw [List.mem_append, hmem, List.map_append, List.mem_append]
  exact or_right_comm

theorem World.settle_eq (world : World σ) (holds : σ → List Value) : world.settle holds =
    { world with session.heap := world.session.heap.release (world.roots holds) } := by
  unfold settle
  split
  · next hempty => rw [Heap.release_eq_self (List.isEmpty_iff.mp hempty)]
  · rfl

namespace Run

variable {α β γ δ : Type} {Q : α → β → Prop} {P : γ → δ → Prop} {holds : σ → List Value}

theorem stacked_settle (hroots : Roots offset hosts holds)
    (stacked : world.Stacked offset policy hosts linked image) :
    Matches (World.Stacked offset policy hosts linked) Eq world image (settle holds)
      (settle holds) := by
  refine matches_modify ?_
  obtain ⟨ground, hcarries⟩ := stacked.carries
  have hstatics : image.session.system.statics.map (fun waiting => Value.object waiting.2) =
      (world.session.system.statics.map fun waiting => Value.object waiting.2).map
        (·.moved offset) := by
    rw [hcarries.statics, StaticQueue.moved, List.map_map, List.map_map]
    rfl
  have hheld : offset.Roots (world.roots holds) (image.roots holds) := by
    have hall := (((hroots _ _ stacked.host).append world.held).append world.pinned).append
      (world.session.system.statics.map fun waiting => Value.object waiting.2)
    rwa [← stacked.held, ← stacked.pinned, ← hstatics] at hall
  obtain ⟨other, hrelease⟩ := ground.exists_release (h := world.session.heap) hheld
  obtain ⟨hsteady, remembers⟩ :=
    (Session.Move.release world.session (world.roots holds)).spec stacked.steady
  rw [World.settle_eq, World.settle_eq, hcarries.heap_eq, hrelease]
  exact { stacked with
    carries := ⟨other, hcarries.onGround other _⟩
    steady := hsteady
    linked := fun pair hpair => remembers.ages.linked (stacked.linked pair hpair) }

theorem stacked_liftAct {action : Act α} {other : Act β}
    (stacked : world.Stacked offset policy hosts linked image)
    (hmatches : ∀ ground : Ground offset, ground.Carries world.session image.session →
      Matches ground.Carries Q world.session image.session action other)
    (hafter : (action.after world.session).Steady policy ∧
      world.session.heap.Ages (action.after world.session).heap) :
    Matches (World.Stacked offset policy hosts linked) Q world image (liftAct action)
      (liftAct other) := by
  obtain ⟨ground, hcarries⟩ := stacked.carries
  have hmatched := hmatches ground hcarries
  obtain ⟨hsteady, hages⟩ := hafter
  have hstacked : ∀ {final final' : Session}, action.after world.session = final →
      ground.Carries final final' →
      ({ world with session := final } : World σ).Stacked offset policy hosts linked
        { image with session := final' } := by
    rintro _ final' rfl hfinal
    exact { stacked with
      carries := ⟨ground, hfinal⟩
      steady := hsteady
      linked := fun pair hpair => hages.linked (stacked.linked pair hpair) }
  unfold Act.after at hstacked
  unfold Matches at hmatched ⊢
  unfold liftAct
  dsimp only
  cases hrun : action world.session with
  | ok reply final =>
    rw [hrun] at hmatched hstacked
    cases hother : other image.session with
    | ok reply' final' =>
      rw [hother] at hmatched
      exact ⟨hmatched.1, hstacked rfl hmatched.2⟩
    | error reason' final' =>
      rw [hother] at hmatched
      exact hmatched.elim
  | error reason final =>
    rw [hrun] at hmatched hstacked
    cases hother : other image.session with
    | ok reply' final' =>
      rw [hother] at hmatched
      exact hmatched.elim
    | error reason' final' =>
      rw [hother] at hmatched
      exact ⟨congrArg Halt.abort hmatched.1, hstacked rfl hmatched.2⟩

theorem stacked_liftAct_of_roams {action : Act α} {other : Act β} (roams : action.Roams policy)
    (stacked : world.Stacked offset policy hosts linked image)
    (hmatches : ∀ ground : Ground offset, ground.Carries world.session image.session →
      Matches ground.Carries Q world.session image.session action other) :
    Matches (World.Stacked offset policy hosts linked) Q world image (liftAct action)
      (liftAct other) := by
  obtain ⟨hsteady, remembers⟩ :=
    Session.Deeds.spec (roams world.session stacked.steady.atRest) stacked.steady
  exact stacked_liftAct stacked hmatches ⟨hsteady, remembers.ages⟩

theorem stacked_report {event : Event} (hquiet : event.initializes = none)
    (stacked : world.Stacked offset policy hosts linked image) :
    Matches (World.Stacked offset policy hosts linked) Eq world image
      (liftAct (Act.report event)) (liftAct (Act.report event)) := by
  refine stacked_liftAct_of_roams (Act.roams_report hquiet) stacked fun ground hcarries => ?_
  have hreport := Act.matches_report hcarries event
  rwa [Event.rename_of_quiet hquiet] at hreport

theorem stacked_framed {inner : Run σ α} {other : Run σ β} (values : List Value)
    (stacked : world.Stacked offset policy hosts linked image)
    (hinner : ∀ framed framed' : World σ, framed.Stacked offset policy hosts linked framed' →
      Matches (World.Stacked offset policy hosts linked) Q framed framed' inner other) :
    Matches (World.Stacked offset policy hosts linked) Q world image (framed values inner)
      (framed (values.map (·.moved offset)) other) := by
  apply matches_get_bind
  have hframed : World.Stacked offset policy hosts linked
      { world with held := [], pinned := values ++ world.held ++ world.pinned }
      { image with
        held := []
        pinned := values.map (·.moved offset) ++ image.held ++ image.pinned } :=
    { stacked with
      held := rfl
      pinned := by
        rw [List.map_append, List.map_append, ← stacked.held, ← stacked.pinned] }
  refine (matches_modify hframed).bind fun _ _ middle middle' _ hmiddle => ?_
  refine (hinner middle middle' hmiddle).bind ?_
  intro reply reply' after after' hreply hafter
  have hrestored : World.Stacked offset policy hosts linked
      { after with held := world.held, pinned := world.pinned }
      { after' with held := image.held, pinned := image.pinned } :=
    { hafter with held := stacked.held, pinned := stacked.pinned }
  exact (matches_modify hrestored).bind fun _ _ _ _ _ hfinal => matches_pure hfinal hreply

end Run

end

/-! ### Programs -/

/-- The second program does on top of a ground what the first does without one. -/
inductive Program.Alike {σ α β : Type} (offset : Offset) (policy : CategoryConflictPolicy)
    (hosts : σ → σ → Prop) (Q : α → β → Prop) : Program σ α → Program σ β → Prop
  | done {value : α} {image : β} (h : Q value image) :
      Alike offset policy hosts Q (.done value) (.done image)
  | look {next : World σ → Program σ α} {other : World σ → Program σ β}
      (h : ∀ world image, World.Stacked offset policy hosts [] world image →
        Alike offset policy hosts Q (next world) (other image)) :
      Alike offset policy hosts Q (.look next) (.look other)
  | keep {state image : σ} {next : Program σ α} {other : Program σ β} (hhost : hosts state image)
      (h : Alike offset policy hosts Q next other) :
      Alike offset policy hosts Q (.keep state next) (.keep image other)
  | hold {values : List Value} {next : Program σ α} {other : Program σ β}
      (h : Alike offset policy hosts Q next other) :
      Alike offset policy hosts Q (.hold values next) (.hold (values.map (·.moved offset)) other)
  | act {operation : Operation} {next : operation.Reply → Program σ α}
      {other : (operation.moved offset).Reply → Program σ β}
      (h : ∀ reply, Alike offset policy hosts Q (next reply)
        (other (operation.movedReply offset reply))) :
      Alike offset policy hosts Q (.act operation next) (.act (operation.moved offset) other)
  | ask {request : Request} {next : request.Reply → Program σ α}
      {other : (request.moved offset).Reply → Program σ β}
      (h : ∀ reply, Alike offset policy hosts Q (next reply)
        (other (request.movedReply offset reply))) :
      Alike offset policy hosts Q (.ask request next) (.ask (request.moved offset) other)

section

variable {σ α β γ δ : Type} {offset : Offset} {policy : CategoryConflictPolicy}
  {hosts : σ → σ → Prop} {Q : α → β → Prop} {P : γ → δ → Prop}

theorem Program.Alike.andThen {program : Program σ α} {image : Program σ β}
    {next : α → Program σ γ} {other : β → Program σ δ}
    (alike : program.Alike offset policy hosts Q image)
    (h : ∀ value value', Q value value' → (next value).Alike offset policy hosts P (other value')) :
    (program.andThen next).Alike offset policy hosts P (image.andThen other) := by
  induction alike with
  | done hvalue => exact h _ _ hvalue
  | look _ ih => exact .look ih
  | keep hhost _ ih => exact .keep hhost ih
  | hold _ ih => exact .hold ih
  | act _ ih => exact .act ih
  | ask _ ih => exact .ask ih

theorem Program.Alike.mono {program : Program σ α} {image : Program σ β} {weaker : α → β → Prop}
    (alike : program.Alike offset policy hosts Q image)
    (h : ∀ value value', Q value value' → weaker value value') :
    program.Alike offset policy hosts weaker image := by
  have hthen := alike.andThen fun value value' hvalue => .done (h value value' hvalue)
  rwa [Program.andThen_done, Program.andThen_done] at hthen

/-- Requests are answered on top of a ground as they are without one. -/
def Answers (offset : Offset) (policy : CategoryConflictPolicy) (hosts : σ → σ → Prop)
    (answer : (request : Request) → Run σ request.Reply) : Prop :=
  ∀ request linked world image, World.Stacked offset policy hosts linked world image →
    Matches (World.Stacked offset policy hosts linked)
      (fun reply reply' => reply' = request.movedReply offset reply) world image (answer request)
      (answer (request.moved offset))

variable {linked : List PairId} {world image : World σ} {holds : σ → List Value}
  {answer : (request : Request) → Run σ request.Reply}

theorem Program.Alike.run {program : Program σ α} {other : Program σ β}
    (alike : program.Alike offset policy hosts Q other) (hroots : Roots offset hosts holds)
    (hanswer : Answers offset policy hosts answer)
    (stacked : world.Stacked offset policy hosts linked image) :
    Matches (World.Stacked offset policy hosts linked) Q world image (program.run holds answer)
      (other.run holds answer) := by
  induction alike generalizing world image with
  | done h => exact matches_pure stacked h
  | look _ ih =>
    refine (Run.stacked_settle hroots stacked).bind fun _ _ settled settled' _ hsettled => ?_
    apply matches_get_bind
    exact ih settled settled' (hsettled.narrow (List.nil_subset _)) hsettled
  | keep hhost _ ih =>
    exact (matches_modify { stacked with host := hhost }).bind fun _ _ _ _ _ hmiddle => ih hmiddle
  | hold _ ih =>
    exact (matches_modify { stacked with held := rfl }).bind fun _ _ _ _ _ hmiddle => ih hmiddle
  | @act operation _ _ _ ih =>
    refine (Run.stacked_settle hroots stacked).bind fun _ _ settled settled' _ hsettled => ?_
    have hperform := Run.stacked_liftAct_of_roams (Act.roams_perform fun _ _ => trivial) hsettled
      fun ground hcarries => Act.matches_perform hcarries operation
    refine hperform.bind ?_
    rintro reply _ middle middle' rfl hmiddle
    exact ih reply hmiddle
  | @ask request _ _ _ ih =>
    refine (Run.stacked_settle hroots stacked).bind fun _ _ settled settled' _ hsettled => ?_
    refine (hanswer request linked settled settled' hsettled).bind ?_
    rintro reply _ middle middle' rfl hmiddle
    exact ih reply hmiddle

end

end LateBinding
