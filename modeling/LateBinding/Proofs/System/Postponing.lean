import LateBinding.Proofs.Execution.Onward
import LateBinding.Proofs.System.Mirroring

/-!
# Binding can wait

What is entered in a registry does not depend on the objects, nor on those that wait for their class.
So it makes no difference whether objects are bound as soon as their class has linked or only after
more classes and categories have been entered.
-/

namespace LateBinding

/-- The same classes beside other objects. -/
def Relocation.withObjects (objects : Array Object) : Relocation where
  pair id := id
  heap h := { h with objects }
  injective := fun _ _ h => h
  pair_heap h id := (ClassPair.rename_self _).symm
  modify_heap h id change other hchange := by
    have hsame : other = change := by
      funext pair
      simpa using hchange pair
    rw [hsame]
    rfl
  add_heap _ _ _ _ := rfl
  loosen_heap _ _ := rfl

theorem Relocation.classes_withObjects (objects : Array Object) (classes : Classes) :
    (withObjects objects).classes classes =
      { classes with heap := { classes.heap with objects } } := by
  have hlog : classes.log.map (·.rename fun other => other) = classes.log := by
    rw [funext Event.rename_self]
    exact Array.map_id' classes.log
  change Classes.mk _ (classes.registry.rename fun other => other)
    (classes.log.map (·.rename fun other => other)) = _
  rw [Registry.rename_self, hlog]
  rfl

/-! ### Binding -/

namespace Heap

/-- Only the objects matter for what becomes of them. -/
theorem bindAll_congr {heap other : Heap} (hobjects : other.objects = heap.objects) (cls : PairId)
    (ids : List ObjectId) :
    (other.bindAll cls ids).2.objects = (heap.bindAll cls ids).2.objects := by
  induction ids generalizing heap other with
  | nil => exact hobjects
  | cons id rest ih =>
    apply ih
    change (other.bind id cls).2.objects = (heap.bind id cls).2.objects
    unfold Heap.bind
    have hobject : other.object id = heap.object id := by rw [object, object, hobjects]
    rw [hobject]
    cases (heap.object id).cls with
    | some known => exact hobjects
    | none =>
      let change (object : Object) : Object := { object with cls := some cls }
      exact congrArg (fun objects : Array Object => objects.modify id.index change) hobjects

theorem bindAll_eq (heap : Heap) (cls : PairId) (ids : List ObjectId) :
    (heap.bindAll cls ids).2 = { heap with objects := (heap.bindAll cls ids).2.objects } := by
  obtain ⟨hpairs, hloose, -⟩ := heap.stores_bindAll cls ids
  generalize (heap.bindAll cls ids).2 = later at hpairs hloose
  obtain ⟨pairs, objects, loose⟩ := later
  dsimp only at hpairs hloose
  rw [hpairs, hloose]

end Heap

namespace Session

/-- The session with other objects, of which others wait. -/
def beside (session : Session) (objects : Array Object) (statics : StaticQueue) : Session where
  heap := { session.heap with objects }
  system := { session.system with statics }
  log := session.log

def bindWaiting (session : Session) (pair : PairId) : Session :=
  let name := (session.heap.pair pair).name
  session.beside (session.heap.bindAll pair (session.system.statics.under name)).2.objects
    (session.system.statics.without name)

/-- The session after all that waits for some classes was bound. -/
def bound (session : Session) (pairs : List PairId) : Session := pairs.foldl bindWaiting session

theorem bound_append (session : Session) (first second : List PairId) :
    session.bound (first ++ second) = (session.bound first).bound second := List.foldl_append

/-- Binding changes nothing but objects and those that wait. -/
theorem bound_eq_beside (session : Session) (pairs : List PairId) :
    session.bound pairs =
      session.beside (session.bound pairs).heap.objects (session.bound pairs).system.statics := by
  induction pairs generalizing session with
  | nil => rfl
  | cons pair rest ih => exact ih (session.bindWaiting pair)

theorem registry_bound (session : Session) (pairs : List PairId) :
    (session.bound pairs).system.registry = session.system.registry := by
  rw [session.bound_eq_beside]
  rfl

/-- What is bound depends on the objects and on the names of the classes. -/
theorem bound_congr {session other : Session} {pairs : List PairId}
    (hobjects : other.heap.objects = session.heap.objects)
    (hstatics : other.system.statics = session.system.statics)
    (hnames : ∀ pair ∈ pairs, (other.heap.pair pair).name = (session.heap.pair pair).name) :
    other.bound pairs = other.beside (session.bound pairs).heap.objects
      (session.bound pairs).system.statics := by
  induction pairs generalizing session other with
  | nil =>
    change other = other.beside session.heap.objects session.system.statics
    rw [← hobjects, ← hstatics]
    rfl
  | cons pair rest ih =>
    have hname := hnames pair List.mem_cons_self
    have hrest := fun other hother => hnames other (List.mem_cons_of_mem pair hother)
    refine @ih (session.bindWaiting pair) (other.bindWaiting pair) ?_ ?_ hrest
    · change (other.heap.bindAll pair _).2.objects = (session.heap.bindAll pair _).2.objects
      rw [hname, hstatics]
      exact Heap.bindAll_congr hobjects pair _
    · change other.system.statics.without _ = session.system.statics.without _
      rw [hname, hstatics]

theorem mirrors_beside (session : Session) (objects : Array Object) (statics : StaticQueue) :
    session.Mirrors (.withObjects objects) Eq (fun _ => statics)
      (session.beside objects statics) where
  classes := (Relocation.classes_withObjects objects session.classes).symm
  selectors := rfl
  statics := rfl
  forward := rfl
  options := rfl

theorem Mirrors.eq_beside {session image : Session} {objects : Array Object}
    {statics : StaticQueue}
    (mirrors : session.Mirrors (.withObjects objects) Eq (fun _ => statics) image) :
    image = session.beside objects statics := by
  have hclasses := mirrors.classes
  rw [Relocation.classes_withObjects] at hclasses
  obtain ⟨hheap, hregistry, hlog⟩ := Classes.mk.inj hclasses
  obtain ⟨heap, ⟨options, selectors, registry, queue, forward⟩, log⟩ := image
  obtain ⟨-, hselectors, rfl, rfl, rfl⟩ := mirrors
  dsimp only at hheap hregistry hlog hselectors
  subst hheap hregistry hlog hselectors
  rfl

end Session

namespace Act

variable {α : Type} {action : Act α} {session final : Session} {reply : α}

/-- The action has nothing to do with objects. -/
def Apart (action : Act α) : Prop :=
  ∀ session objects statics,
    Matches (Session.Mirrors (.withObjects objects) Eq fun _ => statics) Eq session
      (session.beside objects statics) action action

theorem apart_enterClass (spec : ClassSpec) : (enterClass spec).Apart :=
  fun session objects statics =>
    (matches_enterClass (session.mirrors_beside objects statics)
      SelectorTable.bisimulation_eq spec).mono fun _ _ => Eq.symm

theorem apart_applyCategories (specs : List CategorySpec) : Apart (specs.mapM applyCategory) := by
  intro session objects statics
  have hsame : List.Forall₂ Eq specs specs := List.forall₂_same.mpr fun _ _ => rfl
  refine (matches_mapM hsame (session.mirrors_beside objects statics) ?_).mono
    fun _ _ hreplies => (congrFun₂ List.forall₂_eq_eq_eq _ _).mp hreplies
  rintro spec _ middle image rfl hmirrors
  exact matches_applyCategory hmirrors SelectorTable.bisimulation_eq spec

theorem Apart.run_beside (apart : action.Apart) (hrun : action session = .ok reply final)
    (objects : Array Object) (statics : StaticQueue) :
    action (session.beside objects statics) = .ok reply (final.beside objects statics) := by
  have hmatches := apart session objects statics
  unfold Matches at hmatches
  rw [hrun] at hmatches
  revert hmatches
  cases action (session.beside objects statics) with
  | error reason after => exact False.elim
  | ok reply' after =>
    rintro ⟨rfl, mirrors⟩
    rw [mirrors.eq_beside]

/-- The objects and those that wait are left alone. -/
theorem Apart.eq_beside (apart : action.Apart) (hrun : action session = .ok reply final) :
    final = final.beside session.heap.objects session.system.statics := by
  have hown := apart.run_beside hrun session.heap.objects session.system.statics
  have hsame : EStateM.Result.ok reply final = _ := hrun.symm.trans hown
  injection hsame

/-- What was bound before could as well be bound afterwards. -/
theorem Apart.run_bound (apart : action.Apart) (hrun : action session = .ok reply final)
    {pairs : List PairId}
    (hnames : ∀ pair ∈ pairs, (final.heap.pair pair).name = (session.heap.pair pair).name) :
    action (session.bound pairs) = .ok reply (final.bound pairs) := by
  have hfinal := apart.eq_beside hrun
  rw [session.bound_eq_beside, apart.run_beside hrun,
    Session.bound_congr (congrArg (·.heap.objects) hfinal) (congrArg (·.system.statics) hfinal)
      hnames]

theorem run_bindWaiting (session : Session) (pair : PairId) :
    bindWaiting pair session = .ok ⟨⟩ (session.bindWaiting pair) := by
  rw [Session.bindWaiting, Session.beside, ← Heap.bindAll_eq]
  rfl

theorem run_finishLinking (session : Session) (linked : List ClassId) :
    finishLinking linked session =
      .ok (session.pairsOf linked) (session.bound (session.pairsOf linked)) := by
  have hbind : ∀ (pairs : List PairId) (session : Session),
      pairs.forM bindWaiting session = .ok ⟨⟩ (session.bound pairs) := by
    intro pairs
    induction pairs with
    | nil => exact fun _ => rfl
    | cons pair rest ih =>
      exact fun session => (bind_of_ok (run_bindWaiting session pair) _).trans (ih _)
  have hpairs : pairsOf linked session = .ok (session.pairsOf linked) session := rfl
  rw [finishLinking, bind_of_ok hpairs, bind_of_ok (hbind _ session)]
  rfl

end Act

end LateBinding
