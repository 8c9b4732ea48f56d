import LateBinding.Proofs.Registry.Lineage
import LateBinding.Proofs.Registry.Subtree
import LateBinding.Proofs.Tables.Kept

/-!
# Registered classes keep their places

The pair of a linked class has the link that its place demands: to the pair of its superclass, or to
none if it is a root. What a registered class is referred to by is there, for neither side of its
pair is released: only what was removed is put aside to be released.
-/

namespace LateBinding

open Registry

namespace Classes

variable {start built linked final : Classes}

/-! ### No change of the classes renames or releases anything -/

theorem Builds.abides {id : ClassId} {record : Record} (builds : start.Builds id record built) :
    start.heap.Abides built.heap := by
  obtain ⟨plain, metaclass, hheap, -⟩ := builds.heap
  rw [hheap]
  exact Heap.abides_withTables _ _ _

theorem BuildsAll.abides {ids : List ClassId} (builds : start.BuildsAll ids final) :
    start.heap.Abides final.heap := by
  induction builds with
  | done => exact .refl
  | skip _ _ ih => exact ih
  | build built _ ih => exact built.abides.trans ih

theorem Alters.abides {id : ClassId} {old new : Record} (alters : start.Alters id old new final) :
    start.heap.Abides final.heap := by
  cases alters.rebuilds with
  | pending => exact .refl
  | linked _ builds => exact builds.abides

theorem Links.abides {id : ClassId} {record : Record} {superclass : Option ClassId}
    (links : start.Links id record superclass linked) : start.heap.Abides linked.heap := by
  obtain ⟨built, builds, rfl⟩ := links.built
  exact (Heap.abides_setLink _ _).trans builds.abides

theorem Cascade.abides {queue order : List ClassId} (cascade : start.Cascade queue order final) :
    start.heap.Abides final.heap := by
  induction cascade with
  | done => exact .refl
  | link links _ ih => exact links.abides.trans ih

theorem Registers.abides {definition : ClassDefinition} {order : List ClassId}
    (registers : start.Registers definition order final) : start.heap.Abides final.heap := by
  have hentered : start.heap.Abides (start.entered definition).heap := Heap.abides_addPair _ _ _
  cases registers with
  | links _ cascade => exact hentered.trans cascade.abides
  | waits => exact hentered

theorem Applies.abides {category : CategoryDefinition} {status : CategoryStatus}
    (applies : start.Applies category status final) : start.heap.Abides final.heap := by
  cases applies with
  | waits => exact .refl
  | merges _ alters => exact alters.abides

theorem Adds.abides {id : ClassId} {kind : ClassKind} {method : MethodDefinition} {added : Bool}
    (adds : start.Adds id kind method added final) : start.heap.Abides final.heap := by
  cases adds with
  | unknown => exact .refl
  | defined => exact .refl
  | adds _ alters => exact alters.abides

theorem Replaces.abides {id : ClassId} {kind : ClassKind} {method : MethodDefinition}
    {replaced : Option Imp} (replaces : start.Replaces id kind method replaced final) :
    start.heap.Abides final.heap := by
  cases replaces with
  | unknown => exact .refl
  | replaces alters => exact alters.abides

theorem Removal.abides {stack : List ClassId} {pairs : List PairId}
    (removal : start.Removal stack pairs final) : start.heap.Abides final.heap := by
  induction removal with
  | done => exact .refl
  | skip _ _ ih => exact ih
  | remove _ _ ih => exact (Heap.abides_withdraw _).trans ih

theorem abides_cleared (classes : Classes) : classes.heap.Abides classes.cleared.heap := by
  have hall : ∀ (records : List Record) (heap : Heap),
      heap.Abides (records.foldl (fun heap record => heap.withdraw record.pair) heap) := by
    intro records
    induction records with
    | nil => exact fun heap => .refl
    | cons record rest ih => exact fun heap => (Heap.abides_withdraw _).trans (ih _)
  exact hall _ _

/-! ### The links of the pairs -/

/-- The pairs of the linked classes have the links that their places demand, but for the classes on
a stack. -/
def InPlace (classes : Classes) (stack : List ClassId) : Prop :=
  ∀ id record, classes.registry.record? id = some record → record.state ≠ .pending → id ∉ stack →
    (classes.heap.pair record.pair).link = some (classes.placeBelow record.superclass?)

theorem placeBelow_eq (classes : Classes) (record : Record) :
    classes.placeBelow record.superclass? = match classes.registry.parentPair? record with
      | none => .root
      | some pair => .child pair ((classes.heap.pair pair).rootOf pair) := by
  unfold placeBelow parentPair?
  cases record.superclass?.bind classes.registry.record? <;> rfl

theorem placeBelow_congr (record new : Record)
    (hparent : final.registry.parentPair? new = start.registry.parentPair? record)
    (hlink : ∀ pair, start.registry.parentPair? record = some pair →
      (final.heap.pair pair).link = (start.heap.pair pair).link) :
    final.placeBelow new.superclass? = start.placeBelow record.superclass? := by
  rw [placeBelow_eq, placeBelow_eq, hparent]
  cases hpair : start.registry.parentPair? record with
  | none => rfl
  | some pair =>
    simp only [ClassPair.rootOf, hlink pair hpair]

theorem InPlace.transfer {stack stack' : List ClassId} (inPlace : start.InPlace stack)
    (hlink : ∀ pair, (final.heap.pair pair).link = (start.heap.pair pair).link)
    (hkept : ∀ id new, final.registry.record? id = some new → new.state ≠ .pending → id ∉ stack' →
      ∃ record, start.registry.record? id = some record ∧ id ∉ stack ∧ new.pair = record.pair ∧
        new.state = record.state ∧ ∀ parent, record.superclass? = some parent →
          (final.registry.record? parent).map (·.pair) =
            (start.registry.record? parent).map (·.pair)) : final.InPlace stack' := by
  intro id new hnew hlinked hstack
  obtain ⟨record, hrecord, hfree, hpair, hstate, hparents⟩ := hkept id new hnew hlinked hstack
  rw [hstate] at hlinked
  rw [hpair, hlink, inPlace id record hrecord hlinked hfree,
    placeBelow_congr record new (parentPair?_congr hstate hparents) fun pair _ => hlink pair]

theorem InPlace.of_record? {stack : List ClassId} (inPlace : start.InPlace stack)
    (hlink : ∀ pair, (final.heap.pair pair).link = (start.heap.pair pair).link)
    (hrecord : final.registry.record? = start.registry.record?) : final.InPlace stack := by
  apply inPlace.transfer hlink
  intro id new hnew _ hstack
  rw [hrecord] at hnew ⊢
  exact ⟨new, hnew, hstack, rfl, rfl, fun _ _ => rfl⟩

theorem Builds.link_eq {id : ClassId} {record : Record} (builds : start.Builds id record built)
    (pair : PairId) : (built.heap.pair pair).link = (start.heap.pair pair).link := by
  obtain ⟨plain, metaclass, hheap, -⟩ := builds.heap
  rw [hheap]
  exact (Heap.idles_withTables _ _ _).link_eq pair

theorem BuildsAll.link_eq {ids : List ClassId} (builds : start.BuildsAll ids final)
    (pair : PairId) : (final.heap.pair pair).link = (start.heap.pair pair).link := by
  induction builds with
  | done => rfl
  | skip _ _ ih => exact ih
  | build built _ ih => exact ih.trans (built.link_eq pair)

theorem Alters.inPlace {id : ClassId} {old new : Record} (alters : start.Alters id old new final)
    (inPlace : start.InPlace []) : final.InPlace [] := by
  apply inPlace.transfer
  · intro pair
    cases alters.rebuilds with
    | pending => rfl
    | linked _ builds => exact builds.link_eq pair
  · have hparents : ∀ parent, (final.registry.record? parent).map (·.pair) =
        (start.registry.record? parent).map (·.pair) := by
      intro parent
      rw [alters.record?_eq]
      split
      · next heq => rw [← heq, alters.registered, Option.map_some, Option.map_some, alters.pair]
      · rfl
    intro other after hafter _ hstack
    rw [alters.record?_eq] at hafter
    split at hafter
    · next heq =>
      subst heq
      cases hafter
      exact ⟨old, alters.registered, hstack, alters.pair, congrArg Standing.state alters.standing,
        fun parent _ => hparents parent⟩
    · exact ⟨after, hafter, hstack, rfl, rfl, fun parent _ => hparents parent⟩

theorem InPlace.entered (inPlace : start.InPlace []) (hierarchy : start.registry.Hierarchy)
    (definition : ClassDefinition) : (start.entered definition).InPlace [] := by
  have hget := start.registry.record?_addRecord (start.newRecord definition)
  apply inPlace.transfer (Heap.idles_addPair _ _ _).link_eq
  intro id new hnew hlinked hstack
  rw [Classes.entered, hget] at hnew
  split at hnew
  · cases hnew
    exact absurd rfl hlinked
  · refine ⟨new, hnew, hstack, rfl, rfl, ?_⟩
    intro parent hparent
    obtain ⟨above, habove, -⟩ := hierarchy.above id parent ⟨new, hnew, hparent⟩
    rw [Classes.entered, hget, if_neg]
    rintro rfl
    rw [record?_nextId] at habove
    cases habove

section

variable {id : ClassId} {record : Record} {superclass : Option ClassId}

theorem pair?_placed (pair : PairId) (hother : superclass ≠ some id) (other : ClassId) :
    ((start.placed id pair superclass).registry.record? other).map (·.pair) =
      (start.registry.record? other).map (·.pair) := by
  rw [placed, start.registry.record?_markLinked hother]
  split
  · rw [Option.map_map]
    rfl
  · split
    · rw [Option.map_map]
      rfl
    · rfl

/-- The class takes the place below its superclass, and nobody else's place is changed by it: it was
pending, so nobody is below it. -/
theorem InPlace.placed (inPlace : start.InPlace []) (settled : start.Settled)
    (hierarchy : start.registry.Hierarchy) (hrecord : start.registry.record? id = some record)
    (hpending : record.state = .pending)
    (fits : start.registry.Fits record.standing superclass) :
    (start.placed id record.pair superclass).InPlace [] := by
  obtain ⟨order, lineage⟩ := settled
  have hother := fits.ne (standing?_of_record hrecord) hpending
  have hseat := seat?_of_record hrecord
  have hlink : ∀ other another, start.registry.record? other = some another → id ≠ other →
      ((start.placed id record.pair superclass).heap.pair another.pair).link =
        (start.heap.pair another.pair).link := by
    intro other another hanother hne
    have hpair := lineage.pair_ne hseat (seat?_of_record hanother) hne
    rw [Classes.placed, Heap.pair_setLink, if_neg fun h => hpair h.1]
  intro other after hafter hlinked _
  have hmarked := hafter
  rw [Classes.placed, start.registry.record?_markLinked hother] at hmarked
  by_cases heq : id = other
  · subst heq
    rw [if_pos rfl, hrecord] at hmarked
    cases hmarked
    have hparent : (start.placed id record.pair superclass).placeBelow superclass =
        start.placeBelow superclass := by
      refine placeBelow_congr { record with state := .linked superclass }
        { record with state := .linked superclass }
        (parentPair?_congr rfl fun parent _ => pair?_placed record.pair hother parent) ?_
      intro pair hpair
      obtain ⟨parent, above, hsuper, habove, rfl⟩ := (parentPair?_eq_some_iff pair).mp hpair
      refine hlink parent above habove ?_
      rintro rfl
      exact hother hsuper
    change _ = some ((start.placed id record.pair superclass).placeBelow superclass)
    rw [hparent, Classes.placed, Heap.pair_setLink, if_pos ⟨rfl, lineage.made id _ hseat⟩]
  · rw [if_neg heq] at hmarked
    obtain ⟨before, hbefore, hpair, hstate⟩ : ∃ before,
        start.registry.record? other = some before ∧ after.pair = before.pair ∧
          after.state = before.state := by
      split at hmarked
      · obtain ⟨before, hbefore, rfl⟩ := Option.map_eq_some_iff.mp hmarked
        exact ⟨before, hbefore, rfl, rfl⟩
      · exact ⟨after, hmarked, rfl, rfl⟩
    rw [hstate] at hlinked
    rw [hpair, hlink other before hbefore heq, inPlace other before hbefore hlinked
      List.not_mem_nil]
    refine congrArg some (placeBelow_congr before after
      (parentPair?_congr hstate fun parent _ => pair?_placed record.pair hother parent) ?_).symm
    intro pair hparent
    obtain ⟨parent, above, hsuper, habove, rfl⟩ := (parentPair?_eq_some_iff pair).mp hparent
    refine hlink parent above habove ?_
    rintro rfl
    exact hierarchy.not_isBelow hrecord hpending other ⟨before, hbefore, hsuper⟩

end

theorem Links.inPlace {id : ClassId} {record : Record} {superclass : Option ClassId}
    (links : start.Links id record superclass linked) (hierarchy : start.registry.Hierarchy)
    (settled : start.Settled) (inPlace : start.InPlace []) : linked.InPlace [] := by
  obtain ⟨built, builds, rfl⟩ := links.built
  have hplaced := inPlace.placed settled hierarchy links.registered links.pending links.fits
  exact (hplaced.of_record? builds.link_eq builds.record?_eq).of_record? (fun _ => rfl) rfl

theorem Cascade.inPlace {queue order : List ClassId} (cascade : start.Cascade queue order final)
    (consistent : start.registry.Consistent queue) (ready : start.registry.Ready queue)
    (settled : start.Settled) (inPlace : start.InPlace []) : final.InPlace [] := by
  induction cascade with
  | done => exact inPlace
  | @link start linked _ _ _ _ record _ links _ ih =>
    have hlinked := links.inPlace (consistent.hierarchy_of_ready ready) settled inPlace
    have hreleased : linked.Carries (linked.released record.name) := carries_registry rfl
    exact ih (links.consistent consistent ready) (links.ready consistent ready)
      ((links.carries.trans hreleased) settled).1
      (hlinked.of_record? (fun _ => rfl) (record?_releaseWaiters _ _))

theorem Registers.inPlace {definition : ClassDefinition} {order : List ClassId}
    (registers : start.Registers definition order final)
    (hname : start.registry.idOf? definition.name = none)
    (consistent : start.registry.Consistent []) (settled : start.Settled)
    (inPlace : start.InPlace []) : final.InPlace [] := by
  have hentered := inPlace.entered (consistent.hierarchy_of_ready (.nil _)) definition
  cases registers with
  | links ready cascade =>
    exact cascade.inPlace (consistent_entered consistent hname) ready
      (carries_entered definition settled).1 hentered
  | waits => exact hentered.of_record? (fun _ => rfl) (record?_await _ _ _)

theorem Applies.inPlace {category : CategoryDefinition} {status : CategoryStatus}
    (applies : start.Applies category status final) (inPlace : start.InPlace []) :
    final.InPlace [] := by
  cases applies with
  | waits => exact inPlace.of_record? (fun _ => rfl) (record?_holdBack _ _)
  | merges _ alters => exact alters.inPlace (inPlace.of_record? (fun _ => rfl) rfl)

theorem Adds.inPlace {id : ClassId} {kind : ClassKind} {method : MethodDefinition} {added : Bool}
    (adds : start.Adds id kind method added final) (inPlace : start.InPlace []) :
    final.InPlace [] := by
  cases adds with
  | unknown => exact inPlace
  | defined => exact inPlace
  | adds _ alters => exact alters.inPlace inPlace

theorem Replaces.inPlace {id : ClassId} {kind : ClassKind} {method : MethodDefinition}
    {replaced : Option Imp} (replaces : start.Replaces id kind method replaced final)
    (inPlace : start.InPlace []) : final.InPlace [] := by
  cases replaces with
  | unknown => exact inPlace
  | replaces alters => exact alters.inPlace inPlace

/-- Those right below the class that is taken out are on the stack from then on. -/
theorem InPlace.without {stack : List ClassId} {id : ClassId} {record : Record}
    (inPlace : start.InPlace (id :: stack)) (consistent : start.registry.Consistent (id :: stack))
    (registered : start.registry.record? id = some record) :
    (start.without id record).InPlace ((start.registry.followers record).reverse ++ stack) := by
  apply inPlace.transfer (Heap.idles_withdraw record.pair).link_eq
  intro other after hafter _ stays
  obtain ⟨hne, before, hbefore, hpair, -, hstate, -⟩ := record?_of_without registered hafter
  refine ⟨before, hbefore, ?_, hpair, hstate, ?_⟩
  · exact List.not_mem_cons_of_ne_of_not_mem hne.symm fun hmem =>
      stays (List.mem_append_right _ hmem)
  · intro parent hparent
    apply pair?_without_of_ne registered
    rintro rfl
    exact not_isBelow_of_stays registered consistent stays ⟨before, hbefore, hparent⟩

theorem Removal.inPlace {stack : List ClassId} {pairs : List PairId}
    (removal : start.Removal stack pairs final) (consistent : start.registry.Consistent stack)
    (inPlace : start.InPlace stack) : final.InPlace [] := by
  induction removal with
  | done => exact inPlace
  | @skip start _ id stack _ gone _ ih =>
    refine ih (consistent.pass gone) fun other record hrecord hlinked hstack =>
      inPlace other record hrecord hlinked (List.not_mem_cons_of_ne_of_not_mem ?_ hstack)
    rintro rfl
    cases gone.symm.trans hrecord
  | remove registered _ ih =>
    exact ih (consistent.takeOut registered) (inPlace.without consistent registered)

/-! ### What can be released -/

/-- Nothing of a registered class is released, and what is put aside was removed. -/
structure Held (classes : Classes) : Prop where
  held : ∀ pair, classes.registry.Houses pair → ∀ kind,
    (classes.heap.pair pair).released.get kind = false
  loose : ∀ pair ∈ classes.heap.loose, classes.heap.HasPair pair ∧ ¬ classes.registry.Houses pair

/-- A class moves into a pair that was not made before, if into another at all. -/
theorem Held.advance (held : start.Held) (advances : start.Advances final)
    (abides : start.heap.Abides final.heap)
    (hloose : ∀ pair ∈ final.heap.loose, pair ∈ start.heap.loose ∨
      final.heap.HasPair pair ∧ ¬ final.registry.Houses pair) : final.Held where
  held pair hhouses kind := by
    rw [abides.released]
    by_cases hbefore : start.registry.Houses pair
    · exact held.held pair hbefore kind
    · have hnew : ¬ start.heap.HasPair pair := fun hpair =>
        advances.gone pair hpair hbefore hhouses
      rw [Heap.pair_eq_default hnew]
      cases kind <;> rfl
  loose pair hpair := by
    rcases hloose pair hpair with hold | hnew
    · obtain ⟨hmade, hgone⟩ := held.loose pair hold
      exact ⟨abides.hasPair pair hmade, advances.gone pair hmade hgone⟩
    · exact hnew

theorem TakesOut.not_houses {ids : List ClassId} {pairs : List PairId} {pair : PairId}
    (takesOut : start.TakesOut ids pairs final) (settled : start.Settled) (hpair : pair ∈ pairs) :
    start.registry.Houses pair ∧ ¬ final.registry.Houses pair := by
  obtain ⟨order, lineage⟩ := settled
  obtain ⟨id, hid, record, hrecord, rfl⟩ := (takesOut.mem_pairs_iff pair).mp hpair
  refine ⟨houses_of_record hrecord, ?_⟩
  rintro ⟨other, seat, hseat, hsame⟩
  obtain ⟨after, hafter, rfl⟩ := Option.map_eq_some_iff.mp hseat
  rw [takesOut.registry.record?] at hafter
  split at hafter
  · cases hafter
  · next hother =>
    obtain ⟨before, hbefore, rfl⟩ := Option.map_eq_some_iff.mp hafter
    have hne : other ≠ id := by
      rintro rfl
      exact hother hid
    exact lineage.pair_ne (seat?_of_record hbefore) (seat?_of_record hrecord) hne hsame

theorem Removal.held {stack : List ClassId} {pairs : List PairId}
    (removal : start.Removal stack pairs final) (consistent : start.registry.Consistent stack)
    (settled : start.Settled) (held : start.Held) : final.Held := by
  obtain ⟨ids, takesOut, -⟩ := removal.takesOut consistent
  have abides := removal.abides
  apply held.advance (removal.carries settled).2 abides
  intro pair hpair
  rw [takesOut.heap.loose, List.mem_append, List.mem_reverse] at hpair
  rcases hpair with hnew | hold
  · obtain ⟨⟨id, seat, hseat, rfl⟩, hgone⟩ := takesOut.not_houses settled hnew
    obtain ⟨order, lineage⟩ := settled
    exact .inr ⟨abides.hasPair _ (lineage.made id seat hseat), hgone⟩
  · exact .inl hold

theorem held_cleared (settled : start.Settled) (held : start.Held) : start.cleared.Held := by
  apply held.advance (carries_cleared settled).2 start.abides_cleared
  have hloose : ∀ (records : List Record) (heap : Heap) (pair : PairId),
      pair ∈ (records.foldl (fun heap record => heap.withdraw record.pair) heap).loose →
        pair ∈ heap.loose ∨ ∃ record ∈ records, record.pair = pair := by
    intro records
    induction records with
    | nil => exact fun heap pair hpair => .inl hpair
    | cons record rest ih =>
      intro heap pair hpair
      rcases ih _ pair hpair with hbefore | ⟨other, hother, rfl⟩
      · rcases List.mem_cons.mp hbefore with rfl | hmem
        · exact .inr ⟨record, List.mem_cons_self, rfl⟩
        · exact .inl hmem
      · exact .inr ⟨other, List.mem_cons_of_mem _ hother, rfl⟩
  intro pair hpair
  rcases hloose _ _ pair hpair with hbefore | ⟨record, hrecord, rfl⟩
  · exact .inl hbefore
  · refine .inr ⟨start.abides_cleared.hasPair _ ?_, not_houses_empty _ _⟩
    rw [classes_eq] at hrecord
    obtain ⟨id, -, hid⟩ := List.mem_filterMap.mp hrecord
    obtain ⟨order, lineage⟩ := settled
    exact lineage.made id _ (seat?_of_record hid)

/-! ### Above a class -/

theorem Held.unlessReleased_eq (held : start.Held) {cls : ClassRef}
    (hhouses : start.registry.Houses cls.pair) : start.heap.unlessReleased cls = some cls := by
  rw [Heap.unlessReleased, held.held cls.pair hhouses cls.kind]
  rfl

/-- Above a class stands its superclass, above a root nothing, and above the metaclass of a root the
root itself. -/
theorem InPlace.superclass?_eq {id : ClassId} {record : Record} (inPlace : start.InPlace [])
    (held : start.Held) (hrecord : start.registry.record? id = some record)
    (hlinked : record.state ≠ .pending) (kind : ClassKind) :
    start.heap.superclass? ⟨record.pair, kind⟩ =
      match start.registry.parentPair? record, kind with
      | some pair, kind => some ⟨pair, kind⟩
      | none, .plain => none
      | none, .metaclass => some ⟨record.pair, .plain⟩ := by
  have hlink := inPlace id record hrecord hlinked List.not_mem_nil
  rw [placeBelow_eq] at hlink
  rw [Heap.superclass?, hlink]
  cases hparent : start.registry.parentPair? record with
  | some pair =>
    obtain ⟨parent, above, -, habove, rfl⟩ := (parentPair?_eq_some_iff pair).mp hparent
    exact held.unlessReleased_eq (houses_of_record habove)
  | none =>
    cases kind with
    | plain => rfl
    | metaclass => exact held.unlessReleased_eq (houses_of_record hrecord)

end Classes

end LateBinding
