import LateBinding.Proofs.Registry.Places
import LateBinding.Proofs.Tables.Resolution

/-!
# Following superclass handles

Whoever follows the superclass handles from a linked class meets the classes of its chain and comes to
an end at the root. From its metaclass one meets the metaclasses of the chain, and then the root class
itself. No handle is met twice.
-/

namespace LateBinding

/-! ### Paths upward -/

/-- The handles that are met on the way up from a handle, until there is none above. -/
inductive Heap.Climbs (heap : Heap) : ClassRef → List ClassRef → Prop
  | top {cls : ClassRef} (nothing : heap.superclass? cls = none) : Climbs heap cls [cls]
  | up {cls above : ClassRef} {path : List ClassRef} (next : heap.superclass? cls = some above)
      (rest : Climbs heap above path) : Climbs heap cls (cls :: path)

namespace Heap.Climbs

variable {heap : Heap} {cls : ClassRef} {path : List ClassRef}

theorem unique {other : List ClassRef} (climbs : heap.Climbs cls path)
    (others : heap.Climbs cls other) : path = other := by
  induction climbs generalizing other with
  | top nothing =>
    cases others with
    | top => rfl
    | up next => cases nothing.symm.trans next
  | up next _ ih =>
    cases others with
    | top nothing => cases nothing.symm.trans next
    | up next' rest =>
      cases next.symm.trans next'
      rw [ih rest]

theorem of_mem (climbs : heap.Climbs cls path) {other : ClassRef} (hmem : other ∈ path) :
    ∃ rest, heap.Climbs other rest ∧ rest <:+ path := by
  induction climbs with
  | top nothing =>
    obtain rfl := List.mem_singleton.mp hmem
    exact ⟨_, .top nothing, List.suffix_rfl⟩
  | up next rest ih =>
    rcases List.mem_cons.mp hmem with rfl | hmem
    · exact ⟨_, .up next rest, List.suffix_rfl⟩
    · obtain ⟨later, climbs, hsuffix⟩ := ih hmem
      exact ⟨later, climbs, hsuffix.trans (List.suffix_cons _ _)⟩

/-- A handle that is met twice would be met for ever. -/
theorem nodup (climbs : heap.Climbs cls path) : path.Nodup := by
  induction climbs with
  | top => exact List.nodup_singleton _
  | @up cls above path next rest ih =>
    refine List.nodup_cons.mpr ⟨fun hmem => ?_, ih⟩
    obtain ⟨later, climbs, hsuffix⟩ := rest.of_mem hmem
    have hlength := hsuffix.length_le
    rw [climbs.unique (.up next rest), List.length_cons] at hlength
    omega

theorem superclass?_getLast? (climbs : heap.Climbs cls path) {last : ClassRef}
    (hlast : path.getLast? = some last) : heap.superclass? last = none := by
  induction climbs with
  | top nothing =>
    cases hlast
    exact nothing
  | up next rest ih =>
    rw [List.getLast?_cons_of_ne_nil (by cases rest <;> nofun)] at hlast
    exact ih hlast

theorem filterMap_superclass? (climbs : heap.Climbs cls path) :
    path.filterMap heap.superclass? = path.tail := by
  induction climbs with
  | top nothing => rw [List.filterMap_cons, nothing]; rfl
  | up next rest ih =>
    rw [List.filterMap_cons, next, List.tail_cons]
    dsimp only
    rw [ih]
    cases rest <;> rfl

end Heap.Climbs

/-! ### Above a linked class -/

/-- The handle of one side of a class. -/
def Record.side (record : Record) (kind : ClassKind) : ClassRef := ⟨record.pair, kind⟩

theorem Heap.isa?_metaclass_of_link (heap : Heap) {pair : PairId}
    (hlink : (heap.pair pair).link ≠ none) : heap.isa? ⟨pair, .metaclass⟩ =
      heap.unlessReleased ⟨(heap.pair pair).rootOf pair, .metaclass⟩ := by
  rw [isa?, ClassPair.rootOf]
  cases hplace : (heap.pair pair).link with
  | none => exact absurd hplace hlink
  | some link => cases link <;> rfl

namespace Classes

variable {classes : Classes} {id : ClassId} {record root : Record} {chain : List Record}

theorem InPlace.superclass?_of_root (inPlace : classes.InPlace []) (held : classes.Held)
    (hrecord : classes.registry.record? id = some record) (top : record.state = .linked none) :
    classes.heap.superclass? ⟨record.pair, .plain⟩ = none ∧
      classes.heap.superclass? ⟨record.pair, .metaclass⟩ = some ⟨record.pair, .plain⟩ := by
  have hlinked := Record.ne_pending_of_linked top
  have hparent := classes.registry.parentPair?_of_root top
  constructor
  · rw [inPlace.superclass?_eq held hrecord hlinked, hparent]
  · rw [inPlace.superclass?_eq held hrecord hlinked, hparent]

theorem InPlace.superclass?_of_under (inPlace : classes.InPlace []) (held : classes.Held)
    (hrecord : classes.registry.record? id = some record) {parent : ClassId} {above : Record}
    (linked : record.state = .linked (some parent))
    (habove : classes.registry.record? parent = some above) (kind : ClassKind) :
    classes.heap.superclass? ⟨record.pair, kind⟩ = some ⟨above.pair, kind⟩ := by
  have hlinked := Record.ne_pending_of_linked linked
  rw [inPlace.superclass?_eq held hrecord hlinked,
    classes.registry.parentPair?_of_under linked habove]

/-- The link of a class names the root of its chain, which it took over from its superclass. -/
theorem InPlace.rootOf_eq (inPlace : classes.InPlace [])
    (ancestry : classes.registry.Ancestry id chain)
    (hrecord : classes.registry.record? id = some record) (hroot : chain.getLast? = some root) :
    (classes.heap.pair record.pair).rootOf record.pair = root.pair := by
  induction ancestry generalizing record with
  | @root id own registered top =>
    cases registered.symm.trans hrecord
    have hlink := inPlace id own registered (Record.ne_pending_of_linked top) List.not_mem_nil
    rw [placeBelow_eq, classes.registry.parentPair?_of_root top] at hlink
    rw [ClassPair.rootOf, hlink]
    exact congrArg Record.pair (Option.some.inj hroot)
  | @under id parent own chain registered linked above ih =>
    cases registered.symm.trans hrecord
    obtain ⟨upper, -, -, hupper, -⟩ := above.head
    rw [List.getLast?_cons_of_ne_nil above.ne_nil] at hroot
    have hlink := inPlace id own registered (Record.ne_pending_of_linked linked) List.not_mem_nil
    rw [placeBelow_eq, classes.registry.parentPair?_of_under linked hupper] at hlink
    rw [ClassPair.rootOf, hlink]
    exact ih hupper hroot

theorem Held.isa?_plain (held : classes.Held)
    (hrecord : classes.registry.record? id = some record) :
    classes.heap.isa? ⟨record.pair, .plain⟩ = some ⟨record.pair, .metaclass⟩ :=
  held.unlessReleased_eq (Registry.houses_of_record hrecord)

/-- All metaclasses of a chain are instances of the metaclass of the root. -/
theorem InPlace.isa?_metaclass (inPlace : classes.InPlace []) (held : classes.Held)
    (ancestry : classes.registry.Ancestry id chain)
    (hrecord : classes.registry.record? id = some record) (hroot : chain.getLast? = some root) :
    classes.heap.isa? ⟨record.pair, .metaclass⟩ = some ⟨root.pair, .metaclass⟩ := by
  obtain ⟨own, -, -, hown, hlinked⟩ := ancestry.head
  cases hown.symm.trans hrecord
  obtain ⟨top, htop⟩ := ancestry.registered root (List.mem_of_getLast? hroot)
  have hlink := inPlace id record hrecord hlinked List.not_mem_nil
  rw [classes.heap.isa?_metaclass_of_link (by rw [hlink]; nofun),
    inPlace.rootOf_eq ancestry hrecord hroot]
  exact held.unlessReleased_eq (Registry.houses_of_record htop)

theorem InPlace.climbs_plain (inPlace : classes.InPlace []) (held : classes.Held)
    (ancestry : classes.registry.Ancestry id chain)
    (hrecord : classes.registry.record? id = some record) :
    classes.heap.Climbs ⟨record.pair, .plain⟩ (chain.map (·.side .plain)) := by
  induction ancestry generalizing record with
  | root registered top =>
    cases registered.symm.trans hrecord
    exact .top (inPlace.superclass?_of_root held registered top).1
  | under registered linked above ih =>
    cases registered.symm.trans hrecord
    obtain ⟨upper, -, -, hupper, -⟩ := above.head
    exact .up (inPlace.superclass?_of_under held registered linked hupper .plain) (ih hupper)

theorem InPlace.climbs_metaclass (inPlace : classes.InPlace []) (held : classes.Held)
    (ancestry : classes.registry.Ancestry id chain)
    (hrecord : classes.registry.record? id = some record) (hroot : chain.getLast? = some root) :
    classes.heap.Climbs ⟨record.pair, .metaclass⟩
      (chain.map (·.side .metaclass) ++ [root.side .plain]) := by
  induction ancestry generalizing record with
  | root registered top =>
    cases registered.symm.trans hrecord
    cases hroot
    obtain ⟨hplain, hmetaclass⟩ := inPlace.superclass?_of_root held registered top
    exact .up hmetaclass (.top hplain)
  | @under id parent own chain registered linked above ih =>
    cases registered.symm.trans hrecord
    obtain ⟨upper, -, -, hupper, -⟩ := above.head
    rw [List.getLast?_cons_of_ne_nil above.ne_nil] at hroot
    exact .up (inPlace.superclass?_of_under held registered linked hupper .metaclass)
      (ih hupper hroot)

/-- No class stands above itself. -/
theorem InPlace.nodup_pairs (inPlace : classes.InPlace []) (held : classes.Held)
    (ancestry : classes.registry.Ancestry id chain) : (chain.map (·.pair)).Nodup := by
  obtain ⟨record, -, -, hrecord, -⟩ := ancestry.head
  have hnodup := (inPlace.climbs_plain held ancestry hrecord).nodup
  rw [show (fun record : Record => record.side .plain) =
      (fun pair : PairId => (⟨pair, .plain⟩ : ClassRef)) ∘ Record.pair from rfl,
    ← List.map_map] at hnodup
  exact hnodup.of_map

end Classes

end LateBinding
