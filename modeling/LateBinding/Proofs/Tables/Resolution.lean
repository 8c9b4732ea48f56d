import LateBinding.Proofs.Tables.Kept

/-!
# Tables hold what resolution finds

A message is resolved by walking up from a class to the first one that implements it. Nothing is
walked when a message is sent: the tables hold the outcome in advance. A metaclass goes on with the
instance methods of the root class once no metaclass of the chain implements the message.
-/

namespace LateBinding

/-- What walking up a chain of classes finds. -/
def walkUp (policy : CategoryConflictPolicy) (kind : ClassKind) (chain : List Record) (sel : Sel) :
    Option Imp :=
  let found := chain.findSome? fun record => record.implementation? policy kind sel
  match kind with
  | .plain => found
  | .metaclass =>
    found.or (chain.getLast?.bind fun root => root.implementation? policy .plain sel)

namespace Registry

variable {registry : Registry} {heap : Heap} {id : ClassId} {record : Record} {chain : List Record}

theorem Ancestry.head (ancestry : registry.Ancestry id chain) :
    ∃ record rest, chain = record :: rest ∧ registry.record? id = some record ∧
      record.state ≠ .pending := by
  cases ancestry with
  | @root _ record registered top =>
    exact ⟨record, [], rfl, registered, Record.ne_pending_of_linked top⟩
  | @under _ _ record chain registered linked _ =>
    exact ⟨record, chain, rfl, registered, Record.ne_pending_of_linked linked⟩

/-- From each class of a chain on, the rest is the chain above that class. -/
theorem Ancestry.of_mem (ancestry : registry.Ancestry id chain) (hmem : record ∈ chain) :
    ∃ other rest, registry.record? other = some record ∧ registry.Ancestry other (record :: rest) ∧
      record :: rest <:+ chain := by
  induction ancestry with
  | root registered top =>
    obtain rfl := List.mem_singleton.mp hmem
    exact ⟨_, [], registered, .root registered top, List.suffix_rfl⟩
  | under registered linked above ih =>
    rcases List.mem_cons.mp hmem with rfl | hmem
    · exact ⟨_, _, registered, .under registered linked above, List.suffix_rfl⟩
    · obtain ⟨other, rest, hother, ancestry, hsuffix⟩ := ih hmem
      exact ⟨other, rest, hother, ancestry, hsuffix.trans (List.suffix_cons _ _)⟩

theorem Ancestry.registered (ancestry : registry.Ancestry id chain) :
    ∀ record ∈ chain, ∃ id, registry.record? id = some record := by
  intro record hmem
  obtain ⟨other, -, hother, -⟩ := ancestry.of_mem hmem
  exact ⟨other, hother⟩

theorem Ancestry.ne_nil (ancestry : registry.Ancestry id chain) : chain ≠ [] := by
  cases ancestry <;> nofun

theorem Ancestry.unique (ancestry : registry.Ancestry id chain) {other : List Record}
    (others : registry.Ancestry id other) : chain = other := by
  induction ancestry generalizing other with
  | root registered top =>
    cases others with
    | root registered' => cases registered.symm.trans registered'; rfl
    | under registered' linked =>
      cases registered.symm.trans registered'
      cases top.symm.trans linked
  | under registered linked _ ih =>
    cases others with
    | root registered' top =>
      cases registered.symm.trans registered'
      cases linked.symm.trans top
    | under registered' linked' above' =>
      cases registered.symm.trans registered'
      cases linked.symm.trans linked'
      rw [ih above']

/-- The chain above a class below another one goes on with the chain of that. -/
theorem Hierarchy.chain_of_under (hierarchy : registry.Hierarchy) {parent : ClassId}
    (hrecord : registry.record? id = some record) (linked : record.state = .linked (some parent)) :
    registry.Ancestry parent (registry.chain parent) ∧
      registry.chain id = record :: registry.chain parent := by
  have hlinked := Record.ne_pending_of_linked linked
  have hsuper := (record.superclass?_eq_some_iff parent).mpr linked
  obtain ⟨above, habove, haboveLinked⟩ := hierarchy.above id parent ⟨record, hrecord, hsuper⟩
  have ancestry := hierarchy.ancestry_chain habove haboveLinked
  exact ⟨ancestry, (hierarchy.ancestry_chain hrecord hlinked).unique
    (.under hrecord linked ancestry)⟩

theorem Hierarchy.chain_of_root (hierarchy : registry.Hierarchy)
    (hrecord : registry.record? id = some record) (top : record.state = .linked none) :
    registry.chain id = [record] :=
  (hierarchy.ancestry_chain hrecord (Record.ne_pending_of_linked top)).unique (.root hrecord top)

theorem parentPair?_of_root (top : record.state = .linked none) :
    registry.parentPair? record = none := by
  rw [parentPair?, Record.superclass?, top]
  rfl

theorem parentPair?_of_under {parent : ClassId} {above : Record}
    (linked : record.state = .linked (some parent)) (habove : registry.record? parent = some above) :
    registry.parentPair? record = some above.pair := by
  rw [parentPair?, Record.superclass?, linked]
  simp [habove]

theorem walkUp_cons (policy : CategoryConflictPolicy) (kind : ClassKind) (record : Record)
    (hchain : chain ≠ []) (sel : Sel) :
    walkUp policy kind (record :: chain) sel =
      (record.implementation? policy kind sel).or (walkUp policy kind chain sel) := by
  have hlast : (record :: chain).getLast? = chain.getLast? := List.getLast?_cons_of_ne_nil hchain
  cases kind with
  | plain =>
    simp only [walkUp, List.findSome?_cons]
    cases record.implementation? policy .plain sel <;> rfl
  | metaclass =>
    simp only [walkUp, List.findSome?_cons, hlast]
    cases record.implementation? policy .metaclass sel <;> rfl

theorem UpToDate.exists_table (upToDate : registry.UpToDate heap [])
    (ancestry : registry.Ancestry id chain) (hrecord : registry.record? id = some record)
    (kind : ClassKind) :
    ∃ table, heap.table? ⟨record.pair, kind⟩ = some table ∧
      ∀ sel, table.get? sel = walkUp registry.policy kind chain sel := by
  -- the tables of a class follow from those right above
  induction ancestry generalizing record kind with
  | @root id own registered top =>
    cases registered.symm.trans hrecord
    have hlinked := Record.ne_pending_of_linked top
    obtain ⟨plain, metaclass, hplain, hmetaclass, publishes⟩ :=
      upToDate.published id own registered hlinked List.not_mem_nil
    have hparent := registry.parentPair?_of_root top
    have hinstances : ∀ sel, plain.get? sel = own.implementation? registry.policy .plain sel := by
      intro sel
      rw [publishes.instances, hparent, Option.bind_none, Option.or_none]
    cases kind with
    | plain =>
      refine ⟨plain, hplain, ?_⟩
      intro sel
      rw [hinstances, walkUp, List.findSome?_singleton]
    | metaclass =>
      refine ⟨metaclass, hmetaclass, ?_⟩
      intro sel
      rw [publishes.classObject, hparent, hinstances]
      simp only [walkUp, List.findSome?_singleton, List.getLast?_singleton, Option.bind_some]
  | @under id parent own chain registered linked above ih =>
    cases registered.symm.trans hrecord
    have hlinked := Record.ne_pending_of_linked linked
    obtain ⟨plain, metaclass, hplain, hmetaclass, publishes⟩ :=
      upToDate.published id own registered hlinked List.not_mem_nil
    obtain ⟨upper, rest, hchain, hupper, -⟩ := above.head
    have hparent := registry.parentPair?_of_under linked hupper
    have hnonempty : chain ≠ [] := by
      rw [hchain]
      nofun
    obtain ⟨table, htable, hget⟩ := ih hupper kind
    cases kind with
    | plain =>
      refine ⟨plain, hplain, ?_⟩
      intro sel
      rw [publishes.instances, hparent, Option.bind_some, Heap.lookup, htable, Option.bind_some,
        hget, walkUp_cons _ _ _ hnonempty]
    | metaclass =>
      refine ⟨metaclass, hmetaclass, ?_⟩
      intro sel
      rw [publishes.classObject, hparent]
      dsimp only
      rw [Heap.lookup, htable, Option.bind_some, hget, walkUp_cons _ _ _ hnonempty]

end Registry

end LateBinding
