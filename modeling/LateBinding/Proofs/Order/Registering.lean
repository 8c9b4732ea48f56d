import LateBinding.Proofs.Order.Declared

/-!
# Registering a class among declarations

A class that is registered takes over what was held back for it. Whether it links at once or waits,
and whatever links along with it, the session defines one class more; and the static instances of
all classes that linked get their class before anything else is declared.
-/

namespace LateBinding

open Declaration

namespace Classes

variable {start final : Classes} {definition : ClassDefinition} {order : List ClassId}
  (registers : start.Registers definition order final)
  (hfree : start.registry.idOf? definition.name = none)
  (consistent : start.registry.Consistent [])

include registers hfree consistent

theorem Registers.idOf?_of_taken {name : String} {id : ClassId}
    (hid : start.registry.idOf? name = some id) :
    start.registry.nextId ≠ id ∧ final.registry.idOf? name = some id := by
  constructor
  · intro heq
    subst heq
    obtain ⟨standing, hstanding, -⟩ := (consistent.names name _).mp hid
    rw [Registry.standing?_nextId] at hstanding
    cases hstanding
  · rw [registers.idOf?_eq, if_neg, hid]
    intro heq
    subst heq
    exact Option.some_ne_none id (hid.symm.trans hfree)

theorem Registers.classForName?_of_mem {name : String} {id : ClassId} (hid : id ∈ order)
    (hname : final.registry.idOf? name = some id) : start.registry.classForName? name = none := by
  rw [Option.eq_none_iff_forall_not_mem]
  intro cls hcls
  obtain ⟨other, content, hother, hlinked, -, -⟩ :=
    (Registry.classForName?_eq_some_iff name cls).mp hcls
  obtain ⟨-, hfinal⟩ := registers.idOf?_of_taken hfree consistent hother
  cases hname.symm.trans hfinal
  exact registers.links_once.2 id hid hlinked

theorem Registers.classForName?_of_not_mem {name : String}
    (hname : ∀ id ∈ order, final.registry.idOf? name ≠ some id) :
    start.registry.classForName? name = final.registry.classForName? name := by
  apply Option.ext
  intro cls
  rw [Registry.classForName?_eq_some_iff, Registry.classForName?_eq_some_iff]
  constructor
  · intro h
    obtain ⟨id, content, hid, hlinked, hcontent, rfl⟩ := h
    obtain ⟨hne, hfinal⟩ := registers.idOf?_of_taken hfree consistent hid
    exact ⟨id, content, hfinal, (registers.isLinked_iff id).mpr (.inl hlinked),
      by rw [registers.content?_eq, if_neg hne, hcontent], rfl⟩
  · intro h
    obtain ⟨id, content, hid, hlinked, hcontent, rfl⟩ := h
    have hbefore : start.registry.IsLinked id := by
      rcases (registers.isLinked_iff id).mp hlinked with h | hmem
      · exact h
      · exact absurd hid (hname id hmem)
    have hne : start.registry.nextId ≠ id := by
      intro heq
      subst heq
      obtain ⟨record, hrecord, -⟩ := hbefore
      rw [Registry.record?_nextId] at hrecord
      cases hrecord
    rw [registers.content?_eq, if_neg hne] at hcontent
    rw [registers.idOf?_eq] at hid
    split at hid
    · exact absurd (Option.some.inj hid) hne
    · exact ⟨id, content, hid, hbefore, hcontent, rfl⟩

end Classes

namespace Session

variable {options : Options} {known : List String} {objects : List ObjectId}
  {done : List Declaration} {start final : Session}

theorem merged_cls (name : String) (spec : ClassSpec) :
    merged name (done ++ [.cls spec]) = merged name done := merged_append done name _

theorem classSpecs_cls (spec : ClassSpec) :
    classSpecs (done ++ [.cls spec]) = classSpecs done ++ [spec] := classSpecs_append done _

theorem Defines.registers (defines : start.Defines options known done) {spec : ClassSpec}
    {methods : Sided (List MethodDefinition)}
    (hmethods : methods.map (List.map (·.named start.system.selectors)) =
      spec.methods.map (List.map MethodSpec.named))
    (hfree : start.system.registry.idOf? spec.name = none) {order : List ClassId}
    {classes : Classes}
    (registers : start.classes.Registers
      ⟨spec.name, spec.superclass, spec.size, methods, spec.protocols⟩ order classes) :
    (start.withClasses classes).Defines options known (done ++ [.cls spec]) where
  options_eq := defines.options_eq
  atRest := registers.atRest hfree defines.atRest
  sound := defines.sound
  within := defines.within
  registered := by
    intro own hown
    change classes.registry.idOf? own.name ≠ none
    rw [registers.idOf?_eq]
    split
    · nofun
    · next hne =>
      rw [classSpecs_cls] at hown
      rcases List.mem_append.mp hown with hold | hnew
      · exact defines.registered own hold
      · rw [List.mem_singleton.mp hnew] at hne
        exact absurd rfl hne
  contents := by
    intro id content hcontent
    change classes.registry.content? id = some content at hcontent
    rw [registers.content?_eq] at hcontent
    simp only [merged_cls, classSpecs_cls]
    split at hcontent
    · cases hcontent
      refine ⟨spec, List.mem_append_right _ (List.mem_singleton.mpr rfl), ?_⟩
      refine NamedClass.mk.injEq .. |>.mpr ⟨rfl, rfl, hmethods, rfl, ?_⟩
      exact defines.heldBack spec.name hfree
    · obtain ⟨own, hown, hnamed⟩ := defines.contents id content hcontent
      exact ⟨own, List.mem_append_left _ hown, hnamed⟩
  heldBack := by
    intro name hname
    change classes.registry.idOf? name = none at hname
    rw [registers.idOf?_eq] at hname
    split at hname
    · cases hname
    · next hne =>
      rw [merged_cls, ← defines.heldBack name hname]
      change List.map _ (classes.registry.categoriesFor name) = _
      rw [Registry.categoriesFor, registers.heldBack_eq, if_neg hne]
      rfl

end Session

namespace Session

variable {policy : CategoryConflictPolicy} {start : Session}

/-- The pair of a class has its name, by which the class is found. -/
theorem AtRest.idOf?_pairName (atRest : start.AtRest policy) {id : ClassId} {record : Record}
    (hrecord : start.system.registry.record? id = some record) :
    (start.heap.pair record.pair).name = record.name ∧
      start.system.registry.idOf? (start.heap.pair record.pair).name = some id := by
  have hname : (start.heap.pair record.pair).name = record.name :=
    atRest.upToDate.housed.pairName id record hrecord
  refine ⟨hname, ?_⟩
  rw [hname]
  exact (atRest.consistent.names record.name id).mpr
    ⟨record.standing, Registry.standing?_of_record hrecord, rfl⟩

theorem AtRest.exists_pairName_iff (atRest : start.AtRest policy) (ids : List ClassId)
    (name : String) :
    (∃ pair ∈ ids.filterMap fun id => (start.system.registry.record? id).map (·.pair),
        (start.heap.pair pair).name = name) ↔
      ∃ id ∈ ids, start.system.registry.idOf? name = some id := by
  simp only [List.mem_filterMap, Option.map_eq_some_iff]
  constructor
  · intro h
    obtain ⟨_, ⟨id, hid, record, hrecord, rfl⟩, rfl⟩ := h
    exact ⟨id, hid, (atRest.idOf?_pairName hrecord).2⟩
  · intro h
    obtain ⟨id, hid, hname⟩ := h
    obtain ⟨standing, hstanding, rfl⟩ := (atRest.consistent.names name id).mp hname
    obtain ⟨record, hrecord, rfl⟩ := Option.map_eq_some_iff.mp hstanding
    exact ⟨_, ⟨id, hid, record, hrecord, rfl⟩, (atRest.idOf?_pairName hrecord).1⟩

theorem AtRest.classForName?_pairName (atRest : start.AtRest policy) {linked : List ClassId}
    (hlinked : ∀ id ∈ linked, start.system.registry.IsLinked id) {pair : PairId}
    (hpair : pair ∈ linked.filterMap fun id =>
      (start.system.registry.record? id).map (·.pair)) :
    start.classForName? (start.heap.pair pair).name = some ⟨pair, .plain⟩ := by
  obtain ⟨id, hid, hpair⟩ := List.mem_filterMap.mp hpair
  obtain ⟨record, hrecord, rfl⟩ := Option.map_eq_some_iff.mp hpair
  exact (Registry.classForName?_eq_some_iff _ _).mpr ⟨id, record.content,
    (atRest.idOf?_pairName hrecord).2, hlinked id hid, Registry.content?_of_record hrecord, rfl⟩

end Session

namespace Act

variable {options : Options} {known : List String} {objects : List ObjectId}
  {done : List Declaration} {start : Session}

theorem names_pairsOf (defines : start.Defines options known done) {order : List ClassId}
    (hnodup : order.Nodup) (hlinked : ∀ id ∈ order, start.system.registry.IsLinked id) :
    let pairs := order.filterMap fun id => (start.system.registry.record? id).map (·.pair)
    let nameOf := fun pair => (start.heap.pair pair).name
    (pairs.map nameOf).Nodup ∧
      (∀ name, name ∈ pairs.map nameOf ↔
        ∃ id ∈ order, start.system.registry.idOf? name = some id) ∧
      ∀ pair ∈ pairs, start.classForName? (nameOf pair) = some ⟨pair, .plain⟩ := by
  intro pairs nameOf
  have atRest := defines.atRest
  refine ⟨?_, ?_, fun pair => atRest.classForName?_pairName hlinked⟩
  · rw [List.map_filterMap]
    refine hnodup.filterMap ?_
    intro first second name hfirst hsecond
    simp only [Option.mem_def, Option.map_map, Option.map_eq_some_iff] at hfirst hsecond
    obtain ⟨record, hrecord, rfl⟩ := hfirst
    obtain ⟨another, hanother, heq⟩ := hsecond
    have hid := (atRest.idOf?_pairName hrecord).2
    have hsame : (start.heap.pair another.pair).name = (start.heap.pair record.pair).name := heq
    rw [← hsame, (atRest.idOf?_pairName hanother).2] at hid
    exact (Option.some.inj hid).symm
  · intro name
    rw [List.mem_map]
    exact atRest.exists_pairName_iff order name

/-- The classes that linked take over what waits for them. -/
theorem finishLinking_declares {order : List ClassId}
    (defines : start.Defines options known done) (hnodup : order.Nodup)
    (hlinked : ∀ id ∈ order, start.system.registry.IsLinked id)
    {home : String → Option ClassRef}
    (hlate : ∀ name id, id ∈ order → start.system.registry.idOf? name = some id → home name = none)
    (hsame : ∀ name, (∀ id ∈ order, start.system.registry.idOf? name ≠ some id) →
      home name = start.classForName? name)
    (bindings : Bindings objects (done.flatMap literals) home start.heap start.system.statics) :
    (finishLinking order).Leads False start fun _ final =>
      final.Declared options known objects done := by
  obtain ⟨hnames, hmem, hhome⟩ := names_pairsOf defines hnodup hlinked
  let pairs := order.filterMap fun id => (start.system.registry.record? id).map (·.pair)
  let nameOf := fun pair => (start.heap.pair pair).name
  have hbefore : home = fun name =>
      if name ∈ pairs.map nameOf then none else start.classForName? name := by
    funext name
    by_cases hname : name ∈ pairs.map nameOf
    · obtain ⟨id, hid, hidOf⟩ := (hmem name).mp hname
      rw [if_pos hname, hlate name id hid hidOf]
    · rw [if_neg hname]
      exact hsame name fun id hid hidOf => hname ((hmem name).mpr ⟨id, hid, hidOf⟩)
  rw [hbefore] at bindings
  have hown : ∀ pair ∈ pairs, (start.heap.pair pair).name = nameOf pair := fun _ _ => rfl
  rw [finishLinking, leads_bind, pairsOf, leads_bind, leads_get]
  dsimp only
  rw [leads_pure, leads_bind]
  refine (forM_bindWaiting_leads hown hhome hnames bindings).mono ?_
  intro _ final h
  obtain ⟨hpairs, hsystem, hbindings⟩ := h
  have same : start.SameClasses final := ⟨.of_pairs hpairs, by rw [hsystem]⟩
  have hselectors : final.system.selectors = start.system.selectors := by rw [hsystem]
  have hlinkedNames : final.classForName? = start.classForName? := by
    funext name
    rw [Session.classForName?, same.registry]
    rfl
  constructor
  · refine defines.transfer same (by rw [hsystem]) ?_ ?_ ?_
    · rw [hselectors]
      exact defines.sound
    · rw [hselectors]
      exact defines.within
    · rw [hselectors]
      exact .refl
  · rw [hlinkedNames]
    exact hbindings

theorem register_declares (hknown : known.dedup.length ≤ maxUid) {spec : ClassSpec}
    (declared : start.Declared options known objects done)
    (hnames : ∀ name ∈ sidesNames spec.methods, name ∈ known)
    (hnew : spec.name ∉ (classSpecs done).map (·.name)) :
    (register spec).Leads False start fun _ final =>
      final.Declared options known objects (done ++ [.cls spec]) := by
  have defines := declared.defines
  have hfree := (defines.idOf?_eq_none_iff spec.name).mpr hnew
  rw [register, leads_bind, leads_get]
  dsimp only
  rw [hfree]
  simp only [Option.isSome_none, Bool.false_eq_true, if_false]
  rw [leads_bind, enterClass, leads_bind]
  refine (defineMethods_leads hknown hnames defines.sound defines.within).mono ?_
  intro methods interned h
  obtain ⟨learns, hmethods⟩ := h
  have learned := declared.learn learns
  have hstill : interned.classes.registry.idOf? spec.name = none := by
    change interned.system.registry.idOf? spec.name = none
    rw [learns.sameClasses.registry]
    exact hfree
  let definition : ClassDefinition :=
    ⟨spec.name, spec.superclass, spec.size, methods, spec.protocols⟩
  have hsafe : definition.Addressable := learned.defines.sound.addressable_sides hmethods
  have consistent := learned.defines.atRest.consistent
  rw [leads_onClasses]
  refine (Linking.register_leads consistent hstill
    (.inr ⟨learned.defines.addressable, hsafe⟩)).mono ?_
  rintro ⟨pair, order⟩ classes ⟨-, registers⟩
  have entered := learned.defines.registers hmethods hstill registers
  have hliterals : (done ++ [Declaration.cls spec]).flatMap literals = done.flatMap literals := by
    rw [literals_append]
    exact List.append_nil _
  have hbindings := learned.bindings.transfer registers.sameObjects.objects
  rw [← hliterals] at hbindings
  rw [leads_bind]
  exact finishLinking_declares entered registers.links_once.1
    (fun id hid => (registers.isLinked_iff id).mpr (.inr hid))
    (fun name id hid hname => registers.classForName?_of_mem hstill consistent hid hname)
    (fun name hname => registers.classForName?_of_not_mem hstill consistent hname) hbindings

end Act

end LateBinding
