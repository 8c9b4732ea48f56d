import LateBinding.Proofs.Selectors

/-!
# The selectors of a table number the names that came

What was done to a selector table since it was cleared last is told by a *roster*: the names, each
once and in the order in which they came, and the type encodings in the order of their declaration.
The table numbers the names of the roster from 1 on and knows for each the encoding that was
declared first. How many places it was set up with and what its policy is does not matter for that;
the policy only decides whether a declaration of another encoding is reported.
-/

namespace LateBinding.SelectorTable

variable {table : SelectorTable}

/-! ### Rosters -/

/-- What is done to a selector table. -/
inductive Edit where
  | intern (name : String) (types : Option String)
  | reconcile (sel : Sel) (types : Option String)
  | clear
  deriving DecidableEq, Repr

/-- What an edit gives: the selector of the name, if it is to intern one, and the conflict that is
reported. -/
structure Reply where
  sel : Option Sel
  conflict : Option TypeConflict
  deriving DecidableEq, Repr

structure Roster where
  names : List String
  /-- The type encodings, each with the name that it was declared for. -/
  encodings : List (String × String)
  deriving DecidableEq, Repr

namespace Roster

def empty : Roster := ⟨[], []⟩

def name? (roster : Roster) (sel : Sel) : Option String :=
  if sel.uid = 0 then none else roster.names[sel.uid - 1]?

/-- The encoding that was declared first for a name. -/
def types? (roster : Roster) (name : String) : Option String := roster.encodings.lookup name

def enter (roster : Roster) (name : String) : Roster :=
  { roster with names := if name ∈ roster.names then roster.names else roster.names ++ [name] }

/-- Declare a type encoding for a name. An empty one is none. -/
def declare (roster : Roster) (name : String) (types : Option String) : Roster :=
  { roster with
    encodings := roster.encodings ++ ((someTypes types).map fun types => (name, types)).toList }

def edit (roster : Roster) : Edit → Roster
  | .intern name types => (roster.enter name).declare name types
  | .reconcile sel types => (roster.name? sel).elim roster (roster.declare · types)
  | .clear => empty

/-- Another encoding was declared for the name before. -/
def clash? (roster : Roster) (name : String) (types : Option String) : Option TypeConflict :=
  match someTypes types, roster.types? name with
  | some ignored, some kept => if kept ≠ ignored then some ⟨name, kept, ignored⟩ else none
  | _, _ => none

/-- The number of a name that came, from 1 on. -/
def number (roster : Roster) (name : String) : Sel := ⟨roster.names.idxOf name + 1⟩

/-- What the reply to an edit should be. -/
def reply (policy : TypeMismatchPolicy) (roster : Roster) : Edit → Reply
  | .intern name types =>
    ⟨some ((roster.enter name).number name),
      if policy = .warn then roster.clash? name types else none⟩
  | .reconcile sel types =>
    ⟨none, if policy = .warn then (roster.name? sel).bind (roster.clash? · types) else none⟩
  | .clear => ⟨none, none⟩

def replies (policy : TypeMismatchPolicy) (roster : Roster) : List Edit → List Reply
  | [] => []
  | change :: rest => roster.reply policy change :: (roster.edit change).replies policy rest

end Roster

/-- What is on the roster after some edits of a table that was empty. -/
def rosterOf (edits : List Edit) : Roster := edits.foldl Roster.edit .empty

/-! ### Edits of a table -/

def edit (table : SelectorTable) : Edit → Except Abort (SelectorTable × Reply)
  | .intern name types =>
    (table.intern name types).map fun (sel, table, conflict) => (table, ⟨some sel, conflict⟩)
  | .reconcile sel types =>
    .ok ((table.reconcile sel types).1, ⟨none, (table.reconcile sel types).2⟩)
  | .clear => .ok (table.clear, ⟨none, none⟩)

def editAll (table : SelectorTable) : List Edit → Except Abort (SelectorTable × List Reply)
  | [] => .ok (table, [])
  | change :: rest => do
    let (table, reply) ← table.edit change
    let (table, replies) ← table.editAll rest
    return (table, reply :: replies)

/-! ### What is on a roster -/

namespace Roster

variable {roster : Roster}

/-- Encodings are declared for names that came. -/
def Known (roster : Roster) : Prop := ∀ entry ∈ roster.encodings, entry.1 ∈ roster.names

theorem types?_of_not_mem (known : roster.Known) {name : String} (hname : name ∉ roster.names) :
    roster.types? name = none := by
  rw [types?, List.lookup_eq_none_iff]
  intro entry hentry
  rw [bne_iff_ne]
  rintro rfl
  exact hname (known entry hentry)

/-- What was declared first stays. -/
theorem types?_declare (roster : Roster) (name other : String) (types : Option String) :
    (roster.declare name types).types? other =
      (roster.types? other).or (if other = name then someTypes types else none) := by
  rw [Roster.types?, declare, List.lookup_append, Roster.types?]
  congr 1
  cases someTypes types with
  | none => simp
  | some encoding =>
    by_cases heq : other = name
    · simp [heq]
    · simp [List.lookup_cons, beq_false_of_ne heq, heq]

theorem Known.declare (known : roster.Known) {name : String} (hname : name ∈ roster.names)
    (types : Option String) : (roster.declare name types).Known := by
  intro entry hentry
  rcases List.mem_append.mp hentry with hold | hnew
  · exact known entry hold
  · obtain ⟨encoding, -, rfl⟩ := Option.map_eq_some_iff.mp (Option.mem_toList.mp hnew)
    exact hname

theorem mem_names_enter (roster : Roster) (name other : String) :
    other ∈ (roster.enter name).names ↔ other ∈ roster.names ∨ other = name := by
  rw [enter]
  dsimp only
  split
  · next hname =>
    refine ⟨.inl, ?_⟩
    rintro (hother | rfl)
    · exact hother
    · exact hname
  · rw [List.mem_append, List.mem_singleton]

theorem Known.enter (known : roster.Known) (name : String) : (roster.enter name).Known :=
  fun entry hentry => (roster.mem_names_enter name entry.1).mpr (.inl (known entry hentry))

theorem enter_of_mem {name : String} (hname : name ∈ roster.names) :
    roster.enter name = roster := by
  rw [enter, if_pos hname]

end Roster

/-! ### The table of a roster -/

/-- The table knows the names of the roster in their order, each with the encoding that was declared
first. -/
structure Enrols (table : SelectorTable) (roster : Roster) : Prop where
  sound : table.Sound
  known : roster.Known
  infos : table.infos.toList = roster.names.map fun name => ⟨name, roster.types? name⟩

namespace Enrols

variable {roster : Roster} (enrols : table.Enrols roster)

include enrols

theorem names_eq : table.names.toList = roster.names := by
  rw [names, Array.toList_map, enrols.infos, List.map_map]
  exact List.map_id _

theorem size_eq : table.size = roster.names.length := by
  rw [size, ← Array.length_toList, enrols.infos, List.length_map]

theorem info?_eq (sel : Sel) :
    table.info? sel = (roster.name? sel).map fun name => ⟨name, roster.types? name⟩ := by
  rw [info?, Roster.name?, ← Array.getElem?_toList, enrols.infos, List.getElem?_map]
  split <;> rfl

theorem name?_eq (sel : Sel) : table.name? sel = roster.name? sel := by
  rw [name?, enrols.info?_eq, Option.map_map]
  exact Option.map_id_apply

theorem types?_eq (sel : Sel) : table.types? sel = (table.name? sel).bind roster.types? := by
  rw [types?, name?_eq enrols, enrols.info?_eq]
  cases roster.name? sel <;> rfl

theorem mem_names_of_name? {sel : Sel} {name : String} (hname : roster.name? sel = some name) :
    name ∈ roster.names := by
  rw [← enrols.names_eq, mem_names_iff]
  exact ⟨sel, (enrols.name?_eq sel).trans hname⟩

theorem nodup_names : roster.names.Nodup := enrols.names_eq ▸ enrols.sound.nodup_names

/-- The first encoding of a name is put down where the name is. -/
theorem infos_declare {sel : Sel} {name encoding : String} {types : Option String}
    (hname : roster.name? sel = some name) (hsome : someTypes types = some encoding)
    (hnone : roster.types? name = none) :
    (table.infos.setIfInBounds (sel.uid - 1) ⟨name, some encoding⟩).toList =
      roster.names.map fun other => ⟨other, (roster.declare name types).types? other⟩ := by
  have hat : roster.names[sel.uid - 1]? = some name := by
    rw [Roster.name?] at hname
    split at hname
    · cases hname
    · exact hname
  obtain ⟨hplace, hatPlace⟩ := List.getElem?_eq_some_iff.mp hat
  rw [Array.toList_setIfInBounds, enrols.infos]
  apply List.ext_getElem?
  intro index
  rw [List.getElem?_set, List.length_map, List.getElem?_map, List.getElem?_map]
  by_cases heq : sel.uid - 1 = index
  · rw [if_pos heq, ← heq, if_pos hplace, hat, Option.map_some, Roster.types?_declare, hnone,
      Option.none_or, if_pos rfl, hsome]
  · rw [if_neg heq]
    apply Option.map_congr
    intro other hother
    obtain ⟨hindex, hatIndex⟩ := List.getElem?_eq_some_iff.mp hother
    have hne : other ≠ name := by
      rintro rfl
      exact heq ((enrols.nodup_names.getElem_inj_iff).mp (hatPlace.trans hatIndex.symm))
    rw [Roster.types?_declare, if_neg hne, Option.or_none]

/-- An encoding is taken over if it is the first one, and else it may be a conflict. -/
theorem reconcile {sel : Sel} {name : String} (hname : roster.name? sel = some name)
    (types : Option String) :
    (table.reconcile sel types).1.Enrols (roster.declare name types) ∧
      (table.reconcile sel types).2 =
        if table.policy = .warn then roster.clash? name types else none := by
  have hinfo : table.info? sel = some ⟨name, roster.types? name⟩ := by
    rw [enrols.info?_eq, hname]
    rfl
  have hknown := enrols.known.declare (enrols.mem_names_of_name? hname) types
  have hsound := enrols.sound.reconcile sel types
  -- nothing is taken over
  have hkept : (∀ other, (roster.declare name types).types? other = roster.types? other) →
      table.infos.toList = roster.names.map fun other =>
        (⟨other, (roster.declare name types).types? other⟩ : SelectorInfo) := by
    intro hsame
    simp only [hsame]
    exact enrols.infos
  cases hsome : someTypes types with
  | none =>
    have hrun : table.reconcile sel types = (table, none) := by
      unfold SelectorTable.reconcile
      simp only [hsome]
    have hclash : roster.clash? name types = none := by
      unfold Roster.clash?
      simp only [hsome]
    rw [hrun] at hsound ⊢
    refine ⟨⟨hsound, hknown, hkept fun other => ?_⟩, ?_⟩
    · rw [Roster.types?_declare, hsome, ite_self, Option.or_none]
    · rw [hclash, ite_self]
  | some encoding =>
    cases hold : roster.types? name with
    | some kept =>
      have hrun : table.reconcile sel types = (table,
          if kept ≠ encoding ∧ table.policy = .warn then some ⟨name, kept, encoding⟩
          else none) := by
        unfold SelectorTable.reconcile
        simp only [hsome, hinfo, hold]
      rw [hrun] at hsound ⊢
      refine ⟨⟨hsound, hknown, hkept fun other => ?_⟩, ?_⟩
      · rw [Roster.types?_declare]
        by_cases heq : other = name
        · rw [heq, hold, Option.some_or]
        · rw [if_neg heq, Option.or_none]
      · simp only [Roster.clash?, hsome, hold]
        by_cases hpolicy : table.policy = .warn
        · simp [hpolicy]
        · simp [hpolicy]
    | none =>
      have hrun : table.reconcile sel types = ({ table with
          infos := table.infos.setIfInBounds (sel.uid - 1) ⟨name, some encoding⟩ }, none) := by
        unfold SelectorTable.reconcile
        simp only [hsome, hinfo, hold]
      rw [hrun] at hsound ⊢
      refine ⟨⟨hsound, hknown, ?_⟩, ?_⟩
      · exact enrols.infos_declare hname hsome hold
      · simp only [Roster.clash?, hsome, hold, ite_self]

theorem number_eq {sel : Sel} {name : String} (hname : roster.name? sel = some name) :
    roster.number name = sel := by
  rw [Roster.name?] at hname
  split at hname
  · cases hname
  · next hpositive =>
    obtain ⟨hindex, rfl⟩ := List.getElem?_eq_some_iff.mp hname
    rw [Roster.number, enrols.nodup_names.idxOf_getElem]
    exact congrArg Sel.mk (Nat.sub_one_add_one hpositive)

theorem get?_of_not_mem {name : String} (hname : name ∉ roster.names) :
    table.uids.get? name = none := by
  rw [Option.eq_none_iff_forall_ne_some]
  intro sel hsel
  rw [enrols.sound.named, enrols.name?_eq] at hsel
  exact hname (enrols.mem_names_of_name? hsel)

/-- A new name gets the next number. -/
theorem extended {name : String} (hnew : name ∉ roster.names) (types : Option String)
    (hroom : table.size < maxUid) :
    (table.extended name types).Enrols ((roster.enter name).declare name types) ∧
      (roster.enter name).number name = table.nextSel := by
  have hget := enrols.get?_of_not_mem hnew
  have henter : (roster.enter name).names = roster.names ++ [name] := if_neg hnew
  have hmem : name ∈ (roster.enter name).names := (roster.mem_names_enter name name).mpr (.inr rfl)
  have hknown := (enrols.known.enter name).declare hmem types
  refine ⟨⟨enrols.sound.extended hget types hroom, hknown, ?_⟩, ?_⟩
  · have htypes : ∀ other, ((roster.enter name).declare name types).types? other =
        (roster.types? other).or (if other = name then someTypes types else none) :=
      fun other => (roster.enter name).types?_declare name other types
    have hold : ∀ other ∈ roster.names,
        (⟨other, ((roster.enter name).declare name types).types? other⟩ : SelectorInfo) =
          ⟨other, roster.types? other⟩ := by
      intro other hother
      have hne : other ≠ name := by
        rintro rfl
        exact hnew hother
      rw [htypes, if_neg hne, Option.or_none]
    have hlast : ((roster.enter name).declare name types).types? name = someTypes types := by
      rw [htypes, Roster.types?_of_not_mem enrols.known hnew, Option.none_or, if_pos rfl]
    change (table.infos.push ⟨name, someTypes types⟩).toList =
      (roster.enter name).names.map fun other =>
        ⟨other, ((roster.enter name).declare name types).types? other⟩
    rw [Array.toList_push, henter, List.map_append, List.map_congr_left hold, ← enrols.infos,
      List.map_singleton, hlast]
  · have hsize : table.infos.size = roster.names.length := enrols.size_eq
    rw [Roster.number, henter, List.idxOf_append_of_notMem hnew, List.idxOf_cons_self, nextSel,
      hsize]

/-- Interning a name numbers it on the roster, unless all uids are taken and the name is new. -/
theorem intern_cases (name : String) (types : Option String) :
    (∃ final, table.intern name types = .ok ((roster.enter name).number name, final,
        if table.policy = .warn then roster.clash? name types else none) ∧
      final.Enrols ((roster.enter name).declare name types)) ∨
    ∃ reason, table.intern name types = .error reason ∧
      maxUid < (roster.enter name).names.length := by
  by_cases hname : name ∈ roster.names
  · rw [← enrols.names_eq, mem_names_iff] at hname
    obtain ⟨sel, hsel⟩ := hname
    have hget := (enrols.sound.named name sel).mpr hsel
    rw [enrols.name?_eq] at hsel
    obtain ⟨hfinal, hconflict⟩ := enrols.reconcile hsel types
    rw [Roster.enter_of_mem (enrols.mem_names_of_name? hsel), enrols.number_eq hsel, ← hconflict]
    refine .inl ⟨(table.reconcile sel types).1, ?_, hfinal⟩
    simp only [SelectorTable.intern, hget]
  · have hget := enrols.get?_of_not_mem hname
    by_cases hroom : table.size < maxUid
    · obtain ⟨hfinal, hnumber⟩ := enrols.extended hname types hroom
      have hclash : roster.clash? name types = none := by
        unfold Roster.clash?
        rw [Roster.types?_of_not_mem enrols.known hname]
        cases someTypes types <;> rfl
      refine .inl ⟨table.extended name types, ?_, hfinal⟩
      rw [hnumber, hclash, ite_self]
      exact intern_eq_extended types hget hroom
    · refine .inr ⟨.selectorsExhausted name, ?_, ?_⟩
      · simp only [SelectorTable.intern, hget, if_pos (Nat.le_of_not_lt hroom)]
      · rw [enrols.size_eq] at hroom
        rw [Roster.enter, if_neg hname, List.length_append, List.length_singleton]
        omega

theorem edit_cases (change : Edit) :
    (∃ final, table.edit change = .ok (final, roster.reply table.policy change) ∧
      final.Enrols (roster.edit change) ∧ final.policy = table.policy) ∨
    ∃ reason, table.edit change = .error reason ∧ maxUid < (roster.edit change).names.length := by
  cases change with
  | intern name types =>
    rcases enrols.intern_cases name types with ⟨final, hintern, hfinal⟩ | ⟨reason, hintern, hfull⟩
    · refine .inl ⟨final, ?_, hfinal, policy_of_intern hintern⟩
      rw [SelectorTable.edit, hintern]
      rfl
    · refine .inr ⟨reason, ?_, hfull⟩
      rw [SelectorTable.edit, hintern]
      rfl
  | reconcile sel types =>
    refine .inl ⟨(table.reconcile sel types).1, ?_⟩
    rw [SelectorTable.edit, Roster.edit, Roster.reply, policy_reconcile]
    cases hname : roster.name? sel with
    | some name =>
      obtain ⟨hfinal, hconflict⟩ := enrols.reconcile hname types
      rw [hconflict]
      exact ⟨rfl, hfinal, rfl⟩
    | none =>
      have hinfo : table.info? sel = none := by
        rw [enrols.info?_eq, hname]
        rfl
      have hrun : table.reconcile sel types = (table, none) := by
        unfold SelectorTable.reconcile
        rw [hinfo]
        cases someTypes types <;> rfl
      rw [hrun, Option.bind_none, ite_self]
      exact ⟨rfl, enrols, rfl⟩
  | clear =>
    have hcleared : table.clear.Enrols .empty :=
      ⟨enrols.sound.clear, fun _ hentry => absurd hentry List.not_mem_nil, rfl⟩
    exact .inl ⟨table.clear, rfl, hcleared, rfl⟩

omit enrols in
theorem editAll {edits : List Edit} (enrols : table.Enrols roster)
    (hfits : ∀ count, ((edits.take count).foldl Roster.edit roster).names.length ≤ maxUid) :
    ∃ final, table.editAll edits = .ok (final, roster.replies table.policy edits) ∧
      final.Enrols (edits.foldl Roster.edit roster) ∧ final.policy = table.policy := by
  induction edits generalizing table roster with
  | nil => exact ⟨table, rfl, enrols, rfl⟩
  | cons change rest ih =>
    rcases enrols.edit_cases change with ⟨middle, hedit, hmiddle, hpolicy⟩ | ⟨reason, -, hfull⟩
    · obtain ⟨final, hrest, hfinal, hlast⟩ := ih hmiddle fun count => hfits (count + 1)
      refine ⟨final, ?_, hfinal, hlast.trans hpolicy⟩
      rw [SelectorTable.editAll, hedit]
      change (middle.editAll rest >>= fun answer => _) = _
      rw [hrest, hpolicy]
      rfl
    · exact absurd hfull (Nat.not_lt_of_le (hfits 1))

end Enrols

theorem enrols_withCapacity (capacity : Nat) (policy : TypeMismatchPolicy) :
    (withCapacity capacity policy).Enrols .empty :=
  ⟨sound_withCapacity capacity policy, fun _ hentry => absurd hentry List.not_mem_nil, rfl⟩

/-! ### What stays -/

/-- Names are only added, and the encodings that are known stay. -/
structure Roster.Begins (roster later : Roster) : Prop where
  names : roster.names <+: later.names
  types : ∀ name types, roster.types? name = some types → later.types? name = some types

theorem Roster.begins_declare (roster : Roster) (name : String) (types : Option String) :
    roster.Begins (roster.declare name types) where
  names := List.prefix_rfl
  types other known hknown := by rw [types?_declare, hknown, Option.some_or]

theorem Roster.begins_edit (roster : Roster) {change : Edit} (hchange : change ≠ .clear) :
    roster.Begins (roster.edit change) := by
  cases change with
  | intern name types =>
    have hdeclared := (roster.enter name).begins_declare name types
    refine ⟨List.IsPrefix.trans ?_ hdeclared.names, hdeclared.types⟩
    rw [enter]
    dsimp only
    split
    · exact List.prefix_rfl
    · exact List.prefix_append _ _
  | reconcile sel types =>
    rw [edit]
    cases roster.name? sel with
    | none => exact ⟨List.prefix_rfl, fun _ _ h => h⟩
    | some name => exact roster.begins_declare name types
  | clear => exact absurd rfl hchange

theorem Roster.begins_foldl_edit (roster : Roster) {edits : List Edit} (hedits : .clear ∉ edits) :
    roster.Begins (edits.foldl edit roster) := by
  induction edits generalizing roster with
  | nil => exact ⟨List.prefix_rfl, fun _ _ h => h⟩
  | cons change rest ih =>
    rw [List.mem_cons, not_or] at hedits
    have hchange := roster.begins_edit (Ne.symm hedits.1)
    have hrest := ih (roster.edit change) hedits.2
    exact ⟨hchange.names.trans hrest.names,
      fun name types h => hrest.types name types (hchange.types name types h)⟩

/-! ### Numbering -/

/-- No more names come between two clearings than there are uids. -/
def Fits (edits : List Edit) : Prop :=
  ∀ count, (rosterOf (edits.take count)).names.length ≤ maxUid

theorem Roster.length_names_edit_le (roster : Roster) (change : Edit) :
    (roster.edit change).names.length ≤ roster.names.length + 1 := by
  cases change with
  | intern name types =>
    change (roster.enter name).names.length ≤ _
    rw [enter]
    dsimp only
    split
    · exact Nat.le_succ _
    · exact Nat.le_of_eq List.length_append
  | reconcile sel types =>
    rw [edit]
    cases roster.name? sel <;> exact Nat.le_succ _
  | clear => exact Nat.zero_le _

theorem Roster.length_names_foldl_edit_le (roster : Roster) (edits : List Edit) :
    (edits.foldl edit roster).names.length ≤ roster.names.length + edits.length := by
  induction edits generalizing roster with
  | nil => exact Nat.le_refl _
  | cons change rest ih =>
    have hchange := roster.length_names_edit_le change
    have hrest := ih (roster.edit change)
    rw [List.foldl_cons, List.length_cons]
    omega

theorem fits_of_length_le {edits : List Edit} (hlength : edits.length ≤ maxUid) : Fits edits := by
  intro count
  have htaken := Roster.empty.length_names_foldl_edit_le (edits.take count)
  have hcount := List.length_take_le' count edits
  have hnone : Roster.empty.names.length = 0 := rfl
  rw [rosterOf]
  omega

/-- What a table tells that knows the names and encodings of a roster. -/
structure Numbers (table : SelectorTable) (roster : Roster) : Prop where
  size : table.size = roster.names.length
  distinct : roster.names.Nodup
  numbered : ∀ index name, roster.names[index]? = some name ↔
    table.name? ⟨index + 1⟩ = some name
  unnamed : table.name? ⟨0⟩ = none
  found : ∀ name sel, table.lookup name = .ok sel ↔ table.name? sel = some name
  missing : ∀ name, table.lookup name = .error ⟨name⟩ ↔ name ∉ roster.names
  contains : ∀ sel, table.contains sel = true ↔ 1 ≤ sel.uid ∧ sel.uid ≤ table.size
  types : ∀ sel, table.types? sel = (table.name? sel).bind roster.types?

theorem Enrols.numbers {roster : Roster} (enrols : table.Enrols roster) :
    table.Numbers roster where
  size := enrols.size_eq
  distinct := enrols.nodup_names
  numbered index name := by rw [enrols.name?_eq, Roster.name?, if_neg (Nat.succ_ne_zero index)]; rfl
  unnamed := rfl
  found := enrols.sound.lookup_eq_ok_iff
  missing name := by
    rw [← enrols.names_eq, mem_names_iff]
    constructor
    · rintro herror ⟨sel, hsel⟩
      rw [(enrols.sound.lookup_eq_ok_iff name sel).mpr hsel] at herror
      cases herror
    · intro hnone
      have hget : table.uids.get? name = none := by
        rw [Option.eq_none_iff_forall_ne_some]
        intro sel hsel
        exact hnone ⟨sel, (enrols.sound.named name sel).mp hsel⟩
      rw [lookup, hget]
  contains sel := by
    rw [SelectorTable.contains, info?, SelectorTable.size]
    split
    · next hzero => simp [hzero]
    · next hpositive =>
      rw [Option.isSome_iff_ne_none, ne_eq, Array.getElem?_eq_none_iff]
      omega
  types := enrols.types?_eq

theorem name?_of_prefix {roster later : Roster} (names : roster.names <+: later.names) {sel : Sel}
    {name : String} (hname : roster.name? sel = some name) : later.name? sel = some name := by
  rw [Roster.name?] at hname ⊢
  split at hname
  · cases hname
  · next hpositive =>
    rw [if_neg hpositive]
    obtain ⟨rest, hrest⟩ := names
    rw [← hrest, List.getElem?_append_left (List.getElem?_eq_some_iff.mp hname).1, hname]

/-- However a table was set up, its selectors number the names that came since it was cleared last,
and its replies are those that the names and encodings call for. The policy decides whether a
declaration of another encoding is reported, and nothing else. A name keeps its number and its
encoding until the table is cleared. -/
theorem numbers_rosterOf (capacity : Nat) (policy : TypeMismatchPolicy) (edits later : List Edit)
    (fits : Fits (edits ++ later)) :
    ∃ table final, (withCapacity capacity policy).editAll edits =
        .ok (table, Roster.empty.replies policy edits) ∧
      table.Numbers (rosterOf edits) ∧
      table.editAll later = .ok (final, (rosterOf edits).replies policy later) ∧
      final.Numbers (rosterOf (edits ++ later)) ∧
      (.clear ∉ later → table.Grows final ∧
        ∀ sel types, table.types? sel = some types → final.types? sel = some types) := by
  have hearlier : ∀ count,
      ((edits.take count).foldl Roster.edit .empty).names.length ≤ maxUid := by
    intro count
    have hcount := fits (min count edits.length)
    rwa [List.take_append_of_le_length (Nat.min_le_right _ _), ← List.take_eq_take_min] at hcount
  obtain ⟨table, hrun, hbefore, hpolicy⟩ := (enrols_withCapacity capacity policy).editAll hearlier
  have hlater : ∀ count,
      ((later.take count).foldl Roster.edit (rosterOf edits)).names.length ≤ maxUid := by
    intro count
    have hcount := fits (edits.length + count)
    rwa [List.take_length_add_append, rosterOf, List.foldl_append] at hcount
  obtain ⟨final, hrest, hafter, -⟩ := hbefore.editAll hlater
  rw [hpolicy] at hrest
  refine ⟨table, final, hrun, hbefore.numbers, hrest, ?_, fun hclear => ?_⟩
  · rw [rosterOf, List.foldl_append]
    exact hafter.numbers
  · have hbegins := (rosterOf edits).begins_foldl_edit hclear
    have hnames : table.Grows final := by
      intro sel name hname
      rw [hbefore.name?_eq] at hname
      rw [hafter.name?_eq]
      exact name?_of_prefix hbegins.names hname
    refine ⟨hnames, fun sel types htypes => ?_⟩
    rw [hbefore.types?_eq] at htypes
    obtain ⟨name, hname, hdeclared⟩ := Option.bind_eq_some_iff.mp htypes
    rw [hafter.types?_eq, hnames sel name hname, Option.bind_some]
    exact hbegins.types name types hdeclared

theorem numbers_rosterOf_cleared : ∃ table final,
    (withCapacity 2 .warn).editAll [.intern "run" none, .clear, .intern "stop" (some ""),
      .intern "run" none, .reconcile ⟨2⟩ (some "v@:")] =
        .ok (table, [⟨some ⟨1⟩, none⟩, ⟨none, none⟩, ⟨some ⟨1⟩, none⟩, ⟨some ⟨2⟩, none⟩, ⟨none, none⟩]) ∧
      table.size = 2 ∧
      table.editAll [.intern "run" (some "i@:")] =
        .ok (final, [⟨some ⟨2⟩, some ⟨"run", "v@:", "i@:"⟩⟩]) ∧
      final.name? ⟨2⟩ = some "run" ∧ final.types? ⟨2⟩ = some "v@:" := by
  obtain ⟨table, final, hrun, hbefore, hrest, hafter, hkept⟩ := numbers_rosterOf 2 .warn
    [.intern "run" none, .clear, .intern "stop" (some ""), .intern "run" none,
      .reconcile ⟨2⟩ (some "v@:")] [.intern "run" (some "i@:")] (fits_of_length_le (by decide))
  have hname : table.name? ⟨2⟩ = some "run" := (hbefore.numbered 1 "run").mp (by decide)
  have htypes : table.types? ⟨2⟩ = some "v@:" := by
    rw [hbefore.types, hname]
    decide
  obtain ⟨hnames, hencodings⟩ := hkept (by decide)
  exact ⟨table, final, hrun, hbefore.size, hrest, hnames ⟨2⟩ "run" hname,
    hencodings ⟨2⟩ "v@:" htypes⟩

end LateBinding.SelectorTable
