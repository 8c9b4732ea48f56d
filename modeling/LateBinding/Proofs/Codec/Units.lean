import LateBinding.LoadUnit.Decode
import LateBinding.Proofs.Codec.Fields

/-!
# Reading written units

Every record of a unit is read back from the bytes it was written as, apart from protocols that
inherit through more levels than a reader follows. Whoever holds a list of such protocols passes the
condition on, so that a whole unit is either given back or refused as nested too deeply. The section
of constant objects is there only if the flags announce it; without it the objects are lost.
-/

namespace LateBinding

open Decode

/-! ### Records without protocols -/

theorem inverts_selectorRef : SelectorRef.decode.Inverts SelectorRef.encode (fun _ => True) := by
  intro ref h
  simp only [Countable, SelectorRef.encode, List.length_append] at h
  have hname := takes_string ref.name (by rw [Countable]; omega)
  have htypes := takes_optString ref.types (by rw [Countable]; omega)
  have hall : SelectorRef.decode.Takes (Encode.string ref.name ++ Encode.optString ref.types) ref :=
    hname.bind (htypes.bind_pure _)
  exact hall.answers

theorem inverts_methodDef : MethodDef.decode.Inverts MethodDef.encode (fun _ => True) := by
  intro method h
  simp only [Countable, MethodDef.encode, List.length_append] at h
  have hname := takes_string method.name (by rw [Countable]; omega)
  have htypes := takes_string method.types (by rw [Countable]; omega)
  have hsymbol := takes_string method.symbol (by rw [Countable]; omega)
  have hall : MethodDef.decode.Takes (Encode.string method.name ++
      (Encode.string method.types ++ Encode.string method.symbol)) method :=
    hname.bind (htypes.bind (hsymbol.bind_pure _))
  rw [← List.append_assoc] at hall
  exact hall.answers

theorem takes_tagged (tag : UInt8) {back : List UInt8} {constant : Constant}
    {body : UInt8 → Nat → Decode Constant}
    (hbody : ∀ start, (body tag start).Takes back constant) :
    (do let start ← Decode.position; let tag ← Decode.u8; body tag start).Takes
      (Encode.u8 tag ++ back) constant := by
  intro rest position
  have htag := takes_u8 tag (back ++ rest) position
  have hvalue := hbody position rest (position + (Encode.u8 tag).length)
  simp only [Decode.position, Bind.bind, EStateM.bind, List.append_assoc, htag, hvalue,
    List.length_append, Nat.add_assoc]

theorem inverts_constant : Constant.decode.Inverts Constant.encode (fun _ => True) := by
  intro constant h
  refine Takes.answers ?_
  cases constant with
  | nil => exact takes_tagged 0 fun _ => Takes.pure Constant.nil
  | bool value =>
    refine takes_tagged 1 fun _ => ?_
    have hvalue := (takes_u8 (if value then 1 else 0)).bind_pure fun byte =>
      Constant.bool (byte != 0)
    cases value <;> exact hvalue
  | int value => exact takes_tagged 2 fun _ => (takes_i64 value).bind_pure Constant.int
  | float value => exact takes_tagged 3 fun _ => (takes_f64 value).bind_pure Constant.float
  | text value =>
    simp only [Countable, Constant.encode, List.length_append] at h
    have hvalue := takes_string value (by rw [Countable]; omega)
    exact takes_tagged 4 fun _ => hvalue.bind_pure Constant.text

theorem length_constant_pos (constant : Constant) : 0 < constant.encode.length := by
  cases constant <;> simp [Constant.encode, Encode.u8]

theorem length_list_pos {α : Type} (write : α → List UInt8) (values : List α) :
    0 < (Encode.list write values).length := by
  simp only [Encode.list, List.length_append, Encode.length_count]
  omega

theorem length_string_pos (text : String) : 0 < (Encode.string text).length := by
  rw [length_string]
  omega

theorem inverts_plainList {α : Type} {read : Decode α} {write : α → List UInt8}
    (element : read.Inverts write fun _ => True) (hpos : ∀ value, 0 < (write value).length)
    (values : List α) (h : Countable (Encode.list write values)) :
    (Decode.list read).Takes (Encode.list write values) values :=
  (inverts_list element hpos values h).takes fun _ _ => trivial

theorem inverts_staticGroup : StaticGroup.decode.Inverts StaticGroup.encode (fun _ => True) := by
  intro group h
  simp only [Countable, StaticGroup.encode, List.length_append] at h
  have hname := takes_string group.className (by rw [Countable]; omega)
  have hslots : (Decode.list Constant.decode).Inverts (Encode.list Constant.encode)
      (fun _ => True) :=
    fun slots hslots => (inverts_plainList inverts_constant length_constant_pos slots hslots).answers
  have hinstances := inverts_plainList hslots (length_list_pos _) group.instances
    (by rw [Countable]; omega)
  have hall : StaticGroup.decode.Takes (Encode.string group.className ++
      Encode.list (Encode.list Constant.encode) group.instances) group :=
    hname.bind (hinstances.bind_pure _)
  exact hall.answers

theorem takes_methods (methods : Sided (List MethodDef)) (h : Countable (encodeMethods methods)) :
    decodeMethods.Takes (encodeMethods methods) methods := by
  simp only [Countable, encodeMethods, List.length_append] at h
  have hpos : ∀ method : MethodDef, 0 < method.encode.length := by
    intro method
    have hname := length_string_pos method.name
    simp only [MethodDef.encode, List.length_append]
    omega
  have hplain := inverts_plainList inverts_methodDef hpos methods.plain
    (by rw [Countable]; omega)
  have hmeta := inverts_plainList inverts_methodDef hpos methods.metaclass
    (by rw [Countable]; omega)
  exact hplain.bind (hmeta.bind_pure _)

/-! ### Protocols, and the records that hold them -/

namespace Protocol

theorem depth_pos (protocol : Protocol) : 0 < protocol.depth := by
  cases protocol with
  | node name parents =>
    rw [depth]
    omega

theorem maxDepth_le {protocols : List Protocol} {levels : Nat} :
    maxDepth protocols ≤ levels ↔ ∀ protocol ∈ protocols, protocol.depth ≤ levels := by
  induction protocols with
  | nil => simp [maxDepth]
  | cons protocol rest ih => simp only [maxDepth, List.mem_cons, forall_eq_or_imp, Nat.max_le, ih]

theorem depth_node_le (name : String) {parents : List Protocol} {levels : Nat} :
    (node name parents).depth ≤ levels + 1 ↔ ∀ parent ∈ parents, parent.depth ≤ levels := by
  rw [depth, Nat.add_le_add_iff_right, maxDepth_le]

theorem encode_node (name : String) (parents : List Protocol) :
    (node name parents).encode = Encode.string name ++ Encode.list encode parents := by
  rw [encode, encodeAll_eq_flatMap, Encode.list]

theorem length_encode_pos (protocol : Protocol) : 0 < protocol.encode.length := by
  cases protocol with
  | node name parents =>
    have hname := length_string_pos name
    rw [encode_node, List.length_append]
    omega

/-- A reader that follows a number of levels reads exactly the protocols of that depth. -/
theorem inverts_decodeWithin (levels : Nat) :
    (decodeWithin levels).Inverts encode fun protocol => protocol.depth ≤ levels := by
  induction levels with
  | zero =>
    intro protocol _
    constructor
    · intro hshallow
      have hpos := protocol.depth_pos
      omega
    · intro _ rest position
      exact ⟨position, _, rfl⟩
  | succ levels ih =>
    intro protocol h
    cases protocol with
    | node name parents =>
      rw [encode_node] at h ⊢
      simp only [Countable, List.length_append] at h
      have hname := takes_string name (by rw [Countable]; omega)
      have hparents := inverts_list ih length_encode_pos parents (by rw [Countable]; omega)
      have hall : (decodeWithin (levels + 1)).Answers
          (Encode.string name ++ Encode.list encode parents)
          (True ∧ ∀ parent ∈ parents, parent.depth ≤ levels) (node name parents) :=
        hname.answers.bind (hparents.bind_pure _)
      rw [true_and, ← depth_node_le name] at hall
      exact hall

end Protocol

def AllShallow (protocols : List Protocol) : Prop :=
  ∀ protocol ∈ protocols, protocol.depth ≤ Protocol.depthLimit

theorem inverts_protocols :
    (Decode.list Protocol.decode).Inverts (Encode.list Protocol.encode) AllShallow :=
  inverts_list (Protocol.inverts_decodeWithin _) Protocol.length_encode_pos

theorem inverts_classDef :
    ClassDef.decode.Inverts ClassDef.encode fun cls => AllShallow cls.protocols := by
  intro cls h
  simp only [Countable, ClassDef.encode, List.length_append] at h
  have hname := takes_string cls.name (by rw [Countable]; omega)
  have hsuper := takes_optString cls.superclass (by rw [Countable]; omega)
  have hmethods := takes_methods cls.methods (by rw [Countable]; omega)
  have hprotocols := inverts_protocols cls.protocols (by rw [Countable]; omega)
  have hall : ClassDef.decode.Answers (Encode.string cls.name ++ (Encode.optString cls.superclass ++
      (Encode.u32 cls.size ++ (encodeMethods cls.methods ++
        Encode.list Protocol.encode cls.protocols))))
      (True ∧ True ∧ True ∧ True ∧ AllShallow cls.protocols) cls :=
    hname.answers.bind (hsuper.answers.bind ((takes_u32 cls.size).answers.bind
      (hmethods.answers.bind (hprotocols.bind_pure _))))
  simp only [← List.append_assoc, true_and] at hall
  exact hall

theorem inverts_categoryDef :
    CategoryDef.decode.Inverts CategoryDef.encode fun category => AllShallow category.protocols := by
  intro category h
  simp only [Countable, CategoryDef.encode, List.length_append] at h
  have hname := takes_string category.name (by rw [Countable]; omega)
  have hclass := takes_string category.className (by rw [Countable]; omega)
  have hmethods := takes_methods category.methods (by rw [Countable]; omega)
  have hprotocols := inverts_protocols category.protocols (by rw [Countable]; omega)
  have hall : CategoryDef.decode.Answers (Encode.string category.name ++
      (Encode.string category.className ++ (encodeMethods category.methods ++
        Encode.list Protocol.encode category.protocols)))
      (True ∧ True ∧ True ∧ AllShallow category.protocols) category :=
    hname.answers.bind (hclass.answers.bind (hmethods.answers.bind (hprotocols.bind_pure _)))
  simp only [← List.append_assoc, true_and] at hall
  exact hall

/-! ### Units -/

namespace LoadUnit

/-- Whether every protocol tree of the classes and categories has at most so many levels. -/
def NestsWithin (unit : LoadUnit) (levels : Nat) : Prop :=
  (∀ cls ∈ unit.classes, ∀ protocol ∈ cls.protocols, protocol.depth ≤ levels) ∧
    ∀ category ∈ unit.categories, ∀ protocol ∈ category.protocols, protocol.depth ≤ levels

/-- What a reader finds of a unit: the constant objects only if the flags announce them. -/
def announced (unit : LoadUnit) : LoadUnit :=
  { unit with statics := if unit.hasStatics then unit.statics else [] }

theorem announced_eq_self {unit : LoadUnit} (h : unit.hasStatics = true ∨ unit.statics = []) :
    unit.announced = unit := by
  cases unit with
  | mk version flags name selectors classes categories statics =>
    rcases h with h | h
    · simp only [announced, h, if_true]
    · simp only at h
      simp [announced, h]

theorem length_class_pos (cls : ClassDef) : 0 < cls.encode.length := by
  have hname := length_string_pos cls.name
  simp only [ClassDef.encode, List.length_append]
  omega

theorem length_category_pos (category : CategoryDef) : 0 < category.encode.length := by
  have hname := length_string_pos category.name
  simp only [CategoryDef.encode, List.length_append]
  omega

theorem length_group_pos (group : StaticGroup) : 0 < group.encode.length := by
  have hname := length_string_pos group.className
  simp only [StaticGroup.encode, List.length_append]
  omega

theorem length_ref_pos (ref : SelectorRef) : 0 < ref.encode.length := by
  have hname := length_string_pos ref.name
  simp only [SelectorRef.encode, List.length_append]
  omega

theorem takes_statics {β : Type} (unit : LoadUnit) {bytes : List UInt8} (f : List StaticGroup → β)
    (hbytes : bytes = if unit.hasStatics then Encode.list StaticGroup.encode unit.statics else [])
    (h : Countable bytes) :
    (if unit.hasStatics then Decode.list StaticGroup.decode >>= fun statics => pure (f statics)
      else pure [] >>= fun statics => pure (f statics)).Takes bytes (f unit.announced.statics) := by
  subst hbytes
  unfold announced
  split
  · rename_i hstatics
    rw [if_pos hstatics] at h
    exact (inverts_plainList inverts_staticGroup length_group_pos unit.statics h).bind_pure f
  · exact (Takes.pure []).bind_pure f

theorem answers_payload (unit : LoadUnit) (h : Countable unit.payload) :
    (decodePayload unit.version unit.flags).Answers unit.payload
      (unit.NestsWithin Protocol.depthLimit) unit.announced := by
  simp only [Countable, payload, List.length_append] at h
  have hname := takes_string unit.name (by rw [Countable]; omega)
  have hselectors := inverts_plainList inverts_selectorRef length_ref_pos
    unit.selectors (by rw [Countable]; omega)
  have hclasses := inverts_list inverts_classDef length_class_pos unit.classes
    (by rw [Countable]; omega)
  have hcategories := inverts_list inverts_categoryDef length_category_pos unit.categories
    (by rw [Countable]; omega)
  have hstatics := takes_statics unit (fun statics => { unit with statics }) rfl
    (by rw [Countable]; omega)
  have hall : (decodePayload unit.version unit.flags).Answers (Encode.string unit.name ++
      (Encode.list SelectorRef.encode unit.selectors ++
        (Encode.list ClassDef.encode unit.classes ++
          (Encode.list CategoryDef.encode unit.categories ++
            if unit.hasStatics then Encode.list StaticGroup.encode unit.statics else []))))
      (True ∧ True ∧ (∀ cls ∈ unit.classes, AllShallow cls.protocols) ∧
        (∀ category ∈ unit.categories, AllShallow category.protocols) ∧ True) unit.announced :=
    hname.answers.bind (hselectors.answers.bind (hclasses.bind (hcategories.bind
      hstatics.answers)))
  simp only [← List.append_assoc, true_and, and_true] at hall
  exact hall

/-! ### The header -/

/-- The reader reads a field of the header, four bytes, whatever follows. -/
def ReadsField {α : Type} (read : Decode α) (field : List UInt8) (value : α) : Prop :=
  ∀ rest position,
    reading read ⟨field ++ rest, position⟩ = .ok (value, ⟨rest, position + 4⟩)

theorem readsField_of_takes {α : Type} {read : Decode α} {field : List UInt8} {value : α}
    (taken : read.Takes field value) (h : field.length = 4) : ReadsField read field value := by
  intro rest position
  simp only [reading, taken rest position, h]

/-- The header is read field by field; only its first two fields are judged at once. -/
theorem run_fields {mark versionField flagsField declaredField checksumField : List UInt8}
    {version flags checksum : UInt32} {declared : Nat} (rest : List UInt8)
    (hmark : ReadsField (Decode.bytes 4) mark mark)
    (hversion : ReadsField Decode.u32 versionField version)
    (hflags : ReadsField Decode.u32 flagsField flags)
    (hdeclared : ReadsField (Decode.number 4) declaredField declared)
    (hchecksum : ReadsField Decode.u32 checksumField checksum) :
    decodeHeader.run (Reader.of (mark ++ (versionField ++ (flagsField ++ (declaredField ++
      (checksumField ++ rest)))))) =
      if mark ≠ magic then .error (.invalidMagic mark)
      else if version ≠ currentVersion then .error (.unsupportedVersion version)
      else .ok ((version, flags, declared, checksum), ⟨rest, headerLength⟩) := by
  unfold ReadsField at hmark hversion hflags hdeclared hchecksum
  simp only [decodeHeader, StateT.run, Reader.of, Bind.bind, StateT.bind, Except.bind, hmark]
  by_cases hmagic : mark = magic
  · simp only [hmagic, ne_eq, not_true_eq_false, if_false, Bind.bind, StateT.bind, Except.bind,
      hversion]
    by_cases hone : version = currentVersion
    · simp only [hone, not_true_eq_false, if_false, Bind.bind, StateT.bind, Except.bind, hflags,
        hdeclared, hchecksum]
      rfl
    · rw [if_pos hone, if_pos hone]
      rfl
  · rw [if_pos hmagic, if_pos hmagic]
    rfl

theorem run_decodeHeader (version flags : UInt32) {payload : List UInt8} (rest : List UInt8)
    (h : Countable payload) :
    decodeHeader.run (Reader.of (header version flags payload ++ rest)) =
      if version ≠ currentVersion then .error (.unsupportedVersion version)
      else .ok ((version, flags, payload.length, crc32 payload), ⟨rest, headerLength⟩) := by
  have hword : ∀ value, ReadsField Decode.u32 (Encode.u32 value) value := fun value =>
    readsField_of_takes (takes_u32 value) (length_littleEndian 4 value.toNat)
  have hlength : payload.length < 256 ^ 4 := by
    rw [Countable] at h
    omega
  have hfields := run_fields rest (readsField_of_takes (takes_bytes magic) rfl) (hword version)
    (hword flags) (readsField_of_takes (takes_number 4 payload.length hlength)
      (length_littleEndian 4 payload.length)) (hword (crc32 payload))
  rw [if_neg (not_not_intro rfl)] at hfields
  rw [header, Encode.count]
  simp only [List.append_assoc]
  exact hfields

/-- What becomes of bytes once the header has been found in order. -/
def decodeRest (version flags : UInt32) (payload : List UInt8) : Except UnitError LoadUnit :=
  match decodePayload version flags ⟨payload, headerLength⟩ with
  | .ok unit reader =>
    if reader.rest ≠ [] then .error (.trailingData reader.position) else .ok unit
  | .error error _ => .error (.decode error)

theorem decode_of_header {bytes payload : List UInt8} {version flags checksum : UInt32}
    {declared : Nat} (h : decodeHeader.run (Reader.of bytes) =
      .ok ((version, flags, declared, checksum), ⟨payload, headerLength⟩)) :
    decode bytes =
      if declared ≠ payload.length then .error (.lengthMismatch declared payload.length)
      else if crc32 payload ≠ checksum then .error (.checksumMismatch checksum (crc32 payload))
      else decodeRest version flags payload := by
  simp only [decode, h, Bind.bind, Except.bind]
  by_cases hlength : declared = payload.length
  · rw [if_neg (not_not_intro hlength), if_neg (not_not_intro hlength)]
    by_cases hsum : crc32 payload = checksum
    · rw [if_neg (not_not_intro hsum), if_neg (not_not_intro hsum)]
      simp only [StateT.run, reading, decodeRest]
      cases decodePayload version flags ⟨payload, headerLength⟩ with
      | ok unit reader =>
        by_cases hrest : reader.rest = []
        · simp only [hrest, ne_eq, not_true_eq_false, if_false]
          rfl
        · simp only [ne_eq, hrest, not_false_eq_true, if_true]
          rfl
      | error error reader => rfl
    · rw [if_pos hsum, if_pos hsum]
      rfl
  · rw [if_pos hlength, if_pos hlength]
    rfl

theorem decode_of_header_error {bytes : List UInt8} {error : UnitError}
    (h : decodeHeader.run (Reader.of bytes) = .error error) : decode bytes = .error error := by
  simp only [decode, h, Bind.bind, Except.bind]

/-! ### The round trip -/

/-- The header of a unit is followed by its payload, which is as long as the header says and has the
checksum that the header holds. -/
theorem decode_encode_eq {unit : LoadUnit} (h : Countable unit.payload)
    (hversion : unit.version = currentVersion) :
    decode unit.encode =
      match decodePayload unit.version unit.flags ⟨unit.payload, headerLength⟩ with
      | .ok value reader =>
        if reader.rest ≠ [] then .error (.trailingData reader.position) else .ok value
      | .error error _ => .error (.decode error) := by
  have hheader := run_decodeHeader unit.version unit.flags unit.payload h
  rw [if_neg (not_not_intro hversion)] at hheader
  rw [encode, decode_of_header hheader, if_neg (not_not_intro rfl), if_neg (not_not_intro rfl)]
  rfl

theorem decode_encode_of_version_ne {unit : LoadUnit} (h : Countable unit.payload)
    (hversion : unit.version ≠ currentVersion) :
    decode unit.encode = .error (.unsupportedVersion unit.version) := by
  have hheader := run_decodeHeader unit.version unit.flags unit.payload h
  rw [if_pos hversion] at hheader
  exact decode_of_header_error hheader

/-- Whatever is written as a unit of the current version is given back, apart from constant objects
that the flags do not announce, unless some protocol is nested through more than 65 levels. -/
theorem decode_encode (unit : LoadUnit) (h : unit.payload.length < 2 ^ 32) :
    (unit.version ≠ 1 → decode unit.encode = .error (.unsupportedVersion unit.version)) ∧
    (unit.version = 1 → unit.NestsWithin 65 →
      (unit.hasStatics = true ∨ unit.statics = [] → decode unit.encode = .ok unit) ∧
      (unit.hasStatics = false → decode unit.encode = .ok { unit with statics := [] })) ∧
    (unit.version = 1 → ¬ unit.NestsWithin 65 →
      ∃ offset, decode unit.encode = .error (.decode (.nestedTooDeeply offset))) := by
  have hpayload := answers_payload unit h
  have hread : unit.version = 1 → unit.NestsWithin 65 → decode unit.encode = .ok unit.announced := by
    intro hversion hnests
    have htaken := hpayload.takes hnests [] headerLength
    rw [List.append_nil] at htaken
    rw [decode_encode_eq h hversion, htaken]
    simp
  refine ⟨decode_encode_of_version_ne h, ?_, ?_⟩
  · intro hversion hnests
    constructor
    · intro hstatics
      rw [hread hversion hnests, announced_eq_self hstatics]
    · intro hstatics
      rw [hread hversion hnests]
      simp [announced, hstatics]
  · intro hversion hdeep
    obtain ⟨offset, reader, hrefused⟩ := hpayload.refuses hdeep [] headerLength
    rw [List.append_nil] at hrefused
    refine ⟨offset, ?_⟩
    rw [decode_encode_eq h hversion, hrefused]

def sample : LoadUnit :=
  { version := 1, flags := 1, name := "shapes.o"
    selectors := [⟨"area", some "d@:"⟩, ⟨"init", none⟩]
    classes := [⟨"Shape", none, 1, ⟨[⟨"area", "d@:", "shape_area"⟩], []⟩,
      [.node "Drawing" [.node "Printing" []]]⟩]
    categories := [⟨"Extras", "Shape", ⟨[], [⟨"make", "", "shape_make"⟩]⟩, []⟩]
    statics := [⟨"Shape", [[.nil], [.float ⟨0x7FF8000000000001⟩, .text ""], []]⟩] }

theorem decode_encode_sample :
    sample.payload.length < 2 ^ 32 ∧ decode sample.encode = .ok sample := by
  have hsize : sample.payload.length < 2 ^ 32 := by decide +kernel
  have hnests : sample.NestsWithin 65 := by
    simp [NestsWithin, sample, Protocol.depth, Protocol.maxDepth]
  exact ⟨hsize, ((decode_encode sample hsize).2.1 rfl hnests).1 (Or.inl rfl)⟩

end LoadUnit

end LateBinding
