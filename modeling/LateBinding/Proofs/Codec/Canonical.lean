import LateBinding.Proofs.Codec.Framing

/-!
# Units have one spelling

A unit that was accepted is written as the bytes it was read from, apart from truth constants that
were stored as something other than 0 and 1: these are written as 1, and the checksum with them.
-/

namespace LateBinding

/-! ### What a reader can give -/

namespace Decode

variable {α : Type} {read : Decode α} {P : α → Prop}

/-- Whatever the reader gives is of a kind. -/
def Yields (read : Decode α) (P : α → Prop) : Prop :=
  ∀ start value final, read start = .ok value final → P value

theorem yields_many (element : read.Yields P) (count : Nat) :
    (Decode.many read count).Yields fun values => ∀ value ∈ values, P value := by
  induction count with
  | zero =>
    intro start values final hread value hvalue
    cases hread
    cases hvalue
  | succ count ih =>
    intro start values final hread
    obtain ⟨first, middle, hfirst, hread⟩ := bind_eq_ok_iff.mp hread
    obtain ⟨rest, _, hrest, hread⟩ := bind_eq_ok_iff.mp hread
    cases hread
    rw [List.forall_mem_cons]
    exact ⟨element start first middle hfirst, ih middle rest _ hrest⟩

theorem yields_list (element : read.Yields P) :
    (Decode.list read).Yields fun values => ∀ value ∈ values, P value := by
  intro start values final hread
  obtain ⟨announced, middle, -, hread⟩ := bind_eq_ok_iff.mp hread
  exact yields_many element announced middle values final hread

end Decode

open Decode

theorem Protocol.yields_decodeWithin (levels : Nat) :
    (decodeWithin levels).Yields fun protocol => protocol.depth ≤ levels := by
  induction levels with
  | zero =>
    intro start protocol final hread
    obtain ⟨position, middle, -, hread⟩ := bind_eq_ok_iff.mp hread
    cases hread
  | succ levels ih =>
    intro start protocol final hread
    obtain ⟨name, afterName, -, hread⟩ := bind_eq_ok_iff.mp hread
    obtain ⟨parents, afterParents, hparents, hread⟩ := bind_eq_ok_iff.mp hread
    cases hread
    rw [depth_node_le]
    exact yields_list ih afterName parents _ hparents

theorem yields_protocols : (Decode.list Protocol.decode).Yields AllShallow :=
  yields_list (Protocol.yields_decodeWithin _)

theorem yields_classDef : ClassDef.decode.Yields fun cls => AllShallow cls.protocols := by
  intro start cls final hread
  obtain ⟨name, afterName, -, hread⟩ := bind_eq_ok_iff.mp hread
  obtain ⟨superclass, afterSuperclass, -, hread⟩ := bind_eq_ok_iff.mp hread
  obtain ⟨size, afterSize, -, hread⟩ := bind_eq_ok_iff.mp hread
  obtain ⟨methods, afterMethods, -, hread⟩ := bind_eq_ok_iff.mp hread
  obtain ⟨protocols, afterProtocols, hprotocols, hread⟩ := bind_eq_ok_iff.mp hread
  cases hread
  exact yields_protocols _ _ _ hprotocols

theorem yields_categoryDef :
    CategoryDef.decode.Yields fun category => AllShallow category.protocols := by
  intro start category final hread
  obtain ⟨name, afterName, -, hread⟩ := bind_eq_ok_iff.mp hread
  obtain ⟨className, afterClassName, -, hread⟩ := bind_eq_ok_iff.mp hread
  obtain ⟨methods, afterMethods, -, hread⟩ := bind_eq_ok_iff.mp hread
  obtain ⟨protocols, afterProtocols, hprotocols, hread⟩ := bind_eq_ok_iff.mp hread
  cases hread
  exact yields_protocols _ _ _ hprotocols

namespace LoadUnit

/-! ### The parts of a payload -/

/-- The name, the selectors, the classes and the categories of the unit are read on the way. -/
def ReadFront (unit : LoadUnit) (start final : Reader) : Prop :=
  ∃ afterName afterSelectors afterClasses,
    Decode.string start = .ok unit.name afterName ∧
    Decode.list SelectorRef.decode afterName = .ok unit.selectors afterSelectors ∧
    Decode.list ClassDef.decode afterSelectors = .ok unit.classes afterClasses ∧
    Decode.list CategoryDef.decode afterClasses = .ok unit.categories final

/-- Read the constant objects if the flags announce them. -/
def decodeStatics (flags : UInt32) : Decode (List StaticGroup) :=
  if flags &&& staticsFlag != 0 then Decode.list StaticGroup.decode else pure []

variable {flags : UInt32}

theorem decodeStatics_of_announced (h : (flags &&& staticsFlag != 0) = true) :
    decodeStatics flags = Decode.list StaticGroup.decode := if_pos h

theorem decodeStatics_of_not_announced (h : ¬ (flags &&& staticsFlag != 0) = true) :
    decodeStatics flags = pure [] := if_neg h

theorem statics_of_not_announced {statics : List StaticGroup} {start final : Reader}
    (h : ¬ (flags &&& staticsFlag != 0) = true)
    (hread : decodeStatics flags start = .ok statics final) : statics = [] ∧ final = start := by
  rw [decodeStatics_of_not_announced h] at hread
  cases hread
  exact ⟨rfl, rfl⟩

/-- Everything but the constant objects is read in the same way whatever the flags are. -/
theorem ReadFront.decodePayload_eq {unit : LoadUnit} {start middle : Reader}
    (front : unit.ReadFront start middle) (version flags : UInt32) :
    decodePayload version flags start =
      ((fun statics => { unit with version, flags, statics }) <$> decodeStatics flags) middle := by
  obtain ⟨afterName, afterSelectors, afterClasses, hname, hselectors, hclasses, hcategories⟩ := front
  simp only [decodePayload, Bind.bind, EStateM.bind, hname, hselectors, hclasses, hcategories,
    Functor.map, EStateM.map]
  by_cases hflag : (flags &&& staticsFlag != 0) = true
  · rw [if_pos hflag, decodeStatics_of_announced hflag]
    rfl
  · rw [if_neg hflag, decodeStatics_of_not_announced hflag]
    rfl

theorem decodePayload_eq_ok_iff {version flags : UInt32} {unit : LoadUnit} {start final : Reader} :
    decodePayload version flags start = .ok unit final ↔
      unit.version = version ∧ unit.flags = flags ∧ ∃ middle, unit.ReadFront start middle ∧
        decodeStatics flags middle = .ok unit.statics final := by
  constructor
  · intro hread
    obtain ⟨name, afterName, hname, hread⟩ := bind_eq_ok_iff.mp hread
    obtain ⟨selectors, afterSelectors, hselectors, hread⟩ := bind_eq_ok_iff.mp hread
    obtain ⟨classes, afterClasses, hclasses, hread⟩ := bind_eq_ok_iff.mp hread
    obtain ⟨categories, middle, hcategories, hread⟩ := bind_eq_ok_iff.mp hread
    have hstatics : ∃ statics, decodeStatics flags middle = .ok statics final ∧
        { version, flags, name, selectors, classes, categories, statics } = unit := by
      split at hread
      · next hflag =>
        obtain ⟨statics, _, hstatics, hread⟩ := bind_eq_ok_iff.mp hread
        cases hread
        exact ⟨statics, by rw [decodeStatics_of_announced hflag, hstatics], rfl⟩
      · next hflag =>
        obtain ⟨statics, _, hstatics, hread⟩ := bind_eq_ok_iff.mp hread
        cases hread
        exact ⟨statics, by rw [decodeStatics_of_not_announced hflag, hstatics], rfl⟩
    obtain ⟨statics, hstatics, rfl⟩ := hstatics
    exact ⟨rfl, rfl, middle,
      ⟨afterName, afterSelectors, afterClasses, hname, hselectors, hclasses, hcategories⟩, hstatics⟩
  · rintro ⟨rfl, rfl, middle, front, hstatics⟩
    rw [front.decodePayload_eq]
    exact map_eq_ok_iff.mpr ⟨unit.statics, hstatics, rfl⟩

theorem ReadFront.nestsWithin {unit : LoadUnit} {start middle : Reader}
    (front : unit.ReadFront start middle) : unit.NestsWithin Protocol.depthLimit := by
  obtain ⟨_, _, _, -, -, hclasses, hcategories⟩ := front
  exact ⟨yields_list yields_classDef _ _ _ hclasses,
    yields_list yields_categoryDef _ _ _ hcategories⟩

/-! ### What a payload is written as -/

/-- The part of a payload before the constant objects. -/
def front (unit : LoadUnit) : List UInt8 :=
  Encode.string unit.name ++
    Encode.list SelectorRef.encode unit.selectors ++
    Encode.list ClassDef.encode unit.classes ++
    Encode.list CategoryDef.encode unit.categories

/-- Where the values of truth constants stand in a payload. -/
def payloadTruths (unit : LoadUnit) : List Nat :=
  if unit.hasStatics then
    (looseInList StaticGroup.encode StaticGroup.truthOffsets unit.statics).map
      (unit.front.length + ·)
  else []

/-- Where the values of truth constants stand in a unit. -/
def truthOffsets (unit : LoadUnit) : List Nat := unit.payloadTruths.map (headerLength + ·)

theorem ReadFront.rest_eq {unit : LoadUnit} {start middle : Reader}
    (front : unit.ReadFront start middle) : start.rest = unit.front ++ middle.rest := by
  obtain ⟨afterName, afterSelectors, afterClasses, hname, hselectors, hclasses, hcategories⟩ := front
  rw [restores_string _ _ _ hname, restores_list restores_selectorRef _ _ _ hselectors,
    restores_list restores_classDef _ _ _ hclasses,
    restores_list restores_categoryDef _ _ _ hcategories, LoadUnit.front]
  simp only [List.append_assoc]

theorem rewrites_payload (version flags : UInt32) :
    (decodePayload version flags).Rewrites payload payloadTruths := by
  intro start unit final hread
  obtain ⟨-, rfl, middle, front, hstatics⟩ := decodePayload_eq_ok_iff.mp hread
  have hpayload : unit.payload = unit.front ++
      if unit.hasStatics then Encode.list StaticGroup.encode unit.statics else [] := rfl
  rw [hpayload, front.rest_eq, payloadTruths]
  by_cases hflag : unit.hasStatics = true
  · rw [decodeStatics_of_announced hflag] at hstatics
    obtain ⟨taken, htaken, spells⟩ := rewrites_list rewrites_staticGroup _ _ _ hstatics
    refine ⟨unit.front ++ taken, ?_, ?_⟩
    · rw [htaken, List.append_assoc]
    · rw [if_pos hflag, if_pos hflag]
      exact spells.prepend _
  · obtain ⟨-, rfl⟩ := statics_of_not_announced hflag hstatics
    rw [if_neg hflag, if_neg hflag, List.append_nil]
    exact ⟨unit.front, rfl, Spells.nil_iff.mpr rfl⟩

/-! ### Units -/

/-- Bytes that are accepted are a header and a payload that stands for what the unit is written
as. -/
theorem spells_of_decode {bytes : List UInt8} {unit : LoadUnit}
    (accepted : decode bytes = .ok unit) :
    ∃ payload, bytes = header currentVersion unit.flags payload ++ payload ∧
      Spells unit.payloadTruths payload unit.payload := by
  obtain ⟨flags, payload, position, hbytes, -, hread⟩ := decode_eq_ok_iff.mp accepted
  obtain ⟨-, hflags, -⟩ := decodePayload_eq_ok_iff.mp hread
  obtain ⟨taken, htaken, spells⟩ := rewrites_payload currentVersion flags _ _ _ hread
  rw [List.append_nil] at htaken
  change payload = taken at htaken
  subst htaken
  rw [← hflags] at hbytes
  exact ⟨payload, hbytes, spells⟩

theorem version_of_decode {bytes : List UInt8} {unit : LoadUnit}
    (accepted : decode bytes = .ok unit) :
    unit.version = currentVersion := by
  obtain ⟨flags, payload, position, -, -, hread⟩ := decode_eq_ok_iff.mp accepted
  exact (decodePayload_eq_ok_iff.mp hread).1

/-- What was accepted can be written and read again. -/
theorem accepts_encode {bytes : List UInt8} {unit : LoadUnit} (accepted : decode bytes = .ok unit) :
    decode unit.encode = .ok unit := by
  obtain ⟨flags, payload, position, -, hcountable, hread⟩ := decode_eq_ok_iff.mp accepted
  obtain ⟨taken, htaken, spells⟩ := rewrites_payload currentVersion flags _ _ _ hread
  rw [List.append_nil] at htaken
  change payload = taken at htaken
  subst htaken
  obtain ⟨hversion, rfl, middle, front, hstatics⟩ := decodePayload_eq_ok_iff.mp hread
  have hannounced : unit.announced = unit := by
    apply announced_eq_self
    by_cases hflag : unit.hasStatics = true
    · exact Or.inl hflag
    · exact Or.inr (statics_of_not_announced hflag hstatics).1
  have hsmall : Countable unit.payload := by
    rw [Countable, ← spells.length_eq]
    exact hcountable
  have htakes := (answers_payload unit hsmall).takes front.nestsWithin [] headerLength
  rw [List.append_nil, hannounced, hversion] at htakes
  have hencode : unit.encode = header currentVersion unit.flags unit.payload ++ unit.payload := by
    rw [encode, hversion]
  exact decode_eq_ok_iff.mpr ⟨unit.flags, unit.payload, _, hencode, hsmall, htakes⟩

/-- The header depends on a payload through its length and, in the last four bytes, its checksum. -/
theorem getElem?_header_of_length_eq {version flags : UInt32} {payload payload' : List UInt8}
    (hlength : payload.length = payload'.length) {index : Nat} (h : index < 16) :
    (header version flags payload)[index]? = (header version flags payload')[index]? := by
  have hfront : (magic ++ Encode.u32 version ++ Encode.u32 flags ++
      Encode.count payload'.length).length = 16 := by
    simp [magic, Encode.u32, Encode.count]
  have hleft : ∀ checksum : List UInt8, (magic ++ Encode.u32 version ++ Encode.u32 flags ++
      Encode.count payload'.length ++ checksum)[index]? = (magic ++ Encode.u32 version ++
        Encode.u32 flags ++ Encode.count payload'.length)[index]? := by
    intro checksum
    exact List.getElem?_append_left (by rw [hfront]; exact h)
  rw [header, header, hlength, hleft, hleft]

/-- Writing undoes reading. Only a truth value other than 0 and 1 is written as another byte, and
with it the checksum. -/
theorem encode_undoes_decode {bytes : List UInt8} {unit : LoadUnit}
    (accepted : decode bytes = .ok unit) :
    unit.encode.length = bytes.length ∧ decode unit.encode = .ok unit ∧
    (∀ index, unit.encode[index]? ≠ bytes[index]? →
      (16 ≤ index ∧ index < 20) ∨
        index ∈ unit.truthOffsets ∧ ∃ byte, bytes[index]? = some byte ∧ 1 < byte) ∧
    (∀ index ∈ unit.truthOffsets, 20 < index ∧ bytes[index - 1]? = some 1 ∧
      ∃ byte, bytes[index]? = some byte ∧
        unit.encode[index]? = some (if byte = 0 then 0 else 1)) ∧
    ((∀ index ∈ unit.truthOffsets, ∀ byte, bytes[index]? = some byte → byte ≤ 1) →
      unit.encode = bytes) := by
  obtain ⟨payload, rfl, spells⟩ := spells_of_decode accepted
  have hencode : unit.encode = header currentVersion unit.flags unit.payload ++ unit.payload := by
    rw [encode, version_of_decode accepted]
  have htwenty : ∀ other, (header currentVersion unit.flags other).length = 20 :=
    fun other => length_header currentVersion unit.flags other
  have hbody : ∀ other index, 20 ≤ index →
      (header currentVersion unit.flags other ++ other)[index]? = other[index - 20]? := by
    intro other index hindex
    rw [List.getElem?_append_right (by rw [htwenty]; exact hindex), htwenty]
  refine ⟨?_, accepts_encode accepted, ?_, ?_, ?_⟩
  · rw [hencode, List.length_append, List.length_append, htwenty, htwenty, spells.length_eq]
  · intro index hne
    rw [hencode] at hne
    by_cases hheader : index < 20
    · left
      refine ⟨?_, hheader⟩
      by_contra hfields
      apply hne
      rw [List.getElem?_append_left (by rw [htwenty]; exact hheader),
        List.getElem?_append_left (by rw [htwenty]; exact hheader)]
      exact getElem?_header_of_length_eq spells.length_eq.symm (Nat.not_le.mp hfields)
    · right
      have hpast : 20 ≤ index := Nat.le_of_not_lt hheader
      rw [hbody _ index hpast, hbody _ index hpast] at hne
      obtain ⟨hmem, byte, hbyte, hlarge⟩ := spells.large_of_ne hne
      refine ⟨List.mem_map.mpr ⟨index - 20, hmem, Nat.add_sub_cancel' hpast⟩, byte, ?_, hlarge⟩
      rw [hbody _ index hpast, hbyte]
  · intro index hindex
    obtain ⟨inner, hinner, rfl⟩ := List.mem_map.mp hindex
    obtain ⟨hpos, htag, byte, hbyte, hwritten⟩ := spells.truth inner hinner
    change 20 < 20 + inner ∧ _[20 + inner - 1]? = _ ∧ ∃ byte, _[20 + inner]? = _ ∧ _[20 + inner]? = _
    refine ⟨by omega, ?_, byte, ?_, ?_⟩
    · rw [hbody _ _ (by omega), ← htag]
      congr 1
      omega
    · rw [hbody _ _ (by omega), Nat.add_sub_cancel_left, hbyte]
    · rw [hencode, hbody _ _ (by omega), Nat.add_sub_cancel_left, hwritten]
  · intro hplain
    have hpayload : unit.payload = payload := by
      apply spells.eq_of_le_one
      intro inner hinner byte hbyte
      apply hplain (20 + inner) (List.mem_map.mpr ⟨inner, hinner, rfl⟩) byte
      rw [hbody _ _ (by omega), Nat.add_sub_cancel_left, hbyte]
    rw [hencode, hpayload]

/-- A unit that holds one object, whose only slot is true. -/
def oneTruth : LoadUnit :=
  { version := 1, flags := 1, name := "t", selectors := [], classes := [], categories := []
    statics := [⟨"B", [[.bool true]]⟩] }

/-- The same with another byte stored for the truth value. -/
def spelledOneTruth (byte : UInt8) : List UInt8 :=
  let payload := oneTruth.front ++ Encode.count 1 ++ Encode.string "B" ++ Encode.count 1 ++
    Encode.count 1 ++ [1, byte]
  header currentVersion staticsFlag payload ++ payload

theorem encode_undoes_decode_two :
    decode (spelledOneTruth 2) = .ok oneTruth ∧ oneTruth.truthOffsets = [55] ∧
      oneTruth.encode.length = (spelledOneTruth 2).length ∧ oneTruth.encode ≠ spelledOneTruth 2 ∧
      decode oneTruth.encode = .ok oneTruth := by
  have accepted : decode (spelledOneTruth 2) = .ok oneTruth := by decide +kernel
  obtain ⟨hlength, hagain, -⟩ := encode_undoes_decode accepted
  exact ⟨accepted, by decide +kernel, hlength, by decide +kernel, hagain⟩

end LoadUnit

end LateBinding
