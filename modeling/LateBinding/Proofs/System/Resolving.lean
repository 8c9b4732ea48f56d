import LateBinding.Proofs.System.Sound

/-!
# The implementations of a unit

A unit gives implementations by symbol. What is resolved for it is what it declares, item by item and
in the same order, with the implementations that its symbols stand for.
-/

namespace LateBinding

def MethodDef.Supplied (imps : String → Option Imp) (method : MethodDef) (spec : MethodSpec) :
    Prop :=
  spec.name = method.name ∧ spec.types = some method.types ∧ imps method.symbol = some spec.imp

structure SidesSupplied (imps : String → Option Imp) (methods : Sided (List MethodDef))
    (specs : Sided (List MethodSpec)) : Prop where
  plain : List.Forall₂ (MethodDef.Supplied imps) methods.plain specs.plain
  metaclass : List.Forall₂ (MethodDef.Supplied imps) methods.metaclass specs.metaclass

/-- A class as the unit has it, with the implementations that its symbols stand for. -/
structure ClassDef.Supplied (imps : String → Option Imp) (cls : ClassDef) (spec : ClassSpec) :
    Prop where
  name : spec.name = cls.name
  superclass : spec.superclass = cls.superclass
  size : spec.size = cls.size
  methods : SidesSupplied imps cls.methods spec.methods
  protocols : spec.protocols = cls.protocols

structure CategoryDef.Supplied (imps : String → Option Imp) (category : CategoryDef)
    (spec : CategorySpec) : Prop where
  name : spec.name = category.name
  className : spec.className = category.className
  methods : SidesSupplied imps category.methods spec.methods
  protocols : spec.protocols = category.protocols

/-! ### Resolving -/

theorem Except.forall₂_of_mapM_eq_ok {ε α β : Type} {related : α → β → Prop} {list : List α}
    {step : α → Except ε β} {results : List β} (hrun : list.mapM step = .ok results)
    (hstep : ∀ item result, step item = .ok result → related item result) :
    List.Forall₂ related list results := by
  induction list generalizing results with
  | nil =>
    cases hrun
    exact .nil
  | cons item rest ih =>
    rw [List.mapM_cons] at hrun
    obtain ⟨result, hresult, hrun⟩ := Except.bind_eq_ok_iff.mp hrun
    obtain ⟨others, hothers, hrun⟩ := Except.bind_eq_ok_iff.mp hrun
    cases hrun
    exact .cons (hstep item result hresult) (ih hothers)

namespace LoadUnit

variable {unit : String} {imps : String → Option Imp}

theorem supplied_of_resolveMethods {methods : List MethodDef} {specs : List MethodSpec}
    (hresolve : resolveMethods unit imps methods = .ok specs) :
    List.Forall₂ (MethodDef.Supplied imps) methods specs := by
  refine Except.forall₂_of_mapM_eq_ok hresolve ?_
  intro method spec hspec
  cases himp : imps method.symbol with
  | none =>
    rw [himp] at hspec
    cases hspec
  | some imp =>
    rw [himp] at hspec
    cases hspec
    exact ⟨rfl, rfl, himp⟩

theorem supplied_of_resolveSides {methods : Sided (List MethodDef)}
    {specs : Sided (List MethodSpec)} (hresolve : resolveSides unit imps methods = .ok specs) :
    SidesSupplied imps methods specs := by
  obtain ⟨plain, hplain, hresolve⟩ := Except.bind_eq_ok_iff.mp hresolve
  obtain ⟨metaclass, hmetaclass, hresolve⟩ := Except.bind_eq_ok_iff.mp hresolve
  cases hresolve
  exact ⟨supplied_of_resolveMethods hplain, supplied_of_resolveMethods hmetaclass⟩

theorem supplied_of_resolveClasses {earlier : List String} {classes : List ClassDef}
    {specs : List ClassSpec} (hresolve : resolveClasses unit imps earlier classes = .ok specs) :
    List.Forall₂ (ClassDef.Supplied imps) classes specs := by
  induction classes generalizing earlier specs with
  | nil =>
    cases hresolve
    exact .nil
  | cons cls rest ih =>
    rw [resolveClasses] at hresolve
    by_cases hearlier : earlier.contains cls.name = true
    · rw [if_pos hearlier] at hresolve
      cases hresolve
    · rw [if_neg hearlier] at hresolve
      obtain ⟨methods, hmethods, hresolve⟩ := Except.bind_eq_ok_iff.mp hresolve
      obtain ⟨others, hothers, hresolve⟩ := Except.bind_eq_ok_iff.mp hresolve
      cases hresolve
      exact .cons ⟨rfl, rfl, rfl, supplied_of_resolveSides hmethods, Protocol.copyAll_eq _⟩
        (ih hothers)

theorem supplied_of_resolve {unit : LoadUnit} {registry : Registry} {classes : List ClassSpec}
    {categories : List CategorySpec}
    (hresolve : unit.resolve imps registry = .ok (classes, categories)) :
    List.Forall₂ (ClassDef.Supplied imps) unit.classes classes ∧
      List.Forall₂ (CategoryDef.Supplied imps) unit.categories categories := by
  obtain ⟨specs, hspecs, hresolve⟩ := Except.bind_eq_ok_iff.mp hresolve
  obtain ⟨others, hothers, hresolve⟩ := Except.bind_eq_ok_iff.mp hresolve
  obtain ⟨⟨⟩, -, hresolve⟩ := Except.bind_eq_ok_iff.mp hresolve
  cases hresolve
  refine ⟨supplied_of_resolveClasses hspecs, Except.forall₂_of_mapM_eq_ok hothers ?_⟩
  intro category spec hspec
  obtain ⟨methods, hmethods, hspec⟩ := Except.bind_eq_ok_iff.mp hspec
  cases hspec
  exact ⟨rfl, rfl, supplied_of_resolveSides hmethods, Protocol.copyAll_eq _⟩

end LoadUnit

end LateBinding
