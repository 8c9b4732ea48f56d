import LateBinding.Proofs.Order.Declarations
import LateBinding.Proofs.System.Outcome

/-!
# Interning the names of methods

As long as all names that may come are not more than there are uids, interning the names of methods
goes through. It adds selectors and leaves everything else as it was.
-/

namespace LateBinding

/-- Names among the known ones were interned, and nothing else was done. -/
structure Session.Learns (known : List String) (start final : Session) : Prop where
  heap : final.heap = start.heap
  system : final.system = { start.system with selectors := final.system.selectors }
  sound : final.system.selectors.Sound
  within : final.system.selectors.Within known
  grows : start.system.selectors.Grows final.system.selectors

theorem Session.Learns.trans {known : List String} {start middle final : Session}
    (first : start.Learns known middle) (second : middle.Learns known final) :
    start.Learns known final where
  heap := second.heap.trans first.heap
  system := by rw [second.system, first.system]
  sound := second.sound
  within := second.within
  grows := first.grows.trans second.grows

namespace Act

variable {known : List String} {start : Session}

theorem reportConflict_leads (conflict : Option TypeConflict) :
    (reportConflict conflict).Leads False start fun _ final =>
      final.heap = start.heap ∧ final.system = start.system := by
  cases conflict with
  | none => exact ⟨rfl, rfl⟩
  | some conflict => exact ⟨rfl, rfl⟩

variable (hknown : known.dedup.length ≤ maxUid)

include hknown

theorem intern_leads {name : String} (types : Option String) (hname : name ∈ known)
    (sound : start.system.selectors.Sound) (within : start.system.selectors.Within known) :
    (intern name types).Leads False start fun sel final =>
      start.Learns known final ∧ final.system.selectors.name? sel = some name := by
  obtain ⟨sel, selectors, conflict, hintern, interns, hwithin⟩ :=
    SelectorTable.exists_interns types sound within hname hknown
  rw [intern, leads_bind, leads_get, hintern]
  simp only [leads_bind, leads_onSystem, leads_pure]
  refine (reportConflict_leads conflict).mono ?_
  intro _ final h
  obtain ⟨hheap, hsystem⟩ := h
  have hselectors : final.system.selectors = selectors := by rw [hsystem]
  constructor
  · refine ⟨hheap, ?_, ?_, ?_, ?_⟩
    · rw [hselectors, hsystem]
    · rw [hselectors]
      exact interns.sound
    · rw [hselectors]
      exact hwithin
    · rw [hselectors]
      exact interns.kept
  · rw [hselectors]
    exact interns.named

theorem defineMethod_leads {method : MethodSpec} (hname : method.name ∈ known)
    (sound : start.system.selectors.Sound) (within : start.system.selectors.Within known) :
    (defineMethod method).Leads False start fun definition final =>
      start.Learns known final ∧ definition.named final.system.selectors = method.named := by
  rw [defineMethod, leads_bind]
  refine (intern_leads hknown _ hname sound within).mono ?_
  intro sel final h
  obtain ⟨learns, hsel⟩ := h
  refine ⟨learns, ?_⟩
  rw [MethodDefinition.named, hsel, MethodSpec.named]

theorem mapM_defineMethod_leads {methods : List MethodSpec}
    (hnames : ∀ name ∈ methods.map (·.name), name ∈ known)
    (sound : start.system.selectors.Sound) (within : start.system.selectors.Within known) :
    (methods.mapM defineMethod).Leads False start fun definitions final =>
      start.Learns known final ∧
        definitions.map (·.named final.system.selectors) = methods.map MethodSpec.named := by
  induction methods generalizing start with
  | nil => exact ⟨⟨rfl, rfl, sound, within, .refl⟩, rfl⟩
  | cons method rest ih =>
    rw [List.mapM_cons, leads_bind]
    refine (defineMethod_leads hknown (hnames _ List.mem_cons_self) sound within).mono ?_
    intro definition middle h
    obtain ⟨first, hdefinition⟩ := h
    rw [leads_bind]
    have hrest : ∀ name ∈ rest.map (·.name), name ∈ known := fun name hname =>
      hnames name (List.mem_cons_of_mem _ hname)
    refine (ih hrest first.sound first.within).mono ?_
    intro definitions final h
    obtain ⟨second, hdefinitions⟩ := h
    refine ⟨first.trans second, ?_⟩
    have hkept : [definition].map (·.named final.system.selectors) =
        [method].map MethodSpec.named :=
      second.grows.methods (congrArg ([·]) hdefinition)
    rw [List.map_cons, List.map_cons, hdefinitions]
    exact congrArg (· ++ rest.map MethodSpec.named) hkept

theorem defineMethods_leads {methods : Sided (List MethodSpec)}
    (hnames : ∀ name ∈ Declaration.sidesNames methods, name ∈ known)
    (sound : start.system.selectors.Sound) (within : start.system.selectors.Within known) :
    (defineMethods methods).Leads False start fun definitions final =>
      start.Learns known final ∧
        definitions.map (List.map (·.named final.system.selectors)) =
          methods.map (List.map MethodSpec.named) := by
  rw [defineMethods, leads_bind]
  refine (mapM_defineMethod_leads hknown (fun name hname =>
    hnames name (List.mem_append_left _ hname)) sound within).mono ?_
  intro plain middle h
  obtain ⟨first, hplain⟩ := h
  rw [leads_bind]
  refine (mapM_defineMethod_leads hknown (fun name hname =>
    hnames name (List.mem_append_right _ hname)) first.sound first.within).mono ?_
  intro metaclass final h
  obtain ⟨second, hmetaclass⟩ := h
  exact ⟨first.trans second,
    congrArg₂ Sided.mk (second.grows.methods hplain) hmetaclass⟩

end Act

end LateBinding
