import LateBinding.Proofs.Execution.Literals
import LateBinding.Proofs.System.Report

/-!
# Objects that have a class already

Who has a class does not get another. Registering it under the name of a linked class does nothing,
but under any other name it waits like everybody else. So the objects that wait, and that the
statistics and the report of a shutdown count, are without a class unless one of them came back: it
had a class when it was registered, and no linked class had that name.
-/

namespace LateBinding

namespace StaticQueue

theorem addAll_eq_self_iff {queue : StaticQueue} {name : String} {objects : List ObjectId} :
    queue.addAll name objects = queue ↔ ∀ object ∈ objects, (name, object) ∈ queue := by
  constructor
  · intro heq object hobject
    rw [← heq, mem_addAll]
    exact .inr (List.mem_map_of_mem hobject)
  · intro hwait
    unfold addAll
    induction objects with
    | nil => rfl
    | cons object rest ih =>
      rw [List.forall_mem_cons] at hwait
      have hadd : queue.add name object = queue := if_pos (by simpa using hwait.1)
      rw [List.foldl_cons, hadd]
      exact ih hwait.2

end StaticQueue

namespace Heap

theorem bindAll_cons (heap : Heap) (cls : PairId) (object : ObjectId) (rest : List ObjectId) :
    heap.bindAll cls (object :: rest) =
      ((if (heap.bind object cls).1 then 1 else 0) + ((heap.bind object cls).2.bindAll cls rest).1,
        ((heap.bind object cls).2.bindAll cls rest).2) := rfl

/-- Who has a class is passed over. -/
theorem bindAll_filter {passed : ObjectId → Bool} {heap : Heap} (cls : PairId)
    (objects : List ObjectId)
    (hpassed : ∀ object, passed object = true → (heap.classOf? object).isSome = true) :
    heap.bindAll cls (objects.filter fun object => !passed object) = heap.bindAll cls objects := by
  induction objects generalizing heap with
  | nil => rfl
  | cons object rest ih =>
    cases hobject : passed object with
    | true =>
      have hsome := hpassed object hobject
      have hbind : heap.bind object cls = (false, heap) := by
        unfold bind
        cases hcls : (heap.object object).cls with
        | some own => rfl
        | none =>
          rw [classOf?, hcls] at hsome
          cases hsome
      rw [List.filter_cons_of_neg (by simp [hobject]), ih hpassed, bindAll_cons, hbind]
      simp
    | false =>
      have hstill : ∀ other, passed other = true →
          ((heap.bind object cls).2.classOf? other).isSome = true := by
        intro other hother
        obtain ⟨own, hown⟩ := Option.isSome_iff_exists.mp (hpassed other hother)
        rw [classOf?_bind, hown]
        rfl
      rw [List.filter_cons_of_pos (by simp [hobject]), bindAll_cons, ih hstill, bindAll_cons]

end Heap

namespace Act

variable {session : Session} {name : String}

theorem registerStatics_of_linked {cls : ClassRef} (hcls : session.classForName? name = some cls)
    (objects : List ObjectId) :
    registerStatics name objects session = .ok (session.heap.bindAll cls.pair objects).1
      { session with heap := (session.heap.bindAll cls.pair objects).2 } := by
  rw [registerStatics, bind_of_ok (run_get session), hcls]
  rfl

theorem registerStatics_of_none (hnone : session.classForName? name = none)
    (objects : List ObjectId) :
    registerStatics name objects session =
      .ok 0 { session with system.statics := session.system.statics.addAll name objects } := by
  rw [registerStatics, bind_of_ok (run_get session), hnone]
  rfl

/-- Under the name of a linked class only those without a class count. -/
theorem registerStatics_filter {cls : ClassRef} (hcls : session.classForName? name = some cls)
    (objects : List ObjectId) :
    registerStatics name (objects.filter fun object => !(session.heap.classOf? object).isSome)
      session = registerStatics name objects session := by
  rw [registerStatics_of_linked hcls, registerStatics_of_linked hcls,
    Heap.bindAll_filter cls.pair objects fun _ h => h]

end Act

namespace Session

variable {options : Options} {session : Session} {chapter : Chapter} {history : List Chapter}
  {name : String} {object : ObjectId}

/-! ### What counts the waiting objects -/

/-- The statistics and the report of a shutdown count only those who have no class. -/
structure CountsUnbound (session : Session) : Prop where
  pending : session.system.stats.pendingStaticInstances =
    session.system.statics.countP fun (_, object) => session.heap.classOf? object = none
  forgotten : ∀ report final, Operation.shutdown.perform session = .ok report final →
    ∀ name count, (name, count) ∈ report.forgotten → count =
      session.system.statics.countP fun (other, object) =>
        other = name ∧ session.heap.classOf? object = none

theorem countsUnbound_iff : session.CountsUnbound ↔
    ∀ name object, (name, object) ∈ session.system.statics →
      session.heap.classOf? object = none := by
  constructor
  · intro counts name object hwaits
    have hall := List.countP_eq_length.mp counts.pending.symm (name, object) hwaits
    exact of_decide_eq_true hall
  · intro hunbound
    constructor
    · refine (List.countP_eq_length.mpr fun entry hentry => ?_).symm
      exact decide_eq_true (hunbound entry.1 entry.2 hentry)
    · intro report final hrun name count hmem
      cases (Act.shutdown_eq session).symm.trans hrun
      rw [(StaticQueue.mem_counts _).mp hmem |>.2]
      apply List.countP_congr
      intro entry hentry
      simp [hunbound entry.1 entry.2 hentry]

/-! ### Who came back -/

/-- No object was registered under two names. -/
def OneName (history : List Chapter) : Prop :=
  ∀ first ∈ history, ∀ second ∈ history, ∀ name other object,
    (name, object) ∈ first.dealings.entries → (other, object) ∈ second.dealings.entries →
      other = name

/-- The object had a class already when it was registered, and the name had no linked class. -/
def Returned (options : Options) (name : String) (object : ObjectId) (history : List Chapter) :
    Prop :=
  ∃ chapter before, chapter :: before <:+ history ∧
    (name, object) ∈ chapter.dealings.entries ∧
    (∃ cls, (after options before).heap.classOf? object = some cls) ∧
    chapter.session.classForName? name = none

def NeverBound (options : Options) (object : ObjectId) (history : List Chapter) : Prop :=
  ∀ moment, moment <:+ history → (after options moment).heap.classOf? object = none

/-- What makes an instance registers nothing. -/
theorem Takes.entries_eq_nil {start : Session} (takes : start.Takes chapter)
    (hmade : object ∈ chapter.dealings.instances) : chapter.dealings.entries = [] := by
  cases takes with
  | @perform operation reply =>
    cases operation with
    | createInstance cls => cases reply <;> rfl
    | _ => cases hmade
  | @load unit imps reply => cases reply <;> cases hmade
  | _ => rfl

theorem Returned.cons (returned : Returned options name object history) (chapter : Chapter) :
    Returned options name object (chapter :: history) := by
  obtain ⟨last, before, hsuffix, h⟩ := returned
  exact ⟨last, before, hsuffix.trans (List.suffix_cons _ _), h⟩

theorem OneName.tail (oneName : OneName (chapter :: history)) : OneName history :=
  fun first hfirst second hsecond =>
    oneName first (List.mem_cons_of_mem _ hfirst) second (List.mem_cons_of_mem _ hsecond)

namespace Chronicle

/-- A chapter that leaves an object waiting under its only name gives it no class. -/
theorem unbound_of_waits (chronicle : Chronicle options (chapter :: history))
    (oneName : OneName (chapter :: history))
    (hwaits : (name, object) ∈ chapter.session.system.statics)
    (hbefore : (after options history).heap.classOf? object = none) :
    chapter.session.heap.classOf? object = none := by
  have before := chronicle.of_suffix (List.suffix_cons chapter history)
  rcases chronicle.provides_or with ⟨-, provides⟩ | ⟨-, -, hstatics, -⟩
  · obtain ⟨hawaits, hnone⟩ := (provides.waits _).mp hwaits
    have hmentioned : ∀ other, (after options history).Awaits chapter.dealings (other, object) →
        ∃ mention ∈ chapter :: history, (other, object) ∈ mention.dealings.entries := by
      rintro other (hearlier | hnew)
      · obtain ⟨mention, hmem, hentry⟩ := (before.enlisted hearlier).mem_entries
        exact ⟨mention, List.mem_cons_of_mem _ hmem, hentry⟩
      · exact ⟨chapter, List.mem_cons_self, hnew⟩
    have hinstance : object ∉ chapter.dealings.instances := by
      intro hmade
      have hfresh := (provides.made object (List.mem_append_right _ hmade)).1
      rcases hawaits with hearlier | hnew
      · exact hfresh (before.present _ hearlier)
      · cases chronicle with
        | takes _ takes => exact List.not_mem_nil (takes.entries_eq_nil hmade ▸ hnew)
    cases hcls : chapter.session.heap.classOf? object with
    | none => rfl
    | some cls =>
      rcases provides.origin object cls hinstance hcls with hbound | ⟨other, hother, hhome⟩
      · cases hbefore.symm.trans hbound
      · obtain ⟨first, hfirst, hentry⟩ := hmentioned name hawaits
        obtain ⟨second, hsecond, hagain⟩ := hmentioned other hother
        rw [oneName first hfirst second hsecond name other object hentry hagain, hnone] at hhome
        cases hhome
  · rw [hstatics] at hwaits
    cases hwaits

/-- Whoever waits under its only name and has a class came back. -/
theorem returned_of_waits (chronicle : Chronicle options history) (oneName : OneName history)
    (hwaits : (name, object) ∈ (after options history).system.statics)
    (hbound : ∃ cls, (after options history).heap.classOf? object = some cls) :
    Returned options name object history := by
  induction chronicle with
  | start => cases hwaits
  | @takes chapter history before takes ih =>
    have chronicle := before.takes takes
    have hbefore : ∃ cls, (after options history).heap.classOf? object = some cls := by
      cases hcls : (after options history).heap.classOf? object with
      | some cls => exact ⟨cls, rfl⟩
      | none =>
        obtain ⟨cls, hcls'⟩ := hbound
        cases (chronicle.unbound_of_waits oneName hwaits hcls).symm.trans hcls'
    rcases chronicle.provides_or with ⟨-, provides⟩ | ⟨-, -, hstatics, -⟩
    · obtain ⟨hearlier | hnew, hnone⟩ := (provides.waits _).mp hwaits
      · exact (ih oneName.tail hearlier hbefore).cons chapter
      · exact ⟨chapter, history, List.suffix_rfl, hnew, hbefore, hnone⟩
    · rw [after, hstatics] at hwaits
      cases hwaits

theorem bound_of_returned (chronicle : Chronicle options history)
    (returned : Returned options name object history) :
    ∃ cls, (after options history).heap.classOf? object = some cls := by
  obtain ⟨chapter, before, hsuffix, -, ⟨cls, hcls⟩, -⟩ := returned
  exact ⟨cls, chronicle.kept ((List.suffix_cons _ _).trans hsuffix) hcls⟩

theorem bound_iff_returned (chronicle : Chronicle options history) (oneName : OneName history)
    (hwaits : (name, object) ∈ (after options history).system.statics) :
    (∃ cls, (after options history).heap.classOf? object = some cls) ↔
      Returned options name object history :=
  ⟨chronicle.returned_of_waits oneName hwaits, chronicle.bound_of_returned⟩

theorem neverBound_iff (chronicle : Chronicle options history) :
    NeverBound options object history ↔ (after options history).heap.classOf? object = none := by
  refine ⟨fun never => never history List.suffix_rfl, fun hnone moment hsuffix => ?_⟩
  cases hcls : (after options moment).heap.classOf? object with
  | none => rfl
  | some cls => cases hnone.symm.trans (chronicle.kept hsuffix hcls)

end Chronicle

/-- When objects that all have a class are registered, none of them counts. The session stays as it
is exactly if a linked class has the name or all of them wait under it already, else they wait from
then on; and when others are registered with them under the name of a linked class, it is as if only
the others were. As long as no object was registered under two names, one that waits has a class
exactly if it came back. So the numbers of waiting objects count nobody who ever had a class exactly
if none of those who wait came back. -/
theorem waits_bound_iff_returned (options : Options) :
    (∀ (session : Session) name objects,
      (∀ object ∈ objects, (session.heap.classOf? object).isSome = true) →
      (session.classForName? name = none →
        (Operation.registerStatics name objects).perform session = .ok (0 : Nat)
          { session with system.statics := session.system.statics.addAll name objects }) ∧
      ((Operation.registerStatics name objects).perform session = .ok (0 : Nat) session ↔
        session.classForName? name ≠ none ∨
          ∀ object ∈ objects, (name, object) ∈ session.system.statics)) ∧
    (∀ (session : Session) name objects, session.classForName? name ≠ none →
      (Operation.registerStatics name objects).perform session =
        (Operation.registerStatics name (objects.filter fun object =>
          !(session.heap.classOf? object).isSome)).perform session) ∧
    ∀ history, Chronicle options history → OneName history →
      (∀ name object, (name, object) ∈ (after options history).system.statics →
        ((∃ cls, (after options history).heap.classOf? object = some cls) ↔
          Returned options name object history) ∧
        (NeverBound options object history ↔ ¬ Returned options name object history)) ∧
      ((after options history).CountsUnbound ↔
        ∀ name object, (name, object) ∈ (after options history).system.statics →
          ¬ Returned options name object history) := by
  have hfilter : ∀ (session : Session) name objects, session.classForName? name ≠ none →
      (Operation.registerStatics name objects).perform session =
        (Operation.registerStatics name (objects.filter fun object =>
          !(session.heap.classOf? object).isSome)).perform session := by
    intro session name objects hlinked
    obtain ⟨cls, hcls⟩ := Option.ne_none_iff_exists'.mp hlinked
    exact (Act.registerStatics_filter hcls objects).symm
  refine ⟨?_, hfilter, ?_⟩
  · intro session name objects hbound
    refine ⟨fun hnone => Act.registerStatics_of_none hnone objects, ?_⟩
    cases hcls : session.classForName? name with
    | some cls =>
      have hlinked : session.classForName? name ≠ none := by simp [hcls]
      have hnil : objects.filter (fun object => !(session.heap.classOf? object).isSome) = [] := by
        rw [List.filter_eq_nil_iff]
        intro object hobject
        rw [hbound object hobject]
        decide
      rw [hfilter session name objects hlinked, hnil]
      exact ⟨fun _ => .inl nofun, fun _ => Act.registerStatics_of_linked hcls []⟩
    | none =>
      have hrun := Act.registerStatics_of_none hcls objects
      rw [or_iff_right (by simp), ← StaticQueue.addAll_eq_self_iff]
      change Act.registerStatics name objects session = _ ↔ _
      rw [hrun]
      constructor
      · intro heq
        injection heq with _ hsession
        exact congrArg (·.system.statics) hsession
      · intro heq
        rw [heq]
        rfl
  · intro history chronicle oneName
    have hiff : ∀ name object, (name, object) ∈ (after options history).system.statics →
        ((∃ cls, (after options history).heap.classOf? object = some cls) ↔
          Returned options name object history) :=
      fun _ _ => chronicle.bound_iff_returned oneName
    have hnever : ∀ name object, (name, object) ∈ (after options history).system.statics →
        ((after options history).heap.classOf? object = none ↔
          ¬ Returned options name object history) := by
      intro name object hwaits
      rw [← hiff name object hwaits, ← Option.ne_none_iff_exists', not_not]
    refine ⟨fun name object hwaits => ⟨hiff name object hwaits, ?_⟩, ?_⟩
    · rw [chronicle.neverBound_iff, hnever name object hwaits]
    · rw [countsUnbound_iff]
      exact forall₃_congr hnever

theorem Chronicle.enlisted_one (chronicle : Chronicle options history)
    (known : (after options history).heap.HasObject object) (name : String) :
    Chronicle options (Session.performed options history (.registerStatics name [object])) := by
  refine chronicle.performed fun reply entry hentry => ?_
  rw [List.mem_singleton.mp hentry]
  exact known

theorem OneName.of_all (name : String) (hall : ∀ chapter ∈ history, ∀ entry ∈ chapter.dealings.entries,
    entry.1 = name) : OneName history := by
  intro first hfirst second hsecond _ _ _ hentry hagain
  exact (hall second hsecond _ hagain).trans (hall first hfirst _ hentry).symm

theorem after_performed (options : Options) (history : List Chapter) (operation : Operation) :
    after options (performed options history operation) =
      (after options history).afterPerform operation := by
  unfold performed afterPerform
  cases operation.perform (after options history) <;> rfl

/-- Of two literals the first one is registered under the name of a linked class, twice; then the
class is removed. -/
def boundSample : List Chapter :=
  let made := performed {} (performed {} (registered {} [] rootSample) (.createLiteral []))
    (.createLiteral [])
  let bound := performed {} (performed {} made (.registerStatics "Root" [⟨0⟩]))
    (.registerStatics "Root" [⟨0⟩])
  performed {} bound (.unregister "Root")

theorem chronicle_boundSample : Chronicle {} boundSample := by
  have hmade : Chronicle {} (Session.performed {} (Session.performed {}
      (Session.registered {} [] rootSample) (.createLiteral [])) (.createLiteral [])) := by
    refine ((Chronicle.start.registered _).performed ?_).performed ?_ <;>
      exact fun _ _ h => absurd h List.not_mem_nil
  refine ((hmade.enlisted_one ?_ _).enlisted_one ?_ _).performed
    fun _ _ h => absurd h List.not_mem_nil <;> decide +kernel

/-- The second literal waits for a class of the name that was removed, and it alone counts. -/
theorem counts_only_unbound_sample :
    let history := performed {} boundSample (.registerStatics "Root" [⟨1⟩])
    Chronicle {} history ∧ OneName history ∧
      (after {} history).system.statics = [("Root", ⟨1⟩)] ∧
      (after {} history).heap.classOf? ⟨0⟩ = some ⟨⟨0⟩, .plain⟩ ∧
      NeverBound {} ⟨1⟩ history ∧ (after {} history).CountsUnbound := by
  intro history
  have chronicle : Chronicle {} history :=
    chronicle_boundSample.enlisted_one (by decide +kernel) "Root"
  have oneName : OneName history := .of_all "Root" (by decide +kernel)
  have hfacts : (after {} history).system.statics = [("Root", ⟨1⟩)] ∧
      (after {} history).heap.classOf? ⟨0⟩ = some ⟨⟨0⟩, .plain⟩ ∧
      (after {} history).heap.classOf? ⟨1⟩ = none := by decide +kernel
  obtain ⟨hstatics, hbound, hnone⟩ := hfacts
  obtain ⟨-, -, hhistory⟩ := waits_bound_iff_returned {}
  obtain ⟨hwaiting, hcounts⟩ := hhistory history chronicle oneName
  have hsecond : ("Root", (⟨1⟩ : ObjectId)) ∈ (after {} history).system.statics := by
    rw [hstatics]
    exact List.mem_singleton_self _
  obtain ⟨hreturned, hnever⟩ := hwaiting "Root" ⟨1⟩ hsecond
  have hnot : ¬ Returned {} "Root" ⟨1⟩ history := by
    rw [← hreturned]
    rintro ⟨cls, hcls⟩
    cases hnone.symm.trans hcls
  refine ⟨chronicle, oneName, hstatics, hbound, hnever.mpr hnot, hcounts.mpr ?_⟩
  intro name object hwaits
  rw [hstatics, List.mem_singleton] at hwaits
  cases hwaits
  exact hnot

/-- The first literal has a class and was registered under one name only. Once the class is removed
it is registered again: nobody is bound, but the session changes, and a literal waits, and counts,
that has a class. -/
theorem bound_literal_waits_again :
    let history := performed {} boundSample (.registerStatics "Root" [⟨0⟩])
    let session := after {} boundSample
    let final := after {} history
    Chronicle {} history ∧ OneName history ∧ session.Reachable {} ∧
      session.heap.classOf? ⟨0⟩ = some ⟨⟨0⟩, .plain⟩ ∧ session.classForName? "Root" = none ∧
      (Operation.registerStatics "Root" [⟨0⟩]).perform session = .ok (0 : Nat) final ∧
      final ≠ session ∧ ("Root", ⟨0⟩) ∈ final.system.statics ∧
      final.heap.classOf? ⟨0⟩ = some ⟨⟨0⟩, .plain⟩ ∧ final.system.stats.pendingStaticInstances = 1 ∧
      final.system.shutdownReport.forgotten = [("Root", 1)] := by
  intro history session final
  have hfacts : session.heap.classOf? ⟨0⟩ = some ⟨⟨0⟩, .plain⟩ ∧
      session.classForName? "Root" = none ∧ session.system.statics = [] ∧
      final.system.statics = [("Root", ⟨0⟩)] ∧
      final.heap.classOf? ⟨0⟩ = some ⟨⟨0⟩, .plain⟩ := by decide +kernel
  obtain ⟨hbound, hnone, hbefore, hafter, hstill⟩ := hfacts
  have hreply : (Act.registerStatics "Root" [⟨0⟩]).run' session = some 0 := by decide +kernel
  have hrun : (Operation.registerStatics "Root" [⟨0⟩]).perform session =
      .ok (0 : Nat) (after {} history) := by
    rw [after_performed]
    exact perform_of_reply hreply
  refine ⟨chronicle_boundSample.enlisted_one (by decide +kernel) "Root",
    .of_all "Root" (by decide +kernel), chronicle_boundSample.reachable, hbound, hnone,
    hrun, ?_, ?_, hstill, ?_, ?_⟩
  · intro heq
    rw [heq, hbefore] at hafter
    cases hafter
  · rw [hafter]
    exact List.mem_singleton_self _
  · rw [System.stats, hafter]
    rfl
  · rw [System.shutdownReport, hafter]
    decide +kernel

end Session

end LateBinding
