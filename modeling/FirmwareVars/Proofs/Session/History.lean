import FirmwareVars.Proofs.Guid.Case
import FirmwareVars.Proofs.Session.Moment

/-!
# Histories of a session

The environment of a session holds what the last successful command with a name as its target
has stored under that name (`Session.find?_environment_after`).  This goes by induction on the
steps from the latest one back, and `Session.Moment.find?_environment_next` is its step.

The variable that a command reads does not hang on the case of the letters in its GUID text,
since a variable is known by the GUID and not by the text.
-/

namespace FirmwareVars

/-! ## Letter case in a request -/

/-- A request with this text for the GUID. -/
def Request.withGuid (r : Request) (text : String) : Request := { r with guidText := some text }

theorem Request.key_withGuid (r : Request) {t u : String} (h : t.toLower = u.toLower) :
    (r.withGuid t).key = (r.withGuid u).key := by
  have vendor : (r.withGuid t).guid = (r.withGuid u).guid := by
    simp only [guid, withGuid, Guid.parse_eq_of_toLower_eq h]
  simp only [key, vendor]
  rfl

namespace Session

/-! ## Whole histories -/

/-- The steps of a history that goes on after some steps, each with all those before it. -/
def moments (memory : Memory) (before : List Step) : List Step → List Moment
  | [] => []
  | st :: rest => ⟨memory, before, st⟩ :: moments memory (before ++ [st]) rest

theorem moments_concat (memory : Memory) (before sts : List Step) (st : Step) :
    moments memory before (sts ++ [st]) =
      moments memory before sts ++ [⟨memory, before ++ sts, st⟩] := by
  induction sts generalizing before with
  | nil => simp [moments]
  | cons first rest ih => simp [moments, ih]

/-- Whether the last step that stores anything under a name stores this value. -/
def LastStores (ms : List Moment) (x : String) (v : Value) : Prop :=
  ∃ earlier m later, ms = earlier ++ m :: later ∧ m.Stores x v ∧ ∀ m' ∈ later, ¬ m'.Targets x

theorem lastStores_concat (ms : List Moment) (m : Moment) (x : String) (v : Value) :
    LastStores (ms ++ [m]) x v ↔ m.Stores x v ∨ ¬ m.Targets x ∧ LastStores ms x v := by
  constructor
  · rintro ⟨earlier, stored, later, split, stores, last⟩
    -- The moment that stores is the last one, or the last one comes after it.
    rcases List.eq_nil_or_concat later with rfl | ⟨between, final, rfl⟩
    · obtain ⟨-, same⟩ := List.append_inj' split rfl
      cases same
      exact Or.inl stores
    · have whole : ms ++ [m] = (earlier ++ stored :: between) ++ [final] := by simpa using split
      obtain ⟨rfl, same⟩ := List.append_inj' whole rfl
      cases same
      rw [List.concat_eq_append, List.forall_mem_append] at last
      exact Or.inr ⟨last.2 m (List.mem_singleton_self m), earlier, stored, between, rfl, stores,
        last.1⟩
  · rintro (stores | ⟨none, earlier, stored, later, rfl, stores, last⟩)
    · exact ⟨ms, m, [], rfl, stores, nofun⟩
    · refine ⟨earlier, stored, later ++ [m], by simp, stores, ?_⟩
      rw [List.forall_mem_append, List.forall_mem_singleton]
      exact ⟨last, none⟩

/-- The environment holds what the last successful command with a name as its target has stored
under it. -/
theorem find?_environment_after (memory : Memory) (sts : List Step) (x : String) (v : Value) :
    (after memory sts).environment.find? x = some v ↔
      LastStores (moments memory [] sts) x v := by
  induction sts using List.reverseRecOn with
  | nil =>
      refine ⟨nofun, ?_⟩
      rintro ⟨earlier, m, later, split, -⟩
      simp [moments] at split
  | append_singleton sts st ih =>
      rw [moments_concat, lastStores_concat, after_concat, ← ih]
      exact Moment.find?_environment_next ⟨memory, sts, st⟩ x v

/-- After any steps, in any memory, a name of the environment has the value that the last
successful command with this target has stored.  Every step keeps to `Moment.Behaves`, whatever
came before it.  Commands whose GUID texts differ in the case of letters alone ask for the same
variable and do the same. -/
theorem history_laws :
    (∀ memory sts x v, (after memory sts).environment.find? x = some v ↔
      LastStores (moments memory [] sts) x v) ∧
    (∀ m : Moment, m.Behaves) ∧
    ∀ (r : Request) (t u : String), t.toLower = u.toLower →
      (∀ key, (r.withGuid t).Names key ↔ (r.withGuid u).Names key) ∧
      ∀ (s : Session) (st st' : Step), st.request? = some (.ok (r.withGuid t)) →
        st'.request? = some (.ok (r.withGuid u)) → s.step st = s.step st' := by
  refine ⟨find?_environment_after, Moment.behaves, ?_⟩
  intro r t u same
  refine ⟨fun key => ?_, fun s st st' asks asks' => ?_⟩
  · rw [Request.names_iff_key_eq, Request.names_iff_key_eq, r.key_withGuid same]
  · rw [step_of_request asks, step_of_request asks', Request.execute, Request.execute,
      r.key_withGuid same]
    rfl

/-- A command that fails does not overwrite what one before it has stored. -/
theorem history_laws_copy :
    let upper := "8BE4DF61-93CA-11D2-AA0D-00E098032B8C"
    let lower := "8be4df61-93ca-11d2-aa0d-00e098032b8c"
    let speed : Key := ⟨"Speed", .globalVariable⟩
    let stored : List Step :=
      [.put speed [42], .line ("efivar --set Copy --uint8 Speed " ++ upper),
        .fail speed .unsupported]
    let failing : Moment := ⟨{}, stored, .run ["--set", "Copy", "Speed", lower]⟩
    LastStores (moments {} [] (stored ++ [failing.step])) "Copy" ⟨[0x34, 0x32]⟩ ∧
      failing.next.environment = failing.start.environment ∧
      ∀ s : Session, s.step (.run ["Speed", upper]) = s.step (.run ["Speed", lower]) := by
  intro upper lower speed stored failing
  obtain ⟨holds, behaves, letters⟩ := history_laws
  have same : upper.toLower = lower.toLower := by
    rw [← String.toList_inj, Text.toList_toLower, Text.toList_toLower]
    decide +kernel
  have failed : failing.result ≠ .ok () := by decide +kernel
  refine ⟨?_, ?_, fun s => ?_⟩
  · rw [← holds]
    decide +kernel
  · exact (behaves failing).keeps (Or.inl failed)
  · have asks (text : String) : Step.request? (.run ["Speed", text]) =
        some (.ok (Request.withGuid { name := "Speed" } text)) := rfl
    exact (letters _ upper lower same).2 s _ _ (asks upper) (asks lower)

end Session

end FirmwareVars
