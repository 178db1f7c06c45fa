import FirmwareVars.Proofs.Command.Calls
import FirmwareVars.Session
import Mathlib.Data.List.Induction

/-!
# Steps of a session

A `Moment` is a step with the steps before it, in the memory of the session.  They tell what a
command of the step reads: what the last change of its variable has left (`answers_after`).  So
they tell the way that its request goes (`Moment.goes`), and with it all that the step does
(`Moment.Behaves`).

A step stores a value, prints a value, or has none to show (`Moment.stores_or_prints`).
-/

namespace FirmwareVars

/-! ## What a step is about -/

namespace Session.Step

/-- The request of a command, or what is wrong with its words.  The other steps have none. -/
def request? : Step → Option (Except BadArgument Request)
  | .run words => some (Request.parse words)
  | .line text => some (Request.parse ((CommandLine.split text).drop 1))
  | .execute r => some (.ok r)
  | _ => none

/-- What a change of a variable makes its reading give. -/
def reading? (key : Key) : Step → Option (Except Status (List UInt8))
  | .put changed data => if key = changed then some (.ok data) else none
  | .fail changed status => if key = changed then some (.error status) else none
  | .delete changed => if key = changed then some (.error .notFound) else none
  | _ => none

theorem reading?_of_request? {st : Step} {request : Except BadArgument Request}
    (h : st.request? = some request) (key : Key) : st.reading? key = none := by
  cases st with
  | put _ _ => cases h
  | fail _ _ => cases h
  | delete _ => cases h
  | run _ => rfl
  | line _ => rfl
  | execute _ => rfl

end Session.Step

namespace Session

variable {s : Session} {st : Step} {r : Request}

/-- The session at the start of a step. -/
def begun (s : Session) : Session := { s with lookups := [], lines := [] }

/-- The session after some steps in this memory, first to last. -/
def after (memory : Memory) (sts : List Step) : Session :=
  sts.foldl (fun s st => (s.step st).2) { memory }

theorem after_concat (memory : Memory) (sts : List Step) (st : Step) :
    after memory (sts ++ [st]) = ((after memory sts).step st).2 := by
  rw [after, List.foldl_append]
  rfl

/-! ## A single step -/

theorem step_of_change (h : st.request? = none) :
    (s.step st).1 = .ok () ∧
      ∃ readings, (s.step st).2 = { s.begun with readings := readings } := by
  cases st with
  | put key data => exact ⟨rfl, _, rfl⟩
  | fail key status => exact ⟨rfl, _, rfl⟩
  | delete key => exact ⟨rfl, _, rfl⟩
  | run words => cases h
  | line text => cases h
  | execute r => cases h

/-- What comes of a request in a session, or of words that are none. -/
def attempt (s : Session) : Except BadArgument Request → Except Error Unit × Session
  | .error cause => (.error (.badArgument cause), s)
  | .ok r => r.execute s.memory s

theorem step_of_asked {request : Except BadArgument Request} (h : st.request? = some request) :
    s.step st = s.begun.attempt request := by
  cases st with
  | put key data => cases h
  | fail key status => cases h
  | delete key => cases h
  | run words =>
      cases h
      rfl
  | line text =>
      cases h
      rfl
  | execute r =>
      cases h
      rfl

theorem step_of_badArgument {cause : BadArgument} (h : st.request? = some (.error cause)) :
    s.step st = (.error (.badArgument cause), s.begun) := step_of_asked h

theorem step_of_request (h : st.request? = some (.ok r)) :
    s.step st = r.execute s.memory s.begun := step_of_asked h

theorem keeps_memory (memory : Memory) : Host.Keeps fun s : Session => s.memory = memory where
  lookup _ _ h := h
  store _ _ _ h := h
  print _ _ h := h
  record _ _ h := h

theorem memory_step (s : Session) (st : Step) : (s.step st).2.memory = s.memory := by
  cases asked : st.request? with
  | none =>
      obtain ⟨-, readings, next⟩ := step_of_change (s := s) asked
      rw [next]
      rfl
  | some request =>
      cases request with
      | error cause =>
          rw [step_of_badArgument asked]
          rfl
      | ok r =>
          rw [step_of_request asked]
          exact r.execute_keeps (keeps_memory s.memory) s.memory rfl

/-- No step changes the memory of a session. -/
theorem memory_after (memory : Memory) (sts : List Step) : (after memory sts).memory = memory := by
  induction sts using List.reverseRecOn with
  | nil => rfl
  | append_singleton sts st ih => rw [after_concat, memory_step, ih]

theorem deliver_lookups (r : Request) (v : Value) (s : Session) :
    (r.deliver v s).lookups = s.lookups := by
  rw [Request.deliver]
  cases r.target with
  | none => rfl
  | some target => rfl

/-- What is left of the calls of a request that hands its value over. -/
theorem perform_delivered (r : Request) (v : Value) (s : Session) (key : Key) :
    [Call.lookup key, r.delivery v].foldl Call.perform s.begun =
      r.deliver v { s.begun with lookups := [key] } := by
  rw [List.foldl_cons, List.foldl_cons, List.foldl_nil, r.perform_delivery]
  rfl

/-! ## What a command sees -/

/-- What the last change of a variable among some steps makes its reading give. -/
def lastReading (sts : List Step) (key : Key) : Except Status (List UInt8) :=
  (sts.reverse.findSome? (Step.reading? key)).getD (.error .notFound)

theorem lastReading_concat (sts : List Step) (st : Step) (key : Key) :
    lastReading (sts ++ [st]) key = (st.reading? key).getD (lastReading sts key) := by
  rw [lastReading, List.reverse_concat, List.findSome?_cons]
  cases st.reading? key <;> rfl

theorem keeps_readings (readings : Table Key (Except Status (List UInt8))) :
    Host.Keeps fun s : Session => s.readings = readings where
  lookup _ _ h := h
  store _ _ _ h := h
  print _ _ h := h
  record _ _ h := h

/-- A reading gives what it gave before unless the step changes its variable. -/
theorem answers_step (s : Session) (st : Step) (key : Key) :
    Host.answers (s.step st).2 key = (st.reading? key).getD (Host.answers s key) := by
  cases asked : st.request? with
  | some request =>
      -- No call of a command changes a reading, so it is enough to look at the table.
      have kept : (s.step st).2.readings = s.readings := by
        cases request with
        | error cause =>
            rw [step_of_badArgument asked]
            rfl
        | ok r =>
            rw [step_of_request asked]
            exact r.execute_keeps (keeps_readings s.readings) s.memory rfl
      rw [Step.reading?_of_request? asked]
      exact congrArg (fun t => (t.find? key).getD (.error .notFound)) kept
  | none =>
      show ((s.step st).2.readings.find? key).getD _ = _
      cases st with
      | put changed data =>
          rw [step, Table.find?_insert, Step.reading?]
          split <;> rfl
      | fail changed status =>
          rw [step, Table.find?_insert, Step.reading?]
          split <;> rfl
      | delete changed =>
          rw [step, Table.find?_erase, Step.reading?]
          split <;> rfl
      | run words => cases asked
      | line text => cases asked
      | execute r => cases asked

/-- A command sees what the last change of its variable has left. -/
theorem answers_after (memory : Memory) (sts : List Step) :
    Host.answers (after memory sts) = lastReading sts := by
  funext key
  induction sts using List.reverseRecOn with
  | nil => rfl
  | append_singleton sts st ih => rw [after_concat, answers_step, ih, lastReading_concat]

/-! ## A step of a history -/

/-- A step with the steps before it, in the memory of the session. -/
structure Moment where
  memory : Memory
  before : List Step
  step : Step

namespace Moment

variable {m : Moment} {v w : Value} {x : String}

/-- The session in which the step is made. -/
def start (m : Moment) : Session := after m.memory m.before

/-- How the step ends. -/
def result (m : Moment) : Except Error Unit := (m.start.step m.step).1

/-- The session after the step. -/
def next (m : Moment) : Session := (m.start.step m.step).2

/-- Whether the step is a command with this request. -/
def Asks (m : Moment) (r : Request) : Prop := m.step.request? = some (.ok r)

/-- Whether the step is a command with this request, and this is the value of its variable as
the last change has left it. -/
structure Shows (m : Moment) (r : Request) (v : Value) : Prop where
  asks : m.Asks r
  value : ∃ key buffer, r.Names key ∧ lastReading m.before key = .ok buffer ∧
    r.format.apply buffer m.memory = .ok v

/-- Whether the step is a successful command with this target. -/
def Targets (m : Moment) (x : String) : Prop :=
  m.result = .ok () ∧ ∃ r, m.Asks r ∧ r.target = some x

/-- Whether the step is a successful command with this target and this value. -/
def Stores (m : Moment) (x : String) (v : Value) : Prop :=
  m.result = .ok () ∧ ∃ r, m.Shows r v ∧ r.target = some x

/-- Whether the step is a successful command with no target and this value. -/
def Prints (m : Moment) (v : Value) : Prop :=
  m.result = .ok () ∧ ∃ r, m.Shows r v ∧ r.target = none

/-- A command goes the way that the last changes of the variables leave it. -/
theorem goes {result : Except Error Unit} {calls : List Call} (asks : m.Asks r)
    (way : r.Way m.memory (lastReading m.before) result calls) :
    m.result = result ∧ m.next = calls.foldl Call.perform m.start.begun := by
  have answers : lastReading m.before = Host.answers m.start.begun :=
    (answers_after m.memory m.before).symm
  have memory : m.start.memory = m.memory := memory_after m.memory m.before
  rw [answers] at way
  obtain ⟨rfl, rfl⟩ := way.taken
  rw [Moment.result, next, step_of_request asks, memory]
  exact ⟨rfl, r.execute_performed (fun _ _ => rfl) m.memory _⟩

theorem Shows.unique {r' : Request} (h : m.Shows r v) (h' : m.Shows r' w) : r = r' ∧ v = w := by
  have same := h.asks.symm.trans h'.asks
  cases same
  obtain ⟨key, buffer, names, answer, shown⟩ := h.value
  obtain ⟨key', buffer', names', answer', shown'⟩ := h'.value
  cases names.key_eq.symm.trans names'.key_eq
  rw [answer] at answer'
  cases answer'
  rw [shown] at shown'
  cases shown'
  exact ⟨rfl, rfl⟩

theorem Shows.goes (h : m.Shows r v) : m.result = .ok () ∧
    ∃ key, m.next = r.deliver v { m.start.begun with lookups := [key] } := by
  obtain ⟨key, buffer, names, answer, shown⟩ := h.value
  obtain ⟨ended, next⟩ := Moment.goes h.asks (.delivered names answer shown)
  exact ⟨ended, key, next.trans (perform_delivered r v m.start key)⟩

/-- A step that asks for nothing changes the readings at most.  If it succeeds it is no
command. -/
theorem idle_or_asks (m : Moment) :
    ((m.result = .ok () → m.step.request? = none) ∧
      ∃ readings, m.next = { m.start.begun with readings := readings }) ∨ ∃ r, m.Asks r := by
  cases asked : m.step.request? with
  | none => exact Or.inl ⟨fun _ => rfl, (step_of_change asked).2⟩
  | some request =>
      cases request with
      | error cause =>
          rw [Moment.next, Moment.result, step_of_badArgument asked]
          exact Or.inl ⟨nofun, _, rfl⟩
      | ok r => exact Or.inr ⟨r, asked⟩

theorem of_not_shows (h : ∀ r v, ¬ m.Shows r v) :
    (m.result = .ok () → m.step.request? = none) ∧
      m.next.environment = m.start.environment ∧ m.next.lines = [] := by
  rcases m.idle_or_asks with ⟨ended, readings, next⟩ | ⟨r, asks⟩
  · rw [next]
    exact ⟨ended, rfl, rfl⟩
  · obtain ⟨result, calls, way⟩ := r.exists_way m.memory (lastReading m.before)
    obtain ⟨ended, next⟩ := goes asks way
    rw [ended, next]
    cases way with
    | badGuid _ => exact ⟨nofun, rfl, rfl⟩
    | badName _ _ => exact ⟨nofun, rfl, rfl⟩
    | notRead _ _ => exact ⟨nofun, rfl, rfl⟩
    | tooShort _ _ _ _ => exact ⟨nofun, rfl, rfl⟩
    | noRoom _ _ _ _ => exact ⟨nofun, rfl, rfl⟩
    | @delivered key buffer v names answer shown =>
        exact absurd ⟨asks, key, buffer, names, answer, shown⟩ (h r v)

theorem result_eq_ok_iff (m : Moment) :
    m.result = .ok () ↔ m.step.request? = none ∨ ∃ r v, m.Shows r v := by
  constructor
  · intro done
    by_cases shows : ∃ r v, m.Shows r v
    · exact Or.inr shows
    · push Not at shows
      exact Or.inl ((of_not_shows shows).1 done)
  · rintro (change | ⟨r, v, shows⟩)
    · exact (step_of_change change).1
    · exact shows.goes.1

/-! ## What a step reads -/

theorem reads_one (m : Moment) :
    m.next.lookups = [] ∨ ∃ r key, m.Asks r ∧ r.Names key ∧ m.next.lookups = [key] := by
  rcases m.idle_or_asks with ⟨-, readings, next⟩ | ⟨r, asks⟩
  · rw [next]
    exact Or.inl rfl
  · obtain ⟨result, calls, way⟩ := r.exists_way m.memory (lastReading m.before)
    obtain ⟨-, next⟩ := goes asks way
    rw [next]
    cases way with
    | badGuid _ => exact Or.inl rfl
    | badName _ _ => exact Or.inl rfl
    | notRead names _ => exact Or.inr ⟨r, _, asks, names, rfl⟩
    | tooShort names _ _ _ => exact Or.inr ⟨r, _, asks, names, rfl⟩
    | noRoom names _ _ _ => exact Or.inr ⟨r, _, asks, names, rfl⟩
    | @delivered key buffer v names answer shown =>
        rw [perform_delivered, deliver_lookups]
        exact Or.inr ⟨r, key, asks, names, rfl⟩

theorem sees_last {key : Key} (asks : m.Asks r) (names : r.Names key) :
    m.next.lookups = [key] ∧
      m.result = match lastReading m.before key with
        | .error status => .error (.lookupFailure status)
        | .ok buffer => (r.format.apply buffer m.memory).map fun _ => () := by
  cases answer : lastReading m.before key with
  | error status =>
      obtain ⟨ended, next⟩ := goes asks (.notRead names answer)
      rw [ended, next]
      exact ⟨rfl, rfl⟩
  | ok buffer =>
      cases shown : r.format.apply buffer m.memory with
      | error e =>
          obtain ⟨ended, next⟩ := goes asks (.of_apply_error names answer shown)
          rw [ended, next]
          exact ⟨rfl, by simp only [shown]; rfl⟩
      | ok v =>
          obtain ⟨ended, next⟩ := goes asks (.delivered names answer shown)
          rw [ended, next, perform_delivered, deliver_lookups]
          exact ⟨rfl, by simp only [shown]; rfl⟩

/-! ## What a step delivers -/

theorem targets_iff (m : Moment) (x : String) : m.Targets x ↔ ∃ v, m.Stores x v := by
  constructor
  · rintro ⟨done, r, asks, target⟩
    rcases m.result_eq_ok_iff.mp done with change | ⟨r', v, shows⟩
    · exact absurd (change.symm.trans asks) nofun
    · cases asks.symm.trans shows.asks
      exact ⟨v, done, r, shows, target⟩
  · rintro ⟨v, done, r, shows, target⟩
    exact ⟨done, r, shows.asks, target⟩

theorem Stores.unique {y : String} (h : m.Stores x v) (h' : m.Stores y w) : x = y ∧ v = w := by
  obtain ⟨-, r, shows, target⟩ := h
  obtain ⟨-, r', shows', target'⟩ := h'
  obtain ⟨rfl, rfl⟩ := shows.unique shows'
  exact ⟨Option.some.inj (target.symm.trans target'), rfl⟩

theorem Prints.not_stores (h : m.Prints v) : ¬ m.Stores x w := by
  rintro ⟨-, r, shows, target⟩
  obtain ⟨-, r', shows', target'⟩ := h
  obtain ⟨rfl, -⟩ := shows.unique shows'
  cases target.symm.trans target'

theorem Stores.next_eq (h : m.Stores x v) :
    m.next.environment = m.start.environment.insert x v ∧ m.next.lines = [] := by
  obtain ⟨-, r, shows, target⟩ := h
  obtain ⟨-, key, next⟩ := shows.goes
  rw [next, Request.deliver, target]
  exact ⟨rfl, rfl⟩

theorem Prints.next_eq (h : m.Prints v) :
    m.next.environment = m.start.environment ∧ m.next.lines = [v] := by
  obtain ⟨-, r, shows, target⟩ := h
  obtain ⟨-, key, next⟩ := shows.goes
  rw [next, Request.deliver, target]
  exact ⟨rfl, rfl⟩

/-- A step stores its value, prints it, or has none. -/
theorem stores_or_prints (m : Moment) :
    (∃ x v, m.Stores x v) ∨ (∃ v, m.Prints v) ∨ ∀ r v, ¬ m.Shows r v := by
  by_cases shows : ∃ r v, m.Shows r v
  · obtain ⟨r, v, shows⟩ := shows
    have done := shows.goes.1
    cases target : r.target with
    | none => exact Or.inr (Or.inl ⟨v, done, r, shows, target⟩)
    | some x => exact Or.inl ⟨x, v, done, r, shows, target⟩
  · push Not at shows
    exact Or.inr (Or.inr shows)

theorem environment_of_not_stores (h : ∀ x v, ¬ m.Stores x v) :
    m.next.environment = m.start.environment := by
  rcases m.stores_or_prints with ⟨x, v, stores⟩ | ⟨v, prints⟩ | none
  · exact absurd stores (h x v)
  · exact prints.next_eq.1
  · exact (of_not_shows none).2.1

theorem lines_of_not_prints (h : ∀ v, ¬ m.Prints v) : m.next.lines = [] := by
  rcases m.stores_or_prints with ⟨x, v, stores⟩ | ⟨v, prints⟩ | none
  · exact stores.next_eq.2
  · exact absurd prints (h v)
  · exact (of_not_shows none).2.2

theorem lines_eq_singleton_iff (m : Moment) (v : Value) : m.next.lines = [v] ↔ m.Prints v := by
  refine ⟨fun printed => ?_, fun prints => prints.next_eq.2⟩
  by_cases prints : ∃ w, m.Prints w
  · obtain ⟨w, prints⟩ := prints
    cases printed.symm.trans prints.next_eq.2
    exact prints
  · push Not at prints
    cases printed.symm.trans (lines_of_not_prints prints)

theorem find?_environment_next (m : Moment) (x : String) (v : Value) :
    m.next.environment.find? x = some v ↔
      m.Stores x v ∨ ¬ m.Targets x ∧ m.start.environment.find? x = some v := by
  rw [targets_iff]
  by_cases stores : ∃ y w, m.Stores y w
  · obtain ⟨y, w, stores⟩ := stores
    rw [stores.next_eq.1, Table.find?_insert]
    by_cases same : x = y
    · subst same
      have targets : ∃ w, m.Stores x w := ⟨w, stores⟩
      rw [if_pos rfl, Option.some_inj]
      constructor
      · rintro rfl
        exact Or.inl stores
      · rintro (stores' | ⟨none, -⟩)
        · exact (stores.unique stores').2
        · exact absurd targets none
    · have other : ∀ w, ¬ m.Stores x w := fun _ stores' => same (stores'.unique stores).1
      rw [if_neg same]
      simp only [other, exists_false, not_false_iff, true_and, false_or]
  · push Not at stores
    rw [environment_of_not_stores stores]
    simp only [stores, exists_false, not_false_iff, true_and, false_or]

/-! ## The laws of a step -/

/-- What a step does, told by the steps before it. -/
structure Behaves (m : Moment) : Prop where
  /-- Changes of variables succeed, and of the commands those that have a value to show. -/
  succeeds : m.result = .ok () ↔ m.step.request? = none ∨ ∃ r v, m.Shows r v
  /-- No variable is read but the one that a command names. -/
  reads : m.next.lookups = [] ∨ ∃ r key, m.Asks r ∧ r.Names key ∧ m.next.lookups = [key]
  /-- A command reads the variable that it names, and its result is that of the last change. -/
  sees : ∀ r key, m.Asks r → r.Names key → m.next.lookups = [key] ∧
    m.result = match lastReading m.before key with
      | .error status => .error (.lookupFailure status)
      | .ok buffer => (r.format.apply buffer m.memory).map fun _ => ()
  stores : ∀ x v, m.Stores x v → m.next.environment = m.start.environment.insert x v
  /-- A step that fails, changes a variable or prints keeps the environment. -/
  keeps : m.result ≠ .ok () ∨ m.step.request? = none ∨ (∃ v, m.Prints v) →
    m.next.environment = m.start.environment
  prints : ∀ v, m.next.lines = [v] ↔ m.Prints v
  silent : (∀ v, ¬ m.Prints v) → m.next.lines = []

theorem behaves (m : Moment) : m.Behaves where
  succeeds := m.result_eq_ok_iff
  reads := m.reads_one
  sees _ _ := sees_last
  stores _ _ h := h.next_eq.1
  keeps h := by
    apply environment_of_not_stores
    rintro x v stores
    rcases h with failed | change | ⟨w, prints⟩
    · exact failed stores.1
    · obtain ⟨-, r, shows, -⟩ := stores
      exact absurd (change.symm.trans shows.asks) nofun
    · exact prints.not_stores stores
  prints := m.lines_eq_singleton_iff
  silent := lines_of_not_prints

end Moment

end Session

end FirmwareVars
