import FirmwareVars.Proofs.Application.Ending
import FirmwareVars.Proofs.Request
import FirmwareVars.Proofs.Value.Units

/-!
# Histories of runs

Runs one after another change the store only where one of them sets a variable.  For
that a run must be asked to store a value, succeed, and meet a firmware that carries the
setting out (`Turn.Sets`).  The last such run decides what the variable holds: the units
of its value, which are never zero, and a zero unit (`storeAfter_eq_last_write`).

One run changes one variable or none (`Turn.find?_of_sets`, `Turn.find?_of_not_sets`).
The rest is induction over the history.
-/

namespace FirmwareVars

/-! ## Stored data -/

/-- Whether data are units with a zero unit at the end and no other. -/
structure IsTerminated (data : List UInt8) : Prop where
  even : data.length % 2 = 0
  two_le : 2 ≤ data.length
  ends : ∃ us, Utf16.units data = us ++ [0] ∧ ∀ u ∈ us, u ≠ 0

theorem Value.IsSpelled.isTerminated {v : Value} (h : v.IsSpelled) :
    IsTerminated (Machine.storedData v) := by
  obtain ⟨us, nonzero, rfl⟩ := h
  rw [Machine.storedData, units_ofUnits]
  have length := Utf16.length_bytes (us ++ [0])
  rw [List.length_append, List.length_singleton] at length
  refine ⟨by omega, by omega, us, Utf16.units_bytes _, nonzero⟩

/-! ## One run -/

/-- A launch with the variables that it finds. -/
structure Turn where
  found : Store
  launch : Launch

namespace Turn

variable {t : Turn} {key : Key}

/-- The outcome of the launch. -/
def outcome (t : Turn) : Outcome := t.launch.run t.found

/-- Whether a run sets a variable. -/
structure Sets (t : Turn) (key : Key) : Prop where
  asked : ∃ rest, t.launch.words = Request.setFlag :: key.name :: rest
  vendor : key.guid = t.launch.settings.envVendor.getD Vendor.shell.guid
  succeeded : t.outcome.status = .success
  accepted : t.launch.refusal = none

/-- Whether this is what a run sets a variable to. -/
structure Writes (t : Turn) (key : Key) (c : Contents) : Prop where
  writes : t.outcome.writes = [⟨key, c⟩]
  /-- The data are the units of the value that the run is asked for. -/
  data : ∃ r read buffer v, Request.parse t.launch.words = .ok r ∧ r.Names read ∧
    t.found.answer read = .ok buffer ∧ r.format.apply buffer t.launch.memory = .ok v ∧
    c.data = Utf16.bytes (v.units ++ [0])
  terminated : IsTerminated c.data
  attributes : c.attributes =
    if t.launch.settings.envVolatile then .bootServiceAccess
    else .union .bootServiceAccess .nonVolatile

theorem find?_of_sets (h : t.Sets key) :
    ∃ c, t.Writes key c ∧ t.outcome.store.find? key = some (.ok c) := by
  obtain ⟨e, meets⟩ := t.launch.exists_meets t.found.answer
  have ok : e.result = .ok () :=
    meets.status_eq_success_iff.mp (meets.status.symm.trans h.succeeded)
  obtain ⟨r, read, buffer, v, parsed, names, answer, shown, calls⟩ := meets.delivered ok
  have target := (Request.target_eq_some_iff parsed key.name).mpr h.asked
  have stored : e = .stored read key.name v := by
    rw [Request.delivery, target] at calls
    exact Ending.eq_of_command ok calls
  have set : t.outcome.store =
      t.found.insert ⟨key.name, t.launch.settings.vendor⟩
        (.ok ⟨Machine.storedData v, t.launch.settings.attributes⟩) := by
    have after := meets.storeAfter
    rw [stored] at after
    exact after.trans (Quiet.storeAfter_of_accepted h.accepted _)
  have same : (⟨key.name, t.launch.settings.vendor⟩ : Key) = key := by
    rw [Settings.vendor, ← h.vendor]
  have writes : t.outcome.writes =
      [⟨key, ⟨Machine.storedData v, t.launch.settings.attributes⟩⟩] := by
    have after := meets.writes
    rw [stored] at after
    rw [← same]
    exact after
  refine ⟨⟨Machine.storedData v, t.launch.settings.attributes⟩, ⟨writes, ?_, ?_, rfl⟩, ?_⟩
  · exact ⟨r, read, buffer, v, parsed, names, answer, shown, rfl⟩
  · exact (Value.isSpelled_of_apply shown).isTerminated
  · rw [set, same, Table.find?_insert, if_pos rfl]

theorem find?_of_not_sets (h : ¬ t.Sets key) :
    t.outcome.store.find? key = t.found.find? key := by
  obtain ⟨e, meets⟩ := t.launch.exists_meets t.found.answer
  rw [outcome, meets.storeAfter]
  cases e with
  | printed _ _ => rfl
  | badArgument _ => rfl
  | notRead _ _ => rfl
  | tooShort _ _ _ => rfl
  | noRoom _ => rfl
  | stored read target v =>
      obtain ⟨r, parsed, asked⟩ := meets.asked
      cases accepted : t.launch.refusal with
      | some status => simp only [Ending.storeAfter, Quiet.storeAfter, Launch.quiet, accepted]
      | none =>
          have other : key ≠ ⟨target, t.launch.settings.vendor⟩ := by
            rintro rfl
            have words := (Request.target_eq_some_iff parsed target).mp asked
            exact h ⟨words, rfl, meets.status, accepted⟩
          rw [Ending.storeAfter, Quiet.storeAfter_of_accepted accepted, Table.find?_insert]
          exact if_neg other

/-- A run reads one variable at most and sets one at most.  If it fails it sets none. -/
theorem few_calls (t : Turn) : t.outcome.reads.length ≤ 1 ∧ t.outcome.writes.length ≤ 1 ∧
    (t.outcome.status ≠ .success → t.outcome.writes = []) := by
  obtain ⟨e, meets⟩ := t.launch.exists_meets t.found.answer
  rw [outcome, meets.reads, meets.writes, meets.status]
  cases e with
  | stored key target v => exact ⟨Nat.le_refl 1, Nat.le_refl 1, fun failed => absurd rfl failed⟩
  | printed key v => exact ⟨Nat.le_refl 1, Nat.zero_le 1, fun _ => rfl⟩
  | badArgument cause => exact ⟨Nat.zero_le 1, Nat.zero_le 1, fun _ => rfl⟩
  | notRead key status => exact ⟨Nat.le_refl 1, Nat.zero_le 1, fun _ => rfl⟩
  | tooShort key width length => exact ⟨Nat.le_refl 1, Nat.zero_le 1, fun _ => rfl⟩
  | noRoom key => exact ⟨Nat.le_refl 1, Nat.zero_le 1, fun _ => rfl⟩

end Turn

/-! ## All runs -/

namespace Launch

/-- The launches of a history, each with the variables as the ones before have left
them. -/
def turns (store : Store) : List Launch → List Turn
  | [] => []
  | l :: rest => ⟨store, l⟩ :: turns (l.run store).store rest

theorem map_outcome_turns (store : Store) (ls : List Launch) :
    (turns store ls).map Turn.outcome = runAll store ls := by
  induction ls generalizing store with
  | nil => rfl
  | cons l rest ih => rw [turns, List.map_cons, ih, runAll, Turn.outcome]

/-- Either no run sets a variable, and it is as it was at first, or it holds what the last
run that sets it has written. -/
theorem find?_storeAfter (store : Store) (ls : List Launch) (key : Key) :
    ((∀ t ∈ turns store ls, ¬ t.Sets key) ∧
      (storeAfter store ls).find? key = store.find? key) ∨
    ∃ before t after, turns store ls = before ++ t :: after ∧ t.Sets key ∧
      (∀ later ∈ after, ¬ later.Sets key) ∧
      ∃ c, t.Writes key c ∧ (storeAfter store ls).find? key = some (.ok c) := by
  induction ls generalizing store with
  | nil => exact Or.inl ⟨nofun, rfl⟩
  | cons l rest ih =>
      rw [turns, storeAfter]
      rcases ih (l.run store).store with ⟨none, same⟩ | ⟨before, t, after, split, last⟩
      · by_cases sets : Turn.Sets ⟨store, l⟩ key
        · obtain ⟨c, writes, found⟩ := Turn.find?_of_sets sets
          exact Or.inr ⟨[], _, _, rfl, sets, none, c, writes, same.trans found⟩
        · have kept := same.trans (Turn.find?_of_not_sets sets)
          exact Or.inl ⟨List.forall_mem_cons.mpr ⟨sets, none⟩, kept⟩
      · exact Or.inr ⟨⟨store, l⟩ :: before, t, after, by rw [split]; rfl, last⟩

/-- Over a history the store changes only at the variables that some run sets, and each of
them holds what the last such run has written.  No run does more than one reading and one
setting, and no failed run sets anything. -/
theorem storeAfter_eq_last_write (store : Store) (ls : List Launch) :
    (turns store ls).map Turn.outcome = runAll store ls ∧
    (∀ key, ((∀ t ∈ turns store ls, ¬ t.Sets key) ∧
        (storeAfter store ls).find? key = store.find? key) ∨
      ∃ before t after, turns store ls = before ++ t :: after ∧ t.Sets key ∧
        (∀ later ∈ after, ¬ later.Sets key) ∧
        ∃ c, t.Writes key c ∧ (storeAfter store ls).find? key = some (.ok c)) ∧
    ∀ o ∈ runAll store ls, o.reads.length ≤ 1 ∧ o.writes.length ≤ 1 ∧
      (o.status ≠ .success → o.writes = []) := by
  refine ⟨map_outcome_turns store ls, find?_storeAfter store ls, ?_⟩
  intro o ho
  rw [← map_outcome_turns] at ho
  obtain ⟨t, -, rfl⟩ := List.mem_map.mp ho
  exact t.few_calls

/-- A value is copied for good, and a later attempt to copy another one over it is refused. -/
theorem storeAfter_eq_last_write_refused :
    let store : Store := Table.insert {} ⟨"Lang", .globalVariable⟩
      (.ok ⟨[0x41, 0x00], .bootServiceAccess⟩)
    let lasting : Launch :=
      { settingsFile := .present (Utf8.encode "env_volatile = no\n"),
        arguments := .ofShell [Command.name, "--set", "Copy", "Lang"] }
    let refused : Launch :=
      { arguments := .ofShell [Command.name, "--set", "Copy", "--hex", "Lang"],
        refusal := some .outOfResources }
    let copy : Key := ⟨"Copy", Vendor.shell.guid⟩
    let c : Contents := ⟨[0x41, 0x00, 0x00, 0x00], ⟨0x3⟩⟩
    (storeAfter store [lasting, refused]).find? copy = some (.ok c) ∧
      ∃ t ∈ turns store [lasting, refused], t.Sets copy ∧ t.Writes copy c := by
  intro store lasting refused copy c
  have holds : (storeAfter store [lasting, refused]).find? copy = some (.ok c) := by
    decide +kernel
  refine ⟨holds, ?_⟩
  obtain ⟨-, written, -⟩ := storeAfter_eq_last_write store [lasting, refused]
  rcases written copy with ⟨-, kept⟩ | ⟨before, t, after, split, sets, -, d, writes, found⟩
  · rw [holds] at kept
    cases kept
  · obtain rfl : c = d := by
      rw [holds] at found
      cases found
      rfl
    exact ⟨t, by rw [split]; simp, sets, writes⟩

end Launch

end FirmwareVars
