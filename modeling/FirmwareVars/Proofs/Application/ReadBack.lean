import FirmwareVars.Proofs.Application.Ending
import FirmwareVars.Proofs.Request
import FirmwareVars.Proofs.Value.Units

/-!
# Stored values read back

A run that is asked to store a value leaves a variable from which the value comes
back.  Its data end with a zero unit, so they are never empty
(`Store.answer_insert`), and the value is spelled by its units, because a format
gave it.  Reading that variable as text then prints what the run would have printed
(`set_then_read`).
-/

namespace FirmwareVars

/-! ## Launches of requests -/

namespace Launch

variable {l : Launch} {store : Store} {r : Request}

/-- A launch goes the way of the request it is asked for. -/
theorem run_of_way (hw : l.words = r.render) {result : Except Error Unit} {calls : List Call}
    (way : r.Way l.memory store.answer result calls) :
    (l.run store).status = exitStatus result ∧
      (l.run store).quiet = (calls.foldl Call.perform (l.quiet store)).finish result := by
  have read : Request.parse l.words = .ok r := hw ▸ r.parse_render
  obtain ⟨e, rfl, rfl⟩ := way.exists_ending
  rw [e.exitStatus_result, Quiet.finish_performed]
  exact ((meets_of_parse read).mpr way).run

/-- A launch that succeeds has delivered a value. -/
theorem delivered_of_success (hw : l.words = r.render) (done : (l.run store).status = .success) :
    ∃ key buffer v, r.Names key ∧ store.answer key = .ok buffer ∧
      r.format.apply buffer l.memory = .ok v := by
  have read : Request.parse l.words = .ok r := hw ▸ r.parse_render
  obtain ⟨e, meets⟩ := l.exists_meets store.answer
  have ok : e.result = .ok () := meets.status_eq_success_iff.mp (meets.status.symm.trans done)
  obtain ⟨s, key, buffer, v, parsed, names, answer, shown, -⟩ := meets.delivered ok
  cases read.symm.trans parsed
  exact ⟨key, buffer, v, names, answer, shown⟩

section Delivered

variable {key : Key} {buffer : List UInt8} {v : Value} (names : r.Names key)
  (answer : store.answer key = .ok buffer) (shown : r.format.apply buffer l.memory = .ok v)
include names answer shown

/-- Without a target a value is printed. -/
theorem run_printed (hw : l.words = r.render) (target : r.target = none) :
    (l.run store).status = .success ∧ (l.run store).quiet.output = [.value v] := by
  obtain ⟨status, quiet⟩ := run_of_way hw (.delivered names answer shown)
  refine ⟨status, ?_⟩
  rw [quiet, Request.delivery, target]
  rfl

/-- With a target a value is stored, if the firmware lets it. -/
theorem run_stored (hw : l.words = r.render) {x : String} (target : r.target = some x)
    (accepted : l.refusal = none) :
    (l.run store).store = store.insert ⟨x, l.settings.vendor⟩
      (.ok ⟨Machine.storedData v, l.settings.attributes⟩) := by
  obtain ⟨-, quiet⟩ := run_of_way hw (.delivered names answer shown)
  have stored := congrArg Quiet.store quiet
  rw [Request.delivery, target] at stored
  exact stored.trans (Quiet.storeAfter_of_accepted accepted _)

end Delivered

end Launch

/-! ## The stored variable -/

/-- A variable that holds data is read as those data. -/
theorem Store.answer_insert (store : Store) (key : Key) {c : Contents} (h : c.data ≠ []) :
    Store.answer (store.insert key (.ok c)) key = .ok c.data := by
  rw [answer, Table.find?_insert, if_pos rfl]
  exact if_neg h

theorem Machine.storedData_ne_nil (v : Value) : storedData v ≠ [] := by
  simp [storedData, Utf16.bytes]

/-- A request with the text of a GUID asks for the variable of that vendor. -/
theorem Request.names_of_text {r : Request} {g : Guid} (text : r.guidText = some g.text)
    (name_ok : ¬ r.BadName) : r.Names ⟨r.name, g⟩ where
  guid_ok := by
    rintro ⟨t, ht, bad⟩
    obtain rfl : g.text = t := Option.some.inj (text.symm.trans ht)
    exact bad ((Guid.parse_isOk_iff g.text).mp ⟨g, g.parse_text⟩)
  name_ok := name_ok
  name_eq := rfl
  vendor := by
    rw [HasVendor, text]
    exact g.parse_text

/-- A request that stores a value asks for the same variable as the one that prints
it. -/
theorem Request.Names.without_target {r : Request} {key : Key} (h : r.Names key) :
    { r with target := none }.Names key where
  guid_ok := h.guid_ok
  name_ok := by
    rintro (bad | ⟨t, ht, -⟩)
    · exact h.name_ok (Or.inl bad)
    · cases ht
  name_eq := h.name_eq
  vendor := h.vendor

theorem Request.Names.target_ok {r : Request} {key : Key} (h : r.Names key) {x : String}
    (hx : r.target = some x) : IsUcs2Name x :=
  (r.not_badName_iff.mp h.name_ok).2 x hx

/-- A value that a run has stored in a variable is read back from there.  One launch
stores the value that a request asks for, and the firmware lets it.  The next one
reads the variable as text, named by the text of the configured vendor.  It prints
what a launch of the same request without a target would have printed at first.
The launches may have any settings, and the variable may be the one that the value
comes from.  The first and the last launch have the same memory, and the one between
them has room for the text of what it reads. -/
theorem set_then_read {r : Request} {x : String} {set read plain : Launch} {store : Store}
    (target : r.target = some x) (set_words : set.words = r.render)
    (accepted : set.refusal = none) (done : (set.run store).status = .success)
    (read_words : read.words = [Format.text.flag, x, set.settings.vendor.text])
    (plain_words : plain.words = { r with target := none }.render)
    (same : plain.memory = set.memory)
    (room : ∀ c, (set.run store).store.find? ⟨x, set.settings.vendor⟩ = some (.ok c) →
      read.memory.Holds (Value.utf16Length c.data)) :
    (read.run (set.run store).store).status = .success ∧
      ∃ v, (read.run (set.run store).store).quiet.output = [.value v] ∧
        (plain.run store).status = .success ∧ (plain.run store).quiet.output = [.value v] := by
  obtain ⟨key, buffer, v, names, answer, shown⟩ := Launch.delivered_of_success set_words done
  have stored := Launch.run_stored names answer shown set_words target accepted
  have back : (set.run store).store.answer ⟨x, set.settings.vendor⟩ =
      .ok (Machine.storedData v) := by
    rw [stored]
    exact store.answer_insert _ (Machine.storedData_ne_nil v)
  have value : Format.text.apply (Machine.storedData v) read.memory = .ok v := by
    have inverse := (Value.isSpelled_of_apply shown).ofUtf16_units.1 []
    rw [List.append_nil] at inverse
    have held := room ⟨Machine.storedData v, set.settings.attributes⟩
      (by rw [stored, Table.find?_insert, if_pos rfl])
    rw [Format.apply, Value.ofUtf16In, if_pos held]
    exact congrArg Except.ok inverse
  have reads := Request.names_of_text (r := ⟨x, some set.settings.vendor.text, .text, none⟩) rfl
    ((Request.not_badName_iff _).mpr ⟨names.target_ok target, by simp⟩)
  obtain ⟨ends, printed⟩ := Launch.run_printed reads back value read_words rfl
  have first : r.format.apply buffer plain.memory = .ok v := by rw [same, shown]
  exact ⟨ends, v, printed, Launch.run_printed names.without_target answer first plain_words rfl⟩

/-- Half of a pair, a letter and an odd byte, stored in the variable they come from.  The
memory gives no more than the four bytes of their text. -/
theorem set_then_read_itself :
    let r : Request := ⟨"Lang", some Vendor.shell.guid.text, .text, some "Lang"⟩
    let store : Store := Table.insert {} ⟨"Lang", Vendor.shell.guid⟩
      (.ok ⟨[0x00, 0xd8, 0x41, 0x00, 0x42], .bootServiceAccess⟩)
    let memory : Memory := { grants := (· ≤ 4) }
    let set : Launch := { arguments := .ofShell (Command.name :: r.render), memory }
    let plain : Launch :=
      { arguments := .ofShell [Command.name, "--string", "Lang", Vendor.shell.guid.text],
        memory }
    (set.run store).status = .success ∧ (plain.run (set.run store).store).status = .success ∧
      ∃ v, (plain.run (set.run store).store).quiet.output = [.value v] ∧
        (plain.run store).status = .success ∧ (plain.run store).quiet.output = [.value v] := by
  intro r store memory set plain
  have words : set.words = r.render := by decide +kernel
  have names := Request.names_of_text (r := r) rfl
    (r.not_badName_iff.mpr ⟨by decide, fun _ ht => Option.some.inj ht ▸ by decide⟩)
  have answer := Store.answer_insert {} ⟨"Lang", Vendor.shell.guid⟩
    (c := ⟨[0x00, 0xd8, 0x41, 0x00, 0x42], .bootServiceAccess⟩) (by decide)
  have done := (Launch.run_of_way words (.delivered names answer rfl)).1
  have vendor : set.settings.vendor = Vendor.shell.guid := by decide +kernel
  have plain_words : plain.words = ["--string", "Lang", Vendor.shell.guid.text] := by
    decide +kernel
  have held : (set.run store).store.find? ⟨"Lang", set.settings.vendor⟩ =
      some (.ok ⟨[0x00, 0xd8, 0x41, 0x00, 0x00, 0x00], set.settings.attributes⟩) := by
    decide +kernel
  refine ⟨done, set_then_read (r := r) (x := "Lang") rfl words rfl done
    (vendor ▸ plain_words) plain_words rfl ?_⟩
  intro c found
  cases held.symm.trans found
  decide +kernel

end FirmwareVars
