import FirmwareVars.Application.Settings
import FirmwareVars.Proofs.Ini.Files
import FirmwareVars.Proofs.Text.Utf8
import Mathlib.Data.List.Induction

/-!
# The last entry decides

Settings are made by going through the entries of a file one by one.  In the end each of them
is what the last entry with its key gives whose value that key takes, or the default if there
is no such entry (`foldl_setEntry`).

So it does not matter where entries stand that no setting takes, nor how entries with
different keys are ordered, and nothing from the first malformed line on has a say
(`ofBytes_eq_ofLast`).

One more entry changes each setting to what the entry gives, or leaves it
(`setEntry_eq`).  The rest is induction over the entries.
-/

namespace FirmwareVars.Settings

/-! ## Values of entries -/

/-- The device that the bytes of a value name. -/
def readDevice (value : List UInt8) : Option (Option Console) := (Utf8.text? value).bind device?

/-- The level that the bytes of a value name. -/
def readLevel (value : List UInt8) : Option Log.Level := (Utf8.text? value).bind level?

/-- The vendor that the bytes of a value spell. -/
def readVendor (value : List UInt8) : Option Guid :=
  (Utf8.text? value).bind fun s => (Guid.parse s).toOption

/-- Whether the bytes of a value stand for on.  All other bytes stand for off. -/
def readSwitch (value : List UInt8) : Option Bool :=
  some (decide (value ∈ ["yes", "on", "1", "true"].map Utf8.encode))

section

variable {α : Type} (key : String) (read : List UInt8 → Option α)

/-- What an entry gives to a key. -/
def taken (e : Ini.Entry) : Option α := if e.key = Utf8.encode key then read e.value else none

/-- What the last entry gives that gives something to a key. -/
def last? (es : List Ini.Entry) : Option α := es.reverse.findSome? (taken key read)

theorem last?_concat (es : List Ini.Entry) (e : Ini.Entry) :
    last? key read (es ++ [e]) = (taken key read e).or (last? key read es) := by
  rw [last?, List.reverse_append, List.reverse_singleton, List.singleton_append,
    List.findSome?_cons]
  cases taken key read e with
  | none => rfl
  | some a => rfl

end

/-- The settings of entries, each as the last entry gives it. -/
def ofLast (es : List Ini.Entry) : Settings where
  log :=
    { device := (last? "log_device" readDevice es).getD (some .err)
      level := (last? "log_level" readLevel es).getD .warn
      showPlace := (last? "log_source_path" readSwitch es).getD false }
  envVendor := last? "env_vendor" readVendor es
  envVolatile := (last? "env_volatile" readSwitch es).getD true

/-! ## One more entry -/

theorem taken_of_text? {α : Type} {e : Ini.Entry} {name : String}
    (h : Utf8.text? e.key = some name) (key : String) (read : List UInt8 → Option α) :
    taken key read e = if name = key then read e.value else none := by
  rw [taken, Utf8.text?_eq_some_iff.mp h]
  exact if_congr ⟨Utf8.encode_injective, fun same => same ▸ rfl⟩ rfl rfl

theorem taken_of_no_text {α : Type} {e : Ini.Entry} (h : Utf8.text? e.key = none) (key : String)
    (read : List UInt8 → Option α) : taken key read e = none := by
  refine if_neg fun same => ?_
  rw [same, Utf8.text?_encode] at h
  cases h

section Values

variable (s : Settings) (value : List UInt8)

/-- Bytes that are no text count as the empty text, which names nothing. -/
theorem bind_text? {α : Type} (name : String → Option α) (empty : name "" = none) :
    name ((Utf8.text? value).getD "") = (Utf8.text? value).bind name := by
  cases Utf8.text? value with
  | none => exact empty
  | some s => rfl

theorem setDevice_eq :
    s.setDevice ((Utf8.text? value).getD "") =
      { s with log := { s.log with device := (readDevice value).getD s.log.device } } := by
  rw [setDevice, bind_text? value device? rfl, ← readDevice]
  cases readDevice value with
  | none => rfl
  | some device => rfl

theorem setLevel_eq :
    s.setLevel ((Utf8.text? value).getD "") =
      { s with log := { s.log with level := (readLevel value).getD s.log.level } } := by
  rw [setLevel, bind_text? value level? rfl, ← readLevel]
  cases readLevel value with
  | none => rfl
  | some level => rfl

theorem setVendor_eq :
    s.setVendor ((Utf8.text? value).getD "") =
      { s with envVendor := (readVendor value).or s.envVendor } := by
  have spelled := bind_text? value (fun s => (Guid.parse s).toOption) rfl
  rw [setVendor, readVendor, ← spelled]
  cases Guid.parse ((Utf8.text? value).getD "") with
  | error e => rfl
  | ok guid => rfl

theorem readSwitch_eq : readSwitch value = some (isOn ((Utf8.text? value).getD "")) := by
  rw [readSwitch, isOn]
  congr 1
  cases h : Utf8.text? value with
  | none =>
      have other (s : String) : value ≠ Utf8.encode s := by
        intro same
        rw [same, Utf8.text?_encode] at h
        cases h
      simp [other]
  | some s =>
      have same (t : String) : Utf8.encode s = Utf8.encode t ↔ s = t :=
        ⟨Utf8.encode_injective, fun same => same ▸ rfl⟩
      rw [Utf8.text?_eq_some_iff.mp h]
      simp [same, Bool.or_assoc]

end Values

/-- One more entry changes each setting to what the entry gives, or leaves it. -/
theorem setEntry_eq (s : Settings) (e : Ini.Entry) :
    s.setEntry e =
      { log :=
          { device := (taken "log_device" readDevice e).getD s.log.device
            level := (taken "log_level" readLevel e).getD s.log.level
            showPlace := (taken "log_source_path" readSwitch e).getD s.log.showPlace }
        envVendor := (taken "env_vendor" readVendor e).or s.envVendor
        envVolatile := (taken "env_volatile" readSwitch e).getD s.envVolatile } := by
  rw [setEntry]
  cases h : Utf8.text? e.key with
  | none =>
      simp only [taken_of_no_text h]
      rfl
  | some key =>
      simp only [taken_of_text? h, set, setDevice_eq, setLevel_eq, setVendor_eq, readSwitch_eq]
      -- The keys exclude each other.
      split
      · next device => subst device; rfl
      split
      · next level => subst level; rfl
      split
      · next place => subst place; rfl
      split
      · next vendor => subst vendor; rfl
      split
      · next volatile => subst volatile; rfl
      · rfl

/-! ## All entries -/

theorem ofLast_concat (es : List Ini.Entry) (e : Ini.Entry) :
    ofLast (es ++ [e]) = (ofLast es).setEntry e := by
  rw [setEntry_eq]
  simp only [ofLast, last?_concat, Option.getD_or]

theorem foldl_setEntry (es : List Ini.Entry) : es.foldl setEntry {} = ofLast es := by
  induction es using List.reverseRecOn with
  | nil => rfl
  | append_singleton es e ih =>
      rw [List.foldl_append, List.foldl_cons, List.foldl_nil, ih, ofLast_concat]

theorem readItems_eq (s : Settings) (es : List Ini.Entry) (error : Option Ini.Error) :
    s.readItems (es.map .ok ++ error.toList.map .error) = (es.foldl setEntry s, error) := by
  induction es generalizing s with
  | nil =>
      cases error with
      | none => rfl
      | some e => rfl
  | cons e es ih => exact ih (s.setEntry e)

theorem ofBytes_eq (bytes : List UInt8) :
    ofBytes bytes = (ofLast (Ini.entries bytes), Ini.error? bytes) := by
  rw [ofBytes, Ini.items_eq, readItems_eq, foldl_setEntry]

/-! ## Entries that count -/

/-- Whether an entry has a key whose setting takes its value. -/
def Counts (e : Ini.Entry) : Prop :=
  (e.key = Utf8.encode "log_device" ∧ (readDevice e.value).isSome) ∨
    (e.key = Utf8.encode "log_level" ∧ (readLevel e.value).isSome) ∨
    (e.key = Utf8.encode "env_vendor" ∧ (readVendor e.value).isSome) ∨
    e.key = Utf8.encode "log_source_path" ∨ e.key = Utf8.encode "env_volatile"

instance (e : Ini.Entry) : Decidable (Counts e) :=
  inferInstanceAs (Decidable (_ ∨ _ ∨ _ ∨ _ ∨ _))

/-- The entries of one key that count. -/
def countingAt (key : List UInt8) (es : List Ini.Entry) : List Ini.Entry :=
  es.filter fun e => e.key = key ∧ Counts e

/-- Entries that give nothing to a key may be left out. -/
theorem last?_filter {α : Type} {key : String} {read : List UInt8 → Option α}
    {p : Ini.Entry → Bool} (nothing : ∀ e, ¬ p e → taken key read e = none)
    (es : List Ini.Entry) : last? key read (es.filter p) = last? key read es := by
  induction es using List.reverseRecOn with
  | nil => rfl
  | append_singleton es e ih =>
      rw [List.filter_append, last?_concat]
      by_cases kept : p e
      · rw [List.filter_cons_of_pos kept, List.filter_nil, last?_concat, ih]
      · rw [List.filter_cons_of_neg kept, List.filter_nil, List.append_nil, ih, nothing e kept,
          Option.none_or]

theorem last?_countingAt {α : Type} {key : String} {read : List UInt8 → Option α}
    (counts : ∀ e : Ini.Entry, e.key = Utf8.encode key → (read e.value).isSome → Counts e)
    (es : List Ini.Entry) : last? key read (countingAt (Utf8.encode key) es) = last? key read es := by
  apply last?_filter
  intro e out
  rw [decide_eq_true_eq, not_and] at out
  rw [taken]
  split
  · next same =>
    exact Option.not_isSome_iff_eq_none.mp fun given => out same (counts e same given)
  · rfl

/-- Settings depend on the entries that count, key by key. -/
theorem ofLast_eq_of_countingAt {es fs : List Ini.Entry}
    (h : ∀ key, countingAt key es = countingAt key fs) : ofLast es = ofLast fs := by
  have same {α : Type} (key : String) (read : List UInt8 → Option α)
      (counts : ∀ e : Ini.Entry, e.key = Utf8.encode key → (read e.value).isSome → Counts e) :
      last? key read es = last? key read fs := by
    rw [← last?_countingAt counts es, h, last?_countingAt counts fs]
  have device := same "log_device" readDevice fun e key given =>
    Or.inl ⟨key, given⟩
  have level := same "log_level" readLevel fun e key given =>
    Or.inr (Or.inl ⟨key, given⟩)
  have vendor := same "env_vendor" readVendor fun e key given =>
    Or.inr (Or.inr (Or.inl ⟨key, given⟩))
  have place := same "log_source_path" readSwitch fun e key _ =>
    Or.inr (Or.inr (Or.inr (Or.inl key)))
  have volatile := same "env_volatile" readSwitch fun e key _ =>
    Or.inr (Or.inr (Or.inr (Or.inr key)))
  rw [ofLast, device, level, vendor, place, volatile, ← ofLast]

/-- The settings of a file are what the last entries that count give, and its error is the one
of its first malformed line.  Entries that do not count may stand anywhere, and those that
count may be reordered across keys.  The part of the file before the malformed line has the
same settings and no error. -/
theorem ofBytes_eq_ofLast :
    (∀ bytes,
      Ini.items bytes = (Ini.entries bytes).map .ok ++ (Ini.error? bytes).toList.map .error ∧
      ofBytes bytes = (ofLast (Ini.entries bytes), Ini.error? bytes)) ∧
    (∀ bytes other, (∀ key, countingAt key (Ini.entries bytes) = countingAt key (Ini.entries other)) →
      (ofBytes bytes).1 = (ofBytes other).1) ∧
    ∀ bytes e, (ofBytes bytes).2 = some e →
      ofBytes (Ini.firstLines (e.location.line - 1) bytes) = ((ofBytes bytes).1, none) := by
  refine ⟨fun bytes => ⟨Ini.items_eq bytes, ofBytes_eq bytes⟩, ?_, ?_⟩
  · intro bytes other same
    rw [ofBytes_eq, ofBytes_eq]
    exact ofLast_eq_of_countingAt same
  · intro bytes e stops
    rw [ofBytes_eq] at stops ⊢
    obtain ⟨entries, error⟩ := Ini.entries_before_error stops
    rw [entries, error, ofBytes_eq]

/-- A bad value after a good one, an unknown key, entries in another order, and an entry behind
a malformed line. -/
theorem ofBytes_eq_ofLast_mixed :
    let bytes := Utf8.encode
      "log_level = debug\nenv_volatile = no\nlog_level = loud\ncolor = on\n[end]\nlog_device = null"
    let other := Utf8.encode "env_volatile = no\nlog_level = debug"
    let settings : Settings := { log := { level := .debug }, envVolatile := false }
    (∀ key, countingAt key (Ini.entries bytes) = countingAt key (Ini.entries other)) ∧
      (ofBytes bytes).2 = some (.unexpectedToken ⟨5, 1⟩) ∧
      (ofBytes bytes).1 = settings ∧ (ofBytes other).1 = settings ∧
      ofBytes (Ini.firstLines 4 bytes) = (settings, none) := by
  intro bytes other settings
  let level : Ini.Entry := ⟨Utf8.encode "log_level", Utf8.encode "debug"⟩
  let volatile : Ini.Entry := ⟨Utf8.encode "env_volatile", Utf8.encode "no"⟩
  let bad : Ini.Entry := ⟨Utf8.encode "log_level", Utf8.encode "loud"⟩
  let unknown : Ini.Entry := ⟨Utf8.encode "color", Utf8.encode "on"⟩
  have items : Ini.items bytes =
      [level, volatile, bad, unknown].map .ok ++ [.error (.unexpectedToken ⟨5, 1⟩)] := by
    decide +kernel
  have entries : Ini.entries bytes = [level, volatile, bad, unknown] := by
    rw [Ini.entries, items]
    rfl
  have reordered : Ini.entries other = [volatile, level] := by decide +kernel
  have counts : Counts level ∧ Counts volatile ∧ ¬ Counts bad ∧ ¬ Counts unknown := by
    decide +kernel
  have same (key : List UInt8) :
      countingAt key (Ini.entries bytes) = countingAt key (Ini.entries other) := by
    have different : level.key ≠ volatile.key := by decide +kernel
    rw [entries, reordered]
    simp only [countingAt, List.filter_cons, counts, and_true, and_false, decide_false]
    by_cases here : level.key = key
    · subst here
      simp [different.symm]
    · simp [here]
  have stops : (ofBytes bytes).2 = some (.unexpectedToken ⟨5, 1⟩) := by
    rw [ofBytes_eq, Ini.error?, items]
    rfl
  have read : (ofBytes bytes).1 = settings := by
    rw [ofBytes_eq, entries]
    decide +kernel
  have part := ofBytes_eq_ofLast.2.2 bytes _ stops
  rw [read] at part
  exact ⟨same, stops, read, (ofBytes_eq_ofLast.2.1 bytes other same).symm.trans read, part⟩

end FirmwareVars.Settings
