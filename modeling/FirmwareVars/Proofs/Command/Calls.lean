import FirmwareVars.Proofs.Command.Hosts
import FirmwareVars.Proofs.Guid.Text
import FirmwareVars.Session

/-!
# The calls of a command

A `Traced` host passes every call on and writes down all but the records.  What a
request does to its host is then a list of calls.

`Request.Way` lists the ways a request can go, each with its condition on the
request, on what the reading gives, and on the memory.  Exactly one of them applies,
and it is the one that is taken (`Request.way_iff`).  Only the way without an error
has a delivery among its calls, and it has one (`Request.Way.deliveries`).  Where the
memory has room for the dump of whatever can be read (`Memory.Suffices`), no request
runs out of it.

On a host that keeps no records the calls tell the whole effect of a command
(`Command.run_performed`).
-/

namespace FirmwareVars

variable {σ : Type} [Host σ] {memory : Memory}

/-! ## Traces -/

/-- A call of a command to its host.  Log records do not count. -/
inductive Call where
  | lookup (key : Key)
  | store (name : String) (value : Value)
  | print (value : Value)
deriving DecidableEq, Repr

/-- Whether a call hands over a value. -/
def Call.isDelivery : Call → Bool
  | .lookup _ => false
  | .store _ _ => true
  | .print _ => true

/-- How many of the calls hand over a value. -/
def deliveries (calls : List Call) : Nat := calls.countP Call.isDelivery

/-- A host with the calls it has got. -/
structure Traced (σ : Type) where
  host : σ
  /-- The calls so far. -/
  calls : List Call := []

namespace Traced

instance : Host (Traced σ) where
  lookup t key :=
    ((Host.lookup t.host key).1, ⟨(Host.lookup t.host key).2, t.calls ++ [.lookup key]⟩)
  store t name value := ⟨Host.store t.host name value, t.calls ++ [.store name value]⟩
  print t value := ⟨Host.print t.host value, t.calls ++ [.print value]⟩
  record t r := ⟨Host.record t.host r, t.calls⟩

/-- A host that has got no call yet. -/
def start (s : σ) : Traced σ := { host := s }

/-- The host below the trace goes its way as if there were none. -/
theorem isMap_host : Host.IsMap (Traced.host (σ := σ)) where
  lookup _ _ _ := rfl
  store _ _ _ _ := rfl
  print _ _ := rfl
  record _ _ := rfl

@[simp] theorem calls_recordAll (t : Traced σ) (rs : List Log.Record) :
    (Host.recordAll t rs).calls = t.calls := by
  induction rs generalizing t with
  | nil => rfl
  | cons r rs ih => exact ih (Host.record t r)

end Traced

/-- What a host answers to the first reading of each variable. -/
def Host.answers (s : σ) (key : Key) : Except Status (List UInt8) := (Host.lookup s key).1

/-- The calls of a request. -/
def Request.calls (r : Request) (memory : Memory) (s : σ) : List Call :=
  (r.execute memory (Traced.start s)).2.calls

/-- The calls of a command. -/
def Command.calls (words : List String) (memory : Memory) (s : σ) : List Call :=
  (Command.run words memory (Traced.start s)).2.calls

theorem Request.execute_traced (r : Request) (memory : Memory) (s : σ) :
    r.execute memory (Traced.start s) =
      ((r.execute memory s).1, ⟨(r.execute memory s).2, r.calls memory s⟩) := by
  have below := Request.execute_map Traced.isMap_host r memory (Traced.start s)
  show _ = ((r.execute memory (Traced.start s).host).1, _)
  simp only [Traced.start] at below ⊢
  rw [below]
  rfl

theorem Command.run_traced (words : List String) (memory : Memory) (s : σ) :
    Command.run words memory (Traced.start s) =
      ((Command.run words memory s).1,
        ⟨(Command.run words memory s).2, Command.calls words memory s⟩) := by
  have below := Command.run_map Traced.isMap_host words memory (Traced.start s)
  simp only [Traced.start] at below ⊢
  rw [below]
  rfl

/-! ## What a request asks for -/

/-- A number exists for a buffer unless the buffer is too short, a dump unless there is no
room for it, and text always. -/
theorem Format.apply_eq_error_iff (f : Format) (buffer : List UInt8) (memory : Memory)
    (e : Error) :
    f.apply buffer memory = .error e ↔
      (∃ width, f = .number width ∧ buffer.length < width.bytes ∧
        e = .bufferTooShort width.bytes buffer.length) ∨
      f = .hexDump ∧ ¬ memory.Holds (Hex.dumpLength buffer.length) ∧ e = .outOfMemory := by
  cases f with
  | text => simp [apply]
  | hexDump =>
      rw [apply, Value.dumpIn_eq]
      by_cases room : memory.Holds (Hex.dumpLength buffer.length)
      · simp [room]
      · simp [room, eq_comm]
  | number width =>
      rw [apply, Integer.decodeDecimal, Integer.decode]
      by_cases short : buffer.length < width.bytes
      · simp [short, Except.map, eq_comm]
      · simp [short, Except.map]

namespace Request

/-- Whether a GUID text is given that is not canonical. -/
def BadGuid (r : Request) : Prop := ∃ t ∈ r.guidText, ¬ Guid.IsCanonical (Utf8.encode t)

/-- Whether the firmware has no units for the name or for the target. -/
def BadName (r : Request) : Prop := ¬ IsUcs2Name r.name ∨ ∃ t ∈ r.target, ¬ IsUcs2Name t

/-- Whether the vendor is the one the GUID text spells, or the common one if there
is no text. -/
def HasVendor (r : Request) (g : Guid) : Prop :=
  match r.guidText with
  | none => g = .globalVariable
  | some t => Guid.parse t = .ok g

/-- Whether a request is well-formed and asks for this variable. -/
structure Names (r : Request) (key : Key) : Prop where
  guid_ok : ¬ r.BadGuid
  name_ok : ¬ r.BadName
  name_eq : key.name = r.name
  vendor : r.HasVendor key.guid

theorem HasVendor.guid_eq {r : Request} {g : Guid} (h : r.HasVendor g) : r.guid = .ok g := by
  rw [HasVendor] at h
  rw [guid]
  cases ht : r.guidText with
  | none =>
      rw [ht] at h
      exact congrArg Except.ok h.symm
  | some t =>
      rw [ht] at h
      simp only [h]

theorem BadGuid.guid_eq {r : Request} (h : r.BadGuid) : r.guid = .error .guid := by
  obtain ⟨t, ht, bad⟩ := h
  rw [← Guid.parse_isOk_iff] at bad
  rw [guid, Option.mem_def.mp ht]
  cases hp : Guid.parse t with
  | error e => simp only [hp]
  | ok g => exact absurd ⟨g, hp⟩ bad

theorem exists_vendor {r : Request} (h : ¬ r.BadGuid) : ∃ g, r.HasVendor g := by
  cases ht : r.guidText with
  | none => exact ⟨.globalVariable, by rw [HasVendor, ht]⟩
  | some t =>
      have canonical : Guid.IsCanonical (Utf8.encode t) :=
        Classical.byContradiction fun bad => h ⟨t, ht, bad⟩
      obtain ⟨g, hg⟩ := (Guid.parse_isOk_iff t).mpr canonical
      exact ⟨g, by rw [HasVendor, ht]; exact hg⟩

theorem not_badName_iff (r : Request) :
    ¬ r.BadName ↔ IsUcs2Name r.name ∧ ∀ t ∈ r.target, IsUcs2Name t := by
  simp [BadName]

theorem key_of_guid {r : Request} {g : Guid} (h : r.guid = .ok g) :
    r.key = if IsUcs2Name r.name ∧ ∀ t ∈ r.target, IsUcs2Name t then .ok ⟨r.name, g⟩
      else .error .name := by
  simp only [key, h]

theorem BadGuid.key_eq {r : Request} (h : r.BadGuid) : r.key = .error .guid := by
  simp only [key, h.guid_eq]

theorem BadName.key_eq {r : Request} (h : r.BadName) (hg : ¬ r.BadGuid) :
    r.key = .error .name := by
  obtain ⟨g, vendor⟩ := exists_vendor hg
  rw [key_of_guid vendor.guid_eq, if_neg]
  exact fun names => r.not_badName_iff.mpr names h

theorem Names.key_eq {r : Request} {key : Key} (h : r.Names key) : r.key = .ok key := by
  rw [key_of_guid h.vendor.guid_eq, if_pos (r.not_badName_iff.mp h.name_ok), ← h.name_eq]

/-- A request that is not malformed asks for a variable. -/
theorem exists_names {r : Request} (hg : ¬ r.BadGuid) (hn : ¬ r.BadName) :
    ∃ key, r.Names key := by
  obtain ⟨g, vendor⟩ := exists_vendor hg
  exact ⟨⟨r.name, g⟩, hg, hn, rfl, vendor⟩

/-- A name alone asks for the common variable of that name. -/
theorem names_of_name {name : String} (ok : IsUcs2Name name) (format : Format) :
    Names ⟨name, none, format, none⟩ ⟨name, .globalVariable⟩ where
  guid_ok := by simp [BadGuid]
  name_ok := by simp [BadName, ok]
  name_eq := rfl
  vendor := rfl

theorem names_iff_key_eq (r : Request) (key : Key) : r.Names key ↔ r.key = .ok key := by
  refine ⟨Names.key_eq, fun asked => ?_⟩
  have hg : ¬ r.BadGuid := fun bad => nomatch bad.key_eq.symm.trans asked
  have hn : ¬ r.BadName := fun bad => nomatch (bad.key_eq hg).symm.trans asked
  obtain ⟨other, names⟩ := exists_names hg hn
  cases names.key_eq.symm.trans asked
  exact names

/-! ## The ways of a request -/

/-- The call that hands a value over. -/
def delivery (r : Request) (value : Value) : Call :=
  match r.target with
  | some target => .store target value
  | none => .print value

/-- The ways a request can go in some memory when the host gives these answers, each with
its result and its calls. -/
inductive Way (r : Request) (memory : Memory) (answers : Key → Except Status (List UInt8)) :
    Except Error Unit → List Call → Prop
  | badGuid : r.BadGuid → Way r memory answers (.error (.badArgument .guid)) []
  | badName : ¬ r.BadGuid → r.BadName → Way r memory answers (.error (.badArgument .name)) []
  | notRead {key : Key} {status : Status} : r.Names key → answers key = .error status →
      Way r memory answers (.error (.lookupFailure status)) [.lookup key]
  | tooShort {key : Key} {buffer : List UInt8} {width : Width} : r.Names key →
      answers key = .ok buffer → r.format = .number width → buffer.length < width.bytes →
      Way r memory answers (.error (.bufferTooShort width.bytes buffer.length)) [.lookup key]
  | noRoom {key : Key} {buffer : List UInt8} : r.Names key → answers key = .ok buffer →
      r.format = .hexDump → ¬ memory.Holds (Hex.dumpLength buffer.length) →
      Way r memory answers (.error .outOfMemory) [.lookup key]
  | delivered {key : Key} {buffer : List UInt8} {value : Value} : r.Names key →
      answers key = .ok buffer → r.format.apply buffer memory = .ok value →
      Way r memory answers (.ok ()) [.lookup key, r.delivery value]

variable {r : Request} {s : σ} {answers : Key → Except Status (List UInt8)}

theorem lookup_traced (s : σ) (key : Key) :
    Host.lookup (Traced.start s) key =
      (Host.answers s key, ⟨(Host.lookup s key).2, [.lookup key]⟩) := rfl

/-- The delivery is the one call after those before it. -/
theorem calls_deliver (r : Request) (value : Value) (t : Traced σ) :
    (r.deliver value t).calls = t.calls ++ [r.delivery value] := by
  rw [deliver, delivery]
  cases r.target with
  | none => rfl
  | some target => rfl

/-- A buffer for which there is no value sends a request one of two ways. -/
theorem Way.of_apply_error {key : Key} {buffer : List UInt8} {e : Error} (names : r.Names key)
    (answer : answers key = .ok buffer) (shown : r.format.apply buffer memory = .error e) :
    r.Way memory answers (.error e) [.lookup key] := by
  rcases (r.format.apply_eq_error_iff buffer memory e).mp shown with
    ⟨width, number, short, rfl⟩ | ⟨dump, full, rfl⟩
  · exact .tooShort names answer number short
  · exact .noRoom names answer dump full

/-- A way whose condition holds is taken. -/
theorem Way.taken {result : Except Error Unit} {calls : List Call}
    (h : r.Way memory (Host.answers s) result calls) :
    (r.execute memory s).1 = result ∧ r.calls memory s = calls := by
  have same : (r.execute memory (Traced.start s)).1 = (r.execute memory s).1 := by
    rw [r.execute_traced]
  have failed {key : Key} {buffer : List UInt8} {e : Error} (names : r.Names key)
      (answer : Host.answers s key = .ok buffer)
      (shown : r.format.apply buffer memory = .error e) :
      (r.execute memory (Traced.start s)).1 = .error e ∧
        (r.execute memory (Traced.start s)).2.calls = [.lookup key] := by
    have hl := lookup_traced s key
    rw [answer] at hl
    rw [execute_of_format_error names.key_eq hl shown]
    exact ⟨rfl, Traced.calls_recordAll _ _⟩
  rw [← same, Request.calls]
  cases h with
  | badGuid bad =>
      rw [execute_of_key_error bad.key_eq]
      exact ⟨rfl, rfl⟩
  | badName good bad =>
      rw [execute_of_key_error (bad.key_eq good)]
      exact ⟨rfl, rfl⟩
  | @notRead key status names answer =>
      have hl := lookup_traced s key
      rw [answer] at hl
      rw [execute_of_lookup_error names.key_eq hl]
      exact ⟨rfl, rfl⟩
  | tooShort names answer number short =>
      exact failed names answer
        ((r.format.apply_eq_error_iff _ memory _).mpr (Or.inl ⟨_, number, short, rfl⟩))
  | noRoom names answer dump full =>
      exact failed names answer
        ((r.format.apply_eq_error_iff _ memory _).mpr (Or.inr ⟨dump, full, rfl⟩))
  | @delivered key buffer value names answer shown =>
      have hl := lookup_traced s key
      rw [answer] at hl
      rw [execute_of_format_ok names.key_eq hl shown, calls_deliver, Traced.calls_recordAll]
      exact ⟨rfl, rfl⟩

/-- The conditions of the ways leave nothing out. -/
theorem exists_way (r : Request) (memory : Memory)
    (answers : Key → Except Status (List UInt8)) :
    ∃ result calls, r.Way memory answers result calls := by
  by_cases badGuid : r.BadGuid
  · exact ⟨_, _, .badGuid badGuid⟩
  by_cases badName : r.BadName
  · exact ⟨_, _, .badName badGuid badName⟩
  obtain ⟨key, names⟩ := exists_names badGuid badName
  cases answer : answers key with
  | error status => exact ⟨_, _, .notRead names answer⟩
  | ok buffer =>
      cases shown : r.format.apply buffer memory with
      | error e => exact ⟨_, _, .of_apply_error names answer shown⟩
      | ok value => exact ⟨_, _, .delivered names answer shown⟩

/-- The way that applies is the one that is taken. -/
theorem way_iff (r : Request) (memory : Memory) (s : σ) (result : Except Error Unit)
    (calls : List Call) :
    r.Way memory (Host.answers s) result calls ↔
      (r.execute memory s).1 = result ∧ r.calls memory s = calls := by
  constructor
  · exact Way.taken
  · rintro ⟨rfl, rfl⟩
    obtain ⟨result, calls, way⟩ := r.exists_way memory (Host.answers s)
    obtain ⟨rfl, rfl⟩ := way.taken
    exact way

/-- A value is handed over once if there is no error, and otherwise not at all. -/
theorem Way.deliveries {result : Except Error Unit} {calls : List Call}
    (h : r.Way memory answers result calls) :
    deliveries calls = if result.isOk then 1 else 0 := by
  cases h with
  | badGuid _ => rfl
  | badName _ _ => rfl
  | notRead _ _ => rfl
  | tooShort _ _ _ _ => rfl
  | noRoom _ _ _ _ => rfl
  | delivered _ _ _ =>
      rw [Request.delivery]
      cases r.target with
      | none => rfl
      | some target => rfl

/-- Only the answers for names that the firmware has units for count. -/
theorem Way.congr {answers' : Key → Except Status (List UInt8)} {result : Except Error Unit}
    {calls : List Call} (h : r.Way memory answers result calls)
    (same : ∀ key, IsUcs2Name key.name → answers key = answers' key) :
    r.Way memory answers' result calls := by
  have reread {key : Key} (names : r.Names key) : answers' key = answers key :=
    (same key (isUcs2Name_of_key names.key_eq).1).symm
  cases h with
  | badGuid bad => exact .badGuid bad
  | badName good bad => exact .badName good bad
  | notRead names answer => exact .notRead names ((reread names).trans answer)
  | tooShort names answer number short =>
      exact .tooShort names ((reread names).trans answer) number short
  | noRoom names answer dump full => exact .noRoom names ((reread names).trans answer) dump full
  | delivered names answer shown => exact .delivered names ((reread names).trans answer) shown

end Request

/-- Whether there is room for the dump of every variable that can be read. -/
def Memory.Suffices (memory : Memory) (answers : Key → Except Status (List UInt8)) : Prop :=
  ∀ key buffer, answers key = .ok buffer → memory.Holds (Hex.dumpLength buffer.length)

theorem Request.Way.ne_outOfMemory {r : Request} {answers : Key → Except Status (List UInt8)}
    {result : Except Error Unit} {calls : List Call} (h : r.Way memory answers result calls)
    (room : memory.Suffices answers) : result ≠ .error .outOfMemory := by
  rintro rfl
  cases h with
  | noRoom _ answer _ full => exact full (room _ _ answer)

/-- What a command calls is what the request calls that its words are read as. -/
theorem Command.way_iff {words : List String} {r : Request} (h : Request.parse words = .ok r)
    (memory : Memory) (s : σ) (result : Except Error Unit) (calls : List Call) :
    r.Way memory (Host.answers (Host.record s (Log.parsed r))) result calls ↔
      (Command.run words memory s).1 = result ∧ Command.calls words memory s = calls := by
  have parsed (t : Traced σ) :
      Command.run words memory t = r.execute memory (Host.record t (Log.parsed r)) := by
    simp only [run, h]
  have same : Command.calls words memory s =
      r.calls memory (Host.record s (Log.parsed r)) := by
    rw [Command.calls, parsed]
    rfl
  rw [r.way_iff, same]
  simp only [run, h]

/-- A command whose words are read as no request leaves the host alone. -/
theorem Command.calls_of_parse_error {words : List String} {cause : BadArgument}
    (h : Request.parse words = .error cause) (memory : Memory) (s : σ) :
    Command.run words memory s = (.error (.badArgument cause), s) ∧
      Command.calls words memory s = [] := by
  simp [Command.calls, Traced.start, run, h]

/-! ## What the calls come to -/

/-- The host after a call. -/
def Call.perform (s : σ) : Call → σ
  | .lookup key => (Host.lookup s key).2
  | .store name value => Host.store s name value
  | .print value => Host.print s value

theorem Request.perform_delivery (r : Request) (value : Value) (s : σ) :
    Call.perform s (r.delivery value) = r.deliver value s := by
  rw [deliver, delivery]
  cases r.target with
  | none => rfl
  | some target => rfl

/-- If records leave no mark on a host, it is what its calls have made of it. -/
theorem Traced.keeps_performed (silent : ∀ (s : σ) r, Host.record s r = s) (s : σ) :
    Host.Keeps fun t : Traced σ => t.host = t.calls.foldl Call.perform s where
  lookup t key h := by
    show (Host.lookup t.host key).2 = (t.calls ++ [Call.lookup key]).foldl Call.perform s
    rw [List.foldl_append, ← h]
    rfl
  store t name value h := by
    show Host.store t.host name value = (t.calls ++ [Call.store name value]).foldl Call.perform s
    rw [List.foldl_append, ← h]
    rfl
  print t value h := by
    show Host.print t.host value = (t.calls ++ [Call.print value]).foldl Call.perform s
    rw [List.foldl_append, ← h]
    rfl
  record t r h := (silent t.host r).trans h

/-- A request does no more to a host than its calls do, records aside. -/
theorem Request.execute_performed (silent : ∀ (s : σ) r, Host.record s r = s) (r : Request)
    (memory : Memory) (s : σ) :
    (r.execute memory s).2 = (r.calls memory s).foldl Call.perform s := by
  have performed := r.execute_keeps (Traced.keeps_performed silent s) memory
    (s := Traced.start s) rfl
  rwa [Request.execute_traced] at performed

/-- A command does no more to a host than its calls do, records aside. -/
theorem Command.run_performed (silent : ∀ (s : σ) r, Host.record s r = s)
    (words : List String) (memory : Memory) (s : σ) :
    (Command.run words memory s).2 =
      (Command.calls words memory s).foldl Call.perform s := by
  have performed := Command.run_keeps (Traced.keeps_performed silent s) words memory
    (s := Traced.start s) rfl
  rwa [Command.run_traced] at performed

/-- A request goes in exactly one of the ways.  A command goes the way of the
request that its words are read as, and calls nothing if they are read as none.
Either hands a value over once if it ends without an error, and otherwise never.
With room for the dump of whatever can be read, none ends for want of memory.  The
trace takes no part in that. -/
theorem calls_of_one_way (memory : Memory) (s : σ) :
    (∀ r : Request,
      r.execute memory (Traced.start s) =
        ((r.execute memory s).1, ⟨(r.execute memory s).2, r.calls memory s⟩) ∧
      (∀ result calls, r.Way memory (Host.answers s) result calls ↔
        (r.execute memory s).1 = result ∧ r.calls memory s = calls) ∧
      (memory.Suffices (Host.answers s) → (r.execute memory s).1 ≠ .error .outOfMemory) ∧
      deliveries (r.calls memory s) = if (r.execute memory s).1.isOk then 1 else 0) ∧
    ∀ words : List String,
      Command.run words memory (Traced.start s) =
        ((Command.run words memory s).1,
          ⟨(Command.run words memory s).2, Command.calls words memory s⟩) ∧
      (match Request.parse words with
        | .error cause =>
            Command.run words memory s = (.error (.badArgument cause), s) ∧
              Command.calls words memory s = []
        | .ok r =>
            (∀ result calls,
              r.Way memory (Host.answers (Host.record s (Log.parsed r))) result calls ↔
                (Command.run words memory s).1 = result ∧
                  Command.calls words memory s = calls) ∧
            (memory.Suffices (Host.answers (Host.record s (Log.parsed r))) →
              (Command.run words memory s).1 ≠ .error .outOfMemory)) ∧
      deliveries (Command.calls words memory s) =
        if (Command.run words memory s).1.isOk then 1 else 0 := by
  constructor
  · intro r
    have way := (r.way_iff memory s _ _).mpr ⟨rfl, rfl⟩
    exact ⟨r.execute_traced memory s, r.way_iff memory s, way.ne_outOfMemory, way.deliveries⟩
  · intro words
    refine ⟨Command.run_traced words memory s, ?_⟩
    cases h : Request.parse words with
    | error cause =>
        obtain ⟨ran, none⟩ := Command.calls_of_parse_error h memory s
        refine ⟨⟨ran, none⟩, ?_⟩
        rw [ran, none]
        rfl
    | ok r =>
        have way := (Command.way_iff h memory s _ _).mpr ⟨rfl, rfl⟩
        exact ⟨⟨Command.way_iff h memory s, way.ne_outOfMemory⟩, way.deliveries⟩

/-- Room for five bytes is enough to dump two.  With less the variable is read and nothing is
handed over. -/
theorem calls_of_one_way_dump :
    let key : Key := ⟨"Lang", .globalVariable⟩
    let s : Session := { readings := Table.insert {} key (.ok [0xab, 0xcd]) }
    let r : Request := { name := "Lang", format := .hexDump }
    let enough : Memory := { grants := (· ≤ 5) }
    let short : Memory := { grants := (· ≤ 4) }
    enough.Suffices (Host.answers s) ∧ (r.execute enough s).1 ≠ .error .outOfMemory ∧
      (Command.run ["--hex", "Lang"] enough s).1 ≠ .error .outOfMemory ∧
      r.calls enough s = [.lookup key, .print ⟨Utf8.encode "ab cd"⟩] ∧
      (r.execute short s).1 = .error .outOfMemory ∧ r.calls short s = [.lookup key] := by
  intro key s r enough short
  have found (k : Key) : s.readings.find? k = if k = key then some (.ok [0xab, 0xcd]) else none :=
    Table.find?_insert {} key k _
  have held : Host.answers s key = .ok [0xab, 0xcd] := by
    show (s.readings.find? key).getD (.error .notFound) = _
    rw [found, if_pos rfl]
    rfl
  have room : enough.Suffices (Host.answers s) := by
    intro k buffer answer
    change (s.readings.find? k).getD (.error .notFound) = _ at answer
    rw [found] at answer
    split at answer <;> cases answer
    decide
  have names : r.Names key := Request.names_of_name (by decide) .hexDump
  obtain ⟨requests, commands⟩ := calls_of_one_way enough s
  obtain ⟨-, way, requested, -⟩ := requests r
  obtain ⟨-, ⟨-, asked⟩, -⟩ := commands ["--hex", "Lang"]
  have shown : r.format.apply [0xab, 0xcd] enough = .ok ⟨Utf8.encode "ab cd"⟩ := by decide +kernel
  obtain ⟨-, calls⟩ := (way _ _).mp (.delivered names held shown)
  obtain ⟨failed, once⟩ := (((calls_of_one_way short s).1 r).2.1 _ _).mp
    (.noRoom names held rfl (by decide))
  exact ⟨room, requested room, asked room, calls, failed, once⟩

end FirmwareVars
