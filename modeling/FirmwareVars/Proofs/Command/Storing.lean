import FirmwareVars.Proofs.Command.Calls
import FirmwareVars.Proofs.Request.Spelling
import FirmwareVars.Session

/-!
# Storing and printing

The flag and the target before the words of a command change one thing: the value that would
be printed is stored.  The words after them are read as the same request but for its target
(`Request.parse_setFlag`), and a request goes the same way with a target and without
(`Request.Way.storing`).  So two such commands make the same calls up to the delivery
(`Command.stores_what_it_prints`).
-/

namespace FirmwareVars

/-! ## The two commands -/

/-- A request with its value stored under a name. -/
def Request.storing (r : Request) (target : String) : Request := { r with target := some target }

/-- A call with a value stored under a name instead of printed. -/
def Call.storing (target : String) : Call → Call
  | .lookup key => .lookup key
  | .store name value => .store name value
  | .print value => .store target value

/-- An error after the flag for a target.  A missing word is reported with the usage of that
flag. -/
def Error.afterSetFlag : Error → Error
  | .badArgument .usage => .badArgument .setUsage
  | e => e

namespace Request

/-! ## Words after the flag -/

variable {words : List String} {r : Request} {target : String}

theorem parseFormat_storing (target : String) (words : List String) :
    parseFormat (some target) .setUsage words =
      match parseFormat none .usage words with
      | .ok r => .ok (r.storing target)
      | .error _ => .error .setUsage := by
  have name (format : Format) (words : List String) :
      parseName (some target) format .setUsage words =
        match parseName none format .usage words with
        | .ok r => .ok (r.storing target)
        | .error _ => .error .setUsage := by
    cases words <;> rfl
  cases words with
  | nil => rfl
  | cons word rest =>
      rw [parseFormat, parseFormat]
      cases Format.ofFlag? word with
      | none => exact name .standard (word :: rest)
      | some format => exact name format rest

/-- The flag and a target before words that do not begin with it add the target and nothing
else. -/
theorem parse_setFlag (target : String) (h : words.head? ≠ some setFlag) :
    parse (setFlag :: target :: words) =
      match parse words with
      | .ok r => .ok (r.storing target)
      | .error _ => .error .setUsage := by
  cases words with
  | nil => rfl
  | cons word rest =>
      have other : word ≠ setFlag := by simpa using h
      rw [parse_set, parse_of_ne_setFlag other, parseFormat_storing]

theorem target_eq_none (h : words.head? ≠ some setFlag) (read : parse words = .ok r) :
    r.target = none := by
  cases found : r.target with
  | none => rfl
  | some target =>
      obtain ⟨rest, rfl⟩ := (target_eq_some_iff read target).mp found
      exact absurd rfl h

/-! ## The way of a request with a target -/

theorem badName_storing_iff (plain : r.target = none) (ok : IsUcs2Name target) :
    (r.storing target).BadName ↔ r.BadName := by
  simp [BadName, storing, plain, ok]

theorem Names.storing {key : Key} (h : r.Names key) (plain : r.target = none)
    (ok : IsUcs2Name target) : (r.storing target).Names key where
  guid_ok := h.guid_ok
  name_ok := (badName_storing_iff plain ok).not.mpr h.name_ok
  name_eq := h.name_eq
  vendor := h.vendor

/-- With a target a request goes the way that it goes without, and stores what it would
print. -/
theorem Way.storing {memory : Memory} {answers : Key → Except Status (List UInt8)}
    {result : Except Error Unit} {calls : List Call} (way : r.Way memory answers result calls)
    (plain : r.target = none) (ok : IsUcs2Name target) :
    (r.storing target).Way memory answers result (calls.map (Call.storing target)) := by
  cases way with
  | badGuid bad => exact .badGuid bad
  | badName good bad => exact .badName good ((badName_storing_iff plain ok).mpr bad)
  | notRead names answer => exact .notRead (names.storing plain ok) answer
  | tooShort names answer number short =>
      exact .tooShort (names.storing plain ok) answer number short
  | noRoom names answer dump full => exact .noRoom (names.storing plain ok) answer dump full
  | @delivered key buffer value names answer shown =>
      have stored : [Call.lookup key, r.delivery value].map (Call.storing target) =
          [Call.lookup key, (r.storing target).delivery value] := by
        rw [delivery, plain]
        rfl
      rw [stored]
      exact .delivered (names.storing plain ok) answer shown

theorem Way.mapError_afterSetFlag {memory : Memory}
    {answers : Key → Except Status (List UInt8)} {result : Except Error Unit}
    {calls : List Call} (way : r.Way memory answers result calls) :
    result.mapError Error.afterSetFlag = result := by
  cases way with
  | badGuid _ => rfl
  | badName _ _ => rfl
  | notRead _ _ => rfl
  | tooShort _ _ _ _ => rfl
  | noRoom _ _ _ _ => rfl
  | delivered _ _ _ => rfl

end Request

namespace Command

open Request (setFlag)

variable {words : List String} {target : String} {memory : Memory}

theorem run_setFlag {σ : Type} [Host σ] (memory : Memory) {s : σ}
    (silent : ∀ record, Host.answers (Host.record s record) = Host.answers s)
    (ok : Request.IsUcs2Name target) (first : words.head? ≠ some setFlag) :
    (run (setFlag :: target :: words) memory s).1 =
        (run words memory s).1.mapError Error.afterSetFlag ∧
      calls (setFlag :: target :: words) memory s =
        (calls words memory s).map (Call.storing target) := by
  have parsed := Request.parse_setFlag target first
  cases read : Request.parse words with
  | error cause =>
      have usage : cause = .usage := by
        rw [Request.eq_usageError_of_parse read, Request.usageError, if_neg first]
      rw [read] at parsed
      obtain ⟨ran, none⟩ := calls_of_parse_error read memory s
      obtain ⟨ran', none'⟩ := calls_of_parse_error parsed memory s
      rw [ran, none, ran', none', usage]
      exact ⟨rfl, rfl⟩
  | ok r =>
      rw [read] at parsed
      have way := (way_iff read memory s _ _).mpr ⟨rfl, rfl⟩
      rw [silent] at way
      have stored := way.storing (Request.target_eq_none first read) ok
      rw [← silent, way_iff parsed] at stored
      exact ⟨stored.1.trans way.mapError_afterSetFlag.symm, stored.2⟩

/-- A command without a target that ends without an error has read a variable and printed. -/
theorem calls_of_printed {σ : Type} [Host σ] {s : σ} (first : words.head? ≠ some setFlag)
    (done : (run words memory s).1 = .ok ()) :
    ∃ key value, calls words memory s = [.lookup key, .print value] := by
  cases read : Request.parse words with
  | error cause =>
      rw [(calls_of_parse_error read memory s).1] at done
      cases done
  | ok r =>
      have way := (way_iff read memory s _ _).mpr ⟨done, rfl⟩
      generalize calls words memory s = made at way
      cases way with
      | @delivered key buffer value _ _ _ =>
          rw [Request.delivery, Request.target_eq_none first read]
          exact ⟨key, value, rfl⟩

/-- A command stores what it prints without the flag for a target.  On a host that answers
readings alike whatever is logged, and in the same memory, both commands have the same result
but for the usage that they report, and the same calls but for the delivery.  In a session the one that succeeds
prints a value and keeps the environment, the other one prints nothing and sets the target
to that value, and nothing else differs. -/
theorem stores_what_it_prints (ok : Request.IsUcs2Name target)
    (first : words.head? ≠ some setFlag) :
    (∀ (σ : Type) [Host σ] (memory : Memory) (s : σ),
      (∀ record, Host.answers (Host.record s record) = Host.answers s) →
      (run (setFlag :: target :: words) memory s).1 =
        (run words memory s).1.mapError Error.afterSetFlag ∧
      calls (setFlag :: target :: words) memory s =
        (calls words memory s).map (Call.storing target) ∧
      ((run words memory s).1 = .ok () →
        ∃ key value, calls words memory s = [.lookup key, .print value])) ∧
    ∀ (memory : Memory) (s : Session), (run words memory s).1 = .ok () → ∃ key value,
      (run words memory s).2 =
        { s with lookups := s.lookups ++ [key], lines := s.lines ++ [value] } ∧
      (run (setFlag :: target :: words) memory s).2 =
        { s with lookups := s.lookups ++ [key],
                 environment := s.environment.insert target value } := by
  constructor
  · intro σ _ memory s silent
    obtain ⟨result, made⟩ := run_setFlag memory silent ok first
    exact ⟨result, made, calls_of_printed first⟩
  · intro memory s done
    have silent (s : Session) (record : Log.Record) : Host.record s record = s := rfl
    obtain ⟨key, value, printed⟩ := calls_of_printed first done
    have stored := (run_setFlag memory (s := s) (fun _ => rfl) ok first).2
    refine ⟨key, value, ?_, ?_⟩
    · rw [run_performed silent, printed]
      rfl
    · rw [run_performed silent, stored, printed]
      rfl

/-- The variable is named like the flag for a target. -/
theorem stores_what_it_prints_flag :
    let s : Session := { readings := Table.insert {} ⟨setFlag, .globalVariable⟩ (.ok [0x2a]) }
    let words := ["--uint8", setFlag]
    Request.IsUcs2Name "Grüße" ∧ words.head? ≠ some setFlag ∧ (run words {} s).1 = .ok () ∧
      (run (setFlag :: "Grüße" :: words) {} s).1 = .ok () ∧
      ∃ value, (run words {} s).2.lines = [value] ∧
        (run (setFlag :: "Grüße" :: words) {} s).2.environment.find? "Grüße" = some value := by
  intro s words
  have ok : Request.IsUcs2Name "Grüße" := by decide
  have first : words.head? ≠ some setFlag := by decide
  have done : (run words {} s).1 = .ok () := by decide +kernel
  obtain ⟨general, session⟩ := stores_what_it_prints ok first
  have result := (general Session {} s fun _ => rfl).1
  rw [done] at result
  obtain ⟨key, value, printed, stored⟩ := session {} s done
  refine ⟨ok, first, done, result, value, ?_, ?_⟩
  · rw [printed]
    rfl
  · rw [stored, Table.find?_insert, if_pos rfl]

end Command

end FirmwareVars
