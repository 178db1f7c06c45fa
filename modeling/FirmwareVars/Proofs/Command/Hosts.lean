import FirmwareVars.Command

/-!
# Commands on different hosts

The four ways through `Request.execute` have an equation each, and
`Request.execute_cases` says that one of them applies.

A command sees its host only through the calls.  So what the calls keep is kept by
the command (`Command.run_keeps`), and a map between hosts that respects the calls
(`Host.IsMap`) takes the command on one host to the command on the other
(`Command.run_map`).  The names in these calls are those that the firmware has units
for, since the others have been rejected before (`Request.isUcs2Name_of_key`).
-/

namespace FirmwareVars

variable {σ τ : Type} [Host σ] [Host τ] {memory : Memory}

/-! ## The ways through a request -/

namespace Request

theorem execute_of_key_error {r : Request} {cause : BadArgument} (h : r.key = .error cause)
    (s : σ) : r.execute memory s = (.error (.badArgument cause), s) := by
  simp only [execute, h]

theorem execute_of_lookup_error {r : Request} {key : Key} {status : Status} {s s' : σ}
    (hk : r.key = .ok key) (hl : Host.lookup s key = (.error status, s')) :
    r.execute memory s = (.error (.lookupFailure status), s') := by
  simp only [execute, hk, hl]

theorem execute_of_format_error {r : Request} {key : Key} {buffer : List UInt8} {e : Error}
    {s s' : σ} (hk : r.key = .ok key) (hl : Host.lookup s key = (.ok buffer, s'))
    (hf : r.format.apply buffer memory = .error e) :
    r.execute memory s = (.error e, Host.recordAll s' (r.records memory buffer)) := by
  simp only [execute, hk, hl, hf]

theorem execute_of_format_ok {r : Request} {key : Key} {buffer : List UInt8} {v : Value}
    {s s' : σ} (hk : r.key = .ok key) (hl : Host.lookup s key = (.ok buffer, s'))
    (hf : r.format.apply buffer memory = .ok v) :
    r.execute memory s =
      (.ok (), r.deliver v (Host.recordAll s' (r.records memory buffer))) := by
  simp only [execute, hk, hl, hf]

/-- One of the four equations applies. -/
theorem execute_cases (r : Request) (memory : Memory) (s : σ) :
    (∃ cause, r.key = .error cause) ∨
    (∃ key status s', r.key = .ok key ∧ Host.lookup s key = (.error status, s')) ∨
    (∃ key buffer s' e, r.key = .ok key ∧ Host.lookup s key = (.ok buffer, s') ∧
      r.format.apply buffer memory = .error e) ∨
    (∃ key buffer s' v, r.key = .ok key ∧ Host.lookup s key = (.ok buffer, s') ∧
      r.format.apply buffer memory = .ok v) := by
  cases hk : r.key with
  | error cause => exact Or.inl ⟨cause, rfl⟩
  | ok key =>
      rcases hl : Host.lookup s key with ⟨answer, s'⟩
      cases answer with
      | error status => exact Or.inr (Or.inl ⟨key, status, s', rfl, hl⟩)
      | ok buffer =>
          cases hf : r.format.apply buffer memory with
          | error e => exact Or.inr (Or.inr (Or.inl ⟨key, buffer, s', e, rfl, hl, hf⟩))
          | ok v => exact Or.inr (Or.inr (Or.inr ⟨key, buffer, s', v, rfl, hl, hf⟩))

/-- What a request asks for has names that the firmware has units for. -/
theorem isUcs2Name_of_key {r : Request} {key : Key} (h : r.key = .ok key) :
    IsUcs2Name key.name ∧ ∀ t ∈ r.target, IsUcs2Name t := by
  rw [Request.key] at h
  cases hg : r.guid with
  | error cause =>
      rw [hg] at h
      cases h
  | ok guid =>
      simp only [hg] at h
      split at h
      · next names =>
        cases h
        exact names
      · cases h

end Request

/-! ## What is kept -/

/-- Whether every call keeps a property of the host. -/
structure Host.Keeps (P : σ → Prop) : Prop where
  lookup : ∀ s key, P s → P (Host.lookup s key).2
  store : ∀ s name value, P s → P (Host.store s name value)
  print : ∀ s value, P s → P (Host.print s value)
  record : ∀ s r, P s → P (Host.record s r)

theorem Host.Keeps.recordAll {P : σ → Prop} (hP : Host.Keeps P) {s : σ} (h : P s)
    (rs : List Log.Record) : P (Host.recordAll s rs) := by
  induction rs generalizing s with
  | nil => exact h
  | cons r rs ih => exact ih (hP.record s r h)

theorem Host.Keeps.deliver {P : σ → Prop} (hP : Host.Keeps P) (r : Request) (v : Value) {s : σ}
    (h : P s) : P (r.deliver v s) := by
  rw [Request.deliver]
  cases r.target with
  | none => exact hP.print s v h
  | some target => exact hP.store s target v h

theorem Request.execute_keeps {P : σ → Prop} (hP : Host.Keeps P) (r : Request)
    (memory : Memory) {s : σ} (h : P s) : P (r.execute memory s).2 := by
  rcases r.execute_cases memory s with ⟨cause, hk⟩ | ⟨key, status, s', hk, hl⟩ |
    ⟨key, buffer, s', e, hk, hl, he⟩ | ⟨key, buffer, s', v, hk, hl, hv⟩
  · rw [execute_of_key_error hk]
    exact h
  · have kept := hP.lookup s key h
    rw [hl] at kept
    rw [execute_of_lookup_error hk hl]
    exact kept
  · have kept := hP.lookup s key h
    rw [hl] at kept
    rw [execute_of_format_error hk hl he]
    exact hP.recordAll kept _
  · have kept := hP.lookup s key h
    rw [hl] at kept
    rw [execute_of_format_ok hk hl hv]
    exact hP.deliver r v (hP.recordAll kept _)

/-- What every call keeps is kept by a command. -/
theorem Command.run_keeps {P : σ → Prop} (hP : Host.Keeps P) (words : List String)
    (memory : Memory) {s : σ} (h : P s) : P (Command.run words memory s).2 := by
  rw [Command.run]
  cases Request.parse words with
  | error cause => exact h
  | ok r => exact r.execute_keeps hP memory (hP.record s _ h)

/-! ## Maps between hosts -/

/-- A map that respects every call with a name that the firmware has units for. -/
structure Host.IsMap (f : σ → τ) : Prop where
  lookup : ∀ s key, Request.IsUcs2Name key.name →
    Host.lookup (f s) key = ((Host.lookup s key).1, f (Host.lookup s key).2)
  store : ∀ s name value, Request.IsUcs2Name name →
    Host.store (f s) name value = f (Host.store s name value)
  print : ∀ s value, Host.print (f s) value = f (Host.print s value)
  record : ∀ s r, Host.record (f s) r = f (Host.record s r)

theorem Host.IsMap.recordAll {f : σ → τ} (hf : Host.IsMap f) (s : σ) (rs : List Log.Record) :
    Host.recordAll (f s) rs = f (Host.recordAll s rs) := by
  induction rs generalizing s with
  | nil => rfl
  | cons r rs ih =>
      show Host.recordAll (Host.record (f s) r) rs = _
      rw [hf.record, ih]
      rfl

theorem Host.IsMap.deliver {f : σ → τ} (hf : Host.IsMap f) {r : Request}
    (names : ∀ t ∈ r.target, Request.IsUcs2Name t) (v : Value) (s : σ) :
    r.deliver v (f s) = f (r.deliver v s) := by
  rw [Request.deliver, Request.deliver]
  cases target : r.target with
  | none => exact hf.print s v
  | some t => exact hf.store s t v (names t target)

/-- A request gives the same result on both hosts and leaves states that are
mapped to one another. -/
theorem Request.execute_map {f : σ → τ} (hf : Host.IsMap f) (r : Request) (memory : Memory)
    (s : σ) :
    r.execute memory (f s) = ((r.execute memory s).1, f (r.execute memory s).2) := by
  rcases r.execute_cases memory s with ⟨cause, hk⟩ | ⟨key, status, s', hk, hl⟩ |
    ⟨key, buffer, s', e, hk, hl, he⟩ | ⟨key, buffer, s', v, hk, hl, hv⟩
  · rw [execute_of_key_error hk, execute_of_key_error hk]
  · have hl' := hf.lookup s key (isUcs2Name_of_key hk).1
    rw [hl] at hl'
    rw [execute_of_lookup_error hk hl, execute_of_lookup_error hk hl']
  · have hl' := hf.lookup s key (isUcs2Name_of_key hk).1
    rw [hl] at hl'
    rw [execute_of_format_error hk hl he, execute_of_format_error hk hl' he, hf.recordAll]
  · have hl' := hf.lookup s key (isUcs2Name_of_key hk).1
    rw [hl] at hl'
    rw [execute_of_format_ok hk hl hv, execute_of_format_ok hk hl' hv, hf.recordAll,
      hf.deliver (isUcs2Name_of_key hk).2]

/-- A command gives the same result on both hosts and leaves states that are
mapped to one another. -/
theorem Command.run_map {f : σ → τ} (hf : Host.IsMap f) (words : List String)
    (memory : Memory) (s : σ) :
    Command.run words memory (f s) =
      ((Command.run words memory s).1, f (Command.run words memory s).2) := by
  rw [Command.run, Command.run]
  cases Request.parse words with
  | error cause => rfl
  | ok r =>
      simp only [hf.record]
      exact r.execute_map hf memory _

end FirmwareVars
