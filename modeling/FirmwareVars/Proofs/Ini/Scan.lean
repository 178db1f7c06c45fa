import FirmwareVars.Proofs.Ini.Outcome
import Mathlib.Data.List.TakeWhile

/-!
# Scans come to an end

From a head that stands in the text each scan ends at such a head, and with what the cursor at
the first head reads (`Agrees`).  Both are proved at once, along the definition of the scan: no
loop is known to end before it is known what it leaves to be read, and no slice to be in the text
before the loop in front of it is known to have stayed there.

Each loop has its own reason why less is left after a turn.  Bytes and blanks are passed by
induction on the rest of the text, and a key is looked for by the cases of the cursor's own
search.
-/

namespace FirmwareVars.Ini

/-! ## Cursors -/

namespace Cursor

variable {b : UInt8} {rest more : List UInt8} {l : Location}

theorem rest_passFrom (p : UInt8 → Bool) (l : Location) (rest : List UInt8) :
    (passFrom p l rest).rest = rest.dropWhile p := by
  induction rest generalizing l with
  | nil => rfl
  | cons b more ih =>
    rw [passFrom, List.dropWhile_cons]
    split
    · exact ih _
    · rfl

theorem passBlanks_here (here : ∀ b more, rest = b :: more → b ≠ hashMark ∧ ¬ isBlank b) :
    passBlanks ⟨rest, l⟩ = ⟨rest, l⟩ := by
  cases rest with
  | nil => rfl
  | cons b more =>
    obtain ⟨hash, blank⟩ := here b more rfl
    simp [passBlanks, pass, passFrom, blank, hash]

theorem passBlanks_blank (blank : isBlank b) :
    passBlanks ⟨b :: more, l⟩ = passBlanks ⟨more, l.after b⟩ := by
  have step : pass isBlank ⟨b :: more, l⟩ = pass isBlank ⟨more, l.after b⟩ := by
    rw [pass, passFrom, if_pos blank]
    rfl
  rw [passBlanks, step]
  rfl

theorem passBlanks_hash :
    passBlanks ⟨hashMark :: more, l⟩ = pass (· ≠ lineFeed) ⟨hashMark :: more, l⟩ := by
  rfl

/-- A word has a byte, and at the end of the input there is none left. -/
theorem token_cases {c : Cursor} {x : Lexeme} (h : c.token = .ok x) :
    (∀ word, x.token = .literal word → word ≠ []) ∧
      (x.token = .endOfInput → x.next.rest = []) := by
  rw [token, tokenHere] at h
  split at h
  · next left =>
    cases h
    exact ⟨by simp, fun _ => left⟩
  next b more left =>
  split at h
  · cases h
    exact ⟨by simp, by simp⟩
  split at h
  · cases h
    exact ⟨by simp, by simp⟩
  split at h
  · rw [quotedFrom] at h
    split at h <;> cases h
    exact ⟨by simp, by simp⟩
  split at h
  · next literal =>
    cases h
    refine ⟨?_, by simp⟩
    rintro word ⟨⟩
    rw [left, List.takeWhile_cons_of_pos literal]
    exact List.cons_ne_nil _ _
  · cases h

theorem literal_ne_nil {c next : Cursor} {word : List UInt8}
    (h : c.token = .ok ⟨.literal word, l, next⟩) : word ≠ [] :=
  (token_cases h).1 word rfl

theorem rest_of_endOfInput {c next : Cursor} (h : c.token = .ok ⟨.endOfInput, l, next⟩) :
    next.rest = [] :=
  (token_cases h).2 rfl

/-- What the next token stands for, and the cursor after it. -/
def expected {α : Type} (meaning : Token → Option α) (error : Location → Error) (c : Cursor) :
    Except Error (α × Cursor) :=
  match c.token with
  | .error e => .error e
  | .ok x =>
      match meaning x.token with
      | some a => .ok (a, x.next)
      | none => .error (error x.location)

theorem assign_eq (c : Cursor) :
    c.assign = (expected Token.assign? .expectedAssign c).map Prod.snd := by
  rw [assign, expected]
  rcases c.token with e | ⟨_ | _ | _ | _ | _, location, next⟩
  all_goals rfl

theorem value_eq (c : Cursor) : c.value = expected Token.value? .expectedValue c := by
  rw [value, expected]
  rcases c.token with e | ⟨_ | _ | _ | _ | _, location, next⟩
  all_goals rfl

theorem lineEnd_eq (c : Cursor) :
    c.lineEnd = (expected Token.lineEnd? .unexpectedToken c).map Prod.snd := by
  rw [lineEnd, expected]
  rcases c.token with e | ⟨_ | _ | _ | _ | _, location, next⟩
  all_goals rfl

theorem afterKey_eq (key : List UInt8) (c : Cursor) :
    c.afterKey key =
      (expected Token.assign? .expectedAssign c).bind fun (_, c) =>
        (expected Token.value? .expectedValue c).bind fun (value, c) =>
          (expected Token.lineEnd? .unexpectedToken c).bind fun (_, c) =>
            .ok (⟨key, value⟩, c) := by
  simp only [afterKey, assign_eq, value_eq, lineEnd_eq, bind]
  cases expected Token.assign? .expectedAssign c with
  | error e => rfl
  | ok sign =>
    simp only [Except.map, Except.bind]
    cases expected Token.value? .expectedValue sign.2 with
    | error e => rfl
    | ok value =>
      simp only
      cases expected Token.lineEnd? .unexpectedToken value.2 with
      | error e => rfl
      | ok stop => rfl

end Cursor

namespace Scan

open Head

variable {α β : Type} {text : List UInt8} {h : Head}

/-! ## Bytes -/

/-- Passing bytes comes to an end, at the end of the text if not before. -/
theorem ends_pass (p : UInt8 → Bool) (stands : h.Stands text) :
    Ends text (pass text p) h fun result last => result = .ok () ∧
      last.cursor text = (h.cursor text).pass p ∧
      last.pos = h.pos + ((text.drop h.pos).takeWhile p).length := by
  induction rest : text.drop h.pos generalizing h with
  | nil =>
    apply ends_loop
    apply ends_peek_bind (getElem?_of_drop_nil rest)
    refine ends_pure stands ⟨rfl, ?_, rfl⟩
    rw [cursor, Cursor.pass, rest, Cursor.passFrom]
  | cons b more ih =>
    apply ends_loop
    apply ends_peek_bind (getElem?_of_drop rest)
    by_cases holds : p b
    · simp only [if_pos holds]
      refine (ends_advance stands rest).bind_ok ?_
      rintro _ there rfl
      have behind := cursor_after rest
      rw [cursor, Cursor.mk.injEq] at behind
      apply ends_pure there
      refine (ih there behind.1).mono ?_
      rintro result last ⟨ok, reached, moved⟩
      refine ⟨ok, ?_, ?_⟩
      · rw [reached, cursor, Cursor.pass, Cursor.pass, behind.1, cursor, rest, Cursor.passFrom,
          if_pos holds]
        rfl
      · have step : (h.after b).pos = h.pos + 1 := rfl
        rw [moved, step, List.takeWhile_cons_of_pos holds, List.length_cons]
        omega
    · simp only [if_neg holds]
      refine ends_pure stands ⟨rfl, ?_, ?_⟩
      · rw [cursor, Cursor.pass, rest, Cursor.passFrom, if_neg holds]
      · rw [List.takeWhile_cons_of_neg holds]
        rfl

/-- From a head up to where the passing has stopped the slice is what has been passed. -/
theorem slice?_passed {p : UInt8 → Bool} {last : Head} (there : last.pos ≤ text.length)
    (moved : last.pos = h.pos + ((text.drop h.pos).takeWhile p).length) :
    slice? text h.pos last.pos = some ((text.drop h.pos).takeWhile p) := by
  have ordered : h.pos ≤ last.pos := by omega
  have count : last.pos - h.pos = ((text.drop h.pos).takeWhile p).length := by omega
  rw [slice?, if_pos ⟨ordered, there⟩, List.drop_take, count]
  exact congrArg some (List.prefix_iff_eq_take.mp (List.takeWhile_prefix p)).symm

/-- The bytes that have been passed are in the text, so they can be cut out of it. -/
theorem ends_cut_bind {p : UInt8 → Bool} {last : Head} {f : List UInt8 → Scan β}
    {post : Except Error β → Head → Prop} (there : last.Stands text)
    (moved : last.pos = h.pos + ((text.drop h.pos).takeWhile p).length)
    (goesOn : Ends text (f ((text.drop h.pos).takeWhile p)) last post) :
    Ends text (cut text h.pos >>= f) last post := by
  have ran : (cut text h.pos).run last =
      .some (.ok ((text.drop h.pos).takeWhile p), last) := by
    rw [cut, run_bind, run_get, Part.bind_some]
    simp only [slice?_passed there.pos_le moved]
    rfl
  exact ends_run_bind ran goesOn

/-! ## Blanks and comments -/

/-- Nothing is passed before a byte that is neither blank nor starts a comment. -/
theorem ends_passBlanks_here (stands : h.Stands text)
    (here : ∀ b more, text.drop h.pos = b :: more → b ≠ hashMark ∧ ¬ isBlank b) :
    Ends text (passBlanks text) h fun result last => result = .ok () ∧ last = h := by
  apply ends_loop
  cases rest : text.drop h.pos with
  | nil =>
    apply ends_peek_bind (getElem?_of_drop_nil rest)
    exact ends_pure stands ⟨rfl, rfl⟩
  | cons b more =>
    obtain ⟨hash, blank⟩ := here b more rest
    apply ends_peek_bind (getElem?_of_drop rest)
    simp only [if_neg hash, if_neg blank]
    exact ends_pure stands ⟨rfl, rfl⟩

/-- Blanks and comments come to an end. -/
theorem ends_passBlanks (stands : h.Stands text) :
    Ends text (passBlanks text) h fun result last => result = .ok () ∧
      last.cursor text = (h.cursor text).passBlanks := by
  induction rest : text.drop h.pos generalizing h with
  | nil =>
    have here : ∀ b more, text.drop h.pos = b :: more → b ≠ hashMark ∧ ¬ isBlank b := by
      simp [rest]
    refine (ends_passBlanks_here stands here).mono ?_
    rintro result _ ⟨ok, rfl⟩
    exact ⟨ok, (Cursor.passBlanks_here here).symm⟩
  | cons b more ih =>
    rw [cursor, rest]
    by_cases hash : b = hashMark
    · -- A comment ends at a line feed, which is not passed, or at the end of the text.
      apply ends_loop
      apply ends_peek_bind (getElem?_of_drop rest)
      simp only [if_pos hash]
      refine (ends_pass _ stands).bind_ok ?_
      rintro last there ⟨reached, -⟩
      have left := congrArg Cursor.rest reached
      rw [cursor, cursor, Cursor.pass, Cursor.rest_passFrom] at left
      have here : ∀ b more, text.drop last.pos = b :: more → b ≠ hashMark ∧ ¬ isBlank b := by
        intro b more same
        have feed := List.head?_dropWhile_not (· ≠ lineFeed) (text.drop h.pos)
        rw [← left, same, List.head?_cons] at feed
        have feed : b = lineFeed := by simpa using feed
        subst feed
        decide
      apply ends_pure there
      refine (ends_passBlanks_here there here).mono ?_
      rintro result _ ⟨ok, rfl⟩
      refine ⟨ok, ?_⟩
      rw [reached, cursor, rest, hash, Cursor.passBlanks_hash]
    by_cases blank : isBlank b
    · apply ends_loop
      apply ends_peek_bind (getElem?_of_drop rest)
      simp only [if_neg hash, if_pos blank]
      refine (ends_advance stands rest).bind_ok ?_
      rintro _ there rfl
      have behind := cursor_after rest
      have left := congrArg Cursor.rest behind
      apply ends_pure there
      refine (ih there left).mono ?_
      rintro result last ⟨ok, reached⟩
      rw [reached, behind, Cursor.passBlanks_blank blank]
      exact ⟨ok, rfl⟩
    · have here : ∀ c rest', text.drop h.pos = c :: rest' → c ≠ hashMark ∧ ¬ isBlank c := by
        intro c rest' same
        rw [rest, List.cons.injEq] at same
        exact same.1 ▸ ⟨hash, blank⟩
      refine (ends_passBlanks_here stands here).mono ?_
      rintro result _ ⟨ok, rfl⟩
      exact ⟨ok, by rw [← rest, Cursor.passBlanks_here here]; rfl⟩

/-! ## Tokens -/

/-- The result of a scan is what a cursor reads, and the head stands where the cursor is then. -/
def Agrees (text : List UInt8) (r : Except Error (α × Cursor)) (result : Except Error α)
    (last : Head) : Prop :=
  match r with
  | .ok (a, c) => result = .ok a ∧ last.cursor text = c
  | .error e => result = .error e

theorem Agrees.eq_ok {r : Except Error (α × Cursor)} {a : α} {last : Head}
    (agrees : Agrees text r (.ok a) last) : r = .ok (a, last.cursor text) := by
  rcases r with e | ⟨b, c⟩
  · cases agrees
  · obtain ⟨same, rfl⟩ := agrees
    cases same
    rfl

theorem Agrees.eq_error {r : Except Error (α × Cursor)} {e : Error} {last : Head}
    (agrees : Agrees text r (.error e) last) : r = .error e := by
  rcases r with e' | ⟨b, c⟩
  · cases agrees
    rfl
  · cases agrees.1

/-- A token with its place, and the cursor after it. -/
def lexeme (x : Lexeme) : (Location × Token) × Cursor := ((x.location, x.token), x.next)

theorem ends_quotedFrom (start : Location) (stands : h.Stands text) :
    Ends text (quotedFrom text start) h
      (Agrees text (((h.cursor text).quotedFrom start).map lexeme)) := by
  rw [quotedFrom, Cursor.quotedFrom]
  apply ends_get_bind
  refine (ends_pass _ stands).bind_ok ?_
  rintro last there ⟨reached, moved⟩
  have byte : text[last.pos]? = (last.cursor text).rest.head? := List.head?_drop.symm
  apply ends_peek_bind byte
  rw [← reached]
  by_cases closed : (last.cursor text).rest.head? = some quoteMark
  · simp only [if_pos closed]
    obtain ⟨more, rest⟩ := List.head?_eq_some_iff.mp closed
    apply ends_cut_bind there moved
    refine (ends_advance there rest).bind_ok ?_
    rintro _ behind rfl
    exact ends_pure behind ⟨rfl, (advance_cursor rest).symm⟩
  · simp only [if_neg closed]
    exact ends_throw there rfl

theorem ends_tokenHere (stands : h.Stands text) :
    Ends text (tokenHere text) h (Agrees text ((h.cursor text).tokenHere.map lexeme)) := by
  rw [tokenHere, Cursor.tokenHere]
  apply ends_get_bind
  cases rest : text.drop h.pos with
  | nil =>
    apply ends_peek_bind (getElem?_of_drop_nil rest)
    have left : (h.cursor text).rest = [] := rest
    simp only [left]
    exact ends_pure stands ⟨rfl, rfl⟩
  | cons b more =>
    apply ends_peek_bind (getElem?_of_drop rest)
    have left : (h.cursor text).rest = b :: more := rest
    simp only [left, advance_cursor rest]
    -- A case for each byte that a token can start with, in the order in which both try them.
    by_cases feed : b = lineFeed
    · simp only [if_pos feed]
      refine (ends_advance stands rest).bind_ok ?_
      rintro _ there rfl
      exact ends_pure there ⟨rfl, rfl⟩
    by_cases assign : b = equalsSign
    · simp only [if_neg feed, if_pos assign]
      refine (ends_advance stands rest).bind_ok ?_
      rintro _ there rfl
      exact ends_pure there ⟨rfl, rfl⟩
    by_cases quote : b = quoteMark
    · simp only [if_neg feed, if_neg assign, if_pos quote]
      refine (ends_advance stands rest).bind_ok ?_
      rintro _ there rfl
      exact ends_quotedFrom _ there
    by_cases literal : isLiteral b
    · simp only [if_neg feed, if_neg assign, if_neg quote, if_pos literal]
      apply ends_get_bind
      refine (ends_pass _ stands).bind_ok ?_
      rintro last there ⟨reached, moved⟩
      apply ends_cut_bind there moved
      rw [rest]
      exact ends_pure there ⟨rfl, reached⟩
    · simp only [if_neg feed, if_neg assign, if_neg quote, if_neg literal]
      exact ends_throw stands rfl

/-- From a head that stands in the text a token is read, the one the cursor there reads. -/
theorem ends_token (stands : h.Stands text) :
    Ends text (token text) h (Agrees text ((h.cursor text).token.map lexeme)) := by
  rw [token, Cursor.token]
  refine (ends_passBlanks stands).bind_ok ?_
  intro last there reached
  rw [← reached]
  exact ends_tokenHere there

/-! ## Entries -/

/-- If two scans agree with two readings by a cursor, so do they one after the other. -/
theorem Ends.bind_agrees {x : Scan α} {f : α → Scan β} {r : Except Error (α × Cursor)}
    {g : α × Cursor → Except Error (β × Cursor)} (first : Ends text x h (Agrees text r))
    (goesOn : ∀ a (last : Head), last.Stands text →
      Ends text (f a) last (Agrees text (g (a, last.cursor text)))) :
    Ends text (x >>= f) h (Agrees text (r.bind g)) := by
  refine first.bind ?_ ?_
  · intro a last there agrees
    rw [agrees.eq_ok]
    exact goesOn a last there
  · intro e last agrees
    rw [agrees.eq_error]
    rfl

theorem ends_expect (meaning : Token → Option α) (error : Location → Error)
    (stands : h.Stands text) :
    Ends text (expect text meaning error) h
      (Agrees text (Cursor.expected meaning error (h.cursor text))) := by
  have split : Cursor.expected meaning error (h.cursor text) =
      ((h.cursor text).token.map lexeme).bind fun x =>
        match meaning x.1.2 with
        | some a => .ok (a, x.2)
        | none => .error (error x.1.1) := by
    rw [Cursor.expected]
    cases (h.cursor text).token with
    | error e => rfl
    | ok x => rfl
  rw [expect, split]
  refine (ends_token stands).bind_agrees ?_
  rintro ⟨location, token⟩ last there
  simp only
  cases meaning token with
  | none => exact ends_throw there rfl
  | some a => exact ends_pure there ⟨rfl, rfl⟩

theorem ends_afterKey (key : List UInt8) (stands : h.Stands text) :
    Ends text (afterKey text key) h (Agrees text ((h.cursor text).afterKey key)) := by
  rw [afterKey, Cursor.afterKey_eq]
  refine (ends_expect _ _ stands).bind_agrees ?_
  intro _ sign there
  refine (ends_expect _ _ there).bind_agrees ?_
  intro value after there
  refine (ends_expect _ _ there).bind_agrees ?_
  intro _ last there
  exact ends_pure there ⟨rfl, rfl⟩

/-- As `Agrees`, for what may not be there at the end of the text. -/
def AgreesAtEnd (text : List UInt8) (r : Except Error (Option (α × Cursor)))
    (result : Except Error (Option α)) (last : Head) : Prop :=
  match r with
  | .ok none => result = .ok none ∧ text.drop last.pos = []
  | .ok (some (a, c)) => result = .ok (some a) ∧ last.cursor text = c
  | .error e => result = .error e

theorem ends_token_bind {token : Token} {location : Location} {next : Cursor}
    {f : Location × Token → Scan β} {post : Except Error β → Head → Prop} (stands : h.Stands text)
    (read : (h.cursor text).token = .ok ⟨token, location, next⟩)
    (goesOn : ∀ last, last.Stands text → last.cursor text = next →
      Ends text (f (location, token)) last post) :
    Ends text (Scan.token text >>= f) h post := by
  have ends := ends_token stands
  rw [read] at ends
  exact Ends.bind_ok ends goesOn

/-- The search for a key ends, since the one of the cursor does. -/
theorem ends_key? (stands : h.Stands text) :
    Ends text (key? text) h (AgreesAtEnd text (h.cursor text).key?) := by
  generalize here : h.cursor text = c
  fun_induction Cursor.key? c generalizing h with
  | case1 c e read =>
    subst here
    have ends := ends_token stands
    rw [read] at ends
    apply ends_loop
    refine ends.bind ?_ ?_
    · rintro _ _ - ⟨⟩
    · rintro e' last ⟨⟩
      rfl
  | case2 c location next read =>
    subst here
    apply ends_loop
    refine ends_token_bind stands read ?_
    rintro last there rfl
    exact ends_pure there ⟨rfl, Cursor.rest_of_endOfInput read⟩
  | case3 c location next read ih =>
    subst here
    apply ends_loop
    refine ends_token_bind stands read ?_
    intro last there reached
    exact ends_pure there (ih there reached)
  | case4 c word location next read letter =>
    subst here
    apply ends_loop
    refine ends_token_bind stands read ?_
    intro last there reached
    obtain ⟨first, more, rfl⟩ := List.exists_cons_of_ne_nil (Cursor.literal_ne_nil read)
    have letter : isLetter first := by simpa using letter
    apply ends_ask_bind (a := first) rfl
    rw [if_pos letter]
    exact ends_pure there ⟨rfl, reached⟩
  | case5 c word location next read letter =>
    subst here
    apply ends_loop
    refine ends_token_bind stands read ?_
    intro last there reached
    obtain ⟨first, more, rfl⟩ := List.exists_cons_of_ne_nil (Cursor.literal_ne_nil read)
    have letter : ¬ isLetter first := by simpa using letter
    apply ends_ask_bind (a := first) rfl
    rw [if_neg letter]
    exact ends_throw there rfl
  | case6 c token location next noEnd noLineEnd noWord read =>
    subst here
    apply ends_loop
    refine ends_token_bind stands read ?_
    intro last there reached
    cases token with
    | assign => exact ends_throw there rfl
    | literal word => exact absurd rfl (noWord word)
    | quoted bytes => exact ends_throw there rfl
    | endOfLine => exact absurd rfl noLineEnd
    | endOfInput => exact absurd rfl noEnd

theorem Ends.map_some {x : Scan α} {r : Except Error (α × Cursor)}
    (ends : Ends text x h (Agrees text r)) :
    Ends text (do return some (← x)) h (AgreesAtEnd text (r.map some)) := by
  refine ends.bind ?_ ?_
  · intro a last there agrees
    rw [agrees.eq_ok]
    exact ends_pure there ⟨rfl, rfl⟩
  · intro e last agrees
    rw [agrees.eq_error]
    rfl

/-- From a head that stands in the text an entry is read, the one the cursor there reads. -/
theorem ends_nextEntry (stands : h.Stands text) :
    Ends text (nextEntry text) h (AgreesAtEnd text (h.cursor text).nextEntry) := by
  have key := ends_key? stands
  rw [nextEntry, Cursor.nextEntry]
  cases found : (h.cursor text).key? with
  | error e =>
    rw [found] at key
    refine key.bind ?_ ?_
    · rintro _ _ - ⟨⟩
    · rintro e' last ⟨⟩
      rfl
  | ok found' =>
    rcases found' with _ | ⟨word, next⟩
    · rw [found] at key
      refine key.bind_ok ?_
      intro last there left
      exact ends_pure there ⟨rfl, left⟩
    · rw [found] at key
      refine key.bind_ok ?_
      rintro last there rfl
      exact (ends_afterKey word there).map_some

end Scan

end FirmwareVars.Ini
