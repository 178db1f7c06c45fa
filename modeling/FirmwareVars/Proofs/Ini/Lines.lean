import FirmwareVars.Ini.Line
import Mathlib.Data.List.TakeWhile

/-!
# The reader goes line by line

A reader moves one cursor over the whole file, and `Line.items` reads each line
on its own.  Both give the same items (`items_eq_lineItems`).

A cursor that stands on a line is fixed by what is left of the line and by what
comes after it (`Line.cursor`).  The next token is then the next piece of what is
left (`token_cursor`), and so on up to an entry (`nextEntry_line`).  No token but
the end of the line reaches into the next one.
-/

namespace FirmwareVars.Ini

open Cursor

namespace Cursor

theorem key?_eq (c : Cursor) :
    c.key? =
      match c.token with
      | .error e => .error e
      | .ok ⟨.endOfInput, _, _⟩ => .ok none
      | .ok ⟨.endOfLine, _, next⟩ => next.key?
      | .ok ⟨.literal word, location, next⟩ =>
          if word.head?.any isLetter then .ok (some (word, next))
          else .error (.invalidKeyName location)
      | .ok ⟨_, location, _⟩ => .error (.unexpectedToken location) := by
  rw [key?]
  split <;> simp [*]

/-- Nothing more comes at the end of the file. -/
theorem nextEntry_nil (l : Location) : (Cursor.mk [] l).nextEntry = .ok none := by
  rw [nextEntry, key?_eq]
  rfl

end Cursor

namespace Line

/-! ## Cursors on a line -/

/-- What comes after a line in a file: nothing, or a line feed and more. -/
def EndsLine (tail : List UInt8) : Prop := tail = [] ∨ ∃ more, tail = lineFeed :: more

/-- What can be left of a line. -/
structure IsRest (line rest : List UInt8) : Prop where
  length_le : rest.length ≤ line.length
  free : lineFeed ∉ rest

theorem IsRest.of_suffix {line rest less : List UInt8} (h : IsRest line rest)
    (hs : less <:+ rest) : IsRest line less :=
  ⟨Nat.le_trans hs.length_le h.length_le, fun hm => h.free (hs.subset hm)⟩

theorem IsRest.tail {line rest : List UInt8} {b : UInt8} (h : IsRest line (b :: rest)) :
    IsRest line rest :=
  h.of_suffix (List.suffix_cons b rest)

theorem IsRest.head_ne {line rest : List UInt8} {b : UInt8} (h : IsRest line (b :: rest)) :
    b ≠ lineFeed := fun hb => h.free (hb ▸ List.mem_cons_self ..)

/-- The cursor on the line with this number, where `rest` is left of the line and
`tail` comes after it. -/
def cursor (number : Nat) (line tail rest : List UInt8) : Cursor :=
  ⟨rest ++ tail, ⟨number, line.length + 1 - rest.length⟩⟩

theorem cursor_self (number : Nat) (line tail : List UInt8) :
    cursor number line tail line = ⟨line ++ tail, ⟨number, 1⟩⟩ := by
  simp [cursor]

/-- The end of a line as a token. -/
def stop (number : Nat) (line : List UInt8) : List UInt8 → Lexeme
  | [] => ⟨.endOfInput, ⟨number, line.length + 1⟩, ⟨[], ⟨number, line.length + 1⟩⟩⟩
  | _ :: more => ⟨.endOfLine, ⟨number, line.length + 1⟩, ⟨more, ⟨number + 1, 1⟩⟩⟩

/-- A piece as a token.  Pieces that cannot be read do not come here. -/
def Found.lexeme (number : Nat) (line tail : List UInt8) (f : Found) : Lexeme :=
  match f.piece with
  | .assign => ⟨.assign, place number line f, cursor number line tail f.after⟩
  | .literal bytes => ⟨.literal bytes, place number line f, cursor number line tail f.after⟩
  | .quoted bytes => ⟨.quoted bytes, place number line f, cursor number line tail f.after⟩
  | _ => stop number line tail

/-! ## Passing bytes -/

section Passing

variable (number : Nat) {line tail rest : List UInt8}

theorem takeWhile_append_tail {p : UInt8 → Bool} (hp : p lineFeed = false) (ht : EndsLine tail)
    (rest : List UInt8) : (rest ++ tail).takeWhile p = rest.takeWhile p := by
  induction rest with
  | nil =>
      rcases ht with rfl | ⟨more, rfl⟩
      · rfl
      · simp [hp]
  | cons b rest ih => rw [List.cons_append, List.takeWhile_cons, List.takeWhile_cons, ih]

/-- A class of bytes without the line feed is passed within the line. -/
theorem passFrom_append {p : UInt8 → Bool} (hp : p lineFeed = false) (ht : EndsLine tail)
    (hr : lineFeed ∉ rest) (l : Location) :
    passFrom p l (rest ++ tail) =
      ⟨rest.dropWhile p ++ tail, ⟨l.line, l.column + (rest.takeWhile p).length⟩⟩ := by
  induction rest generalizing l with
  | nil =>
      rcases ht with rfl | ⟨more, rfl⟩
      · rfl
      · simp [passFrom, hp]
  | cons b rest ih =>
      rw [List.mem_cons, not_or] at hr
      rw [List.cons_append, passFrom, List.dropWhile_cons, List.takeWhile_cons]
      by_cases hb : p b
      · rw [if_pos hb, if_pos hb, if_pos hb, ih hr.2, Location.after, if_neg (Ne.symm hr.1)]
        simp only [List.length_cons, Nat.add_assoc, Nat.add_comm 1]
      · rw [if_neg hb, if_neg hb, if_neg hb]
        rfl

theorem pass_cursor {p : UInt8 → Bool} (hp : p lineFeed = false) (ht : EndsLine tail)
    (hr : IsRest line rest) :
    (cursor number line tail rest).pass p = cursor number line tail (rest.dropWhile p) := by
  have split := congrArg List.length (List.takeWhile_append_dropWhile (p := p) (l := rest))
  rw [List.length_append] at split
  have fits := hr.length_le
  rw [Cursor.pass, cursor, passFrom_append hp ht hr.free]
  simp only [cursor, Cursor.mk.injEq, Location.mk.injEq, true_and]
  omega

theorem advance_cursor {b : UInt8} (hr : IsRest line (b :: rest)) :
    (cursor number line tail (b :: rest)).advance = cursor number line tail rest := by
  have fits := hr.length_le
  simp only [cursor, advance, List.cons_append, Location.after, if_neg hr.head_ne,
    Cursor.mk.injEq, Location.mk.injEq, true_and, List.length_cons] at fits ⊢
  omega

/-- What is left of a line without the blanks and the comment at its front. -/
def bare (rest : List UInt8) : List UInt8 :=
  if (rest.dropWhile isBlank).head? = some hashMark then [] else rest.dropWhile isBlank

theorem bare_suffix (rest : List UInt8) : bare rest <:+ rest := by
  rw [bare]
  split
  · exact List.nil_suffix
  · exact List.dropWhile_suffix _

theorem dropWhile_ne_lineFeed (hr : lineFeed ∉ rest) :
    rest.dropWhile (· ≠ lineFeed) = [] := by
  rw [List.dropWhile_eq_nil_iff]
  intro b hb
  exact decide_eq_true fun h => hr (h ▸ hb)

/-- A byte other than the line feed is next in the file only if it is next on the
line. -/
theorem head?_append_tail (ht : EndsLine tail) {b : UInt8} (hb : b ≠ lineFeed) :
    (rest ++ tail).head? = some b ↔ rest.head? = some b := by
  cases rest with
  | nil =>
      rcases ht with rfl | ⟨more, rfl⟩
      · rfl
      · simp [Ne.symm hb]
  | cons a rest => rfl

theorem passBlanks_cursor (ht : EndsLine tail) (hr : IsRest line rest) :
    (cursor number line tail rest).passBlanks = cursor number line tail (bare rest) := by
  have hd := hr.of_suffix (List.dropWhile_suffix isBlank)
  have hash : (cursor number line tail (rest.dropWhile isBlank)).rest.head? = some hashMark ↔
      (rest.dropWhile isBlank).head? = some hashMark := head?_append_tail ht (by decide)
  simp only [passBlanks, bare, pass_cursor number (p := isBlank) (by decide) ht hr, hash]
  split
  · rw [pass_cursor number (by decide) ht hd, dropWhile_ne_lineFeed hd.free]
  · rfl

end Passing

/-! ## Tokens -/

section Tokens

variable (number : Nat) {line tail rest : List UInt8}

/-- On a line the search for a quote need not look out for the end of the line. -/
theorem takeWhile_inQuotes (hr : lineFeed ∉ rest) :
    (rest.takeWhile fun b => b ≠ quoteMark && b ≠ lineFeed) = rest.takeWhile (· ≠ quoteMark) := by
  induction rest with
  | nil => rfl
  | cons b rest ih =>
      rw [List.mem_cons, not_or] at hr
      simp only [List.takeWhile_cons, ih hr.2, Ne.symm hr.1, ne_eq, not_false_eq_true,
        decide_true, Bool.and_true]

theorem dropWhile_inQuotes (hr : lineFeed ∉ rest) :
    (rest.dropWhile fun b => b ≠ quoteMark && b ≠ lineFeed) = rest.dropWhile (· ≠ quoteMark) := by
  induction rest with
  | nil => rfl
  | cons b rest ih =>
      rw [List.mem_cons, not_or] at hr
      simp only [List.dropWhile_cons, ih hr.2, Ne.symm hr.1, ne_eq, not_false_eq_true,
        decide_true, Bool.and_true]

/-- What is left from the next quote on starts with that quote. -/
theorem head?_dropWhile_quote {b : UInt8} {after : List UInt8}
    (h : rest.dropWhile (· ≠ quoteMark) = b :: after) : b = quoteMark := by
  have := List.head?_dropWhile_not (· ≠ quoteMark) rest
  rw [h] at this
  simpa using this

theorem quotedFrom_cursor (ht : EndsLine tail) (hr : IsRest line rest) (start : Location) :
    (cursor number line tail rest).quotedFrom start =
      match rest.dropWhile (· ≠ quoteMark) with
      | [] => .error (.unmatchedQuote start)
      | _ :: after =>
          .ok ⟨.quoted (rest.takeWhile (· ≠ quoteMark)), start, cursor number line tail after⟩ := by
  have hd := hr.of_suffix (List.dropWhile_suffix (· ≠ quoteMark))
  rw [quotedFrom, pass_cursor number (by decide) ht hr, dropWhile_inQuotes hr.free]
  simp only [cursor, head?_append_tail ht (show quoteMark ≠ lineFeed by decide)]
  cases hq : rest.dropWhile (· ≠ quoteMark) with
  | nil => rfl
  | cons b after =>
      have hb := head?_dropWhile_quote hq
      rw [hq] at hd
      subst hb
      rw [if_pos (List.head?_cons ..), takeWhile_append_tail (by decide) ht,
        takeWhile_inQuotes hr.free]
      exact congrArg (fun c => Except.ok (Lexeme.mk _ start c)) (advance_cursor number hd)

theorem tokenHere_stop (ht : EndsLine tail) :
    (cursor number line tail []).tokenHere = .ok (stop number line tail) := by
  rcases ht with rfl | ⟨more, rfl⟩
  · rfl
  · rfl

/-- The token that is next is the piece that is next. -/
theorem token_cursor (ht : EndsLine tail) (hr : IsRest line rest) :
    (cursor number line tail rest).token =
      (next? number line rest).map (Found.lexeme number line tail) := by
  have hb := hr.of_suffix (bare_suffix rest)
  rw [token, passBlanks_cursor number ht hr, next?, next]
  rw [bare] at hb ⊢
  cases hd : rest.dropWhile isBlank with
  | nil => exact tokenHere_stop number ht
  | cons b more =>
      rw [hd] at hb
      -- A case for each byte that a piece can start with, in the order in which both try them.
      by_cases hash : b = hashMark
      · simp only [List.head?_cons, hash, if_true]
        exact tokenHere_stop number ht
      have hash' : (b :: more).head? ≠ some hashMark := by simpa using hash
      rw [if_neg hash'] at hb ⊢
      have step : (cursor number line tail (b :: more)).advance = cursor number line tail more :=
        advance_cursor number hb
      simp only [cursor, List.cons_append] at step
      simp only [tokenHere, cursor, List.cons_append, if_neg hash, if_neg hb.head_ne, step]
      by_cases assign : b = equalsSign
      · simp only [if_pos assign]
        rfl
      simp only [if_neg assign]
      by_cases quote : b = quoteMark
      · have quoted := quotedFrom_cursor number ht hb.tail
          ⟨number, line.length + 1 - (b :: more).length⟩
        simp only [cursor] at quoted
        simp only [if_pos quote, quoted]
        cases more.dropWhile (· ≠ quoteMark) with
        | nil => rfl
        | cons c after => rfl
      simp only [if_neg quote]
      by_cases literal : isLiteral b
      · have word := takeWhile_append_tail (p := isLiteral) (by decide) ht (b :: more)
        have passed := pass_cursor number (p := isLiteral) (by decide) ht hb
        simp only [cursor, List.cons_append, List.takeWhile_cons, List.dropWhile_cons,
          if_pos literal] at word passed
        simp only [List.takeWhile_cons, if_pos literal, word, passed]
        rfl
      · simp only [if_neg literal]
        rfl

end Tokens

/-! ## Entries -/

section Entries

variable {number : Nat} {line tail rest : List UInt8} {f : Found}

theorem next_after_suffix (rest : List UInt8) : (next rest).after <:+ rest := by
  have hd := List.dropWhile_suffix (l := rest) isBlank
  rw [next]
  cases h : rest.dropWhile isBlank with
  | nil => exact List.nil_suffix
  | cons b more =>
      rw [h] at hd
      have hm := (List.suffix_cons b more).trans hd
      simp only
      split
      · exact List.nil_suffix
      split
      · exact hm
      split
      · have hq := List.dropWhile_suffix (l := more) (· ≠ quoteMark)
        split
        · exact List.nil_suffix
        · next c after hc =>
          rw [hc] at hq
          exact ((List.suffix_cons c after).trans hq).trans hm
      split
      · exact (List.dropWhile_suffix _).trans hm
      · exact List.nil_suffix

/-- Nothing is left at the end of a line, whether or not a comment comes before. -/
theorem start_of_stop (h : (next rest).piece = .stop) : (next rest).start = [] := by
  revert h
  rw [next]
  repeat' split
  all_goals simp

theorem eq_next_of_next? (h : next? number line rest = .ok f) : f = next rest := by
  rw [next?] at h
  split at h
  · cases h
  · cases h
  · exact (Except.ok.inj h).symm

theorem IsRest.after (hr : IsRest line rest) (h : next? number line rest = .ok f) :
    IsRest line f.after :=
  hr.of_suffix (eq_next_of_next? h ▸ next_after_suffix rest)

/-- The four kinds of pieces that can be read, each with its token. -/
theorem lexeme_cases (ht : EndsLine tail) (h : next? number line rest = .ok f) :
    (f.piece = .assign ∧ f.lexeme number line tail =
      ⟨.assign, place number line f, cursor number line tail f.after⟩) ∨
    (∃ bytes, f.piece = .literal bytes ∧ f.lexeme number line tail =
      ⟨.literal bytes, place number line f, cursor number line tail f.after⟩) ∨
    (∃ bytes, f.piece = .quoted bytes ∧ f.lexeme number line tail =
      ⟨.quoted bytes, place number line f, cursor number line tail f.after⟩) ∨
    (f.piece = .stop ∧ ∃ token, (token = .endOfLine ∨ token = .endOfInput) ∧
      f.lexeme number line tail =
        ⟨token, place number line f, (stop number line tail).next⟩) := by
  have hf := eq_next_of_next? h
  rw [next?, ← hf] at h
  cases hp : f.piece with
  | assign => exact Or.inl ⟨rfl, by rw [Found.lexeme, hp]⟩
  | literal bytes => exact Or.inr (Or.inl ⟨bytes, rfl, by rw [Found.lexeme, hp]⟩)
  | quoted bytes => exact Or.inr (Or.inr (Or.inl ⟨bytes, rfl, by rw [Found.lexeme, hp]⟩))
  | stop =>
      have start : f.start = [] := hf ▸ start_of_stop (hf ▸ hp)
      refine Or.inr (Or.inr (Or.inr ⟨rfl, ?_⟩))
      rw [Found.lexeme, hp, place, start]
      rcases ht with rfl | ⟨more, rfl⟩
      · exact ⟨.endOfInput, Or.inr rfl, rfl⟩
      · exact ⟨.endOfLine, Or.inl rfl, rfl⟩
  | unclosed => simp [hp] at h
  | stray => simp [hp] at h

theorem assign_cursor (ht : EndsLine tail) (hr : IsRest line rest) :
    (cursor number line tail rest).assign =
      (next? number line rest).bind fun f =>
        if f.piece = .assign then .ok (cursor number line tail f.after)
        else .error (.expectedAssign (place number line f)) := by
  rw [assign, token_cursor number ht hr]
  cases h : next? number line rest with
  | error e => rfl
  | ok f =>
      rcases lexeme_cases ht h with ⟨hp, hl⟩ | ⟨_, hp, hl⟩ | ⟨_, hp, hl⟩ | ⟨hp, _, rfl | rfl, hl⟩
      all_goals simp [Except.map, Except.bind, hp, hl]

theorem value_cursor (ht : EndsLine tail) (hr : IsRest line rest) :
    (cursor number line tail rest).value =
      (next? number line rest).bind fun f =>
        match f.piece.value? with
        | some bytes => .ok (bytes, cursor number line tail f.after)
        | none => .error (.expectedValue (place number line f)) := by
  rw [value, token_cursor number ht hr]
  cases h : next? number line rest with
  | error e => rfl
  | ok f =>
      rcases lexeme_cases ht h with ⟨hp, hl⟩ | ⟨_, hp, hl⟩ | ⟨_, hp, hl⟩ | ⟨hp, _, rfl | rfl, hl⟩
      all_goals simp [Except.map, Except.bind, Piece.value?, hp, hl]

theorem lineEnd_cursor (ht : EndsLine tail) (hr : IsRest line rest) :
    (cursor number line tail rest).lineEnd =
      (next? number line rest).bind fun f =>
        if f.piece = .stop then .ok (stop number line tail).next
        else .error (.unexpectedToken (place number line f)) := by
  rw [lineEnd, token_cursor number ht hr]
  cases h : next? number line rest with
  | error e => rfl
  | ok f =>
      rcases lexeme_cases ht h with ⟨hp, hl⟩ | ⟨_, hp, hl⟩ | ⟨_, hp, hl⟩ | ⟨hp, _, rfl | rfl, hl⟩
      all_goals simp [Except.map, Except.bind, hp, hl]

theorem throw_eq_error {α : Type} (e : Error) : (throw e : Except Error α) = .error e := rfl

/-- What follows a key. -/
theorem afterKey_cursor (ht : EndsLine tail) (hr : IsRest line rest) (key : List UInt8) :
    (cursor number line tail rest).afterKey key =
      (afterKey number line key rest).map fun e => (e, (stop number line tail).next) := by
  rw [Cursor.afterKey, afterKey, assign_cursor ht hr]
  cases hs : next? number line rest with
  | error e => rfl
  | ok sign =>
      by_cases assign : sign.piece = .assign
      · have hr := hr.after hs
        simp only [Except.bind, bind, assign, if_true, value_cursor ht hr, ne_eq,
          not_true_eq_false, if_false, pure, Except.pure]
        cases hv : next? number line sign.after with
        | error e => rfl
        | ok value =>
            cases hb : value.piece.value? with
            | none =>
                simp only [hb]
                rfl
            | some bytes =>
                have hr := hr.after hv
                simp only [hb, lineEnd_cursor ht hr]
                cases he : next? number line value.after with
                | error e => rfl
                | ok stop =>
                    by_cases last : stop.piece = .stop
                    · simp [Except.bind, Except.map, last]
                    · simp [Except.bind, Except.map, last, throw_eq_error]
      · simp [Except.bind, bind, Except.map, assign, throw_eq_error]

/-- A line that is read to its end without a key gives what comes after it. -/
theorem nextEntry_stop (ht : EndsLine tail) {c : Cursor}
    (h : c.token = .ok (stop number line tail)) :
    c.nextEntry = (stop number line tail).next.nextEntry := by
  rcases ht with rfl | ⟨more, rfl⟩
  · rw [stop, nextEntry_nil, nextEntry, key?_eq, h]
    rfl
  · rw [nextEntry, key?_eq, h]
    rfl

/-- The entry of a line, or what the line gives without one.  The reader goes on
after a blank line by itself. -/
theorem nextEntry_line (number : Nat) (ht : EndsLine tail) (hr : lineFeed ∉ line) :
    (Cursor.mk (line ++ tail) ⟨number, 1⟩).nextEntry =
      match read number line with
      | .error e => .error e
      | .ok none => (stop number line tail).next.nextEntry
      | .ok (some e) => .ok (some (e, (stop number line tail).next)) := by
  have hr : IsRest line line := ⟨Nat.le_refl _, hr⟩
  have ht' := token_cursor number ht hr
  rw [← cursor_self, read]
  cases h : next? number line line with
  | error e =>
      rw [nextEntry, key?_eq, ht', h]
      rfl
  | ok f =>
      rw [h] at ht'
      rcases lexeme_cases ht h with ⟨hp, hl⟩ | ⟨key, hp, hl⟩ | ⟨_, hp, hl⟩ | ⟨hp, _, _, hl⟩
      · simp [nextEntry, key?_eq, ht', Except.map, hl, hp, bind, Except.bind, throw_eq_error]
      · by_cases letter : key.head?.any isLetter
        · have hk : (cursor number line tail line).key? =
              .ok (some (key, cursor number line tail f.after)) := by
            simp [key?_eq, ht', Except.map, hl, letter]
          rw [nextEntry, hk]
          simp only [afterKey_cursor ht (hr.after h), bind, Except.bind, hp, letter, if_true]
          cases afterKey number line key f.after with
          | error e => rfl
          | ok e => rfl
        · simp [nextEntry, key?_eq, ht', Except.map, hl, hp, letter, bind, Except.bind,
            throw_eq_error]
      · simp [nextEntry, key?_eq, ht', Except.map, hl, hp, bind, Except.bind, throw_eq_error]
      · have hs : f.lexeme number line tail = stop number line tail := by rw [Found.lexeme, hp]
        rw [nextEntry_stop ht (ht'.trans (congrArg Except.ok hs))]
        simp [hp, bind, Except.bind, pure, Except.pure]

end Entries

end Line

/-! ## Files -/

namespace Reader

theorem drain_of_none {r s : Reader} (h : r.next = (none, s)) : r.drain = ([], s) := by
  rw [drain]
  split <;> simp_all

theorem drain_of_some {r s : Reader} {item : Item} (h : r.next = (some item, s)) :
    r.drain = (item :: s.drain.1, s.drain.2) := by
  rw [drain]
  split <;> simp_all

/-- A reader that gives nothing stays as it is. -/
theorem eq_of_next_none {r s : Reader} (h : r.next = (none, s)) : s = r := by
  rw [next] at h
  split at h
  · cases h; rfl
  split at h
  · cases h
  · cases h; rfl
  · cases h

/-- After all items nothing more comes. -/
theorem next_drain (r : Reader) : r.drain.2.next = (none, r.drain.2) := by
  fun_induction drain r with
  | case1 r s h =>
      have same := eq_of_next_none h
      rwa [same] at h ⊢
  | case2 r item s h ih => exact ih

/-- The items that are left depend on the next entry alone. -/
theorem drain_eq (c : Cursor) :
    (Reader.mk c false).drain.1 =
      match c.nextEntry with
      | .error e => [.error e]
      | .ok none => []
      | .ok (some (e, d)) => .ok e :: (Reader.mk d false).drain.1 := by
  cases h : c.nextEntry with
  | error e =>
      have stops : (Reader.mk c true).drain = ([], ⟨c, true⟩) := drain_of_none rfl
      have first : (Reader.mk c false).next = (some (.error e), ⟨c, true⟩) := by simp [next, h]
      rw [drain_of_some first, stops]
  | ok found =>
      rcases found with _ | ⟨e, d⟩
      · rw [drain_of_none (s := ⟨c, false⟩) (by simp [next, h])]
      · have first : (Reader.mk c false).next = (some (.ok e), ⟨d, false⟩) := by simp [next, h]
        rw [drain_of_some first]

/-- Nothing is left at the end of the file. -/
theorem drain_nil (l : Location) : (Reader.mk ⟨[], l⟩ false).drain.1 = [] := by
  rw [drain_eq, nextEntry_nil]

end Reader

/-- The items from the start of a line on.  The induction is on the bytes, a line
at a time. -/
theorem drain_lines (number : Nat) (bytes : List UInt8) :
    (Reader.mk ⟨bytes, ⟨number, 1⟩⟩ false).drain.1 =
      Line.itemsFrom number (bytes.splitOn lineFeed) := by
  induction h : bytes.length using Nat.strongRecOn generalizing number bytes with
  | ind n ih =>
      by_cases more : lineFeed ∈ bytes
      · obtain ⟨line, rest, rfl, free⟩ := List.eq_append_cons_of_mem more
        have ends : Line.EndsLine (lineFeed :: rest) := Or.inr ⟨rest, rfl⟩
        have shorter : rest.length < n := by
          simp only [List.length_append, List.length_cons] at h
          omega
        have next := ih rest.length shorter (number + 1) rest rfl
        rw [Reader.drain_eq, Line.nextEntry_line number ends free,
          List.splitOn_append_cons_self_of_not_mem free, Line.itemsFrom]
        cases Line.read number line with
        | error e => rfl
        | ok found =>
            rcases found with _ | e
            · rw [← next, Reader.drain_eq]
              rfl
            · rw [← next]
              rfl
      · have whole := Line.nextEntry_line number (Or.inl rfl) more
        rw [List.append_nil] at whole
        rw [Reader.drain_eq, whole, List.splitOn_eq_singleton more, Line.itemsFrom]
        cases Line.read number bytes with
        | error e => rfl
        | ok found =>
            rcases found with _ | e
            · rw [Line.stop, nextEntry_nil]
              rfl
            · exact congrArg (Except.ok e :: ·) (Reader.drain_nil _)

/-- One cursor over a whole file gives the items of its lines: the entries before
the first bad line and then the error of that line.  Nothing comes after them. -/
theorem items_eq_lineItems (bytes : List UInt8) :
    items bytes = Line.items bytes ∧
      (Reader.ofBytes bytes).drain.2.next = (none, (Reader.ofBytes bytes).drain.2) :=
  ⟨drain_lines 1 _, Reader.next_drain _⟩

end FirmwareVars.Ini
