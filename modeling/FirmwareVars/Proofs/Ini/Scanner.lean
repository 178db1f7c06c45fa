import FirmwareVars.Proofs.Ini.Files
import FirmwareVars.Proofs.Ini.Scan
import FirmwareVars.Text.Utf8

/-!
# A scanner stays in its text

A scanner and a reader of the same file are called side by side.  One call keeps them matched
(`Scanner.Matches.step`), so any number of calls does (`Scanner.Matches.calls`).  A reader gives
the items of the file, and that is how the scanner is known to give them, to stand in the text in
between, and to be done at last (`scanner_stands`).
-/

namespace FirmwareVars.Ini

/-! ## Items -/

/-- A reader gives the first of its items and keeps the others. -/
theorem Reader.next_eq_drain (r : Reader) :
    r.next.1 = r.drain.1.head? ∧ r.next.2.drain.1 = r.drain.1.tail := by
  rcases next : r.next with ⟨_ | item, s⟩
  · rw [drain_of_none next, eq_of_next_none next, drain_of_none next]
    exact ⟨rfl, rfl⟩
  · rw [drain_of_some next]
    exact ⟨rfl, rfl⟩

namespace Scanner

variable {text : List UInt8}

/-- A scanner and a reader that have come equally far: neither or both have failed, and if not,
the same comes next. -/
structure Matches (text : List UInt8) (s : Scanner) (r : Reader) : Prop where
  stands : s.head.Stands text
  failed : s.failed = r.failed
  next : s.failed = false → (s.head.cursor text).nextEntry = r.cursor.nextEntry

theorem matches_start (bytes : List UInt8) : Matches (contents bytes) {} (Reader.ofBytes bytes) :=
  ⟨Head.stands_start _, rfl, fun _ => rfl⟩

/-- A scanner gives what a reader gives, and an entry takes it further on. -/
theorem Matches.step {s : Scanner} {r : Reader} (h : Matches text s r) :
    ∃ t, s.next text = .some (r.next.1, t) ∧ Matches text t r.next.2 ∧
      ∀ e, r.next.1 = some (.ok e) → s.head.pos < t.head.pos := by
  rw [Scanner.next, Reader.next, ← h.failed]
  by_cases failed : s.failed
  · simp only [if_pos failed]
    refine ⟨s, rfl, h, ?_⟩
    rintro e ⟨⟩
  have going : s.failed = false := by simpa using failed
  have same := h.next going
  simp only [if_neg failed, ← same]
  obtain ⟨result, last, ran, there, agrees⟩ := Scan.ends_nextEntry h.stands
  rw [ran, Part.bind_eq_bind, Part.bind_some]
  rcases found : (s.head.cursor text).nextEntry with e | _ | ⟨entry, c⟩
  · rw [found] at agrees
    cases agrees
    refine ⟨⟨last, true⟩, rfl, ⟨there, rfl, ?_⟩, ?_⟩
    · rintro ⟨⟩
    · rintro e' ⟨⟩
  · rw [found] at agrees
    obtain ⟨rfl, left⟩ := agrees
    refine ⟨⟨last, false⟩, rfl, ⟨there, ?_, ?_⟩, ?_⟩
    · rw [← h.failed, going]
    · intro _
      rw [← same, found, Head.cursor, left, Cursor.nextEntry_nil]
    · rintro e' ⟨⟩
  · rw [found] at agrees
    obtain ⟨rfl, rfl⟩ := agrees
    have shorter := Cursor.nextEntry_shorter found
    refine ⟨⟨last, false⟩, rfl, ⟨there, going.symm, fun _ => rfl⟩, ?_⟩
    · intro _ _
      simp only [Head.cursor, List.length_drop] at shorter
      show s.head.pos < last.pos
      omega

/-- The first calls give the first items, and nothing where there are no more of them. -/
theorem Matches.calls {s : Scanner} {r : Reader} (h : Matches text s r) (n : Nat) :
    ∃ t q, s.calls text n = .some ((List.range n).map (r.drain.1[·]?), t) ∧ Matches text t q ∧
      q.drain.1 = r.drain.1.drop n := by
  induction n generalizing s r with
  | zero => exact ⟨s, r, rfl, h, rfl⟩
  | succ n ih =>
    obtain ⟨t, next, there, -⟩ := h.step
    obtain ⟨u, q, calls, there', behind⟩ := ih there
    obtain ⟨first, others⟩ := r.next_eq_drain
    rw [others] at calls behind
    refine ⟨u, q, ?_, there', ?_⟩
    · have answers : (List.range (n + 1)).map (r.drain.1[·]?) =
          r.next.1 :: (List.range n).map (r.drain.1.tail[·]?) := by
        rw [List.range_succ_eq_map, List.map_cons, List.map_map, first, List.head?_eq_getElem?]
        simp [Function.comp_def]
      rw [Scanner.calls, next, answers, Part.bind_eq_bind, Part.bind_some]
      simp only [calls, Part.bind_eq_bind, Part.bind_some]
      rfl
    · rw [behind, ← List.drop_one, List.drop_drop, Nat.add_comm]

end Scanner

/-- A line gives at most one item, and none if it is empty. -/
theorem length_itemsFrom_le (number : Nat) (ls : List (List UInt8)) :
    (Line.itemsFrom number ls).length ≤ ls.countP (· ≠ []) := by
  have notEmpty {number : Nat} {line : List UInt8} {found : Except Error (Option Entry)}
      (read : Line.read number line = found) (other : found ≠ .ok none) : line ≠ [] := by
    rintro rfl
    exact other (read.symm.trans rfl)
  fun_induction Line.itemsFrom number ls with
  | case1 number => exact Nat.le_refl 0
  | case2 number line rest e read =>
    have filled := notEmpty read (by simp)
    rw [List.countP_cons_of_pos (by simpa using filled)]
    exact Nat.succ_le_succ (Nat.zero_le _)
  | case3 number line rest read ih =>
    exact Nat.le_trans ih (List.sublist_cons_self line rest).countP_le
  | case4 number line rest e read ih =>
    have filled := notEmpty read (by simp)
    rw [List.countP_cons_of_pos (by simpa using filled)]
    exact Nat.succ_le_succ ih

/-- A scanner never leaves the text, whatever it is called on and however often.  Each call comes
to an end and asks for no byte that is not there, and then the head is at its place.  The calls
give the items of the file and then nothing for ever.  An entry takes the head further on, and
an error is the last item. -/
theorem scanner_stands (bytes : List UInt8) :
    (∀ n, ∃ s t,
      Scanner.calls (contents bytes) n {} = .some ((List.range n).map ((items bytes)[·]?), s) ∧
      s.head.Stands (contents bytes) ∧
      s.next (contents bytes) = .some ((items bytes)[n]?, t) ∧
      ∀ e, (items bytes)[n]? = some (.ok e) → s.head.pos < t.head.pos) ∧
    (∀ h : Head, h.Stands (contents bytes) →
      ∃ result last, (Scan.token (contents bytes)).run h = .some (result, last) ∧
        last.Stands (contents bytes) ∧ ∀ location, result ≠ .ok (location, .literal [])) ∧
    (∃ (es : List Entry) (error : Option Error),
      items bytes = es.map .ok ++ error.toList.map .error) ∧
    (items bytes).length ≤ (lines bytes).countP (· ≠ []) := by
  refine ⟨fun n => ?_, fun h stands => ?_, ?_, ?_⟩
  · obtain ⟨s, r, calls, there, behind⟩ := (Scanner.matches_start bytes).calls n
    obtain ⟨t, next, -, further⟩ := there.step
    obtain ⟨first, -⟩ := r.next_eq_drain
    have item : r.next.1 = (items bytes)[n]? := by
      rw [first, behind, List.head?_drop]
      rfl
    rw [item] at next further
    exact ⟨s, t, calls, there.stands, next, further⟩
  · obtain ⟨result, last, ran, there, agrees⟩ := Scan.ends_token stands
    refine ⟨result, last, ran, there, ?_⟩
    rintro location rfl
    rcases read : (h.cursor (contents bytes)).token with e | ⟨token, start, next⟩
    · rw [read] at agrees
      cases agrees
    · rw [read] at agrees
      obtain ⟨same, -⟩ := agrees
      cases same
      exact Cursor.literal_ne_nil read rfl
  · exact ⟨_, _, items_eq bytes⟩
  · rw [items_eq_itemsFrom]
    exact length_itemsFrom_le 1 (lines bytes)

/-- The second entry behind a comment, a quoted value with a mark in it, and an empty line, and
before a NUL byte.  The token is read at the blank before that value. -/
theorem scanner_stands_quoted :
    let log : Entry := ⟨Utf8.encode "log", Utf8.encode "a # b"⟩
    let x : Entry := ⟨Utf8.encode "x", Utf8.encode "1"⟩
    let bytes := Utf8.encode "# first\nlog = \"a # b\"\n\nx = 1" ++ [0, 0x22]
    let blank : Head := ⟨13, ⟨2, 6⟩⟩
    (items bytes)[1]? = some (.ok x) ∧
    (∃ s t, Scanner.calls (contents bytes) 1 {} = .some ([some (.ok log)], s) ∧
      s.head.Stands (contents bytes) ∧ s.next (contents bytes) = .some (some (.ok x), t) ∧
      s.head.pos < t.head.pos) ∧
    blank.Stands (contents bytes) ∧
    ∃ result last, (Scan.token (contents bytes)).run blank = .some (result, last) ∧
      last.Stands (contents bytes) ∧ ∀ location, result ≠ .ok (location, .literal []) := by
  intro log x bytes blank
  have given : items bytes = [.ok log, .ok x] := by
    rw [items_eq_itemsFrom]
    decide +kernel
  have second : (items bytes)[1]? = some (.ok x) := by rw [given]; rfl
  have stands : blank.Stands (contents bytes) :=
    ⟨by decide +kernel, by decide +kernel, by decide +kernel⟩
  have all := scanner_stands bytes
  obtain ⟨s, t, calls, there, next, further⟩ := all.1 1
  rw [second] at next
  rw [given] at calls
  exact ⟨second, ⟨s, t, calls, there, next, further x second⟩, stands, all.2.1 blank stands⟩

end FirmwareVars.Ini
