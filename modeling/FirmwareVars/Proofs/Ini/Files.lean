import FirmwareVars.Proofs.Ini.Lines

/-!
# Files and their lines

The items of a file are the entries before the first malformed line and then the error of
that line, if there is one (`items_eq`).

The first lines of a file are a file of their own (`firstLines`).  Its items are what the
first lines of the whole file give (`items_firstLines`), so they are all entries if the file
stops before the malformed line (`entries_before_error`).
-/

namespace FirmwareVars.Ini

/-! ## Lines -/

/-- The lines of a file.  A NUL byte ends the last one. -/
def lines (bytes : List UInt8) : List (List UInt8) :=
  (bytes.takeWhile (· ≠ 0)).splitOn lineFeed

/-- The first `k` lines of a file, each with its line feed if it has one. -/
def firstLines : Nat → List UInt8 → List UInt8
  | 0, _ => []
  | _ + 1, [] => []
  | k + 1, b :: rest => b :: firstLines (if b = lineFeed then k else k + 1) rest

/-- Bytes are a line, or a line with a line feed and more lines behind it. -/
@[elab_as_elim]
theorem lines_induction {motive : List UInt8 → Prop}
    (last : ∀ line, lineFeed ∉ line → motive line)
    (more : ∀ line rest, lineFeed ∉ line → motive rest → motive (line ++ lineFeed :: rest))
    (bytes : List UInt8) : motive bytes := by
  by_cases h : lineFeed ∈ bytes
  · obtain ⟨line, rest, joined, free⟩ := List.eq_append_cons_of_mem h
    rw [joined]
    exact more line rest free (lines_induction last more rest)
  · exact last bytes h
termination_by bytes.length
decreasing_by
  rw [joined, List.length_append, List.length_cons]
  omega

theorem mem_of_mem_splitOn {bytes line : List UInt8} (h : line ∈ bytes.splitOn lineFeed) :
    lineFeed ∉ line ∧ line ⊆ bytes := by
  induction bytes using lines_induction with
  | last bytes free =>
      rw [List.splitOn_eq_singleton free, List.mem_singleton] at h
      rw [h]
      exact ⟨free, List.Subset.refl bytes⟩
  | more first rest free ih =>
      rw [List.splitOn_append_cons_self_of_not_mem free, List.mem_cons] at h
      rcases h with rfl | later
      · exact ⟨free, List.subset_append_left line _⟩
      · obtain ⟨unbroken, subset⟩ := ih later
        exact ⟨unbroken, fun b hb => List.mem_append_right _ (List.mem_cons_of_mem _ (subset hb))⟩

/-- A line holds no line feed and no NUL. -/
theorem not_mem_line {bytes line : List UInt8} (h : line ∈ lines bytes) :
    lineFeed ∉ line ∧ 0 ∉ line := by
  obtain ⟨free, subset⟩ := mem_of_mem_splitOn h
  refine ⟨free, fun zero => ?_⟩
  have := List.mem_takeWhile_imp (subset zero)
  simp at this

theorem lines_last {line : List UInt8} (free : lineFeed ∉ line ∧ 0 ∉ line) :
    lines line = [line] := by
  have whole : line.takeWhile (· ≠ 0) = line :=
    List.takeWhile_eq_self_iff.mpr fun b hb => decide_eq_true fun same => free.2 (same ▸ hb)
  rw [lines, whole, List.splitOn_eq_singleton free.1]

theorem lines_append {line : List UInt8} (free : lineFeed ∉ line ∧ 0 ∉ line)
    (rest : List UInt8) : lines (line ++ lineFeed :: rest) = line :: lines rest := by
  have whole : ∀ b ∈ line, decide (b ≠ 0) = true := fun b hb =>
    decide_eq_true fun same => free.2 (same ▸ hb)
  rw [lines, List.takeWhile_append_of_pos whole, List.takeWhile_cons_of_pos (by decide),
    List.splitOn_append_cons_self_of_not_mem free.1, lines]

/-! ## The first lines -/

theorem firstLines_zero (bytes : List UInt8) : firstLines 0 bytes = [] := by
  cases bytes <;> rfl

theorem firstLines_nil (k : Nat) : firstLines k [] = [] := by
  cases k <;> rfl

theorem firstLines_last {line : List UInt8} (free : lineFeed ∉ line) (k : Nat) :
    firstLines (k + 1) line = line := by
  induction line with
  | nil => rfl
  | cons b line ih =>
      rw [List.mem_cons, not_or] at free
      rw [firstLines, if_neg (Ne.symm free.1), ih free.2]

theorem firstLines_append {line : List UInt8} (free : lineFeed ∉ line) (k : Nat)
    (rest : List UInt8) :
    firstLines (k + 1) (line ++ lineFeed :: rest) = line ++ lineFeed :: firstLines k rest := by
  induction line with
  | nil => rfl
  | cons b line ih =>
      rw [List.mem_cons, not_or] at free
      rw [List.cons_append, firstLines, if_neg (Ne.symm free.1), ih free.2]
      rfl

/-- What comes after a NUL is in no line. -/
theorem takeWhile_firstLines (k : Nat) (bytes : List UInt8) :
    (firstLines k bytes).takeWhile (· ≠ 0) = firstLines k (bytes.takeWhile (· ≠ 0)) := by
  induction bytes generalizing k with
  | nil => rw [firstLines_nil, List.takeWhile_nil, firstLines_nil]
  | cons b rest ih =>
      cases k with
      | zero => rw [firstLines_zero, firstLines_zero, List.takeWhile_nil]
      | succ k =>
          rw [firstLines, List.takeWhile_cons, List.takeWhile_cons]
          split
          · rw [ih, firstLines]
          · rfl

/-- The items of the first lines. -/
theorem itemsFrom_firstLines (number k : Nat) (bytes : List UInt8) :
    Line.itemsFrom number ((firstLines k bytes).splitOn lineFeed) =
      Line.itemsFrom number ((bytes.splitOn lineFeed).take k) := by
  -- Without lines there is one empty line, and it gives nothing.
  have none (number : Nat) (bytes : List UInt8) :
      Line.itemsFrom number ((firstLines 0 bytes).splitOn lineFeed) = [] := by
    rw [firstLines_zero]
    rfl
  induction bytes using lines_induction generalizing number k with
  | last line free =>
      cases k with
      | zero => exact none number line
      | succ k =>
          rw [firstLines_last free, List.splitOn_eq_singleton free, List.take_succ_cons,
            List.take_nil]
  | more line rest free ih =>
      cases k with
      | zero => exact none number _
      | succ k =>
          rw [firstLines_append free, List.splitOn_append_cons_self_of_not_mem free,
            List.splitOn_append_cons_self_of_not_mem free, List.take_succ_cons, Line.itemsFrom,
            Line.itemsFrom]
          simp only [ih]

theorem items_eq_itemsFrom (bytes : List UInt8) : items bytes = Line.itemsFrom 1 (lines bytes) :=
  drain_lines 1 _

theorem items_firstLines (k : Nat) (bytes : List UInt8) :
    items (firstLines k bytes) = Line.itemsFrom 1 ((lines bytes).take k) := by
  rw [items_eq_itemsFrom, lines, takeWhile_firstLines, itemsFrom_firstLines, lines]

/-! ## Errors -/

theorem location_of_next? {number : Nat} {line rest : List UInt8} {e : Error}
    (h : Line.next? number line rest = .error e) : e.location.line = number := by
  rw [Line.next?] at h
  split at h
  · cases h; rfl
  · cases h; rfl
  · cases h

theorem location_of_afterKey {number : Nat} {line key rest : List UInt8} {e : Error}
    (h : Line.afterKey number line key rest = .error e) : e.location.line = number := by
  rw [Line.afterKey] at h
  simp only [bind, Except.bind, pure, Except.pure, Line.throw_eq_error] at h
  split at h
  · next unread => cases h; exact location_of_next? unread
  split at h
  · cases h; rfl
  split at h
  · next unread => cases h; exact location_of_next? unread
  split at h
  · cases h; rfl
  split at h
  · next unread => cases h; exact location_of_next? unread
  split at h
  · cases h; rfl
  · cases h

/-- The error of a line is on that line. -/
theorem location_of_read {number : Nat} {line : List UInt8} {e : Error}
    (h : Line.read number line = .error e) : e.location.line = number := by
  rw [Line.read] at h
  simp only [bind, Except.bind, pure, Except.pure, Line.throw_eq_error] at h
  split at h
  · next unread => cases h; exact location_of_next? unread
  split at h
  · cases h
  · split at h
    · next first _ _ _ _ _ =>
      cases after : Line.afterKey number line _ first.after with
      | error e' =>
        rw [after] at h
        cases h
        exact location_of_afterKey after
      | ok entry =>
        rw [after] at h
        cases h
    · cases h; rfl
  · cases h; rfl

/-! ## What lines give -/

/-- What lines from `number` on give: the entries before the first malformed line, and the
error of that line. -/
inductive Gives : Nat → List (List UInt8) → List Entry → Option Error → Prop
  | done (number : Nat) : Gives number [] [] none
  | malformed {number : Nat} {line : List UInt8} {rest : List (List UInt8)} {e : Error} :
      Line.read number line = .error e → Gives number (line :: rest) [] (some e)
  | blank {number : Nat} {line : List UInt8} {rest : List (List UInt8)} {es : List Entry}
      {error : Option Error} : Line.read number line = .ok none →
        Gives (number + 1) rest es error → Gives number (line :: rest) es error
  | entry {number : Nat} {line : List UInt8} {rest : List (List UInt8)} {e : Entry}
      {es : List Entry} {error : Option Error} : Line.read number line = .ok (some e) →
        Gives (number + 1) rest es error → Gives number (line :: rest) (e :: es) error

theorem exists_gives (number : Nat) (ls : List (List UInt8)) :
    ∃ es error, Gives number ls es error := by
  fun_induction Line.itemsFrom number ls with
  | case1 number => exact ⟨[], none, .done number⟩
  | case2 number line rest e malformed => exact ⟨[], some e, .malformed malformed⟩
  | case3 number line rest blank ih =>
      obtain ⟨es, error, gives⟩ := ih
      exact ⟨es, error, .blank blank gives⟩
  | case4 number line rest e entry ih =>
      obtain ⟨es, error, gives⟩ := ih
      exact ⟨e :: es, error, .entry entry gives⟩

namespace Gives

variable {number : Nat} {ls more : List (List UInt8)} {es fs : List Entry} {error : Option Error}

theorem itemsFrom_eq (h : Gives number ls es error) :
    Line.itemsFrom number ls = es.map .ok ++ error.toList.map .error := by
  induction h with
  | done number => rfl
  | malformed malformed => rw [Line.itemsFrom, malformed]; rfl
  | blank blank _ ih => rw [Line.itemsFrom, blank]; exact ih
  | entry entry _ ih => rw [Line.itemsFrom, entry]; exact congrArg (_ :: ·) ih

/-- Lines that are not malformed go on with what is behind them. -/
theorem append (h : Gives number ls es none) (behind : Gives (number + ls.length) more fs error) :
    Gives number (ls ++ more) (es ++ fs) error := by
  generalize whole : none = e at h
  induction h with
  | done number => exact behind
  | malformed malformed => cases whole
  | blank blank _ ih =>
      rw [List.length_cons, Nat.add_comm _ 1, ← Nat.add_assoc] at behind
      exact .blank blank (ih behind whole)
  | entry entry _ ih =>
      rw [List.length_cons, Nat.add_comm _ 1, ← Nat.add_assoc] at behind
      exact .entry entry (ih behind whole)

/-- Nothing counts behind a malformed line. -/
theorem append_malformed {e : Error} (h : Gives number ls es (some e))
    (more : List (List UInt8)) : Gives number (ls ++ more) es (some e) := by
  generalize stops : some e = error at h
  induction h with
  | done number => cases stops
  | malformed malformed => exact .malformed malformed
  | blank blank _ ih => exact .blank blank (ih stops)
  | entry entry _ ih => exact .entry entry (ih stops)

/-- The lines before the malformed one give the same entries and no error. -/
theorem before_error {e : Error} (h : Gives number ls es (some e)) :
    number ≤ e.location.line ∧ Gives number (ls.take (e.location.line - number)) es none := by
  have step {number : Nat} {line : List UInt8} {rest : List (List UInt8)}
      (later : number + 1 ≤ e.location.line) :
      (line :: rest).take (e.location.line - number) =
        line :: rest.take (e.location.line - (number + 1)) := by
    have next : e.location.line - number = e.location.line - (number + 1) + 1 := by omega
    rw [next, List.take_succ_cons]
  generalize stops : some e = error at h
  induction h with
  | done number => cases stops
  | @malformed number line rest e' malformed =>
      cases stops
      have here := location_of_read malformed
      rw [here, Nat.sub_self]
      exact ⟨Nat.le_refl number, .done number⟩
  | blank blank _ ih =>
      obtain ⟨later, gives⟩ := ih stops
      rw [step later]
      exact ⟨Nat.le_of_succ_le later, .blank blank gives⟩
  | entry entry _ ih =>
      obtain ⟨later, gives⟩ := ih stops
      rw [step later]
      exact ⟨Nat.le_of_succ_le later, .entry entry gives⟩

/-- Each entry stands on a line. -/
theorem exists_line (h : Gives number ls es error) :
    ∀ e ∈ es, ∃ n, ∃ line ∈ ls, Line.read n line = .ok (some e) := by
  induction h with
  | done number => exact List.forall_mem_nil _
  | malformed malformed => exact List.forall_mem_nil _
  | blank blank _ ih =>
      intro e he
      obtain ⟨n, line, mem, read⟩ := ih e he
      exact ⟨n, line, List.mem_cons_of_mem _ mem, read⟩
  | @entry number line rest e es error entry _ ih =>
      rw [List.forall_mem_cons]
      refine ⟨⟨number, line, List.mem_cons_self, entry⟩, fun f hf => ?_⟩
      obtain ⟨n, line, mem, read⟩ := ih f hf
      exact ⟨n, line, List.mem_cons_of_mem _ mem, read⟩

end Gives

/-! ## Entries and the error of a file -/

/-- The entries of a file before its first malformed line. -/
def entries (bytes : List UInt8) : List Entry := (items bytes).filterMap Except.toOption

/-- The error that an item is. -/
def itemError? : Item → Option Error
  | .error e => some e
  | .ok _ => none

/-- The error of the first malformed line of a file. -/
def error? (bytes : List UInt8) : Option Error := (items bytes).findSome? itemError?

/-- A file whose items are those of some lines has their entries and their error. -/
theorem Gives.entries_eq {ls : List (List UInt8)} {es : List Entry} {error : Option Error}
    {bytes : List UInt8} (h : Gives 1 ls es error) (same : items bytes = Line.itemsFrom 1 ls) :
    entries bytes = es ∧ error? bytes = error := by
  rw [entries, error?, same, h.itemsFrom_eq]
  have entries : (es.map Except.ok : List Item).filterMap Except.toOption = es := by
    rw [List.filterMap_map]
    exact List.filterMap_some
  have none : (es.map Except.ok : List Item).findSome? itemError? = none :=
    List.findSome?_eq_none_iff.mpr fun item h => by
      obtain ⟨e, -, rfl⟩ := List.mem_map.mp h
      rfl
  rw [List.filterMap_append, entries, List.findSome?_append, none]
  cases error with
  | none => exact ⟨List.append_nil es, rfl⟩
  | some e => exact ⟨List.append_nil es, rfl⟩

/-- Lines that give the items of a file give its entries and its error. -/
theorem gives_of_items {ls : List (List UInt8)} {bytes : List UInt8}
    (same : items bytes = Line.itemsFrom 1 ls) : Gives 1 ls (entries bytes) (error? bytes) := by
  obtain ⟨es, error, gives⟩ := exists_gives 1 ls
  obtain ⟨rfl, rfl⟩ := gives.entries_eq same
  exact gives

/-- The lines of a file give its entries and its error. -/
theorem gives_lines (bytes : List UInt8) :
    Gives 1 (lines bytes) (entries bytes) (error? bytes) :=
  gives_of_items (items_eq_itemsFrom bytes)

/-- The items of a file are its entries and then its error. -/
theorem items_eq (bytes : List UInt8) :
    items bytes = (entries bytes).map .ok ++ (error? bytes).toList.map .error := by
  rw [items_eq_itemsFrom]
  exact (gives_lines bytes).itemsFrom_eq

/-- The part of a file before its malformed line has the same entries and no error. -/
theorem entries_before_error {bytes : List UInt8} {e : Error} (h : error? bytes = some e) :
    entries (firstLines (e.location.line - 1) bytes) = entries bytes ∧
      error? (firstLines (e.location.line - 1) bytes) = none := by
  have gives := gives_lines bytes
  rw [h] at gives
  exact gives.before_error.2.entries_eq (items_firstLines _ bytes)

end FirmwareVars.Ini
