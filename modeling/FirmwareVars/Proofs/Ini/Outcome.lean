import FirmwareVars.Ini.Scanner

/-!
# Outcomes of a scan

A head stands in a text if it is inside, at the line and the column that its position has
(`Head.Stands`).  From such a head a scan has to come to an end at another one (`Scan.Ends`).
There is a rule for each way to put scans together, and the one for loops asks for the end of a
single turn and of what is left (`ends_loop`).

The bytes at a head that stands are those of a cursor there (`Head.cursor`), and a step over one
of them keeps the head standing (`ends_advance`).
-/

namespace FirmwareVars.Ini

/-! ## Heads in a text -/

namespace Head

/-- Whether a head is in the text, at the place that its position has: one line further on for
each line feed before it, and one column for each byte since the last of them. -/
structure Stands (text : List UInt8) (h : Head) : Prop where
  pos_le : h.pos ≤ text.length
  line : h.location.line = 1 + (text.take h.pos).count lineFeed
  column : h.location.column =
    1 + ((text.take h.pos).reverse.takeWhile (· ≠ lineFeed)).length

/-- The cursor at a head: what is left of the text, and the place. -/
def cursor (text : List UInt8) (h : Head) : Cursor := ⟨text.drop h.pos, h.location⟩

/-- The head after a byte. -/
def after (h : Head) (b : UInt8) : Head := ⟨h.pos + 1, h.location.after b⟩

variable {text more : List UInt8} {h : Head} {b : UInt8}

theorem stands_start (text : List UInt8) : Stands text {} :=
  ⟨Nat.zero_le _, rfl, rfl⟩

theorem getElem?_of_drop_nil (rest : text.drop h.pos = []) : text[h.pos]? = none := by
  rw [← List.head?_drop, rest, List.head?_nil]

theorem getElem?_of_drop (rest : text.drop h.pos = b :: more) : text[h.pos]? = some b := by
  rw [← List.head?_drop, rest, List.head?_cons]

theorem cursor_after (rest : text.drop h.pos = b :: more) :
    (h.after b).cursor text = ⟨more, h.location.after b⟩ := by
  rw [cursor, after, ← List.tail_drop, rest, List.tail_cons]

theorem advance_cursor (rest : text.drop h.pos = b :: more) :
    (h.cursor text).advance = (h.after b).cursor text := by
  rw [cursor_after rest, cursor, rest]
  rfl

/-- A head that stands somewhere stands there after one more byte of the text. -/
theorem Stands.after (stands : h.Stands text) (rest : text.drop h.pos = b :: more) :
    (h.after b).Stands text := by
  have byte := getElem?_of_drop rest
  have before : text.take (h.pos + 1) = text.take h.pos ++ [b] := by
    rw [List.take_add_one, byte, Option.toList_some]
  refine ⟨?_, ?_, ?_⟩
  · obtain ⟨inside, -⟩ := List.getElem?_eq_some_iff.mp byte
    exact inside
  · rw [Head.after, before, List.count_append, Location.after]
    split
    next feed => simp [feed, stands.line, Nat.add_assoc]
    next same => simp [same, stands.line]
  · rw [Head.after, before, List.reverse_append, Location.after]
    split
    next feed => simp [feed]
    next same => simp [same, stands.column, Nat.add_assoc]

end Head

namespace Scan

open Head

variable {α β : Type} {text : List UInt8} {h : Head}

/-! ## Outcomes -/

/-- From `h` on the scan comes to an end.  The head then stands in the text, and what is said of
the result and the head holds of them. -/
def Ends (text : List UInt8) (x : Scan α) (h : Head) (post : Except Error α → Head → Prop) : Prop :=
  ∃ result last, x.run h = .some (result, last) ∧ last.Stands text ∧ post result last

theorem run_bind (x : Scan α) (f : α → Scan β) (h : Head) :
    (x >>= f).run h =
      (x.run h).bind fun
        | (.ok a, last) => (f a).run last
        | (.error e, last) => .some (.error e, last) := by
  rw [run, ExceptT.run_bind, StateT.run_bind, Part.bind_eq_bind, run]
  congr 1
  funext ⟨result, last⟩
  cases result with
  | error e => rfl
  | ok a => rfl

theorem run_liftM {x : StateT Head Part α} {a : α} {last : Head}
    (ran : x.run h = .some (a, last)) : (liftM x : Scan α).run h = .some (.ok a, last) := by
  have same : (liftM x : Scan α).run h =
      (x.run h).bind fun (a, last) => .some (.ok a, last) := rfl
  rw [same, ran, Part.bind_some]

theorem run_get (h : Head) : (get : Scan Head).run h = .some (.ok h, h) := run_liftM rfl

theorem run_set (h last : Head) : (set last : Scan Unit).run h = .some (.ok (), last) :=
  run_liftM rfl

theorem run_peek (text : List UInt8) (h : Head) :
    (peek text).run h = .some (.ok text[h.pos]?, h) := by
  rw [peek, run_bind, run_get, Part.bind_some]
  rfl

theorem ends_pure {post : Except Error α → Head → Prop} {a : α} (stands : h.Stands text)
    (holds : post (.ok a) h) : Ends text (pure a) h post :=
  ⟨.ok a, h, rfl, stands, holds⟩

theorem ends_throw {post : Except Error α → Head → Prop} {e : Error} (stands : h.Stands text)
    (holds : post (.error e) h) : Ends text (throw e) h post :=
  ⟨.error e, h, rfl, stands, holds⟩

/-- Less can be said of an outcome. -/
theorem Ends.mono {x : Scan α} {post post' : Except Error α → Head → Prop}
    (ends : Ends text x h post)
    (weaker : ∀ result last, post result last → post' result last) :
    Ends text x h post' := by
  obtain ⟨result, last, ran, stands, holds⟩ := ends
  exact ⟨result, last, ran, stands, weaker result last holds⟩

/-- After a step whose outcome is known the scan goes on with it. -/
theorem ends_run_bind {x : Scan α} {f : α → Scan β} {a : α} {last : Head}
    {post : Except Error β → Head → Prop} (ran : x.run h = .some (.ok a, last))
    (goesOn : Ends text (f a) last post) : Ends text (x >>= f) h post := by
  obtain ⟨result, final, ran', stands, holds⟩ := goesOn
  refine ⟨result, final, ?_, stands, holds⟩
  rw [run_bind, ran, Part.bind_some]
  exact ran'

/-- One scan after another: the second starts where the first has stopped, unless that failed. -/
theorem Ends.bind {x : Scan α} {f : α → Scan β} {mid : Except Error α → Head → Prop}
    {post : Except Error β → Head → Prop} (first : Ends text x h mid)
    (goesOn : ∀ a last, last.Stands text → mid (.ok a) last → Ends text (f a) last post)
    (stops : ∀ e last, mid (.error e) last → post (.error e) last) :
    Ends text (x >>= f) h post := by
  obtain ⟨result, last, ran, stands, holds⟩ := first
  cases result with
  | error e =>
    refine ⟨.error e, last, ?_, stands, stops e last holds⟩
    rw [run_bind, ran, Part.bind_some]
  | ok a => exact ends_run_bind ran (goesOn a last stands holds)

/-- After a scan that gives a value the next one goes on with that value. -/
theorem Ends.bind_ok {x : Scan α} {f : α → Scan β} {a : α} {reached : Head → Prop}
    {post : Except Error β → Head → Prop}
    (first : Ends text x h fun result last => result = .ok a ∧ reached last)
    (goesOn : ∀ last, last.Stands text → reached last → Ends text (f a) last post) :
    Ends text (x >>= f) h post := by
  refine first.bind ?_ ?_
  · rintro _ last there ⟨same, there'⟩
    cases same
    exact goesOn last there there'
  · rintro e _ ⟨failed, -⟩
    cases failed

theorem ends_get_bind {f : Head → Scan β} {post : Except Error β → Head → Prop}
    (goesOn : Ends text (f h) h post) : Ends text (get >>= f) h post :=
  ends_run_bind (run_get h) goesOn

theorem ends_peek_bind {f : Option UInt8 → Scan β} {post : Except Error β → Head → Prop}
    {byte : Option UInt8} (same : text[h.pos]? = byte) (goesOn : Ends text (f byte) h post) :
    Ends text (peek text >>= f) h post := by
  subst same
  exact ends_run_bind (run_peek text h) goesOn

/-- What is asked for is there. -/
theorem ends_ask_bind {o : Option α} {a : α} {f : α → Scan β}
    {post : Except Error β → Head → Prop} (found : o = some a) (goesOn : Ends text (f a) h post) :
    Ends text (ask o >>= f) h post := by
  subst found
  exact ends_run_bind rfl goesOn

/-- What a turn of a loop has to come to for the loop: what is said of it, or a head from which it
goes on to that. -/
def AfterTurn (text : List UInt8) (turn : Scan (Turn α)) (post : Except Error α → Head → Prop) :
    Except Error (Turn α) → Head → Prop
  | .ok .again, last => Ends text (loop turn) last post
  | .ok (.done a), last => post (.ok a) last
  | .error e, last => post (.error e) last

/-- A loop comes to an end if its first turn does, and what is left of it. -/
theorem ends_loop {turn : Scan (Turn α)} {post : Except Error α → Head → Prop}
    (first : Ends text turn h (AfterTurn text turn post)) : Ends text (loop turn) h post := by
  obtain ⟨result, last, ran, stands, holds⟩ := first
  rcases result with e | _ | a
  · refine ⟨.error e, last, Part.eq_some_iff.mpr (PFun.fix_stop ?_), stands, holds⟩
    rw [ran, Part.map_some]
    exact Part.mem_some _
  · obtain ⟨result, final, ran', stands', holds'⟩ := holds
    refine ⟨result, final, (PFun.fix_fwd_eq ?_).trans ran', stands', holds'⟩
    rw [ran, Part.map_some]
    exact Part.mem_some _
  · refine ⟨.ok a, last, Part.eq_some_iff.mpr (PFun.fix_stop ?_), stands, holds⟩
    rw [ran, Part.map_some]
    exact Part.mem_some _

/-! ## Bytes -/

/-- Over a byte of the text the head moves like a cursor. -/
theorem ends_advance {b : UInt8} {more : List UInt8} (stands : h.Stands text)
    (rest : text.drop h.pos = b :: more) :
    Ends text (advance text) h fun result last => result = .ok () ∧ last = h.after b := by
  rw [advance]
  apply ends_get_bind
  apply ends_peek_bind (getElem?_of_drop rest)
  refine ⟨.ok (), h.after b, ?_, stands.after rest, rfl, rfl⟩
  rw [Head.after, Location.after]
  by_cases feed : b = lineFeed
  · rw [if_pos (congrArg some feed), if_pos feed]
    exact run_set h _
  · rw [if_neg fun same => feed (Option.some.inj same), if_neg feed]
    exact run_set h _

end Scan

end FirmwareVars.Ini
