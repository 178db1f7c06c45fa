import FirmwareVars.Ini.Writer
import FirmwareVars.Proofs.Hex
import FirmwareVars.Proofs.Ini.Files

/-!
# Entries in any layout

There are many ways to write a file with the same entries (`WritesFile`).  A value stands in
quotes or, if it is a word, without them.  There may be blanks around every part of a line, a
comment at its end, and lines without an entry anywhere.  A carriage return is a blank, so
lines may end with one.  The last line needs no line feed, and a NUL byte hides all that
comes after it.

From each of these files the entries are read back as they were, and no file gives an entry
that could not be written.  So the entries of any file can be written anew
(`items_of_layout`).
-/

namespace FirmwareVars.Ini

/-! ## Layouts -/

/-- Whether bytes are all passed over between the parts of a line. -/
def Blanks (bytes : List UInt8) : Prop := ∀ b ∈ bytes, isBlank b

instance (bytes : List UInt8) : Decidable (Blanks bytes) :=
  inferInstanceAs (Decidable (∀ b ∈ bytes, isBlank b))

/-- Whether bytes may end a line: there are none, or they are a comment. -/
inductive EndOfLine : List UInt8 → Prop
  | nothing : EndOfLine []
  | comment {text : List UInt8} : lineFeed ∉ text → 0 ∉ text → EndOfLine (hashMark :: text)

/-- Whether a text stands for a value. -/
inductive WritesValue : List UInt8 → List UInt8 → Prop
  | quoted (value : List UInt8) : WritesValue value (quoteMark :: value ++ [quoteMark])
  | bare {value : List UInt8} : value ≠ [] → (∀ b ∈ value, isLiteral b) → WritesValue value value

/-- Whether a line holds an entry, or none. -/
inductive WritesLine : Option Entry → List UInt8 → Prop
  | blank {blanks stop : List UInt8} : Blanks blanks → EndOfLine stop →
      WritesLine none (blanks ++ stop)
  | entry {e : Entry} {before sign after text blanks stop : List UInt8} : Blanks before →
      Blanks sign → Blanks after → WritesValue e.value text → Blanks blanks → EndOfLine stop →
        WritesLine (some e)
          (before ++ (e.key ++ (sign ++ equalsSign :: (after ++ (text ++ (blanks ++ stop))))))

/-- Whether lines hold these entries one after another. -/
inductive WritesLines : List Entry → List (List UInt8) → Prop
  | done : WritesLines [] []
  | line {e : Option Entry} {es : List Entry} {line : List UInt8} {lines : List (List UInt8)} :
      WritesLine e line → WritesLines es lines → WritesLines (e.toList ++ es) (line :: lines)

/-- Whether a file has these entries: its lines hold them, or it does up to a NUL byte. -/
inductive WritesFile (es : List Entry) : List UInt8 → Prop
  | whole {lines : List (List UInt8)} : WritesLines es lines →
      WritesFile es ([lineFeed].intercalate lines)
  | filled {lines : List (List UInt8)} (rest : List UInt8) : WritesLines es lines →
      WritesFile es ([lineFeed].intercalate lines ++ 0 :: rest)

/-! ## Bytes -/

/-- A byte of a word is no blank, no mark and no end. -/
theorem isLiteral_plain : ∀ b, isLiteral b → isBlank b = false ∧ b ≠ hashMark ∧
    b ≠ equalsSign ∧ b ≠ quoteMark ∧ b ≠ lineFeed ∧ b ≠ 0 := by
  apply Hex.forall_byte
  decide +kernel

/-- Whether no word goes on with these bytes. -/
def EndsWord (rest : List UInt8) : Prop := ∀ b, rest.head? = some b → isLiteral b = false

theorem Blanks.endsWord {blanks rest : List UInt8} (h : Blanks blanks) (ends : EndsWord rest) :
    EndsWord (blanks ++ rest) := by
  cases blanks with
  | nil => exact ends
  | cons b more =>
      intro c hc
      obtain rfl : b = c := by simpa using hc
      have blank := h b List.mem_cons_self
      by_contra literal
      rw [Bool.not_eq_false] at literal
      rw [(isLiteral_plain b literal).1] at blank
      cases blank

theorem endsWord_dropWhile (rest : List UInt8) : EndsWord (rest.dropWhile isLiteral) := by
  intro b hb
  have stops := List.head?_dropWhile_not isLiteral rest
  rw [hb] at stops
  exact stops

theorem EndOfLine.endsWord {stop : List UInt8} (h : EndOfLine stop) : EndsWord stop := by
  intro b hb
  cases h with
  | nothing => cases hb
  | comment => cases hb; rfl

/-! ## Pieces -/

namespace Line

theorem next_blanks {blanks : List UInt8} (h : Blanks blanks) (rest : List UInt8) :
    next (blanks ++ rest) = next rest := by
  rw [next, List.dropWhile_append_of_pos h, ← next]

theorem next_stop {stop : List UInt8} (h : EndOfLine stop) : next stop = ⟨.stop, [], []⟩ := by
  cases h with
  | nothing => rfl
  | comment => rfl

theorem next_assign (rest : List UInt8) :
    next (equalsSign :: rest) = ⟨.assign, equalsSign :: rest, rest⟩ := rfl

/-- A word ends where no byte of a word follows. -/
theorem word_append {word rest : List UInt8} (literal : ∀ b ∈ word, isLiteral b)
    (ends : EndsWord rest) :
    (word ++ rest).takeWhile isLiteral = word ∧ (word ++ rest).dropWhile isLiteral = rest := by
  rw [List.takeWhile_append_of_pos literal, List.dropWhile_append_of_pos literal]
  cases rest with
  | nil => exact ⟨List.append_nil word, rfl⟩
  | cons b rest =>
      have stops : ¬ isLiteral b := by simp [ends b rfl]
      rw [List.takeWhile_cons_of_neg stops, List.dropWhile_cons_of_neg stops, List.append_nil]
      exact ⟨rfl, rfl⟩

theorem next_literal {word rest : List UInt8} (ne_nil : word ≠ [])
    (literal : ∀ b ∈ word, isLiteral b) (ends : EndsWord rest) :
    next (word ++ rest) = ⟨.literal word, word ++ rest, rest⟩ := by
  cases word with
  | nil => exact absurd rfl ne_nil
  | cons b word =>
      rw [List.forall_mem_cons] at literal
      obtain ⟨blank, hash, assign, quote, -⟩ := isLiteral_plain b literal.1
      obtain ⟨taken, left⟩ := word_append literal.2 ends
      rw [next, List.cons_append, List.dropWhile_cons_of_neg (by simp [blank])]
      simp only [if_neg hash, if_neg assign, if_neg quote, if_pos literal.1, taken, left]

theorem next_quoted {value : List UInt8} (free : quoteMark ∉ value) (rest : List UInt8) :
    next (quoteMark :: value ++ [quoteMark] ++ rest) =
      ⟨.quoted value, quoteMark :: value ++ [quoteMark] ++ rest, rest⟩ := by
  have inside : ∀ b ∈ value, decide (b ≠ quoteMark) = true := fun b hb =>
    decide_eq_true fun same => free (same ▸ hb)
  have taken : (value ++ quoteMark :: rest).takeWhile (· ≠ quoteMark) = value := by
    rw [List.takeWhile_append_of_pos inside]
    simp
  have left : (value ++ quoteMark :: rest).dropWhile (· ≠ quoteMark) = quoteMark :: rest := by
    rw [List.dropWhile_append_of_pos inside]
    simp
  have plain : isBlank quoteMark = false ∧ quoteMark ≠ hashMark ∧ quoteMark ≠ equalsSign := by
    decide
  have joined : quoteMark :: value ++ [quoteMark] ++ rest =
      quoteMark :: (value ++ quoteMark :: rest) := by simp
  rw [joined, next, List.dropWhile_cons_of_neg (by simp [plain.1])]
  simp only [if_neg plain.2.1, if_neg plain.2.2, if_true, taken, left]

/-- A value and then what cannot go on with it. -/
theorem next_value {value text rest : List UInt8} (h : WritesValue value text)
    (free : quoteMark ∉ value) (ends : EndsWord rest) :
    (next (text ++ rest)).piece.value? = some value ∧ (next (text ++ rest)).after = rest := by
  cases h with
  | quoted => rw [next_quoted free rest]; exact ⟨rfl, rfl⟩
  | bare ne_nil literal => rw [next_literal ne_nil literal ends]; exact ⟨rfl, rfl⟩

/-- What a line starts with, and what is left of it then. -/
inductive Starts : List UInt8 → Piece → List UInt8 → Prop
  | blank {b : UInt8} {rest after : List UInt8} {piece : Piece} : isBlank b →
      Starts rest piece after → Starts (b :: rest) piece after
  | assign (after : List UInt8) : Starts (equalsSign :: after) .assign after
  | literal {word after : List UInt8} : word ≠ [] → (∀ b ∈ word, isLiteral b) →
      EndsWord after → Starts (word ++ after) (.literal word) after
  | quoted {value : List UInt8} (after : List UInt8) : quoteMark ∉ value →
      Starts (quoteMark :: value ++ [quoteMark] ++ after) (.quoted value) after

section Starts

variable {rest after : List UInt8} {piece : Piece}

theorem next_cons {b : UInt8} (h : isBlank b) (rest : List UInt8) :
    next (b :: rest) = next rest :=
  next_blanks (List.forall_mem_singleton.mpr h) rest

theorem starts_word {b : UInt8} (h : isLiteral b) (rest : List UInt8) :
    Starts (b :: rest) (.literal (b :: rest.takeWhile isLiteral)) (rest.dropWhile isLiteral) := by
  have written := Starts.literal (List.cons_ne_nil b (rest.takeWhile isLiteral))
    (List.forall_mem_cons.mpr ⟨h, fun c hc => List.mem_takeWhile_imp hc⟩)
    (endsWord_dropWhile rest)
  rwa [List.cons_append, List.takeWhile_append_dropWhile] at written

theorem starts_quote {c : UInt8} (h : rest.dropWhile (· ≠ quoteMark) = c :: after) :
    Starts (quoteMark :: rest) (.quoted (rest.takeWhile (· ≠ quoteMark))) after := by
  have free : quoteMark ∉ rest.takeWhile (· ≠ quoteMark) := by
    intro mem
    have := List.mem_takeWhile_imp mem
    simp at this
  have joined := List.takeWhile_append_dropWhile (p := (· ≠ quoteMark)) (l := rest)
  rw [h, head?_dropWhile_quote h] at joined
  have written := Starts.quoted after free
  rwa [List.cons_append, List.cons_append, List.append_assoc, List.singleton_append,
    joined] at written

/-- What can be read at the start of a line is what the line starts with. -/
theorem starts_next (rest : List UInt8) :
    (next rest).piece ∈ [.stop, .unclosed, .stray] ∨
      Starts rest (next rest).piece (next rest).after := by
  induction rest with
  | nil => exact Or.inl (by decide)
  | cons b rest ih =>
      by_cases blank : isBlank b
      · rw [next_cons blank]
        exact ih.imp id (.blank blank)
      rw [next, List.dropWhile_cons_of_neg blank]
      simp only
      split
      · exact Or.inl (by simp)
      split
      · next assign =>
        subst assign
        exact Or.inr (.assign rest)
      split
      · next quote =>
        subst quote
        split
        · exact Or.inl (by simp)
        · next left => exact Or.inr (starts_quote left)
      split
      · next literal => exact Or.inr (starts_word literal rest)
      · exact Or.inl (by simp)

theorem Starts.next_eq (h : Starts rest piece after) :
    (next rest).piece = piece ∧ (next rest).after = after := by
  induction h with
  | blank blank _ ih => rw [next_cons blank]; exact ih
  | assign after => exact ⟨rfl, rfl⟩
  | literal ne_nil literal ends => rw [next_literal ne_nil literal ends]; exact ⟨rfl, rfl⟩
  | quoted after free => rw [next_quoted free]; exact ⟨rfl, rfl⟩

/-- A value is a part of the line, and no quote stands in it. -/
theorem Starts.value {bytes : List UInt8} (h : Starts rest piece after)
    (value : piece.value? = some bytes) : quoteMark ∉ bytes ∧ bytes ⊆ rest := by
  induction h with
  | blank _ _ ih =>
      obtain ⟨free, subset⟩ := ih value
      exact ⟨free, List.subset_cons_of_subset _ subset⟩
  | assign after => cases value
  | literal _ literal _ =>
      cases value
      exact ⟨fun quote => (isLiteral_plain _ (literal _ quote)).2.2.2.1 rfl,
        List.subset_append_left _ _⟩
  | quoted after free =>
      cases value
      rw [List.append_assoc]
      exact ⟨free, List.subset_cons_of_subset _ (List.subset_append_left _ _)⟩

theorem Starts.isLiteral {word : List UInt8} (h : Starts rest (.literal word) after) :
    ∀ b ∈ word, Ini.isLiteral b := by
  generalize same : Piece.literal word = piece at h
  induction h with
  | blank _ _ ih => exact ih same
  | assign after => cases same
  | literal _ literal _ => cases same; exact literal
  | quoted after _ => cases same

theorem starts_of_value {bytes : List UInt8} (h : (next rest).piece.value? = some bytes) :
    Starts rest (next rest).piece (next rest).after := by
  refine (starts_next rest).resolve_left fun other => ?_
  simp only [List.mem_cons, List.not_mem_nil, or_false] at other
  rcases other with other | other | other <;> · rw [other] at h; cases h

end Starts

/-! ## Lines -/

variable {number : Nat} {line rest key : List UInt8}

/-- A piece is read unless it is one that cannot be. -/
theorem next?_eq (h : (next rest).piece ≠ .unclosed ∧ (next rest).piece ≠ .stray) :
    next? number line rest = .ok (next rest) := by
  rw [next?]
  split
  · next unclosed => exact absurd unclosed h.1
  · next stray => exact absurd stray h.2
  · rfl

/-- After a key come an equals sign, a value and the end of the line. -/
theorem afterKey_eq_ok_iff {e : Entry} :
    afterKey number line key rest = .ok e ↔
      (next rest).piece = .assign ∧
      (next (next rest).after).piece.value? = some e.value ∧
      (next (next (next rest).after).after).piece = .stop ∧ e.key = key := by
  constructor
  · intro h
    rw [afterKey] at h
    simp only [bind, Except.bind, pure, Except.pure, throw_eq_error] at h
    split at h
    · cases h
    next sign first =>
    obtain rfl := eq_next_of_next? first
    split at h
    · cases h
    next assign =>
    split at h
    · cases h
    next value second =>
    obtain rfl := eq_next_of_next? second
    split at h
    · cases h
    next bytes read =>
    split at h
    · cases h
    next stop third =>
    obtain rfl := eq_next_of_next? third
    split at h
    · cases h
    next last =>
    cases h
    exact ⟨not_not.mp assign, read, not_not.mp last, rfl⟩
  · rintro ⟨assign, value, stop, rfl⟩
    have second : (next (next rest).after).piece ≠ .unclosed ∧
        (next (next rest).after).piece ≠ .stray := by
      constructor
      · intro same; rw [same] at value; cases value
      · intro same; rw [same] at value; cases value
    have third : (next (next (next rest).after).after).piece ≠ .unclosed ∧
        (next (next (next rest).after).after).piece ≠ .stray := by simp [stop]
    rw [afterKey, next?_eq (by simp [assign])]
    simp only [bind, Except.bind, assign, next?_eq second, value, next?_eq third, stop]
    rfl

/-- What a line gives that starts with a key. -/
theorem read_of_key (piece : (next line).piece = .literal key) (letter : key.head?.any isLetter) :
    read number line = some <$> afterKey number line key (next line).after := by
  rw [read, next?_eq (by simp [piece])]
  simp only [bind, Except.bind, piece, letter, if_true]

theorem read_eq_some_iff {e : Entry} :
    read number line = .ok (some e) ↔
      (next line).piece = .literal e.key ∧ e.key.head?.any isLetter ∧
        afterKey number line e.key (next line).after = .ok e := by
  constructor
  · intro h
    rw [read] at h
    simp only [bind, Except.bind, pure, Except.pure, throw_eq_error] at h
    split at h
    · cases h
    next first found =>
    obtain rfl := eq_next_of_next? found
    split at h
    · cases h
    · next key piece =>
      split at h
      · next letter =>
        cases after : afterKey number line key (next line).after with
        | error error => rw [after] at h; cases h
        | ok entry =>
            rw [after] at h
            cases h
            obtain rfl := (afterKey_eq_ok_iff.mp after).2.2.2
            exact ⟨piece, letter, after⟩
      · cases h
    · cases h
  · rintro ⟨piece, letter, after⟩
    rw [read_of_key piece letter, after]
    rfl

theorem read_eq_none (h : (next line).piece = .stop) : read number line = .ok none := by
  rw [read, next?_eq (by simp [h])]
  simp only [bind, Except.bind, h]
  rfl

/-- A line that is written is read as what it holds. -/
theorem read_of_writesLine {e : Option Entry} (writable : ∀ f, e = some f → f.Writable)
    (h : WritesLine e line) : read number line = .ok e := by
  cases h with
  | blank blanks stop =>
      apply read_eq_none
      rw [next_blanks blanks, next_stop stop]
  | @entry e before sign after text blanks stop blankBefore blankSign blankAfter value blankStop
      ends =>
      obtain ⟨letter, literal, free⟩ := writable e rfl
      have ne_nil : e.key ≠ [] := by
        intro empty
        rw [empty] at letter
        cases letter
      have quote : quoteMark ∉ e.value := fun mem => (free _ mem).1 rfl
      have assign (rest : List UInt8) : EndsWord (equalsSign :: rest) := by
        rintro b ⟨⟩
        rfl
      obtain ⟨read, left⟩ := next_value value quote (blankStop.endsWord ends.endsWord)
      rw [read_eq_some_iff, afterKey_eq_ok_iff, next_blanks blankBefore,
        next_literal ne_nil literal (blankSign.endsWord (assign _)), next_blanks blankSign,
        next_assign, next_blanks blankAfter, left, next_blanks blankStop, next_stop ends]
      exact ⟨rfl, letter, rfl, read, rfl, rfl⟩

/-- An entry that a line gives could be written. -/
theorem writable_of_read {e : Entry} (free : lineFeed ∉ line ∧ 0 ∉ line)
    (h : read number line = .ok (some e)) : e.Writable := by
  obtain ⟨piece, letter, after⟩ := read_eq_some_iff.mp h
  obtain ⟨-, value, -, -⟩ := afterKey_eq_ok_iff.mp after
  have word : (next line).piece.value? = some e.key := by
    rw [piece]
    rfl
  have key := starts_of_value word
  rw [piece] at key
  obtain ⟨quote, subset⟩ := (starts_of_value value).value value
  have onLine : e.value ⊆ line := fun b hb =>
    (next_after_suffix line).subset ((next_after_suffix _).subset (subset hb))
  refine ⟨letter, key.isLiteral, fun b hb => ⟨?_, ?_, ?_⟩⟩
  · rintro rfl; exact quote hb
  · rintro rfl; exact free.1 (onLine hb)
  · rintro rfl; exact free.2 (onLine hb)

end Line

/-! ## Files -/

theorem gives_of_writesLines {es : List Entry} {ls : List (List UInt8)} (h : WritesLines es ls)
    (writable : ∀ e ∈ es, e.Writable) (number : Nat) : Gives number ls es none := by
  induction h generalizing number with
  | done => exact .done number
  | @line e es line lines writes _ ih =>
      rw [List.forall_mem_append] at writable
      have read : Line.read number line = .ok e :=
        Line.read_of_writesLine (fun f hf => writable.1 f (by simp [hf])) writes
      have later := ih writable.2 (number + 1)
      cases e with
      | none => exact .blank read later
      | some e => exact .entry read later

/-! ### Joined lines -/

/-- Whether bytes stay on a line. -/
def OnLine (bytes : List UInt8) : Prop := ∀ b ∈ bytes, b ≠ lineFeed ∧ b ≠ 0

theorem OnLine.append {bytes more : List UInt8} (h : OnLine bytes) (hm : OnLine more) :
    OnLine (bytes ++ more) :=
  List.forall_mem_append.mpr ⟨h, hm⟩

theorem OnLine.not_mem {bytes : List UInt8} (h : OnLine bytes) : lineFeed ∉ bytes ∧ 0 ∉ bytes :=
  ⟨fun mem => (h _ mem).1 rfl, fun mem => (h _ mem).2 rfl⟩

theorem onLine_word {word : List UInt8} (literal : ∀ b ∈ word, isLiteral b) : OnLine word :=
  fun b hb => (isLiteral_plain b (literal b hb)).2.2.2.2

theorem Blanks.onLine {blanks : List UInt8} (h : Blanks blanks) : OnLine blanks := by
  intro b hb
  have blank := h b hb
  constructor
  · rintro rfl; cases blank
  · rintro rfl; cases blank

theorem EndOfLine.onLine {stop : List UInt8} (h : EndOfLine stop) : OnLine stop := by
  cases h with
  | nothing => exact List.forall_mem_nil _
  | comment free zero =>
      exact List.forall_mem_cons.mpr
        ⟨by decide, fun b hb => ⟨fun same => free (same ▸ hb), fun same => zero (same ▸ hb)⟩⟩

theorem WritesValue.onLine {value text : List UInt8} (h : WritesValue value text)
    (free : OnLine value) : OnLine text := by
  have mark : OnLine [quoteMark] := List.forall_mem_singleton.mpr (by decide)
  cases h with
  | quoted => exact (mark.append free).append mark
  | bare _ literal => exact free

theorem WritesLine.onLine {e : Option Entry} {line : List UInt8} (h : WritesLine e line)
    (writable : ∀ f, e = some f → f.Writable) : OnLine line := by
  have sign : OnLine [equalsSign] := List.forall_mem_singleton.mpr (by decide)
  cases h with
  | blank blanks stop => exact blanks.onLine.append stop.onLine
  | @entry e before beforeSign after text blanks stop blankBefore blankSign blankAfter value
      blankStop ends =>
      obtain ⟨-, literal, free⟩ := writable e rfl
      have written := value.onLine fun b hb => (free b hb).2
      have behind := blankAfter.onLine.append (written.append (blankStop.onLine.append ends.onLine))
      exact blankBefore.onLine.append ((onLine_word literal).append
        (blankSign.onLine.append (sign.append behind)))

theorem WritesLines.onLine {es : List Entry} {ls : List (List UInt8)} (h : WritesLines es ls)
    (writable : ∀ e ∈ es, e.Writable) : ∀ line ∈ ls, OnLine line := by
  induction h with
  | done => exact List.forall_mem_nil _
  | line written _ ih =>
      rw [List.forall_mem_append] at writable
      rw [List.forall_mem_cons]
      exact ⟨written.onLine fun f hf => writable.1 f (by simp [hf]), ih writable.2⟩

theorem zero_not_mem_intercalate {ls : List (List UInt8)} (h : ∀ line ∈ ls, OnLine line) :
    0 ∉ [lineFeed].intercalate ls := by
  induction ls with
  | nil => exact List.not_mem_nil
  | cons line ls ih =>
      rw [List.forall_mem_cons] at h
      cases ls with
      | nil =>
          rw [List.intercalate_singleton]
          exact h.1.not_mem.2
      | cons next ls =>
          rw [List.intercalate_cons_cons]
          simp only [List.mem_append, List.mem_singleton, not_or]
          exact ⟨⟨h.1.not_mem.2, by decide⟩, ih h.2⟩

/-- The items of a file that is put together from lines. -/
theorem items_intercalate {ls : List (List UInt8)} (onLine : ∀ line ∈ ls, OnLine line)
    {rest : List UInt8} (ends : rest.takeWhile (· ≠ 0) = []) :
    items ([lineFeed].intercalate ls ++ rest) = Line.itemsFrom 1 ls := by
  have zero := zero_not_mem_intercalate onLine
  have text : ([lineFeed].intercalate ls ++ rest).takeWhile (· ≠ 0) = [lineFeed].intercalate ls := by
    rw [List.takeWhile_append_of_pos, ends, List.append_nil]
    exact fun b hb => decide_eq_true fun same => zero (same ▸ hb)
  rw [items_eq_itemsFrom, lines, text]
  cases ls with
  | nil => rfl
  | cons line ls =>
      rw [List.splitOn_intercalate lineFeed (fun l hl => (onLine l hl).not_mem.1)
        (List.cons_ne_nil line ls)]

/-! ### There and back -/

/-- The entries are read back from every file that has them. -/
theorem items_of_writesFile {es : List Entry} {bytes : List UInt8} (h : WritesFile es bytes)
    (writable : ∀ e ∈ es, e.Writable) : items bytes = es.map .ok := by
  have read {ls : List (List UInt8)} (writes : WritesLines es ls) :
      Line.itemsFrom 1 ls = es.map .ok := by
    rw [(gives_of_writesLines writes writable 1).itemsFrom_eq]
    exact List.append_nil _
  cases h with
  | whole writes =>
      have ends : ([] : List UInt8).takeWhile (· ≠ 0) = [] := rfl
      have items := items_intercalate (writes.onLine writable) ends
      rw [List.append_nil] at items
      rw [items, read writes]
  | filled rest writes => rw [items_intercalate (writes.onLine writable) rfl, read writes]

/-- Every entry that a file gives could be written. -/
theorem writable_of_mem_entries (bytes : List UInt8) : ∀ e ∈ entries bytes, e.Writable := by
  intro e he
  obtain ⟨n, line, mem, read⟩ := (gives_lines bytes).exists_line e he
  exact Line.writable_of_read (not_mem_line mem) read

/-- The line of an entry with its value in quotes, without the line feed. -/
def Entry.quotedLine (e : Entry) : List UInt8 :=
  e.key ++ equalsSign :: quoteMark :: e.value ++ [quoteMark]

theorem intercalate_quotedLine (es : List Entry) :
    [lineFeed].intercalate (es.map Entry.quotedLine ++ [[]]) = write es := by
  induction es with
  | nil => rfl
  | cons e es ih =>
      rw [List.map_cons, List.cons_append, List.intercalate_cons_of_ne_nil (by simp), ih]
      simp [write, Entry.line, Entry.quotedLine]

theorem writesLines_quotedLine (es : List Entry) :
    WritesLines es (es.map Entry.quotedLine ++ [[]]) := by
  have blanks : Blanks [] := List.forall_mem_nil _
  induction es with
  | nil => exact .line (e := none) (.blank blanks .nothing) .done
  | cons e es ih =>
      have line : WritesLine (some e) e.quotedLine := by
        have written := WritesLine.entry blanks blanks blanks (.quoted e.value) blanks .nothing
        simpa [Entry.quotedLine] using written
      exact .line (e := some e) line ih

/-- Entries written one quoted value to a line are a layout. -/
theorem writesFile_write (es : List Entry) : WritesFile es (write es) := by
  rw [← intercalate_quotedLine]
  exact .whole (writesLines_quotedLine es)

/-- The entries of a file are read back from every layout, and without an error.  Every entry
that a file gives could be written, so the entries of any file are read back from a file with
one quoted value to a line. -/
theorem items_of_layout :
    (∀ es bytes, (∀ e ∈ es, e.Writable) → WritesFile es bytes → items bytes = es.map .ok) ∧
    ∀ bytes, (∀ e, .ok e ∈ items bytes → e.Writable) ∧
      items (write (entries bytes)) = (entries bytes).map .ok := by
  refine ⟨fun es bytes writable writes => items_of_writesFile writes writable, fun bytes => ?_⟩
  refine ⟨fun e mem => writable_of_mem_entries bytes e ?_, ?_⟩
  · exact List.mem_filterMap.mpr ⟨_, mem, rfl⟩
  · exact items_of_writesFile (writesFile_write _) (writable_of_mem_entries bytes)

/-- A comment, a quoted value with marks in it, lines that end with a carriage return, a bare
value on a line without an end, and more behind a NUL byte. -/
theorem items_of_layout_mixed :
    let log : Entry := ⟨Utf8.encode "log", Utf8.encode "a # = b"⟩
    let x : Entry := ⟨Utf8.encode "x.1", Utf8.encode "yes"⟩
    let bytes := Utf8.encode "# both\r\n\t log=\"a # = b\"# quoted\r\n\r\nx.1 = yes" ++ [0, 0x22]
    (∀ e ∈ [log, x], e.Writable) ∧ WritesFile [log, x] bytes ∧ items bytes = [.ok log, .ok x] ∧
      .ok x ∈ items bytes ∧ x.Writable := by
  intro log x bytes
  have writable : ∀ e ∈ [log, x], e.Writable := by decide +kernel
  have none : Blanks [] := List.forall_mem_nil _
  have space : Blanks (Utf8.encode " ") := by decide +kernel
  have tab : Blanks (Utf8.encode "\t ") := by decide +kernel
  have carriage : Blanks (Utf8.encode "\r") := by decide +kernel
  have comment (text : List UInt8) (free : ∀ b ∈ text, b ≠ lineFeed ∧ b ≠ 0) :
      EndOfLine (hashMark :: text) :=
    .comment (fun mem => (free _ mem).1 rfl) (fun mem => (free _ mem).2 rfl)
  have heading : WritesLine .none _ :=
    .blank none (comment (Utf8.encode " both\r") (by decide +kernel))
  have quoted : WritesLine (some log) _ :=
    .entry tab none none (.quoted log.value) none
      (comment (Utf8.encode " quoted\r") (by decide +kernel))
  have empty : WritesLine .none _ := .blank carriage .nothing
  have bare : WritesLine (some x) _ :=
    .entry none space space (.bare (by decide +kernel) (by decide +kernel)) none .nothing
  have written : WritesFile [log, x] bytes :=
    .filled [0x22] (.line heading (.line quoted (.line empty (.line bare .done))))
  have read := items_of_layout.1 [log, x] bytes writable written
  have mem : .ok x ∈ items bytes := by
    rw [read]
    exact List.mem_cons_of_mem _ List.mem_cons_self
  exact ⟨writable, written, read, mem, (items_of_layout.2 bytes).1 x mem⟩

end FirmwareVars.Ini
