/-
Module: BscMempool.Codec.Csv
Layer: Codec
Purpose: Comma-separated records with a line feed after each.  A field with a comma, a quote or a
  line feed is put in quotes and its quotes are doubled; a strict reader of that format reads back
  what was written.
Trusted boundary: none
Main exports: IsPlain, quoteField, line, read, readRecords, readRecords_lines
-/
import BscMempool.Codec.Text

namespace BscMempool.Codec.Csv

abbrev Field := List Char

def isSpecial (c : Char) : Bool := c == ',' || c == '"' || c == '\n'

/-- A field that needs no quotes. -/
def IsPlain (s : Field) : Prop := s.any isSpecial = false

instance (s : Field) : Decidable (IsPlain s) :=
  inferInstanceAs (Decidable (s.any isSpecial = false))

theorem isPlain_cons {c : Char} {s : Field} :
    IsPlain (c :: s) ↔ (c ≠ ',' ∧ c ≠ '"' ∧ c ≠ '\n') ∧ IsPlain s := by
  simp [IsPlain, isSpecial, and_assoc]

theorem isSpecial_of_isWordChar {c : Char} (word : isWordChar c = true) : isSpecial c = false := by
  by_contra special
  simp only [isSpecial, Bool.not_eq_false, Bool.or_eq_true, beq_iff_eq] at special
  rcases special with (rfl | rfl) | rfl
  · exact absurd word (by decide)
  · exact absurd word (by decide)
  · exact absurd word (by decide)

theorem isPlain_of_isWord {s : Field} (word : IsWord s) : IsPlain s := by
  rw [IsPlain, List.any_eq_false]
  intro c member
  simp [isSpecial_of_isWordChar (word c member)]

/-! ### Writing -/

def doubleQuotes : Field → List Char
  | [] => []
  | c :: rest => if c = '"' then '"' :: '"' :: doubleQuotes rest else c :: doubleQuotes rest

/-- A field as it is written. -/
def quoteField (s : Field) : List Char :=
  if s.any isSpecial then '"' :: doubleQuotes s ++ ['"'] else s

theorem quoteField_of_isPlain {s : Field} (plain : IsPlain s) : quoteField s = s := by
  simp [quoteField, show s.any isSpecial = false from plain]

theorem quoteField_of_isWord {s : Field} (word : IsWord s) : quoteField s = s :=
  quoteField_of_isPlain (isPlain_of_isWord word)

/-- Written fields as a line. -/
def line (fields : List (List Char)) : List Char := [','].intercalate fields ++ ['\n']

@[simp] theorem line_singleton (f : List Char) : line [f] = f ++ ['\n'] := by simp [line]

@[simp] theorem line_cons_cons (f g : List Char) (rest : List (List Char)) :
    line (f :: g :: rest) = f ++ ',' :: line (g :: rest) := by
  simp [line, List.intercalate]

/-! ### Reading -/

/-- Where the reader is: before a field, in one without quotes, between quotes, behind a
quote that may close. -/
inductive Mode where
  | start
  | plain
  | quoted
  | closing
deriving DecidableEq, Repr

inductive Action where
  | skip (next : Mode)
  | put (next : Mode)
  | endField
  | endRecord
deriving DecidableEq, Repr

/-- What the reader does with a character; `none` where the format does not allow it. -/
def Mode.action : Mode → Char → Option Action
  | .quoted, c => if c = '"' then some (.skip .closing) else some (.put .quoted)
  | .closing, c =>
      if c = '"' then some (.put .quoted)
      else if c = ',' then some .endField
      else if c = '\n' then some .endRecord
      else none
  | .start, c =>
      if c = '"' then some (.skip .quoted)
      else if c = ',' then some .endField
      else if c = '\n' then some .endRecord
      else some (.put .plain)
  | .plain, c =>
      if c = '"' then none
      else if c = ',' then some .endField
      else if c = '\n' then some .endRecord
      else some (.put .plain)

/-- The end of the text: quotes must be closed, and the last line feed may be missing. -/
def Mode.finish : Mode → Field → List Field → Option (List (List Field))
  | .quoted, _, _ => none
  | .start, _, [] => some []
  | _, field, record => some [record ++ [field]]

/-- Read on, with the part of the field and the fields of the record that were read already. -/
def read : Mode → Field → List Field → List Char → Option (List (List Field))
  | mode, field, record, [] => mode.finish field record
  | mode, field, record, c :: rest =>
      match mode.action c with
      | none => none
      | some (.skip next) => read next field record rest
      | some (.put next) => read next (field ++ [c]) record rest
      | some .endField => read .start [] (record ++ [field]) rest
      | some .endRecord => (read .start [] [] rest).map ((record ++ [field]) :: ·)

def readRecords (text : List Char) : Option (List (List Field)) := read .start [] [] text

@[simp] theorem readRecords_nil : readRecords [] = some [] := rfl

/-! ### What is written is read -/

theorem read_comma {mode : Mode} (outside : mode ≠ .quoted) (field : Field) (record : List Field)
    (rest : List Char) :
    read mode field record (',' :: rest) = read .start [] (record ++ [field]) rest := by
  cases mode with
  | quoted => exact absurd rfl outside
  | start | plain | closing => rfl

theorem read_lineFeed {mode : Mode} (outside : mode ≠ .quoted) (field : Field) (record : List Field)
    (rest : List Char) :
    read mode field record ('\n' :: rest) = (readRecords rest).map ((record ++ [field]) :: ·) := by
  cases mode with
  | quoted => exact absurd rfl outside
  | start | plain | closing => rfl

/-- Between quotes everything is kept, and doubled quotes once. -/
theorem read_doubleQuotes (s field : Field) (record : List Field) (rest : List Char) :
    read .quoted field record (doubleQuotes s ++ '"' :: rest) =
      read .closing (field ++ s) record rest := by
  induction s generalizing field with
  | nil => simp [doubleQuotes, read, Mode.action]
  | cons c s ih =>
      by_cases quote : c = '"'
      · simp [doubleQuotes, quote, read, Mode.action, ih]
      · simp [doubleQuotes, quote, read, Mode.action, ih]

theorem read_plain {s : Field} (plain : IsPlain s) (field : Field) (record : List Field)
    (rest : List Char) :
    read .plain field record (s ++ rest) = read .plain (field ++ s) record rest := by
  induction s generalizing field with
  | nil => simp
  | cons c s ih =>
      rcases isPlain_cons.mp plain with ⟨notSpecial, tail⟩
      simp [read, Mode.action, notSpecial, ih tail]

/-- A written field is read up to its end. -/
theorem exists_read_quoteField (s : Field) (record : List Field) :
    ∃ mode, mode ≠ .quoted ∧ ∀ rest, read .start [] record (quoteField s ++ rest) =
      read mode s record rest := by
  by_cases plain : IsPlain s
  · rw [quoteField_of_isPlain plain]
    cases s with
    | nil => exact ⟨.start, by decide, fun rest => rfl⟩
    | cons c s =>
        rcases isPlain_cons.mp plain with ⟨notSpecial, tail⟩
        exists .plain
        constructor
        · decide
        · intro rest
          simp [read, Mode.action, notSpecial, read_plain tail]
  · have special : s.any isSpecial = true := by simpa [IsPlain] using plain
    exists .closing
    constructor
    · decide
    · intro rest
      simp [quoteField, special, read, Mode.action, read_doubleQuotes]

/-- A written line is read as its fields. -/
theorem read_line {fields : List Field} (some_ : fields ≠ []) (record : List Field)
    (rest : List Char) :
    read .start [] record (line (fields.map quoteField) ++ rest) =
      (readRecords rest).map ((record ++ fields) :: ·) := by
  induction fields generalizing record with
  | nil => exact absurd rfl some_
  | cons f fields ih =>
      rcases exists_read_quoteField f record with ⟨mode, outside, reads⟩
      cases fields with
      | nil => simp [reads, read_lineFeed outside]
      | cons g fields =>
          have next := ih (List.cons_ne_nil _ _) (record ++ [f])
          rw [List.append_assoc, List.singleton_append] at next
          rw [← next]
          simp [reads, read_comma outside]

theorem readRecords_line {fields : List Field} (some_ : fields ≠ []) (rest : List Char) :
    readRecords (line (fields.map quoteField) ++ rest) = (readRecords rest).map (fields :: ·) :=
      read_line some_ [] rest

/-- A file of written lines is read line by line. -/
theorem readRecords_lines {records : List (List Field)} (some_ : ∀ fields ∈ records, fields ≠ []) :
    readRecords (records.flatMap fun fields => line (fields.map quoteField)) = some records := by
  induction records with
  | nil => rfl
  | cons fields records ih =>
      rw [List.flatMap_cons, readRecords_line (some_ fields List.mem_cons_self),
        ih fun fields member => some_ fields (List.mem_cons_of_mem _ member)]
      rfl

/-! ### Splitting at every comma -/

/-- The parts have no separator. -/
theorem not_mem_of_mem_splitOn {sep : Char} {text part : List Char}
    (member : part ∈ text.splitOn sep) : sep ∉ part := by
  induction text generalizing part with
  | nil =>
      rw [List.splitOn_nil, List.mem_singleton] at member
      simp [member]
  | cons c text ih =>
      rw [List.splitOn_cons_eq_if_modifyHead] at member
      by_cases comma : c = sep
      · simp only [comma, BEq.rfl, if_true, List.mem_cons] at member
        rcases member with empty | later
        · simp [empty]
        · exact ih later
      · simp only [beq_iff_eq, comma, if_false] at member
        cases parts : text.splitOn sep with
        | nil => simp [parts] at member
        | cons first others =>
            simp only [parts, List.modifyHead_cons, List.mem_cons] at member
            rcases member with atFront | later
            · have clean : sep ∉ first := ih (by simp [parts])
              simp [atFront, clean, Ne.symm comma]
            · exact ih (by simp [parts, later])

/-- Splitting gives back the written fields if and only if none of them has a comma. -/
theorem splitOn_intercalate_iff {fields : List (List Char)} (some_ : fields ≠ []) :
    ([','].intercalate fields).splitOn ',' = fields ↔ ∀ f ∈ fields, ',' ∉ f := by
  constructor
  · intro whole f member
    rw [← whole] at member
    exact not_mem_of_mem_splitOn member
  · intro clean
    exact List.splitOn_intercalate _ clean some_

theorem intercalate_concat {fields : List (List Char)} (some_ : fields ≠ []) (f : List Char) :
    [','].intercalate (fields ++ [f]) = [','].intercalate fields ++ ',' :: f := by
  induction fields with
  | nil => exact absurd rfl some_
  | cons g fields ih =>
      cases fields with
      | nil => simp
      | cons h fields =>
          rw [List.cons_append, List.cons_append, List.intercalate_cons_cons,
            List.intercalate_cons_cons, ← List.cons_append,
            ih (List.cons_ne_nil _ _)]
          simp

/-- Quoting adds neither commas nor line feeds. -/
theorem mem_quoteField {c : Char} (notQuote : c ≠ '"') {s : Field} : c ∈ quoteField s ↔ c ∈ s := by
  have doubled : ∀ s : Field, c ∈ doubleQuotes s ↔ c ∈ s := by
    intro s
    induction s with
    | nil => rfl
    | cons d s ih =>
        by_cases quote : d = '"'
        · simp [doubleQuotes, quote, ih, notQuote]
        · simp [doubleQuotes, quote, ih]
  unfold quoteField
  split
  · simp [doubled, notQuote]
  · rfl

theorem mem_intercalate {c : Char} (notComma : c ≠ ',') {fields : List (List Char)} :
    c ∈ [','].intercalate fields ↔ ∃ f ∈ fields, c ∈ f := by
  induction fields with
  | nil => simp
  | cons f fields ih =>
      cases fields with
      | nil => simp
      | cons g fields =>
          rw [List.intercalate_cons_cons, List.append_assoc, List.mem_append, List.singleton_append,
            List.mem_cons, ih]
          simp [notComma]

end BscMempool.Codec.Csv
