import Mathlib.Data.List.Basic

/-!
# Tables in text

A reader for tables with one record a line, in the manner of `encoding/csv`:
fields may be quoted, space in front of a field is trimmed, and blank lines and
comments are skipped.  It is a scanner that takes one character at a time.

The reader gives back the table that a text was written from exactly if no
character of the text was left out.  That is counted: a character adds at most
one to the weight of what is read, and it adds one only where it is kept.
-/

namespace Csv

/-- `unicode.IsSpace`. -/
def isSpace (c : Char) : Bool :=
  c.toNat ∈ [0x09, 0x0a, 0x0b, 0x0c, 0x0d, 0x20, 0x85, 0xa0, 0x1680, 0x2028, 0x2029, 0x202f,
    0x205f, 0x3000] || (0x2000 ≤ c.toNat && c.toNat ≤ 0x200a)

structure Valid (comma comment : Char) : Prop where
  comma_ne_comment : comma ≠ comment
  comment_ne_newline : comment ≠ '\n'
  comma_ne_quote : comma ≠ '"'
  not_isSpace_comma : isSpace comma = false

/-- The two characters that a reader is set up with. -/
structure Format where
  comma : Char
  comment : Char
  valid : Valid comma comment

inductive ParseError where
  | bareQuote
  | quote
  | fieldCount
  deriving DecidableEq

abbrev Field := List Char

/-- Where in a line the reader is. -/
inductive Mode where
  | lineStart
  | comment
  | fieldStart
  | bare (field : Field)
  | quoted (field : Field)
  /-- Behind a quote in a quoted field, which ends the field unless another one follows. -/
  | afterQuote (field : Field)
  deriving DecidableEq

/-- The records so far, and the fields so far of the record that is read. -/
structure State where
  records : List (List Field)
  record : List Field
  mode : Mode
  deriving DecidableEq

/-- Every line that ends in `\r\n` ends in `\n`, and a last `\r` is dropped. -/
def normalize : List Char → List Char
  | [] => []
  | c :: rest =>
      if c = '\r' ∧ (rest = [] ∨ rest.head? = some '\n') then normalize rest
      else c :: normalize rest

def State.endField (s : State) (field : Field) : State :=
  ⟨s.records, s.record ++ [field], .fieldStart⟩

/-- The first record says how many fields there are. -/
def State.endRecord (s : State) (field : Field) : Except ParseError State :=
  let record := s.record ++ [field]
  if s.records.head?.all fun first ↦ first.length = record.length then
    .ok ⟨s.records ++ [record], [], .lineStart⟩
  else .error .fieldCount

variable (f : Format)

/-- The first character of a field. -/
def State.startField (s : State) (c : Char) : Except ParseError State :=
  if c = '\n' then s.endRecord []
  else if isSpace c then .ok { s with mode := .fieldStart }
  else if c = '"' then .ok { s with mode := .quoted [] }
  else if c = f.comma then .ok (s.endField [])
  else .ok { s with mode := .bare [c] }

def step (s : State) (c : Char) : Except ParseError State :=
  match s.mode with
  | .lineStart =>
      if c = f.comment then .ok { s with mode := .comment }
      else if c = '\n' then .ok s
      else s.startField f c
  | .comment => .ok (if c = '\n' then { s with mode := .lineStart } else s)
  | .fieldStart => s.startField f c
  | .bare field =>
      if c = '"' then .error .bareQuote
      else if c = f.comma then .ok (s.endField field)
      else if c = '\n' then s.endRecord field
      else .ok { s with mode := .bare (field ++ [c]) }
  | .quoted field =>
      if c = '"' then .ok { s with mode := .afterQuote field }
      else .ok { s with mode := .quoted (field ++ [c]) }
  | .afterQuote field =>
      if c = '"' then .ok { s with mode := .quoted (field ++ ['"']) }
      else if c = f.comma then .ok (s.endField field)
      else if c = '\n' then s.endRecord field
      else .error .quote

/-- The text is at its end. -/
def finish (s : State) : Except ParseError State :=
  match s.mode with
  | .lineStart => .ok s
  | .comment => .ok s
  | .fieldStart => s.endRecord []
  | .bare field => s.endRecord field
  | .quoted _ => .error .quote
  | .afterQuote field => s.endRecord field

def run (s : State) (text : List Char) : Except ParseError State := text.foldlM (step f) s

/-- `ReadAll`. -/
def readAll (text : List Char) : Except ParseError (List (List Field)) := do
  let s ← run f ⟨[], [], .lineStart⟩ (normalize text)
  return (← finish s).records

/-- The line of a record. -/
def write : List Field → List Char
  | [] => ['\n']
  | [field] => field ++ ['\n']
  | field :: row => field ++ f.comma :: write row

/-- The separator of the example is a colon, and a comment starts with a hash sign. -/
def Format.sample : Format := ⟨':', '#', by decide, by decide, by decide, by decide⟩

example : readAll Format.sample " a:\"b:\"\"c\"\r\n\n# d\ne:".toList =
    .ok [["a".toList, "b:\"c".toList], ["e".toList, []]] := by
  decide

example : readAll Format.sample "a:b\nc".toList = .error .fieldCount := by decide

/-! ## Fields that are written as they are -/

/-- No character of the field means anything to the reader. -/
structure Plain (field : Field) : Prop where
  comma : f.comma ∉ field
  quote : '"' ∉ field
  newline : '\n' ∉ field
  space : ∀ c ∈ field.head?, isSpace c = false

/-- A line with the record is not blank and not a comment, and it does not end in `\r`. -/
structure PlainRow (row : List Field) : Prop where
  ne_nil : row ≠ []
  ne_blank : row ≠ [[]]
  fields : ∀ field ∈ row, Plain f field
  comment : ∀ c ∈ row.head?.bind List.head?, c ≠ f.comment
  carriageReturn : ∀ c ∈ row.getLast?.bind List.getLast?, c ≠ '\r'

variable {f}

theorem Format.comma_ne_newline (f : Format) : f.comma ≠ '\n' := by
  intro h
  have hspace := f.valid.not_isSpace_comma
  rw [h] at hspace
  cases hspace

theorem write_cons (field : Field) {row : List Field} (h : row ≠ []) :
    write f (field :: row) = field ++ f.comma :: write f row := by
  obtain ⟨x, rest, rfl⟩ := List.exists_cons_of_ne_nil h
  rfl

theorem write_append (row : List Field) (field : Field) :
    write f (row ++ [field]) = row.flatMap (· ++ [f.comma]) ++ field ++ ['\n'] := by
  induction row with
  | nil => rfl
  | cons x row ih =>
      rw [List.cons_append, write_cons x (by simp), ih, List.flatMap_cons]
      simp

/-! ## Reading a written table -/

theorem run_append (s : State) (a b : List Char) :
    run f s (a ++ b) = (run f s a).bind fun s ↦ run f s b := List.foldlM_append

theorem run_cons (s : State) (c : Char) (text : List Char) :
    run f s (c :: text) = (step f s c).bind fun s ↦ run f s text := List.foldlM_cons

theorem run_bare {records : List (List Field)} {record : List Field} {field text : Field}
    (h : ∀ c ∈ text, c ≠ '"' ∧ c ≠ f.comma ∧ c ≠ '\n') :
    run f ⟨records, record, .bare field⟩ text = .ok ⟨records, record, .bare (field ++ text)⟩ := by
  induction text generalizing field with
  | nil => rw [List.append_nil]; rfl
  | cons c text ih =>
      obtain ⟨⟨hquote, hcomma, hnewline⟩, htext⟩ := List.forall_mem_cons.mp h
      have hstep : step f ⟨records, record, .bare field⟩ c =
          .ok ⟨records, record, .bare (field ++ [c])⟩ := by
        simp [step, hquote, hcomma, hnewline]
      rw [run_cons, hstep, Except.bind, ih htext, List.append_assoc, List.singleton_append]

/-- A plain field, up to the character that ends it. -/
theorem run_field {records : List (List Field)} {record : List Field} {field : Field}
    (h : Plain f field) {c : Char} (hc : c = f.comma ∨ c = '\n') :
    run f ⟨records, record, .fieldStart⟩ (field ++ [c]) =
      step f ⟨records, record, .bare field⟩ c := by
  have hend : c ≠ '"' := by
    rcases hc with rfl | rfl
    · exact f.valid.comma_ne_quote
    · decide
  cases field with
  | nil =>
      rw [List.nil_append, run_cons]
      have hstep : step f ⟨records, record, .fieldStart⟩ c =
          step f ⟨records, record, .bare []⟩ c := by
        rcases hc with rfl | rfl
        · simp [step, State.startField, f.comma_ne_newline, f.valid.not_isSpace_comma,
            f.valid.comma_ne_quote, State.endField]
        · simp [step, State.startField, f.comma_ne_newline.symm, State.endRecord]
      rw [hstep]
      exact bind_pure (step f ⟨records, record, .bare []⟩ c)
  | cons x field =>
      have hx : isSpace x = false := h.space x rfl
      have hcomma := not_or.mp (mt List.mem_cons.mpr h.comma)
      have hquote := not_or.mp (mt List.mem_cons.mpr h.quote)
      have hnewline := not_or.mp (mt List.mem_cons.mpr h.newline)
      have hfirst : step f ⟨records, record, .fieldStart⟩ x =
          .ok ⟨records, record, .bare [x]⟩ := by
        simp [step, State.startField, Ne.symm hnewline.1, hx, Ne.symm hquote.1, Ne.symm hcomma.1]
      have hrest : ∀ y ∈ field, y ≠ '"' ∧ y ≠ f.comma ∧ y ≠ '\n' := fun y hy ↦
        ⟨fun h ↦ hquote.2 (h ▸ hy), fun h ↦ hcomma.2 (h ▸ hy), fun h ↦ hnewline.2 (h ▸ hy)⟩
      rw [List.cons_append, run_cons, hfirst, Except.bind, run_append, run_bare hrest, Except.bind,
        List.singleton_append, run_cons]
      exact bind_pure (step f ⟨records, record, .bare (x :: field)⟩ c)

theorem run_fields {records : List (List Field)} {record row : List Field}
    (h : ∀ field ∈ row, Plain f field) :
    run f ⟨records, record, .fieldStart⟩ (row.flatMap (· ++ [f.comma])) =
      .ok ⟨records, record ++ row, .fieldStart⟩ := by
  induction row generalizing record with
  | nil => rw [List.append_nil]; rfl
  | cons field row ih =>
      obtain ⟨hfield, hrow⟩ := List.forall_mem_cons.mp h
      have hstep : step f ⟨records, record, .bare field⟩ f.comma =
          .ok ⟨records, record ++ [field], .fieldStart⟩ := by
        simp [step, f.valid.comma_ne_quote, State.endField]
      rw [List.flatMap_cons, run_append, run_field hfield (Or.inl rfl), hstep, Except.bind, ih hrow,
        List.append_assoc, List.singleton_append]

/-- A line that is neither blank nor a comment starts with a field. -/
theorem run_lineStart {records : List (List Field)} {record : List Field} {text : List Char}
    (h : text ≠ []) (hfirst : ∀ c ∈ text.head?, c ≠ f.comment ∧ c ≠ '\n') :
    run f ⟨records, record, .lineStart⟩ text = run f ⟨records, record, .fieldStart⟩ text := by
  obtain ⟨c, rest, rfl⟩ := List.exists_cons_of_ne_nil h
  obtain ⟨hcomment, hnewline⟩ := hfirst c rfl
  have hstep : step f ⟨records, record, .lineStart⟩ c =
      step f ⟨records, record, .fieldStart⟩ c := by
    simp [step, hcomment, hnewline, State.startField, State.endField]
  rw [run_cons, run_cons, hstep]

theorem PlainRow.head {row : List Field} (h : PlainRow f row) :
    ∀ c ∈ (write f row).head?, c ≠ f.comment ∧ c ≠ '\n' := by
  intro c hc
  match row, h with
  | [], h => exact absurd rfl h.ne_nil
  | [[]], h => exact absurd rfl h.ne_blank
  | [] :: y :: rest, _ =>
      obtain rfl : f.comma = c := by simpa [write] using hc
      exact ⟨f.valid.comma_ne_comment, f.comma_ne_newline⟩
  | (x :: field) :: rest, h =>
      have hx : x = c := by
        cases rest <;> simpa [write] using hc
      subst hx
      refine ⟨h.comment x rfl, fun hx ↦ ?_⟩
      exact (h.fields _ List.mem_cons_self).newline (hx ▸ List.mem_cons_self)

theorem run_write {records : List (List Field)} {row : List Field} (h : PlainRow f row)
    (hlength : ∀ first ∈ records.head?, first.length = row.length) :
    run f ⟨records, [], .lineStart⟩ (write f row) =
      .ok ⟨records ++ [row], [], .lineStart⟩ := by
  obtain ⟨init, field, rfl⟩ := (List.eq_nil_or_concat' row).resolve_left h.ne_nil
  have hfields := List.forall_mem_append.mp h.fields
  have hlast := hfields.2 field List.mem_cons_self
  have hend : step f ⟨records, init, .bare field⟩ '\n' =
      .ok ⟨records ++ [init ++ [field]], [], .lineStart⟩ := by
    have hall : (records.head?.all fun first ↦
        decide (first.length = (init ++ [field]).length)) = true := by
      rw [Option.all_eq_true]
      exact fun first hfirst ↦ decide_eq_true (hlength first hfirst)
    simp only [step, f.comma_ne_newline.symm, State.endRecord, hall]
    simp
  have hne : write f (init ++ [field]) ≠ [] := by
    rw [write_append]
    simp
  rw [run_lineStart hne h.head, write_append, List.append_assoc, run_append, run_fields hfields.1,
    Except.bind, List.nil_append, run_field hlast (Or.inr rfl), hend]

theorem run_rows {records rows : List (List Field)} (h : ∀ row ∈ rows, PlainRow f row)
    (hlength : ∀ first ∈ (records ++ rows).head?, ∀ row ∈ rows, first.length = row.length) :
    run f ⟨records, [], .lineStart⟩ (rows.flatMap (write f)) =
      .ok ⟨records ++ rows, [], .lineStart⟩ := by
  induction rows generalizing records with
  | nil => rw [List.append_nil]; rfl
  | cons row rows ih =>
      obtain ⟨hrow, hrows⟩ := List.forall_mem_cons.mp h
      have hhead : ∀ first ∈ records.head?, first.length = row.length := fun first hfirst ↦
        hlength first (List.mem_head?_append_of_mem_head? hfirst) row List.mem_cons_self
      rw [List.flatMap_cons, run_append, run_write hrow hhead, Except.bind, ih hrows]
      · rw [List.append_assoc, List.singleton_append]
      · intro first hfirst row' hrow'
        rw [List.append_assoc, List.singleton_append] at hfirst
        exact hlength first hfirst row' (List.mem_cons_of_mem _ hrow')

/-! ## Line ends -/

theorem length_normalize_le (text : List Char) : (normalize text).length ≤ text.length := by
  induction text with
  | nil => exact Nat.le_refl 0
  | cons c text ih =>
      rw [normalize]
      split
      · exact Nat.le_succ_of_le ih
      · exact Nat.succ_le_succ ih

theorem normalize_line {line : List Char} (hnewline : '\n' ∉ line)
    (hlast : ∀ c ∈ line.getLast?, c ≠ '\r') (rest : List Char) :
    normalize (line ++ '\n' :: rest) = line ++ '\n' :: normalize rest := by
  induction line with
  | nil => simp [normalize]
  | cons c line ih =>
      have hkept : ¬ (c = '\r' ∧ (line ++ '\n' :: rest = [] ∨
          (line ++ '\n' :: rest).head? = some '\n')) := by
        rintro ⟨rfl, hnil | hhead⟩
        · simp at hnil
        · cases line with
          | nil => exact hlast '\r' rfl rfl
          | cons x line =>
              obtain rfl : x = '\n' := Option.some.inj hhead
              exact hnewline (List.mem_cons_of_mem _ List.mem_cons_self)
      rw [List.cons_append, normalize, if_neg hkept,
        ih (fun h ↦ hnewline (List.mem_cons_of_mem _ h))]
      · rfl
      · intro x hx
        cases line with
        | nil => cases hx
        | cons y line => exact hlast x (by rwa [List.getLast?_cons_cons])

/-- A carriage return in front of a line end is lost. -/
theorem length_normalize_lt (a b : List Char) :
    (normalize (a ++ '\r' :: '\n' :: b)).length < (a ++ '\r' :: '\n' :: b).length := by
  induction a with
  | nil =>
      rw [List.nil_append, normalize, if_pos ⟨rfl, Or.inr rfl⟩]
      exact Nat.lt_succ_of_le (length_normalize_le _)
  | cons c a ih =>
      rw [List.cons_append, normalize]
      split
      · exact Nat.lt_succ_of_lt ih
      · exact Nat.succ_lt_succ ih

/-! ## What is kept of a text -/

def Mode.weight : Mode → ℕ
  | .lineStart => 0
  | .comment => 0
  | .fieldStart => 0
  | .bare field => field.length
  | .quoted field => field.length
  | .afterQuote field => field.length

/-- The characters that it takes to write what was read. -/
def State.weight (f : Format) (s : State) : ℕ :=
  (s.records.flatMap (write f)).length + (s.record.flatMap (· ++ [f.comma])).length +
    s.mode.weight

/-- What was read so far was written as it is. -/
structure State.Clean (f : Format) (s : State) : Prop where
  records : ∀ row ∈ s.records, row ≠ [] ∧ row ≠ [[]] ∧ (∀ field ∈ row, Plain f field) ∧
    ∀ c ∈ row.head?.bind List.head?, c ≠ f.comment
  uniform : ∀ first ∈ s.records.head?, ∀ row ∈ s.records, first.length = row.length
  record : ∀ field ∈ s.record, Plain f field
  comment : ∀ c ∈ s.record.head?.bind List.head?, c ≠ f.comment
  mode : (s.mode = .lineStart ∧ s.record = []) ∨ (s.mode = .fieldStart ∧ s.record ≠ []) ∨
    ∃ field ≠ [], s.mode = .bare field ∧ Plain f field ∧
      (s.record = [] → ∀ c ∈ field.head?, c ≠ f.comment)

theorem weight_endField {s : State} {field : Field} (h : s.mode.weight = field.length) :
    (s.endField field).weight f = s.weight f + 1 := by
  simp only [State.weight, State.endField, h, List.flatMap_append, List.length_append]
  simp [Mode.weight]
  omega

theorem weight_endRecord {s s' : State} {field : Field} (h : s.mode.weight = field.length)
    (hs : s.endRecord field = .ok s') : s'.weight f = s.weight f + 1 := by
  unfold State.endRecord at hs
  dsimp only at hs
  split at hs
  · cases hs
    simp only [State.weight, h, List.flatMap_append, List.length_append]
    simp [Mode.weight, write_append]
    omega
  · cases hs

theorem weight_setMode (s : State) (mode : Mode) :
    ({ s with mode := mode } : State).weight f + s.mode.weight = s.weight f + mode.weight := by
  simp only [State.weight]
  omega

theorem weight_startField {s s' : State} {c : Char} (h : s.mode.weight = 0)
    (hs : s.startField f c = .ok s') : s'.weight f ≤ s.weight f + 1 := by
  have hmode := weight_setMode (f := f) s
  unfold State.startField at hs
  split at hs
  · exact Nat.le_of_eq (weight_endRecord (show s.mode.weight = ([] : Field).length from h) hs)
  split at hs
  · cases hs
    have := hmode .fieldStart
    simp only [Mode.weight] at this
    omega
  split at hs
  · cases hs
    have := hmode (.quoted [])
    simp only [Mode.weight, List.length_nil] at this
    omega
  split at hs
  · cases hs
    exact Nat.le_of_eq (weight_endField h)
  · cases hs
    have := hmode (.bare [c])
    simp only [Mode.weight, List.length_singleton] at this
    omega

theorem weight_step {s s' : State} {c : Char} (hs : step f s c = .ok s') :
    s'.weight f ≤ s.weight f + 1 := by
  have hset (mode : Mode) (hle : mode.weight ≤ s.mode.weight + 1) :
      ({ s with mode := mode } : State).weight f ≤ s.weight f + 1 := by
    have := weight_setMode (f := f) s mode
    omega
  unfold step at hs
  cases hmode : s.mode with
  | lineStart =>
      rw [hmode] at hset hs
      dsimp only at hs
      split at hs
      · cases hs
        exact hset _ (Nat.zero_le _)
      split at hs
      · cases hs
        exact Nat.le_succ _
      · exact weight_startField (by rw [hmode]; rfl) hs
  | comment =>
      rw [hmode] at hset hs
      cases hs
      split
      · exact hset _ (Nat.zero_le _)
      · exact Nat.le_succ _
  | fieldStart =>
      rw [hmode] at hs
      exact weight_startField (by rw [hmode]; rfl) hs
  | bare field =>
      have hweight : s.mode.weight = field.length := by rw [hmode]; rfl
      rw [hmode] at hset hs
      dsimp only at hs
      split at hs
      · cases hs
      split at hs
      · cases hs
        exact Nat.le_of_eq (weight_endField hweight)
      split at hs
      · exact Nat.le_of_eq (weight_endRecord hweight hs)
      · cases hs
        exact hset _ (Nat.le_of_eq (List.length_append ..))
  | quoted field =>
      rw [hmode] at hset hs
      dsimp only at hs
      split at hs
      · cases hs
        exact hset _ (Nat.le_succ _)
      · cases hs
        exact hset _ (Nat.le_of_eq (List.length_append ..))
  | afterQuote field =>
      have hweight : s.mode.weight = field.length := by rw [hmode]; rfl
      rw [hmode] at hset hs
      dsimp only at hs
      split at hs
      · cases hs
        exact hset _ (Nat.le_of_eq (List.length_append ..))
      split at hs
      · cases hs
        exact Nat.le_of_eq (weight_endField hweight)
      split at hs
      · exact Nat.le_of_eq (weight_endRecord hweight hs)
      · cases hs

theorem plain_nil : Plain f [] := ⟨by simp, by simp, by simp, by simp⟩

section Clean

variable {s s' : State} {field : Field}

theorem head_append_comment (h : s.Clean f)
    (hcomment : s.record = [] → ∀ c ∈ field.head?, c ≠ f.comment) :
    ∀ c ∈ (s.record ++ [field]).head?.bind List.head?, c ≠ f.comment := by
  cases hrecord : s.record with
  | nil => exact hcomment hrecord
  | cons x rest =>
      have hx := h.comment
      rw [hrecord] at hx
      exact hx

theorem State.Clean.endField (h : s.Clean f) (hfield : Plain f field)
    (hcomment : s.record = [] → ∀ c ∈ field.head?, c ≠ f.comment) :
    (s.endField field).Clean f where
  records := h.records
  uniform := h.uniform
  record := List.forall_mem_append.mpr ⟨h.record, List.forall_mem_singleton.mpr hfield⟩
  comment := head_append_comment h hcomment
  mode := Or.inr (Or.inl ⟨rfl, by simp [State.endField]⟩)

theorem State.Clean.endRecord (h : s.Clean f) (hfield : Plain f field)
    (hcomment : s.record = [] → field ≠ [] ∧ ∀ c ∈ field.head?, c ≠ f.comment)
    (hs : s.endRecord field = .ok s') : s'.Clean f := by
  unfold State.endRecord at hs
  dsimp only at hs
  split at hs
  · next hall =>
    cases hs
    refine ⟨List.forall_mem_append.mpr ⟨h.records, List.forall_mem_singleton.mpr ⟨by simp, ?_, ?_,
      ?_⟩⟩, ?_, by simp, by simp, Or.inl ⟨rfl, rfl⟩⟩
    · intro heq
      obtain ⟨hrecord, hnil⟩ := List.append_inj' (heq.trans (List.nil_append [[]]).symm) rfl
      exact (hcomment hrecord).1 (List.head_eq_of_cons_eq hnil)
    · exact List.forall_mem_append.mpr ⟨h.record, List.forall_mem_singleton.mpr hfield⟩
    · exact head_append_comment h fun hrecord ↦ (hcomment hrecord).2
    · cases hrecords : s.records with
      | nil => simp
      | cons first rest =>
          have huniform := h.uniform
          rw [hrecords] at huniform hall
          intro first' hfirst'
          obtain rfl : first = first' := Option.some.inj hfirst'
          exact List.forall_mem_append.mpr ⟨huniform first rfl,
            List.forall_mem_singleton.mpr (of_decide_eq_true hall)⟩
  · cases hs

theorem State.Clean.startField (h : s.Clean f) {c : Char} (hweight : s.mode.weight = 0)
    (hfirst : s.record = [] → c ≠ '\n' ∧ c ≠ f.comment) (hs : s.startField f c = .ok s')
    (hkept : s'.weight f = s.weight f + 1) : s'.Clean f := by
  have hlost {mode : Mode} (hmode : mode.weight = 0) (heq : s' = { s with mode := mode }) :
      False := by
    rw [heq] at hkept
    simp only [State.weight, hweight, hmode] at hkept
    omega
  unfold State.startField at hs
  split at hs
  · next hc =>
      refine h.endRecord plain_nil (fun hrecord ↦ ?_) hs
      exact absurd hc (hfirst hrecord).1
  next hnewline =>
  split at hs
  · cases hs
    exact (hlost rfl rfl).elim
  next hspace =>
  split at hs
  · cases hs
    exact (hlost rfl rfl).elim
  next hquote =>
  split at hs
  · cases hs
    exact h.endField plain_nil (by simp)
  next hcomma =>
  cases hs
  refine ⟨h.records, h.uniform, h.record, h.comment, Or.inr (Or.inr ⟨[c], by simp, rfl, ?_, ?_⟩)⟩
  · exact ⟨by simpa using Ne.symm hcomma, by simpa using Ne.symm hquote,
      by simpa using Ne.symm hnewline, by simpa using hspace⟩
  · intro hrecord x hx
    obtain rfl : c = x := Option.some.inj hx
    exact (hfirst hrecord).2

/-- A character that is kept is plain. -/
theorem State.Clean.step (h : s.Clean f) {c : Char} (hs : step f s c = .ok s')
    (hkept : s'.weight f = s.weight f + 1) : s'.Clean f := by
  rcases h.mode with ⟨hmode, hrecord⟩ | ⟨hmode, hrecord⟩ | ⟨field, hne, hmode, hplain, hcomment⟩
  · simp only [Csv.step, hmode] at hs
    split at hs
    · cases hs
      simp [State.weight, hmode, Mode.weight] at hkept
    next hnotComment =>
    split at hs
    · cases hs
      omega
    next hnewline =>
    exact h.startField (by rw [hmode]; rfl) (fun _ ↦ ⟨hnewline, hnotComment⟩) hs hkept
  · simp only [Csv.step, hmode] at hs
    exact h.startField (by rw [hmode]; rfl) (fun hnil ↦ absurd hnil hrecord) hs hkept
  · simp only [Csv.step, hmode] at hs
    split at hs
    · cases hs
    next hquote =>
    split at hs
    · cases hs
      exact h.endField hplain hcomment
    next hcomma =>
    split at hs
    · exact h.endRecord hplain (fun hrecord ↦ ⟨hne, hcomment hrecord⟩) hs
    next hnewline =>
    cases hs
    obtain ⟨x, rest, rfl⟩ := List.exists_cons_of_ne_nil hne
    have hsnoc {a : Char} (ha : a ∉ x :: rest) (hc : ¬ c = a) : a ∉ x :: rest ++ [c] := fun h ↦
      (List.mem_append.mp h).elim ha fun h ↦ hc (List.mem_singleton.mp h).symm
    exact ⟨h.records, h.uniform, h.record, h.comment, Or.inr (Or.inr ⟨_, by simp, rfl,
      ⟨hsnoc hplain.comma hcomma, hsnoc hplain.quote hquote, hsnoc hplain.newline hnewline,
        hplain.space⟩, hcomment⟩)⟩

/-- A text adds at most its length, and it is clean where it adds as much. -/
theorem weight_run {text : List Char} (hs : run f s text = .ok s') :
    s'.weight f ≤ s.weight f + text.length ∧
      (s'.weight f = s.weight f + text.length → s.Clean f → s'.Clean f) := by
  induction text generalizing s with
  | nil =>
      cases hs
      exact ⟨Nat.le_refl _, fun _ h ↦ h⟩
  | cons c text ih =>
      rw [run_cons] at hs
      cases hstep : Csv.step f s c with
      | error err =>
          rw [hstep] at hs
          cases hs
      | ok next =>
          rw [hstep] at hs
          obtain ⟨hle, hclean⟩ := ih hs
          have hone := weight_step hstep
          rw [List.length_cons]
          refine ⟨by omega, fun hkept h ↦ hclean (by omega) (h.step hstep (by omega))⟩

end Clean

/-! ## The table that comes back -/

theorem step_newline {s s' : State} (hs : step f s '\n' = .ok s') :
    s'.mode = .lineStart ∨ ∃ field, s'.mode = .quoted field := by
  have hrecord {field : Field} (hs : s.endRecord field = .ok s') : s'.mode = .lineStart := by
    unfold State.endRecord at hs
    dsimp only at hs
    split at hs
    · cases hs
      rfl
    · cases hs
  have hcomment : '\n' ≠ f.comment := f.valid.comment_ne_newline.symm
  have hcomma : '\n' ≠ f.comma := f.comma_ne_newline.symm
  unfold step at hs
  cases hmode : s.mode with
  | lineStart =>
      simp only [hmode, if_neg hcomment, if_pos] at hs
      cases hs
      exact Or.inl hmode
  | comment =>
      simp only [hmode, if_pos] at hs
      cases hs
      exact Or.inl rfl
  | fieldStart =>
      simp only [hmode, State.startField, if_pos] at hs
      exact Or.inl (hrecord hs)
  | bare field =>
      simp only [hmode, if_neg hcomma, if_pos] at hs
      exact Or.inl (hrecord hs)
  | quoted field =>
      simp only [hmode] at hs
      cases hs
      exact Or.inr ⟨_, rfl⟩
  | afterQuote field =>
      simp only [hmode, if_neg hcomma, if_pos] at hs
      exact Or.inl (hrecord hs)

theorem exists_normalize_newline (text : List Char) :
    ∃ line, normalize (text ++ ['\n']) = line ++ ['\n'] := by
  induction text with
  | nil => exact ⟨[], rfl⟩
  | cons c text ih =>
      obtain ⟨line, hline⟩ := ih
      rw [List.cons_append, normalize, hline]
      split
      · exact ⟨line, rfl⟩
      · exact ⟨c :: line, rfl⟩

theorem exists_write_eq (f : Format) (row : List Field) :
    ∃ line, write f row = line ++ ['\n'] := by
  rcases List.eq_nil_or_concat' row with rfl | ⟨init, field, rfl⟩
  · exact ⟨[], rfl⟩
  · exact ⟨_, write_append init field⟩

/-- Reading a written table succeeds with the records of a last state that is at a line start. -/
theorem exists_run_of_readAll {rows table : List (List Field)}
    (h : readAll f (rows.flatMap (write f)) = .ok table) :
    ∃ s, run f ⟨[], [], .lineStart⟩ (normalize (rows.flatMap (write f))) = .ok s ∧
      s.records = table := by
  unfold readAll at h
  cases hrun : run f ⟨[], [], .lineStart⟩ (normalize (rows.flatMap (write f))) with
  | error err =>
      rw [hrun] at h
      cases h
  | ok s =>
      refine ⟨s, rfl, ?_⟩
      rw [hrun] at h
      have hmode : s.mode = .lineStart ∨ ∃ field, s.mode = .quoted field := by
        rcases List.eq_nil_or_concat' rows with rfl | ⟨init, row, rfl⟩
        · cases hrun
          exact Or.inl rfl
        · obtain ⟨line, hline⟩ := exists_write_eq f row
          obtain ⟨text, htext⟩ := exists_normalize_newline (init.flatMap (write f) ++ line)
          rw [List.flatMap_append, List.flatMap_singleton, hline, ← List.append_assoc, htext,
            run_append] at hrun
          cases hbefore : run f ⟨[], [], .lineStart⟩ text with
          | error err =>
              rw [hbefore] at hrun
              cases hrun
          | ok s₀ =>
              rw [hbefore, Except.bind, run_cons] at hrun
              exact step_newline ((bind_pure (step f s₀ '\n')).symm.trans hrun)
      rcases hmode with hmode | ⟨field, hmode⟩
      · simp only [bind, Except.bind, finish, hmode, pure, Except.pure] at h
        exact Except.ok.inj h
      · simp only [bind, Except.bind, finish, hmode] at h
        cases h

theorem normalize_write {row : List Field} (h : PlainRow f row) (rest : List Char) :
    normalize (write f row ++ rest) = write f row ++ normalize rest := by
  obtain ⟨init, field, rfl⟩ := (List.eq_nil_or_concat' row).resolve_left h.ne_nil
  obtain ⟨hinit, hfield⟩ := List.forall_mem_append.mp h.fields
  have hnewline : '\n' ∉ init.flatMap (· ++ [f.comma]) ++ field := by
    intro hmem
    rcases List.mem_append.mp hmem with hmem | hmem
    · obtain ⟨x, hx, hmem⟩ := List.mem_flatMap.mp hmem
      rcases List.mem_append.mp hmem with hmem | hmem
      · exact (hinit x hx).newline hmem
      · exact f.comma_ne_newline (List.mem_singleton.mp hmem).symm
    · exact (hfield field List.mem_cons_self).newline hmem
  have hlast : ∀ c ∈ (init.flatMap (· ++ [f.comma]) ++ field).getLast?, c ≠ '\r' := by
    intro c hc
    rcases List.eq_nil_or_concat' field with rfl | ⟨start, x, rfl⟩
    · rcases List.eq_nil_or_concat' init with rfl | ⟨init, y, rfl⟩
      · cases hc
      · obtain rfl : f.comma = c := by simpa using hc
        intro hcomma
        have hspace := f.valid.not_isSpace_comma
        rw [hcomma] at hspace
        cases hspace
    · exact h.carriageReturn c (by simpa using hc)
  rw [write_append, List.append_assoc, List.append_assoc, List.singleton_append,
    ← List.append_assoc, normalize_line hnewline hlast]
  simp

/-- A table is read back exactly if its records are plain and of one length. -/
theorem readAll_write_iff (rows : List (List Field)) :
    readAll f (rows.flatMap (write f)) = .ok rows ↔ (∀ row ∈ rows, PlainRow f row) ∧
      ∀ first ∈ rows.head?, ∀ row ∈ rows, first.length = row.length := by
  constructor
  · intro h
    obtain ⟨s, hrun, rfl⟩ := exists_run_of_readAll h
    obtain ⟨hle, hclean⟩ := weight_run hrun
    have hnormalize := length_normalize_le (s.records.flatMap (write f))
    have hweight : (s.records.flatMap (write f)).length ≤ s.weight f := by
      unfold State.weight
      omega
    have hzero : State.weight f ⟨[], [], .lineStart⟩ = 0 := rfl
    obtain ⟨hrecords, huniform, -⟩ := hclean (by omega)
      ⟨by simp, by simp, by simp, by simp, Or.inl ⟨rfl, rfl⟩⟩
    refine ⟨fun row hrow ↦ ?_, huniform⟩
    obtain ⟨hne, hblank, hfields, hcomment⟩ := hrecords row hrow
    refine ⟨hne, hblank, hfields, hcomment, ?_⟩
    rintro c hc rfl
    -- a line that ends in a carriage return loses it
    obtain ⟨init, field, rfl⟩ := (List.eq_nil_or_concat' row).resolve_left hne
    rw [List.getLast?_append, List.getLast?_singleton, Option.some_or, Option.bind_some] at hc
    obtain ⟨start, rfl⟩ := List.getLast?_eq_some_iff.mp hc
    obtain ⟨before, after, hsplit⟩ := List.append_of_mem hrow
    have hlost := length_normalize_lt
      (before.flatMap (write f) ++ init.flatMap (· ++ [f.comma]) ++ start)
      (after.flatMap (write f))
    have htext : before.flatMap (write f) ++ init.flatMap (· ++ [f.comma]) ++ start ++
        '\r' :: '\n' :: after.flatMap (write f) = s.records.flatMap (write f) := by
      rw [hsplit, List.flatMap_append, List.flatMap_cons, write_append]
      simp
    rw [htext] at hlost
    omega
  · rintro ⟨hrows, hlength⟩
    have hnormalize : ∀ rows : List (List Field), (∀ row ∈ rows, PlainRow f row) →
        normalize (rows.flatMap (write f)) = rows.flatMap (write f) := by
      intro rows hrows
      induction rows with
      | nil => rfl
      | cons row rows ih =>
          obtain ⟨hrow, hrows⟩ := List.forall_mem_cons.mp hrows
          rw [List.flatMap_cons, normalize_write hrow, ih hrows]
    have hrun : run f ⟨[], [], .lineStart⟩ (rows.flatMap (write f)) =
        .ok ⟨[] ++ rows, [], .lineStart⟩ := run_rows hrows hlength
    rw [readAll, hnormalize rows hrows, hrun]
    rfl

end Csv
