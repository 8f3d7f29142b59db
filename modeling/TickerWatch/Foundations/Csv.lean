import TickerWatch.Foundations.Dict

/-!
# Comma-separated files

The writer and the reader of Python's `csv` module in its default dialect, and the text file between
them: it is written without translation of line ends and read with universal newlines.

The reader is the automaton of the module, over the lines of the file.  What it makes of a written
file is what was written, up to the line ends inside the fields (`read_write`): a carriage return
comes back as a newline.
-/

namespace TickerWatch
namespace Csv

/-! ## The writer -/

/-- The characters that make the writer quote a field. -/
def special (c : Char) : Bool := decide (c = ',' ∨ c = '"' ∨ c = '\r' ∨ c = '\n')

/-- The quotes of a field doubled. -/
def double (field : List Char) : List Char := field.flatMap fun c => if c = '"' then [c, c] else [c]

/-- A field as it is written. -/
def writeField (field : List Char) : List Char :=
  if field.any special then '"' :: (double field ++ ['"']) else field

/-- The fields of a row.  A row of one empty field is told from a row of none. -/
def writeFields (row : List (List Char)) : List Char :=
  if row = [[]] then ['"', '"'] else [','].intercalate (row.map writeField)

/-- `writer.writerows(rows)`. -/
def write (rows : List (List String)) : String :=
  String.ofList (rows.flatMap fun row => writeFields (row.map String.toList) ++ ['\r', '\n'])

/-! ## The text file -/

/-- What reading makes of line ends: the flag says that a carriage return came before. -/
def translate : Bool → List Char → List Char
  | _, [] => []
  | afterReturn, c :: cs =>
    if c = '\r' then '\n' :: translate true cs
    else if c = '\n' ∧ afterReturn then translate false cs
    else c :: translate false cs

/-- The lines of a file, with their ends. -/
def lines : List Char → List (List Char)
  | [] => []
  | c :: cs =>
    if c = '\n' then [c] :: lines cs
    else match lines cs with
      | [] => [[c]]
      | line :: rest => (c :: line) :: rest

/-! ## The reader -/

/-- The states of the reader that the dialect can reach. -/
inductive ReaderState
  | startRecord
  | startField
  | inField
  | inQuotedField
  | quoteInQuotedField
  | eatCrnl
  deriving DecidableEq, Repr

/-- The reader: the field and the row it is at, and the rows before. -/
structure Reader where
  state : ReaderState
  field : List Char
  fields : List (List Char)
  rows : List (List (List Char))

/-- `field_size_limit()`. -/
def fieldLimit : ℕ := 131072

namespace Reader

/-- `parse_add_char`: too long a field is an error. -/
def addChar (r : Reader) (c : Char) (state : ReaderState) : Option Reader :=
  if r.field.length < fieldLimit then some { r with field := r.field ++ [c], state := state }
  else none

/-- `parse_save_field`. -/
def saveField (r : Reader) (state : ReaderState) : Reader :=
  { r with fields := r.fields ++ [r.field], field := [], state := state }

/-- A row is complete. -/
def emit (r : Reader) : Reader := ⟨.startRecord, [], [], r.rows ++ [r.fields]⟩

/-- A character at the start of a field. -/
def startField (r : Reader) (c : Char) : Option Reader :=
  if c = '\n' ∨ c = '\r' then some (r.saveField .eatCrnl)
  else if c = '"' then some { r with state := .inQuotedField }
  else if c = ',' then some (r.saveField .startField)
  else r.addChar c .inField

/-- `parse_process_char`: `none` stands for the end of a line. -/
def step (r : Reader) : Option Char → Option Reader
  | none =>
    match r.state with
    | .startRecord | .eatCrnl => some r.emit
    | .inQuotedField => some r
    | .startField | .inField | .quoteInQuotedField => some (r.saveField .startRecord).emit
  | some c =>
    match r.state with
    | .startRecord =>
      if c = '\n' ∨ c = '\r' then some { r with state := .eatCrnl } else r.startField c
    | .startField => r.startField c
    | .inField =>
      if c = '\n' ∨ c = '\r' then some (r.saveField .eatCrnl)
      else if c = ',' then some (r.saveField .startField)
      else r.addChar c .inField
    | .inQuotedField =>
      if c = '"' then some { r with state := .quoteInQuotedField } else r.addChar c .inQuotedField
    | .quoteInQuotedField =>
      if c = '"' then r.addChar c .inQuotedField
      else if c = ',' then some (r.saveField .startField)
      else if c = '\n' ∨ c = '\r' then some (r.saveField .eatCrnl)
      else r.addChar c .inField
    | .eatCrnl => if c = '\n' ∨ c = '\r' then some r else none

/-- A line, and its end. -/
def readLine (r : Reader) (line : List Char) : Option Reader :=
  (line.map some ++ [none]).foldlM step r

/-- The end of the file completes a quoted field. -/
def finish (r : Reader) : List (List (List Char)) :=
  if r.field ≠ [] ∨ r.state = .inQuotedField then (r.saveField .startRecord).emit.rows else r.rows

end Reader

/-- `list(csv.reader(fh))`. -/
def read (text : String) : Option (List (List String)) :=
  ((lines (translate false text.toList)).foldlM Reader.readLine ⟨.startRecord, [], [], []⟩).map
    fun r => r.finish.map (List.map String.ofList)

/-- `dict(zip(fieldnames, row))` with `None` for the fields that are missing. -/
def record (fieldnames row : List String) : Dict String (Option String) :=
  .ofList (fieldnames.zip (row.map some ++ List.replicate (fieldnames.length - row.length) none))

/-- `list(csv.DictReader(fh))`: the first row names the fields, and empty rows are skipped. -/
def readDicts (text : String) : Option (List (Dict String (Option String))) :=
  (read text).map fun rows => (rows.tail.filter fun row => decide (row ≠ [])).map
    (record (rows.headD []))

/-! ## Line ends -/

/-- What a field becomes between the writer and the reader. -/
def normalize (field : String) : String := String.ofList (translate false field.toList)

/-- What comes after a text that does not start with a newline is translated on its own. -/
lemma translate_append {b : List Char} (hb : b.head? ≠ some '\n') (afterReturn : Bool)
    (a : List Char) :
    translate afterReturn (a ++ b) = translate afterReturn a ++ translate false b := by
  induction a generalizing afterReturn with
  | nil =>
    cases b with
    | nil => simp [translate]
    | cons c cs =>
      have hc : c ≠ '\n' := fun h => hb (congrArg some h)
      simp [translate, hc]
  | cons c cs ih =>
    simp only [List.cons_append, translate, ih]
    split_ifs <;> rfl

lemma translate_cons {c : Char} (hreturn : c ≠ '\r') (hnewline : c ≠ '\n') (afterReturn : Bool)
    (cs : List Char) : translate afterReturn (c :: cs) = c :: translate false cs := by
  simp [translate, hreturn, hnewline]

lemma translate_eq_self {a : List Char} (h : '\r' ∉ a) : translate false a = a := by
  induction a with
  | nil => rfl
  | cons c cs ih =>
    rw [List.mem_cons, not_or] at h
    have hc : c ≠ '\r' := fun heq => h.1 heq.symm
    simp [translate, hc, ih h.2]

lemma length_translate_le (afterReturn : Bool) (a : List Char) :
    (translate afterReturn a).length ≤ a.length := by
  induction a generalizing afterReturn with
  | nil => simp [translate]
  | cons c cs ih =>
    simp only [translate, List.length_cons]
    split_ifs
    · exact Nat.succ_le_succ (ih true)
    · exact (ih false).trans (Nat.le_succ _)
    · exact Nat.succ_le_succ (ih false)

lemma double_cons (c : Char) (cs : List Char) :
    double (c :: cs) = (if c = '"' then [c, c] else [c]) ++ double cs := List.flatMap_cons

lemma translate_double (afterReturn : Bool) (a : List Char) :
    translate afterReturn (double a) = double (translate afterReturn a) := by
  induction a generalizing afterReturn with
  | nil => rfl
  | cons c cs ih =>
    rw [double_cons]
    by_cases hquote : c = '"'
    · subst hquote
      simp [translate, double_cons, ih]
    · rw [if_neg hquote, List.singleton_append]
      simp only [translate, ih]
      split_ifs with hreturn hskip
      · rw [double_cons, if_neg (by decide), List.singleton_append]
      · rfl
      · rw [double_cons, if_neg hquote, List.singleton_append]

lemma any_special_translate (afterReturn : Bool) (a : List Char) :
    ((translate afterReturn a).any special || afterReturn) = (a.any special || afterReturn) := by
  induction a generalizing afterReturn with
  | nil => rfl
  | cons c cs ih =>
    simp only [translate]
    split_ifs with hreturn hskip
    · subst hreturn
      simp [special]
    · rw [hskip.2]
      simp
    · have hrest := ih false
      rw [Bool.or_false, Bool.or_false] at hrest
      rw [List.any_cons, List.any_cons, hrest]

lemma not_mem_of_not_special {a : List Char} (h : a.any special = false) {c : Char} (hc : c ∈ a) :
    c ≠ ',' ∧ c ≠ '"' ∧ c ≠ '\r' ∧ c ≠ '\n' := by
  have hspecial := List.any_eq_false.1 h c hc
  simpa [special] using hspecial

lemma not_lineEnd_of_head? {field : List Char} {c : Char} (h : (writeField field).head? = some c) :
    c ≠ '\n' ∧ c ≠ '\r' := by
  rw [writeField] at h
  split at h
  · obtain rfl := Option.some.inj h
    decide
  · next hplain =>
    have hspecial := not_mem_of_not_special (Bool.eq_false_iff.2 hplain) (List.mem_of_mem_head? h)
    exact ⟨hspecial.2.2.2, hspecial.2.2.1⟩

lemma translate_writeField (field : List Char) :
    translate false (writeField field) = writeField (translate false field) := by
  have hspecial := any_special_translate false field
  rw [Bool.or_false, Bool.or_false] at hspecial
  rw [writeField, writeField, hspecial]
  split
  · rw [translate_cons (by decide) (by decide), translate_append (by decide), translate_double]
    rfl
  · next h =>
    exact rfl

lemma translate_eq_nil_iff {a : List Char} : translate false a = [] ↔ a = [] := by
  cases a with
  | nil => simp [translate]
  | cons c cs => by_cases hreturn : c = '\r' <;> simp [translate, hreturn]

/-- A row does not begin with a line end. -/
lemma not_lineEnd_of_head?_intercalate {row : List (List Char)} {c : Char}
    (h : ([','].intercalate (row.map writeField)).head? = some c) : c ≠ '\n' ∧ c ≠ '\r' := by
  match row with
  | [] => exact absurd h (by simp)
  | [f] =>
    rw [List.map_singleton, List.intercalate_singleton] at h
    exact not_lineEnd_of_head? h
  | f :: g :: row =>
    rw [List.map_cons, List.map_cons, List.intercalate_cons_cons, List.append_assoc,
      List.head?_append] at h
    cases hf : (writeField f).head? with
    | none =>
      rw [hf] at h
      obtain rfl := Option.some.inj h
      decide
    | some d =>
      rw [hf] at h
      obtain rfl := Option.some.inj h
      exact not_lineEnd_of_head? hf

lemma translate_intercalate (row : List (List Char)) :
    translate false ([','].intercalate (row.map writeField)) =
      [','].intercalate ((row.map (translate false)).map writeField) := by
  induction row with
  | nil => rfl
  | cons f row ih =>
    cases row with
    | nil =>
      rw [List.map_singleton, List.map_singleton, List.map_singleton, List.intercalate_singleton,
        List.intercalate_singleton, translate_writeField]
    | cons g row =>
      rw [List.map_cons, List.map_cons, List.intercalate_cons_cons, List.append_assoc,
        List.singleton_append, translate_append (by simp), translate_cons (by decide) (by decide),
        translate_writeField, ← List.map_cons, ih]
      simp only [List.map_cons, List.intercalate_cons_cons, List.append_assoc, List.singleton_append]

lemma translate_writeFields (row : List (List Char)) :
    translate false (writeFields row) = writeFields (row.map (translate false)) := by
  have hempty : row.map (translate false) = [[]] ↔ row = [[]] := by
    constructor
    · intro h
      obtain ⟨f, hrow, hf⟩ := List.map_eq_singleton_iff.1 h
      rw [hrow, translate_eq_nil_iff.1 hf]
    · rintro rfl
      rfl
  rw [writeFields, writeFields]
  by_cases h : row = [[]]
  · rw [if_pos h, if_pos (hempty.2 h)]
    decide
  · rw [if_neg h, if_neg fun h' => h (hempty.1 h'), translate_intercalate]

lemma translate_write (rows : List (List (List Char))) :
    translate false (rows.flatMap fun row => writeFields row ++ ['\r', '\n']) =
      (rows.map (List.map (translate false))).flatMap fun row => writeFields row ++ ['\n'] := by
  induction rows with
  | nil => rfl
  | cons row rows ih =>
    rw [List.flatMap_cons, List.map_cons, List.flatMap_cons, List.append_assoc, List.append_assoc,
      translate_append (by simp), translate_writeFields, ← ih]
    simp [translate]

/-! ## What the reader sees of a file -/

/-- A character, with the end of its line. -/
def charEvents (c : Char) : List (Option Char) := if c = '\n' then [some c, none] else [some c]

/-- A text as the reader's automaton takes it, when it ends with a line. -/
def events (text : List Char) : List (Option Char) := text.flatMap charEvents

lemma events_cons (c : Char) (text : List Char) : events (c :: text) = charEvents c ++ events text :=
  List.flatMap_cons

lemma events_append (a b : List Char) : events (a ++ b) = events a ++ events b :=
  List.flatMap_append

lemma flatMap_lines (text : List Char) (h : ∀ c ∈ text.getLast?, c = '\n') :
    (lines text).flatMap (fun line => line.map some ++ [none]) = events text := by
  induction text with
  | nil => rfl
  | cons c cs ih =>
    rw [lines, events_cons, charEvents]
    cases cs with
    | nil =>
      obtain rfl := h c rfl
      rfl
    | cons d ds =>
      have ih := ih fun e he => h e (by rwa [List.getLast?_cons_cons])
      by_cases hc : c = '\n'
      · rw [if_pos hc, if_pos hc, List.flatMap_cons, ih]
        rfl
      · rw [if_neg hc, if_neg hc, ← ih]
        cases hlines : lines (d :: ds) with
        | nil =>
          rw [lines] at hlines
          split at hlines
          · exact absurd hlines (by simp)
          · cases hrest : lines ds <;> simp [hrest] at hlines
        | cons line rest => rfl

namespace Reader

lemma foldlM_readLine (r : Reader) (ls : List (List Char)) :
    ls.foldlM readLine r = (ls.flatMap fun line => line.map some ++ [none]).foldlM step r := by
  induction ls generalizing r with
  | nil => rfl
  | cons line ls ih =>
    rw [List.foldlM_cons, List.flatMap_cons, List.foldlM_append]
    exact congrArg (Option.bind (readLine r line)) (funext fun r' => ih r')

variable {field : List Char} {fields : List (List Char)} {rows : List (List (List Char))}

/-- Inside quotes, up to the closing one. -/
lemma feed_double (text : List Char) (hlen : field.length + text.length ≤ fieldLimit) :
    (events (double text)).foldlM step ⟨.inQuotedField, field, fields, rows⟩ =
      some ⟨.inQuotedField, field ++ text, fields, rows⟩ := by
  induction text generalizing field with
  | nil => simp [double, events]
  | cons c cs ih =>
    rw [List.length_cons] at hlen
    have hroom : field.length < fieldLimit := by omega
    have hrest := @ih (field ++ [c]) (by rw [List.length_append, List.length_singleton]; omega)
    rw [List.append_assoc, List.singleton_append] at hrest
    rw [double_cons, events_append, List.foldlM_append, ← hrest]
    by_cases hquote : c = '"'
    · subst hquote
      simp [events, charEvents, step, addChar, hroom]
    · by_cases hnewline : c = '\n'
      · subst hnewline
        simp [events, charEvents, step, addChar, hroom]
      · simp [events, charEvents, step, addChar, hroom, hquote, hnewline]

lemma feed_plain (text : List Char) (hplain : text.any special = false)
    (hlen : field.length + text.length ≤ fieldLimit) :
    (events text).foldlM step ⟨.inField, field, fields, rows⟩ =
      some ⟨.inField, field ++ text, fields, rows⟩ := by
  induction text generalizing field with
  | nil => simp [events]
  | cons c cs ih =>
    obtain ⟨hcomma, -, hreturn, hnewline⟩ := not_mem_of_not_special hplain List.mem_cons_self
    rw [List.any_cons, Bool.or_eq_false_iff] at hplain
    rw [List.length_cons] at hlen
    have hroom : field.length < fieldLimit := by omega
    have hrest := @ih (field ++ [c]) hplain.2
      (by rw [List.length_append, List.length_singleton]; omega)
    rw [List.append_assoc, List.singleton_append] at hrest
    rw [events_cons, List.foldlM_append, ← hrest]
    simp [charEvents, step, addChar, hroom, hcomma, hreturn, hnewline]

/-- A state in which a separator completes the field. -/
def Ends (state : ReaderState) : Prop :=
  state = .startField ∨ state = .inField ∨ state = .quoteInQuotedField

/-- A written field is read up to what follows it. -/
lemma feed_writeField (text : List Char) (hlen : text.length ≤ fieldLimit) :
    ∃ state, Ends state ∧
      (events (writeField text)).foldlM step ⟨.startField, [], fields, rows⟩ =
        some ⟨state, text, fields, rows⟩ := by
  rw [writeField]
  split
  · refine ⟨.quoteInQuotedField, Or.inr (Or.inr rfl), ?_⟩
    have hdouble := @feed_double [] fields rows text (by simpa using hlen)
    rw [List.nil_append] at hdouble
    rw [events_cons, events_append, List.foldlM_append]
    show (events (double text) ++ events ['"']).foldlM step ⟨.inQuotedField, [], fields, rows⟩ = _
    rw [List.foldlM_append, hdouble]
    rfl
  · next hplain =>
    have hplain := Bool.eq_false_iff.2 hplain
    cases text with
    | nil => exact ⟨.startField, Or.inl rfl, rfl⟩
    | cons c cs =>
      refine ⟨.inField, Or.inr (Or.inl rfl), ?_⟩
      obtain ⟨hcomma, hquote, hreturn, hnewline⟩ :=
        not_mem_of_not_special hplain List.mem_cons_self
      rw [List.any_cons, Bool.or_eq_false_iff] at hplain
      have hrest := @feed_plain [c] fields rows cs hplain.2
        (by rwa [List.length_singleton, Nat.add_comm])
      rw [events_cons, List.foldlM_append]
      simp [charEvents, step, startField, addChar, fieldLimit, hcomma, hquote, hreturn, hnewline]
      exact hrest

lemma step_comma {state : ReaderState} (h : Ends state) (text : List Char) :
    step ⟨state, text, fields, rows⟩ (some ',') = some ⟨.startField, [], fields ++ [text], rows⟩ := by
  obtain rfl | rfl | rfl := h <;> rfl

lemma step_newline {state : ReaderState} (h : Ends state) (text : List Char) :
    step ⟨state, text, fields, rows⟩ (some '\n') = some ⟨.eatCrnl, [], fields ++ [text], rows⟩ := by
  obtain rfl | rfl | rfl := h <;> rfl

/-- A row is read field by field. -/
lemma feed_fields (row : List (List Char)) (hne : row ≠ [])
    (hlen : ∀ f ∈ row, f.length ≤ fieldLimit) :
    (events ([','].intercalate (row.map writeField) ++ ['\n'])).foldlM step
      ⟨.startField, [], fields, rows⟩ = some ⟨.startRecord, [], [], rows ++ [fields ++ row]⟩ := by
  induction row generalizing fields with
  | nil => exact absurd rfl hne
  | cons f row ih =>
    obtain ⟨state, hends, hfield⟩ := @feed_writeField fields rows f (hlen f List.mem_cons_self)
    cases row with
    | nil =>
      rw [List.map_singleton, List.intercalate_singleton, events_append, List.foldlM_append, hfield]
      show (some '\n' :: none :: []).foldlM step ⟨state, f, fields, rows⟩ = _
      rw [List.foldlM_cons, step_newline hends]
      rfl
    | cons g row =>
      have hrest := @ih (fields ++ [f]) (by simp) fun f hf => hlen f (List.mem_cons_of_mem _ hf)
      rw [List.append_assoc, List.singleton_append] at hrest
      rw [List.map_cons, List.map_cons, List.intercalate_cons_cons, List.append_assoc,
        List.append_assoc, events_append, List.foldlM_append, hfield, ← hrest]
      show (some ',' :: events _).foldlM step ⟨state, f, fields, rows⟩ = _
      rw [List.foldlM_cons, step_comma hends]
      rfl

/-- Anything but a line end begins a row as it begins a field. -/
lemma foldlM_startRecord {text : List Char} (hne : text ≠ [])
    (h : ∀ c ∈ text.head?, c ≠ '\n' ∧ c ≠ '\r') :
    (events text).foldlM step ⟨.startRecord, [], fields, rows⟩ =
      (events text).foldlM step ⟨.startField, [], fields, rows⟩ := by
  cases text with
  | nil => exact absurd rfl hne
  | cons c cs =>
    obtain ⟨hnewline, hreturn⟩ := h c rfl
    have hstep : step ⟨.startRecord, [], fields, rows⟩ (some c) =
        step ⟨.startField, [], fields, rows⟩ (some c) := by
      simp [step, startField, addChar, saveField, hnewline, hreturn, fieldLimit]
    rw [events_cons, charEvents, if_neg hnewline, List.singleton_append, List.foldlM_cons,
      List.foldlM_cons, hstep]

lemma intercalate_ne_nil {row : List (List Char)} (hne : row ≠ []) (hempty : row ≠ [[]]) :
    [','].intercalate (row.map writeField) ≠ [] := by
  match row with
  | [] => exact absurd rfl hne
  | [f] =>
    rw [List.map_singleton, List.intercalate_singleton, writeField]
    split
    · simp
    · exact fun hf => hempty (congrArg (fun f => [f]) hf)
  | f :: g :: row =>
    rw [List.map_cons, List.map_cons, List.intercalate_cons_cons]
    simp

lemma feed_row (row : List (List Char)) (hlen : ∀ f ∈ row, f.length ≤ fieldLimit) :
    (events (writeFields row ++ ['\n'])).foldlM step ⟨.startRecord, [], [], rows⟩ =
      some ⟨.startRecord, [], [], rows ++ [row]⟩ := by
  by_cases hnil : row = []
  · subst hnil
    rfl
  by_cases hempty : row = [[]]
  · subst hempty
    rfl
  have hne := intercalate_ne_nil hnil hempty
  rw [writeFields, if_neg hempty, foldlM_startRecord (by simp), feed_fields row hnil hlen]
  · rfl
  · intro c hc
    rw [List.head?_append_of_ne_nil _ hne] at hc
    exact not_lineEnd_of_head?_intercalate hc

lemma feed_rows (before after : List (List (List Char)))
    (hlen : ∀ row ∈ after, ∀ f ∈ row, f.length ≤ fieldLimit) :
    (events (after.flatMap fun row => writeFields row ++ ['\n'])).foldlM step
      ⟨.startRecord, [], [], before⟩ = some ⟨.startRecord, [], [], before ++ after⟩ := by
  induction after generalizing before with
  | nil => simp [events]
  | cons row after ih =>
    have hrest := ih (before ++ [row]) fun row hrow => hlen row (List.mem_cons_of_mem _ hrow)
    rw [List.append_assoc, List.singleton_append] at hrest
    rw [List.flatMap_cons, events_append, List.foldlM_append,
      feed_row row (hlen row List.mem_cons_self), ← hrest]
    rfl

end Reader

lemma getLast?_rows (rows : List (List (List Char))) :
    ∀ c ∈ (rows.flatMap fun row => writeFields row ++ ['\n']).getLast?, c = '\n' := by
  induction rows using List.reverseRecOn with
  | nil => simp
  | append_singleton rows row _ =>
    rw [List.flatMap_append, List.flatMap_singleton, ← List.append_assoc]
    simp

/-- **The reader undoes the writer**, up to the line ends inside the fields. -/
theorem read_write {rows : List (List String)}
    (hlen : ∀ row ∈ rows, ∀ field ∈ row, field.toList.length ≤ fieldLimit) :
    read (write rows) = some (rows.map (List.map normalize)) := by
  have hfeed := Reader.feed_rows [] ((rows.map (List.map String.toList)).map (List.map (translate false)))
    (by
      intro row hrow f hf
      obtain ⟨row', hrow', rfl⟩ := List.mem_map.1 hrow
      obtain ⟨row'', hrow'', rfl⟩ := List.mem_map.1 hrow'
      obtain ⟨f', hf', rfl⟩ := List.mem_map.1 hf
      obtain ⟨f'', hf'', rfl⟩ := List.mem_map.1 hf'
      exact (length_translate_le _ _).trans (hlen row'' hrow'' f'' hf''))
  have htext : translate false (write rows).toList =
      ((rows.map (List.map String.toList)).map (List.map (translate false))).flatMap
        fun row => writeFields row ++ ['\n'] := by
    rw [write, String.toList_ofList, ← translate_write, List.flatMap_map]
  rw [read, htext, Reader.foldlM_readLine, flatMap_lines _ (getLast?_rows _), hfeed, Option.map_some,
    Reader.finish, if_neg (by simp), List.nil_append]
  simp only [List.map_map, Function.comp_def]
  rfl

/-- A field that comes back as it was. -/
structure Plain (field : String) : Prop where
  noReturn : '\r' ∉ field.toList
  short : field.toList.length ≤ fieldLimit

instance (field : String) : Decidable (Plain field) :=
  decidable_of_iff ('\r' ∉ field.toList ∧ field.toList.length ≤ fieldLimit)
    ⟨fun h => ⟨h.1, h.2⟩, fun h => ⟨h.1, h.2⟩⟩

lemma Plain.normalize_eq {field : String} (h : Plain field) : normalize field = field := by
  rw [normalize, translate_eq_self h.noReturn, String.ofList_toList]

/-- **A table under a header**: the reader gives the written rows by the names of the header. -/
theorem readDicts_write {names : List String} {rows : List (List String)}
    (hplain : ∀ row ∈ names :: rows, ∀ field ∈ row, Plain field) (hne : ∀ row ∈ rows, row ≠ []) :
    readDicts (write (names :: rows)) = some (rows.map (record names)) := by
  have hread : read (write (names :: rows)) = some (names :: rows) := by
    rw [read_write fun row hrow field hfield => (hplain row hrow field hfield).short]
    refine congrArg some ((List.map_congr_left fun row hrow => ?_).trans (List.map_id _))
    exact (List.map_congr_left fun field hfield => (hplain row hrow field hfield).normalize_eq).trans
      (List.map_id _)
  have hrows : rows.filter (fun row => decide (row ≠ [])) = rows :=
    List.filter_eq_self.2 fun row hrow => decide_eq_true (hne row hrow)
  rw [readDicts, hread, Option.map_some, List.tail_cons, List.headD_cons, hrows]

end Csv
end TickerWatch
