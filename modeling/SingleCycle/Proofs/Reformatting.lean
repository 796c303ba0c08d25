import Mathlib.Logic.Relation
import SingleCycle.Proofs.HexText

/-!
# The layout of program texts

Lines without code, the white space around lines, the kind of their terminators and comments behind
them make no difference to what is read from a program text. A change of the layout keeps the code
parts of the text, and neither the passes of the assembler nor the reader of hexadecimal words see
more of it than these, except for the numbers of the lines. So what is read stays the same, and
errors and warnings move along with their lines.
-/

namespace SingleCycle

/-! ## Changes of the layout -/

/-- The layout of a single line is changed. -/
inductive LineEdit : List Char → List Char → Prop where
  /-- The white space at its two ends is replaced. -/
  | margins {before after before' after' body : List Char}
      (hbefore : ∀ c ∈ before, Text.isBlank c = true) (hafter : ∀ c ∈ after, Text.isBlank c = true)
      (hbefore' : ∀ c ∈ before', Text.isBlank c = true)
      (hafter' : ∀ c ∈ after', Text.isBlank c = true) :
      LineEdit (before ++ (body ++ after)) (before' ++ (body ++ after'))
  /-- A comment behind a number sign is appended. -/
  | number (line text : List Char) : LineEdit line (line ++ '#' :: text)
  /-- A comment behind two slashes is appended. White space keeps them apart from a slash that the
  line may end with. -/
  | slashes {line blanks text : List Char} (hne : blanks ≠ [])
      (hblanks : ∀ c ∈ blanks, Text.isBlank c = true) :
      LineEdit line (line ++ (blanks ++ '/' :: '/' :: text))

/-- The layout of a text is changed at one place. -/
inductive LayoutEdit : List Char → List Char → Prop where
  /-- A line without code is put in where a line begins. -/
  | insertLine {above line ending below : List Char}
      (habove : ∀ c ∈ above.getLast?, Text.isTerminator c = true) (hline : LineOf [] line)
      (hending : LineBreak ending) :
      LayoutEdit (above ++ below) (above ++ (line ++ (ending ++ below)))
  /-- A line without code is put behind the last line, which gets a terminator for it. -/
  | appendLine {source ending line : List Char} (hending : LineBreak ending)
      (hline : LineOf [] line) : LayoutEdit source (source ++ (ending ++ line))
  /-- A line is changed, and stays one line. -/
  | editLine {above line line' below : List Char}
      (habove : ∀ c ∈ above.getLast?, Text.isTerminator c = true)
      (hbelow : ∀ c ∈ below.head?, Text.isTerminator c = true) (h : LineEdit line line')
      (hline : ∀ c ∈ line, Text.isTerminator c = false)
      (hline' : ∀ c ∈ line', Text.isTerminator c = false) :
      LayoutEdit (above ++ (line ++ below)) (above ++ (line' ++ below))
  /-- A terminator is replaced. -/
  | terminator {above ending ending' below : List Char} (hending : LineBreak ending)
      (hending' : LineBreak ending') :
      LayoutEdit (above ++ (ending ++ below)) (above ++ (ending' ++ below))

theorem LineEdit.codePart_eq {line line' : List Char} (h : LineEdit line line') :
    codePart line = codePart line' := by
  cases h with
  | @margins before after before' after' body hbefore hafter hbefore' hafter' =>
    have hold : codePart (before ++ (body ++ (after ++ []))) = codePart body :=
      codePart_margins hbefore hafter .none nofun
    have hnew : codePart (before' ++ (body ++ (after' ++ []))) = codePart body :=
      codePart_margins hbefore' hafter' .none nofun
    rw [List.append_nil] at hold hnew
    exact hold.trans hnew.symm
  | number line text =>
    have hnew : codePart ([] ++ (line ++ ([] ++ '#' :: text))) = codePart line :=
      codePart_margins nofun nofun (.number text) nofun
    exact hnew.symm
  | @slashes line blanks text hne hblanks =>
    have hnew : codePart ([] ++ (line ++ (blanks ++ '/' :: '/' :: text))) = codePart line :=
      codePart_margins nofun hblanks (.slashes text) fun hnil => absurd hnil hne
    exact hnew.symm

/-- The code in front of the start of a line, and behind it. -/
theorem codeParts_lines_start {above : List Char}
    (habove : ∀ c ∈ above.getLast?, Text.isTerminator c = true) (below : List Char) :
    codeParts (Text.lines (above ++ below)) =
      codeParts (Text.lines above) ++ codeParts (Text.lines below) := by
  rcases List.eq_nil_or_concat above with rfl | ⟨front, c, rfl⟩
  · rfl
  · have hc : Text.isTerminator c = true := habove c (by simp)
    have hfront := codeParts_lines_terminator hc front []
    rw [List.concat_eq_append, hfront, List.append_assoc]
    exact (codeParts_lines_terminator hc front below).trans (by simp [codeParts, Text.lines])

/-- The code of the first line of a text, and behind it. -/
theorem codeParts_lines_first {line below : List Char}
    (hline : ∀ c ∈ line, Text.isTerminator c = false)
    (hbelow : ∀ c ∈ below.head?, Text.isTerminator c = true) :
    codeParts (Text.lines (line ++ below)) = codeParts [line] ++ codeParts (Text.lines below) := by
  cases below with
  | nil =>
    rw [List.append_nil, codeParts_lines_last hline]
    exact (List.append_nil _).symm
  | cons c below =>
    have hc : Text.isTerminator c = true := hbelow c rfl
    have hrest : codeParts (Text.lines (c :: below)) = codeParts (Text.lines below) :=
      codeParts_lines_terminator hc [] below
    rw [hrest]
    exact codeParts_lines_append hline hc

/-- A change of the layout keeps the code of a text. -/
theorem LayoutEdit.codeParts_eq {s t : List Char} (h : LayoutEdit s t) :
    codeParts (Text.lines s) = codeParts (Text.lines t) := by
  have hnone : ∀ {line : List Char}, LineOf [] line → codeParts (Text.lines line) = [] := by
    intro line hline
    rw [codeParts_lines_last hline.unbroken,
      codeParts_of_code (codePart_of_lineOf hline (.of_solid nofun) nofun)]
    rfl
  cases h with
  | insertLine habove hline hending =>
    rw [codeParts_lines_start habove, codeParts_lines_start habove, codeParts_lines_break hending,
      hnone hline, List.nil_append]
  | appendLine hending hline =>
    rw [codeParts_lines_break hending, hnone hline, List.append_nil]
  | editLine habove hbelow h hline hline' =>
    have hsame := codeParts_of_code h.codePart_eq
    rw [codeParts_lines_start habove, codeParts_lines_start habove,
      codeParts_lines_first hline hbelow, codeParts_lines_first hline' hbelow, hsame,
      codeParts_of_code rfl]
  | terminator hending hending' =>
    rw [codeParts_lines_break hending, codeParts_lines_break hending']

/-! ## Lines that have moved -/

/-- A line with code has moved from one text to another: it has the number `n` in the one and the
number `m` in the other. In both it is the same among the lines with code. -/
def LineMoved (s t : List Char) (n m : Nat) : Prop :=
  ∃ (i : Nat) (code : List Char), (HexProgram.codeLines s)[i]? = some (n, code) ∧
    (HexProgram.codeLines t)[i]? = some (m, code)

/-- Two errors that differ in the numbers of their lines only. -/
structure LineError.Moved (moved : Nat → Nat → Prop) (e e' : LineError) : Prop where
  line : ∃ n m : Nat, moved n m ∧ e.line = n ∧ e'.line = m
  complaint : e.complaint = e'.complaint

/-- Two errors that are the same, but for the number of their line if they have one. -/
inductive AssemblyError.Moved (moved : Nat → Nat → Prop) :
    AssemblyError → AssemblyError → Prop where
  | line {e e' : LineError} (h : e.Moved moved e') : Moved moved (.line e) (.line e')
  | longNumeral (digits : Nat) : Moved moved (.longNumeral digits) (.longNumeral digits)
  | longDistance : Moved moved .longDistance .longDistance
  | noInstruction : Moved moved .noInstruction .noInstruction

/-- Two rows that differ in the numbers of their lines only. -/
structure Row.Moved (moved : Nat → Nat → Prop) (row row' : Row) : Prop where
  line : moved row.line row'.line
  address : row.address = row'.address
  word : row.word = row'.word
  code : row.code = row'.code

/-- Two assemblies that differ in the numbers of lines only. -/
structure Assembly.Moved (moved : Nat → Nat → Prop) (a b : Assembly) : Prop where
  rows : List.Forall₂ (Row.Moved moved) a.rows b.rows
  failure : Option.Rel (AssemblyError.Moved moved) a.failure b.failure

/-- Two results are the same value, or errors that belong together. -/
inductive Agrees {ε α : Type} (errors : ε → ε → Prop) : Except ε α → Except ε α → Prop where
  | ok (value : α) : Agrees errors (.ok value) (.ok value)
  | error {e e' : ε} (h : errors e e') : Agrees errors (.error e) (.error e')

theorem Agrees.map {ε α β : Type} {errors : ε → ε → Prop} {r r' : Except ε α}
    (h : Agrees errors r r') (f : α → β) : Agrees errors (r.map f) (r'.map f) := by
  cases h with
  | ok value => exact .ok (f value)
  | error h => exact .error h

/-- Two texts come to the same, as hexadecimal words as well as assembly. -/
structure ReadAlike (s t : List Char) : Prop where
  /-- Both or none of them are taken for hexadecimal words. -/
  recognizes : HexProgram.recognizes s = HexProgram.recognizes t
  /-- As hexadecimal words they have the same words, or the same error at a line that has moved. -/
  hexWords : Agrees (LineError.Moved (LineMoved s t)) (HexProgram.words s) (HexProgram.words t)
  /-- They have the same labels, or the same error in them. -/
  labels : Agrees (LineError.Moved (LineMoved s t))
    (LabelTable.ofLines (sourceLines (Text.lines s)))
    (LabelTable.ofLines (sourceLines (Text.lines t)))
  /-- They assemble to the same words, or fail with the same error. -/
  words : Agrees (AssemblyError.Moved (LineMoved s t)) (Assembly.ofText s).words
    (Assembly.ofText t).words
  /-- The same lines are skipped, and warned of. -/
  skipped : List.Forall₂ (Row.Moved (LineMoved s t)) (Assembly.ofText s).skipped
    (Assembly.ofText t).skipped

/-! ## Lines with other numbers -/

/-- Two numbered lines that differ in their numbers only. -/
def Renumbered {α : Type} (moved : Nat → Nat → Prop) (line line' : Nat × α) : Prop :=
  moved line.1 line'.1 ∧ line.2 = line'.2

section

variable {moved : Nat → Nat → Prop} {lines lines' : List (Nat × SourceLine)}

theorem assembleLine_moved {n m : Nat} (h : moved n m) (labels : LabelTable) (address : Int)
    (code : List Char) :
    Agrees (AssemblyError.Moved moved) (assembleLine labels address n code)
      (assembleLine labels address m code) := by
  unfold assembleLine
  obtain ⟨word, operands⟩ := Text.splitWord code
  dsimp only
  by_cases hempty : word.isEmpty = true
  · rw [if_pos hempty, if_pos hempty]
    exact .error .noInstruction
  rw [if_neg hempty, if_neg hempty]
  cases Mnemonic.ofName? (word.map Char.toLower) with
  | none => exact .ok none
  | some mnemonic =>
    dsimp only
    cases Statement.parse mnemonic code operands >>= Statement.encode labels address with
    | ok encoded => exact .ok (some encoded)
    | error error =>
      cases error with
      | fault found => exact .error (.line ⟨⟨n, m, h, rfl, rfl⟩, rfl⟩)
      | longNumeral digits => exact .error (.longNumeral digits)
      | longDistance => exact .error .longDistance

theorem LabelTable.extend_moved (h : List.Forall₂ (Renumbered moved) lines lines')
    (table : LabelTable) (address : Nat) :
    Agrees (LineError.Moved moved) (extend table address lines)
      (extend table address lines') := by
  induction h generalizing table address with
  | nil => exact .ok table
  | @cons entry entry' lines lines' hline hlines ih =>
    obtain ⟨n, line⟩ := entry
    obtain ⟨m, line'⟩ := entry'
    obtain ⟨hmoved, rfl⟩ : moved n m ∧ line = line' := hline
    cases line with
    | blank => exact ih table address
    | instruction code => exact ih table (address + 4)
    | label name =>
      unfold extend
      by_cases hempty : name.isEmpty = true
      · rw [if_pos hempty, if_pos hempty]
        exact .error ⟨⟨n, m, hmoved, rfl, rfl⟩, rfl⟩
      rw [if_neg hempty, if_neg hempty]
      by_cases hbound : (table.address? name).isSome = true
      · rw [if_pos hbound, if_pos hbound]
        exact .error ⟨⟨n, m, hmoved, rfl, rfl⟩, rfl⟩
      rw [if_neg hbound, if_neg hbound]
      exact ih _ address

theorem Assembly.rowsFrom_moved (h : List.Forall₂ (Renumbered moved) lines lines')
    (labels : LabelTable) (address : Nat) :
    (rowsFrom labels address lines).Moved moved (rowsFrom labels address lines') := by
  induction h generalizing address with
  | nil => exact ⟨.nil, .none⟩
  | @cons entry entry' lines lines' hline hlines ih =>
    obtain ⟨n, line⟩ := entry
    obtain ⟨m, line'⟩ := entry'
    obtain ⟨hmoved, rfl⟩ : moved n m ∧ line = line' := hline
    cases line with
    | blank => exact ih address
    | label name => exact ih address
    | instruction code =>
      have hrow := assembleLine_moved hmoved labels address code
      unfold rowsFrom
      generalize assembleLine labels address n code = result at hrow ⊢
      generalize assembleLine labels address m code = result' at hrow ⊢
      cases hrow with
      | error herror => exact ⟨.nil, .some herror⟩
      | ok word =>
        obtain ⟨hrows, hfailure⟩ := ih (address + 4)
        exact ⟨.cons ⟨hmoved, rfl, rfl, rfl⟩ hrows, hfailure⟩

theorem Assembly.ofLines_moved (h : List.Forall₂ (Renumbered moved) lines lines') :
    (ofLines lines).Moved moved (ofLines lines') := by
  have hlabels := LabelTable.extend_moved h [] 0
  unfold ofLines LabelTable.ofLines
  generalize LabelTable.extend [] 0 lines = result at hlabels ⊢
  generalize LabelTable.extend [] 0 lines' = result' at hlabels ⊢
  cases hlabels with
  | error herror => exact ⟨.nil, .some (.line herror)⟩
  | ok labels => exact rowsFrom_moved h labels 0

theorem HexProgram.wordsOf_moved {lines lines' : List (Nat × List Char)}
    (h : List.Forall₂ (Renumbered moved) lines lines') :
    Agrees (LineError.Moved moved) (wordsOf lines) (wordsOf lines') := by
  induction h with
  | nil => exact .ok []
  | @cons entry entry' lines lines' hline hlines ih =>
    obtain ⟨n, code⟩ := entry
    obtain ⟨m, code'⟩ := entry'
    obtain ⟨hmoved, rfl⟩ : moved n m ∧ code = code' := hline
    unfold wordsOf
    cases word? code with
    | none => exact .error ⟨⟨n, m, hmoved, rfl, rfl⟩, rfl⟩
    | some word => exact ih.map (word :: ·)

end

/-! ## Results of assemblies -/

theorem Row.filterMap_word_moved {moved : Nat → Nat → Prop} {rows rows' : List Row}
    (h : List.Forall₂ (Row.Moved moved) rows rows') :
    rows.filterMap Row.word = rows'.filterMap Row.word := by
  induction h with
  | nil => rfl
  | cons hrow hrows ih => rw [List.filterMap_cons, List.filterMap_cons, hrow.word, ih]

namespace Assembly.Moved

variable {moved : Nat → Nat → Prop} {a b : Assembly}

theorem result {α : Type} (h : a.Moved moved b) (value : α) :
    Agrees (AssemblyError.Moved moved) (a.result value) (b.result value) := by
  obtain ⟨rows, failure⟩ := a
  obtain ⟨rows', failure'⟩ := b
  cases h.failure with
  | none => exact .ok value
  | some herror => exact .error herror

theorem words (h : a.Moved moved b) :
    Agrees (AssemblyError.Moved moved) a.words b.words := by
  unfold Assembly.words
  rw [Row.filterMap_word_moved h.rows]
  exact h.result _

theorem skipped (h : a.Moved moved b) :
    List.Forall₂ (Row.Moved moved) a.skipped b.skipped := by
  refine List.rel_filter (fun row row' hrow => ?_) h.rows
  show row.word.isNone = true ↔ row'.word.isNone = true
  rw [hrow.word]

end Assembly.Moved

/-! ## Texts with the same code -/

/-- Lines with the same code differ in their numbers only, and they have moved. -/
theorem renumbered_codeLines {s t : List Char}
    (h : codeParts (Text.lines s) = codeParts (Text.lines t)) :
    List.Forall₂ (Renumbered (LineMoved s t)) (HexProgram.codeLines s)
      (HexProgram.codeLines t) := by
  rw [← HexProgram.map_snd_codeLines, ← HexProgram.map_snd_codeLines] at h
  refine List.forall₂_iff_get.2 ⟨by simpa using congrArg List.length h, fun i hi hi' => ?_⟩
  have hline : (HexProgram.codeLines s)[i]? = some (HexProgram.codeLines s)[i] :=
    List.getElem?_eq_getElem hi
  have hline' : (HexProgram.codeLines t)[i]? = some (HexProgram.codeLines t)[i] :=
    List.getElem?_eq_getElem hi'
  have hcode : (HexProgram.codeLines s)[i].2 = (HexProgram.codeLines t)[i].2 := by
    have hsnd := congrArg (fun codes : List (List Char) => codes[i]?) h
    simpa [hline, hline'] using hsnd
  refine ⟨⟨i, (HexProgram.codeLines s)[i].2, hline, hline'.trans ?_⟩, hcode⟩
  rw [hcode]
  rfl

theorem readAlike_of_codeParts {s t : List Char}
    (h : codeParts (Text.lines s) = codeParts (Text.lines t)) : ReadAlike s t := by
  have hcode := renumbered_codeLines h
  have hlines : List.Forall₂ (Renumbered (LineMoved s t))
      ((sourceLines (Text.lines s)).filter (·.2.holdsCode))
      ((sourceLines (Text.lines t)).filter (·.2.holdsCode)) := by
    rw [filter_sourceLines, filter_sourceLines, List.forall₂_map_left_iff,
      List.forall₂_map_right_iff]
    exact hcode.imp fun line line' hline => ⟨hline.1, congrArg SourceLine.ofCode hline.2⟩
  have hlabels := LabelTable.extend_moved hlines [] 0
  rw [LabelTable.extend_filter, LabelTable.extend_filter] at hlabels
  have hassembly := Assembly.ofLines_moved hlines
  rw [(ofLines_filter _).2, (ofLines_filter _).2] at hassembly
  refine ⟨?_, HexProgram.wordsOf_moved hcode, hlabels, hassembly.words, hassembly.skipped⟩
  unfold HexProgram.recognizes
  generalize HexProgram.codeLines s = lines at hcode ⊢
  generalize HexProgram.codeLines t = lines' at hcode ⊢
  cases hcode with
  | nil => rfl
  | cons hline hrest => exact congrArg HexProgram.isHex hline.2

/-- A text is read as it was after any number of changes of its layout, made or undone. -/
theorem readAlike_of_layoutEdits {s t : List Char} (h : Relation.EqvGen LayoutEdit s t) :
    ReadAlike s t := by
  refine readAlike_of_codeParts ?_
  induction h with
  | rel s t hedit => exact hedit.codeParts_eq
  | refl s => rfl
  | symm s t _ ih => exact ih.symm
  | trans s t u _ _ ih ih' => exact ih.trans ih'

/-- A terminator is replaced, a line with a comment put in, and a comment appended to the line below
it. The error of that line moves down with it. -/
theorem readAlike_commented :
    let s := ['a', ':', '\n', 'l', 'w']
    let t := ['a', ':', '\r', '\n', '#', '\n', 'l', 'w', ' ', '/', '/', 'x']
    let complaint : Complaint := .operand .lw (.memoryForm [])
    ReadAlike s t ∧ (Assembly.ofText s).words = .error (.line ⟨2, complaint⟩) ∧
      (Assembly.ofText t).words = .error (.line ⟨3, complaint⟩) := by
  intro s t complaint
  have hbreak : LineBreak ['\n'] := .single rfl
  have hterminator : LayoutEdit s ['a', ':', '\r', '\n', 'l', 'w'] :=
    @LayoutEdit.terminator ['a', ':'] _ _ ['l', 'w'] hbreak .pair
  have hinsert : LayoutEdit ['a', ':', '\r', '\n', 'l', 'w']
      ['a', ':', '\r', '\n', '#', '\n', 'l', 'w'] := by
    have hline : LineOf [] ['#'] := by
      refine ⟨⟨[], [], _, rfl, nofun, nofun, .number []⟩, ?_⟩
      simp only [List.forall_mem_cons]
      exact ⟨rfl, nofun⟩
    refine @LayoutEdit.insertLine ['a', ':', '\r', '\n'] _ _ ['l', 'w'] ?_ hline hbreak
    rintro c ⟨⟩
    rfl
  have hcomment : LayoutEdit ['a', ':', '\r', '\n', '#', '\n', 'l', 'w'] t := by
    have hblank : ∀ c ∈ [' '], Text.isBlank c = true := by
      simp only [List.forall_mem_cons]
      exact ⟨rfl, nofun⟩
    refine @LayoutEdit.editLine ['a', ':', '\r', '\n', '#', '\n'] _ _ [] ?_ nofun
      (@LineEdit.slashes ['l', 'w'] [' '] ['x'] nofun hblank) ?_ ?_
    · rintro c ⟨⟩
      rfl
    · simp only [List.forall_mem_cons]
      exact ⟨rfl, rfl, nofun⟩
    · simp only [List.cons_append, List.nil_append, List.forall_mem_cons]
      exact ⟨rfl, rfl, rfl, rfl, rfl, rfl, nofun⟩
  have hedits : Relation.EqvGen LayoutEdit s t :=
    .trans _ _ _ (.rel _ _ hterminator) (.trans _ _ _ (.rel _ _ hinsert) (.rel _ _ hcomment))
  exact ⟨readAlike_of_layoutEdits hedits, rfl, rfl⟩

end SingleCycle
