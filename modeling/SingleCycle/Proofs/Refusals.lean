import SingleCycle.Program.Text
import SingleCycle.Proofs.AcceptedProgram
import SingleCycle.Proofs.Printing

/-!
# Refused program texts

A program text is refused at one of its lines, with two exceptions: a decimal numeral of too many
digits, which no line is named for, and a label whose distance has too many digits to be told. The
second one takes a text that is longer than any that can be written.
-/

namespace SingleCycle

theorem bind_eq_error {ε α β : Type} {x : Except ε α} {f : α → Except ε β} {e : ε}
    (h : (x >>= f) = .error e) : x = .error e ∨ ∃ a, x = .ok a ∧ f a = .error e := by
  cases x with
  | error e' =>
    cases h
    exact .inl rfl
  | ok a => exact .inr ⟨a, rfl, h⟩

/-! ## Operands -/

namespace Statement

/-- Only a label, or what stands in its place, keeps a statement that was read from a word. -/
theorem encode_eq_error {m : Mnemonic} {tokens : List (List Char)} {s : Statement}
    {labels : LabelTable} {address : Int} {error : OperandError} (hreads : Reads m tokens s)
    (h : s.encode labels address = .error error) :
    ∃ token ∈ tokens, Operand.immediate token = .error error ∨
      ∃ bits, Operand.offset labels address bits token = .error error := by
  cases hreads with
  | register | immediate | lw | sw | lui => cases h
  | @branch op a b label =>
    rcases bind_eq_error h with hoffset | ⟨d, -, h⟩
    · exact ⟨label, by simp, .inr ⟨13, hoffset⟩⟩
    · cases h
  | @jal a target =>
    refine ⟨target, by simp, ?_⟩
    rcases bind_eq_error h with hoffset | ⟨d, -, h⟩
    · unfold jumpOffset at hoffset
      split at hoffset
      · exact .inr ⟨21, hoffset⟩
      · exact .inl hoffset
    · cases h

end Statement

/-- Why one of the operands of an instruction at an address can be refused. -/
inductive OperandRefused (labels : LabelTable) (address : Int) (tokens : List (List Char)) :
    OperandError → Prop where
  | fault (fault : OperandFault) : OperandRefused labels address tokens (.fault fault)
  | longNumeral {token : List Char} {negative : Bool} {digits : List Nat} (hmem : token ∈ tokens)
      (htoken : Operand.immediate? token = some (.decimal negative digits))
      (hlong : Numeral.decimalLimit < digits.length) :
      OperandRefused labels address tokens (.longNumeral digits.length)
  | longDistance {token : List Char} {label : Int} (hlabel : labels.address? token = some label)
      (hlong : Numeral.fitsDecimal (label - address) = false) :
      OperandRefused labels address tokens .longDistance

/-- Something that is read from operands can only be refused because of one of them. -/
def Guarded {α : Type} (labels : LabelTable) (address : Int) (tokens : List (List Char))
    (x : Except OperandError α) : Prop :=
  ∀ error, x = .error error → OperandRefused labels address tokens error

namespace Guarded

variable {α : Type} {labels : LabelTable} {address : Int} {tokens : List (List Char)}

theorem ok (a : α) : Guarded labels address tokens (.ok a) := nofun

theorem fault (fault : OperandFault) :
    Guarded labels address tokens (.error (.fault fault) : Except OperandError α) := by
  rintro error ⟨⟩
  exact .fault fault

theorem register (token : List Char) :
    Guarded labels address tokens (Operand.register token) := by
  unfold Operand.register
  cases Operand.register? token with
  | some r => exact ok r
  | none => exact fault _

theorem immediate {token : List Char} (hmem : token ∈ tokens) :
    Guarded labels address tokens (Operand.immediate token) := by
  unfold Operand.immediate
  cases htoken : Operand.immediate? token with
  | none => exact fault _
  | some digits =>
    cases digits with
    | hex digits => exact ok _
    | decimal negative digits =>
      by_cases hlong : Numeral.decimalLimit < digits.length
      · simp only [Operand.Immediate.value, if_pos hlong]
        rintro error ⟨⟩
        exact .longNumeral hmem htoken hlong
      · simp only [Operand.Immediate.value, if_neg hlong]
        exact ok _

theorem offset (bits : Nat) (token : List Char) :
    Guarded labels address tokens (Operand.offset labels address bits token) := by
  unfold Operand.offset
  cases hlabel : labels.address? token with
  | none => exact fault _
  | some label =>
    simp only
    split
    · exact ok _
    · by_cases hshort : Numeral.fitsDecimal (label - address) = true
      · rw [if_pos hshort]
        exact fault _
      · rw [if_neg hshort]
        rintro error ⟨⟩
        exact .longDistance hlabel (eq_false_of_ne_true hshort)

theorem of_unreadable {line operands : List Char} {error : OperandError}
    (h : Unreadable line operands error) :
    OperandRefused labels address (Operand.split operands) error := by
  cases h with
  | memoryForm => exact .fault _
  | count got => exact .fault _
  | register hmem h => exact register _ error h
  | immediate hmem h => exact immediate hmem error h
  | shiftAmount hmem => exact .fault _

theorem encode {m : Mnemonic} {s : Statement} (h : Statement.Reads m tokens s) :
    Guarded labels address tokens (s.encode labels address) := by
  intro error herror
  obtain ⟨token, hmem, himm | ⟨bits, hoffset⟩⟩ := Statement.encode_eq_error h herror
  · exact immediate hmem error himm
  · exact offset bits token error hoffset

end Guarded

/-! ## Instruction lines -/

/-- A line with code can only be refused where its first word names an instruction: its operands are
not read, or they are read as a statement that has no word. -/
theorem assembleLine_eq_error {labels : LabelTable} {address line : Int} {raw : List Char}
    {error : AssemblyError} (hcode : codePart raw ≠ [])
    (h : assembleLine labels address line (codePart raw) = .error error) :
    ∃ m found, mnemonicOf? (codePart raw) = some m ∧ error = found.at line m ∧
      (Unreadable (codePart raw) (Text.splitWord (codePart raw)).2 found ∨
        ∃ s, Statement.Reads m (operandsOf (codePart raw)) s ∧
          s.encode labels address = .error found) := by
  unfold assembleLine at h
  simp only [splitWord_codePart hcode, Bool.false_eq_true, if_false] at h
  split at h
  · cases h
  · next m hm =>
    split at h
    · cases h
    · next found hfound =>
      cases h
      refine ⟨m, found, hm, rfl, ?_⟩
      rcases bind_eq_error hfound with hparse | ⟨s, hparse, hencode⟩
      · exact .inl (Statement.unreadable_of_parse hparse)
      · exact .inr ⟨s, Statement.reads_of_parse hparse, hencode⟩

/-- An instruction line is refused because of one of its operands. -/
theorem refused_of_assembleLine {labels : LabelTable} {address line : Int} {raw : List Char}
    {error : AssemblyError} (hcode : codePart raw ≠ [])
    (h : assembleLine labels address line (codePart raw) = .error error) :
    ∃ m found, OperandRefused labels address (operandsOf (codePart raw)) found ∧
      error = found.at line m := by
  obtain ⟨m, found, -, rfl, hfound⟩ := assembleLine_eq_error hcode h
  refine ⟨m, found, ?_, rfl⟩
  rcases hfound with hread | ⟨s, hreads, hencode⟩
  · exact Guarded.of_unreadable hread
  · exact Guarded.encode hreads found hencode

theorem codePart_of_mem_instructionLines {first number : Nat} {raws : List (List Char)}
    {code : List Char} (h : (number, code) ∈ instructionLines first raws) :
    ∃ raw, code = codePart raw ∧ codePart raw ≠ [] := by
  obtain ⟨⟨raw, n⟩, hmem, heq⟩ := List.mem_map.1 h
  have hholds : holdsInstruction raw = true := (List.mem_filter.1 hmem).2
  obtain ⟨-, rfl⟩ := Prod.mk.inj heq
  refine ⟨raw, rfl, ?_⟩
  intro hnil
  rw [holdsInstruction, hnil] at hholds
  cases hholds

/-! ## Program texts -/

/-- Why a program text can be refused. -/
inductive TextRefused (source : List Char) : AssemblyError → Prop where
  | line {error : LineError} (hfirst : 1 ≤ error.line)
      (hlast : error.line ≤ (Text.lines source).length) : TextRefused source (.line error)
  | longNumeral {number : Nat} {code token : List Char} {negative : Bool} {digits : List Nat}
      (hline : (number, code) ∈ instructionLines 1 (Text.lines source))
      (hmem : token ∈ operandsOf code)
      (htoken : Operand.immediate? token = some (.decimal negative digits))
      (hlong : Numeral.decimalLimit < digits.length) :
      TextRefused source (.longNumeral digits.length)
  | longDistance (hlines : 10 ^ Numeral.decimalLimit ≤ 4 * (Text.lines source).length) :
      TextRefused source .longDistance

theorem number_of_mem_linesFrom {first number : Nat} {raws : List (List Char)} {line : SourceLine}
    (h : (number, line) ∈ linesFrom first raws) :
    first ≤ number ∧ number < first + raws.length := by
  obtain ⟨⟨raw, n⟩, hmem, heq⟩ := List.mem_map.1 h
  obtain ⟨hlow, hhigh, -⟩ := List.mem_zipIdx hmem
  cases heq
  exact ⟨hlow, hhigh⟩

/-- The first pass is refused at one of the lines. -/
theorem LabelTable.line_of_extend_error {table : LabelTable} {address : Nat}
    {lines : List (Nat × SourceLine)} {error : LineError}
    (h : table.extend address lines = .error error) :
    ∃ number line, (number, line) ∈ lines ∧ error.line = number := by
  induction lines generalizing table address with
  | nil => cases h
  | cons entry lines ih =>
    obtain ⟨number, line⟩ := entry
    have hlater : ∀ (table : LabelTable) (address : Nat),
        table.extend address lines = .error error →
          ∃ n l, (n, l) ∈ (number, line) :: lines ∧ error.line = n := by
      intro table address herror
      obtain ⟨n, l, hmem, hline⟩ := ih herror
      exact ⟨n, l, List.mem_cons_of_mem _ hmem, hline⟩
    cases line with
    | blank => exact hlater table address h
    | instruction code => exact hlater table (address + 4) h
    | label name =>
      unfold extend at h
      split at h
      · cases h
        exact ⟨number, _, List.mem_cons_self, rfl⟩
      split at h
      · cases h
        exact ⟨number, _, List.mem_cons_self, rfl⟩
      · exact hlater _ _ h

namespace Assembly

theorem ofText_refused {source : List Char} {error : AssemblyError}
    (h : (ofText source).failure = some error) : TextRefused source error := by
  unfold ofText at h
  cases hlabels : LabelTable.ofLines (sourceLines (Text.lines source)) with
  | error found =>
    unfold ofLines at h
    rw [hlabels] at h
    obtain rfl := Option.some.inj h
    obtain ⟨number, line, hmem, hline⟩ := LabelTable.line_of_extend_error hlabels
    rw [sourceLines_eq] at hmem
    obtain ⟨hlow, hhigh⟩ := number_of_mem_linesFrom hmem
    exact .line (by omega) (by omega)
  | ok labels =>
    have hfollows := ofLines_follows hlabels
    obtain ⟨number, code, hcode, hline⟩ := hfollows.failed error h
    have hmem := List.mem_of_getElem? hcode
    obtain ⟨raw, rfl, hne⟩ := codePart_of_mem_instructionLines hmem
    obtain ⟨m, found, hfound, rfl⟩ := refused_of_assembleLine hne hline
    cases hfound with
    | fault fault =>
      obtain ⟨hlow, hhigh⟩ := number_of_mem_instructionLines hmem
      exact .line (by show (1 : Int) ≤ number; omega) (by show (number : Int) ≤ _; omega)
    | longNumeral hoperand htoken hlong => exact .longNumeral hmem hoperand htoken hlong
    | longDistance hlabel hlong =>
      obtain ⟨hlow, hhigh⟩ := LabelTable.range_of_address? hlabels hlabel
      have hrows : (ofLines (sourceLines (Text.lines source))).rows.length <
          (instructionLines 1 (Text.lines source)).length :=
        (List.getElem?_eq_some_iff.1 hcode).1
      have hcount : (instructionLines 1 (Text.lines source)).length ≤
          (Text.lines source).length := by
        simpa using List.countP_le_length
      have hlarge : 10 ^ Numeral.decimalLimit ≤ Int.natAbs _ :=
        Nat.le_of_not_lt (of_decide_eq_false hlong)
      exact .longDistance (Nat.le_trans hlarge (by omega))

theorem failure_of_result {α : Type} {assembly : Assembly} {value : α} {error : AssemblyError}
    (h : assembly.result value = .error error) : assembly.failure = some error := by
  unfold result at h
  cases hfailure : assembly.failure with
  | none =>
    rw [hfailure] at h
    cases h
  | some found =>
    rw [hfailure] at h
    cases h
    rfl

end Assembly

namespace HexProgram

theorem line_of_wordsOf_error {lines : List (Nat × List Char)} {error : LineError}
    (h : wordsOf lines = .error error) : ∃ number code, (number, code) ∈ lines ∧
      error.line = number := by
  induction lines with
  | nil => cases h
  | cons entry lines ih =>
    obtain ⟨number, code⟩ := entry
    unfold wordsOf at h
    split at h
    · cases h
      exact ⟨number, code, List.mem_cons_self, rfl⟩
    · cases hlater : wordsOf lines with
      | ok words =>
        rw [hlater] at h
        cases h
      | error later =>
        rw [hlater] at h
        cases h
        obtain ⟨n, later, hmem, hline⟩ := ih hlater
        exact ⟨n, later, List.mem_cons_of_mem _ hmem, hline⟩

theorem words_refused {source : List Char} {error : LineError} (h : words source = .error error) :
    TextRefused source (.line error) := by
  obtain ⟨number, code, hmem, hline⟩ := line_of_wordsOf_error h
  obtain ⟨⟨n, raw⟩, hnumbered, heq⟩ := List.mem_map.1 (List.mem_filter.1 hmem).1
  obtain ⟨⟨line, k⟩, hzip, hswap⟩ := List.mem_map.1 hnumbered
  obtain ⟨hlow, hhigh, -⟩ := List.mem_zipIdx hzip
  cases hswap
  cases heq
  exact .line (by omega) (by omega)

end HexProgram

/-- What reading a program text can be refused for, whichever way it is read. -/
structure Refuses (source : List Char) : Prop where
  words : ∀ error, (Assembly.ofText source).words = .error error → TextRefused source error
  listing : ∀ error, (Assembly.ofText source).listing = .error error → TextRefused source error
  read : ∀ error, (ProgramText.read source).words = .error error → TextRefused source error

/-- A text is refused for a reason that is one of the listed ones, whichever way it is read. -/
theorem refuses (source : List Char) : Refuses source where
  words error h := Assembly.ofText_refused (Assembly.failure_of_result h)
  listing error h := Assembly.ofText_refused (Assembly.failure_of_result h)
  read error h := by
    unfold ProgramText.read at h
    split at h
    · split at h
      · cases h
      · next found hfound =>
        cases h
        exact HexProgram.words_refused hfound
    · exact Assembly.ofText_refused (Assembly.failure_of_result h)

/-! ## Numerals of too many digits -/

section

variable {op : ImmediateOp} {a b c source : List Char} {negative : Bool} {digits : List Nat}

/-- A long immediate is found out before the registers are read. -/
theorem assembleLine_of_longNumeral (h : (Mnemonic.immediate op).Line [a, b, c] source)
    (hplain : ∀ t ∈ [a, b, c], Plain t)
    (htoken : Operand.immediate? c = some (.decimal negative digits))
    (hlong : Numeral.decimalLimit < digits.length) (labels : LabelTable) (address line : Int) :
    assembleLine labels address line source = .error (.longNumeral digits.length) := by
  obtain ⟨cs, hjoined, hsplit⟩ := h.splitWord_eq hplain
  have himm : Operand.immediate c = .error (.longNumeral digits.length) := by
    rw [Operand.immediate, htoken]
    exact if_pos hlong
  have hparse : Statement.parse (.immediate op) source cs =
      .error (.longNumeral digits.length) := by
    unfold Statement.parse
    simp only [hjoined.split_eq hplain, himm]
    rfl
  have hname : (Mnemonic.immediate op).name.toList.isEmpty = false :=
    List.isEmpty_eq_false_iff.2 (Mnemonic.immediate op).plain_name.ne_nil
  unfold assembleLine
  simp only [hsplit, hname, Mnemonic.toLower_name, Mnemonic.ofName?_name, hparse]
  rfl

theorem Mnemonic.Line.recognizes_eq {m : Mnemonic} {ts : List (List Char)} (h : m.Line ts source)
    (hplain : ∀ t ∈ ts, Plain t) (hne : ts ≠ []) (hlines : Text.lines source = [source]) :
    HexProgram.recognizes source = false := by
  cases hhex : HexProgram.recognizes source with
  | false => rfl
  | true =>
    obtain ⟨raw, hraw, hcode⟩ := HexProgram.line_of_recognizes hhex
    rw [hlines] at hraw
    obtain rfl := List.mem_singleton.1 hraw
    rw [h.codePart_eq hplain hne] at hcode
    have hoperands := (HexProgram.operandsOf_of_isHex hcode).2
    rw [h.operandsOf_eq hplain] at hoperands
    exact absurd hoperands hne

/-- An instruction with a long immediate is refused without a line, in whatever way it is read. -/
theorem refused_of_longNumeral (h : (Mnemonic.immediate op).Line [a, b, c] source)
    (hplain : ∀ t ∈ [a, b, c], Plain t)
    (htoken : Operand.immediate? c = some (.decimal negative digits))
    (hlong : Numeral.decimalLimit < digits.length) :
    (Assembly.ofText source).words = .error (.longNumeral digits.length) ∧
      (Assembly.ofText source).listing = .error (.longNumeral digits.length) ∧
      (ProgramText.read source).words = .error (.longNumeral digits.length) := by
  have hne : [a, b, c] ≠ [] := List.cons_ne_nil a [b, c]
  obtain ⟨hinstruction, hterminators⟩ := h.sourceLine_eq hplain hne
  have hlines : Text.lines source = [source] := Text.lines_of_no_terminator h.ne_nil hterminators
  have hsource : sourceLines [source] = [(1, .instruction source)] := by
    rw [← hinstruction]
    rfl
  have hfailure : (Assembly.ofText source).failure = some (.longNumeral digits.length) := by
    rw [Assembly.ofText, hlines, hsource, Assembly.ofLines]
    simp only [LabelTable.ofLines, LabelTable.extend, Assembly.rowsFrom]
    rw [assembleLine_of_longNumeral h hplain htoken hlong]
  have hresult : ∀ {α : Type} (value : α),
      (Assembly.ofText source).result value = .error (.longNumeral digits.length) := by
    intro α value
    rw [Assembly.result, hfailure]
  refine ⟨hresult _, hresult _, ?_⟩
  rw [ProgramText.read, h.recognizes_eq hplain hne hlines, if_neg Bool.false_ne_true]
  exact hresult _

end

theorem refused_of_digits {token : List Char} {digits : List Nat} (hplain : Plain token)
    (hdigits : Numeral.digits? Numeral.decimalDigit? token = some digits)
    (hlong : Numeral.decimalLimit < digits.length) :
    let source := "addi x1, x0, ".toList ++ token
    (Assembly.ofText source).words = .error (.longNumeral digits.length) ∧
      (Assembly.ofText source).listing = .error (.longNumeral digits.length) ∧
      (ProgramText.read source).words = .error (.longNumeral digits.length) := by
  have hx1 : Plain ['x', '1'] := ⟨List.cons_ne_nil _ _, List.all_eq_true.1 (by decide)⟩
  have hx0 : Plain ['x', '0'] := ⟨List.cons_ne_nil _ _, List.all_eq_true.1 (by decide)⟩
  have htokens : ∀ t ∈ [['x', '1'], ['x', '0'], token], Plain t := by
    simp only [List.forall_mem_cons]
    exact ⟨hx1, hx0, hplain, nofun⟩
  have hline : (Mnemonic.immediate .addi).Line [['x', '1'], ['x', '0'], token]
      ("addi x1, x0, ".toList ++ token) := by
    have htext : List.intercalate [',', ' '] [['x', '1'], ['x', '0'], token] =
        "x1, x0, ".toList ++ token := by
      rw [List.intercalate_cons_cons, List.intercalate_cons_cons, List.intercalate_singleton]
      rfl
    have hjoined : Joined (.immediate .addi) [['x', '1'], ['x', '0'], token]
        ("x1, x0, ".toList ++ token) := by
      rw [← htext]
      exact .list rfl
    exact .mk (n := 0) hjoined
  exact refused_of_longNumeral hline htokens (Operand.immediate?_of_digits? hdigits) hlong

theorem plain_ones {n : Nat} (hn : n ≠ 0) : Plain (List.replicate n '1') where
  ne_nil hnil := hn ((List.replicate_eq_nil_iff _).1 hnil)
  plain c hc := by
    rw [List.eq_of_mem_replicate hc]
    decide

theorem digits_ones {n : Nat} (hn : n ≠ 0) :
    Numeral.digits? Numeral.decimalDigit? (List.replicate n '1') = some (List.replicate n 1) := by
  have hmap : ∀ n, (List.replicate n '1').mapM Numeral.decimalDigit? =
      some (List.replicate n 1) := by
    intro n
    induction n with
    | zero => rfl
    | succ n ih =>
      rw [List.replicate_succ, List.mapM_cons, ih]
      rfl
  obtain ⟨n, rfl⟩ := Nat.exists_eq_succ_of_ne_zero hn
  rw [Numeral.digits?, hmap]
  rfl

/-- An immediate of 4301 digits. -/
theorem refused_long_addi :
    let source := "addi x1, x0, ".toList ++ List.replicate 4301 '1'
    (Assembly.ofText source).words = .error (.longNumeral 4301) ∧
      (Assembly.ofText source).listing = .error (.longNumeral 4301) ∧
      (ProgramText.read source).words = .error (.longNumeral 4301) := by
  have hsome : 4301 ≠ 0 := by decide
  have hlong : Numeral.decimalLimit < (List.replicate 4301 1).length := by
    rw [List.length_replicate]
    decide
  have hrefused := refused_of_digits (plain_ones hsome) (digits_ones hsome) hlong
  rw [List.length_replicate] at hrefused
  exact hrefused

end SingleCycle
