import SingleCycle.Proofs.AssembledWord
import SingleCycle.Proofs.Refusals

/-!
# Complaints

An assembly that ends with a complaint about a line stops at the first line that is wrong. Labels
come first: the second pass only begins if all of them can be bound, and then it stops at the first
instruction line that is refused. The complaint quotes the code of the line, and names the
instruction on it.
-/

namespace SingleCycle

/-! ## Pieces of code -/

namespace Text

theorem infix_trim (cs : List Char) : trim cs <:+: cs := by
  obtain ⟨before, after, hcs, -, -⟩ := trim_enclosed cs
  exact ⟨before, after, by rw [List.append_assoc, ← hcs]⟩

theorem infix_splitWord (cs : List Char) : (splitWord cs).2 <:+: cs := by
  have hrest : (trimStart cs).dropWhile (fun c => !isBlank c) <:+ trimStart cs :=
    List.dropWhile_suffix _
  have hstart : trimStart cs <:+ cs := List.dropWhile_suffix _
  exact (infix_trim _).trans (hrest.trans hstart).isInfix

/-- The pieces of a text stand in it, the first one at its beginning. -/
theorem infix_of_mem_pieces {isSeparator : Char → Bool} (cs : List Char) :
    (∀ piece ∈ (pieces isSeparator cs).head?, piece <+: cs) ∧
      ∀ piece ∈ pieces isSeparator cs, piece <:+: cs := by
  induction cs with
  | nil => simp [pieces]
  | cons c cs ih =>
    obtain ⟨hhead, hall⟩ := ih
    unfold pieces
    by_cases hc : isSeparator c = true
    · simp only [if_pos hc, List.head?_cons, List.mem_cons]
      refine ⟨?_, ?_⟩
      · rintro piece ⟨⟩
        exact List.nil_prefix
      · rintro piece (rfl | hpiece)
        · exact List.nil_infix
        · exact List.infix_cons (hall piece hpiece)
    · have hfirst : ∀ first ∈ (consHead c (pieces isSeparator cs)).head?, first <+: c :: cs := by
        cases hpieces : pieces isSeparator cs with
        | nil =>
          rintro first ⟨⟩
          exact ⟨cs, rfl⟩
        | cons first later =>
          rintro longer ⟨⟩
          rw [hpieces] at hhead
          obtain ⟨rest, hrest⟩ := hhead first rfl
          exact ⟨rest, congrArg (c :: ·) hrest⟩
      rw [if_neg hc]
      refine ⟨hfirst, ?_⟩
      intro piece hpiece
      cases hpieces : pieces isSeparator cs with
      | nil =>
        rw [hpieces] at hpiece hfirst
        obtain rfl := List.mem_singleton.1 hpiece
        exact (hfirst _ rfl).isInfix
      | cons first later =>
        rw [hpieces] at hpiece hfirst hall
        rcases List.mem_cons.1 hpiece with rfl | hlater
        · exact (hfirst _ rfl).isInfix
        · exact List.infix_cons (hall piece (List.mem_cons_of_mem first hlater))

theorem infix_of_mem_tokens {isSeparator : Char → Bool} {token cs : List Char}
    (h : token ∈ tokens isSeparator cs) : token <:+: cs :=
  (infix_of_mem_pieces cs).2 token (List.mem_filter.1 h).1

end Text

theorem infix_labelName {code name : List Char} (h : labelName? code = some name) :
    name <:+: code := by
  unfold labelName? at h
  obtain ⟨-, hname⟩ := Option.ite_none_right_eq_some.1 h
  rw [← Option.some.inj hname]
  exact (Text.infix_trim _).trans (List.dropLast_prefix code).isInfix

/-- A label line has a colon, which is all that is left of it without a name. -/
theorem infix_colon {code name : List Char} (h : labelName? code = some name) :
    [':'] <:+: code := by
  unfold labelName? at h
  obtain ⟨hlast, -⟩ := Option.ite_none_right_eq_some.1 h
  obtain ⟨front, rfl⟩ := List.getLast?_eq_some_iff.1 hlast
  exact (List.suffix_append front [':']).isInfix

theorem infix_operandsOf {code token : List Char} (h : token ∈ operandsOf code) :
    token <:+: code :=
  (Text.infix_of_mem_tokens h).trans (Text.infix_splitWord code)

/-! ## Faults -/

namespace Operand

variable {token : List Char} {fault : OperandFault}

theorem token_of_register (h : register token = .error (.fault fault)) : fault.token = token := by
  unfold register at h
  split at h
  · cases h
  · cases h
    rfl

theorem token_of_immediate (h : immediate token = .error (.fault fault)) : fault.token = token := by
  unfold immediate at h
  split at h
  · next digits hdigits =>
    cases digits with
    | hex digits => cases h
    | decimal negative digits =>
      by_cases hlong : Numeral.decimalLimit < digits.length
      · simp only [Immediate.value, if_pos hlong] at h
        cases h
      · simp only [Immediate.value, if_neg hlong] at h
        cases h
  · cases h
    rfl

theorem token_of_offset {labels : LabelTable} {address : Int} {bits : Nat}
    (h : offset labels address bits token = .error (.fault fault)) : fault.token = token := by
  unfold offset at h
  split at h
  · cases h
    rfl
  simp only at h
  split at h
  · cases h
  split at h
  · cases h
    rfl
  · cases h

end Operand

/-- A fault that keeps operands from being read is shown with operands of the line. -/
theorem token_of_unreadable {line operands : List Char} {fault : OperandFault}
    (h : Unreadable line operands (.fault fault)) : fault.token <:+: operands := by
  cases h with
  | memoryForm => exact List.infix_rfl
  | count got => exact List.infix_rfl
  | register hmem h =>
    rw [Operand.token_of_register h]
    exact Text.infix_of_mem_tokens hmem
  | immediate hmem h =>
    rw [Operand.token_of_immediate h]
    exact Text.infix_of_mem_tokens hmem
  | shiftAmount hmem => exact Text.infix_of_mem_tokens hmem

/-- A complaint about an instruction line names its instruction and quotes its operands. -/
theorem complaint_of_assembleLine {labels : LabelTable} {address line : Int} {raw : List Char}
    {error : LineError} (hcode : codePart raw ≠ [])
    (h : assembleLine labels address line (codePart raw) = .error (.line error)) :
    error.line = line ∧ error.complaint.token <:+: codePart raw ∧
      ∃ m, error.complaint.mnemonic? = some m ∧ mnemonicOf? (codePart raw) = some m := by
  obtain ⟨m, found, hm, herror, hfound⟩ := assembleLine_eq_error hcode h
  cases found with
  | longNumeral digits => cases herror
  | longDistance => cases herror
  | fault fault =>
    cases herror
    refine ⟨rfl, ?_, m, rfl, hm⟩
    show fault.token <:+: codePart raw
    rcases hfound with hread | ⟨s, hreads, hencode⟩
    · exact (token_of_unreadable hread).trans (Text.infix_splitWord _)
    · obtain ⟨token, hmem, himm | ⟨bits, hoffset⟩⟩ := Statement.encode_eq_error hreads hencode
      · rw [Operand.token_of_immediate himm]
        exact infix_operandsOf hmem
      · rw [Operand.token_of_offset hoffset]
        exact infix_operandsOf hmem

/-! ## Label lines -/

/-- A label line that cannot be bound: its name is empty, or a label line above it has the same. -/
def Unbindable (raws : List (List Char)) (k : Nat) : Prop :=
  ∃ raw name, raws[k]? = some raw ∧ labelName? (codePart raw) = some name ∧
    (name = [] ∨ name ∈ labelNames (raws.take k))

namespace LabelTable

variable {raws : List (List Char)} {labels : LabelTable}

/-- The first pass, cut at a line. -/
theorem ofLines_of_take {k : Nat} {raw : List Char} (hraw : raws[k]? = some raw)
    (h : ofLines (sourceLines (raws.take k)) = .ok labels) :
    ∃ address, ofLines (sourceLines raws) = extend labels address
      ((k + 1, .ofText raw) :: linesFrom (k + 2) (raws.drop (k + 1))) := by
  have hlines := linesFrom_of_getElem? 1 hraw
  rw [sourceLines_eq] at h
  unfold ofLines at h
  refine ⟨0 + 4 * (codesOf (linesFrom 1 (raws.take k))).length, ?_⟩
  rw [sourceLines_eq, hlines, ofLines, extend_append_eq, h]
  show extend labels _ ((1 + k, _) :: linesFrom (1 + k + 1) _) = _
  rw [Nat.add_comm 1 k]

/-- The first pass gets by all lines above the first label line that cannot be bound. -/
theorem ofLines_take {n : Nat} (h : ∀ k < n, ¬ Unbindable raws k) :
    ∃ labels, ofLines (sourceLines (raws.take n)) = .ok labels := by
  induction n with
  | zero => exact ⟨[], rfl⟩
  | succ n ih =>
    obtain ⟨labels, hlabels⟩ := ih fun k hk => h k (Nat.lt_succ_of_lt hk)
    cases hraw : raws[n]? with
    | none =>
      have hlen := List.getElem?_eq_none_iff.1 hraw
      refine ⟨labels, ?_⟩
      rw [List.take_of_length_le (by omega)] at hlabels ⊢
      exact hlabels
    | some raw =>
      have hget : (raws.take (n + 1))[n]? = some raw := by
        rw [List.getElem?_take_of_lt (Nat.lt_succ_self n), hraw]
      have htake : (raws.take (n + 1)).take n = raws.take n := by
        rw [List.take_take, Nat.min_eq_left (Nat.le_succ n)]
      have hdrop : (raws.take (n + 1)).drop (n + 1) = [] :=
        List.drop_eq_nil_of_le (List.length_take_le _ _)
      obtain ⟨address, hstep⟩ := ofLines_of_take hget (by rw [htake]; exact hlabels)
      rw [hstep, hdrop]
      cases hline : SourceLine.ofText raw with
      | blank => exact ⟨labels, rfl⟩
      | instruction code => exact ⟨labels, rfl⟩
      | label name =>
        have hname := ofText_eq_label.1 hline
        have hsome : name ≠ [] := fun hnil =>
          h n (Nat.lt_succ_self n) ⟨raw, name, hraw, hname, .inl hnil⟩
        have hfree : (labels.address? name).isSome = false := by
          rw [← Bool.not_eq_true, isSome_address? hlabels]
          exact fun hmem => h n (Nat.lt_succ_self n) ⟨raw, name, hraw, hname, .inr hmem⟩
        simp [extend, hsome, hfree, linesFrom]

/-- The first label line that cannot be bound ends the first pass, with a complaint that quotes the
line and names no instruction. -/
theorem ofLines_of_unbindable {k : Nat} (h : Unbindable raws k)
    (hfirst : ∀ j < k, ¬ Unbindable raws j) :
    ∃ raw complaint, raws[k]? = some raw ∧
      ofLines (sourceLines raws) = .error ⟨(k + 1 : Nat), complaint⟩ ∧
        complaint.token <:+: codePart raw ∧ complaint.mnemonic? = none := by
  obtain ⟨raw, name, hraw, hname, hbad⟩ := h
  obtain ⟨labels, hlabels⟩ := ofLines_take hfirst
  obtain ⟨address, hstep⟩ := ofLines_of_take hraw hlabels
  rw [hstep, ofText_eq_label.2 hname]
  by_cases hempty : name.isEmpty = true
  · refine ⟨raw, .emptyLabelName, hraw, ?_, infix_colon hname, rfl⟩
    simp only [extend, hempty, if_true]
  · have hmem : name ∈ labelNames (raws.take k) :=
      hbad.resolve_left fun hnil => hempty (List.isEmpty_iff.2 hnil)
    have hbound : (labels.address? name).isSome = true := (isSome_address? hlabels).2 hmem
    refine ⟨raw, .duplicateLabel name, hraw, ?_, infix_labelName hname, rfl⟩
    simp only [extend, hempty, hbound, if_true, Bool.false_eq_true, if_false]

end LabelTable

/-! ## Instruction lines -/

namespace Assembly

variable {labels : LabelTable} {raws : List (List Char)}

/-- The second pass goes past a line without an instruction. -/
theorem rowsFrom_of_not_holdsInstruction {raw : List Char} (address number : Nat)
    (lines : List (Nat × SourceLine)) (h : holdsInstruction raw = false) :
    rowsFrom labels address ((number, .ofText raw) :: lines) = rowsFrom labels address lines := by
  cases hline : SourceLine.ofText raw with
  | blank => rfl
  | label name => rfl
  | instruction code => exact absurd hline (ofText_ne_instruction h)

/-- The second pass ends at the first instruction line that is refused. Above that line it is the
second pass over the lines there alone. -/
theorem rowsFrom_refused {address first : Nat} {error : AssemblyError}
    (h : (rowsFrom labels address (linesFrom first raws)).failure = some error) :
    ∃ k raw, raws[k]? = some raw ∧ holdsInstruction raw = true ∧
      rowsFrom labels address (linesFrom first (raws.take k)) =
        ⟨(rowsFrom labels address (linesFrom first raws)).rows, none⟩ ∧
      assembleLine labels (address + 4 * (raws.take k).countP holdsInstruction : Nat)
        (first + k : Nat) (codePart raw) = .error error := by
  induction raws generalizing address first with
  | nil => cases h
  | cons raw raws ih =>
    rw [linesFrom_cons] at h ⊢
    cases hholds : holdsInstruction raw with
    | false =>
      rw [rowsFrom_of_not_holdsInstruction _ _ _ hholds] at h ⊢
      obtain ⟨k, other, hother, hinstruction, habove, hline⟩ := ih h
      refine ⟨k + 1, other, hother, hinstruction, ?_, ?_⟩
      · rw [List.take_succ_cons, linesFrom_cons, rowsFrom_of_not_holdsInstruction _ _ _ hholds]
        exact habove
      · rw [List.take_succ_cons, List.countP_cons_of_neg (by simp [hholds]), ← Nat.add_assoc,
          Nat.add_right_comm]
        exact hline
    | true =>
      have hraw := ofText_of_holdsInstruction hholds
      rw [hraw] at h ⊢
      cases hword : assembleLine labels address first (codePart raw) with
      | error found =>
        simp only [rowsFrom, hword] at h ⊢
        cases h
        exact ⟨0, raw, rfl, hholds, rfl, hword⟩
      | ok word =>
        simp only [rowsFrom, hword] at h ⊢
        obtain ⟨k, other, hother, hinstruction, habove, hline⟩ := ih h
        refine ⟨k + 1, other, hother, hinstruction, ?_, ?_⟩
        · rw [List.take_succ_cons, linesFrom_cons, hraw]
          simp only [rowsFrom, hword, habove]
        · rw [List.take_succ_cons, List.countP_cons_of_pos hholds]
          have haddress : address + 4 * ((raws.take k).countP holdsInstruction + 1) =
              address + 4 + 4 * (raws.take k).countP holdsInstruction := by omega
          have hnumber : first + (k + 1) = first + 1 + k := by omega
          rw [haddress, hnumber]
          exact hline

/-- A line is skipped exactly where its first word names no instruction. -/
theorem isNone_of_assembleLine {address line : Int} {code : List Char} {word : Option Word}
    (h : assembleLine labels address line code = .ok word) :
    word.isNone = (mnemonicOf? code).isNone := by
  cases word with
  | some w =>
    obtain ⟨m, s, hm, -⟩ := assembleLine_eq_some h
    rw [hm]
    rfl
  | none =>
    unfold assembleLine at h
    simp only at h
    split at h
    · cases h
    split at h
    · next hm =>
      rw [mnemonicOf?, hm]
      rfl
    · split at h
      · cases h
      · cases h

theorem Follows.map_skipped {address : Nat} {codes : List (Nat × List Char)} {assembly : Assembly}
    (h : assembly.Follows labels address codes) (hok : assembly.failure = none) :
    assembly.skipped.map (fun row => (row.line, row.code)) =
      codes.filter fun entry => (mnemonicOf? entry.2).isNone := by
  rw [← h.map_rows hok, List.filter_map]
  refine congrArg (List.map _) (List.filter_congr ?_)
  intro row hrow
  obtain ⟨i, hi⟩ := List.mem_iff_getElem?.1 hrow
  obtain ⟨-, -, hline⟩ := h.row i row hi
  exact isNone_of_assembleLine hline

/-- A second pass over the text that stops at an instruction line. -/
structure StopsAt (labels : LabelTable) (raws : List (List Char)) (assembly : Assembly)
    (error : LineError) (k : Nat) (raw : List Char) : Prop where
  /-- The line holds an instruction, which is refused at its address. -/
  refused : holdsInstruction raw = true ∧
    assembleLine labels (4 * (raws.take k).countP holdsInstruction : Nat) (k + 1 : Nat)
      (codePart raw) = .error (.line error)
  /-- The complaint names the first word of the line, in lower-case letters. -/
  mnemonic : error.complaint.mnemonic?.map (·.name.toList) =
    some ((Text.splitWord (codePart raw)).1.map Char.toLower)
  /-- There is a row for each instruction line above, and no other. -/
  rows : assembly.rows.map (fun row => (row.line, row.code)) = instructionLines 1 (raws.take k)
  /-- The rows are four bytes apart, each with the word of its line. -/
  row : ∀ (i : Nat) (row : Row), assembly.rows[i]? = some row →
    row.address = 4 * i ∧ assembleLine labels row.address row.line row.code = .ok row.word
  /-- The skipped lines are those above whose first word names no instruction. -/
  skipped : assembly.skipped.map (fun row => (row.line, row.code)) =
    (instructionLines 1 (raws.take k)).filter fun entry => (mnemonicOf? entry.2).isNone
  /-- A text with the same lines above and the same labels that is accepted begins with the same
  rows, and the same lines are skipped first. -/
  same : ∀ others : List (List Char), others.take k = raws.take k →
    LabelTable.ofLines (sourceLines others) = .ok labels →
      (ofLines (sourceLines others)).failure = none →
        assembly.rows <+: (ofLines (sourceLines others)).rows ∧
          assembly.skipped <+: (ofLines (sourceLines others)).skipped

/-- What the complaint that ends an assembly has to do with the lines of the text. -/
structure Reported (raws : List (List Char)) (assembly : Assembly) (error : LineError) (k : Nat)
    (raw : List Char) : Prop where
  /-- The complaint is about a line of the text, by its number. -/
  line : raws[k]? = some raw ∧ error.line = (k + 1 : Nat)
  /-- It quotes the code of the line. -/
  token : error.complaint.token <:+: codePart raw
  /-- Its text begins with the number of the line. -/
  message : ∃ text, error.message = "Line " ++ toString (k + 1) ++ ": " ++ text
  /-- If a label line cannot be bound, then it is about the first such line, and no row was made. -/
  label : (∃ j, Unbindable raws j) → Unbindable raws k ∧ (∀ j < k, ¬ Unbindable raws j) ∧
    error.complaint.mnemonic? = none ∧ assembly.rows = [] ∧ assembly.skipped = []
  /-- Else it is about the first instruction line that is refused. -/
  instruction : (∀ j, ¬ Unbindable raws j) → ∃ labels,
    LabelTable.ofLines (sourceLines raws) = .ok labels ∧ StopsAt labels raws assembly error k raw

theorem stopsAt_of_failure {error : LineError}
    (hlabels : LabelTable.ofLines (sourceLines raws) = .ok labels)
    (h : (ofLines (sourceLines raws)).failure = some (.line error)) :
    ∃ (k : Nat) (raw : List Char), raws[k]? = some raw ∧ error.line = (k + 1 : Nat) ∧
      error.complaint.token <:+: codePart raw ∧
        StopsAt labels raws (ofLines (sourceLines raws)) error k raw := by
  rw [ofLines_eq_rowsFrom hlabels] at h ⊢
  obtain ⟨k, raw, hraw, hholds, habove, hline⟩ := rowsFrom_refused h
  rw [Nat.zero_add, Nat.add_comm 1 k] at hline
  have hcode : codePart raw ≠ [] := by
    intro hnil
    rw [holdsInstruction, hnil] at hholds
    cases hholds
  obtain ⟨hnumber, htoken, m, hmnemonic, hm⟩ := complaint_of_assembleLine hcode hline
  have hfollows := rowsFrom_follows labels 0 (linesFrom 1 (raws.take k))
  rw [habove, codesOf_linesFrom] at hfollows
  refine ⟨k, raw, hraw, hnumber, htoken, ⟨hholds, hline⟩, ?_, hfollows.map_rows rfl, ?_,
    hfollows.map_skipped rfl, ?_⟩
  · rw [hmnemonic]
    exact congrArg some (Mnemonic.name_of_ofName? hm)
  · intro i row hrow
    obtain ⟨-, haddress, hword⟩ := hfollows.row i row hrow
    exact ⟨by omega, hword⟩
  · intro others htake hothers hok
    rw [ofLines_eq_rowsFrom hothers]
    have hsplit := linesFrom_append 1 (others.take k) (others.drop k)
    rw [List.take_append_drop, htake] at hsplit
    rw [hsplit, rowsFrom_append _ (by rw [habove]), habove]
    refine ⟨List.prefix_append _ _, ?_⟩
    unfold Assembly.skipped
    rw [List.filter_append]
    exact List.prefix_append _ _

/-- The complaint that ends an assembly is about the first line that is wrong, where the labels come
before the instructions. -/
theorem reported_of_error (source : List Char) (error : LineError)
    (h : (ofText source).words = .error (.line error)) :
    ∃ k raw, Reported (Text.lines source) (ofText source) error k raw := by
  have hfailure := failure_of_result h
  have hmessage : ∀ {k : Nat}, error.line = (k + 1 : Nat) →
      ∃ text, error.message = "Line " ++ toString (k + 1) ++ ": " ++ text := by
    intro k hline
    refine ⟨error.complaint.message, ?_⟩
    rw [LineError.message, hline]
    rfl
  classical
  unfold ofText at hfailure ⊢
  by_cases hbad : ∃ j, Unbindable (Text.lines source) j
  · obtain ⟨raw, complaint, hraw, hlabels, htoken, hmnemonic⟩ :=
      LabelTable.ofLines_of_unbindable (Nat.find_spec hbad) fun j hj => Nat.find_min hbad hj
    rw [ofLines, hlabels] at hfailure ⊢
    cases hfailure
    exact ⟨_, raw, ⟨hraw, rfl⟩, htoken, hmessage rfl,
      fun _ => ⟨Nat.find_spec hbad, fun j hj => Nat.find_min hbad hj, hmnemonic, rfl, rfl⟩,
      fun hnone => absurd hbad (not_exists.2 hnone)⟩
  · obtain ⟨labels, hlabels⟩ :=
      LabelTable.ofLines_take (n := (Text.lines source).length) fun j _ => not_exists.1 hbad j
    rw [List.take_length] at hlabels
    obtain ⟨k, raw, hraw, hline, htoken, hstops⟩ := stopsAt_of_failure hlabels hfailure
    exact ⟨k, raw, ⟨hraw, hline⟩, htoken, hmessage hline, fun hsome => absurd hsome hbad,
      fun _ => ⟨labels, hlabels, hstops⟩⟩

/-- A register that does not exist, below an unknown instruction and a label of two words. In the
second text a label is defined twice, which counts for more than the wrong line above it. -/
theorem reported_of_error_late :
    let source := "nop\r\non top :\n\u2028ADDI x1, x32, 0x7 # wrong\njal x0, 8".toList
    let error : LineError := ⟨4, .operand (.immediate .addi) (.notRegister "x32".toList)⟩
    let other := "add\na:\na :".toList
    let twice : LineError := ⟨3, .duplicateLabel ['a']⟩
    (ofText source).words = .error (.line error) ∧
      (∃ k raw, Reported (Text.lines source) (ofText source) error k raw) ∧
      (ofText other).words = .error (.line twice) ∧
      ∃ k raw, Reported (Text.lines other) (ofText other) twice k raw :=
  ⟨rfl, reported_of_error _ _ rfl, rfl, reported_of_error _ _ rfl⟩

end Assembly

end SingleCycle