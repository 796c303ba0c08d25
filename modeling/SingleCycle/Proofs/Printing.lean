import SingleCycle.Proofs.AssembledWord
import SingleCycle.Proofs.Cutting

/-!
# Printed instructions

The text of an instruction with a name is the name, spaces, and the operands with commas between
them; the base of a memory access stands in parentheses behind its offset. Names and operands are
made of plain characters, none of which separates anything, so the assembler cuts the text into the
same name and the same operands.
-/

namespace SingleCycle

/-! ## Characters -/

/-- The characters of names and operands. -/
def isPlain (c : Char) : Bool := c = '-' || c.isDigit || c.isLower

/-- The characters of printed instructions. -/
def isPrinted (c : Char) : Bool := isPlain c || c = ' ' || c = ',' || c = '(' || c = ')'

theorem toNat_of_isLower {c : Char} (h : c.isLower = true) : c.toNat ≤ 122 :=
  of_decide_eq_true (Bool.and_eq_true_iff.1 h).2

theorem toNat_of_isPrinted {c : Char} (h : isPrinted c = true) : c.toNat < 123 := by
  unfold isPrinted isPlain at h
  simp only [Char.isDigit, Bool.or_eq_true, Bool.and_eq_true, decide_eq_true_eq] at h
  rcases h with ((((((rfl | h) | h) | rfl) | rfl) | rfl) | rfl)
  · decide
  · have hle : c.toNat ≤ 57 := h.2
    omega
  · have hle := toNat_of_isLower h
    omega
  · decide
  · decide
  · decide
  · decide

/-- No character of an instruction begins a comment, ends a label or ends a line, and the plain
ones separate no operands. -/
theorem facts_of_isPrinted {c : Char} (h : isPrinted c = true) :
    (c ≠ '#' ∧ c ≠ '/') ∧ c ≠ ':' ∧ Text.isTerminator c = false ∧
      (isPlain c = true → Operand.isSeparator c = false) := by
  -- the last of the printed characters is `z`, so few have to be tried
  have hfacts := Numeral.of_toNat_lt (fun c => isPrinted c = true → (c ≠ '#' ∧ c ≠ '/') ∧ c ≠ ':' ∧
    Text.isTerminator c = false ∧ (isPlain c = true → Operand.isSeparator c = false)) (by decide)
    (toNat_of_isPrinted h)
  exact hfacts h

theorem isPrinted_of_isPlain {c : Char} (h : isPlain c = true) : isPrinted c = true := by
  unfold isPrinted
  simp [h]

theorem isSeparator_of_isPlain {c : Char} (h : isPlain c = true) :
    Operand.isSeparator c = false := by
  obtain ⟨-, -, -, hplain⟩ := facts_of_isPrinted (isPrinted_of_isPlain h)
  exact hplain h

theorem isBlank_of_isPlain {c : Char} (h : isPlain c = true) : Text.isBlank c = false :=
  Operand.isBlank_of_not_isSeparator (isSeparator_of_isPlain h)

/-! ## Tokens -/

/-- A token of plain characters. -/
structure Plain (token : List Char) : Prop where
  ne_nil : token ≠ []
  plain : ∀ c ∈ token, isPlain c = true

theorem Plain.cons {c : Char} {token : List Char} (hc : isPlain c = true) (h : Plain token) :
    Plain (c :: token) where
  ne_nil := List.cons_ne_nil c token
  plain d hd := by
    rcases List.mem_cons.1 hd with rfl | hd
    · exact hc
    · exact h.plain d hd

theorem Plain.trimmed {token : List Char} (h : Plain token) : Text.Trimmed token :=
  .of_solid fun c hc => isBlank_of_isPlain (h.plain c hc)

theorem Plain.solid {token : List Char} (h : Plain token) :
    token ≠ [] ∧ ∀ c ∈ token, Operand.isSeparator c = false :=
  ⟨h.ne_nil, fun c hc => isSeparator_of_isPlain (h.plain c hc)⟩

theorem plain_toDigits {base : Nat} (hone : 1 < base) (hbase : base ≤ 16) (n : Nat) :
    Plain (Nat.toDigits base n) where
  ne_nil := Nat.toDigits_ne_nil
  plain c hc := by
    have hall : ∀ d : Fin 16, isPlain d.val.digitChar = true := by decide
    obtain ⟨d, hd, rfl⟩ := Numeral.digit_of_mem_toDigits hone hc
    exact hall ⟨d, Nat.lt_of_lt_of_le hd hbase⟩

theorem plain_registerToken (r : BitVec 5) : Plain (registerToken r) := by
  rw [Operand.registerToken_eq]
  exact .cons (by decide) (plain_toDigits (by decide) (by decide) r.toNat)

theorem plain_decimalToken (v : Int) : Plain (decimalToken v) := by
  cases v with
  | ofNat n =>
    rw [Int.ofNat_eq_natCast, Operand.decimalToken_natCast]
    exact plain_toDigits (by decide) (by decide) n
  | negSucc n =>
    rw [Operand.decimalToken_negSucc]
    exact .cons (by decide) (plain_toDigits (by decide) (by decide) (n + 1))

/-- A number as a token in base sixteen. -/
def hexToken (n : Nat) : List Char := '0' :: 'x' :: Nat.toDigits 16 n

theorem plain_hexToken (n : Nat) : Plain (hexToken n) :=
  .cons (by decide) (.cons (by decide) (plain_toDigits (by decide) (by decide) n))

theorem Mnemonic.plain_name (m : Mnemonic) : Plain m.name.toList := by
  have hall : ∀ m ∈ Mnemonic.all, m.name.toList ≠ [] ∧ m.name.toList.all isPlain = true := by
    decide
  obtain ⟨hne, hplain⟩ := hall m (List.mem_of_find?_eq_some (Mnemonic.ofName?_name m))
  exact ⟨hne, List.all_eq_true.1 hplain⟩

@[simp]
theorem Mnemonic.toLower_name (m : Mnemonic) : m.name.toList.map Char.toLower = m.name.toList := by
  have hall : ∀ m ∈ Mnemonic.all, m.name.toList.map Char.toLower = m.name.toList := by decide
  exact hall m (List.mem_of_find?_eq_some (Mnemonic.ofName?_name m))

/-! ## Operands put together -/

/-- The operands of an instruction as one text. -/
inductive Joined : Mnemonic → List (List Char) → List Char → Prop where
  | access {m : Mnemonic} {a b c : List Char} (hm : Statement.accessesMemory m = true) :
      Joined m [a, b, c] (a ++ ',' :: ' ' :: (b ++ '(' :: (c ++ [')'])))
  | list {m : Mnemonic} {ts : List (List Char)} (hm : Statement.accessesMemory m = false) :
      Joined m ts (List.intercalate [',', ' '] ts)

namespace Joined

variable {m : Mnemonic} {ts : List (List Char)} {cs : List Char}

theorem split_eq (h : Joined m ts cs) (hts : ∀ t ∈ ts, Plain t) : Operand.split cs = ts := by
  unfold Operand.split
  cases h with
  | @access a b c hm =>
    obtain ⟨ha, ha'⟩ := (hts a (by simp)).solid
    obtain ⟨hb, hb'⟩ := (hts b (by simp)).solid
    obtain ⟨hc, hc'⟩ := (hts c (by simp)).solid
    have hspace : ∀ d ∈ [' '], Operand.isSeparator d = true := List.all_eq_true.1 (by decide)
    have hskip : ∀ rest, Text.tokens Operand.isSeparator (' ' :: rest) =
        Text.tokens Operand.isSeparator rest := fun rest => Text.tokens_separators hspace
    rw [Text.tokens_append ha ha' (by decide), hskip, Text.tokens_append hb hb' (by decide),
      Text.tokens_append hc hc' (by decide)]
    rfl
  | list hm =>
    have hcomma : ∀ d ∈ [',', ' '], Operand.isSeparator d = true := List.all_eq_true.1 (by decide)
    exact Text.tokens_intercalate (by simp) hcomma fun t ht => (hts t ht).solid

theorem isMemoryForm (h : Joined m ts cs) (hts : ∀ t ∈ ts, Plain t)
    (hm : Statement.accessesMemory m = true) : Operand.isMemoryForm cs = true := by
  cases h with
  | @access a b c hm =>
    obtain ⟨ha, ha'⟩ := (hts a (by simp)).solid
    obtain ⟨hb, hb'⟩ := (hts b (by simp)).solid
    obtain ⟨hc, hc'⟩ := (hts c (by simp)).solid
    have hcomma : ',' ∉ a := fun hmem => absurd (ha' _ hmem) (by decide)
    have hspace : ∀ d ∈ [' '], Text.isBlank d = true := List.all_eq_true.1 (by decide)
    have hnone : ∀ d ∈ [], Text.isBlank d = true := nofun
    exact Operand.isMemoryForm_append ha hcomma hspace hb hb' hnone hnone hc hc' hnone
  | list hlist =>
    rw [hm] at hlist
    cases hlist

theorem trimmed (h : Joined m ts cs) (hts : ∀ t ∈ ts, Plain t) : Text.Trimmed cs := by
  cases h with
  | @access a b c hm =>
    have ha := hts a (by simp)
    have hclose : Text.Trimmed [')'] := .of_solid (List.forall_mem_singleton.2 (by decide))
    have htext : Text.Trimmed (a ++ (',' :: ' ' :: (b ++ '(' :: c) ++ [')'])) :=
      ha.trimmed.enclose ha.ne_nil hclose (by simp)
    simpa using htext
  | list hm => exact .intercalate fun t ht => ⟨(hts t ht).ne_nil, (hts t ht).trimmed⟩

theorem ne_nil (h : Joined m ts cs) (hts : ∀ t ∈ ts, Plain t) (hne : ts ≠ []) : cs ≠ [] := by
  -- an empty text has no tokens to be cut into
  rintro rfl
  have hsplit := h.split_eq hts
  exact hne hsplit.symm

theorem isPrinted (h : Joined m ts cs) (hts : ∀ t ∈ ts, Plain t) :
    ∀ c ∈ cs, SingleCycle.isPrinted c = true := by
  have hprinted : ∀ t ∈ ts, ∀ c ∈ t, SingleCycle.isPrinted c = true := fun t ht c hc =>
    isPrinted_of_isPlain ((hts t ht).plain c hc)
  cases h with
  | @access a b c hm =>
    have ha := hprinted a (by simp)
    have hb := hprinted b (by simp)
    have hc := hprinted c (by simp)
    simp only [List.forall_mem_append, List.forall_mem_cons]
    exact ⟨ha, by decide, by decide, hb, by decide, hc, by decide, nofun⟩
  | list hm =>
    have hcomma : ∀ c ∈ [',', ' '], SingleCycle.isPrinted c = true :=
      List.all_eq_true.1 (by decide)
    intro c hc
    rcases Text.mem_intercalate hc with hc | ⟨t, ht, hc⟩
    · exact hcomma c hc
    · exact hprinted t ht c hc

end Joined

/-! ## Lines -/

/-- A line of an instruction: its name, spaces and its operands. -/
inductive Mnemonic.Line (m : Mnemonic) (ts : List (List Char)) : List Char → Prop where
  | mk {n : Nat} {cs : List Char} (hjoined : Joined m ts cs) :
      m.Line ts (m.name.toList ++ (List.replicate (n + 1) ' ' ++ cs))

namespace Mnemonic.Line

variable {m : Mnemonic} {ts : List (List Char)} {line : List Char}

theorem splitWord_eq (h : m.Line ts line) (hts : ∀ t ∈ ts, Plain t) :
    ∃ cs, Joined m ts cs ∧ Text.splitWord line = (m.name.toList, cs) := by
  cases h with
  | @mk n cs hjoined =>
    have hname := m.plain_name
    have hspaces : ∀ c ∈ List.replicate (n + 1) ' ', Text.isBlank c = true := by
      intro c hc
      rw [List.eq_of_mem_replicate hc]
      decide
    refine ⟨cs, hjoined, ?_⟩
    exact Text.splitWord_append hname.ne_nil (fun c hc => isBlank_of_isPlain (hname.plain c hc))
      (by simp) hspaces (hjoined.trimmed hts).trim_eq

theorem isPrinted (h : m.Line ts line) (hts : ∀ t ∈ ts, Plain t) :
    ∀ c ∈ line, SingleCycle.isPrinted c = true := by
  cases h with
  | @mk n cs hjoined =>
    intro c hc
    rcases List.mem_append.1 hc with hc | hc
    · exact isPrinted_of_isPlain (m.plain_name.plain c hc)
    rcases List.mem_append.1 hc with hc | hc
    · rw [List.eq_of_mem_replicate hc]
      decide
    · exact hjoined.isPrinted hts c hc

theorem ne_nil (h : m.Line ts line) : line ≠ [] := by
  cases h with
  | mk hjoined => exact List.append_ne_nil_of_left_ne_nil m.plain_name.ne_nil _

theorem codePart_eq (h : m.Line ts line) (hts : ∀ t ∈ ts, Plain t) (hne : ts ≠ []) :
    codePart line = line := by
  have hcomment : beforeComment line = line :=
    beforeComment_eq_self fun c hc => (facts_of_isPrinted (h.isPrinted hts c hc)).1
  have htrimmed : Text.Trimmed line := by
    cases h with
    | mk hjoined =>
      exact m.plain_name.trimmed.enclose m.plain_name.ne_nil (hjoined.trimmed hts)
        (hjoined.ne_nil hts hne)
  unfold codePart
  rw [hcomment, htrimmed.trim_eq]

theorem labelName?_eq (h : m.Line ts line) (hts : ∀ t ∈ ts, Plain t) : labelName? line = none := by
  unfold labelName?
  refine if_neg fun hlast => ?_
  obtain ⟨-, hcolon, -⟩ := facts_of_isPrinted (h.isPrinted hts _ (List.mem_of_getLast? hlast))
  exact hcolon rfl

theorem mnemonicOf?_eq (h : m.Line ts line) (hts : ∀ t ∈ ts, Plain t) :
    mnemonicOf? line = some m := by
  obtain ⟨cs, -, hsplit⟩ := h.splitWord_eq hts
  simp [mnemonicOf?, hsplit]

theorem operandsOf_eq (h : m.Line ts line) (hts : ∀ t ∈ ts, Plain t) : operandsOf line = ts := by
  obtain ⟨cs, hjoined, hsplit⟩ := h.splitWord_eq hts
  unfold operandsOf
  rw [hsplit]
  exact hjoined.split_eq hts

theorem isMemoryForm (h : m.Line ts line) (hts : ∀ t ∈ ts, Plain t)
    (hm : Statement.accessesMemory m = true) :
    Operand.isMemoryForm (Text.splitWord line).2 = true := by
  obtain ⟨cs, hjoined, hsplit⟩ := h.splitWord_eq hts
  rw [hsplit]
  exact hjoined.isMemoryForm hts hm

/-- The line is one line of text, and an instruction. -/
theorem sourceLine_eq (h : m.Line ts line) (hts : ∀ t ∈ ts, Plain t) (hne : ts ≠ []) :
    SourceLine.ofText line = .instruction line ∧ ∀ c ∈ line, Text.isTerminator c = false := by
  refine ⟨?_, fun c hc => ?_⟩
  · unfold SourceLine.ofText SourceLine.ofCode
    rw [h.codePart_eq hts hne, List.isEmpty_eq_false_iff.2 h.ne_nil, h.labelName?_eq hts]
    rfl
  · obtain ⟨-, -, hterminator, -⟩ := facts_of_isPrinted (h.isPrinted hts c hc)
    exact hterminator

end Mnemonic.Line

/-! ## The text of an instruction -/

namespace Instruction

variable {i : Instruction} {m : Mnemonic}

/-- The immediate that is printed: a shift shows its amount alone, which is where other instructions
have their second register. -/
def immediateOperand (i : Instruction) (op : ImmediateOp) : Int :=
  if op.shifts then i.rs2.toNat else i.imm

/-- The operands of an instruction as tokens. -/
def operandTokens (i : Instruction) : Mnemonic → List (List Char)
  | .register _ => [registerToken i.rd, registerToken i.rs1, registerToken i.rs2]
  | .immediate op =>
    [registerToken i.rd, registerToken i.rs1, decimalToken (i.immediateOperand op)]
  | .lw => [registerToken i.rd, decimalToken i.imm, registerToken i.rs1]
  | .sw => [registerToken i.rs2, decimalToken i.imm, registerToken i.rs1]
  | .branch _ => [registerToken i.rs1, registerToken i.rs2, decimalToken i.imm]
  | .lui => [registerToken i.rd, hexToken i.upperImm.toNat]
  | .jal => [registerToken i.rd, decimalToken i.jumpOffset]

theorem plain_operandTokens (i : Instruction) (m : Mnemonic) :
    ∀ t ∈ i.operandTokens m, Plain t := by
  cases m <;> simp [operandTokens, plain_registerToken, plain_decimalToken, plain_hexToken]

theorem operandTokens_ne_nil (i : Instruction) (m : Mnemonic) : i.operandTokens m ≠ [] := by
  cases m <;> exact List.cons_ne_nil _ _

/-- The printer tells shifts apart by the function field, which is enough for words with a name. -/
theorem hasShiftFunct3_eq {op : ImmediateOp} (h : i.mnemonic? = some (.immediate op)) :
    i.hasShiftFunct3 = op.shifts := by
  obtain ⟨hfunct3, -⟩ := fields_of_mnemonic h
  unfold hasShiftFunct3
  rw [hfunct3 op.funct3 rfl]
  cases op <;> rfl

/-- The operands that are printed, unless they access memory. -/
theorem operands_of_list (h : i.mnemonic? = some m) (hm : Statement.accessesMemory m = false) :
    i.operands.map String.toList = i.operandTokens m := by
  have ho := opcode?_of_mnemonic h
  unfold operands
  rw [ho]
  cases m with
  | register op => rfl
  | immediate op =>
    show [registerToken i.rd, registerToken i.rs1,
      (if i.hasShiftFunct3 then toString i.rs2.toNat else toString i.imm).toList] = _
    rw [hasShiftFunct3_eq h, operandTokens, immediateOperand]
    cases op.shifts <;> rfl
  | branch op => rfl
  | lui =>
    show [registerToken i.rd, ("0x" ++ String.ofList (Numeral.hex 1 i.upperImm.toNat)).toList] = _
    rw [String.toList_append, String.toList_ofList, String.toList_ofList, Numeral.hex_one]
    rfl
  | jal => rfl
  | lw => cases hm
  | sw => cases hm

/-- The base of a memory access is printed with its offset. -/
theorem operands_of_access (h : i.mnemonic? = some m) (hm : Statement.accessesMemory m = true) :
    ∃ a b c, i.operandTokens m = [a, b, c] ∧
      i.operands.map String.toList = [a, b ++ '(' :: (c ++ [')'])] := by
  have ho := opcode?_of_mnemonic h
  have haccess : (toString i.imm ++ "(" ++ registerName i.rs1 ++ ")").toList =
      decimalToken i.imm ++ '(' :: (registerToken i.rs1 ++ [')']) := by
    simp [decimalToken, registerToken]
  unfold operands
  rw [ho, h]
  cases m with
  | lw =>
    refine ⟨_, _, _, rfl, ?_⟩
    rw [← haccess]
    rfl
  | sw =>
    refine ⟨_, _, _, rfl, ?_⟩
    rw [← haccess]
    rfl
  | register op => cases hm
  | immediate op => cases hm
  | branch op => cases hm
  | lui => cases hm
  | jal => cases hm

theorem joined_operandText (h : i.mnemonic? = some m) :
    Joined m (i.operandTokens m) i.operandText.toList := by
  have htext : i.operandText.toList = List.intercalate [',', ' '] (i.operands.map String.toList) :=
    String.toList_intercalate
  rw [htext]
  cases hm : Statement.accessesMemory m with
  | false =>
    rw [operands_of_list h hm]
    exact .list hm
  | true =>
    obtain ⟨a, b, c, htokens, hoperands⟩ := operands_of_access h hm
    rw [hoperands, htokens, List.intercalate_cons_cons, List.intercalate_singleton,
      List.append_assoc]
    exact .access hm

/-- The text of an instruction with a name is a line of it. -/
theorem line_text (h : i.mnemonic? = some m) : m.Line (i.operandTokens m) i.text.toList := by
  have hjoined := joined_operandText h
  have hoperands : i.operands.isEmpty = false := by
    have hne : i.operandText.toList ≠ [] :=
      hjoined.ne_nil (i.plain_operandTokens m) (i.operandTokens_ne_nil m)
    cases hempty : i.operands with
    | nil => exact absurd (by rw [operandText, hempty]; rfl) hne
    | cons s ss => rfl
  have htext : i.text.toList = m.name.toList ++
      (List.replicate (6 - m.name.toList.length + 1) ' ' ++ i.operandText.toList) := by
    unfold text
    rw [hoperands, name_of_mnemonic h, List.replicate_succ']
    simp [padTo, List.rightpad]
  rw [htext]
  exact .mk hjoined

end Instruction

end SingleCycle
