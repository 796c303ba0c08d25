import SingleCycle.Assembly.HexProgram
import SingleCycle.Program.File
import SingleCycle.Proofs.AcceptedProgram
import SingleCycle.Proofs.Cutting
import SingleCycle.Proofs.Numerals

/-!
# Texts of hexadecimal words

How a program may be written in hexadecimal words: each word on a line of its own, with white space
and comments wherever they do not break it up, and with lines in between that have no code. This is
said here without the functions that cut a text, and the reader accepts exactly these texts.
-/

namespace SingleCycle

/-! ## Code parts -/

/-- What ends a line: one terminator, or a carriage return and the line feed after it. -/
inductive LineBreak : List Char → Prop where
  | single {c : Char} (hc : Text.isTerminator c = true) : LineBreak [c]
  | pair : LineBreak ['\r', '\n']

/-- A single line of text with a piece of code: there may be white space around the code, and a
comment behind it. -/
structure LineOf (code line : List Char) : Prop where
  parts : ∃ before after comment, line = before ++ (code ++ (after ++ comment)) ∧
    (∀ c ∈ before, Text.isBlank c = true) ∧ (∀ c ∈ after, Text.isBlank c = true) ∧ Comment comment
  unbroken : ∀ c ∈ line, Text.isTerminator c = false

/-- The code parts of lines, as far as there is code. -/
def codeParts (raws : List (List Char)) : List (List Char) :=
  (raws.map codePart).filter fun code => !code.isEmpty

theorem codeParts_cons (raw : List Char) (raws : List (List Char)) :
    codeParts (raw :: raws) = codeParts [raw] ++ codeParts raws := by
  unfold codeParts
  rw [← List.singleton_append, List.map_append, List.filter_append]

theorem codeParts_blank (raws : List (List Char)) : codeParts ([] :: raws) = codeParts raws := rfl

theorem codeParts_of_code {raw code : List Char} (h : codePart raw = code) :
    codeParts [raw] = if code.isEmpty then [] else [code] := by
  unfold codeParts
  rw [List.map_singleton, h, List.filter_cons]
  cases code <;> rfl

/-- The code of a text up to a terminator, and behind it. -/
theorem codeParts_lines_append {line rest : List Char} {c : Char}
    (hline : ∀ d ∈ line, Text.isTerminator d = false) (hc : Text.isTerminator c = true) :
    codeParts (Text.lines (line ++ c :: rest)) =
      codeParts [line] ++ codeParts (Text.lines rest) := by
  have hbehind : codeParts (Text.lines (c :: rest)).tail = codeParts (Text.lines rest) := by
    rcases Text.lines_terminator hc rest with hlines | ⟨below, rfl, hlines⟩
    · rw [hlines]
      rfl
    · -- The line feed belongs to the carriage return before it, so it ends no line of its own. That
      -- line would have no code.
      have hfeed : Text.lines ('\n' :: below) = [] :: Text.lines below := rfl
      rw [hlines, hfeed, codeParts_blank]
      rfl
  rw [Text.lines_unbroken_append hline hc, codeParts_cons, hbehind]

theorem codeParts_lines_last {line : List Char} (hline : ∀ d ∈ line, Text.isTerminator d = false) :
    codeParts (Text.lines line) = codeParts [line] := by
  cases line with
  | nil => rfl
  | cons c line => rw [Text.lines_of_no_terminator (List.cons_ne_nil c line) hline]

/-- Every terminator parts the code of a text, also one that belongs to a pair. -/
theorem codeParts_lines_terminator {c : Char} (hc : Text.isTerminator c = true)
    (above below : List Char) : codeParts (Text.lines (above ++ c :: below)) =
      codeParts (Text.lines above) ++ codeParts (Text.lines below) := by
  induction above using Text.line_induction with
  | last line hline => rw [codeParts_lines_append hline hc, codeParts_lines_last hline]
  | more line d rest hline hd ih =>
    rw [List.append_assoc, List.cons_append, codeParts_lines_append hline hd, ih,
      codeParts_lines_append hline hd, List.append_assoc]

theorem codeParts_lines_break {ending : List Char} (hending : LineBreak ending)
    (above below : List Char) : codeParts (Text.lines (above ++ (ending ++ below))) =
      codeParts (Text.lines above) ++ codeParts (Text.lines below) := by
  cases hending with
  | single hc => exact codeParts_lines_terminator hc above below
  | pair =>
    have hfeed : codeParts (Text.lines ([] ++ '\n' :: below)) = codeParts (Text.lines below) :=
      codeParts_lines_append nofun (by decide)
    rw [← hfeed]
    exact codeParts_lines_terminator (by decide) above ('\n' :: below)

/-! ## The code of a line -/

theorem lineOf_codePart {raw : List Char} (hraw : ∀ c ∈ raw, Text.isTerminator c = false) :
    LineOf (codePart raw) raw := by
  obtain ⟨comment, hcomment, hsplit⟩ := beforeComment_comment raw
  obtain ⟨before, after, htrim, hbefore, hafter⟩ := Text.trim_enclosed (beforeComment raw)
  refine ⟨⟨before, after, comment, ?_, hbefore, hafter, hcomment⟩, hraw⟩
  calc raw = beforeComment raw ++ comment := hsplit
    _ = before ++ (codePart raw ++ after) ++ comment := congrArg (· ++ comment) htrim
    _ = before ++ (codePart raw ++ (after ++ comment)) := by simp only [List.append_assoc]

theorem codePart_of_lineOf {code line : List Char} (h : LineOf code line)
    (htrimmed : Text.Trimmed code) (hcode : ∀ c ∈ code, c ≠ '#' ∧ c ≠ '/') :
    codePart line = code := by
  obtain ⟨before, after, comment, rfl, hbefore, hafter, hcomment⟩ := h.parts
  have hfront : ∀ c ∈ before ++ (code ++ after), c ≠ '#' ∧ c ≠ '/' := by
    intro c hc
    rcases List.mem_append.1 hc with hc | hc
    · exact ne_comment_of_isBlank (hbefore c hc)
    rcases List.mem_append.1 hc with hc | hc
    · exact hcode c hc
    · exact ne_comment_of_isBlank (hafter c hc)
  have hcut : beforeComment (before ++ (code ++ (after ++ comment))) =
      before ++ (code ++ after) := by
    have happend : beforeComment (before ++ (code ++ after) ++ comment) = _ :=
      beforeComment_append hfront
    rw [hcomment.beforeComment_eq, List.append_nil] at happend
    simpa only [List.append_assoc] using happend
  unfold codePart
  rw [hcut, Text.trim_margins hbefore hafter]
  exact htrimmed.trim_eq

/-! ## Words -/

namespace HexProgram

/-- A piece of code is a word in one to eight hexadecimal digits of either case. -/
def Renders (code : List Char) (w : Word) : Prop :=
  Numeral.Spells 16 code w.toNat ∧ code.length ≤ 8

/-- A single line with a word on it, or without code. -/
inductive LineWrites : List Word → List Char → Prop where
  | nothing {line : List Char} (hline : LineOf [] line) : LineWrites [] line
  | word {w : Word} {code line : List Char} (hcode : Renders code w) (hline : LineOf code line) :
    LineWrites [w] line

/-- A text with the given words on its lines, in order. -/
inductive Writes : List Word → List Char → Prop where
  | last {ws : List Word} {line : List Char} (hline : LineWrites ws line) : Writes ws line
  | more {ws below : List Word} {line ending rest : List Char} (hline : LineWrites ws line)
    (hending : LineBreak ending) (hrest : Writes below rest) :
    Writes (ws ++ below) (line ++ (ending ++ rest))

theorem word?_eq_some {code : List Char} {w : Word} : word? code = some w ↔ Renders code w := by
  have hspells : ∀ {n : Nat}, Numeral.Spells 16 code n ↔
      ∃ digits, Numeral.digits? Numeral.hexDigit? code = some digits ∧
        Numeral.value 16 digits = n := Numeral.spells_iff fun _ _ => Numeral.hexDigit?_eq_some_iff
  unfold word? Renders
  constructor
  · intro h
    split at h
    · next digits hdigits =>
      split at h
      · next hlength =>
        obtain rfl := Option.some.inj h
        have hcode : Numeral.Spells 16 code (Numeral.value 16 digits) :=
          hspells.2 ⟨digits, hdigits, rfl⟩
        rw [Numeral.length_of_digits? hdigits] at hlength
        have hlt : Numeral.value 16 digits < 2 ^ 32 :=
          calc Numeral.value 16 digits < 16 ^ code.length := hcode.lt_pow (by decide)
            _ ≤ 16 ^ 8 := Nat.pow_le_pow_right (by decide) hlength
            _ = 2 ^ 32 := rfl
        rw [BitVec.toNat_ofNat, Nat.mod_eq_of_lt hlt]
        exact ⟨hcode, hlength⟩
      · cases h
    · cases h
  · rintro ⟨hcode, hlength⟩
    obtain ⟨digits, hdigits, hvalue⟩ := hspells.1 hcode
    rw [← Numeral.length_of_digits? hdigits] at hlength
    simp only [hdigits, if_pos hlength, hvalue, BitVec.ofNat_toNat, BitVec.setWidth_eq]

theorem Renders.isHex {code : List Char} {w : Word} (h : Renders code w) :
    HexProgram.isHex code = true := by
  have hword := word?_eq_some.2 h
  unfold word? at hword
  unfold HexProgram.isHex
  cases hdigits : Numeral.digits? Numeral.hexDigit? code with
  | some digits => rfl
  | none =>
    rw [hdigits] at hword
    cases hword

/-- A word in digits has nothing that a line would cut off. -/
theorem Renders.facts {code : List Char} {w : Word} (h : Renders code w) :
    code ≠ [] ∧ Text.Trimmed code ∧ ∀ c ∈ code, c ≠ '#' ∧ c ≠ '/' := by
  obtain ⟨hne, hdigits⟩ := digits_of_isHex h.isHex
  refine ⟨hne, .of_solid fun c hc => ?_, fun c hc => ?_⟩
  · obtain ⟨d, hd⟩ := hdigits c hc
    exact isBlank_of_hexDigit hd
  · obtain ⟨d, hd⟩ := hdigits c hc
    constructor
    · rintro rfl
      exact absurd hd (by simp [Numeral.hexDigit?])
    · rintro rfl
      exact absurd hd (by simp [Numeral.hexDigit?])

/-! ## The reader -/

theorem map_snd_codeLines (source : List Char) :
    (codeLines source).map Prod.snd = codeParts (Text.lines source) := by
  unfold codeLines Text.numbered codeParts
  rw [List.map_map]
  refine (List.filter_map (p := fun code : List Char => !code.isEmpty)).symm.trans ?_
  rw [List.map_map]
  have hraws : ((Text.lines source).zipIdx 1).map Prod.fst = Text.lines source :=
    List.zipIdx_map_fst 1 _
  conv_rhs => rw [← hraws, List.map_map]
  rfl

theorem wordsOf_eq_ok {lines : List (Nat × List Char)} {ws : List Word} :
    wordsOf lines = .ok ws ↔ List.Forall₂ Renders (lines.map Prod.snd) ws := by
  induction lines generalizing ws with
  | nil =>
    rw [List.map_nil, List.forall₂_nil_left_iff]
    exact ⟨fun h => (Except.ok.inj h).symm, fun h => congrArg _ h.symm⟩
  | cons line lines ih =>
    obtain ⟨number, code⟩ := line
    rw [List.map_cons, List.forall₂_cons_left_iff, wordsOf]
    simp only [← ih, ← word?_eq_some]
    cases word? code with
    | none => simp
    | some w =>
      cases hbelow : wordsOf lines with
      | error error => simp [Except.map]
      | ok below => simp [Except.map, eq_comm]

theorem LineWrites.unbroken {ws : List Word} {line : List Char} (h : LineWrites ws line) :
    ∀ c ∈ line, Text.isTerminator c = false := by
  cases h with
  | nothing hline => exact hline.unbroken
  | word hcode hline => exact hline.unbroken

theorem lineWrites_iff {line : List Char} {ws : List Word}
    (hline : ∀ c ∈ line, Text.isTerminator c = false) :
    LineWrites ws line ↔ List.Forall₂ Renders (codeParts [line]) ws := by
  constructor
  · intro h
    cases h with
    | nothing h =>
      rw [codeParts_of_code (codePart_of_lineOf h (.of_solid nofun) nofun)]
      exact .nil
    | word hcode h =>
      obtain ⟨hne, htrimmed, hplain⟩ := hcode.facts
      rw [codeParts_of_code (codePart_of_lineOf h htrimmed hplain),
        if_neg (by simp [hne])]
      exact .cons hcode .nil
  · intro h
    have hcode := lineOf_codePart hline
    rw [codeParts_of_code rfl] at h
    by_cases hempty : (codePart line).isEmpty = true
    · rw [if_pos hempty] at h
      rw [List.isEmpty_iff.1 hempty] at hcode
      cases h
      exact .nothing hcode
    · rw [if_neg hempty] at h
      cases h with
      | cons hword hnil =>
        cases hnil
        exact .word hword hcode

theorem writes_of_codeParts {source : List Char} {ws : List Word}
    (h : List.Forall₂ Renders (codeParts (Text.lines source)) ws) : Writes ws source := by
  induction source using Text.line_induction generalizing ws with
  | last line hline =>
    rw [codeParts_lines_last hline] at h
    exact .last ((lineWrites_iff hline).2 h)
  | more line c rest hline hc ih =>
    rw [codeParts_lines_append hline hc] at h
    have hfirst := (List.forall₂_take_append _ _ _ h.flip).flip
    have hbelow := (List.forall₂_drop_append _ _ _ h.flip).flip
    rw [← List.take_append_drop (codeParts [line]).length ws]
    exact .more ((lineWrites_iff hline).2 hfirst) (.single hc) (ih hbelow)

/-- The reader accepts exactly the texts of words, and reads the words on their lines. -/
theorem words_eq_ok {source : List Char} {ws : List Word} :
    words source = .ok ws ↔ Writes ws source := by
  unfold words
  rw [wordsOf_eq_ok, map_snd_codeLines]
  constructor
  · exact writes_of_codeParts
  · intro h
    induction h with
    | last hline =>
      have hunbroken := hline.unbroken
      rw [codeParts_lines_last hunbroken]
      exact (lineWrites_iff hunbroken).1 hline
    | more hline hending hrest ih =>
      have hunbroken := hline.unbroken
      rw [codeParts_lines_break hending, codeParts_lines_last hunbroken]
      exact List.rel_append ((lineWrites_iff hunbroken).1 hline) ih

/-- A text of words is taken for one as soon as it has a word. -/
theorem recognizes_of_words {source : List Char} {w : Word} {ws : List Word}
    (h : words source = .ok (w :: ws)) : recognizes source = true := by
  unfold words at h
  rw [wordsOf_eq_ok] at h
  unfold recognizes
  cases hlines : codeLines source with
  | nil =>
    rw [hlines] at h
    cases h
  | cons line lines =>
    rw [hlines] at h
    cases h with
    | cons hcode hrest => exact hcode.isHex

theorem codeLines_of_no_words {source : List Char} (h : words source = .ok []) :
    codeLines source = [] := by
  unfold words at h
  rw [wordsOf_eq_ok, List.forall₂_nil_right_iff] at h
  exact List.map_eq_nil_iff.1 h

theorem codeParts_of_words {source : List Char} (h : words source = .ok []) :
    codeParts (Text.lines source) = [] := by
  rw [← map_snd_codeLines, codeLines_of_no_words h]
  rfl

end HexProgram

/-! ## Program texts -/

/-- Whether a line has code. -/
def SourceLine.holdsCode : SourceLine → Bool
  | blank => false
  | _ => true

theorem SourceLine.holdsCode_ofCode (code : List Char) :
    (ofCode code).holdsCode = !code.isEmpty := by
  unfold ofCode
  cases code with
  | nil => rfl
  | cons c cs => cases labelName? (c :: cs) <;> rfl

theorem LabelTable.extend_filter (table : LabelTable) (address : Nat)
    (lines : List (Nat × SourceLine)) :
    extend table address (lines.filter (·.2.holdsCode)) = extend table address lines := by
  fun_induction extend table address lines with
  | case1 table address => rfl
  | case2 table address number lines ih => exact ih
  | case3 table address number code lines ih => exact ih
  | case4 table address number name lines hempty =>
    exact if_pos hempty
  | case5 table address number name lines hempty hbound =>
    exact (if_neg hempty).trans (if_pos hbound)
  | case6 table address number name lines hempty hbound ih =>
    exact (if_neg hempty).trans ((if_neg hbound).trans ih)

theorem Assembly.rowsFrom_filter (labels : LabelTable) (address : Nat)
    (lines : List (Nat × SourceLine)) :
    rowsFrom labels address (lines.filter (·.2.holdsCode)) = rowsFrom labels address lines := by
  induction lines generalizing address with
  | nil => rfl
  | cons entry lines ih =>
    obtain ⟨number, line⟩ := entry
    cases line with
    | blank => exact ih address
    | label name => exact ih address
    | instruction code =>
      have hlater := ih (address + 4)
      rw [List.filter_cons_of_pos rfl, rowsFrom, rowsFrom, hlater]

/-- The lines of a text that have code. -/
theorem filter_sourceLines (source : List Char) :
    (sourceLines (Text.lines source)).filter (·.2.holdsCode) =
      (HexProgram.codeLines source).map fun line => (line.1, SourceLine.ofCode line.2) := by
  unfold sourceLines HexProgram.codeLines
  rw [List.filter_map, List.filter_map, List.map_map]
  have hsame : ((fun line : Nat × SourceLine => line.2.holdsCode) ∘
      fun raw : Nat × List Char => (raw.1, SourceLine.ofText raw.2)) =
      (fun line : Nat × List Char => !line.2.isEmpty) ∘ fun raw => (raw.1, codePart raw.2) := by
    funext raw
    exact SourceLine.holdsCode_ofCode (codePart raw.2)
  exact congrArg (fun p => (List.filter p _).map _) hsame

/-- Neither pass of the assembler finds anything on lines without code. -/
theorem ofLines_filter (lines : List (Nat × SourceLine)) :
    LabelTable.ofLines (lines.filter (·.2.holdsCode)) = LabelTable.ofLines lines ∧
      Assembly.ofLines (lines.filter (·.2.holdsCode)) = Assembly.ofLines lines := by
  have hlabels : LabelTable.ofLines (lines.filter (·.2.holdsCode)) = LabelTable.ofLines lines :=
    LabelTable.extend_filter [] 0 lines
  refine ⟨hlabels, ?_⟩
  unfold Assembly.ofLines
  rw [hlabels]
  simp only [Assembly.rowsFrom_filter]

/-- A text without code is an assembly without rows. -/
theorem Assembly.ofText_of_no_code {source : List Char}
    (h : HexProgram.codeLines source = []) : Assembly.ofText source = ⟨[], none⟩ := by
  have hlines := filter_sourceLines source
  rw [h] at hlines
  unfold Assembly.ofText
  rw [← (ofLines_filter _).2, hlines]
  rfl

/-- A text of words is read as these words, whether it has any or not. -/
theorem Reading.ofText_of_writes {source : List Char} {ws : List Word}
    (h : HexProgram.Writes ws source) : Reading.ofText source = ⟨[], .ok ws⟩ := by
  have hwords := HexProgram.words_eq_ok.2 h
  have htext : ProgramText.read source = ⟨[], .ok ws⟩ := by
    unfold ProgramText.read
    cases ws with
    | nil =>
      have hlines := HexProgram.codeLines_of_no_words hwords
      have hhex : HexProgram.recognizes source = false := by
        unfold HexProgram.recognizes
        rw [hlines]
      rw [hhex, Assembly.ofText_of_no_code hlines]
      rfl
    | cons w ws =>
      rw [HexProgram.recognizes_of_words hwords, hwords]
      rfl
  unfold Reading.ofText
  rw [htext]
  rfl

end SingleCycle
