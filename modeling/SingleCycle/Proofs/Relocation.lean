import SingleCycle.Proofs.AcceptedProgram

/-!
# Relocation

The words of a program text do not depend on where it stands. If a text is put behind another one,
then its labels and its rows move by the same distance, and the offsets between them stay. What
could go wrong is that a name stands for something else in the whole text: that it is a label of
both parts, or that it is a label of one part and a number in the other.
-/

namespace SingleCycle

/-! ## Labels that move -/

namespace LabelTable

/-- The table with all addresses moved. -/
def shift (d : Int) (labels : LabelTable) : LabelTable :=
  labels.map fun (name, address) => (name, address + d)

theorem address?_shift (d : Int) (labels : LabelTable) (name : List Char) :
    (labels.shift d).address? name = (labels.address? name).map (· + d) := by
  induction labels with
  | nil => rfl
  | cons entry labels ih =>
    obtain ⟨other, address⟩ := entry
    unfold address? at ih ⊢
    by_cases hname : name = other
    · subst hname
      simp [shift]
    · have hne : (name == other) = false := beq_false_of_ne hname
      simp only [shift, List.map_cons, List.lookup_cons, hne] at ih ⊢
      exact ih

theorem address?_append {above labels : LabelTable} {name : List Char}
    (h : above.address? name = none) : (above ++ labels).address? name = labels.address? name := by
  unfold address? at h ⊢
  rw [List.lookup_append, h, Option.none_or]

/-- The first pass over lines at another place, behind labels that have other names. -/
theorem extend_shift {above table labels : LabelTable} {address first : Nat} (d first' : Nat)
    {raws : List (List Char)} (hfree : ∀ name ∈ labelNames raws, above.address? name = none)
    (h : extend table address (linesFrom first raws) = .ok labels) :
    extend (above ++ table.shift d) (address + d) (linesFrom first' raws) =
      .ok (above ++ labels.shift d) := by
  induction raws generalizing table address first first' with
  | nil =>
    cases h
    rfl
  | cons raw raws ih =>
    have hbelow : ∀ name ∈ labelNames raws, above.address? name = none := by
      intro name hname
      refine hfree name ?_
      rw [labelNames_cons]
      exact List.mem_append_right _ hname
    rw [linesFrom_cons] at h ⊢
    cases hline : SourceLine.ofText raw with
    | blank =>
      rw [hline] at h
      exact ih (first' + 1) hbelow h
    | instruction code =>
      rw [hline] at h
      have ih := ih (first' + 1) hbelow h
      rw [Nat.add_right_comm] at ih
      exact ih
    | label name =>
      rw [hline] at h
      have hname : name ∈ labelNames (raw :: raws) := by
        rw [labelNames_cons, ofText_eq_label.1 hline]
        exact List.mem_cons_self
      unfold extend at h ⊢
      by_cases hempty : name.isEmpty = true
      · rw [if_pos hempty] at h
        cases h
      by_cases hbound : (table.address? name).isSome = true
      · rw [if_neg hempty, if_pos hbound] at h
        cases h
      have hfound : ((above ++ table.shift d).address? name).isSome =
          (table.address? name).isSome := by
        rw [address?_append (hfree name hname), address?_shift, Option.isSome_map]
      have hadded : above ++ table.shift d ++ [(name, ((address + d : Nat) : Int))] =
          above ++ shift d (table ++ [(name, (address : Int))]) := by
        simp [shift]
      rw [if_neg hempty, if_neg hbound] at h
      rw [if_neg hempty, hfound, if_neg hbound, hadded]
      exact ih (first' + 1) hbelow h

/-- Every label of a table is in another one, at an address moved by a distance, and none of the
other table's names is that of a number. -/
structure Moves (d : Int) (labels moved : LabelTable) : Prop where
  /-- A label stays a label. -/
  target : ∀ (name : List Char) (address : Int), labels.address? name = some address →
    moved.address? name = some (address + d)
  /-- A number stays a number. -/
  number : ∀ name : List Char, (moved.address? name).isSome → Operand.immediate? name = none

section

variable {above below : List (List Char)} {labels labels' : LabelTable}

theorem address?_eq_none {name : List Char} (h : ofLines (sourceLines above) = .ok labels)
    (hname : name ∉ labelNames above) : labels.address? name = none := by
  rw [← Option.not_isSome_iff_eq_none, isSome_address? h]
  exact hname

/-- The table of two lists of lines, one behind the other, whose labels have other names. -/
theorem ofLines_append (h : ofLines (sourceLines above) = .ok labels)
    (h' : ofLines (sourceLines below) = .ok labels')
    (hnames : ∀ name ∈ labelNames above, name ∉ labelNames below) :
    ofLines (sourceLines (above ++ below)) =
      .ok (labels ++ labels'.shift (4 * (instructionLines 1 above).length : Nat)) := by
  have hfree : ∀ name ∈ labelNames below, labels.address? name = none :=
    fun name hname => address?_eq_none h fun hmem => hnames name hmem hname
  rw [sourceLines_eq] at h h'
  unfold ofLines at h h'
  have hbelow := extend_shift (4 * (instructionLines 1 above).length) (1 + above.length) hfree h'
  rw [sourceLines_eq, linesFrom_append, ofLines, extend_append_eq, h, codesOf_linesFrom]
  rw [Nat.zero_add] at hbelow ⊢
  rw [← hbelow]
  show extend labels _ _ = extend (labels ++ []) _ _
  rw [List.append_nil]

/-- The table of the whole has the labels of both parts, and none that is a number. -/
theorem moves_append (h : ofLines (sourceLines above) = .ok labels)
    (h' : ofLines (sourceLines below) = .ok labels')
    (hnames : ∀ name ∈ labelNames above, name ∉ labelNames below)
    (hnumbers : ∀ name ∈ labelNames (above ++ below), Operand.immediate? name = none) :
    let whole := labels ++ labels'.shift (4 * (instructionLines 1 above).length : Nat)
    labels.Moves (0 : Nat) whole ∧
      labels'.Moves (4 * (instructionLines 1 above).length : Nat) whole := by
  intro whole
  have hwhole := ofLines_append h h' hnames
  have hnumber : ∀ name, (whole.address? name).isSome → Operand.immediate? name = none :=
    fun name hname => hnumbers name ((isSome_address? hwhole).1 hname)
  refine ⟨⟨?_, hnumber⟩, ⟨?_, hnumber⟩⟩
  · intro name address haddress
    rw [Int.natCast_zero, Int.add_zero]
    exact (List.prefix_append _ _).lookup_eq_some haddress
  · intro name address haddress
    have hmem : name ∈ labelNames below := (isSome_address? h').1 (by rw [haddress]; rfl)
    have hfree := address?_eq_none h fun hname => hnames name hname hmem
    rw [address?_append hfree, address?_shift, haddress]
    rfl

end

end LabelTable

/-! ## Lines that move -/

section

variable {labels moved : LabelTable} {d : Int}

theorem Operand.offset_of_moves {address o : Int} {bits : Nat} {token : List Char}
    (hmoves : labels.Moves d moved) (h : offset labels address bits token = .ok o) :
    offset moved (address + d) bits token = .ok o := by
  obtain ⟨htarget, hlow, hhigh⟩ := offset_eq_ok h
  have hmoved := hmoves.target token _ htarget
  rw [Int.add_right_comm] at hmoved
  exact offset_of_address? hmoved hlow hhigh

namespace Statement

theorem jumpOffset_of_moves {address o : Int} {token : List Char} (hmoves : labels.Moves d moved)
    (h : jumpOffset labels address token = .ok o) :
    jumpOffset moved (address + d) token = .ok o := by
  unfold jumpOffset at h
  by_cases hlabel : (labels.address? token).isSome || (Operand.immediate? token).isNone
  · rw [if_pos hlabel] at h
    have hoffset := Operand.offset_of_moves hmoves h
    obtain ⟨htarget, -⟩ := Operand.offset_eq_ok hoffset
    unfold jumpOffset
    rw [htarget]
    exact hoffset
  · rw [if_neg hlabel] at h
    -- a number stays one: no label of the other table has such a name
    have hfree : moved.address? token = none := by
      cases hmoved : moved.address? token with
      | none => rfl
      | some address =>
        have hnone := hmoves.number token (by rw [hmoved]; rfl)
        simp [hnone] at hlabel
    exact jumpOffset_of_immediate hfree h

theorem encode_of_moves {s : Statement} {address : Int} {w : Word} (hmoves : labels.Moves d moved)
    (h : s.encode labels address = .ok w) : s.encode moved (address + d) = .ok w := by
  cases s with
  | branch op rs1 rs2 label =>
    obtain ⟨o, ho, hw⟩ := bind_eq_ok h
    simp only [encode, Operand.offset_of_moves hmoves ho]
    exact hw
  | jal rd target =>
    obtain ⟨o, ho, hw⟩ := bind_eq_ok h
    simp only [encode, jumpOffset_of_moves hmoves ho]
    exact hw
  | register op rd rs1 rs2 => exact h
  | immediate op rd rs1 imm => exact h
  | lw rd imm rs1 => exact h
  | sw rs2 imm rs1 => exact h
  | lui rd imm => exact h

end Statement

/-- An instruction line that is accepted gives the same at another place and under another
number. -/
theorem assembleLine_of_moves {address line : Int} {code : List Char} {word : Option Word}
    (line' : Int) (hmoves : labels.Moves d moved)
    (h : assembleLine labels address line code = .ok word) :
    assembleLine moved (address + d) line' code = .ok word := by
  unfold assembleLine at h ⊢
  simp only at h ⊢
  by_cases hempty : (Text.splitWord code).1.isEmpty = true
  · rw [if_pos hempty] at h
    cases h
  rw [if_neg hempty] at h ⊢
  cases hm : Mnemonic.ofName? ((Text.splitWord code).1.map Char.toLower) with
  | none =>
    rw [hm] at h
    exact h
  | some m =>
    simp only [hm] at h ⊢
    cases hencoded : Statement.parse m code (Text.splitWord code).2 >>=
        Statement.encode labels address with
    | error error =>
      rw [hencoded] at h
      cases h
    | ok w =>
      obtain ⟨s, hs, hw⟩ := bind_eq_ok hencoded
      have hmoved : Statement.parse m code (Text.splitWord code).2 >>=
          Statement.encode moved (address + d) = .ok w := by
        rw [hs]
        exact Statement.encode_of_moves hmoves hw
      rw [hencoded] at h
      rw [hmoved]
      exact h

end

namespace Assembly

/-- The second pass over lines at another place. -/
theorem rowsFrom_of_moves {labels moved : LabelTable} {address first d : Nat} (first' : Nat)
    {raws : List (List Char)} (hmoves : labels.Moves d moved)
    (h : (rowsFrom labels address (linesFrom first raws)).failure = none) :
    let assembly := rowsFrom moved (address + d) (linesFrom first' raws)
    assembly.failure = none ∧ assembly.rows.filterMap Row.word =
      (rowsFrom labels address (linesFrom first raws)).rows.filterMap Row.word := by
  induction raws generalizing address first first' with
  | nil => exact ⟨rfl, rfl⟩
  | cons raw raws ih =>
    rw [linesFrom_cons] at h ⊢
    rw [linesFrom_cons]
    cases hline : SourceLine.ofText raw with
    | blank =>
      rw [hline] at h
      exact ih (first' + 1) h
    | label name =>
      rw [hline] at h
      exact ih (first' + 1) h
    | instruction code =>
      rw [hline] at h
      cases hword : assembleLine labels address first code with
      | error error =>
        simp only [rowsFrom, hword] at h
        cases h
      | ok word =>
        have hmoved := assembleLine_of_moves first' hmoves hword
        rw [← Int.natCast_add] at hmoved
        have haddress : address + d + 4 = address + 4 + d := Nat.add_right_comm address d 4
        simp only [rowsFrom, hword] at h
        obtain ⟨hok, hwords⟩ := ih (first' + 1) h
        simp only [rowsFrom, hword, hmoved, haddress, List.filterMap_cons, hwords]
        exact ⟨hok, trivial⟩

/-- Two lists of lines, one behind the other. -/
theorem words_append {above below : List (List Char)} {ws ws' : List Word}
    (h : (ofLines (sourceLines above)).words = .ok ws)
    (h' : (ofLines (sourceLines below)).words = .ok ws')
    (hnames : ∀ name ∈ labelNames above, name ∉ labelNames below)
    (hnumbers : ∀ name ∈ labelNames (above ++ below), Operand.immediate? name = none) :
    (ofLines (sourceLines (above ++ below))).words = .ok (ws ++ ws') ∧ ∃ labels labels',
      LabelTable.ofLines (sourceLines above) = .ok labels ∧
      LabelTable.ofLines (sourceLines below) = .ok labels' ∧
      LabelTable.ofLines (sourceLines (above ++ below)) =
        .ok (labels ++ labels'.shift (4 * (instructionLines 1 above).length : Nat)) := by
  obtain ⟨hok, rfl⟩ := words_eq_ok h
  obtain ⟨hok', rfl⟩ := words_eq_ok h'
  obtain ⟨labels, hlabels⟩ := labels_of_no_failure hok
  obtain ⟨labels', hlabels'⟩ := labels_of_no_failure hok'
  have hwhole := LabelTable.ofLines_append hlabels hlabels' hnames
  refine ⟨?_, labels, labels', hlabels, hlabels', hwhole⟩
  obtain ⟨hmoves, hmoves'⟩ := LabelTable.moves_append hlabels hlabels' hnames hnumbers
  rw [ofLines_eq_rowsFrom hlabels] at hok ⊢
  rw [ofLines_eq_rowsFrom hlabels'] at hok' ⊢
  obtain ⟨hsame, hwords⟩ := rowsFrom_of_moves 1 hmoves hok
  obtain ⟨hsame', hwords'⟩ := rowsFrom_of_moves (1 + above.length) hmoves' hok'
  rw [ofLines_eq_rowsFrom hwhole, linesFrom_append, rowsFrom_append _ hsame, codesOf_linesFrom]
  rw [← hwords, ← hwords', ← List.filterMap_append]
  exact result_of_no_failure _ hsame'

theorem words_append_gap {above gap : List (List Char)} {ws : List Word}
    (h : (ofLines (sourceLines above)).words = .ok ws)
    (hnumbers : ∀ name ∈ labelNames above, Operand.immediate? name = none)
    (hgap : gap = [] ∨ gap = [[]]) :
    (ofLines (sourceLines (above ++ gap))).words = .ok ws ∧
      labelNames (above ++ gap) = labelNames above ∧
      instructionLines 1 (above ++ gap) = instructionLines 1 above ∧
      LabelTable.ofLines (sourceLines (above ++ gap)) =
        LabelTable.ofLines (sourceLines above) := by
  rcases hgap with rfl | rfl
  · rw [List.append_nil]
    exact ⟨h, rfl, rfl, rfl⟩
  · have hnames : labelNames (above ++ [[]]) = labelNames above := by
      rw [labelNames_append]
      exact List.append_nil _
    have hlines : instructionLines 1 (above ++ [[]]) = instructionLines 1 above := by
      rw [instructionLines_append]
      exact List.append_nil _
    have hblank : (ofLines (sourceLines [[]])).words = .ok [] := rfl
    rw [← hnames] at hnumbers
    obtain ⟨hwords, labels, labels', hlabels, hnil, hwhole⟩ :=
      words_append h hblank (fun _ _ => List.not_mem_nil) hnumbers
    cases hnil
    refine ⟨?_, hnames, hlines, ?_⟩
    · rw [hwords, List.append_nil]
    · rw [hlabels, hwhole]
      exact congrArg Except.ok (List.append_nil labels)

/-- Two program texts, one behind the other, have the words of the first and those of the second,
if no label of the one is a label of the other and no label is a number. The labels of the second
move behind the instruction lines of the first. -/
theorem relocates (p q : List Char) (ws ws' : List Word) (hp : (ofText p).words = .ok ws)
    (hq : (ofText q).words = .ok ws')
    (hnames : ∀ name ∈ labelNames (Text.lines p), name ∉ labelNames (Text.lines q))
    (hnumbers : ∀ name ∈ labelNames (Text.lines p) ++ labelNames (Text.lines q),
      Operand.immediate? name = none) :
    (ofText (p ++ '\n' :: q)).words = .ok (ws ++ ws') ∧ ∃ labels labels',
      LabelTable.ofLines (sourceLines (Text.lines p)) = .ok labels ∧
      LabelTable.ofLines (sourceLines (Text.lines q)) = .ok labels' ∧
      LabelTable.ofLines (sourceLines (Text.lines (p ++ '\n' :: q))) =
        .ok (labels ++ labels'.shift (4 * (instructionLines 1 (Text.lines p)).length : Nat)) := by
  obtain ⟨gap, hgap, hlines⟩ := Text.lines_line_feed p q
  obtain ⟨hwords, hsameNames, hsameLines, hsameLabels⟩ :=
    words_append_gap hp (fun name hname => hnumbers name (List.mem_append_left _ hname)) hgap
  unfold ofText
  rw [← hsameNames] at hnames hnumbers
  rw [hlines, ← List.append_assoc, ← hsameLabels, ← hsameLines]
  rw [← labelNames_append] at hnumbers
  exact words_append hwords hq hnames hnumbers

/-- Two texts that both branch, the first one with a skipped line and a carriage return at its end.
The label of the second moves from 4 to 16, and the branch to it stays the same word. -/
theorem relocates_loops :
    let p := "up:\nnop\nadd x1, x1, x2\nbne x1, x3, up\r".toList
    let q := "// on\njal x0, 8\non :\nbeq x0, x0, on".toList
    let ws : List Word := [0x002080b3, 0xfe309ce3]
    let ws' : List Word := [0x0080006f, 0x00000063]
    (ofText p).words = .ok ws ∧ (ofText q).words = .ok ws' ∧
      (ofText (p ++ '\n' :: q)).words = .ok (ws ++ ws') ∧
      ∃ labels labels', LabelTable.ofLines (sourceLines (Text.lines p)) = .ok labels ∧
        LabelTable.ofLines (sourceLines (Text.lines q)) = .ok labels' ∧
        LabelTable.ofLines (sourceLines (Text.lines (p ++ '\n' :: q))) =
          .ok (labels ++ labels'.shift (4 * (instructionLines 1 (Text.lines p)).length : Nat)) := by
  intro p q ws ws'
  have hp : (ofText p).words = .ok ws := rfl
  have hq : (ofText q).words = .ok ws' := rfl
  exact ⟨hp, hq, relocates p q ws ws' hp hq (by decide) (by decide)⟩

end Assembly

end SingleCycle
