import SingleCycle.Proofs.EncodedStatement

/-!
# Addresses

The two passes of the assembler walk over the same lines with a counter each. Both counters follow
the instruction lines alone: the first pass binds a label to four times the number of instruction
lines above it, the second gives the row of an instruction line four times its place among them. So
the offset that a branch or a jump encodes leads from its row to its label.
-/

namespace SingleCycle

theorem split_of_getElem? {α : Type} {xs : List α} {k : Nat} {x : α} (h : xs[k]? = some x) :
    xs = xs.take k ++ x :: xs.drop (k + 1) := by
  obtain ⟨hk, hget⟩ := List.getElem?_eq_some_iff.1 h
  rw [← hget, ← List.drop_eq_getElem_cons hk, List.take_append_drop]

/-! ## Instruction lines -/

theorem instructionLines_append (first : Nat) (above below : List (List Char)) :
    instructionLines first (above ++ below) =
      instructionLines first above ++ instructionLines (first + above.length) below := by
  unfold instructionLines
  rw [List.zipIdx_append, List.filter_append, List.map_append]

@[simp]
theorem length_instructionLines (first : Nat) (raws : List (List Char)) :
    (instructionLines first raws).length = raws.countP holdsInstruction := by
  unfold instructionLines
  rw [List.length_map, ← List.countP_eq_length_filter]
  have hmap := List.countP_map (p := holdsInstruction) (f := Prod.fst) (l := raws.zipIdx first)
  rw [List.zipIdx_map_fst] at hmap
  exact hmap.symm

theorem number_of_mem_instructionLines {first number : Nat} {raws : List (List Char)}
    {code : List Char} (h : (number, code) ∈ instructionLines first raws) :
    first ≤ number ∧ number < first + raws.length := by
  obtain ⟨⟨raw, n⟩, hmem, heq⟩ := List.mem_map.1 h
  obtain ⟨hmem, -⟩ := List.mem_filter.1 hmem
  obtain ⟨hlow, hhigh, -⟩ := List.mem_zipIdx hmem
  cases heq
  exact ⟨hlow, hhigh⟩

theorem instructionLines_cons (first : Nat) (raw : List Char) (raws : List (List Char)) :
    instructionLines first (raw :: raws) =
      if holdsInstruction raw then (first, codePart raw) :: instructionLines (first + 1) raws
      else instructionLines (first + 1) raws := by
  unfold instructionLines
  rw [List.zipIdx_cons, List.filter_cons]
  by_cases hraw : holdsInstruction raw = true
  · rw [if_pos hraw, if_pos hraw]
    rfl
  · rw [if_neg hraw, if_neg hraw]

theorem getElem?_instructionLines {first : Nat} {raws : List (List Char)} {raw : List Char}
    (hraw : raw ∈ raws) (hholds : holdsInstruction raw = true) :
    ∃ i number : Nat, (instructionLines first raws)[i]? = some (number, codePart raw) := by
  rw [← List.zipIdx_map_fst first raws] at hraw
  obtain ⟨entry, hentry, rfl⟩ := List.mem_map.1 hraw
  have hmem : (entry.2, codePart entry.1) ∈ instructionLines first raws :=
    List.mem_map.2 ⟨entry, List.mem_filter.2 ⟨hentry, hholds⟩, rfl⟩
  obtain ⟨i, hi⟩ := List.mem_iff_getElem?.1 hmem
  exact ⟨i, entry.2, hi⟩

theorem pairwise_instructionLines (first : Nat) (raws : List (List Char)) :
    (instructionLines first raws).Pairwise fun above below => above.1 < below.1 := by
  have hnumbers : ((raws.zipIdx first).map Prod.snd).Pairwise (· < ·) := by
    rw [List.zipIdx_map_snd]
    exact List.pairwise_lt_range'
  exact List.pairwise_map.2 ((List.pairwise_map.1 hnumbers).filter _)

/-- The instruction lines above a line come before all that stand below it. -/
theorem number_of_instructionLines {raws : List (List Char)} {k i number : Nat}
    {raw code : List Char} (hraw : raws[k]? = some raw) (hlabel : holdsInstruction raw = false)
    (h : (instructionLines 1 raws)[i]? = some (number, code)) :
    (i < (raws.take k).countP holdsInstruction → number ≤ k) ∧
      ((raws.take k).countP holdsInstruction ≤ i → k + 1 < number) := by
  obtain ⟨hk, -⟩ := List.getElem?_eq_some_iff.1 hraw
  have htake : (raws.take k).length = k := List.length_take_of_le (Nat.le_of_lt hk)
  have hlines : instructionLines 1 raws = instructionLines 1 (raws.take k) ++
      instructionLines (k + 2) (raws.drop (k + 1)) := by
    have happend := instructionLines_append 1 (raws.take k) (raw :: raws.drop (k + 1))
    rw [← split_of_getElem? hraw, instructionLines_cons, hlabel, htake] at happend
    rw [happend, Nat.add_comm 1 k]
    rfl
  rw [hlines] at h
  constructor
  · intro hi
    rw [List.getElem?_append_left (by simpa using hi)] at h
    obtain ⟨-, hhigh⟩ := number_of_mem_instructionLines (List.mem_of_getElem? h)
    omega
  · intro hi
    rw [List.getElem?_append_right (by simpa using hi)] at h
    obtain ⟨hlow, -⟩ := number_of_mem_instructionLines (List.mem_of_getElem? h)
    omega

/-- The instruction lines among lines that were told apart already. -/
def codesOf : List (Nat × SourceLine) → List (Nat × List Char)
  | [] => []
  | (_, .blank) :: lines => codesOf lines
  | (_, .label _) :: lines => codesOf lines
  | (number, .instruction code) :: lines => (number, code) :: codesOf lines

theorem ofText_eq_label {raw name : List Char} :
    SourceLine.ofText raw = .label name ↔ labelName? (codePart raw) = some name := by
  unfold SourceLine.ofText SourceLine.ofCode
  cases hcode : codePart raw with
  | nil => exact ⟨nofun, nofun⟩
  | cons c cs =>
    cases hlabel : labelName? (c :: cs) with
    | none => exact ⟨nofun, nofun⟩
    | some other =>
      constructor
      · rintro ⟨⟩
        rfl
      · rintro ⟨⟩
        rfl

theorem ofText_of_holdsInstruction {raw : List Char} (h : holdsInstruction raw = true) :
    SourceLine.ofText raw = .instruction (codePart raw) := by
  unfold holdsInstruction at h
  simp only [Bool.and_eq_true, Bool.not_eq_true', Option.isNone_iff_eq_none] at h
  unfold SourceLine.ofText SourceLine.ofCode
  rw [h.1, h.2]
  rfl

theorem ofText_ne_instruction {raw code : List Char} (h : holdsInstruction raw = false) :
    SourceLine.ofText raw ≠ .instruction code := by
  intro hline
  unfold SourceLine.ofText SourceLine.ofCode at hline
  unfold holdsInstruction at h
  by_cases hempty : (codePart raw).isEmpty = true
  · rw [if_pos hempty] at hline
    cases hline
  · cases hlabel : labelName? (codePart raw) with
    | some name =>
      rw [if_neg hempty, hlabel] at hline
      cases hline
    | none =>
      rw [hlabel] at h
      simp [hempty] at h

theorem not_holdsInstruction_of_label {raw name : List Char}
    (h : labelName? (codePart raw) = some name) : holdsInstruction raw = false := by
  unfold holdsInstruction
  rw [h]
  exact Bool.and_false _

/-- Numbered lines of text, told apart. -/
def linesFrom (first : Nat) (raws : List (List Char)) : List (Nat × SourceLine) :=
  (raws.zipIdx first).map fun (raw, number) => (number, .ofText raw)

theorem sourceLines_eq (raws : List (List Char)) : sourceLines raws = linesFrom 1 raws := by
  unfold sourceLines Text.numbered linesFrom
  rw [List.map_map]
  rfl

theorem linesFrom_cons (first : Nat) (raw : List Char) (raws : List (List Char)) :
    linesFrom first (raw :: raws) = (first, .ofText raw) :: linesFrom (first + 1) raws := rfl

theorem linesFrom_append (first : Nat) (above below : List (List Char)) :
    linesFrom first (above ++ below) =
      linesFrom first above ++ linesFrom (first + above.length) below := by
  unfold linesFrom
  rw [List.zipIdx_append, List.map_append]

theorem linesFrom_of_getElem? (first : Nat) {raws : List (List Char)} {k : Nat} {raw : List Char}
    (hraw : raws[k]? = some raw) :
    linesFrom first raws = linesFrom first (raws.take k) ++
      (first + k, .ofText raw) :: linesFrom (first + k + 1) (raws.drop (k + 1)) := by
  have hlength : (raws.take k).length = k :=
    List.length_take_of_le (Nat.le_of_lt (List.getElem?_eq_some_iff.1 hraw).1)
  have happend := linesFrom_append first (raws.take k) (raw :: raws.drop (k + 1))
  rw [← split_of_getElem? hraw, hlength] at happend
  exact happend

@[simp]
theorem codesOf_linesFrom (first : Nat) (raws : List (List Char)) :
    codesOf (linesFrom first raws) = instructionLines first raws := by
  induction raws generalizing first with
  | nil => rfl
  | cons raw raws ih =>
    rw [linesFrom_cons, instructionLines_cons, ← ih]
    cases hraw : holdsInstruction raw with
    | true =>
      rw [ofText_of_holdsInstruction hraw]
      rfl
    | false =>
      cases hline : SourceLine.ofText raw with
      | blank => rfl
      | label name => rfl
      | instruction code => exact absurd hline (ofText_ne_instruction hraw)

/-- The names of the labels on lines of text, in the order of the lines. -/
def labelNames (raws : List (List Char)) : List (List Char) :=
  raws.filterMap fun raw => labelName? (codePart raw)

theorem labelNames_cons (raw : List Char) (raws : List (List Char)) :
    labelNames (raw :: raws) = (labelName? (codePart raw)).toList ++ labelNames raws := by
  unfold labelNames
  rw [List.filterMap_cons]
  cases labelName? (codePart raw) <;> rfl

theorem labelNames_append (above below : List (List Char)) :
    labelNames (above ++ below) = labelNames above ++ labelNames below :=
  List.filterMap_append

theorem mem_labelNames {raws : List (List Char)} {name : List Char} :
    name ∈ labelNames raws ↔ ∃ (k : Nat) (raw : List Char), raws[k]? = some raw ∧
      labelName? (codePart raw) = some name := by
  unfold labelNames
  rw [List.mem_filterMap]
  constructor
  · rintro ⟨raw, hraw, hname⟩
    obtain ⟨k, hk⟩ := List.mem_iff_getElem?.1 hraw
    exact ⟨k, raw, hk, hname⟩
  · rintro ⟨k, raw, hk, hname⟩
    exact ⟨raw, List.mem_of_getElem? hk, hname⟩

/-! ## The first pass -/

namespace LabelTable

/-- The first pass only adds to the table. -/
theorem prefix_of_extend {table labels : LabelTable} {address : Nat}
    {lines : List (Nat × SourceLine)} (h : extend table address lines = .ok labels) :
    table <+: labels := by
  fun_induction extend table address lines with
  | case1 table address =>
    cases h
    exact List.prefix_rfl
  | case2 table address number lines ih => exact ih h
  | case3 table address number code lines ih => exact ih h
  | case4 table address number name lines hempty => cases h
  | case5 table address number name lines hempty hbound => cases h
  | case6 table address number name lines hempty hbound ih =>
    exact (List.prefix_append _ _).trans (ih h)

/-- The first pass over some lines and the lines below them. -/
theorem extend_append_eq (table : LabelTable) (address : Nat)
    (above below : List (Nat × SourceLine)) :
    extend table address (above ++ below) =
      extend table address above >>= fun between =>
        extend between (address + 4 * (codesOf above).length) below := by
  fun_induction extend table address above with
  | case1 table address => rfl
  | case2 table address number lines ih => exact ih
  | case3 table address number code lines ih =>
    have haddress : address + 4 * (codesOf ((number, .instruction code) :: lines)).length =
        address + 4 + 4 * (codesOf lines).length := by
      rw [codesOf, List.length_cons]
      omega
    rw [haddress]
    exact ih
  | case4 table address number name lines hempty =>
    simp only [List.cons_append, extend, hempty, if_true]
    rfl
  | case5 table address number name lines hempty hbound =>
    simp only [List.cons_append, extend, hempty, hbound, if_true]
    rfl
  | case6 table address number name lines hempty hbound ih =>
    simp only [List.cons_append, extend, hempty, hbound]
    exact ih

theorem extend_append {table labels : LabelTable} {address : Nat}
    {above below : List (Nat × SourceLine)}
    (h : extend table address (above ++ below) = .ok labels) :
    ∃ between, extend table address above = .ok between ∧
      extend between (address + 4 * (codesOf above).length) below = .ok labels := by
  rw [extend_append_eq] at h
  exact bind_eq_ok h

/-- A label is bound to four times the number of instruction lines above it. -/
theorem address?_of_label {labels : LabelTable} {number : Nat} {name : List Char}
    {above below : List (Nat × SourceLine)}
    (h : ofLines (above ++ (number, .label name) :: below) = .ok labels) :
    labels.address? name = some ((4 * (codesOf above).length : Nat) : Int) := by
  obtain ⟨between, -, hbelow⟩ := extend_append h
  rw [Nat.zero_add] at hbelow
  unfold extend at hbelow
  split at hbelow
  · cases hbelow
  split at hbelow
  · cases hbelow
  · next hbound =>
    have hfree : between.lookup name = none := by
      cases hname : between.lookup name with
      | none => rfl
      | some value => exact absurd (congrArg Option.isSome hname) hbound
    have hadded : (between ++ [(name, ((4 * (codesOf above).length : Nat) : Int))]).lookup name =
        some ((4 * (codesOf above).length : Nat) : Int) := by
      rw [List.lookup_append, hfree, Option.none_or, List.lookup_cons_self]
    exact (prefix_of_extend hbelow).lookup_eq_some hadded

/-- Every name in the table is that of a label. -/
theorem label_of_lookup {table labels : LabelTable} {address : Nat} {name : List Char} {value : Int}
    {lines : List (Nat × SourceLine)} (h : extend table address lines = .ok labels)
    (hvalue : labels.lookup name = some value) :
    table.lookup name = some value ∨ ∃ number, (number, .label name) ∈ lines := by
  fun_induction extend table address lines with
  | case1 table address =>
    cases h
    exact .inl hvalue
  | case2 table address number lines ih =>
    refine (ih h).imp_right ?_
    rintro ⟨n, hn⟩
    exact ⟨n, List.mem_cons_of_mem _ hn⟩
  | case3 table address number code lines ih =>
    refine (ih h).imp_right ?_
    rintro ⟨n, hn⟩
    exact ⟨n, List.mem_cons_of_mem _ hn⟩
  | case4 table address number other lines hempty => cases h
  | case5 table address number other lines hempty hbound => cases h
  | case6 table address number other lines hempty hbound ih =>
    rcases ih h with hold | ⟨n, hn⟩
    · by_cases hname : name = other
      · exact .inr ⟨number, hname ▸ List.mem_cons_self⟩
      · have hne : (name == other) = false := beq_false_of_ne hname
        rw [List.lookup_append, List.lookup_cons, hne, List.lookup_nil, Option.or_none] at hold
        exact .inl hold
    · exact .inr ⟨n, List.mem_cons_of_mem _ hn⟩

section

variable {raws : List (List Char)} {labels : LabelTable} {name : List Char}

/-- The address of the label on a line of text. -/
theorem address?_of_getElem? {k : Nat} {raw : List Char}
    (h : ofLines (sourceLines raws) = .ok labels) (hraw : raws[k]? = some raw)
    (hname : labelName? (codePart raw) = some name) :
    labels.address? name = some ((4 * (raws.take k).countP holdsInstruction : Nat) : Int) := by
  rw [sourceLines_eq, linesFrom_of_getElem? 1 hraw, ofText_eq_label.2 hname] at h
  rw [address?_of_label h]
  simp

/-- Every name that is bound stands on a line of its own. -/
theorem line_of_address? {value : Int} (h : ofLines (sourceLines raws) = .ok labels)
    (hvalue : labels.address? name = some value) :
    ∃ (k : Nat) (raw : List Char), raws[k]? = some raw ∧
      labelName? (codePart raw) = some name := by
  rw [sourceLines_eq] at h
  rcases label_of_lookup h hvalue with hnil | ⟨number, hmem⟩
  · cases hnil
  · obtain ⟨⟨raw, n⟩, hraw, heq⟩ := List.mem_map.1 hmem
    have hmem' : raw ∈ raws := by
      obtain ⟨-, -, hget⟩ := List.mem_zipIdx hraw
      exact hget ▸ List.getElem_mem _
    obtain ⟨k, hk, hget⟩ := List.getElem_of_mem hmem'
    exact ⟨k, raw, List.getElem?_eq_some_iff.2 ⟨hk, hget⟩,
      ofText_eq_label.1 (congrArg Prod.snd heq)⟩

/-- The bound names are those of the label lines. -/
theorem isSome_address? {name : List Char} (h : ofLines (sourceLines raws) = .ok labels) :
    (labels.address? name).isSome ↔ name ∈ labelNames raws := by
  rw [mem_labelNames]
  constructor
  · intro hsome
    obtain ⟨value, hvalue⟩ := Option.isSome_iff_exists.1 hsome
    exact line_of_address? h hvalue
  · rintro ⟨k, raw, hraw, hname⟩
    rw [address?_of_getElem? h hraw hname]
    rfl

theorem count_of_address? {value : Int} (h : ofLines (sourceLines raws) = .ok labels)
    (hvalue : labels.address? name = some value) :
    ∃ k, value = ((4 * (raws.take k).countP holdsInstruction : Nat) : Int) := by
  obtain ⟨k, raw, hraw, hname⟩ := line_of_address? h hvalue
  rw [address?_of_getElem? h hraw hname] at hvalue
  exact ⟨k, (Option.some.inj hvalue).symm⟩

/-- All addresses of labels are multiples of four. -/
theorem address?_mod_four {value : Int} (h : ofLines (sourceLines raws) = .ok labels)
    (hvalue : labels.address? name = some value) : value % 4 = 0 := by
  obtain ⟨k, rfl⟩ := count_of_address? h hvalue
  omega

/-- No label is farther away than the text is long. -/
theorem range_of_address? {value : Int} (h : ofLines (sourceLines raws) = .ok labels)
    (hvalue : labels.address? name = some value) : 0 ≤ value ∧ value ≤ 4 * raws.length := by
  obtain ⟨k, rfl⟩ := count_of_address? h hvalue
  have hcount : (raws.take k).countP holdsInstruction ≤ (raws.take k).length :=
    List.countP_le_length
  have htake : (raws.take k).length ≤ raws.length := List.length_take_le' k raws
  omega

end

end LabelTable

/-! ## The second pass -/

namespace Assembly

/-- The rows of an assembly stand for the given instruction lines, from an address on. -/
structure Follows (labels : LabelTable) (address : Nat) (codes : List (Nat × List Char))
    (assembly : Assembly) : Prop where
  /-- The rows are the first instruction lines in order, four bytes apart, each with the word of its
  line. -/
  row : ∀ (i : Nat) (row : Row), assembly.rows[i]? = some row →
    codes[i]? = some (row.line, row.code) ∧ row.address = address + 4 * i ∧
      assembleLine labels row.address row.line row.code = .ok row.word
  /-- An assembly that does not fail has a row for every instruction line. -/
  complete : assembly.failure = none → assembly.rows.length = codes.length
  /-- An assembly that fails does so at the first instruction line that has no row. -/
  failed : ∀ error, assembly.failure = some error → ∃ number code,
    codes[assembly.rows.length]? = some (number, code) ∧
      assembleLine labels (address + 4 * assembly.rows.length : Nat) number code = .error error

theorem Follows.cons {labels : LabelTable} {address number : Nat} {code : List Char}
    {word : Option Word} {codes : List (Nat × List Char)} {assembly : Assembly}
    (hword : assembleLine labels address number code = .ok word)
    (h : assembly.Follows labels (address + 4) codes) :
    Follows labels address ((number, code) :: codes)
      ⟨⟨number, address, word, code⟩ :: assembly.rows, assembly.failure⟩ where
  row := by
    intro i row hrow
    cases i with
    | zero =>
      obtain rfl := Option.some.inj hrow
      exact ⟨rfl, rfl, hword⟩
    | succ i =>
      obtain ⟨hcode, haddress, hline⟩ := h.row i row hrow
      exact ⟨hcode, by omega, hline⟩
  complete := fun hok => congrArg (· + 1) (h.complete hok)
  failed := by
    intro error herror
    obtain ⟨n, code', hcode, hline⟩ := h.failed error herror
    refine ⟨n, code', hcode, ?_⟩
    have hshift : address + 4 * (assembly.rows.length + 1) =
        address + 4 + 4 * assembly.rows.length := by omega
    rw [List.length_cons, hshift]
    exact hline

theorem rowsFrom_follows (labels : LabelTable) (address : Nat) (lines : List (Nat × SourceLine)) :
    (rowsFrom labels address lines).Follows labels address (codesOf lines) := by
  fun_induction rowsFrom labels address lines with
  | case1 address => exact ⟨nofun, fun _ => rfl, nofun⟩
  | case2 address number lines ih => exact ih
  | case3 address number name lines ih => exact ih
  | case4 address number code lines error herror =>
    refine ⟨nofun, nofun, ?_⟩
    rintro e ⟨⟩
    exact ⟨number, code, rfl, herror⟩
  | case5 address number code lines word hword later ih => exact ih.cons hword

theorem Follows.map_rows {labels : LabelTable} {address : Nat} {codes : List (Nat × List Char)}
    {assembly : Assembly} (h : assembly.Follows labels address codes)
    (hok : assembly.failure = none) :
    assembly.rows.map (fun row => (row.line, row.code)) = codes := by
  apply List.ext_getElem?
  intro i
  rw [List.getElem?_map]
  cases hrow : assembly.rows[i]? with
  | some row =>
    obtain ⟨hcode, -⟩ := h.row i row hrow
    exact hcode.symm
  | none =>
    have hlen := List.getElem?_eq_none_iff.1 hrow
    rw [h.complete hok] at hlen
    exact (List.getElem?_eq_none hlen).symm

/-- The second pass over some lines that are accepted and the lines below them. -/
theorem rowsFrom_append {labels : LabelTable} {address : Nat} {above : List (Nat × SourceLine)}
    (below : List (Nat × SourceLine)) (h : (rowsFrom labels address above).failure = none) :
    rowsFrom labels address (above ++ below) =
      let later := rowsFrom labels (address + 4 * (codesOf above).length) below
      ⟨(rowsFrom labels address above).rows ++ later.rows, later.failure⟩ := by
  fun_induction rowsFrom labels address above with
  | case1 address => rfl
  | case2 address number lines ih => exact ih h
  | case3 address number name lines ih => exact ih h
  | case4 address number code lines error herror => cases h
  | case5 address number code lines word hword later ih =>
    have haddress : address + 4 * (codesOf ((number, .instruction code) :: lines)).length =
        address + 4 + 4 * (codesOf lines).length := by
      rw [codesOf, List.length_cons]
      omega
    simp only [List.cons_append, rowsFrom, hword, ih h, haddress]
    rfl

section

variable {raws : List (List Char)} {labels : LabelTable}

theorem ofLines_eq_rowsFrom (h : LabelTable.ofLines (sourceLines raws) = .ok labels) :
    ofLines (sourceLines raws) = rowsFrom labels 0 (linesFrom 1 raws) := by
  unfold ofLines
  rw [h, sourceLines_eq]

theorem ofLines_follows (h : LabelTable.ofLines (sourceLines raws) = .ok labels) :
    (ofLines (sourceLines raws)).Follows labels 0 (instructionLines 1 raws) := by
  rw [ofLines_eq_rowsFrom h, ← codesOf_linesFrom]
  exact rowsFrom_follows labels 0 (linesFrom 1 raws)

/-! ## Rows and labels -/

/-- The first element that satisfies a condition, where exactly the elements from a place on do. -/
theorem find?_eq_getElem? {α : Type} {p : α → Bool} {xs : List α} {n : Nat}
    (hbefore : ∀ i x, xs[i]? = some x → i < n → p x = false)
    (hafter : ∀ i x, xs[i]? = some x → n ≤ i → p x = true) : xs.find? p = xs[n]? := by
  cases hn : xs[n]? with
  | none =>
    refine List.find?_eq_none.2 fun x hx => ?_
    obtain ⟨i, hi, hget⟩ := List.getElem_of_mem hx
    have hlen := List.getElem?_eq_none_iff.1 hn
    have hfalse := hbefore i x (List.getElem?_eq_some_iff.2 ⟨hi, hget⟩) (by omega)
    rw [hfalse]
    exact Bool.false_ne_true
  | some y =>
    obtain ⟨hlen, hget⟩ := List.getElem?_eq_some_iff.1 hn
    refine List.find?_eq_some_iff_getElem.2 ⟨hafter n y hn (Nat.le_refl n), n, hlen, hget, ?_⟩
    intro j hj
    rw [hbefore j _ (List.getElem?_eq_getElem (by omega)) hj]
    rfl

/-- The two passes agree: what the labels and the rows of a program text have to do with its
lines. -/
structure Addressed (labels : LabelTable) (raws : List (List Char)) (assembly : Assembly) :
    Prop where
  /-- A label is bound to four times the number of instruction lines above it. -/
  label : ∀ (k : Nat) (raw name : List Char), raws[k]? = some raw →
    labelName? (codePart raw) = some name →
      labels.address? name = some ((4 * (raws.take k).countP holdsInstruction : Nat) : Int)
  /-- The rows stand for the instruction lines, at the addresses 0, 4, 8 and so on. -/
  rows : assembly.Follows labels 0 (instructionLines 1 raws)
  /-- The rows are in the order of the lines. -/
  ordered : assembly.rows.Pairwise fun above below => above.line < below.line
  /-- A label is bound to the address of the first row below it, or else to the end of all rows. -/
  next : assembly.failure = none → ∀ (k : Nat) (raw name : List Char), raws[k]? = some raw →
    labelName? (codePart raw) = some name →
      labels.address? name = some
        (((assembly.rows.find? (k + 1 < ·.line)).map Row.address).getD (4 * assembly.rows.length)
          : Nat)
  /-- The offset of a branch leads from its row to its label. -/
  branch : ∀ row ∈ assembly.rows, ∀ (w : Word) (op : BranchOp), row.word = some w →
    mnemonicOf? row.code = some (.branch op) → ∃ a b label, operandsOf row.code = [a, b, label] ∧
      labels.address? label = some (row.address + Instruction.imm ⟨w⟩)
  /-- The offset of a jump to a label leads from its row to the label. -/
  jump : ∀ row ∈ assembly.rows, ∀ (w : Word) (a label : List Char) (target : Int),
    row.word = some w → mnemonicOf? row.code = some .jal → operandsOf row.code = [a, label] →
      labels.address? label = some target → row.address + Instruction.jumpOffset ⟨w⟩ = target

theorem ordered_of_follows {assembly : Assembly}
    (h : assembly.Follows labels 0 (instructionLines 1 raws)) :
    assembly.rows.Pairwise fun above below => above.line < below.line := by
  rw [List.pairwise_iff_getElem]
  intro i j hi hj hij
  obtain ⟨hcode, -⟩ := h.row i _ (List.getElem?_eq_getElem hi)
  obtain ⟨hcode', -⟩ := h.row j _ (List.getElem?_eq_getElem hj)
  obtain ⟨hi', hget⟩ := List.getElem?_eq_some_iff.1 hcode
  obtain ⟨hj', hget'⟩ := List.getElem?_eq_some_iff.1 hcode'
  have hlt := List.pairwise_iff_getElem.1 (pairwise_instructionLines 1 raws) i j hi' hj' hij
  rw [hget, hget'] at hlt
  exact hlt

theorem next_of_follows {assembly : Assembly} {k : Nat} {raw name : List Char}
    (h : assembly.Follows labels 0 (instructionLines 1 raws)) (hok : assembly.failure = none)
    (hraw : raws[k]? = some raw) (hname : labelName? (codePart raw) = some name) :
    ((assembly.rows.find? (k + 1 < ·.line)).map Row.address).getD (4 * assembly.rows.length) =
      4 * (raws.take k).countP holdsInstruction := by
  have hlabel := not_holdsInstruction_of_label hname
  have hfind : assembly.rows.find? (k + 1 < ·.line) =
      assembly.rows[(raws.take k).countP holdsInstruction]? := by
    apply find?_eq_getElem?
    · intro i row hrow hi
      obtain ⟨hcode, -⟩ := h.row i row hrow
      have hnumber := (number_of_instructionLines hraw hlabel hcode).1 hi
      exact decide_eq_false (by omega)
    · intro i row hrow hi
      obtain ⟨hcode, -⟩ := h.row i row hrow
      have hnumber := (number_of_instructionLines hraw hlabel hcode).2 hi
      exact decide_eq_true hnumber
  rw [hfind]
  cases hrow : assembly.rows[(raws.take k).countP holdsInstruction]? with
  | none =>
    -- then no instruction line stands below the label
    have hlen := List.getElem?_eq_none_iff.1 hrow
    have hcomplete := h.complete hok
    rw [length_instructionLines] at hcomplete
    have hle : (raws.take k).countP holdsInstruction ≤ raws.countP holdsInstruction :=
      (List.take_sublist k raws).countP_le
    show 4 * assembly.rows.length = _
    omega
  | some row =>
    obtain ⟨-, haddress, -⟩ := h.row _ row hrow
    rw [Nat.zero_add] at haddress
    exact haddress

/-- A row that has a word, and a label that it may refer to, lie on multiples of four. -/
theorem even_of_follows {assembly : Assembly} {row : Row} {name : List Char} {target : Int}
    (hlabels : LabelTable.ofLines (sourceLines raws) = .ok labels)
    (h : assembly.Follows labels 0 (instructionLines 1 raws)) (hrow : row ∈ assembly.rows)
    (htarget : labels.address? name = some target) : (target - row.address) % 2 = 0 := by
  obtain ⟨i, hi, hget⟩ := List.getElem_of_mem hrow
  obtain ⟨-, haddress, -⟩ := h.row i row (List.getElem?_eq_some_iff.2 ⟨hi, hget⟩)
  have hmod := LabelTable.address?_mod_four hlabels htarget
  omega

theorem statement_of_follows {assembly : Assembly} {row : Row} {w : Word}
    (h : assembly.Follows labels 0 (instructionLines 1 raws)) (hrow : row ∈ assembly.rows)
    (hw : row.word = some w) : ∃ m s, mnemonicOf? row.code = some m ∧
      Statement.Reads m (operandsOf row.code) s ∧ s.encode labels row.address = .ok w := by
  obtain ⟨i, hi, hget⟩ := List.getElem_of_mem hrow
  obtain ⟨-, -, hline⟩ := h.row i row (List.getElem?_eq_some_iff.2 ⟨hi, hget⟩)
  rw [hw] at hline
  exact assembleLine_eq_some hline

/-- The offset of a branch leads from its row to its label. -/
theorem branch_of_follows {assembly : Assembly} {row : Row} {w : Word} {op : BranchOp}
    (hlabels : LabelTable.ofLines (sourceLines raws) = .ok labels)
    (h : assembly.Follows labels 0 (instructionLines 1 raws)) (hrow : row ∈ assembly.rows)
    (hw : row.word = some w) (hop : mnemonicOf? row.code = some (.branch op)) :
    ∃ a b label, operandsOf row.code = [a, b, label] ∧
      labels.address? label = some (row.address + Instruction.imm ⟨w⟩) := by
  obtain ⟨m, s, hm, hreads, hencode⟩ := statement_of_follows h hrow hw
  rw [hop] at hm
  obtain rfl := Option.some.inj hm
  generalize htokens : operandsOf row.code = tokens at hreads
  cases hreads with
  | branch hrs1 hrs2 =>
    exact ⟨_, _, _, rfl, Statement.imm_of_encode hencode fun target htarget =>
      even_of_follows hlabels h hrow htarget⟩

/-- The offset of a jump to a label leads from its row to the label. -/
theorem jump_of_follows {assembly : Assembly} {row : Row} {w : Word} {a label : List Char}
    {target : Int} (hlabels : LabelTable.ofLines (sourceLines raws) = .ok labels)
    (h : assembly.Follows labels 0 (instructionLines 1 raws)) (hrow : row ∈ assembly.rows)
    (hw : row.word = some w) (hjal : mnemonicOf? row.code = some .jal)
    (htokens : operandsOf row.code = [a, label]) (htarget : labels.address? label = some target) :
    row.address + Instruction.jumpOffset ⟨w⟩ = target := by
  obtain ⟨m, s, hm, hreads, hencode⟩ := statement_of_follows h hrow hw
  rw [hjal] at hm
  obtain rfl := Option.some.inj hm
  rw [htokens] at hreads
  cases hreads with
  | jal hrd =>
    exact Statement.jumpOffset_of_encode hencode htarget (even_of_follows hlabels h hrow htarget)

end

/-- The two passes of the assembler agree on addresses, for every text whose labels can be bound,
whether the second pass fails or not. -/
theorem addressed_of_labels (source : List Char) (labels : LabelTable)
    (hlabels : LabelTable.ofLines (sourceLines (Text.lines source)) = .ok labels) :
    Addressed labels (Text.lines source) (ofText source) := by
  have hrows : (ofText source).Follows labels 0 (instructionLines 1 (Text.lines source)) :=
    ofLines_follows hlabels
  exact {
    label := by
      intro k raw name hraw hname
      exact LabelTable.address?_of_getElem? hlabels hraw hname
    rows := hrows
    ordered := ordered_of_follows hrows
    next := by
      intro hok k raw name hraw hname
      rw [next_of_follows hrows hok hraw hname]
      exact LabelTable.address?_of_getElem? hlabels hraw hname
    branch := by
      intro row hrow w op hw hop
      exact branch_of_follows hlabels hrows hrow hw hop
    jump := by
      intro row hrow w a label target hw hjal htokens htarget
      exact jump_of_follows hlabels hrows hrow hw hjal htokens htarget }

/-- A branch over a comment and an unknown instruction to a label with a blank before its colon. -/
theorem addressed_of_labels_forward :
    let source := "bne x1, x0, on\n# here\nnop\non :\njal x0, on".toList
    LabelTable.ofLines (sourceLines (Text.lines source)) = .ok [("on".toList, 8)] ∧
      Addressed [("on".toList, 8)] (Text.lines source) (ofText source) :=
  ⟨rfl, addressed_of_labels _ _ rfl⟩

end Assembly

end SingleCycle
