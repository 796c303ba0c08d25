import SingleCycle.Log
import SingleCycle.Proofs.AcceptedProgram

/-!
# Where words land

A line that is skipped takes four bytes, but gives no word. So a word stands in the program as many
places above its address as there are skipped lines above it, and the offset of a branch leads to
its label in the program exactly if no line is skipped between the two.
-/

namespace SingleCycle

/-! ## Places in a list -/

section

variable {α β : Type} {xs : List α}

/-- The elements that satisfy a condition, where exactly the elements in front of a place do. -/
theorem filter_eq_take {p : α → Bool} {n : Nat}
    (h : ∀ (i : Nat) (x : α), xs[i]? = some x → (p x = true ↔ i < n)) :
    xs.filter p = xs.take n := by
  have hbefore : (xs.take n).filter p = xs.take n := by
    refine List.filter_eq_self.2 fun x hx => ?_
    obtain ⟨i, hi⟩ := List.mem_iff_getElem?.1 hx
    obtain ⟨hlt, -⟩ := List.getElem?_eq_some_iff.1 hi
    have hn : i < n := Nat.lt_of_lt_of_le hlt (List.length_take_le n xs)
    rw [List.getElem?_take_of_lt hn] at hi
    exact (h i x hi).2 hn
  have hbehind : (xs.drop n).filter p = [] := by
    refine List.filter_eq_nil_iff.2 fun x hx hp => ?_
    obtain ⟨i, hi⟩ := List.mem_iff_getElem?.1 hx
    rw [List.getElem?_drop] at hi
    have hn := (h (n + i) x hi).1 hp
    omega
  calc xs.filter p = (xs.take n ++ xs.drop n).filter p := by rw [List.take_append_drop]
    _ = xs.take n := by rw [List.filter_append, hbefore, hbehind, List.append_nil]

/-- What stands at a place among all that the elements give comes from an element with as many
giving elements in front of it. -/
theorem origin_of_filterMap {f : α → Option β} {i : Nat} {y : β}
    (h : (xs.filterMap f)[i]? = some y) : ∃ (n : Nat) (x : α), xs[n]? = some x ∧ f x = some y ∧
      (xs.take n).countP (fun x => (f x).isSome) = i := by
  induction xs generalizing i with
  | nil => cases h
  | cons x xs ih =>
    cases hx : f x with
    | none =>
      rw [List.filterMap_cons_none hx] at h
      obtain ⟨n, z, hz, hy, hcount⟩ := ih h
      refine ⟨n + 1, z, hz, hy, ?_⟩
      rw [List.take_succ_cons, List.countP_cons_of_neg (by simp [hx]), hcount]
    | some first =>
      rw [List.filterMap_cons_some hx] at h
      cases i with
      | zero => exact ⟨0, x, rfl, hx.trans h, rfl⟩
      | succ i =>
        obtain ⟨n, z, hz, hy, hcount⟩ := ih h
        refine ⟨n + 1, z, hz, hy, ?_⟩
        rw [List.take_succ_cons, List.countP_cons_of_pos (by simp [hx]), hcount]

/-- A condition is met equally often in front of two places if nothing between them meets it. -/
theorem countP_take_eq_iff_of_le {p : α → Bool} {m n : Nat} (hmn : m ≤ n) :
    (xs.take m).countP p = (xs.take n).countP p ↔
      ∀ (i : Nat) (x : α), xs[i]? = some x → m ≤ i → i < n → p x = false := by
  have hcut : (xs.take n).countP p = (xs.take m).countP p + ((xs.take n).drop m).countP p := by
    have htake : (xs.take n).take m = xs.take m := by rw [List.take_take, Nat.min_eq_left hmn]
    rw [← htake, ← List.countP_append, List.take_append_drop]
  rw [hcut, Nat.left_eq_add, List.countP_eq_zero]
  constructor
  · intro hnone i x hx hm hn
    have hget : ((xs.take n).drop m)[i - m]? = some x := by
      rw [List.getElem?_drop, Nat.add_sub_cancel' hm, List.getElem?_take_of_lt hn, hx]
    exact Bool.eq_false_iff.2 (hnone x (List.mem_of_getElem? hget))
  · intro hfalse x hx
    obtain ⟨j, hj⟩ := List.mem_iff_getElem?.1 hx
    rw [List.getElem?_drop] at hj
    have hn : m + j < n := by
      obtain ⟨hlt, -⟩ := List.getElem?_eq_some_iff.1 hj
      exact Nat.lt_of_lt_of_le hlt (List.length_take_le n xs)
    rw [List.getElem?_take_of_lt hn] at hj
    rw [hfalse (m + j) x hj (Nat.le_add_right m j) hn]
    exact Bool.false_ne_true

theorem countP_take_eq_iff {p : α → Bool} {m n : Nat} :
    (xs.take m).countP p = (xs.take n).countP p ↔
      ∀ (i : Nat) (x : α), xs[i]? = some x → min m n ≤ i → i < max m n → p x = false := by
  rcases Nat.le_total m n with hmn | hnm
  · rw [Nat.min_eq_left hmn, Nat.max_eq_right hmn]
    exact countP_take_eq_iff_of_le hmn
  · rw [Nat.min_eq_right hnm, Nat.max_eq_left hnm, eq_comm]
    exact countP_take_eq_iff_of_le hnm

end

/-! ## Words and warnings -/

namespace Assembly

/-- What the instruction lines come to from an address on, where each gives either a word or a
warning with a log record. -/
inductive Gives (labels : LabelTable) : Nat → List (Nat × List Char) →
    List (Nat × Word × List Char) → List String → List LogRecord → Prop where
  /-- No line gives nothing. -/
  | nil (address : Nat) : Gives labels address [] [] [] []
  /-- A line that gives a word. -/
  | word {address number : Nat} {code : List Char} {w : Word} {codes : List (Nat × List Char)}
      {listing : List (Nat × Word × List Char)} {warnings : List String} {log : List LogRecord}
      (hline : assembleLine labels address number code = .ok (some w))
      (later : Gives labels (address + 4) codes listing warnings log) :
      Gives labels address ((number, code) :: codes) ((address, w, code) :: listing) warnings log
  /-- A line that is skipped. -/
  | skipped {address number : Nat} {code : List Char} {codes : List (Nat × List Char)}
      {listing : List (Nat × Word × List Char)} {warnings : List String} {log : List LogRecord}
      (hline : assembleLine labels address number code = .ok none)
      (later : Gives labels (address + 4) codes listing warnings log) :
      Gives labels address ((number, code) :: codes) listing
        (Row.warning ⟨number, address, none, code⟩ :: warnings) (.skipped number code :: log)

/-- The words that the instruction lines above a line give. -/
def wordsAbove (assembly : Assembly) (line : Nat) : List Word :=
  (assembly.rows.filter (·.line < line)).filterMap Row.word

/-- The skipped lines at addresses below an address. -/
def skippedBelow (assembly : Assembly) (address : Nat) : List Row :=
  assembly.skipped.filter (·.address < address)

/-- The word of a line refers to a label by an offset, that of a branch or of a jump to a label. -/
inductive Refers (labels : LabelTable) (code : List Char) (w : Word) : List Char → Int → Prop where
  /-- A branch. -/
  | branch {op : BranchOp} {a b name : List Char} (hm : mnemonicOf? code = some (.branch op))
      (htokens : operandsOf code = [a, b, name]) : Refers labels code w name (Instruction.imm ⟨w⟩)
  /-- A jump to a label. -/
  | jump {a name : List Char} (hm : mnemonicOf? code = some .jal)
      (htokens : operandsOf code = [a, name]) (hname : (labels.address? name).isSome) :
      Refers labels code w name (Instruction.jumpOffset ⟨w⟩)

/-- Where the words of an accepted program text stand. -/
structure Placed (labels : LabelTable) (raws : List (List Char)) (assembly : Assembly)
    (words : List Word) (listing : List (Nat × Word × List Char)) : Prop where
  /-- Each instruction line gives one word of the listing, or one warning and one log record, in the
  order of the lines. -/
  gives : Gives labels 0 (instructionLines 1 raws) listing (assembly.skipped.map Row.warning)
    (LogRecord.ofRows assembly.skipped)
  /-- The words of the program are those of the listing. -/
  words : words = listing.map fun entry => entry.2.1
  /-- A word stands at a fourth of its address, less the number of skipped lines below. -/
  place : ∀ (i address : Nat) (w : Word) (code : List Char),
    listing[i]? = some (address, w, code) →
      4 * (i + (assembly.skippedBelow address).length) = address
  /-- An offset leads to the place behind all words above the label exactly if no line is skipped
  between the instruction and its label. -/
  lands : ∀ (i address : Nat) (w : Word) (code name : List Char) (offset : Int),
    listing[i]? = some (address, w, code) → Refers labels code w name offset →
      ∃ (k target : Nat) (raw : List Char), raws[k]? = some raw ∧
        labelName? (codePart raw) = some name ∧ labels.address? name = some (target : Int) ∧
          offset % 4 = 0 ∧ ((i : Int) + offset / 4 = (assembly.wordsAbove (k + 1)).length ↔
            ∀ row ∈ assembly.skipped,
              ¬ (min address target ≤ row.address ∧ row.address < max address target))

theorem gives_of_rowsFrom {labels : LabelTable} {address : Nat} {lines : List (Nat × SourceLine)}
    (h : (rowsFrom labels address lines).failure = none) :
    let assembly := rowsFrom labels address lines
    Gives labels address (codesOf lines)
      (assembly.rows.filterMap fun row => row.word.map (row.address, ·, row.code))
      (assembly.skipped.map Row.warning) (LogRecord.ofRows assembly.skipped) := by
  fun_induction rowsFrom labels address lines with
  | case1 address => exact .nil address
  | case2 address number lines ih => exact ih h
  | case3 address number name lines ih => exact ih h
  | case4 address number code lines error herror => cases h
  | case5 address number code lines word hword later ih =>
    cases word with
    | some w => exact .word hword (ih h)
    | none => exact .skipped hword (ih h)

section

variable {labels : LabelTable} {raws : List (List Char)} {assembly : Assembly}

theorem gives_of_listing {listing : List (Nat × Word × List Char)}
    (hlabels : LabelTable.ofLines (sourceLines raws) = .ok labels)
    (h : (ofLines (sourceLines raws)).listing = .ok listing) :
    let skipped := (ofLines (sourceLines raws)).skipped
    Gives labels 0 (instructionLines 1 raws) listing (skipped.map Row.warning)
      (LogRecord.ofRows skipped) := by
  rw [ofLines_eq_rowsFrom hlabels] at h ⊢
  obtain ⟨hok, rfl⟩ := result_eq_ok h
  rw [← codesOf_linesFrom]
  exact gives_of_rowsFrom hok

/-- The rows below an address. -/
theorem rows_below {codes : List (Nat × List Char)} (h : assembly.Follows labels 0 codes)
    (n : Nat) : assembly.rows.filter (·.address < 4 * n) = assembly.rows.take n := by
  apply filter_eq_take
  intro i row hrow
  obtain ⟨-, haddress, -⟩ := h.row i row hrow
  rw [decide_eq_true_iff]
  omega

theorem length_skippedBelow {codes : List (Nat × List Char)}
    (h : assembly.Follows labels 0 codes) (n : Nat) :
    (assembly.skippedBelow (4 * n)).length = (assembly.rows.take n).countP (·.word.isNone) := by
  unfold skippedBelow skipped
  rw [List.filter_comm, rows_below h, List.countP_eq_length_filter]

/-- The rows above a line without an instruction. -/
theorem rows_above {k : Nat} {raw : List Char}
    (h : assembly.Follows labels 0 (instructionLines 1 raws)) (hraw : raws[k]? = some raw)
    (hlabel : holdsInstruction raw = false) : assembly.rows.filter (·.line < k + 1) =
      assembly.rows.take ((raws.take k).countP holdsInstruction) := by
  apply filter_eq_take
  intro i row hrow
  obtain ⟨hcode, -⟩ := h.row i row hrow
  obtain ⟨habove, hbelow⟩ := number_of_instructionLines hraw hlabel hcode
  rw [decide_eq_true_iff]
  omega

theorem length_wordsAbove {k : Nat} {raw : List Char}
    (h : assembly.Follows labels 0 (instructionLines 1 raws)) (hraw : raws[k]? = some raw)
    (hlabel : holdsInstruction raw = false) : (assembly.wordsAbove (k + 1)).length =
      (assembly.rows.take ((raws.take k).countP holdsInstruction)).countP (·.word.isSome) := by
  unfold wordsAbove
  rw [rows_above h hraw hlabel, List.length_filterMap_eq_countP]

theorem countP_word {rows : List Row} {n : Nat} (hn : n ≤ rows.length) :
    (rows.take n).countP (·.word.isSome) + (rows.take n).countP (·.word.isNone) = n := by
  have hlength : (rows.take n).length = n := List.length_take_of_le hn
  have hnone : (fun row : Row => row.word.isNone) = fun row => decide ¬ row.word.isSome = true := by
    funext row
    cases row.word <;> rfl
  rw [hnone, ← List.length_eq_countP_add_countP, hlength]

/-- No line is skipped between two addresses if as many are skipped below the one as below the
other. -/
theorem skippedBelow_eq_iff {codes : List (Nat × List Char)} (h : assembly.Follows labels 0 codes)
    (m n : Nat) : (assembly.rows.take m).countP (·.word.isNone) =
        (assembly.rows.take n).countP (·.word.isNone) ↔
      ∀ row ∈ assembly.skipped,
        ¬ (min (4 * m) (4 * n) ≤ row.address ∧ row.address < max (4 * m) (4 * n)) := by
  rw [countP_take_eq_iff]
  constructor
  · rintro hclear row hrow ⟨hlow, hhigh⟩
    obtain ⟨hmem, hskipped⟩ := List.mem_filter.1 hrow
    obtain ⟨i, hi⟩ := List.mem_iff_getElem?.1 hmem
    obtain ⟨-, haddress, -⟩ := h.row i row hi
    have hword := hclear i row hi (by omega) (by omega)
    rw [hskipped] at hword
    cases hword
  · intro hclear i row hi hlow hhigh
    obtain ⟨-, haddress, -⟩ := h.row i row hi
    rw [← Bool.not_eq_true]
    intro hskipped
    exact hclear row (List.mem_filter.2 ⟨List.mem_of_getElem? hi, hskipped⟩) (by omega)

/-- The row of an entry of the listing. -/
theorem row_of_listing {i address : Nat} {w : Word} {code : List Char}
    {listing : List (Nat × Word × List Char)} (hlisting : assembly.listing = .ok listing)
    (h : listing[i]? = some (address, w, code)) :
    ∃ (n : Nat) (row : Row), assembly.rows[n]? = some row ∧ row.word = some w ∧
      row.address = address ∧ row.code = code ∧
        (assembly.rows.take n).countP (·.word.isSome) = i := by
  obtain ⟨-, rfl⟩ := result_eq_ok hlisting
  obtain ⟨n, row, hrow, hentry, hcount⟩ := origin_of_filterMap h
  simp only [Option.isSome_map] at hcount
  obtain ⟨v, hv, heq⟩ := Option.map_eq_some_iff.1 hentry
  cases heq
  exact ⟨n, row, hrow, hv, rfl, rfl, hcount⟩

theorem target_of_refers {row : Row} {w : Word} {name : List Char} {offset : Int}
    (hlabels : LabelTable.ofLines (sourceLines raws) = .ok labels)
    (h : assembly.Follows labels 0 (instructionLines 1 raws)) (hrow : row ∈ assembly.rows)
    (hw : row.word = some w) (hrefers : Refers labels row.code w name offset) :
    labels.address? name = some (row.address + offset) := by
  cases hrefers with
  | branch hm htokens =>
    obtain ⟨a, b, label, hsame, hlabel⟩ := branch_of_follows hlabels h hrow hw hm
    rw [htokens] at hsame
    cases hsame
    exact hlabel
  | jump hm htokens hname =>
    obtain ⟨target, htarget⟩ := Option.isSome_iff_exists.1 hname
    rw [htarget, jump_of_follows hlabels h hrow hw hm htokens htarget]

theorem lands_of_follows {n k : Nat} {row : Row} {w : Word} {raw name : List Char} {offset : Int}
    (hlabels : LabelTable.ofLines (sourceLines raws) = .ok labels)
    (h : assembly.Follows labels 0 (instructionLines 1 raws)) (hok : assembly.failure = none)
    (hrow : assembly.rows[n]? = some row) (hw : row.word = some w)
    (hrefers : Refers labels row.code w name offset) (hraw : raws[k]? = some raw)
    (hname : labelName? (codePart raw) = some name) :
    let target := 4 * (raws.take k).countP holdsInstruction
    offset % 4 = 0 ∧ (((assembly.rows.take n).countP (·.word.isSome) : Int) + offset / 4 =
        (assembly.wordsAbove (k + 1)).length ↔ ∀ row' ∈ assembly.skipped,
          ¬ (min row.address target ≤ row'.address ∧ row'.address < max row.address target)) := by
  intro target
  have hlabel := not_holdsInstruction_of_label hname
  have htarget := target_of_refers hlabels h (List.mem_of_getElem? hrow) hw hrefers
  rw [LabelTable.address?_of_getElem? hlabels hraw hname] at htarget
  obtain ⟨-, haddress, -⟩ := h.row n row hrow
  have hdistance : (target : Int) = row.address + offset := Option.some.inj htarget
  -- both places are among the rows, where those with a word and the skipped ones add up
  have hn : n ≤ assembly.rows.length := Nat.le_of_lt (List.getElem?_eq_some_iff.1 hrow).1
  have hm : (raws.take k).countP holdsInstruction ≤ assembly.rows.length := by
    rw [h.complete hok, length_instructionLines]
    exact (List.take_sublist k raws).countP_le
  have hrows := countP_word hn
  have hbelow := countP_word hm
  have hclear := skippedBelow_eq_iff h n ((raws.take k).countP holdsInstruction)
  rw [length_wordsAbove h hraw hlabel]
  rw [Nat.zero_add] at haddress
  rw [← haddress] at hclear
  refine ⟨by omega, ?_⟩
  rw [← hclear]
  omega

end

/-- Where the words of a program text that is accepted stand, and which offsets still lead to their
labels. -/
theorem placed_of_words (source : List Char) (words : List Word)
    (h : (ofText source).words = .ok words) :
    ∃ labels listing, LabelTable.ofLines (sourceLines (Text.lines source)) = .ok labels ∧
      (ofText source).listing = .ok listing ∧
        Placed labels (Text.lines source) (ofText source) words listing := by
  obtain ⟨hok, hwords⟩ := words_eq_ok h
  obtain ⟨labels, hlabels⟩ := labels_of_words h
  have hrows : (ofText source).Follows labels 0 (instructionLines 1 (Text.lines source)) :=
    ofLines_follows hlabels
  have hlisting : (ofText source).listing = .ok _ := result_of_no_failure _ hok
  refine ⟨labels, _, hlabels, hlisting, gives_of_listing hlabels hlisting, ?_, ?_, ?_⟩
  · rw [hwords, List.map_filterMap]
    congr 1
    funext row
    cases row.word <;> rfl
  · intro i address w code hentry
    obtain ⟨n, row, hrow, -, rfl, -, rfl⟩ := row_of_listing hlisting hentry
    have hn : n ≤ (ofText source).rows.length := Nat.le_of_lt (List.getElem?_eq_some_iff.1 hrow).1
    obtain ⟨-, haddress, -⟩ := hrows.row n row hrow
    rw [Nat.zero_add] at haddress
    rw [haddress, length_skippedBelow hrows, countP_word hn]
  · intro i address w code name offset hentry hrefers
    obtain ⟨n, row, hrow, hw, rfl, rfl, rfl⟩ := row_of_listing hlisting hentry
    have htarget := target_of_refers hlabels hrows (List.mem_of_getElem? hrow) hw hrefers
    obtain ⟨k, raw, hraw, hname⟩ := LabelTable.line_of_address? hlabels htarget
    exact ⟨k, _, raw, hraw, hname, LabelTable.address?_of_getElem? hlabels hraw hname,
      lands_of_follows hlabels hrows hok hrow hw hrefers hraw hname⟩

/-- A branch over a skipped line, which lands one word behind its label, and a jump back to the
label. -/
theorem placed_of_words_skipped :
    let source := "beq x0, x0, on\nnop\non:\nadd x1, x2, x3\njal x0, on".toList
    let words : List Word := [0x00000463, 0x003100b3, 0xffdff06f]
    (ofText source).words = .ok words ∧ ∃ labels listing,
      LabelTable.ofLines (sourceLines (Text.lines source)) = .ok labels ∧
        (ofText source).listing = .ok listing ∧
          Placed labels (Text.lines source) (ofText source) words listing :=
  ⟨rfl, placed_of_words _ _ rfl⟩

end Assembly

end SingleCycle
