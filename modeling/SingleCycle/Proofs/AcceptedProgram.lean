import SingleCycle.Proofs.Addresses
import SingleCycle.Proofs.Cutting
import SingleCycle.Proofs.Loading
import SingleCycle.Proofs.Numerals

/-!
# Programs that are accepted without a warning

Every instruction line of such a program gives a word, and the words stand in the order of the
lines. The first line of code cannot be a hexadecimal word, which would be an instruction without
operands, so the program is loaded as what it is.
-/

namespace SingleCycle

/-- The words of a program text, one for each instruction line. -/
structure Accepted (raws : List (List Char)) (labels : LabelTable) (words : List Word) : Prop where
  /-- The labels are bound. -/
  bound : LabelTable.ofLines (sourceLines raws) = .ok labels
  /-- There are as many words as instruction lines. -/
  length : words.length = (instructionLines 1 raws).length
  /-- Every instruction line holds a statement, whose word stands at its place. -/
  line : ∀ (i number : Nat) (code : List Char),
    (instructionLines 1 raws)[i]? = some (number, code) → ∃ w m s, words[i]? = some w ∧
      mnemonicOf? code = some m ∧ Statement.Reads m (operandsOf code) s ∧
        s.encode labels (4 * i : Nat) = .ok w

theorem map_some_filterMap {α β : Type} {f : α → Option β} {xs : List α}
    (h : ∀ x ∈ xs, (f x).isSome) : (xs.filterMap f).map some = xs.map f := by
  induction xs with
  | nil => rfl
  | cons x xs ih =>
    obtain ⟨y, hy⟩ := Option.isSome_iff_exists.1 (h x List.mem_cons_self)
    rw [List.filterMap_cons_some hy, List.map_cons, List.map_cons, hy,
      ih fun z hz => h z (List.mem_cons_of_mem x hz)]

namespace Assembly

variable {source : List Char} {words : List Word}

theorem result_eq_ok {α : Type} {assembly : Assembly} {value given : α}
    (h : assembly.result value = .ok given) : assembly.failure = none ∧ given = value := by
  unfold result at h
  cases hfailure : assembly.failure with
  | some error =>
    rw [hfailure] at h
    cases h
  | none =>
    rw [hfailure] at h
    cases h
    exact ⟨rfl, rfl⟩

theorem result_of_no_failure {α : Type} {assembly : Assembly} (value : α)
    (hok : assembly.failure = none) : assembly.result value = .ok value := by
  unfold result
  rw [hok]

theorem words_eq_ok {assembly : Assembly} (h : assembly.words = .ok words) :
    assembly.failure = none ∧ words = assembly.rows.filterMap Row.word :=
  result_eq_ok h

theorem labels_of_no_failure {raws : List (List Char)}
    (hok : (ofLines (sourceLines raws)).failure = none) :
    ∃ labels, LabelTable.ofLines (sourceLines raws) = .ok labels := by
  cases hlabels : LabelTable.ofLines (sourceLines raws) with
  | ok labels => exact ⟨labels, rfl⟩
  | error error =>
    unfold ofLines at hok
    rw [hlabels] at hok
    cases hok

theorem labels_of_words (h : (ofText source).words = .ok words) :
    ∃ labels, LabelTable.ofLines (sourceLines (Text.lines source)) = .ok labels :=
  labels_of_no_failure (words_eq_ok h).1

theorem accepted_of_words (h : (ofText source).words = .ok words)
    (hskipped : (ofText source).skipped = []) :
    ∃ labels, Accepted (Text.lines source) labels words := by
  obtain ⟨hok, rfl⟩ := words_eq_ok h
  obtain ⟨labels, hlabels⟩ := labels_of_words h
  have hrows : (ofText source).Follows labels 0 (instructionLines 1 (Text.lines source)) :=
    ofLines_follows hlabels
  have hword : ∀ row ∈ (ofText source).rows, row.word.isSome := by
    intro row hrow
    have hnone := List.filter_eq_nil_iff.1 hskipped row hrow
    rw [Option.isSome_iff_ne_none]
    exact fun hword => hnone (by rw [hword]; rfl)
  have hmap := map_some_filterMap hword
  refine ⟨labels, hlabels, ?_, ?_⟩
  · have hlength := congrArg List.length hmap
    rw [List.length_map, List.length_map] at hlength
    exact hlength.trans (hrows.complete hok)
  · intro i number code hcode
    obtain ⟨hi, -⟩ := List.getElem?_eq_some_iff.1 hcode
    rw [← hrows.complete hok] at hi
    have hrow := List.getElem?_eq_getElem hi
    obtain ⟨hcode', haddress, hline⟩ := hrows.row i _ hrow
    have hcodes : code = (ofText source).rows[i].code :=
      congrArg Prod.snd (Option.some.inj (hcode.symm.trans hcode'))
    obtain ⟨w, hw⟩ := Option.isSome_iff_exists.1 (hword _ (List.getElem_mem hi))
    rw [hw, ← hcodes, haddress, Nat.zero_add] at hline
    obtain ⟨m, s, hm, hreads, hencode⟩ := assembleLine_eq_some hline
    have hget : ((ofText source).rows.filterMap Row.word)[i]?.map some = some (some w) := by
      rw [← List.getElem?_map, hmap, List.getElem?_map, hrow, Option.map_some, hw]
    obtain ⟨v, hv, hvw⟩ := Option.map_eq_some_iff.1 hget
    exact ⟨w, m, s, by rw [hv, hvw], hm, hreads, hencode⟩

end Assembly

/-! ## Assembly is not hexadecimal -/

theorem isBlank_of_hexDigit {c : Char} {d : Nat} (h : Numeral.hexDigit? c = some d) :
    Text.isBlank c = false := by
  have hrange := Numeral.toNat_of_hexDigit h
  unfold Text.isBlank Text.inRanges Text.blankRanges
  simp only [List.any_cons, List.any_nil, Bool.or_false, Bool.or_eq_false_iff,
    Bool.and_eq_false_iff, decide_eq_false_iff_not]
  omega

namespace HexProgram

/-- A code part of hexadecimal digits has at least one character, and nothing but digits. -/
theorem digits_of_isHex {code : List Char} (h : isHex code = true) :
    code ≠ [] ∧ ∀ c ∈ code, ∃ d, Numeral.hexDigit? c = some d := by
  unfold isHex Numeral.digits? at h
  cases hcode : code with
  | nil =>
    rw [hcode] at h
    cases h
  | cons c cs =>
    rw [hcode] at h
    obtain ⟨digits, hdigits⟩ := Option.isSome_iff_exists.1 h
    have hread := List.Forall₂.imp
      (S := fun c d => (∃ e, Numeral.hexDigit? c = some e) ∧ Numeral.hexDigit? c = some d)
      (fun c d hd => ⟨⟨d, hd⟩, hd⟩) (Numeral.mapM_eq_some_iff.1 hdigits)
    exact ⟨nofun, ((List.forall₂_and_left _ _).1 hread).1⟩

/-- A code part of hexadecimal digits is an instruction to the assembler, one without operands. -/
theorem operandsOf_of_isHex {code : List Char} (h : isHex code = true) :
    labelName? code = none ∧ operandsOf code = [] := by
  obtain ⟨-, hdigits⟩ := digits_of_isHex h
  constructor
  · refine if_neg fun hlast => ?_
    obtain ⟨d, hd⟩ := hdigits _ (List.mem_of_getLast? hlast)
    have hcolon : Numeral.hexDigit? ':' = none := by decide
    rw [hcolon] at hd
    cases hd
  · have hsplit : Text.splitWord code = (code, []) := by
      apply Text.splitWord_of_solid
      intro c hc
      obtain ⟨d, hd⟩ := hdigits c hc
      exact isBlank_of_hexDigit hd
    unfold operandsOf
    rw [hsplit]
    rfl

theorem line_of_recognizes {source : List Char} (h : recognizes source = true) :
    ∃ raw ∈ Text.lines source, isHex (codePart raw) = true := by
  unfold recognizes at h
  split at h
  · cases h
  · next number code rest hlines =>
    have hmem : (number, code) ∈ codeLines source := by
      rw [hlines]
      exact List.mem_cons_self
    obtain ⟨hmem, -⟩ := List.mem_filter.1 hmem
    obtain ⟨⟨n, raw⟩, hnumbered, heq⟩ := List.mem_map.1 hmem
    obtain ⟨⟨line, k⟩, hline, hswap⟩ := List.mem_map.1 hnumbered
    have hraw : raw ∈ Text.lines source := by
      obtain ⟨-, -, hget⟩ := List.mem_zipIdx hline
      cases hswap
      exact hget ▸ List.getElem_mem _
    cases heq
    exact ⟨raw, hraw, h⟩

/-- A program text that is accepted without a warning is not taken for hexadecimal words. -/
theorem recognizes_of_accepted {source : List Char} {labels : LabelTable} {words : List Word}
    (h : Accepted (Text.lines source) labels words) : recognizes source = false := by
  cases hhex : recognizes source with
  | false => rfl
  | true =>
    obtain ⟨raw, hraw, hcode⟩ := line_of_recognizes hhex
    obtain ⟨hlabel, hoperands⟩ := operandsOf_of_isHex hcode
    obtain ⟨hne, -⟩ := digits_of_isHex hcode
    have hholds : holdsInstruction raw = true := by
      unfold holdsInstruction
      rw [hlabel, List.isEmpty_eq_false_iff.2 hne]
      rfl
    obtain ⟨i, number, hi⟩ := getElem?_instructionLines hraw hholds
    obtain ⟨w, m, s, -, -, hreads, -⟩ := h.line i number _ hi
    rw [hoperands] at hreads
    cases hreads

end HexProgram

/-! ## Loading -/

/-- A program that is accepted without a warning is read as its words. -/
theorem Reading.ofText_of_accepted {source : List Char} {words : List Word}
    (hwords : (Assembly.ofText source).words = .ok words)
    (hskipped : (Assembly.ofText source).skipped = []) :
    HexProgram.recognizes source = false ∧ Reading.ofText source = ⟨[], .ok words⟩ := by
  obtain ⟨labels, haccepted⟩ := Assembly.accepted_of_words hwords hskipped
  have hhex := HexProgram.recognizes_of_accepted haccepted
  have htext : ProgramText.read source = ⟨[], .ok words⟩ := by
    unfold ProgramText.read
    rw [hhex, ← hwords, ← hskipped]
    rfl
  refine ⟨hhex, ?_⟩
  unfold Reading.ofText
  rw [htext]
  rfl

/-- A program that is accepted without a warning is in instruction memory after it was loaded, if it
fits. -/
theorem Core.loadText_of_accepted {source : List Char} {words : List Word} (c : Core)
    (hwords : (Assembly.ofText source).words = .ok words)
    (hskipped : (Assembly.ofText source).skipped = []) (hlength : words.length ≤ programSize) :
    (c.loadText source).core = { c.reset with program := programOf words } ∧
      (c.loadText source).result = .ok words.length := by
  obtain ⟨-, hreading⟩ := Reading.ofText_of_accepted hwords hskipped
  have hread : (Reading.ofText source).words = .ok words := congrArg Reading.words hreading
  exact loadReading_of_some c (wordsToLoad?_eq_some.2 ⟨hread, hlength⟩)

end SingleCycle
