import Mathlib.Algebra.Order.Floor.Div
import SingleCycle.Core.View
import SingleCycle.Proofs.Cutting
import SingleCycle.Proofs.WordText

/-!
# The view of data memory

Data memory is shown in rows of a width. The rows have the addresses of their first words, and their
words are all data words in order: no word is lost where the width does not divide the size of data
memory, and none is shown twice. So the memory can be read off its text.
-/

namespace SingleCycle

/-! ## Rows -/

/-- A row shows an address in two digits, and behind a colon words with spaces between them. -/
structure ShowsRow (row : List Char) (address : Nat) (words : List Word) : Prop where
  parts : ∃ (front : String) (texts : List String),
    row = front.toList ++ ':' :: ' ' :: List.intercalate [' '] (texts.map String.toList) ∧
      Numeral.ShowsHex 2 front address ∧ List.Forall₂ ShowsWord texts words

/-- The words that a row shows behind its colon. -/
def rowWords? (row : List Char) : Option (List Word) :=
  (Text.tokens (· == ' ') ((row.dropWhile (· != ':')).drop 1)).mapM readWord?

/-- The words in the rows of a text. -/
def memoryWords? (text : String) : Option (List Word) :=
  ((Text.lines text.toList).mapM rowWords?).map List.flatten

namespace ShowsRow

variable {row : List Char} {address : Nat} {words : List Word}

theorem mem_texts {texts : List String} (h : List.Forall₂ ShowsWord texts words) :
    ∀ t ∈ texts, ∃ w, ShowsWord t w := by
  intro t ht
  obtain ⟨i, hi, rfl⟩ := List.getElem_of_mem ht
  exact ⟨_, h.get hi (h.length_eq ▸ hi)⟩

theorem line (h : ShowsRow row address words) :
    row ≠ [] ∧ ∀ c ∈ row, Text.isTerminator c = false := by
  obtain ⟨front, texts, rfl, hfront, htexts⟩ := h.parts
  have hall : "0123456789abcdef".toList.all (fun c => !Text.isTerminator c) = true := by decide
  have hlower : ∀ c ∈ "0123456789abcdef".toList, Text.isTerminator c = false := by
    intro c hc
    simpa using List.all_eq_true.1 hall c hc
  refine ⟨by simp, fun c hc => ?_⟩
  rcases List.mem_append.1 hc with hc | hc
  · exact hlower c (hfront.digits c hc)
  rcases List.mem_cons.1 hc with rfl | hc
  · decide
  rcases List.mem_cons.1 hc with rfl | hc
  · decide
  rcases Text.mem_intercalate hc with hc | ⟨t, ht, hc⟩
  · rw [List.mem_singleton.1 hc]
    decide
  · obtain ⟨s, hs, rfl⟩ := List.mem_map.1 ht
    obtain ⟨w, hw⟩ := mem_texts htexts s hs
    exact hlower c (hw.digits c hc)

theorem rowWords? (h : ShowsRow row address words) :
    SingleCycle.rowWords? row = some words := by
  obtain ⟨front, texts, rfl, hfront, htexts⟩ := h.parts
  have hcolon : ∀ c ∈ front.toList, (c != ':') = true := by
    intro c hc
    simpa using ne_of_mem_of_not_mem hc (hfront.not_mem (by decide))
  have hbehind : ∀ rest, ((front.toList ++ ':' :: rest).dropWhile (· != ':')).drop 1 = rest := by
    intro rest
    rw [List.dropWhile_append_of_pos hcolon]
    rfl
  have hsolid : ∀ t ∈ texts.map String.toList, t ≠ [] ∧ ∀ c ∈ t, (c == ' ') = false := by
    intro t ht
    obtain ⟨s, hs, rfl⟩ := List.mem_map.1 ht
    obtain ⟨w, hw⟩ := mem_texts htexts s hs
    refine ⟨fun hnil => ?_, fun c hc => ?_⟩
    · have hlength := hw.length
      simp [hnil] at hlength
    · simpa using ne_of_mem_of_not_mem hc (hw.not_mem (by decide))
  have htokens : Text.tokens (· == ' ') (' ' :: List.intercalate [' '] (texts.map String.toList)) =
      texts.map String.toList := by
    rw [Text.tokens_cons_separator (by decide)]
    exact Text.tokens_intercalate (by simp) (by simp) hsolid
  unfold SingleCycle.rowWords?
  rw [hbehind, htokens, Numeral.mapM_eq_some_iff, List.forall₂_map_left_iff]
  exact htexts.imp fun t w hw => hw.readWord?

end ShowsRow

/-- Pieces of one width that follow each other make up the front of a list. -/
theorem flatMap_pieces {α : Type} (xs : List α) (width count : Nat) :
    (List.range count).flatMap (fun k => (xs.drop (k * width)).take width) =
      xs.take (count * width) := by
  induction count with
  | zero => simp
  | succ count ih =>
    rw [List.range_succ, List.flatMap_append, ih, List.flatMap_singleton, Nat.succ_mul,
      List.take_add]

namespace Core

variable {width : Nat}

/-! ## The number of rows

It is the size of data memory over the width, rounded up. -/

theorem mul_lt_of_lt_rows {k : Nat} (hwidth : 1 ≤ width) (hk : k < 32 ⌈/⌉ width) :
    k * width < 32 := by
  rw [Nat.ceilDiv_eq_add_pred_div] at hk
  have hle : (k + 1) * width ≤ 32 + width - 1 := (Nat.le_div_iff_mul_le hwidth).1 hk
  rw [Nat.succ_mul] at hle
  omega

theorem le_rows_mul (hwidth : 1 ≤ width) : 32 ≤ 32 ⌈/⌉ width * width := by
  have hdiv := Nat.div_add_mod (32 + width - 1) width
  have hmod := Nat.mod_lt (32 + width - 1) hwidth
  rw [Nat.ceilDiv_eq_add_pred_div, Nat.mul_comm]
  omega

/-! ## The text -/

/-- The data words of a row. -/
def rowOf (c : Core) (width k : Nat) : List Word := (c.memory.toList.drop (k * width)).take width

theorem showsRow_memoryRow (c : Core) {k : Nat} (hk : k * width < 32) :
    ShowsRow (c.memoryRow width (k * width)).toList (4 * k * width) (c.rowOf width k) := by
  have haddress : 4 * (k * width) = 4 * k * width := (Nat.mul_assoc 4 k width).symm
  have hsmall : 4 * k * width < 16 ^ 2 := by omega
  have htexts : List.Forall₂ ShowsWord ((c.rowOf width k).map hexWord) (c.rowOf width k) := by
    rw [List.forall₂_map_left_iff, List.forall₂_same]
    exact fun w _ => showsWord_hexWord w
  refine ⟨_, _, ?_, Numeral.showsHex_hex (by decide) hsmall, htexts⟩
  unfold memoryRow
  rw [haddress, String.toList_append, String.toList_append, String.toList_intercalate,
    List.append_assoc]
  rfl

theorem lines_memoryText (c : Core) (hwidth : 1 ≤ width) :
    ∃ text, c.memoryText width = .ok text ∧ Text.lines text.toList =
      (List.range (32 ⌈/⌉ width)).map fun k => (c.memoryRow width (k * width)).toList := by
  have hzero : ¬ (width : Int) = 0 := by omega
  have hpos : ¬ (width : Int) < 0 := by omega
  refine ⟨"\n".intercalate (c.memoryRows width), ?_, ?_⟩
  · unfold memoryText
    rw [if_neg hzero, if_neg hpos, Int.toNat_natCast]
  · have hlines : ∀ line ∈ (c.memoryRows width).map String.toList,
        line ≠ [] ∧ ∀ d ∈ line, Text.isTerminator d = false := by
      intro line hline
      obtain ⟨row, hrow, rfl⟩ := List.mem_map.1 hline
      obtain ⟨k, hk, rfl⟩ := List.mem_map.1 hrow
      exact (c.showsRow_memoryRow (mul_lt_of_lt_rows hwidth (List.mem_range.1 hk))).line
    have htext : ("\n".intercalate (c.memoryRows width)).toList =
        List.intercalate ['\n'] ((c.memoryRows width).map String.toList) :=
      String.toList_intercalate
    rw [htext, Text.lines_intercalate hlines, memoryRows, List.map_map]
    rfl

/-- What a text of data memory in rows of a width is made of. -/
structure ViewedAs (c : Core) (width : Nat) (text : String) : Prop where
  count : (Text.lines text.toList).length = 32 ⌈/⌉ width
  row : ∀ k line, (Text.lines text.toList)[k]? = some line →
    ShowsRow line (4 * k * width) (c.rowOf width k)
  words : memoryWords? text = some c.memory.toList

theorem viewedAs_memoryText (c : Core) (hwidth : 1 ≤ width) :
    ∃ text, c.memoryText width = .ok text ∧ c.ViewedAs width text := by
  obtain ⟨text, htext, hlines⟩ := c.lines_memoryText hwidth
  have hrow : ∀ k ∈ List.range (32 ⌈/⌉ width),
      ShowsRow (c.memoryRow width (k * width)).toList (4 * k * width) (c.rowOf width k) :=
    fun k hk => c.showsRow_memoryRow (mul_lt_of_lt_rows hwidth (List.mem_range.1 hk))
  refine ⟨text, htext, ?_, ?_, ?_⟩
  · rw [hlines, List.length_map, List.length_range]
  · intro k line hline
    rw [hlines, List.getElem?_map] at hline
    obtain ⟨i, hi, rfl⟩ := Option.map_eq_some_iff.1 hline
    obtain ⟨hlt, rfl⟩ := List.getElem?_eq_some_iff.1 hi
    rw [List.getElem_range]
    rw [List.length_range] at hlt
    exact hrow k (List.mem_range.2 hlt)
  · have hread : (Text.lines text.toList).mapM rowWords? =
        some ((List.range (32 ⌈/⌉ width)).map (c.rowOf width)) := by
      rw [hlines, Numeral.mapM_eq_some_iff, List.forall₂_map_left_iff, List.forall₂_map_right_iff,
        List.forall₂_same]
      exact fun k hk => (hrow k hk).rowWords?
    have hall : ((List.range (32 ⌈/⌉ width)).map (c.rowOf width)).flatten = c.memory.toList := by
      rw [← List.flatMap_def]
      unfold rowOf
      -- the last row may be shorter, but the rows reach the end of data memory
      rw [flatMap_pieces]
      exact List.take_of_length_le (by rw [Vector.length_toList]; exact le_rows_mul hwidth)
    unfold memoryWords?
    rw [hread, Option.map_some, hall]

/-- Data memory is shown completely at every width, so cores with the same text have the same data
memory. -/
theorem memoryText_complete (width : Nat) (hwidth : 1 ≤ width) :
    (∀ c : Core, ∃ text, c.memoryText width = .ok text ∧ c.ViewedAs width text) ∧
      ∀ c d : Core, c.memoryText width = d.memoryText width → c.memory = d.memory := by
  refine ⟨fun c => c.viewedAs_memoryText hwidth, fun c d h => ?_⟩
  obtain ⟨text, htext, hview⟩ := c.viewedAs_memoryText hwidth
  obtain ⟨text', htext', hview'⟩ := d.viewedAs_memoryText hwidth
  have hsame : text = text' := Except.ok.inj (htext.symm.trans (h.trans htext'))
  have hwords : c.memory.toList = d.memory.toList := by
    rw [← hsame] at hview'
    exact Option.some.inj (hview.words.symm.trans hview'.words)
  exact Vector.toList_inj.1 hwords

/-- A width that does not divide the size of data memory. -/
theorem memoryText_complete_five : 1 ≤ 5 ∧ ∃ text, (fresh false).memoryText 5 = .ok text ∧
    (Text.lines text.toList).length = 7 ∧
      memoryWords? text = some (fresh false).memory.toList := by
  obtain ⟨text, htext, hview⟩ := (memoryText_complete 5 (by decide)).1 (fresh false)
  exact ⟨by decide, text, htext, hview.count, hview.words⟩

end Core

end SingleCycle
