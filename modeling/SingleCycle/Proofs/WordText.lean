import SingleCycle.Proofs.Numerals
import SingleCycle.Word

/-!
# Words as text

Words are written in eight hexadecimal digits of lower case, and can be read again.
-/

namespace SingleCycle

/-- The text shows a word in eight hexadecimal digits of lower case. -/
structure ShowsWord (text : String) (w : Word) : Prop where
  length : text.toList.length = 8
  digits : ∀ c ∈ text.toList, c ∈ "0123456789abcdef".toList
  spells : Numeral.Spells 16 text.toList w.toNat

/-- The word that a hexadecimal numeral writes. -/
def readWord? (cs : List Char) : Option Word :=
  (Numeral.digits? Numeral.hexDigit? cs).map fun ds => BitVec.ofNat 32 (Numeral.value 16 ds)

/-- A word is a number of eight digits. -/
theorem showsWord_iff {text : String} {w : Word} :
    ShowsWord text w ↔ Numeral.ShowsHex 8 text w.toNat := by
  constructor
  · rintro ⟨hlength, hdigits, hspells⟩
    exact ⟨hlength, hdigits, hspells⟩
  · rintro ⟨hlength, hdigits, hspells⟩
    exact ⟨hlength, hdigits, hspells⟩

theorem showsWord_hexWord (w : Word) : ShowsWord (hexWord w) w :=
  showsWord_iff.2 (Numeral.showsHex_hex (by decide) w.isLt)

namespace ShowsWord

variable {text : String} {w : Word}

theorem readWord? (h : ShowsWord text w) : readWord? text.toList = some w := by
  obtain ⟨ds, hds, hvalue⟩ := (Numeral.spells_iff @Numeral.hexDigit?_eq_some_iff).1 h.spells
  simp only [SingleCycle.readWord?, hds, hvalue, Option.map_some, BitVec.ofNat_toNat,
    BitVec.setWidth_eq]

theorem not_mem {c : Char} (h : ShowsWord text w) (hc : c ∉ "0123456789abcdef".toList) :
    c ∉ text.toList :=
  (showsWord_iff.1 h).not_mem hc

end ShowsWord

end SingleCycle
