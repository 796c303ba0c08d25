import Mathlib.Data.List.Forall2
import Mathlib.Data.Nat.Digits.Defs
import SingleCycle.Text.Numeral

/-!
# What numerals write

A numeral is a row of digits, each with its value, and its number is the sum of these values at
their places. The readers of this library read exactly the numerals of their base, and the writers
write one of them.
-/

namespace SingleCycle.Numeral

/-- A character is the digit of a value, in lower or upper case. -/
def IsDigit (base : Nat) (c : Char) (d : Nat) : Prop :=
  d < base ∧ (c = d.digitChar ∨ c = d.digitChar.toUpper)

/-- A row of digits spells a number, the most significant digit first. -/
def Spells (base : Nat) (cs : List Char) (n : Nat) : Prop :=
  cs ≠ [] ∧ ∃ ds, List.Forall₂ (IsDigit base) cs ds ∧ Nat.ofDigits base ds.reverse = n

/-! ## Digits -/

/-- What holds of every character up to a bound is decided by trying them all. -/
theorem of_toNat_lt {b : Nat} (p : Char → Prop) (h : ∀ n : Fin b, p (Char.ofNat n))
    {c : Char} (hc : c.toNat < b) : p c := by
  have hp := h ⟨c.toNat, hc⟩
  rwa [Char.ofNat_toNat] at hp

theorem hexDigit?_eq_some_iff {c : Char} {d : Nat} : hexDigit? c = some d ↔ IsDigit 16 c d := by
  constructor
  · intro h
    have hlt : c.toNat < 103 := by
      have hrange := toNat_of_hexDigit h
      omega
    have hread := of_toNat_lt (fun c => ∀ d ∈ hexDigit? c, d < 16 ∧
      (c = d.digitChar ∨ c = d.digitChar.toUpper)) (by decide) hlt
    exact hread d h
  · rintro ⟨hd, hc⟩
    have hall : ∀ d : Fin 16, hexDigit? d.val.digitChar = some d.val ∧
        hexDigit? d.val.digitChar.toUpper = some d.val := by decide
    obtain ⟨hlower, hupper⟩ := hall ⟨d, hd⟩
    rcases hc with rfl | rfl
    · exact hlower
    · exact hupper

theorem toNat_of_decimalDigit {c : Char} {d : Nat} (h : decimalDigit? c = some d) :
    c.toNat < 58 := by
  unfold decimalDigit? at h
  split at h
  · next hdigit =>
    simp only [Char.isDigit, Bool.and_eq_true, decide_eq_true_eq] at hdigit
    exact Nat.lt_succ_of_le hdigit.2
  · cases h

theorem decimalDigit?_eq_some_iff {c : Char} {d : Nat} :
    decimalDigit? c = some d ↔ IsDigit 10 c d := by
  constructor
  · intro h
    have hread := of_toNat_lt (fun c => ∀ d ∈ decimalDigit? c, d < 10 ∧
      (c = d.digitChar ∨ c = d.digitChar.toUpper)) (by decide) (toNat_of_decimalDigit h)
    exact hread d h
  · rintro ⟨hd, hc⟩
    have hall : ∀ d : Fin 10, decimalDigit? d.val.digitChar = some d.val ∧
        decimalDigit? d.val.digitChar.toUpper = some d.val := by decide
    obtain ⟨hlower, hupper⟩ := hall ⟨d, hd⟩
    rcases hc with rfl | rfl
    · exact hlower
    · exact hupper

/-- In base ten there is one digit for each value. -/
theorem eq_digitChar_of_decimalDigit? {c : Char} {d : Nat} (h : decimalDigit? c = some d) :
    d < 10 ∧ c = d.digitChar := by
  have hupper : ∀ d : Fin 10, d.val.digitChar.toUpper = d.val.digitChar := by decide
  obtain ⟨hd, rfl | rfl⟩ := decimalDigit?_eq_some_iff.1 h
  · exact ⟨hd, rfl⟩
  · exact ⟨hd, hupper ⟨d, hd⟩⟩

/-! ## Reading -/

theorem mapM_eq_some_iff {α β : Type} {f : α → Option β} {xs : List α} {ys : List β} :
    xs.mapM f = some ys ↔ List.Forall₂ (fun x y => f x = some y) xs ys := by
  induction xs generalizing ys with
  | nil => simp [eq_comm]
  | cons x xs ih =>
    rw [List.mapM_cons, List.forall₂_cons_left_iff]
    simp only [Option.bind_eq_bind, Option.bind_eq_some_iff, Option.pure_def, Option.some.injEq, ih]
    constructor
    · rintro ⟨y, hy, ys, hys, rfl⟩
      exact ⟨y, ys, hy, hys, rfl⟩
    · rintro ⟨y, ys, hy, hys, rfl⟩
      exact ⟨y, hy, ys, hys, rfl⟩

theorem value_eq_ofDigits (base : Nat) (ds : List Nat) :
    value base ds = Nat.ofDigits base ds.reverse := by
  rw [Nat.ofDigits_eq_foldr, List.foldr_reverse]
  unfold value
  congr 1
  funext n d
  exact Nat.add_comm _ _

/-- A reader that knows the digits of a base reads the numerals of that base. -/
theorem spells_iff {base : Nat} {digit? : Char → Option Nat}
    (hdigit : ∀ c d, digit? c = some d ↔ IsDigit base c d) {cs : List Char} {n : Nat} :
    Spells base cs n ↔ ∃ ds, digits? digit? cs = some ds ∧ value base ds = n := by
  have hread : ∀ ds, List.Forall₂ (IsDigit base) cs ds ↔ cs.mapM digit? = some ds := by
    intro ds
    rw [mapM_eq_some_iff]
    simp only [hdigit]
  unfold Spells digits?
  simp only [hread, value_eq_ofDigits]
  cases cs with
  | nil => simp
  | cons c cs => simp

theorem length_of_digits? {digit? : Char → Option Nat} {cs : List Char} {ds : List Nat}
    (h : digits? digit? cs = some ds) : ds.length = cs.length := by
  unfold digits? at h
  split at h
  · cases h
  · exact (mapM_eq_some_iff.1 h).length_eq.symm

/-- A numeral is below the power of its base that its length tells. -/
theorem Spells.lt_pow {base n : Nat} {cs : List Char} (hbase : 1 < base) (h : Spells base cs n) :
    n < base ^ cs.length := by
  obtain ⟨-, ds, hds, rfl⟩ := h
  rw [hds.length_eq, ← List.length_reverse]
  refine Nat.ofDigits_lt_base_pow_length hbase fun d hd => ?_
  obtain ⟨i, hi, rfl⟩ := List.getElem_of_mem (List.mem_reverse.1 hd)
  have hlen : i < cs.length := hds.length_eq.symm ▸ hi
  exact (hds.get hlen hi).1

/-! ## Writing -/

/-- What is written in a base are the lower-case digits of the number. -/
theorem toDigits_eq {base : Nat} (hbase : 1 < base) (n : Nat) :
    ∃ ds, List.Forall₂ (fun c d => d < base ∧ c = d.digitChar) (Nat.toDigits base n) ds ∧
      Nat.ofDigits base ds.reverse = n := by
  induction n using Nat.strong_induction_on with
  | _ n ih =>
    by_cases hn : n < base
    · rw [Nat.toDigits_of_lt_base hn]
      exact ⟨[n], .cons ⟨hn, rfl⟩ .nil, Nat.ofDigits_singleton⟩
    · have hle : base ≤ n := Nat.le_of_not_lt hn
      have hdiv : n / base < n := Nat.div_lt_self (by omega) hbase
      have hmod : n % base < base := Nat.mod_lt n (by omega)
      obtain ⟨ds, hds, hvalue⟩ := ih (n / base) hdiv
      rw [Nat.toDigits_of_base_le hbase hle]
      refine ⟨ds ++ [n % base], List.rel_append hds (.cons ⟨hmod, rfl⟩ .nil), ?_⟩
      rw [List.reverse_append, List.reverse_singleton, List.singleton_append, Nat.ofDigits_cons,
        hvalue]
      exact Nat.mod_add_div n base

theorem spells_toDigits {base : Nat} (hbase : 1 < base) (n : Nat) :
    Spells base (Nat.toDigits base n) n := by
  obtain ⟨ds, hds, hvalue⟩ := toDigits_eq hbase n
  refine ⟨Nat.toDigits_ne_nil, ds, hds.imp ?_, hvalue⟩
  rintro c d ⟨hd, rfl⟩
  exact ⟨hd, .inl rfl⟩

theorem digit_of_mem_toDigits {base n : Nat} {c : Char} (hbase : 1 < base)
    (h : c ∈ Nat.toDigits base n) : ∃ d < base, c = d.digitChar := by
  obtain ⟨ds, hds, -⟩ := toDigits_eq hbase n
  obtain ⟨i, hi, rfl⟩ := List.getElem_of_mem h
  have hlen : i < ds.length := hds.length_eq ▸ hi
  exact ⟨ds[i], hds.get hi hlen⟩

theorem hex_one (n : Nat) : hex 1 n = Nat.toDigits 16 n := by
  have hpos : 0 < (Nat.toDigits 16 n).length := Nat.length_toDigits_pos
  unfold hex List.leftpad
  rw [Nat.sub_eq_zero_of_le hpos]
  rfl

/-- A number is written to the width that was asked for, if it fits. -/
theorem length_hex {k n : Nat} (hk : 0 < k) (hn : n < 16 ^ k) : (hex k n).length = k := by
  have hlength : (Nat.toDigits 16 n).length ≤ k := Nat.toDigits_length 16 n k hk hn
  unfold hex List.leftpad
  rw [List.length_append, List.length_replicate]
  omega

theorem digit_of_mem_hex {k n : Nat} {c : Char} (h : c ∈ hex k n) : ∃ d < 16, c = d.digitChar := by
  rcases List.mem_append.1 h with hzero | hdigit
  · obtain rfl := List.eq_of_mem_replicate hzero
    exact ⟨0, by decide, rfl⟩
  · exact digit_of_mem_toDigits (by decide) hdigit

/-- What is written has lower-case digits only. -/
theorem lower_of_mem_hex {k n : Nat} {c : Char} (h : c ∈ hex k n) :
    c ∈ "0123456789abcdef".toList := by
  have hall : ∀ d : Fin 16, d.val.digitChar ∈ "0123456789abcdef".toList := by decide
  obtain ⟨d, hd, rfl⟩ := digit_of_mem_hex h
  exact hall ⟨d, hd⟩

theorem Spells.zeros {base n : Nat} {cs : List Char} (hbase : 0 < base) (h : Spells base cs n)
    (k : Nat) : Spells base (List.replicate k '0' ++ cs) n := by
  induction k with
  | zero => exact h
  | succ k ih =>
    obtain ⟨-, ds, hds, hvalue⟩ := ih
    have hvalue' : Nat.ofDigits base (0 :: ds).reverse = n := by
      rw [List.reverse_cons, Nat.ofDigits_append_zero, hvalue]
    exact ⟨List.cons_ne_nil _ _, 0 :: ds, .cons ⟨hbase, .inl rfl⟩ hds, hvalue'⟩

theorem spells_hex (k n : Nat) : Spells 16 (hex k n) n :=
  (spells_toDigits (by decide) n).zeros (by decide) _

/-- A text shows a number in `k` lower-case hexadecimal digits. -/
structure ShowsHex (k : Nat) (text : String) (n : Nat) : Prop where
  length : text.toList.length = k
  digits : ∀ c ∈ text.toList, c ∈ "0123456789abcdef".toList
  spells : Spells 16 text.toList n

theorem ShowsHex.not_mem {k n : Nat} {text : String} {c : Char} (h : ShowsHex k text n)
    (hc : c ∉ "0123456789abcdef".toList) : c ∉ text.toList :=
  fun hmem => hc (h.digits c hmem)

theorem showsHex_hex {k n : Nat} (hk : 0 < k) (hn : n < 16 ^ k) :
    ShowsHex k (String.ofList (hex k n)) n := by
  have htext : (String.ofList (hex k n)).toList = hex k n := String.toList_ofList
  exact {
    length := by rw [htext, length_hex hk hn]
    digits := by
      intro c hc
      rw [htext] at hc
      exact lower_of_mem_hex hc
    spells := by
      rw [htext]
      exact spells_hex k n }

end SingleCycle.Numeral
