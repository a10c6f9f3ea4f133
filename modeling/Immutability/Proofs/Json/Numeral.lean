import Immutability.Json.Printer
import Immutability.Json.Token

/-! Reading numerals.

    A numeral is read part by part as it is written (`NumeralText`), up to a character that cannot go
    on with it. The numeral that is written for an integer spells its digits, and they stand for the
    integer again as long as it fits into 64 bits. -/

namespace Immutability.Json

open Text (digit? ofDigits)

/-! ### How numerals are written -/

/-- Decimal digits and what they stand for. -/
def DigitsText (cs : List Char) (ds : List Nat) : Prop :=
  (∀ c ∈ cs, c.isDigit = true) ∧ cs.map (fun c => c.toNat - '0'.toNat) = ds

/-- A whole part: digits of which the first is no zero, unless it stands alone. -/
def WholeText (cs : List Char) (ds : List Nat) : Prop :=
  DigitsText cs ds ∧ cs ≠ [] ∧ (cs.head? = some '0' → cs = ['0'])

/-- A fraction, if there is one: a point and digits after it. -/
inductive FractionText : List Char → List Nat → Prop
  | absent : FractionText [] []
  | present {cs : List Char} {ds : List Nat} (h : DigitsText cs ds) (hne : cs ≠ []) :
      FractionText ('.' :: cs) ds

/-- An exponent, if there is one: its mark, a sign or none, and digits. -/
inductive ExponentText : List Char → Option Int → Prop
  | absent : ExponentText [] none
  | present {mark : Char} {sign cs : List Char} {s : Int} {ds : List Nat}
      (hm : mark = 'e' ∨ mark = 'E')
      (hs : sign = [] ∧ s = 1 ∨ sign = ['+'] ∧ s = 1 ∨ sign = ['-'] ∧ s = -1)
      (h : DigitsText cs ds) (hne : cs ≠ []) :
      ExponentText (mark :: (sign ++ cs)) (some (s * ofDigits 10 ds))

/-- A numeral. -/
inductive NumeralText : List Char → Numeral → Prop
  | positive {whole fraction exponent : List Char} {ws fs : List Nat} {e : Option Int}
      (hw : WholeText whole ws) (hf : FractionText fraction fs) (he : ExponentText exponent e) :
      NumeralText (whole ++ (fraction ++ exponent)) ⟨false, ws, fs, e⟩
  | negative {whole fraction exponent : List Char} {ws fs : List Nat} {e : Option Int}
      (hw : WholeText whole ws) (hf : FractionText fraction fs) (he : ExponentText exponent e) :
      NumeralText ('-' :: (whole ++ (fraction ++ exponent))) ⟨true, ws, fs, e⟩

/-! ### What follows a numeral -/

/-- Digits end before this text. -/
def EndsDigits (rest : List Char) : Prop := ∀ c ∈ rest.head?, digit? c = none

/-- A numeral ends before this text: neither a digit nor a point nor an exponent follows. -/
def EndsNumeral (rest : List Char) : Prop :=
  ∀ c ∈ rest.head?, digit? c = none ∧ c ≠ '.' ∧ c ≠ 'e' ∧ c ≠ 'E'

/-- A numeral ends before a character that does not go on with it. -/
theorem EndsNumeral.cons {c : Char} (h : digit? c = none ∧ c ≠ '.' ∧ c ≠ 'e' ∧ c ≠ 'E')
    (rest : List Char) : EndsNumeral (c :: rest) := by
  rintro d hd
  obtain rfl : c = d := by simpa using hd
  exact h

theorem EndsNumeral.nil : EndsNumeral [] := nofun

theorem EndsNumeral.endsDigits {rest : List Char} (h : EndsNumeral rest) : EndsDigits rest :=
  fun c hc => (h c hc).1

/-- Digits and fractions end before an exponent and before the end of the numeral. -/
theorem ExponentText.head?_append {cs rest : List Char} {e : Option Int} (h : ExponentText cs e)
    (hr : EndsNumeral rest) : ∀ c ∈ (cs ++ rest).head?, digit? c = none ∧ c ≠ '.' := by
  cases h with
  | absent => exact fun c hc => ⟨(hr c hc).1, (hr c hc).2.1⟩
  | present hm =>
    rintro c hc
    obtain rfl : _ = c := by simpa using hc
    rcases hm with rfl | rfl <;> decide

/-- Digits end before a fraction, and where a fraction may end. -/
theorem FractionText.endsDigits_append {cs rest : List Char} {ds : List Nat}
    (h : FractionText cs ds) (hr : EndsDigits rest) : EndsDigits (cs ++ rest) := by
  cases h with
  | absent => exact hr
  | present =>
    rintro c hc
    obtain rfl : '.' = c := by simpa using hc
    decide

/-! ### Reading the parts -/

theorem digit?_of_isDigit {c : Char} (h : c.isDigit = true) :
    digit? c = some (c.toNat - '0'.toNat) := by
  have hc : '0' ≤ c ∧ c ≤ '9' := by simpa [Char.isDigit, Char.le_def] using h
  rw [digit?, if_pos hc]

/-- Digits are read up to their end. -/
theorem DigitsText.digits_append {cs rest : List Char} {ds : List Nat} (h : DigitsText cs ds)
    (hr : EndsDigits rest) : digits (cs ++ rest) = (ds, rest) := by
  obtain ⟨hd, rfl⟩ := h
  induction cs with
  | nil =>
    cases rest with
    | nil => rfl
    | cons c rest =>
      have hc : digit? c = none := hr c (by simp)
      simp [digits, hc]
  | cons c cs ih =>
    obtain ⟨hc, hd⟩ := List.forall_mem_cons.1 hd
    rw [List.cons_append, digits, digit?_of_isDigit hc]
    simp only [ih hd, List.map_cons]

theorem DigitsText.ne_nil {cs : List Char} {ds : List Nat} (h : DigitsText cs ds) (hne : cs ≠ []) :
    ds ≠ [] := by
  obtain ⟨-, rfl⟩ := h
  simpa using hne

theorem eq_zero_of_isDigit {c : Char} (h : c.isDigit = true) (hz : c.toNat - '0'.toNat = 0) :
    c = '0' := by
  have hc : '0' ≤ c ∧ c ≤ '9' := by simpa [Char.isDigit, Char.le_def] using h
  have hl : '0'.toNat ≤ c.toNat := hc.1
  exact Char.toNat_inj.1 (by omega)

theorem WholeText.scanWhole_append {cs rest : List Char} {ds : List Nat} (h : WholeText cs ds)
    (hr : EndsDigits rest) : scanWhole (cs ++ rest) = some (ds, rest) := by
  obtain ⟨hd, hne, hz⟩ := h
  rw [scanWhole, hd.digits_append hr]
  split
  · rename_i he
    cases he
    exact absurd rfl (hd.ne_nil hne)
  · -- a leading zero stands alone, so no second digit follows it
    rename_i d ds' _ he
    cases he
    obtain ⟨hd, hm⟩ := hd
    cases cs with
    | nil => cases hm
    | cons c cs =>
      obtain ⟨hc, hm⟩ := List.cons.inj hm
      obtain rfl := eq_zero_of_isDigit (hd c (List.mem_cons_self ..)) hc
      cases hz rfl
      cases hm
  · rename_i he
    cases he
    rfl

theorem FractionText.scanFraction_append {cs rest : List Char} {ds : List Nat}
    (h : FractionText cs ds) (hr : ∀ c ∈ rest.head?, digit? c = none ∧ c ≠ '.') :
    scanFraction (cs ++ rest) = some (ds, rest) := by
  cases h with
  | absent =>
    rw [List.nil_append, scanFraction.eq_def]
    split
    · exact absurd rfl (hr '.' rfl).2
    · rfl
  | present h hne =>
    rw [List.cons_append, scanFraction, h.digits_append fun c hc => (hr c hc).1]
    split
    · rename_i he
      cases he
      exact absurd rfl (h.ne_nil hne)
    · rename_i he
      cases he
      rfl

theorem DigitsText.scanMagnitude_append {cs rest : List Char} {ds : List Nat}
    (h : DigitsText cs ds) (hne : cs ≠ []) (hr : EndsDigits rest) (s : Int) :
    scanMagnitude s (cs ++ rest) = some (some (s * ofDigits 10 ds), rest) := by
  rw [scanMagnitude, h.digits_append hr]
  split
  · rename_i he
    cases he
    exact absurd rfl (h.ne_nil hne)
  · rename_i he
    cases he
    rfl

theorem ExponentText.scanExponent_append {cs rest : List Char} {e : Option Int}
    (h : ExponentText cs e) (hr : EndsNumeral rest) :
    scanExponent (cs ++ rest) = some (e, rest) := by
  cases h with
  | absent =>
    cases rest with
    | nil => rfl
    | cons c rest =>
      have hc : ¬(c = 'e' ∨ c = 'E') := not_or.2 (hr c (by simp)).2.2
      simp only [List.nil_append, scanExponent, if_neg hc]
  | @present mark sign cs s ds hm hs h hne =>
    have hd := h.scanMagnitude_append hne hr.endsDigits
    rw [List.cons_append, List.append_assoc]
    rcases hs with ⟨rfl, rfl⟩ | ⟨rfl, rfl⟩ | ⟨rfl, rfl⟩
    · -- the first digit is neither sign
      obtain ⟨c, cs, rfl⟩ := List.exists_cons_of_ne_nil hne
      have hc : c.isDigit = true := h.1 c (List.mem_cons_self ..)
      rw [List.nil_append, scanExponent.eq_def]
      simp only [if_pos hm]
      split
      · rename_i he
        obtain rfl := (List.cons.inj he).1
        cases hc
      · rename_i he
        obtain rfl := (List.cons.inj he).1
        cases hc
      · exact hd 1
    · simp only [List.singleton_append, scanExponent, if_pos hm, hd]
    · simp only [List.singleton_append, scanExponent, if_pos hm, hd]

theorem scanUnsigned_append (negative : Bool) {whole fraction exponent rest : List Char}
    {ws fs : List Nat} {e : Option Int} (hw : WholeText whole ws) (hf : FractionText fraction fs)
    (he : ExponentText exponent e) (hr : EndsNumeral rest) :
    scanUnsigned negative (whole ++ (fraction ++ exponent) ++ rest) =
      some (⟨negative, ws, fs, e⟩, rest) := by
  have hh := he.head?_append hr
  have hsw := hw.scanWhole_append (hf.endsDigits_append fun c hc => (hh c hc).1)
  have hsf := hf.scanFraction_append hh
  have hse := he.scanExponent_append hr
  simp only [List.append_assoc, scanUnsigned, hsw, hsf, hse]

/-- A whole part starts with a digit. -/
theorem WholeText.eq_cons {cs : List Char} {ds : List Nat} (h : WholeText cs ds) :
    ∃ c cs', cs = c :: cs' ∧ c.isDigit = true := by
  obtain ⟨⟨hd, -⟩, hne, -⟩ := h
  cases cs with
  | nil => exact absurd rfl hne
  | cons c cs => exact ⟨c, cs, rfl, hd c (List.mem_cons_self ..)⟩

/-- A written numeral is read, and what follows it is left. -/
theorem NumeralText.scanNumeral_append {cs rest : List Char} {n : Numeral} (h : NumeralText cs n)
    (hr : EndsNumeral rest) : scanNumeral (cs ++ rest) = some (n, rest) := by
  cases h with
  | positive hw hf he =>
    have hs := scanUnsigned_append false hw hf he hr
    obtain ⟨c, cs, rfl, hd⟩ := hw.eq_cons
    rw [← hs]
    simp only [List.cons_append]
    rw [scanNumeral]
    rintro s hc
    obtain rfl := (List.cons.inj hc).1
    cases hd
  | negative hw hf he => exact scanUnsigned_append true hw hf he hr

/-- A numeral starts with a sign or a digit. -/
theorem NumeralText.eq_cons {cs : List Char} {n : Numeral} (h : NumeralText cs n) :
    ∃ c cs', cs = c :: cs' ∧ (c = '-' ∨ c.isDigit = true) := by
  cases h with
  | positive hw =>
    obtain ⟨c, cs, rfl, hd⟩ := hw.eq_cons
    exact ⟨c, _, rfl, Or.inr hd⟩
  | negative => exact ⟨'-', _, rfl, Or.inl rfl⟩

/-! ### Integers -/

/-- The decimal digits of a natural number. -/
def decimalDigits (n : Nat) : List Nat := (Nat.toDigits 10 n).map fun c => c.toNat - '0'.toNat

/-- The numeral that is written for an integer. -/
def Numeral.ofInt (i : Int) : Numeral := ⟨decide (i < 0), decimalDigits i.natAbs, [], none⟩

theorem isDigit_toDigits (n : Nat) : ∀ c ∈ Nat.toDigits 10 n, c.isDigit = true :=
  fun _ hc => Nat.isDigit_of_mem_toDigits (by decide) (by decide) hc

theorem decimalDigits_of_lt {n : Nat} (h : n < 10) : decimalDigits n = [n] := by
  rw [decimalDigits, Nat.toDigits_of_lt_base h, List.map_singleton]
  exact congrArg (fun m => [m]) (Nat.toNat_digitChar_sub_48_of_lt_ten h)

theorem decimalDigits_of_le {n : Nat} (h : 10 ≤ n) :
    decimalDigits n = decimalDigits (n / 10) ++ [n % 10] := by
  rw [decimalDigits, Nat.toDigits_of_base_le (by decide) h, List.map_append, List.map_singleton]
  have hd : (n % 10).digitChar.toNat - '0'.toNat = n % 10 :=
    Nat.toNat_digitChar_sub_48_of_lt_ten (by omega)
  rw [hd]
  rfl

/-- The digits of a positive number do not start with zero. -/
theorem decimalDigits_eq_cons {n : Nat} (h : 0 < n) :
    ∃ d ds, decimalDigits n = d :: ds ∧ d ≠ 0 := by
  induction n using Nat.strongRecOn with
  | ind n ih =>
    by_cases hn : n < 10
    · exact ⟨n, [], decimalDigits_of_lt hn, by omega⟩
    · obtain ⟨d, ds, hd, hz⟩ := ih (n / 10) (by omega) (by omega)
      exact ⟨d, ds ++ [n % 10], by rw [decimalDigits_of_le (by omega), hd]; rfl, hz⟩

/-- The digits of a number spell it. -/
theorem foldl_decimalDigits (n : Nat) :
    (decimalDigits n).foldl (fun m d => m * 10 + d) 0 = n := by
  have h : Nat.ofDigitChars 10 (Nat.toDigits 10 n) 0 = n := Nat.ofDigitChars_ten_toDigits
  rw [Nat.ofDigitChars_eq_foldl] at h
  simpa only [decimalDigits, List.foldl_map, Nat.mul_comm] using h

theorem le_foldl_digits (m : Nat) (ds : List Nat) : m ≤ ds.foldl (fun m d => m * 10 + d) m := by
  induction ds generalizing m with
  | nil => exact Nat.le_refl m
  | cons d ds ih => exact Nat.le_trans (by omega) (ih (m * 10 + d))

/-- Digits are gathered completely if the number that they spell fits. -/
theorem gather_of_lt {m : Nat} {ds : List Nat}
    (h : ds.foldl (fun m d => m * 10 + d) m < UInt64.size) :
    gather m ds = (ds.foldl (fun m d => m * 10 + d) m, []) := by
  induction ds generalizing m with
  | nil => rfl
  | cons d ds ih =>
    rw [List.foldl_cons] at h ⊢
    have hm : m * 10 + d < UInt64.size := Nat.lt_of_le_of_lt (le_foldl_digits _ ds) h
    rw [gather, if_pos hm, ih h]

/-- The digits of a number are a whole part. -/
theorem wholeText_toDigits (n : Nat) : WholeText (Nat.toDigits 10 n) (decimalDigits n) := by
  refine ⟨⟨isDigit_toDigits n, rfl⟩, Nat.toDigits_ne_nil, ?_⟩
  intro hz
  rcases Nat.eq_zero_or_pos n with rfl | hn
  · rfl
  · obtain ⟨d, ds, hd, hne⟩ := decimalDigits_eq_cons hn
    obtain ⟨cs, hc⟩ := List.head?_eq_some_iff.1 hz
    rw [decimalDigits, hc] at hd
    exact absurd (List.cons.inj hd).1.symm hne

/-- An integer is written as its numeral. -/
theorem numeralText_integerDigits (i : Int) : NumeralText (integerDigits i) (.ofInt i) := by
  have hw := wholeText_toDigits i.natAbs
  by_cases hi : i < 0
  · have hn := NumeralText.negative hw .absent .absent
    simpa [integerDigits, Numeral.ofInt, hi] using hn
  · have hn := NumeralText.positive hw .absent .absent
    simpa [integerDigits, Numeral.ofInt, hi] using hn

/-- The numeral of an integer stands for it, if it fits into 64 bits. -/
theorem value_ofInt {i : Int} (hl : -((UInt64.size / 2 : Nat) : Int) ≤ i)
    (hu : i < (UInt64.size : Nat)) :
    (Numeral.ofInt i).value = some (.integer i) := by
  have hg : gather 0 (decimalDigits i.natAbs) = (i.natAbs, []) := by
    rw [gather_of_lt (by rw [foldl_decimalDigits]; omega), foldl_decimalDigits]
  simp only [Numeral.value, Numeral.ofInt, hg]
  by_cases hi : i < 0
  · have hm : 0 < i.natAbs ∧ i.natAbs ≤ UInt64.size / 2 := by omega
    have hn : -(i.natAbs : Int) = i := by omega
    simp only [hi, decide_true, Bool.not_true, Bool.false_eq_true, if_false, if_pos hm, hn]
  · have hn : (i.natAbs : Int) = i := by omega
    simp only [hi, decide_false, Bool.not_false, if_true, hn]

end Immutability.Json
