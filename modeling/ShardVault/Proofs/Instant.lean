import Mathlib.Algebra.Group.Nat.Defs
import Mathlib.Data.List.TakeDrop
import ShardVault.Instant.Text

/-!
Instants in texts.  Every instant is read back from its text, whatever its year and however many
digits its fraction needs (`ofText?_text`).  Each field is read from what is written for it,
whatever follows, since it has all the digits that its reader takes.
-/

namespace ShardVault

namespace Decimal

theorem length_digits_le {n width : Nat} (hwidth : 0 < width) (h : n < 10 ^ width) :
    (digits n).length ≤ width := by
  fun_induction digits n generalizing width with
  | case1 n hn => exact hwidth
  | case2 n hn ih =>
    obtain ⟨less, rfl⟩ : ∃ less, width = less + 1 := Nat.exists_eq_add_one.mpr hwidth
    rw [Nat.pow_succ] at h
    have hless : 0 < less := by
      rw [Nat.pos_iff_ne_zero]
      rintro rfl
      omega
    have hrest := ih hless (by omega)
    rw [List.length_append, List.length_singleton]
    omega

theorem length_padded {n width : Nat} (hwidth : 0 < width) (h : n < 10 ^ width) :
    (padded width n).length = width := by
  have hlength := length_digits_le hwidth h
  rw [padded, List.leftpad, List.length_append, List.length_replicate]
  omega

theorem value_zeros_append (count : Nat) (cs : List Char) :
    value (List.replicate count '0' ++ cs) = value cs := by
  induction count with
  | zero => rfl
  | succ count ih =>
    rw [List.replicate_succ, List.cons_append, value, List.foldl_cons]
    exact ih

@[simp] theorem value_padded (width n : Nat) : value (padded width n) = n := by
  rw [padded, List.leftpad, value_zeros_append, value_digits]

theorem isDigit_of_mem_padded {width n : Nat} {c : Char} (h : c ∈ padded width n) :
    isDigit c = true := by
  rw [padded, List.leftpad, List.mem_append] at h
  rcases h with hzero | hdigit
  · rw [List.eq_of_mem_replicate hzero]
    rfl
  · exact isDigit_of_mem_digits hdigit

theorem padded_ne_nil (width n : Nat) : padded width n ≠ [] := by
  rw [padded, List.leftpad, ne_eq, List.append_eq_nil_iff]
  exact fun h => digits_ne_nil n h.2

theorem exists_padded_eq_cons (width n : Nat) :
    ∃ c cs, padded width n = c :: cs ∧ isDigit c = true := by
  obtain ⟨c, cs, hpadded⟩ := List.exists_cons_of_ne_nil (padded_ne_nil width n)
  have hmem : c ∈ padded width n := by
    rw [hpadded]
    exact List.mem_cons_self
  exact ⟨c, cs, hpadded, isDigit_of_mem_padded hmem⟩

end Decimal

namespace Calendar

theorem daysInMonth_le (year : Int) (month : Nat) : daysInMonth year month ≤ 31 := by
  rw [daysInMonth.eq_def]
  split <;> first | decide | (split <;> decide)

theorem month_le_of_daysInMonth {year : Int} {month : Nat} (h : 0 < daysInMonth year month) :
    month ≤ 12 := by
  rw [daysInMonth.eq_def] at h
  split at h <;> first | decide | cases h

end Calendar

namespace Instant

/-! ## Fields -/

theorem isBlank_of_isDigit {c : Char} (h : Decimal.isDigit c = true) : isBlank c = false := by
  rw [Decimal.isDigit, decide_eq_true_iff] at h
  have hlow : 48 ≤ c.toNat := h.1
  have hhigh : c.toNat ≤ 57 := h.2
  simp only [isBlank, Bool.or_eq_false_iff, Bool.and_eq_false_iff, decide_eq_false_iff_not,
    beq_eq_false_iff_ne]
  omega

theorem skipBlanks_cons {c : Char} (h : isBlank c = false) (cs : List Char) :
    skipBlanks (c :: cs) = c :: cs := by
  rw [skipBlanks, List.dropWhile_cons_of_neg (by simp [h])]

theorem skipBlanks_padded (width n : Nat) (rest : List Char) :
    skipBlanks (Decimal.padded width n ++ rest) = Decimal.padded width n ++ rest := by
  obtain ⟨c, cs, hpadded, hc⟩ := Decimal.exists_padded_eq_cons width n
  rw [hpadded, List.cons_append, skipBlanks_cons (isBlank_of_isDigit hc)]

/-- A run of digits is read as a number if no more of them can be taken, or if no digit comes after
    them. -/
theorem number?_append {width : Nat} {run rest : List Char} (hne : run ≠ [])
    (hrun : ∀ c ∈ run, Decimal.isDigit c = true) (hlength : run.length ≤ width)
    (hstop : run.length = width ∨ ∀ c ∈ rest.head?, Decimal.isDigit c = false) :
    number? width (run ++ rest) = some (Decimal.value run, rest) := by
  have hrest : (rest.take (width - run.length)).takeWhile Decimal.isDigit = [] := by
    rcases hstop with hfull | hstop
    · rw [hfull, Nat.sub_self, List.take_zero, List.takeWhile_nil]
    · cases rest with
      | nil => rw [List.take_nil, List.takeWhile_nil]
      | cons c rest =>
        have hc := hstop c rfl
        cases width - run.length with
        | zero => rfl
        | succ count => rw [List.take_succ_cons, List.takeWhile_cons_of_neg (by simp [hc])]
  have htake : ((run ++ rest).take width).takeWhile Decimal.isDigit = run := by
    rw [List.take_append, List.take_of_length_le hlength, List.takeWhile_append_of_pos hrun, hrest,
      List.append_nil]
  simp only [number?, htake]
  rw [if_neg hne, List.drop_left]

theorem number?_padded {width limit n : Nat} (hwidth : 0 < width) (h : n < 10 ^ width)
    (hlimit : width ≤ limit) {rest : List Char}
    (hstop : width = limit ∨ ∀ c ∈ rest.head?, Decimal.isDigit c = false) :
    number? limit (Decimal.padded width n ++ rest) = some (n, rest) := by
  have hlength := Decimal.length_padded hwidth h
  rw [number?_append (Decimal.padded_ne_nil width n) (fun c => Decimal.isDigit_of_mem_padded)
    (by omega) (by rwa [hlength]), Decimal.value_padded]

theorem field?_padded {n : Nat} (h : n < 100) (rest : List Char) :
    field? (Decimal.padded 2 n ++ rest) = some (n, rest) := by
  rw [field?, skipBlanks_padded, number?_padded (by decide) h (Nat.le_refl 2) (.inl rfl)]

theorem mark?_cons {c : Char} (h : isBlank c = false) (rest : List Char) :
    mark? c (c :: rest) = some rest := by
  simp only [mark?, skipBlanks_cons h, if_true]

/-- A signed year may have any number of digits, so what follows must not be one. -/
theorem year?_yearText (year : Int) {c : Char} (hc : Decimal.isDigit c = false)
    (rest : List Char) : year? (yearText year ++ c :: rest) = some (year, c :: rest) := by
  have hlong (n : Nat) :
      number? (Decimal.padded 4 n ++ c :: rest).length (Decimal.padded 4 n ++ c :: rest) =
        some (n, c :: rest) := by
    have hstop : ∀ own ∈ (c :: rest).head?, Decimal.isDigit own = false := by
      rintro own ⟨⟩
      exact hc
    rw [number?_append (Decimal.padded_ne_nil 4 n) (fun c => Decimal.isDigit_of_mem_padded)
      (by simp) (.inr hstop), Decimal.value_padded]
  rw [yearText]
  split
  · rename_i hnegative
    rw [List.cons_append, year?, skipBlanks_cons rfl]
    simp only [hlong, Option.map_some]
    rw [show -(year.natAbs : Int) = year by omega]
  · split
    · rename_i hnonnegative hlarge
      rw [List.cons_append, year?, skipBlanks_cons rfl]
      simp only [hlong, Option.map_some]
      rw [show (year.natAbs : Int) = year by omega]
    · rename_i hnonnegative hsmall
      have hnumber : number? 4 (Decimal.padded 4 year.natAbs ++ c :: rest) =
          some (year.natAbs, c :: rest) :=
        number?_padded (by decide) (by omega) (Nat.le_refl 4) (.inl rfl)
      obtain ⟨d, ds, hpadded, hd⟩ := Decimal.exists_padded_eq_cons 4 year.natAbs
      have hne {sign : Char} (hsign : Decimal.isDigit sign = false) : d ≠ sign := by
        rintro rfl
        rw [hd] at hsign
        cases hsign
      rw [year?, skipBlanks_padded]
      rw [hpadded, List.cons_append] at hnumber ⊢
      split
      · rename_i heq
        exact absurd (List.cons.inj heq).1 (hne rfl)
      · rename_i heq
        exact absurd (List.cons.inj heq).1 (hne rfl)
      · rw [hnumber]
        simp only [Option.map_some]
        rw [show (year.natAbs : Int) = year by omega]

/-- The digits of a fraction are as many as its unit needs. -/
theorem fraction?_padded {width n : Nat} (hwidth : 0 < width) (hnine : width ≤ 9)
    (h : n < 10 ^ width) {c : Char} (hc : Decimal.isDigit c = false) (rest : List Char) :
    fraction? ('.' :: (Decimal.padded width n ++ c :: rest)) =
      some (n * 10 ^ (9 - width), c :: rest) := by
  have hlength := Decimal.length_padded hwidth h
  have hnumber : number? 9 (Decimal.padded width n ++ c :: rest) = some (n, c :: rest) := by
    refine number?_padded hwidth h hnine (.inr ?_)
    rintro own ⟨⟩
    exact hc
  have hcount : (Decimal.padded width n ++ c :: rest).length - (c :: rest).length = width := by
    rw [List.length_append, hlength, Nat.add_sub_cancel]
  have hrest : (c :: rest).dropWhile Decimal.isDigit = c :: rest :=
    List.dropWhile_cons_of_neg (by simp [hc])
  simp only [fraction?, hnumber, Option.map_some, hcount, hrest]
  rfl

theorem fraction?_fractionText {nanosecond : Nat} (h : nanosecond < 1000000000) {c : Char}
    (hc : Decimal.isDigit c = false) (hdot : c ≠ '.') (rest : List Char) :
    fraction? (fractionText nanosecond ++ c :: rest) = some (nanosecond, c :: rest) := by
  rw [fractionText]
  split
  · rename_i hzero
    rw [hzero, List.nil_append, fraction?.eq_def]
    split
    · rename_i heq
      exact absurd (List.cons.inj heq).1 hdot
    · rfl
  · split
    · rename_i hmilli
      rw [List.cons_append, fraction?_padded (by decide) (by decide) (by omega) hc]
      rw [show nanosecond / 1000000 * 10 ^ (9 - 3) = nanosecond by omega]
    · split
      · rename_i hmicro
        rw [List.cons_append, fraction?_padded (by decide) (by decide) (by omega) hc]
        rw [show nanosecond / 1000 * 10 ^ (9 - 6) = nanosecond by omega]
      · rw [List.cons_append, fraction?_padded (by decide) (by decide) (by omega) hc]
        rw [show nanosecond * 10 ^ (9 - 9) = nanosecond by omega]

/-- A time that is universal time already is the instant itself. -/
theorem ofLocal?_self (t : Instant) :
    ofLocal? t.year t.month t.day t.hour t.minute t.second t.nanosecond 0 = some t := by
  have hhour := t.hour_lt
  have hminute := t.minute_lt
  have hlow : ¬ ((t.hour * 60 + t.minute : Int) - 0 < 0) := by omega
  have hhigh : ¬ (1440 ≤ (t.hour * 60 + t.minute : Int) - 0) := by omega
  have htotal : (((t.hour * 60 + t.minute : Int) - 0) % 1440).toNat = t.hour * 60 + t.minute := by
    omega
  rw [ofLocal?, if_pos ⟨t.isDate, hhour, hminute⟩]
  simp only [if_neg hlow, if_neg hhigh, htotal]
  rw [show (t.hour * 60 + t.minute) / 60 = t.hour by omega,
    show (t.hour * 60 + t.minute) % 60 = t.minute by omega, ofFields?,
    dif_pos ⟨t.isDate, hhour, hminute, t.second_le, t.nanosecond_lt⟩]

/-- Every instant is read back from its text. -/
theorem ofText?_text (t : Instant) : ofText? t.text = some t := by
  obtain ⟨-, -, hone, hlast⟩ := t.isDate
  have hdays := Calendar.daysInMonth_le t.year t.month
  have hmonths := Calendar.month_le_of_daysInMonth (Nat.lt_of_lt_of_le hone hlast)
  have hhour := t.hour_lt
  have hminute := t.minute_lt
  have hsecond := t.second_le
  have hlist : t.text.toList = yearText t.year ++ '-' :: (Decimal.padded 2 t.month ++
      '-' :: (Decimal.padded 2 t.day ++ 'T' :: (Decimal.padded 2 t.hour ++
        ':' :: (Decimal.padded 2 t.minute ++ ':' :: (Decimal.padded 2 t.second ++
          (fractionText t.nanosecond ++ ['Z'])))))) := by
    simp [text]
  have hdash (cs : List Char) : mark? '-' ('-' :: cs) = some cs := mark?_cons rfl cs
  have hcolon (cs : List Char) : mark? ':' (':' :: cs) = some cs := mark?_cons rfl cs
  have hdivider (cs : List Char) : divider? ('T' :: cs) = some cs := rfl
  have hzone : zone? (skipBlanks ['Z']) = some (0, []) := rfl
  have hend : skipBlanks [] = [] := rfl
  simp only [ofText?, hlist, year?_yearText t.year (c := '-') rfl, hdash, hcolon, hdivider, hzone,
    hend, field?_padded (show t.month < 100 by omega), field?_padded (show t.day < 100 by omega),
    field?_padded (show t.hour < 100 by omega), field?_padded (show t.minute < 100 by omega),
    field?_padded (show t.second < 100 by omega),
    fraction?_fractionText t.nanosecond_lt (c := 'Z') rfl (by decide), if_true,
    Option.bind_eq_bind, Option.bind_some, ofLocal?_self]

end Instant

end ShardVault
