/-!
Decimal notation of natural numbers: no sign and no leading zeros.  `value` reads any run of
digits, and reading what `digits` writes gives the number back (`value_digits`).
-/

namespace ShardVault.Decimal

/-- The digit of a number below ten. -/
def digit (value : Nat) : Char :=
  Char.ofNat (48 + value)

/-- Whether a character is a decimal digit. -/
def isDigit (c : Char) : Bool :=
  decide ('0' ≤ c ∧ c ≤ '9')

/-- The number of a digit. -/
def digitValue (c : Char) : Nat :=
  c.toNat - 48

/-- The digits of a number, the highest first. -/
def digits (n : Nat) : List Char :=
  if n < 10 then [digit n] else digits (n / 10) ++ [digit (n % 10)]
termination_by n

/-- The number that a run of digits stands for. -/
def value (cs : List Char) : Nat :=
  cs.foldl (fun total c => 10 * total + digitValue c) 0

/-- The notation of a number. -/
def text (n : Nat) : String :=
  String.ofList (digits n)

/-- The digits of a number after as many zeros as make them `width` characters at least. -/
def padded (width n : Nat) : List Char :=
  (digits n).leftpad width '0'

theorem digitValue_digit {n : Nat} (h : n < 10) : digitValue (digit n) = n := by
  have table : ∀ v ∈ List.range 10, digitValue (digit v) = v := by decide
  exact table n (List.mem_range.mpr h)

theorem isDigit_digit {n : Nat} (h : n < 10) : isDigit (digit n) = true := by
  have table : ∀ v ∈ List.range 10, isDigit (digit v) = true := by decide
  exact table n (List.mem_range.mpr h)

@[simp] theorem value_digits (n : Nat) : value (digits n) = n := by
  fun_induction digits n with
  | case1 n h => simp [value, digitValue_digit h]
  | case2 n h ih =>
    simp only [value, List.foldl_append, List.foldl_cons, List.foldl_nil] at ih ⊢
    rw [ih, digitValue_digit (by omega)]
    omega

theorem isDigit_of_mem_digits {n : Nat} {c : Char} (hc : c ∈ digits n) : isDigit c = true := by
  fun_induction digits n with
  | case1 n h => simp_all [isDigit_digit]
  | case2 n h ih =>
    rcases List.mem_append.mp hc with hc | hc
    · exact ih hc
    · rw [List.mem_singleton.mp hc]
      exact isDigit_digit (by omega)

/-- A smaller number has no more digits. -/
theorem length_digits_mono {m n : Nat} (h : m ≤ n) : (digits m).length ≤ (digits n).length := by
  fun_induction digits n generalizing m with
  | case1 n hn =>
    rw [digits, if_pos (Nat.lt_of_le_of_lt h hn)]
    exact Nat.le_refl 1
  | case2 n hn ih =>
    rw [digits, List.length_append, List.length_singleton]
    split
    · exact Nat.le_add_left 1 _
    · rw [List.length_append, List.length_singleton]
      exact Nat.succ_le_succ (ih (Nat.div_le_div_right h))

/-- Every digit is one byte. -/
theorem utf8ByteSize_text (n : Nat) : (text n).utf8ByteSize = (digits n).length := by
  have hall : ∀ cs : List Char, (∀ c ∈ cs, isDigit c = true) →
      (String.ofList cs).utf8ByteSize = cs.length := by
    intro cs hdigits
    induction cs with
    | nil => rfl
    | cons c rest ih =>
      rw [List.forall_mem_cons] at hdigits
      obtain ⟨hfirst, hrest⟩ := hdigits
      rw [isDigit, decide_eq_true_iff] at hfirst
      have hsize : c.utf8Size = 1 :=
        Char.utf8Size_eq_one_iff.mpr (Nat.le_trans hfirst.2 (by decide))
      rw [String.ofList_cons, String.utf8ByteSize_append, String.utf8ByteSize_singleton, hsize,
        ih hrest, List.length_cons, Nat.add_comm]
  exact hall _ fun _ => isDigit_of_mem_digits

theorem digits_ne_nil (n : Nat) : digits n ≠ [] := by
  rw [digits]
  split <;> simp

end ShardVault.Decimal
