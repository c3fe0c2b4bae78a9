import ShardVault.Text.Decimal

/-!
Lists of numbers in decimal notation, with a comma and a blank between them.  The numbers can be
told from the list (`intercalate_text_injective`).
-/

namespace ShardVault.Decimal

/-- Numbers as they are written after others in a list. -/
def continued (numbers : List Nat) : List Char :=
  numbers.flatMap fun number => ',' :: ' ' :: digits number

theorem toList_intercalate_cons (first : Nat) (rest : List Nat) :
    (", ".intercalate ((first :: rest).map text)).toList = digits first ++ continued rest := by
  induction rest generalizing first with
  | nil => simp [text, continued]
  | cons second rest ih =>
    rw [List.map_cons, List.map_cons, String.intercalate_cons_cons, ← List.map_cons,
      String.toList_append, String.toList_append, ih, text, String.toList_ofList,
      List.append_assoc]
    rfl

theorem head?_continued {numbers : List Nat} {c : Char} (h : c ∈ (continued numbers).head?) :
    isDigit c = false := by
  cases numbers with
  | nil => cases h
  | cons first rest =>
    obtain rfl := Option.some.inj h
    decide

/-- A number ends where no digit follows. -/
theorem eq_of_digits_append_eq {m n : Nat} {rest rest' : List Char}
    (hrest : ∀ c ∈ rest.head?, isDigit c = false) (hrest' : ∀ c ∈ rest'.head?, isDigit c = false)
    (h : digits m ++ rest = digits n ++ rest') : m = n ∧ rest = rest' := by
  have htake {number : Nat} {rest : List Char} (hrest : ∀ c ∈ rest.head?, isDigit c = false) :
      (digits number ++ rest).takeWhile isDigit = digits number := by
    rw [List.takeWhile_append_of_pos fun _ => isDigit_of_mem_digits]
    cases rest with
    | nil => simp
    | cons c rest => simp [hrest c rfl]
  have hdigits := congrArg (List.takeWhile isDigit) h
  rw [htake hrest, htake hrest'] at hdigits
  have hvalue := congrArg value hdigits
  rw [value_digits, value_digits] at hvalue
  subst hvalue
  exact ⟨rfl, List.append_cancel_left h⟩

theorem continued_injective {xs ys : List Nat} (h : continued xs = continued ys) : xs = ys := by
  induction xs generalizing ys with
  | nil =>
    cases ys with
    | nil => rfl
    | cons y ys => cases h
  | cons x xs ih =>
    cases ys with
    | nil => cases h
    | cons y ys =>
      have htail : digits x ++ continued xs = digits y ++ continued ys :=
        (List.cons.inj (List.cons.inj h).2).2
      obtain ⟨rfl, hrest⟩ :=
        eq_of_digits_append_eq (fun _ => head?_continued) (fun _ => head?_continued) htail
      rw [ih hrest]

/-- Numbers can be told from their list. -/
theorem intercalate_text_injective {xs ys : List Nat}
    (h : ", ".intercalate (xs.map text) = ", ".intercalate (ys.map text)) : xs = ys := by
  have hchars := congrArg String.toList h
  have hne (first : Nat) (rest : List Nat) : digits first ++ continued rest ≠ [] :=
    fun hnil => digits_ne_nil first (List.append_eq_nil_iff.mp hnil).1
  cases xs with
  | nil =>
    cases ys with
    | nil => rfl
    | cons y ys =>
      rw [toList_intercalate_cons] at hchars
      exact absurd hchars.symm (hne y ys)
  | cons x xs =>
    rw [toList_intercalate_cons] at hchars
    cases ys with
    | nil => exact absurd hchars (hne x xs)
    | cons y ys =>
      rw [toList_intercalate_cons] at hchars
      obtain ⟨rfl, hrest⟩ :=
        eq_of_digits_append_eq (fun _ => head?_continued) (fun _ => head?_continued) hchars
      rw [continued_injective hrest]

/-- There is no colon in a list of numbers. -/
theorem colon_not_mem_intercalate (numbers : List Nat) :
    ':' ∉ (", ".intercalate (numbers.map text)).toList := by
  have hdigits (number : Nat) : ':' ∉ digits number := by
    intro hmem
    exact absurd (isDigit_of_mem_digits hmem) (by decide)
  cases numbers with
  | nil => simp
  | cons first rest =>
    rw [toList_intercalate_cons, List.mem_append, not_or]
    refine ⟨hdigits first, ?_⟩
    rw [continued, List.mem_flatMap]
    rintro ⟨number, -, hmem⟩
    rw [List.mem_cons, List.mem_cons] at hmem
    rcases hmem with hcomma | hblank | hdigit
    · exact absurd hcomma (by decide)
    · exact absurd hblank (by decide)
    · exact hdigits number hdigit

end ShardVault.Decimal
