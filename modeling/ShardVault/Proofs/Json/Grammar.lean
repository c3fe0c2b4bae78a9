import Mathlib.Data.List.TakeDrop
import ShardVault.Proofs.Json.Text

/-!
The grammar of documents.  `Spells` tells which texts spell a value: any white space between the
tokens, any spelling of its strings, its members in their order.  Every document that spells a value
is read as that value (`parse_of_spells`).  A value is read from its text whatever follows, as long
as a number could not go on there, and the length of the text is fuel enough.
-/

namespace ShardVault.Json

/-! ## White space -/

/-- White space only. -/
def Blank (cs : List Char) : Prop :=
  ∀ c ∈ cs, isSpace c = true

theorem blank_nil : Blank [] := by
  intro c hc
  cases hc

theorem Blank.append {before after : List Char} (hbefore : Blank before) (hafter : Blank after) :
    Blank (before ++ after) := by
  intro c hc
  rcases List.mem_append.mp hc with hc | hc
  · exact hbefore c hc
  · exact hafter c hc

theorem skipSpace_append {space : List Char} (h : Blank space) (cs : List Char) :
    skipSpace (space ++ cs) = skipSpace cs := by
  rw [skipSpace, List.dropWhile_append_of_pos h, skipSpace]

theorem skipSpace_cons {c : Char} (h : isSpace c = false) (cs : List Char) :
    skipSpace (c :: cs) = c :: cs := by
  rw [skipSpace, List.dropWhile_cons_of_neg (by simp [h])]

theorem skipSpace_append_cons {space : List Char} (h : Blank space) {c : Char}
    (hc : isSpace c = false) (cs : List Char) : skipSpace (space ++ c :: cs) = c :: cs := by
  rw [skipSpace_append h, skipSpace_cons hc]

theorem skipSpace_blank {space : List Char} (h : Blank space) : skipSpace space = [] := by
  rw [← List.append_nil space, skipSpace_append h]
  rfl

/-! ## Spellings -/

/-- A run of digits, at least one. -/
def IsRun (run : List Char) : Prop :=
  run ≠ [] ∧ ∀ c ∈ run, Decimal.isDigit c = true

/-- The fraction of a number, if it has one. -/
inductive IsFraction : List Char → Bool → Prop
  | absent : IsFraction [] false
  | point {run : List Char} (h : IsRun run) : IsFraction ('.' :: run) true

/-- The exponent of a number, if it has one. -/
inductive IsExponent : List Char → Bool → Prop
  | absent : IsExponent [] false
  | letter {e : Char} {sign run : List Char} (he : e = 'e' ∨ e = 'E')
      (hsign : sign = [] ∨ sign = ['+'] ∨ sign = ['-']) (h : IsRun run) :
      IsExponent (e :: (sign ++ run)) true

/-- The spellings of a number. -/
inductive SpellsNumber : List Char → Json → Prop
  | natural (n : Nat) : SpellsNumber (Decimal.digits n) (.natural n)
  | negative {n : Nat} {fraction exponent : List Char} {hasFraction hasExponent : Bool}
      (hf : IsFraction fraction hasFraction) (he : IsExponent exponent hasExponent) :
      SpellsNumber ('-' :: (Decimal.digits n ++ (fraction ++ exponent))) .otherNumber
  | inexact {n : Nat} {fraction exponent : List Char} {hasFraction hasExponent : Bool}
      (hf : IsFraction fraction hasFraction) (he : IsExponent exponent hasExponent)
      (h : hasFraction || hasExponent) :
      SpellsNumber (Decimal.digits n ++ (fraction ++ exponent)) .otherNumber

mutual

/-- The spellings of a value, without white space around it. -/
inductive Spells : List Char → Json → Prop
  | null : Spells ['n', 'u', 'l', 'l'] .null
  | true : Spells ['t', 'r', 'u', 'e'] (.bool true)
  | false : Spells ['f', 'a', 'l', 's', 'e'] (.bool false)
  | number {cs : List Char} {value : Json} (h : SpellsNumber cs value) : Spells cs value
  | string {cs : List Char} {text : JsonText} (h : SpellsText cs text) : Spells cs (.string text)
  | emptyArray {space : List Char} (hspace : Blank space) :
      Spells ('[' :: (space ++ [']'])) (.array [])
  | array {space cs ds : List Char} {first : Json} {more : List Json} (hspace : Blank space)
      (hfirst : Spells cs first) (hmore : SpellsItems ds more) :
      Spells ('[' :: (space ++ (cs ++ ds))) (.array (first :: more))
  | emptyObject {space : List Char} (hspace : Blank space) :
      Spells ('\x7b' :: (space ++ ['\x7d'])) (.object [])
  | object {space cs ds : List Char} {first : JsonText × Json} {more : List (JsonText × Json)}
      (hspace : Blank space) (hfirst : SpellsMember cs first) (hmore : SpellsMembers ds more) :
      Spells ('\x7b' :: (space ++ (cs ++ ds))) (.object (first :: more))

/-- The spellings of the items of an array after its first, with the closing bracket. -/
inductive SpellsItems : List Char → List Json → Prop
  | close {space : List Char} (hspace : Blank space) : SpellsItems (space ++ [']']) []
  | comma {before after cs ds : List Char} {item : Json} {more : List Json}
      (hbefore : Blank before) (hafter : Blank after) (hitem : Spells cs item)
      (hmore : SpellsItems ds more) :
      SpellsItems (before ++ ',' :: (after ++ (cs ++ ds))) (item :: more)

/-- The spellings of a member of an object. -/
inductive SpellsMember : List Char → JsonText × Json → Prop
  | colon {before after cs ds : List Char} {name : JsonText} {value : Json}
      (hname : SpellsText cs name) (hbefore : Blank before) (hafter : Blank after)
      (hvalue : Spells ds value) :
      SpellsMember (cs ++ (before ++ ':' :: (after ++ ds))) (name, value)

/-- The spellings of the members of an object after its first, with the closing brace. -/
inductive SpellsMembers : List Char → List (JsonText × Json) → Prop
  | close {space : List Char} (hspace : Blank space) : SpellsMembers (space ++ ['\x7d']) []
  | comma {before after cs ds : List Char} {member : JsonText × Json}
      {more : List (JsonText × Json)} (hbefore : Blank before) (hafter : Blank after)
      (hmember : SpellsMember cs member) (hmore : SpellsMembers ds more) :
      SpellsMembers (before ++ ',' :: (after ++ (cs ++ ds))) (member :: more)

end

/-- The documents that hold a value. -/
inductive SpellsDocument : String → Json → Prop
  | around {document : String} {value : Json} {before cs after : List Char}
      (hlist : document.toList = before ++ (cs ++ after)) (hbefore : Blank before)
      (hvalue : Spells cs value) (hafter : Blank after) : SpellsDocument document value

/-! ## What follows a value -/

/-- What may follow a value: nothing that a number could go on with. -/
def EndsValue (rest : List Char) : Prop :=
  ∀ c ∈ rest.head?, Decimal.isDigit c = false ∧ c ≠ '.' ∧ c ≠ 'e' ∧ c ≠ 'E'

theorem endsValue_nil : EndsValue [] := by
  intro c hc
  cases hc

theorem endsValue_of_isSpace {c : Char} (h : isSpace c = true) (cs : List Char) :
    EndsValue (c :: cs) := by
  intro own hown
  obtain rfl : c = own := Option.some.inj hown
  simp only [isSpace, Bool.or_eq_true, beq_iff_eq] at h
  rcases h with ((rfl | rfl) | rfl) | rfl <;> decide

theorem endsValue_append {space : List Char} (hspace : Blank space) {cs : List Char}
    (hcs : EndsValue cs) : EndsValue (space ++ cs) := by
  cases space with
  | nil => exact hcs
  | cons c space => exact endsValue_of_isSpace (hspace c List.mem_cons_self) _

theorem endsValue_punctuation {c : Char} (h : c ∈ [',', ']', '\x7d']) (cs : List Char) :
    EndsValue (c :: cs) := by
  intro own hown
  obtain rfl : c = own := Option.some.inj hown
  simp only [List.mem_cons, List.not_mem_nil, or_false] at h
  rcases h with rfl | rfl | rfl <;> decide

theorem endsValue_items {cs : List Char} {items : List Json} (h : SpellsItems cs items)
    (rest : List Char) : EndsValue (cs ++ rest) := by
  cases h with
  | close hspace =>
    rw [List.append_assoc]
    exact endsValue_append hspace (endsValue_punctuation (by decide) _)
  | comma hbefore =>
    rw [List.append_assoc]
    exact endsValue_append hbefore (endsValue_punctuation (by decide) _)

theorem endsValue_members {cs : List Char} {members : List (JsonText × Json)}
    (h : SpellsMembers cs members) (rest : List Char) : EndsValue (cs ++ rest) := by
  cases h with
  | close hspace =>
    rw [List.append_assoc]
    exact endsValue_append hspace (endsValue_punctuation (by decide) _)
  | comma hbefore =>
    rw [List.append_assoc]
    exact endsValue_append hbefore (endsValue_punctuation (by decide) _)

theorem isSpace_of_isDigit {c : Char} (h : Decimal.isDigit c = true) : isSpace c = false := by
  rw [← Bool.not_eq_true]
  intro hspace
  have hends := (endsValue_of_isSpace hspace [] c rfl).1
  rw [h] at hends
  cases hends

theorem ne_of_isDigit {c letter : Char} (h : Decimal.isDigit c = true)
    (hletter : Decimal.isDigit letter = false) : c ≠ letter := by
  rintro rfl
  rw [h] at hletter
  cases hletter

/-! ## Numbers -/

theorem isRun_digits (n : Nat) : IsRun (Decimal.digits n) :=
  ⟨Decimal.digits_ne_nil n, fun _ => Decimal.isDigit_of_mem_digits⟩

theorem digitRun_append {run rest : List Char} (hrun : IsRun run)
    (hrest : ∀ c ∈ rest.head?, Decimal.isDigit c = false) :
    digitRun (run ++ rest) = some (run, rest) := by
  have hstop : rest.takeWhile Decimal.isDigit = [] ∧ rest.dropWhile Decimal.isDigit = rest := by
    cases rest with
    | nil => exact ⟨rfl, rfl⟩
    | cons c rest =>
      have hc := hrest c rfl
      simp [hc]
  rw [digitRun, List.span_eq_takeWhile_dropWhile, List.takeWhile_append_of_pos hrun.2,
    List.dropWhile_append_of_pos hrun.2, hstop.1, hstop.2, List.append_nil]
  cases run with
  | nil => exact absurd rfl hrun.1
  | cons c run => rfl

theorem head?_digits_eq_zero {n : Nat} (h : (Decimal.digits n).head? = some '0') : n = 0 := by
  fun_induction Decimal.digits n with
  | case1 n hn =>
    have table : ∀ v ∈ List.range 10, some (Decimal.digit v) = some '0' → v = 0 := by decide
    exact table n (List.mem_range.mpr hn) h
  | case2 n hn ih =>
    have hhead : (Decimal.digits (n / 10)).head? = some '0' := by
      obtain ⟨c, cs, hdigits⟩ := List.exists_cons_of_ne_nil (Decimal.digits_ne_nil (n / 10))
      rw [hdigits] at h ⊢
      exact h
    have hzero := ih hhead
    omega

theorem wholeNumber_digits (n : Nat) {rest : List Char}
    (h : ∀ c ∈ rest.head?, Decimal.isDigit c = false) :
    wholeNumber (Decimal.digits n ++ rest) = some (n, rest) := by
  simp only [wholeNumber, digitRun_append (isRun_digits n) h, Decimal.value_digits]
  rw [if_neg]
  rintro ⟨hhead, hlength⟩
  rw [head?_digits_eq_zero hhead, Decimal.digits] at hlength
  exact hlength rfl

section Parts

variable {cs rest : List Char} {given : Bool}

/-- Neither digits nor a point go on where an exponent begins or a number ends. -/
theorem head?_exponent (h : IsExponent cs given) (hrest : EndsValue rest) :
    ∀ c ∈ (cs ++ rest).head?, Decimal.isDigit c = false ∧ c ≠ '.' := by
  intro c hc
  cases h with
  | absent => exact ⟨(hrest c hc).1, (hrest c hc).2.1⟩
  | letter he =>
    obtain rfl := Option.some.inj hc
    rcases he with rfl | rfl <;> decide

theorem exponent_append (h : IsExponent cs given) (hrest : EndsValue rest) :
    exponent (cs ++ rest) = some (given, rest) := by
  cases h with
  | absent =>
    cases rest with
    | nil => rfl
    | cons c rest =>
      obtain ⟨-, -, he, hE⟩ := hrest c rfl
      rw [List.nil_append, exponent.eq_def]
      split
      · rename_i heq
        exact absurd (List.cons.inj heq).1 he
      · rename_i heq
        exact absurd (List.cons.inj heq).1 hE
      · rfl
  | @letter e sign run he hsign hrun =>
    have hread := digitRun_append hrun fun c hc => (hrest c hc).1
    have hskip : skipSign (sign ++ (run ++ rest)) = run ++ rest := by
      rcases hsign with rfl | rfl | rfl
      · obtain ⟨c, cs, rfl⟩ := List.exists_cons_of_ne_nil hrun.1
        have hc := hrun.2 c List.mem_cons_self
        rw [List.nil_append, skipSign.eq_def]
        split
        · rename_i heq
          exact absurd (List.cons.inj heq).1 (ne_of_isDigit hc rfl)
        · rename_i heq
          exact absurd (List.cons.inj heq).1 (ne_of_isDigit hc rfl)
        · rfl
      · rfl
      · rfl
    rw [List.cons_append, List.append_assoc]
    rcases he with rfl | rfl <;> rw [exponent, hskip, hread, Option.map_some]

theorem fraction_append (h : IsFraction cs given)
    (hrest : ∀ c ∈ rest.head?, Decimal.isDigit c = false ∧ c ≠ '.') :
    fraction (cs ++ rest) = some (given, rest) := by
  cases h with
  | absent =>
    cases rest with
    | nil => rfl
    | cons c rest =>
      rw [List.nil_append, fraction.eq_def]
      split
      · rename_i heq
        exact absurd (List.cons.inj heq).1 (hrest c rfl).2
      · rfl
  | point hrun =>
    rw [List.cons_append, fraction, digitRun_append hrun fun c hc => (hrest c hc).1,
      Option.map_some]

theorem head?_fraction (h : IsFraction cs given)
    (hrest : ∀ c ∈ rest.head?, Decimal.isDigit c = false ∧ c ≠ '.') :
    ∀ c ∈ (cs ++ rest).head?, Decimal.isDigit c = false := by
  intro c hc
  cases h with
  | absent => exact (hrest c hc).1
  | point hrun =>
    obtain rfl := Option.some.inj hc
    rfl

end Parts

theorem readUnsigned_digits (exact : Bool) (n : Nat) {fraction exponent rest : List Char}
    {hasFraction hasExponent : Bool} (hf : IsFraction fraction hasFraction)
    (he : IsExponent exponent hasExponent) (hrest : EndsValue rest) :
    readUnsigned exact (Decimal.digits n ++ (fraction ++ (exponent ++ rest))) =
      some (if exact && !hasFraction && !hasExponent then .natural n else .otherNumber, rest) := by
  have hhead := head?_exponent he hrest
  simp only [readUnsigned, wholeNumber_digits n (head?_fraction hf hhead), fraction_append hf hhead,
    exponent_append he hrest, Option.bind_eq_bind, Option.bind_some, Option.pure_def]

theorem exists_digits_eq_cons (n : Nat) :
    ∃ c cs, Decimal.digits n = c :: cs ∧ Decimal.isDigit c = true := by
  obtain ⟨c, cs, hdigits⟩ := List.exists_cons_of_ne_nil (Decimal.digits_ne_nil n)
  have hmem : c ∈ Decimal.digits n := by
    rw [hdigits]
    exact List.mem_cons_self
  exact ⟨c, cs, hdigits, Decimal.isDigit_of_mem_digits hmem⟩

theorem readNumber_digits (n : Nat) (cs : List Char) :
    readNumber (Decimal.digits n ++ cs) = readUnsigned true (Decimal.digits n ++ cs) := by
  obtain ⟨c, more, hdigits, hc⟩ := exists_digits_eq_cons n
  rw [hdigits, List.cons_append, readNumber.eq_def]
  split
  · rename_i heq
    exact absurd (List.cons.inj heq).1 (ne_of_isDigit hc rfl)
  · rfl

theorem readNumber_of_spells {cs rest : List Char} {value : Json} (h : SpellsNumber cs value)
    (hrest : EndsValue rest) : readNumber (cs ++ rest) = some (value, rest) := by
  cases h with
  | natural n =>
    rw [readNumber_digits]
    exact readUnsigned_digits true n .absent .absent hrest
  | @negative n _ _ _ _ hf he =>
    simp only [List.cons_append, List.append_assoc, readNumber,
      readUnsigned_digits false n hf he hrest, Bool.false_and, Bool.false_eq_true, if_false]
  | @inexact n _ _ hasFraction hasExponent hf he h =>
    have hexact : ¬ (true && !hasFraction && !hasExponent) = true := by
      cases hasFraction <;> cases hasExponent <;> simp_all
    simp only [List.append_assoc, readNumber_digits, readUnsigned_digits true n hf he hrest,
      if_neg hexact]

/-- A number begins with a digit or a sign. -/
theorem exists_eq_cons_of_number {cs : List Char} {value : Json} (h : SpellsNumber cs value) :
    ∃ c more, cs = c :: more ∧ (Decimal.isDigit c = true ∨ c = '-') := by
  have hdigits (n : Nat) (rest : List Char) : ∃ c more, Decimal.digits n ++ rest = c :: more ∧
      (Decimal.isDigit c = true ∨ c = '-') := by
    obtain ⟨c, more, hdigits, hc⟩ := exists_digits_eq_cons n
    exact ⟨c, more ++ rest, by rw [hdigits, List.cons_append], .inl hc⟩
  cases h with
  | natural n =>
    rw [← List.append_nil (Decimal.digits n)]
    exact hdigits n []
  | negative => exact ⟨_, _, rfl, .inr rfl⟩
  | inexact => exact hdigits _ _

/-- No other value begins as a number does. -/
theorem readValue_number {c : Char} (h : Decimal.isDigit c = true ∨ c = '-') (fuel : Nat)
    (cs : List Char) : readValue (fuel + 1) (c :: cs) = readNumber (c :: cs) := by
  have hspace : isSpace c = false := by
    rcases h with h | rfl
    · exact isSpace_of_isDigit h
    · rfl
  have hne {letter : Char} (hletter : Decimal.isDigit letter = false ∧ letter ≠ '-') :
      c ≠ letter := by
    rcases h with h | rfl
    · exact ne_of_isDigit h hletter.1
    · exact hletter.2.symm
  rw [readValue, skipSpace_cons hspace]
  split
  case h_7 => rfl
  all_goals
    rename_i heq
    exact absurd (List.cons.inj heq).1 (hne (by decide))

/-! ## Values -/

/-- A value is not mistaken for white space or the end of a list. -/
theorem exists_eq_cons_of_spells {cs : List Char} {value : Json} (h : Spells cs value) :
    ∃ c more, cs = c :: more ∧ isSpace c = false ∧ c ≠ ']' := by
  cases h with
  | number h =>
    obtain ⟨c, more, rfl, hc⟩ := exists_eq_cons_of_number h
    refine ⟨c, more, rfl, ?_⟩
    rcases hc with hc | rfl
    · exact ⟨isSpace_of_isDigit hc, ne_of_isDigit hc rfl⟩
    · decide
  | string h =>
    obtain ⟨body, rfl, -⟩ := readText_of_spells h
    exact ⟨_, _, rfl, by decide⟩
  | _ => exact ⟨_, _, rfl, by decide⟩

theorem exists_eq_cons_of_member {cs : List Char} {member : JsonText × Json}
    (h : SpellsMember cs member) : ∃ more, cs = '"' :: more := by
  obtain ⟨hname⟩ := h
  obtain ⟨body, rfl, -⟩ := readText_of_spells hname
  exact ⟨_, rfl⟩

section Blank

variable {space : List Char} (h : Blank space) (fuel : Nat) (cs : List Char)

include h

theorem readValue_append : readValue fuel (space ++ cs) = readValue fuel cs := by
  cases fuel with
  | zero => rfl
  | succ fuel => simp only [readValue, skipSpace_append h]

theorem readMember_append : readMember fuel (space ++ cs) = readMember fuel cs := by
  cases fuel with
  | zero => rfl
  | succ fuel => simp only [readMember, skipSpace_append h]

end Blank

mutual

/-- A value is read from any of its spellings, whatever follows that a number does not go on
    with. -/
theorem readValue_of_spells {cs : List Char} {value : Json} (h : Spells cs value) (fuel : Nat)
    (rest : List Char) (hfuel : cs.length ≤ fuel) (hrest : EndsValue rest) :
    readValue fuel (cs ++ rest) = some (value, rest) := by
  obtain ⟨fuel, rfl⟩ : ∃ less, fuel = less + 1 := by
    obtain ⟨c, more, hcons, -⟩ := exists_eq_cons_of_spells h
    rw [hcons, List.length_cons] at hfuel
    exact Nat.exists_eq_add_one.mpr (by omega)
  match h with
  | .null => simp [readValue, skipSpace_cons (c := 'n') rfl]
  | .true => simp [readValue, skipSpace_cons (c := 't') rfl]
  | .false => simp [readValue, skipSpace_cons (c := 'f') rfl]
  | .number hnumber =>
    obtain ⟨c, more, hcons, hc⟩ := exists_eq_cons_of_number hnumber
    rw [← readNumber_of_spells hnumber hrest, hcons, List.cons_append, readValue_number hc]
  | .string htext =>
    obtain ⟨body, rfl, hread⟩ := readText_of_spells htext
    simp [readValue, skipSpace_cons (c := '"') rfl, hread]
  | .emptyArray hspace =>
    simp [readValue, skipSpace_cons (c := '[') rfl, skipSpace_append_cons hspace (c := ']') rfl]
  | .array hspace hfirst hmore =>
    simp only [List.length_cons, List.length_append] at hfuel
    have hvalue := readValue_of_spells hfirst fuel _ (by omega) (endsValue_items hmore rest)
    have hitems := readItems_of_spells hmore fuel rest (by omega)
    obtain ⟨c, more, rfl, hc, hbracket⟩ := exists_eq_cons_of_spells hfirst
    rw [List.cons_append] at hvalue
    simp only [List.cons_append, List.append_assoc, readValue, skipSpace_cons (c := '[') rfl,
      skipSpace_append_cons hspace hc]
    split
    · rename_i heq
      exact absurd (List.cons.inj heq).1 hbracket
    · simp only [hvalue, hitems]
  | .emptyObject hspace =>
    simp [readValue, skipSpace_cons (c := '\x7b') rfl,
      skipSpace_append_cons hspace (c := '\x7d') rfl]
  | .object hspace hfirst hmore =>
    simp only [List.length_cons, List.length_append] at hfuel
    have hmember := readMember_of_spells hfirst fuel _ (by omega) (endsValue_members hmore rest)
    have hmembers := readMembers_of_spells hmore fuel rest (by omega)
    obtain ⟨body, rfl⟩ := exists_eq_cons_of_member hfirst
    rw [List.cons_append] at hmember
    simp only [List.cons_append, List.append_assoc, readValue, skipSpace_cons (c := '\x7b') rfl,
      skipSpace_append_cons hspace (c := '"') rfl]
    split
    · rename_i heq
      exact absurd (List.cons.inj heq).1 (by decide)
    · simp only [hmember, hmembers]

/-- The items of an array after its first are read from any of their spellings. -/
theorem readItems_of_spells {cs : List Char} {items : List Json} (h : SpellsItems cs items)
    (fuel : Nat) (rest : List Char) (hfuel : cs.length ≤ fuel) :
    readItems fuel (cs ++ rest) = some (items, rest) := by
  match h with
  | .close hspace =>
    simp only [List.length_append, List.length_cons, List.length_nil] at hfuel
    obtain ⟨fuel, rfl⟩ : ∃ less, fuel = less + 1 := Nat.exists_eq_add_one.mpr (by omega)
    simp [readItems, skipSpace_append_cons hspace (c := ']') rfl]
  | .comma hbefore hafter hitem hmore =>
    simp only [List.length_append, List.length_cons] at hfuel
    obtain ⟨fuel, rfl⟩ : ∃ less, fuel = less + 1 := Nat.exists_eq_add_one.mpr (by omega)
    have hvalue := readValue_of_spells hitem fuel _ (by omega) (endsValue_items hmore rest)
    have hitems := readItems_of_spells hmore fuel rest (by omega)
    simp only [List.cons_append, List.append_assoc, readItems,
      skipSpace_append_cons hbefore (c := ',') rfl, readValue_append hafter, hvalue, hitems]

/-- A member is read from any of its spellings, whatever follows its value. -/
theorem readMember_of_spells {cs : List Char} {member : JsonText × Json}
    (h : SpellsMember cs member) (fuel : Nat) (rest : List Char) (hfuel : cs.length ≤ fuel)
    (hrest : EndsValue rest) : readMember fuel (cs ++ rest) = some (member, rest) := by
  match h with
  | .colon hname hbefore hafter hvalue =>
    simp only [List.length_append, List.length_cons] at hfuel
    obtain ⟨fuel, rfl⟩ : ∃ less, fuel = less + 1 := Nat.exists_eq_add_one.mpr (by omega)
    have hread := readValue_of_spells hvalue fuel rest (by omega) hrest
    obtain ⟨body, rfl, htext⟩ := readText_of_spells hname
    simp only [List.cons_append, List.append_assoc, readMember, skipSpace_cons (c := '"') rfl,
      htext, skipSpace_append_cons hbefore (c := ':') rfl, readValue_append hafter, hread]

/-- The members of an object after its first are read from any of their spellings. -/
theorem readMembers_of_spells {cs : List Char} {members : List (JsonText × Json)}
    (h : SpellsMembers cs members) (fuel : Nat) (rest : List Char) (hfuel : cs.length ≤ fuel) :
    readMembers fuel (cs ++ rest) = some (members, rest) := by
  match h with
  | .close hspace =>
    simp only [List.length_append, List.length_cons, List.length_nil] at hfuel
    obtain ⟨fuel, rfl⟩ : ∃ less, fuel = less + 1 := Nat.exists_eq_add_one.mpr (by omega)
    simp [readMembers, skipSpace_append_cons hspace (c := '\x7d') rfl]
  | .comma hbefore hafter hmember hmore =>
    simp only [List.length_append, List.length_cons] at hfuel
    obtain ⟨fuel, rfl⟩ : ∃ less, fuel = less + 1 := Nat.exists_eq_add_one.mpr (by omega)
    have hfirst := readMember_of_spells hmember fuel _ (by omega) (endsValue_members hmore rest)
    have hmembers := readMembers_of_spells hmore fuel rest (by omega)
    simp only [List.cons_append, List.append_assoc, readMembers,
      skipSpace_append_cons hbefore (c := ',') rfl, readMember_append hafter, hfirst, hmembers]

end

/-- Every document that spells a value is read as that value. -/
theorem parse_of_spells {document : String} {value : Json} (h : SpellsDocument document value) :
    parse document = some value := by
  obtain ⟨hlist, hbefore, hvalue, hafter⟩ := h
  rename_i before cs after
  have hends : EndsValue after := by
    rw [← List.append_nil after]
    exact endsValue_append hafter endsValue_nil
  have hread := readValue_of_spells hvalue (2 * document.toList.length + 1) after
    (by simp only [hlist, List.length_append]; omega) hends
  rw [← readValue_append hbefore, ← hlist] at hread
  simp only [parse, hread, skipSpace_blank hafter, if_true]

end ShardVault.Json
