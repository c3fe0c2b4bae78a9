import Mathlib.Data.List.Induction
import Mathlib.Data.List.TakeWhile
import ShardVault.Proofs.Json.Grammar

/-!
The reader reads no more than the grammar.  Whatever a function of the reader takes from the front
of its input is a spelling of what it returns, so a document is read as a value exactly if it spells
the value (`parse_eq_some_iff`).
-/

namespace ShardVault

namespace Decimal

theorem value_concat (run : List Char) (c : Char) :
    value (run ++ [c]) = 10 * value run + digitValue c := by
  rw [value, List.foldl_append, List.foldl_cons, List.foldl_nil, value]

theorem digit_digitValue {c : Char} (h : isDigit c = true) :
    digitValue c < 10 ∧ digit (digitValue c) = c := by
  rw [isDigit, decide_eq_true_iff] at h
  have hlow : 48 ≤ c.toNat := h.1
  have hhigh : c.toNat ≤ 57 := h.2
  have hsum : 48 + (c.toNat - 48) = c.toNat := by omega
  rw [digitValue, digit, hsum, Char.ofNat_toNat]
  exact ⟨by omega, rfl⟩

/-- A run of digits without a leading zero is the notation of its number. -/
theorem digits_value {run : List Char} (hne : run ≠ []) (hrun : ∀ c ∈ run, isDigit c = true)
    (hzero : run.head? = some '0' → run.length = 1) : digits (value run) = run := by
  induction run using List.reverseRecOn with
  | nil => exact absurd rfl hne
  | append_singleton front c ih =>
    rw [List.forall_mem_append, List.forall_mem_singleton] at hrun
    obtain ⟨hlt, hc⟩ := digit_digitValue hrun.2
    rw [value_concat]
    by_cases hfront : front = []
    · subst hfront
      rw [value, List.foldl_nil, digits, if_pos (by omega), Nat.mul_zero, Nat.zero_add, hc,
        List.nil_append]
    · have hhead : front.head? ≠ some '0' := by
        intro hhead
        have hlength := hzero (by rw [List.head?_append, hhead]; rfl)
        rw [List.length_append, List.length_singleton] at hlength
        exact hfront (List.length_eq_zero_iff.mp (by omega))
      have hdigits := ih hfront hrun.1 fun h => absurd h hhead
      have hpos : value front ≠ 0 := by
        intro hvalue
        rw [hvalue, digits] at hdigits
        exact hhead (by rw [← hdigits]; rfl)
      rw [digits, if_neg (by omega), show (10 * value front + digitValue c) / 10 = value front by
        omega, show (10 * value front + digitValue c) % 10 = digitValue c by omega, hdigits, hc]

end Decimal

namespace Json

/-! ## Strings -/

theorem exists_of_pieces {cs rest : List Char} {body : List Piece}
    (h : pieces cs = some (body, rest)) :
    ∃ own, cs = own ++ '"' :: rest ∧ SpellsPieces own body := by
  fun_induction pieces cs generalizing body with
  | case1 => cases h
  | case2 more =>
    cases h
    exact ⟨[], rfl, .nil⟩
  | case3 a b c d more code others rest' hread hunit ih =>
    cases h
    obtain ⟨own, rfl, hothers⟩ := ih hread
    exact ⟨_, rfl, .cons (.unit hunit) hothers⟩
  | case4 => cases h
  | case5 e more hu c others rest' hread hescape ih =>
    cases h
    obtain ⟨own, rfl, hothers⟩ := ih hread
    exact ⟨_, rfl, .cons (.escape hescape) hothers⟩
  | case6 => cases h
  | case7 => cases h
  | case8 c more hquote hu hescape hcontrol others rest' hread ih =>
    cases h
    obtain ⟨own, rfl, hothers⟩ := ih hread
    have hplain : c ≠ '\\' := by
      intro hc
      cases own with
      | nil => exact hescape _ _ hc rfl
      | cons d own => exact hescape _ _ hc rfl
    exact ⟨_, rfl, .cons (.plain hquote hplain (Nat.not_lt.mp hcontrol)) hothers⟩
  | case9 => cases h

theorem exists_of_readText {cs rest : List Char} {text : JsonText}
    (h : readText cs = some (text, rest)) :
    ∃ own, cs = own ++ rest ∧ SpellsText ('"' :: own) text := by
  obtain ⟨⟨body, more⟩, hpieces, hread⟩ := Option.map_eq_some_iff.mp h
  cases hread
  obtain ⟨own, rfl, hbody⟩ := exists_of_pieces hpieces
  exact ⟨own ++ ['"'], by simp, .quoted hbody⟩

/-! ## Numbers -/

theorem eq_of_digitRun {cs run rest : List Char} (h : digitRun cs = some (run, rest)) :
    cs = run ++ rest ∧ IsRun run := by
  rw [digitRun, List.span_eq_takeWhile_dropWhile] at h
  split at h
  · cases h
  · rename_i hne heq
    cases h
    cases heq
    exact ⟨List.takeWhile_append_dropWhile.symm, hne,
      fun c hc => List.mem_takeWhile_imp hc⟩

theorem eq_of_wholeNumber {cs rest : List Char} {n : Nat}
    (h : wholeNumber cs = some (n, rest)) : cs = Decimal.digits n ++ rest := by
  rw [wholeNumber] at h
  split at h
  · rename_i run more hread
    obtain ⟨rfl, hne, hrun⟩ := eq_of_digitRun hread
    split at h
    · cases h
    · rename_i hzero
      cases h
      rw [not_and_not_right] at hzero
      rw [Decimal.digits_value hne hrun hzero]
  · cases h

theorem exists_of_fraction {cs rest : List Char} {given : Bool}
    (h : fraction cs = some (given, rest)) : ∃ own, cs = own ++ rest ∧ IsFraction own given := by
  rw [fraction.eq_def] at h
  split at h
  · obtain ⟨⟨run, more⟩, hread, hpair⟩ := Option.map_eq_some_iff.mp h
    cases hpair
    obtain ⟨rfl, hrun⟩ := eq_of_digitRun hread
    exact ⟨_, rfl, .point hrun⟩
  · cases h
    exact ⟨[], rfl, .absent⟩

theorem exists_of_skipSign (cs : List Char) :
    ∃ sign, cs = sign ++ skipSign cs ∧ (sign = [] ∨ sign = ['+'] ∨ sign = ['-']) := by
  rw [skipSign.eq_def]
  split
  · exact ⟨['+'], rfl, .inr (.inl rfl)⟩
  · exact ⟨['-'], rfl, .inr (.inr rfl)⟩
  · exact ⟨[], rfl, .inl rfl⟩

theorem exists_of_letter {e : Char} (he : e = 'e' ∨ e = 'E') {cs run rest : List Char}
    (h : digitRun (skipSign cs) = some (run, rest)) :
    ∃ own, e :: cs = own ++ rest ∧ IsExponent own true := by
  obtain ⟨hsplit, hrun⟩ := eq_of_digitRun h
  obtain ⟨sign, hcs, hsign⟩ := exists_of_skipSign cs
  rw [hsplit] at hcs
  exact ⟨_, by rw [hcs, List.cons_append, List.append_assoc], .letter he hsign hrun⟩

theorem exists_of_exponent {cs rest : List Char} {given : Bool}
    (h : exponent cs = some (given, rest)) : ∃ own, cs = own ++ rest ∧ IsExponent own given := by
  rw [exponent.eq_def] at h
  split at h
  · obtain ⟨⟨run, more⟩, hread, hpair⟩ := Option.map_eq_some_iff.mp h
    cases hpair
    exact exists_of_letter (.inl rfl) hread
  · obtain ⟨⟨run, more⟩, hread, hpair⟩ := Option.map_eq_some_iff.mp h
    cases hpair
    exact exists_of_letter (.inr rfl) hread
  · cases h
    exact ⟨[], rfl, .absent⟩

theorem exists_of_readUnsigned {exact : Bool} {cs rest : List Char} {value : Json}
    (h : readUnsigned exact cs = some (value, rest)) :
    ∃ n fraction exponent hasFraction hasExponent,
      cs = Decimal.digits n ++ (fraction ++ exponent) ++ rest ∧ IsFraction fraction hasFraction ∧
      IsExponent exponent hasExponent ∧
      value = if exact && !hasFraction && !hasExponent then .natural n else .otherNumber := by
  simp only [readUnsigned, Option.bind_eq_bind, Option.bind_eq_some_iff, Prod.exists,
    Option.pure_def, Option.some.injEq, Prod.mk.injEq] at h
  obtain ⟨n, afterWhole, hwhole, hasFraction, afterFraction, hfraction, hasExponent, _, hexponent,
    rfl, rfl⟩ := h
  obtain ⟨own, rfl, hown⟩ := exists_of_fraction hfraction
  obtain ⟨other, rfl, hother⟩ := exists_of_exponent hexponent
  refine ⟨n, own, other, hasFraction, hasExponent, ?_, hown, hother, rfl⟩
  rw [eq_of_wholeNumber hwhole, List.append_assoc, List.append_assoc]

theorem exists_of_readNumber {cs rest : List Char} {value : Json}
    (h : readNumber cs = some (value, rest)) :
    ∃ own, cs = own ++ rest ∧ SpellsNumber own value := by
  rw [readNumber.eq_def] at h
  split at h
  · obtain ⟨n, _, _, _, _, rfl, hf, he, rfl⟩ := exists_of_readUnsigned h
    exact ⟨_, rfl, .negative hf he⟩
  · obtain ⟨n, _, _, hasFraction, hasExponent, rfl, hf, he, rfl⟩ := exists_of_readUnsigned h
    refine ⟨_, rfl, ?_⟩
    split
    · rename_i hexact
      cases hf with
      | point => cases hexact
      | absent =>
        cases he with
        | letter => cases hexact
        | absent =>
          rw [List.append_nil, List.append_nil]
          exact .natural n
    · rename_i hexact
      refine .inexact hf he ?_
      cases hasFraction <;> cases hasExponent <;> simp_all

/-! ## Values -/

theorem exists_of_skipSpace (cs : List Char) :
    ∃ space, Blank space ∧ cs = space ++ skipSpace cs :=
  ⟨cs.takeWhile isSpace, fun _ hc => List.mem_takeWhile_imp hc,
    List.takeWhile_append_dropWhile.symm⟩

mutual

/-- What is read as a value is white space and a spelling of the value. -/
theorem exists_of_readValue : ∀ (fuel : Nat) {cs rest : List Char} {value : Json},
    readValue fuel cs = some (value, rest) →
      ∃ space own, cs = space ++ (own ++ rest) ∧ Blank space ∧ Spells own value
  | 0, _, _, _, h => by cases h
  | fuel + 1, cs, rest, value, h => by
    obtain ⟨space, hspace, hcs⟩ := exists_of_skipSpace cs
    suffices hown : ∃ own, skipSpace cs = own ++ rest ∧ Spells own value by
      obtain ⟨own, heq, hspells⟩ := hown
      exact ⟨space, own, by rw [← heq, ← hcs], hspace, hspells⟩
    rw [readValue] at h
    split at h
    · rename_i heq
      cases h
      exact ⟨_, heq, .null⟩
    · rename_i heq
      cases h
      exact ⟨_, heq, .true⟩
    · rename_i heq
      cases h
      exact ⟨_, heq, .false⟩
    · rename_i heq
      split at h
      · rename_i hread
        cases h
        obtain ⟨own, rfl, htext⟩ := exists_of_readText hread
        exact ⟨_, heq, .string htext⟩
      · cases h
    · rename_i after heq
      obtain ⟨inner, hinner, hafter⟩ := exists_of_skipSpace after
      rw [heq]
      split at h
      · rename_i hclose
        cases h
        rw [hclose] at hafter
        exact ⟨_, by rw [hafter]; simp, .emptyArray hinner⟩
      · split at h
        · rename_i hvalue
          split at h
          · rename_i hitems
            cases h
            obtain ⟨before, own, hown, hbefore, hfirst⟩ := exists_of_readValue fuel hvalue
            obtain ⟨more, rfl, hmore⟩ := exists_of_readItems fuel hitems
            exact ⟨_, by rw [hafter, hown]; simp, .array (hinner.append hbefore) hfirst hmore⟩
          · cases h
        · cases h
    · rename_i after heq
      obtain ⟨inner, hinner, hafter⟩ := exists_of_skipSpace after
      rw [heq]
      split at h
      · rename_i hclose
        cases h
        rw [hclose] at hafter
        exact ⟨_, by rw [hafter]; simp, .emptyObject hinner⟩
      · split at h
        · rename_i hmember
          split at h
          · rename_i hmembers
            cases h
            obtain ⟨before, own, hown, hbefore, hfirst⟩ := exists_of_readMember fuel hmember
            obtain ⟨more, rfl, hmore⟩ := exists_of_readMembers fuel hmembers
            exact ⟨_, by rw [hafter, hown]; simp, .object (hinner.append hbefore) hfirst hmore⟩
          · cases h
        · cases h
    · obtain ⟨own, hown, hnumber⟩ := exists_of_readNumber h
      exact ⟨own, hown, .number hnumber⟩

/-- What is read as the items of an array after its first spells them. -/
theorem exists_of_readItems : ∀ (fuel : Nat) {cs rest : List Char} {items : List Json},
    readItems fuel cs = some (items, rest) → ∃ own, cs = own ++ rest ∧ SpellsItems own items
  | 0, _, _, _, h => by cases h
  | fuel + 1, cs, rest, items, h => by
    obtain ⟨space, hspace, hcs⟩ := exists_of_skipSpace cs
    rw [readItems] at h
    split at h
    · rename_i heq
      cases h
      exact ⟨_, by rw [hcs, heq]; simp, .close hspace⟩
    · rename_i heq
      split at h
      · rename_i hvalue
        split at h
        · rename_i hitems
          cases h
          obtain ⟨after, own, rfl, hafter, hitem⟩ := exists_of_readValue fuel hvalue
          obtain ⟨more, rfl, hmore⟩ := exists_of_readItems fuel hitems
          exact ⟨_, by rw [hcs, heq]; simp, .comma hspace hafter hitem hmore⟩
        · cases h
      · cases h
    · cases h

/-- What is read as a member of an object is white space and a spelling of the member. -/
theorem exists_of_readMember : ∀ (fuel : Nat) {cs rest : List Char} {member : JsonText × Json},
    readMember fuel cs = some (member, rest) →
      ∃ space own, cs = space ++ (own ++ rest) ∧ Blank space ∧ SpellsMember own member
  | 0, _, _, _, h => by cases h
  | fuel + 1, cs, rest, member, h => by
    obtain ⟨space, hspace, hcs⟩ := exists_of_skipSpace cs
    rw [readMember] at h
    split at h
    · rename_i heq
      split at h
      · rename_i name afterName hread
        obtain ⟨before, hbefore, hafterName⟩ := exists_of_skipSpace afterName
        obtain ⟨body, rfl, hname⟩ := exists_of_readText hread
        split at h
        · rename_i hcolon
          split at h
          · rename_i hvalue
            cases h
            obtain ⟨after, own, rfl, hafter, hown⟩ := exists_of_readValue fuel hvalue
            rw [hcolon] at hafterName
            exact ⟨space, _, by rw [hcs, heq, hafterName]; simp, hspace,
              .colon hname hbefore hafter hown⟩
          · cases h
        · cases h
      · cases h
    · cases h

/-- What is read as the members of an object after its first spells them. -/
theorem exists_of_readMembers : ∀ (fuel : Nat) {cs rest : List Char}
    {members : List (JsonText × Json)}, readMembers fuel cs = some (members, rest) →
      ∃ own, cs = own ++ rest ∧ SpellsMembers own members
  | 0, _, _, _, h => by cases h
  | fuel + 1, cs, rest, members, h => by
    obtain ⟨space, hspace, hcs⟩ := exists_of_skipSpace cs
    rw [readMembers] at h
    split at h
    · rename_i heq
      cases h
      exact ⟨_, by rw [hcs, heq]; simp, .close hspace⟩
    · rename_i heq
      split at h
      · rename_i hmember
        split at h
        · rename_i hmembers
          cases h
          obtain ⟨after, own, rfl, hafter, hfirst⟩ := exists_of_readMember fuel hmember
          obtain ⟨more, rfl, hmore⟩ := exists_of_readMembers fuel hmembers
          exact ⟨_, by rw [hcs, heq]; simp, .comma hspace hafter hfirst hmore⟩
        · cases h
      · cases h
    · cases h

end

/-- A document is read as a value exactly if it spells the value. -/
theorem parse_eq_some_iff {document : String} {value : Json} :
    parse document = some value ↔ SpellsDocument document value := by
  refine ⟨fun h => ?_, parse_of_spells⟩
  simp only [parse] at h
  split at h
  · rename_i hread
    split at h
    · rename_i hrest
      cases h
      obtain ⟨before, own, hlist, hbefore, hspells⟩ := exists_of_readValue _ hread
      obtain ⟨after, hafter, heq⟩ := exists_of_skipSpace _
      rw [hrest, List.append_nil] at heq
      rw [heq] at hlist
      exact .around hlist hbefore hspells hafter
    · cases h
  · cases h

end Json

end ShardVault
