import ShardVault.Json.Reader
import ShardVault.Json.Writer

/-!
Strings of documents.  `SpellsText` tells how a string can be spelled: a character by itself or by
an escape, a code unit by its hexadecimal digits.  Every spelling is read as the string that it
spells (`readText_of_spells`), and what is written for a string is one (`spells_writeText`).
-/

namespace ShardVault.Json

/-! ## Spellings -/

/-- The spellings of one piece of a string. -/
inductive SpellsPiece : List Char → Piece → Prop
  | plain {c : Char} (hquote : c ≠ '"') (hescape : c ≠ '\\') (hcontrol : 0x20 ≤ c.toNat) :
      SpellsPiece [c] (.char c)
  | escape {e c : Char} (h : escape? e = some c) : SpellsPiece ['\\', e] (.char c)
  | unit {a b c d : Char} {code : Nat} (h : unit? a b c d = some code) :
      SpellsPiece ['\\', 'u', a, b, c, d] (.unit code)

/-- The spellings of a run of pieces. -/
inductive SpellsPieces : List Char → List Piece → Prop
  | nil : SpellsPieces [] []
  | cons {cs more : List Char} {piece : Piece} {rest : List Piece} (first : SpellsPiece cs piece)
      (others : SpellsPieces more rest) : SpellsPieces (cs ++ more) (piece :: rest)

/-- The spellings of a string, with its quotes. -/
inductive SpellsText : List Char → JsonText → Prop
  | quoted {cs : List Char} {body : List Piece} (h : SpellsPieces cs body) :
      SpellsText ('"' :: (cs ++ ['"'])) ((joined body).map String.ofList)

/-! ## Reading -/

theorem pieces_of_spells {cs : List Char} {piece : Piece} (h : SpellsPiece cs piece)
    (rest : List Char) :
    pieces (cs ++ rest) = (pieces rest).map fun (more, rest) => (piece :: more, rest) := by
  cases h with
  | plain hquote hescape hcontrol =>
    rw [List.singleton_append, pieces.eq_5 _ rest hquote
      (fun _ _ _ _ _ h => absurd h hescape) (fun _ _ h => absurd h hescape),
      if_neg (Nat.not_lt.mpr hcontrol)]
    cases pieces rest <;> rfl
  | @escape e c h =>
    have hu : e ≠ 'u' := by
      rintro rfl
      cases h
    change pieces ('\\' :: e :: rest) = _
    rw [pieces.eq_4 e rest (fun _ _ _ _ _ he => absurd he hu), h]
    cases pieces rest <;> rfl
  | @unit a b c d code h =>
    change pieces ('\\' :: 'u' :: a :: b :: c :: d :: rest) = _
    rw [pieces, h]
    cases pieces rest <;> rfl

/-- Every spelling of a string is a quote and what is read as the string after a quote. -/
theorem readText_of_spells {cs : List Char} {text : JsonText} (h : SpellsText cs text) :
    ∃ body, cs = '"' :: body ∧ ∀ rest, readText (body ++ rest) = some (text, rest) := by
  obtain ⟨hbody⟩ := h
  refine ⟨_, rfl, fun rest => ?_⟩
  rw [readText, List.append_assoc, List.singleton_append]
  suffices hpieces : ∀ {cs body}, SpellsPieces cs body →
      pieces (cs ++ '"' :: rest) = some (body, rest) by
    rw [hpieces hbody]
    rfl
  intro cs body h
  induction h with
  | nil => rw [List.nil_append, pieces]
  | cons first others ih =>
    rw [List.append_assoc, pieces_of_spells first, ih]
    rfl

/-! ## Writing -/

theorem hexValue?_digit {value : Nat} (h : value < 16) :
    hexValue? (Hex.digit value) = some value := by
  have table : ∀ v ∈ List.range 16, hexValue? (Hex.digit v) = some v := by decide
  exact table value (List.mem_range.mpr h)

/-- An escape of a code unit below the surrogates is a character by itself. -/
theorem joined_unit {code : Nat} (h : code < 0xD800) (more : List Piece) :
    joined (.unit code :: more) = (joined more).map (Char.ofNat code :: ·) := by
  have hhigh : isHighSurrogate code = false := by
    rw [isHighSurrogate, decide_eq_false_iff_not]
    omega
  have hlow : isLowSurrogate code = false := by
    rw [isLowSurrogate, decide_eq_false_iff_not]
    omega
  cases more with
  | nil => simp [joined, hhigh, hlow]
  | cons piece rest => cases piece <;> simp [joined, hhigh, hlow]

theorem unit?_control {code : Nat} (h : code < 256) :
    unit? '0' '0' (Hex.digit (code / 16)) (Hex.digit (code % 16)) = some code := by
  have hzero : hexValue? '0' = some 0 := rfl
  have hhigh := hexValue?_digit (show code / 16 < 16 by omega)
  have hlow := hexValue?_digit (show code % 16 < 16 by omega)
  have hcode : code / 16 * 16 + code % 16 = code := by omega
  simp [unit?, hzero, hhigh, hlow, hcode]

/-- What is written for a character spells one piece, and the piece stands for the character. -/
theorem spells_writeChar (c : Char) :
    ∃ piece, SpellsPiece (writeChar c) piece ∧
      ∀ more, joined (piece :: more) = (joined more).map (c :: ·) := by
  by_cases hquote : c = '"'
  · subst hquote
    exact ⟨.char '"', .escape rfl, fun _ => by rw [joined]⟩
  by_cases hescape : c = '\\'
  · subst hescape
    exact ⟨.char '\\', .escape rfl, fun _ => by rw [joined]⟩
  by_cases hletter : c ∈ ['\x08', '\t', '\n', '\x0c', '\r']
  · refine ⟨.char c, ?_, fun _ => by rw [joined]⟩
    simp only [List.mem_cons, List.not_mem_nil, or_false] at hletter
    rcases hletter with rfl | rfl | rfl | rfl | rfl <;> exact .escape rfl
  simp only [List.mem_cons, List.not_mem_nil, or_false, not_or] at hletter
  obtain ⟨hb, ht, hn, hf, hr⟩ := hletter
  simp only [writeChar, if_neg hquote, if_neg hescape, if_neg hb, if_neg ht, if_neg hn, if_neg hf,
    if_neg hr]
  split
  · rename_i hcontrol
    refine ⟨.unit c.toNat, .unit (unit?_control (by omega)), fun more => ?_⟩
    rw [joined_unit (by omega), Char.ofNat_toNat]
  · rename_i hcontrol
    exact ⟨.char c, .plain hquote hescape (Nat.not_lt.mp hcontrol), fun _ => by rw [joined]⟩

theorem spells_flatMap_writeChar (text : List Char) :
    ∃ body, SpellsPieces (text.flatMap writeChar) body ∧ joined body = some text := by
  induction text with
  | nil => exact ⟨[], .nil, rfl⟩
  | cons c text ih =>
    obtain ⟨body, hbody, hjoined⟩ := ih
    obtain ⟨piece, hpiece, hcons⟩ := spells_writeChar c
    refine ⟨piece :: body, .cons hpiece hbody, ?_⟩
    rw [hcons, hjoined]
    rfl

/-- What is written for a string spells it. -/
theorem spells_writeText (text : JsonText) : SpellsText (writeText text) text := by
  cases text with
  | none =>
    have hhalf : SpellsPiece ['\\', 'u', 'd', '8', '0', '0'] (.unit 0xD800) := .unit rfl
    exact .quoted (.cons hhalf .nil)
  | some text =>
    obtain ⟨body, hbody, hjoined⟩ := spells_flatMap_writeChar text.toList
    have hquoted := SpellsText.quoted hbody
    rwa [hjoined, Option.map_some, String.ofList_toList] at hquoted

end ShardVault.Json
