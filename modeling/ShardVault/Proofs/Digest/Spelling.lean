import Mathlib.Logic.ExistsUnique
import ShardVault.Proofs.Bytes
import ShardVault.Proofs.Digest

/-!
Spellings of digests, check by check.  Digits are written and read by a library, which is a
parameter here.  It reads digits of either case, and may refuse what it is given; but the length of
a text and its case are checked before.  With what the library documents
(`HexLibrary.Documented`) a text names a digest exactly if it is the one that is written for it, and
nothing that gets to the library is ever refused (`Digest.one_spelling`).
-/

namespace ShardVault

namespace Hex

/-! ## Digits as bytes of a text -/

/-- The value of a hexadecimal digit of either case. -/
def digitValue? (byte : UInt8) : Option Nat :=
  if 48 ≤ byte.toNat ∧ byte.toNat ≤ 57 then some (byte.toNat - 48)
  else if 97 ≤ byte.toNat ∧ byte.toNat ≤ 102 then some (byte.toNat - 87)
  else if 65 ≤ byte.toNat ∧ byte.toNat ≤ 70 then some (byte.toNat - 55)
  else none

/-- Whether a byte is a hexadecimal digit and no capital letter. -/
def isLowercase (byte : UInt8) : Bool :=
  decide (48 ≤ byte.toNat ∧ byte.toNat ≤ 57 ∨ 97 ≤ byte.toNat ∧ byte.toNat ≤ 102)

/-- Two digits for every byte, the high half first, in either case. -/
inductive Spells : Bytes → Bytes → Prop
  | nil : Spells [] []
  | cons {high low byte : UInt8} {digits bytes : Bytes}
      (hhigh : digitValue? high = some (byte.toNat / 16))
      (hlow : digitValue? low = some (byte.toNat % 16)) (hrest : Spells digits bytes) :
      Spells (high :: low :: digits) (byte :: bytes)

theorem Spells.length {digits bytes : Bytes} (h : Spells digits bytes) :
    digits.length = 2 * bytes.length := by
  induction h with
  | nil => rfl
  | cons _ _ _ ih =>
    rw [List.length_cons, List.length_cons, List.length_cons, ih]
    omega

/-- A digit that is no capital letter is known by its value. -/
theorem toNat_of_digitValue? {byte : UInt8} {value : Nat} (hlower : isLowercase byte = true)
    (h : digitValue? byte = some value) :
    byte.toNat = if value < 10 then 48 + value else 87 + value := by
  rw [isLowercase, decide_eq_true_iff] at hlower
  rw [digitValue?] at h
  split at h
  · have hvalue : byte.toNat - 48 = value := Option.some.inj h
    split <;> omega
  · split at h
    · have hvalue : byte.toNat - 87 = value := Option.some.inj h
      split <;> omega
    · omega

theorem exists_digitValue? {byte : UInt8} (hlower : isLowercase byte = true) :
    ∃ value < 16, digitValue? byte = some value := by
  rw [isLowercase, decide_eq_true_iff] at hlower
  rcases hlower with hdigit | hletter
  · exact ⟨_, by omega, if_pos hdigit⟩
  · refine ⟨_, ?_, (if_neg ?_).trans (if_pos hletter)⟩ <;> omega

/-- Of all spellings only one has no capital letters. -/
theorem Spells.unique {digits digits' bytes : Bytes} (h : Spells digits bytes)
    (h' : Spells digits' bytes) (hlower : ∀ digit ∈ digits, isLowercase digit = true)
    (hlower' : ∀ digit ∈ digits', isLowercase digit = true) : digits = digits' := by
  induction h generalizing digits' with
  | nil =>
    cases h'
    rfl
  | cons hhigh hlow _ ih =>
    cases h' with
    | cons hhigh' hlow' hrest' =>
      simp only [List.forall_mem_cons] at hlower hlower'
      have hhighEq := (toNat_of_digitValue? hlower.1 hhigh).trans
        (toNat_of_digitValue? hlower'.1 hhigh').symm
      have hlowEq := (toNat_of_digitValue? hlower.2.1 hlow).trans
        (toNat_of_digitValue? hlower'.2.1 hlow').symm
      rw [UInt8.toNat_inj.mp hhighEq, UInt8.toNat_inj.mp hlowEq,
        ih hrest' hlower.2.2 hlower'.2.2]

/-- An even number of digits spells bytes. -/
theorem exists_spells {digits : Bytes} {count : Nat} (hlength : digits.length = 2 * count)
    (hlower : ∀ digit ∈ digits, isLowercase digit = true) :
    ∃ bytes : Vector UInt8 count, Spells digits bytes.toList := by
  suffices hbytes : ∃ bytes : Bytes, bytes.length = count ∧ Spells digits bytes by
    obtain ⟨bytes, hcount, hspells⟩ := hbytes
    exact ⟨⟨bytes.toArray, hcount⟩, hspells⟩
  induction count generalizing digits with
  | zero =>
    obtain rfl := List.length_eq_zero_iff.mp hlength
    exact ⟨[], rfl, .nil⟩
  | succ count ih =>
    match digits, hlength with
    | high :: low :: rest, hlength =>
      simp only [List.forall_mem_cons] at hlower
      obtain ⟨h, hh, hhigh⟩ := exists_digitValue? hlower.1
      obtain ⟨l, hl, hlow⟩ := exists_digitValue? hlower.2.1
      obtain ⟨bytes, hcount, hspells⟩ :=
        ih (by simp only [List.length_cons] at hlength; omega) hlower.2.2
      have hbyte : (UInt8.ofNat (h * 16 + l)).toNat = h * 16 + l := by
        rw [UInt8.toNat_ofNat']
        omega
      refine ⟨UInt8.ofNat (h * 16 + l) :: bytes, by rw [List.length_cons, hcount],
        .cons ?_ ?_ hspells⟩
      · rw [hbyte, hhigh, show (h * 16 + l) / 16 = h by omega]
      · rw [hbyte, hlow, show (h * 16 + l) % 16 = l by omega]

/-- The bytes of the spelling of a byte string. -/
theorem ofText_text_cons (byte : UInt8) (rest : Bytes) :
    Bytes.ofText (text (byte :: rest)) =
      String.utf8EncodeChar (digit (byte.toNat / 16)) ++
        String.utf8EncodeChar (digit (byte.toNat % 16)) ++ Bytes.ofText (text rest) := by
  simp [Bytes.ofText, text, encode, List.utf8Encode]

theorem utf8EncodeChar_digit {value : Nat} (h : value < 16) :
    ∃ byte, String.utf8EncodeChar (digit value) = [byte] ∧ digitValue? byte = some value ∧
      isLowercase byte = true := by
  have table : ∀ v ∈ List.range 16,
      let byte := (digit v).val.toUInt8
      String.utf8EncodeChar (digit v) = [byte] ∧ digitValue? byte = some v ∧
        isLowercase byte = true := by
    decide
  exact ⟨_, table value (List.mem_range.mpr h)⟩

/-- The spelling of a byte string spells it, without capital letters. -/
theorem spells_ofText_text (bytes : Bytes) :
    Spells (Bytes.ofText (text bytes)) bytes ∧
      ∀ digit ∈ Bytes.ofText (text bytes), isLowercase digit = true := by
  induction bytes with
  | nil => exact ⟨.nil, fun digit hdigit => nomatch hdigit⟩
  | cons byte rest ih =>
    obtain ⟨hspells, hlower⟩ := ih
    have hbyte : byte.toNat < 256 := byte.toNat_lt
    obtain ⟨high, hhigh, hhighValue, hhighLower⟩ :=
      utf8EncodeChar_digit (show byte.toNat / 16 < 16 by omega)
    obtain ⟨low, hlow, hlowValue, hlowLower⟩ :=
      utf8EncodeChar_digit (show byte.toNat % 16 < 16 by omega)
    rw [ofText_text_cons, hhigh, hlow]
    refine ⟨.cons hhighValue hlowValue hspells, ?_⟩
    simp only [List.cons_append, List.nil_append, List.forall_mem_cons]
    exact ⟨hhighLower, hlowLower, hlower⟩

/-- No text but the spelling of a byte string spells it without capital letters. -/
theorem eq_text_of_spells {s : String} {bytes : Bytes} (h : Spells (Bytes.ofText s) bytes)
    (hlower : ∀ digit ∈ Bytes.ofText s, isLowercase digit = true) : s = text bytes := by
  obtain ⟨hspells, hlower'⟩ := spells_ofText_text bytes
  have hbytes := congrArg Bytes.text? (h.unique hspells hlower hlower')
  rwa [Bytes.text?_ofText, Bytes.text?_ofText, Option.some_inj] at hbytes

end Hex

/-! ## The library -/

/-- What writes bytes as digits, and reads the digits of a number of bytes.  Reading may fail, with
    a reason in words. -/
structure HexLibrary where
  encode : Bytes → String
  decode : (digits : Bytes) → (size : Nat) → Except String (Vector UInt8 size)

/-- What a library for digits documents.  It writes two digits for every byte, without capital
    letters, and reads the digits of as many bytes as it is asked for, in either case. -/
structure HexLibrary.Documented (library : HexLibrary) : Prop where
  encode : ∀ bytes, Hex.Spells (Bytes.ofText (library.encode bytes)) bytes ∧
    ∀ digit ∈ Bytes.ofText (library.encode bytes), Hex.isLowercase digit = true
  decode : ∀ {size : Nat} {digits : Bytes} {bytes : Vector UInt8 size},
    Hex.Spells digits bytes.toList → library.decode digits size = .ok bytes

namespace Digest

/-- Why a text is refused as a spelling: the checks find it out, or else the library. -/
inductive Misreading
  | misspelled (e : SpellingError)
  | undecoded (reason : String)
deriving DecidableEq, Repr

/-- The spelling that the library writes. -/
def hexVia (library : HexLibrary) (digest : Digest) : String :=
  library.encode digest.bytes.toList

/-- Reads a text with the library, after checks of its length and of its bytes. -/
def parseVia (library : HexLibrary) (text : String) : Except Misreading Digest :=
  if text.utf8ByteSize ≠ 64 then .error (.misspelled (.length text.utf8ByteSize))
  else if ¬ (Bytes.ofText text).all Hex.isLowercase then .error (.misspelled .digits)
  else
    match library.decode (Bytes.ofText text) 32 with
    | .error reason => .error (.undecoded reason)
    | .ok bytes => .ok ⟨bytes⟩

/-- What is no spelling is refused for its length, or else for its digits. -/
theorem parse_of_ne_hex {text : String} (h : ∀ digest : Digest, text ≠ digest.hex) :
    parse text =
      .error (if text.utf8ByteSize = 64 then .digits else .length text.utf8ByteSize) := by
  cases hparse : parse text with
  | ok digest => exact absurd (parse_eq_ok_iff.mp hparse) (h digest)
  | error e =>
    rw [parse] at hparse
    split at hparse
    · rename_i hsize
      rw [if_neg hsize]
      exact hparse.symm
    · rename_i hsize
      rw [if_pos (Decidable.not_not.mp hsize)]
      split at hparse
      · split at hparse <;> cases hparse
        rfl
      · cases hparse
        rfl

variable {library : HexLibrary} (hdoc : library.Documented)

include hdoc

/-- The library writes the spelling. -/
theorem hexVia_eq (digest : Digest) : hexVia library digest = digest.hex := by
  obtain ⟨hspells, hlower⟩ := hdoc.encode digest.bytes.toList
  exact Hex.eq_text_of_spells hspells hlower

/-- The checks and the library come to what reading the spelling does. -/
theorem parseVia_eq (text : String) :
    parseVia library text = (parse text).mapError .misspelled := by
  by_cases hsize : text.utf8ByteSize = 64
  · by_cases hlower : (Bytes.ofText text).all Hex.isLowercase = true
    · have hdigits := List.all_eq_true.mp hlower
      have hlength : (Bytes.ofText text).length = 2 * 32 := hsize
      obtain ⟨bytes, hspells⟩ := Hex.exists_spells hlength hdigits
      have hhex : text = hex ⟨bytes⟩ := Hex.eq_text_of_spells hspells hdigits
      rw [parseVia, if_neg (Decidable.not_not.mpr hsize), if_neg (Decidable.not_not.mpr hlower),
        hdoc.decode hspells, parse_eq_ok_iff.mpr hhex]
      rfl
    · have hne : ∀ digest : Digest, text ≠ digest.hex := by
        rintro digest rfl
        exact hlower (List.all_eq_true.mpr (Hex.spells_ofText_text _).2)
      rw [parseVia, if_neg (Decidable.not_not.mpr hsize), if_pos hlower, parse_of_ne_hex hne,
        if_pos hsize]
      rfl
  · rw [parseVia, if_pos hsize, parse, if_pos hsize]
    rfl

omit hdoc in
/-- A text is read as a digest exactly if it is what is written for the digest.  Any other text,
    whatever its length and its characters, is refused for its length or for its digits, and never
    by the library, which is not asked before both are checked.  So digests have different
    spellings, and each has just one. -/
theorem one_spelling {library : HexLibrary} (hdoc : library.Documented) :
    (∀ text digest, parseVia library text = .ok digest ↔ text = hexVia library digest) ∧
      (∀ text, (∀ digest, text ≠ hexVia library digest) →
        parseVia library text = .error (.misspelled
          (if text.utf8ByteSize = 64 then .digits else .length text.utf8ByteSize))) ∧
      (∀ text reason, parseVia library text ≠ .error (.undecoded reason)) ∧
      Function.Injective (hexVia library) ∧
      (∀ digest, ∃! text, parseVia library text = .ok digest) ∧
      (∀ digest, hexVia library digest = digest.hex) ∧
      ∀ text, parseVia library text = (parse text).mapError .misspelled := by
  have hread (text : String) (digest : Digest) :
      parseVia library text = .ok digest ↔ text = hexVia library digest := by
    rw [parseVia_eq hdoc, hexVia_eq hdoc, ← parse_eq_ok_iff]
    cases parse text with
    | ok own =>
      change (Except.ok own : Except Misreading Digest) = .ok digest ↔ _
      rw [Except.ok.injEq, Except.ok.injEq]
    | error e => exact iff_of_false (fun h => nomatch h) (fun h => nomatch h)
  refine ⟨hread, fun text hne => ?_, fun text reason h => ?_, fun left right h => ?_,
    fun digest => ⟨hexVia library digest, (hread _ _).mpr rfl, fun text => (hread text digest).mp⟩,
    hexVia_eq hdoc, parseVia_eq hdoc⟩
  · have hne' : ∀ digest : Digest, text ≠ digest.hex := by
      intro digest
      rw [← hexVia_eq hdoc]
      exact hne digest
    rw [parseVia_eq hdoc, parse_of_ne_hex hne']
    rfl
  · rw [parseVia_eq hdoc] at h
    cases hparse : parse text with
    | ok digest =>
      rw [hparse] at h
      cases h
    | error e =>
      rw [hparse] at h
      cases h
  · rw [hexVia_eq hdoc, hexVia_eq hdoc] at h
    exact hex_injective h

end Digest

/-! ## A library that reads pairs -/

namespace HexLibrary

/-- The complaint about a byte that is no digit. -/
def invalidCharacter (byte : UInt8) (position : Nat) : String :=
  "Invalid character \x27" ++ String.singleton (Char.ofNat byte.toNat) ++ "\x27 at position " ++
    Decimal.text position

/-- Reads pairs of digits, the first of which stands at a position. -/
def readPairs (position : Nat) : Bytes → Except String Bytes
  | [] => .ok []
  | [_] => .error "Odd number of digits"
  | high :: low :: rest =>
    match Hex.digitValue? high, Hex.digitValue? low with
    | none, _ => .error (invalidCharacter high position)
    | some _, none => .error (invalidCharacter low (position + 1))
    | some h, some l => (readPairs (position + 2) rest).map (UInt8.ofNat (h * 16 + l) :: ·)

theorem readPairs_of_spells {digits bytes : Bytes} (h : Hex.Spells digits bytes)
    (position : Nat) : readPairs position digits = .ok bytes := by
  induction h generalizing position with
  | nil => rfl
  | @cons high low byte digits bytes hhigh hlow _ ih =>
    simp only [readPairs, hhigh, hlow, ih, Except.map]
    rw [show byte.toNat / 16 * 16 + byte.toNat % 16 = byte.toNat by omega, UInt8.ofNat_toNat]

/-- The library that counts the digits first. -/
def counting : HexLibrary where
  encode := Hex.text
  decode digits size :=
    if digits.length % 2 = 1 then .error "Odd number of digits"
    else if digits.length / 2 ≠ size then .error "Invalid string length"
    else
      match readPairs 0 digits with
      | .error reason => .error reason
      | .ok bytes =>
        if h : bytes.length = size then .ok ⟨bytes.toArray, h⟩
        else .error "Invalid string length"

theorem counting_documented : counting.Documented where
  encode := Hex.spells_ofText_text
  decode := by
    intro size digits bytes hspells
    have hcount := hspells.length
    rw [Vector.length_toList] at hcount
    simp only [counting, readPairs_of_spells hspells]
    rw [if_neg (by omega), if_neg (by omega), dif_pos (Vector.length_toList)]
    rfl

end HexLibrary

theorem Digest.one_spelling_sample :
    HexLibrary.counting.Documented ∧
      let digest : Digest := ⟨Vector.replicate 32 171⟩
      let lower := String.ofList (List.replicate 32 ['a', 'b']).flatten
      let mixed := String.ofList ('A' :: 'B' :: (List.replicate 31 ['a', 'b']).flatten)
      HexLibrary.counting.decode (Bytes.ofText mixed) 32 = .ok digest.bytes ∧
        Digest.parseVia .counting lower = .ok digest ∧
        Digest.parseVia .counting mixed = .error (.misspelled .digits) := by
  have hdoc := HexLibrary.counting_documented
  obtain ⟨hread, -⟩ := Digest.one_spelling hdoc
  exact ⟨hdoc, rfl, (hread _ _).mpr rfl, rfl⟩

end ShardVault
