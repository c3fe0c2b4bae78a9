import ShardVault.Proofs.Json.Grammar

/-!
The round trip of documents.  In a layout that adds white space only, the text of a value spells it
(`spells_write`), so every value is read back from its text (`parse_render`).
-/

namespace ShardVault.Json

/-- The layout adds white space only. -/
structure Layout.Blank (layout : Layout) : Prop where
  line : ∀ depth, Json.Blank (layout.line depth)
  gap : Json.Blank layout.gap

theorem Layout.blank_compact : Layout.compact.Blank where
  line _ := blank_nil
  gap := blank_nil

theorem Layout.blank_indented : Layout.indented.Blank where
  line depth c hc := by
    rcases List.mem_cons.mp hc with rfl | hc
    · rfl
    · rw [List.eq_of_mem_replicate hc]
      rfl
  gap c hc := by
    rw [List.mem_singleton.mp hc]
    rfl

section Written

variable {layout : Layout} (hl : layout.Blank)

include hl

mutual

/-- What is written for a value spells it. -/
theorem spells_write : ∀ (value : Json) (depth : Nat), Spells (write layout depth value) value
  | .null, _ => .null
  | .bool true, _ => .true
  | .bool false, _ => .false
  | .natural number, _ => .number (.natural number)
  | .otherNumber, depth => by
    have hzero : Decimal.digits 0 = ['0'] := by
      rw [Decimal.digits]
      rfl
    have hspells := SpellsNumber.negative (n := 0) .absent .absent
    rw [hzero] at hspells
    exact .number hspells
  | .string text, _ => .string (spells_writeText text)
  | .array [], _ => .emptyArray blank_nil
  | .array (first :: more), depth => by
    have hspells := Spells.array (hl.line (depth + 1)) (spells_write first (depth + 1))
      (spells_writeItems more depth)
    simpa only [write, List.append_assoc, List.cons_append] using hspells
  | .object [], _ => .emptyObject blank_nil
  | .object ((name, value) :: more), depth => by
    have hfirst := SpellsMember.colon (spells_writeText name) blank_nil hl.gap
      (spells_write value (depth + 1))
    have hspells := Spells.object (hl.line (depth + 1)) hfirst (spells_writeMembers more depth)
    simpa only [write, List.append_assoc, List.cons_append, List.nil_append] using hspells

theorem spells_writeItems : ∀ (items : List Json) (depth : Nat),
    SpellsItems (writeItems layout depth items) items
  | [], depth => .close (hl.line depth)
  | item :: more, depth => by
    have hspells := SpellsItems.comma blank_nil (hl.line (depth + 1))
      (spells_write item (depth + 1)) (spells_writeItems more depth)
    simpa only [writeItems, List.append_assoc, List.cons_append, List.nil_append] using hspells

theorem spells_writeMembers : ∀ (members : List (JsonText × Json)) (depth : Nat),
    SpellsMembers (writeMembers layout depth members) members
  | [], depth => .close (hl.line depth)
  | (name, value) :: more, depth => by
    have hfirst := SpellsMember.colon (spells_writeText name) blank_nil hl.gap
      (spells_write value (depth + 1))
    have hspells := SpellsMembers.comma blank_nil (hl.line (depth + 1)) hfirst
      (spells_writeMembers more depth)
    simpa only [writeMembers, List.append_assoc, List.cons_append, List.nil_append] using hspells

end

theorem spells_render (value : Json) : SpellsDocument (render layout value) value :=
  .around (by simp [render]) blank_nil (spells_write hl value 0) blank_nil

/-- Every document is read back as the value that it was written for. -/
theorem parse_render (value : Json) : parse (render layout value) = some value :=
  parse_of_spells (spells_render hl value)

end Written

end ShardVault.Json
