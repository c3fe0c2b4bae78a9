import Mathlib.Data.List.Perm.Basic
import ShardVault.Json.Codec

/-!
JSON forms that are read back.  `LawfulCodec` says so of a type, for those of its values whose
numbers a record can hold.  The fields of a record are found in an object whatever the order of its
members and whatever other members it has (`objectFields?_of_perm`); an object with just the fields
is a case of this (`decode_record`).
-/

namespace ShardVault.Json

/-- A type whose values are read back from their JSON form, as far as they fit: the numbers in them
    have to be below the bound for numbers. -/
class LawfulCodec (α : Type) [Codec α] where
  Fits : α → Prop := fun _ => True
  decode?_encode : ∀ value : α, Fits value → decode? (encode value) = some value

export LawfulCodec (Fits decode?_encode)

instance : LawfulCodec Nat where
  Fits n := n < numberBound
  decode?_encode _ h := if_pos h

instance : LawfulCodec UInt8 where
  decode?_encode byte _ := by
    have hbyte : byte.toNat < 256 := byte.toNat_lt
    simp only [encode, decode?, if_pos hbyte, UInt8.ofNat_toNat]

instance : LawfulCodec Bool where
  decode?_encode _ _ := rfl

instance : LawfulCodec String where
  decode?_encode _ _ := rfl

theorem mapM_map_eq_some {α β γ : Type} {f : α → β} {read : β → Option γ} {g : α → γ}
    {items : List α} (h : ∀ item ∈ items, read (f item) = some (g item)) :
    (items.map f).mapM read = some (items.map g) := by
  induction items with
  | nil => rfl
  | cons item rest ih =>
    rw [List.forall_mem_cons] at h
    rw [List.map_cons, List.mapM_cons, h.1, ih h.2]
    rfl

section Containers

variable {α : Type} [Codec α] [LawfulCodec α]

instance : LawfulCodec (List α) where
  Fits items := ∀ item ∈ items, Fits item
  decode?_encode items h := by
    have hitems : (items.map encode).mapM decode? = some (items.map id) :=
      mapM_map_eq_some fun item hitem => decode?_encode item (h item hitem)
    rwa [List.map_id] at hitems

/-- A list is never written as the null that stands for no list. -/
instance : LawfulCodec (Option (List α)) where
  Fits items := ∀ own ∈ items, Fits own
  decode?_encode items h := by
    cases items with
    | none => rfl
    | some items =>
      have hitems : decode? (encode items) = some items := decode?_encode items (h items rfl)
      change (decode? (encode items)).map some = some (some items)
      rw [hitems]
      rfl

end Containers

/-! ## Fields of records -/

/-- The members of an object with these fields, without those that are absent. -/
def present (fields : List (String × Option Json)) : List (JsonText × Json) :=
  fields.filterMap fun (name, value) => value.map fun value => (some name, value)

theorem mem_present {fields : List (String × Option Json)} {member : JsonText × Json} :
    member ∈ present fields ↔
      ∃ name value, (name, some value) ∈ fields ∧ member = (some name, value) := by
  simp only [present, List.mem_filterMap, Option.map_eq_some_iff, Prod.exists]
  constructor
  · rintro ⟨name, _, hmem, value, rfl, rfl⟩
    exact ⟨name, value, hmem, rfl⟩
  · rintro ⟨name, value, hmem, rfl⟩
    exact ⟨name, some value, hmem, value, rfl, rfl⟩

/-- A record has all its fields. -/
theorem record_eq (members : List (String × Json)) :
    record members = .object (present (members.map fun member => (member.1, some member.2))) := by
  simp [record, present, List.filterMap_map]

theorem filter_eq_nil {members : List (JsonText × Json)} {name : String}
    (h : ∀ member ∈ members, member.1 ≠ some name) :
    members.filter (fun m => m.1 = some name) = [] := by
  rw [List.filter_eq_nil_iff]
  intro member hmem
  simpa using h member hmem

theorem filter_present {fields : List (String × Option Json)} (h : (fields.map Prod.fst).Nodup)
    {name : String} {value : Option Json} (hmem : (name, value) ∈ fields) :
    (present fields).filter (fun m => m.1 = some name) =
      (value.map fun value => (some name, value)).toList := by
  induction fields with
  | nil => cases hmem
  | cons field rest ih =>
    obtain ⟨own, other⟩ := field
    rw [List.map_cons, List.nodup_cons] at h
    rw [present, List.filterMap_cons, ← present]
    rcases List.mem_cons.mp hmem with heq | hrest
    · cases heq
      have hnil : (present rest).filter (fun m => m.1 = some name) = [] := by
        refine filter_eq_nil fun member hmember => ?_
        obtain ⟨own, value, hown, rfl⟩ := mem_present.mp hmember
        rintro ⟨⟩
        exact h.1 (List.mem_map.mpr ⟨_, hown, rfl⟩)
      cases value with
      | none => exact hnil
      | some value => simp [hnil]
    · have hne : own ≠ name := by
        rintro rfl
        exact h.1 (List.mem_map.mpr ⟨_, hrest, rfl⟩)
      have hskip := ih h.2 hrest
      cases other with
      | none => exact hskip
      | some other => simpa [hne] using hskip

section Object

variable {fields : List (String × Option Json)} {foreign members : List (JsonText × Json)}
  (hnames : (fields.map Prod.fst).Nodup)
  (hforeign : ∀ member ∈ foreign, ∃ name ∉ fields.map Prod.fst, member.1 = some name)
  (hperm : members.Perm (present fields ++ foreign))

include hnames hforeign hperm

/-- A field is found among other members, or found to be absent. -/
theorem member?_of_perm {name : String} {value : Option Json} (hmem : (name, value) ∈ fields) :
    member? members name = some value := by
  have hrest : foreign.filter (fun m => m.1 = some name) = [] := by
    refine filter_eq_nil fun member hmember => ?_
    obtain ⟨own, hown, hname⟩ := hforeign member hmember
    rw [hname]
    rintro ⟨⟩
    exact hown (List.mem_map_of_mem hmem)
  have hfound := hperm.filter (fun m => m.1 = some name)
  rw [List.filter_append, filter_present hnames hmem, hrest, List.append_nil] at hfound
  cases value with
  | none => rw [member?, List.perm_nil.mp hfound]
  | some value => rw [member?, List.perm_singleton.mp hfound]

/-- The fields of an object are found whatever the order of its members and whatever other members
    it has. -/
theorem objectFields?_of_perm :
    objectFields? (fields.map Prod.fst) members = some (fields.map Prod.snd) := by
  have htexts : members.all (·.1.isSome) = true := by
    rw [List.all_eq_true]
    intro member hmember
    rcases List.mem_append.mp (hperm.mem_iff.mp hmember) with hfield | hother
    · obtain ⟨name, value, -, rfl⟩ := mem_present.mp hfield
      rfl
    · obtain ⟨name, -, hname⟩ := hforeign member hother
      rw [hname]
      rfl
  rw [objectFields?, if_pos htexts]
  exact mapM_map_eq_some fun _ => member?_of_perm hnames hforeign hperm

end Object

/-- A value that is built of fields is built of those of its record. -/
theorem decode_record {α : Type} {members : List (String × Json)} {names : List String}
    {build : List (Option Json) → Option α} {value : α}
    (hnames : members.map Prod.fst = names) (hnodup : names.Nodup)
    (hbuild : build (members.map fun member => some member.2) = some value) :
    (fields? names (record members)).bind build = some value := by
  let fields := members.map fun member => (member.1, some member.2)
  have hfst : fields.map Prod.fst = names := by
    simpa [fields, Function.comp_def] using hnames
  have hperm : (present fields).Perm (present fields ++ []) := by
    rw [List.append_nil]
  have hfields := objectFields?_of_perm (by rwa [hfst]) (by simp) hperm
  rw [hfst, List.map_map, Function.comp_def] at hfields
  rw [record_eq, fields?, hfields, Option.bind_some, hbuild]

end ShardVault.Json
