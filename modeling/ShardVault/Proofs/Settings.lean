import Mathlib.Tactic.MkIffOfInductiveProp
import ShardVault.Node
import ShardVault.Proofs.Code.Codec
import ShardVault.Proofs.FileTree
import ShardVault.Proofs.Json.Codec
import ShardVault.Proofs.Json.RoundTrip

/-!
Settings in documents.  A document may give any of the settings, in any order and among members that
are none; the settings read from it are those given, and the defaults for the rest
(`decode?_of_inMembers`).  They are refused unless they are admissible (`fault?_eq_none_iff`), and a
node can be opened with those that are (`load_document`).  But every name in a document has to be a
text (`load_of_name_not_text`).
-/

namespace ShardVault.Settings

/-! ## Documents -/

/-- The settings that a document gives. -/
structure Given where
  stripeSize : Option Nat
  k : Option Nat
  n : Option Nat
  storagePath : Option String
  metadataPath : Option String
  timeout : Option Nat
  maxConcurrent : Option Nat

namespace Given

/-- The settings given, and the defaults for those that are not. -/
def settings (given : Given) : Settings where
  stripeSize := given.stripeSize.getD standard.stripeSize
  k := given.k.getD standard.k
  n := given.n.getD standard.n
  storagePath := given.storagePath.getD standard.storagePath
  metadataPath := given.metadataPath.getD standard.metadataPath
  timeout := given.timeout.getD standard.timeout
  maxConcurrent := given.maxConcurrent.getD standard.maxConcurrent

/-- The numbers given can be read. -/
def Fits (given : Given) : Prop :=
  ∀ setting ∈ [given.stripeSize, given.k, given.n, given.timeout, given.maxConcurrent],
    ∀ number ∈ setting, number < Json.numberBound

/-- The fields of a document, absent ones as `none`. -/
def fields (given : Given) : List (String × Option Json) :=
  [("stripe_size", given.stripeSize.map Json.encode), ("k", given.k.map Json.encode),
    ("n", given.n.map Json.encode), ("storage_path", given.storagePath.map Json.encode),
    ("metadata_path", given.metadataPath.map Json.encode),
    ("store_timeout_ms", given.timeout.map Json.encode),
    ("max_concurrent_requests", given.maxConcurrent.map Json.encode)]

/-- An object has the settings given as members, each once and in any order, and besides them any
    members of other names. -/
inductive InMembers (given : Given) : List (JsonText × Json) → Prop
  | among {members foreign : List (JsonText × Json)}
      (hperm : members.Perm (Json.present given.fields ++ foreign))
      (hforeign : ∀ member ∈ foreign, ∃ name ∉ names, member.1 = some name) :
      InMembers given members

end Given

section Fields

variable {α : Type} [Json.Codec α] [Json.LawfulCodec α]

theorem defaulting_map (value : α) (setting : Option α) (h : ∀ own ∈ setting, Json.Fits own) :
    Json.defaulting value (setting.map Json.encode) = some (setting.getD value) := by
  cases setting with
  | none => rfl
  | some own => exact Json.decode?_encode own (h own rfl)

end Fields

/-- The settings of an object are those that it gives, and the defaults for the rest. -/
theorem decode?_of_inMembers {given : Given} {members : List (JsonText × Json)}
    (h : given.InMembers members) (hfits : given.Fits) :
    Json.decode? (.object members) = some given.settings := by
  obtain ⟨hperm, hforeign⟩ := h
  have hnames : (given.fields.map Prod.fst).Nodup := by
    change names.Nodup
    decide
  have hfields := Json.objectFields?_of_perm hnames hforeign hperm
  have hnumber (value : Nat) {setting : Option Nat} (h : setting ∈ _) :=
    defaulting_map value setting (hfits setting h)
  have htext (value : String) (setting : Option String) :=
    defaulting_map value setting fun _ _ => trivial
  change (Json.objectFields? (given.fields.map Prod.fst) members).bind _ = _
  rw [hfields]
  simp [Given.fields, Given.settings, hnumber, htext]

/-- The document that gives all settings. -/
def given (settings : Settings) : Given where
  stripeSize := some settings.stripeSize
  k := some settings.k
  n := some settings.n
  storagePath := some settings.storagePath
  metadataPath := some settings.metadataPath
  timeout := some settings.timeout
  maxConcurrent := some settings.maxConcurrent

instance : Json.LawfulCodec Settings where
  Fits settings := settings.given.Fits
  decode?_encode settings h := by
    have hperm : (Json.present settings.given.fields).Perm
        (Json.present settings.given.fields ++ []) := by
      rw [List.append_nil]
    exact decode?_of_inMembers (.among hperm (by simp)) h

/-! ## Admissible settings -/

/-- The settings ask for nothing that cannot be had. -/
@[mk_iff]
structure Admissible (settings : Settings) : Prop where
  one_le_stripeSize : 1 ≤ settings.stripeSize
  one_le_k : 1 ≤ settings.k
  k_le_n : settings.k ≤ settings.n
  n_le : settings.n ≤ 256
  one_le_timeout : 1 ≤ settings.timeout
  one_le_maxConcurrent : 1 ≤ settings.maxConcurrent

instance (settings : Settings) : Decidable settings.Admissible :=
  decidable_of_iff _ (admissible_iff settings).symm

namespace Admissible

variable {settings : Settings}

theorem exists_scheme (h : settings.Admissible) :
    ∃ scheme, settings.redundancy.scheme = .ok scheme :=
  Redundancy.exists_scheme_iff.mpr ⟨h.one_le_k, h.k_le_n, h.n_le⟩

theorem fault?_eq_none (h : settings.Admissible) : settings.fault? = none := by
  obtain ⟨scheme, hscheme⟩ := h.exists_scheme
  rw [fault?, if_neg (Nat.ne_of_gt h.one_le_stripeSize), hscheme]
  simp only [if_neg (Nat.ne_of_gt h.one_le_timeout), if_neg (Nat.ne_of_gt h.one_le_maxConcurrent)]

end Admissible

/-- Settings have no fault only if they are admissible, and a fault is told in words. -/
theorem admissible_or_exists_fault (settings : Settings) :
    settings.Admissible ∨ ∃ reason, settings.fault? = some (.invalid reason) := by
  by_cases hstripe : settings.stripeSize = 0
  · exact .inr ⟨_, by rw [fault?, if_pos hstripe]⟩
  cases hscheme : settings.redundancy.scheme with
  | error e => exact .inr ⟨_, by rw [fault?, if_neg hstripe, hscheme]⟩
  | ok scheme =>
    by_cases htimeout : settings.timeout = 0
    · exact .inr ⟨_, by rw [fault?, if_neg hstripe, hscheme]; exact if_pos htimeout⟩
    by_cases hconcurrent : settings.maxConcurrent = 0
    · refine .inr ⟨"max_concurrent_requests must be positive", ?_⟩
      rw [fault?, if_neg hstripe, hscheme]
      simp only [if_neg htimeout, if_pos hconcurrent]
    · obtain ⟨hk, hkn, hn⟩ := Redundancy.exists_scheme_iff.mp ⟨scheme, hscheme⟩
      exact .inl ⟨Nat.pos_of_ne_zero hstripe, hk, hkn, hn, Nat.pos_of_ne_zero htimeout,
        Nat.pos_of_ne_zero hconcurrent⟩

/-- Just the admissible settings have no fault. -/
theorem fault?_eq_none_iff {settings : Settings} :
    settings.fault? = none ↔ settings.Admissible := by
  refine ⟨fun h => ?_, Admissible.fault?_eq_none⟩
  rcases settings.admissible_or_exists_fault with hadmissible | ⟨reason, hfault⟩
  · exact hadmissible
  · rw [hfault] at h
    cases h

/-- With the default for the shards in all, seven of them cannot carry data. -/
example : ¬ Admissible { standard with k := 7 } := by decide

/-- What can be made with settings: a splitter and a reconstructor for any documents, a codec, and a
    node unless there are too many calls at once for its services to count. -/
structure Usable (settings : Settings) : Prop where
  splitter : ∀ documents,
    ∃ splitter, Splitter.new settings.stripeSize settings.redundancy documents = .ok splitter
  reconstructor : ∀ documents,
    ∃ reconstructor, Reconstructor.new settings.redundancy documents = .ok reconstructor
  codec : ∀ library : ParityLibrary, library.Documented →
    ∃ codec, Codec.new library settings.redundancy = .ok codec
  node : settings.maxConcurrent ≤ ChunkService.maxPermits → ∀ writer,
    ∃ node, Node.ofSettings writer settings = .ok node

theorem Admissible.usable {settings : Settings} (h : settings.Admissible) : settings.Usable := by
  obtain ⟨scheme, hscheme⟩ := h.exists_scheme
  have hsplitter (documents : Documents) : ∃ splitter,
      Splitter.new settings.stripeSize settings.redundancy documents = .ok splitter := by
    refine ⟨⟨settings.stripeSize, scheme, documents, h.one_le_stripeSize⟩, ?_⟩
    rw [Splitter.new, dif_neg (Nat.ne_of_gt h.one_le_stripeSize), hscheme]
  refine ⟨hsplitter, fun documents => ?_, fun library hdoc => ?_, fun hpermits writer => ?_⟩
  · exact ⟨⟨scheme, documents⟩, by rw [Reconstructor.new, hscheme]⟩
  · rw [Redundancy.scheme_eq_ok_iff.mp hscheme]
    exact Codec.exists_new hdoc scheme
  · obtain ⟨splitter, hnew⟩ := hsplitter ⟨Path.ofText settings.metadataPath⟩
    rw [Node.ofSettings, h.fault?_eq_none]
    simp only [if_neg (Nat.not_lt.mpr hpermits), hnew]
    exact ⟨_, rfl⟩

theorem admissible_of_load {files : FileTree} {path : Path} {settings : Settings}
    (h : load files path = .ok settings) : settings.Admissible := by
  rw [load] at h
  split at h
  · cases h
  · split at h
    · cases h
    · split at h
      · cases h
      · rename_i hfault
        cases h
        exact fault?_eq_none_iff.mp hfault

/-- A name that holds half of a surrogate pair is refused, whatever the document gives. -/
theorem load_of_name_not_text {files : FileTree} {path : Path} {text : String}
    {members : List (JsonText × Json)} (hread : files.readText path = .ok text)
    (hspells : Json.SpellsDocument text (.object members))
    (hname : ∃ member ∈ members, member.1 = none) :
    load files path = .error (.config .malformed) := by
  obtain ⟨member, hmember, hnone⟩ := hname
  have hall : ¬ members.all (·.1.isSome) = true := by
    rw [List.all_eq_true]
    intro h
    have hsome := h member hmember
    rw [hnone] at hsome
    cases hsome
  have hdecode : Json.decode? (.object members) = (none : Option Settings) := by
    change (Json.objectFields? names members).bind _ = none
    rw [Json.objectFields?, if_neg hall, Option.bind_none]
  rw [load, hread]
  simp only [parse?, Json.parse_of_spells hspells, Option.bind_eq_bind, Option.bind_some, hdecode]

/-- A document that gives some of the settings, in any order and among members of other names, is
    read as these with the defaults for the rest.  They are had if they are admissible, and refused
    in words otherwise; and whatever settings are had can be used. -/
theorem load_document :
    (∀ {files : FileTree} {path : Path} {text : String} {given : Given}
      {members : List (JsonText × Json)},
      files.readText path = .ok text → Json.SpellsDocument text (.object members) →
      given.InMembers members → given.Fits →
      parse? text = some given.settings ∧
      (given.settings.Admissible → load files path = .ok given.settings) ∧
      (¬ given.settings.Admissible →
        ∃ reason, load files path = .error (.config (.invalid reason)))) ∧
    ∀ {files : FileTree} {path : Path} {settings : Settings},
      load files path = .ok settings → settings.Usable := by
  refine ⟨?_, fun hload => (admissible_of_load hload).usable⟩
  intro files path text given members hread hspells hmembers hfits
  have hparse : parse? text = some given.settings := by
    rw [parse?, Json.parse_of_spells hspells, Option.bind_eq_bind, Option.bind_some,
      decode?_of_inMembers hmembers hfits]
  refine ⟨hparse, fun hadmissible => ?_, fun hnot => ?_⟩
  · rw [load, hread]
    simp only [hparse, hadmissible.fault?_eq_none]
  · obtain ⟨reason, hfault⟩ := given.settings.admissible_or_exists_fault.resolve_left hnot
    refine ⟨reason, ?_⟩
    rw [load, hread]
    simp only [hparse, hfault]

/-- The members of the document `{"n":4,"note":[{"k":9}],"k":2}`. -/
def sampleMembers : List (JsonText × Json) :=
  [(some "n", Json.encode 4), (some "note", .array [.object [(some "k", Json.encode 9)]]),
    (some "k", Json.encode 2)]

/-- The document of an object. -/
def sampleText (members : List (JsonText × Json)) : String :=
  Json.render .compact (.object members)

/-- Files with the document of an object. -/
def sampleFiles (members : List (JsonText × Json)) : FileTree :=
  FileTree.empty.put ["settings.json"] (.file (Bytes.ofText (sampleText members)))

theorem readText_sampleFiles (members : List (JsonText × Json)) :
    (sampleFiles members).readText ⟨["settings.json"]⟩ = .ok (sampleText members) := by
  have hlocate : (sampleFiles members).locate ⟨["settings.json"]⟩ = .ok ["settings.json"] := rfl
  have hentry : FileTree.entry? (sampleFiles members) ["settings.json"] =
      some (.file (Bytes.ofText (sampleText members))) :=
    FileTree.entry?_put_self .empty _ (by decide)
  simp only [FileTree.readText, FileTree.read, hlocate, hentry, Bytes.text?_ofText]

theorem load_document_sample :
    load (sampleFiles sampleMembers) ⟨["settings.json"]⟩ = .ok { standard with k := 2, n := 4 } ∧
      ({ standard with k := 2, n := 4 } : Settings).Usable := by
  let given : Given := ⟨none, some 2, some 4, none, none, none, none⟩
  have hfits : given.Fits := by
    simp only [Given.Fits, given, List.forall_mem_cons, List.not_mem_nil, false_implies,
      Option.mem_some_iff, Option.not_mem_none, forall_eq', implies_true, and_true, true_and]
    decide
  have hperm : sampleMembers.Perm (Json.present given.fields ++ (sampleMembers.drop 1).take 1) :=
    @List.perm_append_comm _ (sampleMembers.take 2) (sampleMembers.drop 2)
  have hforeign : ∀ member ∈ (sampleMembers.drop 1).take 1,
      ∃ name ∉ names, member.1 = some name := by
    intro member hmember
    rw [List.mem_singleton.mp hmember]
    exact ⟨"note", by decide, rfl⟩
  have hspells := Json.spells_render Json.Layout.blank_compact (.object sampleMembers)
  obtain ⟨hdocument, husable⟩ := load_document
  obtain ⟨-, hload, -⟩ :=
    hdocument (readText_sampleFiles sampleMembers) hspells (.among hperm hforeign) hfits
  have hsettings := hload (by decide)
  exact ⟨hsettings, husable hsettings⟩

/-- The members of the document `{"\ud800":1,"k":2}`.  The first name is none of a setting, but
    half of a surrogate pair. -/
def surrogateMembers : List (JsonText × Json) :=
  [(none, Json.encode 1), (some "k", Json.encode 2)]

/-- A document is refused for the name of a member that gives no setting, though the settings that
    it gives are admissible. -/
theorem load_document_surrogate :
    let given : Given := ⟨none, some 2, none, none, none, none, none⟩
    let files := sampleFiles surrogateMembers
    surrogateMembers.Perm (Json.present given.fields ++ [(none, Json.encode 1)]) ∧
      given.settings.Admissible ∧
      files.readText ⟨["settings.json"]⟩ = .ok (sampleText surrogateMembers) ∧
      Json.SpellsDocument (sampleText surrogateMembers) (.object surrogateMembers) ∧
      load files ⟨["settings.json"]⟩ = .error (.config .malformed) := by
  intro given files
  have hread := readText_sampleFiles surrogateMembers
  have hspells := Json.spells_render Json.Layout.blank_compact (.object surrogateMembers)
  exact ⟨List.Perm.swap _ _ _, by decide, hread, hspells,
    load_of_name_not_text hread hspells ⟨_, List.mem_cons_self, rfl⟩⟩

end ShardVault.Settings
