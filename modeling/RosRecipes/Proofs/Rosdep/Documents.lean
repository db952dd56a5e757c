import Mathlib.Data.List.Dedup
import Mathlib.Data.List.Induction
import RosRecipes.Proofs.Table
import RosRecipes.Rosdep.Database

/-!
# Several documents of rules

Documents are put together from the first to the last, and each one adds the names that are new.  So the value of a
name is that in the first document that has it (`get?_ofDocuments`), which is a union that prefers the left: documents
may be put together in parts (`get?_ofDocuments_flatten`), and the order of the entries within a document does not
matter (`get?_ofDocuments_perm`).

* Lookups only see the value of a name, so the first document that has a name answers alone (`earlier_documents_win`).
* A document that is read from a text has each name once (`nodup_keys_of_rules?`).
-/

namespace RosRecipes.Rosdep.Rules

open Yaml (Value)

variable {documents others : List Rules} {document rules : Rules} {name system : String}

/-- A document that is read from a text has each name once. -/
theorem nodup_keys_of_rules? {source : String} (h : Value.rules? source = some document) : document.keys.Nodup := by
  have hempty : (∅ : Rules).keys.Nodup := List.nodup_nil
  obtain ⟨tokens, -, hroot⟩ := Option.bind_eq_some_iff.1 h
  obtain ⟨root, -, hrules⟩ := Option.bind_eq_some_iff.1 hroot
  unfold Value.rulesOfNode? at hrules
  split at hrules
  · cases hrules
    exact hempty
  · dsimp only at hrules
    split at hrules
    · cases hrules
      exact hempty
    · obtain ⟨⟨entries, counted⟩, -, hentries⟩ := Option.bind_eq_some_iff.1 hrules
      cases hentries
      exact List.foldlRecOn entries _ (motive := fun t : Rules => t.keys.Nodup) hempty fun _ ht _ _ =>
        Table.nodup_keys_insert ht
    · cases hrules

/-! ### Merging -/

theorem get?_merge (rules document : Rules) (name : String) :
    (rules.merge document).get? name = (rules.get? name).or (document.get? name) :=
  Table.get?_foldl_insertNew document.entries rules name

theorem nodup_keys_merge (h : rules.keys.Nodup) : (rules.merge document).keys.Nodup :=
  List.foldlRecOn document.entries _ (motive := fun t : Rules => t.keys.Nodup) h fun _ ht _ _ =>
    Table.nodup_keys_insertNew ht

/-- A document without a new name changes nothing. -/
theorem merge_eq_left (h : ∀ name ∈ document.keys, name ∈ rules.keys) : rules.merge document = rules := by
  obtain ⟨entries⟩ := document
  unfold merge
  induction entries with
  | nil => rfl
  | cons entry entries ih =>
    obtain ⟨name, value⟩ := entry
    obtain ⟨hfirst, hrest⟩ := List.forall_mem_cons.1 h
    rw [List.foldl_cons]
    dsimp only
    rw [Table.insertNew_of_mem hfirst]
    exact ih hrest

/-! ### Documents in a row -/

theorem ofDocuments_append (documents : List Rules) (document : Rules) :
    ofDocuments (documents ++ [document]) = (ofDocuments documents).merge document :=
  List.foldl_concat ..

/-- The value of a name is that in the first document that has it. -/
theorem get?_ofDocuments (documents : List Rules) (name : String) :
    (ofDocuments documents).get? name = documents.findSome? (·.get? name) := by
  induction documents using List.reverseRecOn with
  | nil => rfl
  | append_singleton documents document ih =>
    rw [ofDocuments_append, get?_merge, ih, List.findSome?_append, List.findSome?_singleton]

theorem mem_keys_ofDocuments : name ∈ (ofDocuments documents).keys ↔ ∃ d ∈ documents, name ∈ d.keys := by
  rw [← not_iff_not, ← Table.get?_eq_none_iff, get?_ofDocuments, List.findSome?_eq_none_iff]
  simp only [Table.get?_eq_none_iff, not_exists, not_and]

theorem nodup_keys_ofDocuments (documents : List Rules) : (ofDocuments documents).keys.Nodup := by
  induction documents using List.reverseRecOn with
  | nil => exact List.nodup_nil
  | append_singleton documents document ih =>
    rw [ofDocuments_append]
    exact nodup_keys_merge ih

/-- There are as many names as the documents have together. -/
theorem size_ofDocuments (documents : List Rules) :
    (ofDocuments documents).size = (documents.flatMap Table.keys).dedup.length := by
  rw [Table.size_eq_length_keys]
  have hdistinct := nodup_keys_ofDocuments documents
  refine ((List.perm_ext_iff_of_nodup hdistinct (List.nodup_dedup _)).2 fun name => ?_).length_eq
  rw [mem_keys_ofDocuments, List.mem_dedup, List.mem_flatMap]

/-- Documents may be put together in parts. -/
theorem get?_ofDocuments_flatten (parts : List (List Rules)) (name : String) :
    (ofDocuments (parts.map ofDocuments)).get? name = (ofDocuments parts.flatten).get? name := by
  rw [get?_ofDocuments, get?_ofDocuments]
  induction parts with
  | nil => rfl
  | cons part parts ih =>
    rw [List.map_cons, List.findSome?_cons, List.flatten_cons, List.findSome?_append, ← ih, get?_ofDocuments]
    cases part.findSome? (·.get? name) <;> rfl

/-- The order of the entries of each document does not matter. -/
theorem get?_ofDocuments_perm (hunique : ∀ d ∈ documents, d.keys.Nodup)
    (h : List.Forall₂ (fun d other => d.entries.Perm other.entries) documents others) (name : String) :
    (ofDocuments others).get? name = (ofDocuments documents).get? name := by
  rw [get?_ofDocuments, get?_ofDocuments]
  induction h with
  | nil => rfl
  | cons hperm _ ih =>
    obtain ⟨hfirst, hrest⟩ := List.forall_mem_cons.1 hunique
    rw [List.findSome?_cons, List.findSome?_cons, ih hrest, Table.get?_eq_of_perm hfirst hperm]

/-! ### Lookups -/

theorem lookup_congr (h : rules.get? name = document.get? name) :
    rules.lookup name system = document.lookup name system := by
  unfold lookup
  rw [h]

theorem lookupEntry_ne_unknown (system : String) (entry : Value) : lookupEntry system entry ≠ .unknown := by
  unfold lookupEntry
  split <;> exact nofun

theorem lookup_eq_unknown_iff : rules.lookup name system = .unknown ↔ name ∉ rules.keys := by
  rw [← Table.get?_eq_none_iff]
  unfold lookup
  cases rules.get? name with
  | none => exact ⟨fun _ => rfl, fun _ => rfl⟩
  | some entry => exact ⟨fun h => absurd h (lookupEntry_ne_unknown system entry), nofun⟩

/-- A document that has a name answers alone if no document before it has that name. -/
theorem lookup_ofDocuments {before after : List Rules} (hbefore : ∀ d ∈ before, name ∉ d.keys)
    (hname : name ∈ document.keys) :
    (ofDocuments (before ++ document :: after)).lookup name system = document.lookup name system := by
  have hnone : before.findSome? (·.get? name) = none :=
    List.findSome?_eq_none_iff.2 fun d hd => Table.get?_eq_none_iff.2 (hbefore d hd)
  refine lookup_congr ?_
  rw [get?_ofDocuments, List.findSome?_append, hnone, Option.none_or, List.findSome?_cons]
  cases hget : document.get? name with
  | none => exact absurd hname (Table.get?_eq_none_iff.1 hget)
  | some entry => rfl

/-! ### Files -/

/-- The file at a path holds a document. -/
def Holds (files : FileTree) (path : Path) (document : Rules) : Prop :=
  ∃ content, files.readText path = .ok content ∧ Value.rules? content = some document

theorem addFile_of_holds {files : FileTree} {path : Path} (h : Holds files path document) (rules : Rules) :
    addFile files rules path = .ok (rules.merge document) := by
  obtain ⟨content, hread, hrules⟩ := h
  unfold addFile
  rw [hread]
  dsimp only [Except.mapError, bind, Except.bind]
  rw [hrules]
  rfl

/-- Reading files puts their documents together. -/
theorem ofFiles_of_holds {files : FileTree} {paths : List Path} (h : List.Forall₂ (Holds files) paths documents) :
    ofFiles files paths = .ok (ofDocuments documents) := by
  unfold ofFiles ofDocuments
  generalize (∅ : Rules) = rules
  induction h generalizing rules with
  | nil => rfl
  | cons hfirst _ ih =>
    rw [List.foldlM_cons, addFile_of_holds hfirst]
    exact ih _

/-- Documents that have each of their names once, in any order of their entries, are read from files and put together.
A name is unknown just if no document has it, and else the first document that has it answers alone, whatever later ones
say.  There are as many names as the documents have together.  So a document without a new name changes nothing, and
documents may be put together in parts. -/
theorem earlier_documents_win (documents : List Rules) (hunique : ∀ d ∈ documents, d.keys.Nodup) :
    (∀ files paths, List.Forall₂ (Holds files) paths documents → ofFiles files paths = .ok (ofDocuments documents)) ∧
    (∀ others, List.Forall₂ (fun d other => d.entries.Perm other.entries) documents others → ∀ name system,
      (ofDocuments others).lookup name system = (ofDocuments documents).lookup name system) ∧
    (∀ name system, (ofDocuments documents).lookup name system = .unknown ↔ ∀ d ∈ documents, name ∉ d.keys) ∧
    (∀ before document after, documents = before ++ document :: after → ∀ name system, (∀ d ∈ before, name ∉ d.keys) →
      name ∈ document.keys → (ofDocuments documents).lookup name system = document.lookup name system) ∧
    (ofDocuments documents).size = (documents.flatMap Table.keys).dedup.length ∧
    (∀ document, (∀ name ∈ document.keys, ∃ d ∈ documents, name ∈ d.keys) →
      ofDocuments (documents ++ [document]) = ofDocuments documents) ∧
    (∀ parts : List (List Rules), parts.flatten = documents → ∀ name system,
      (ofDocuments (parts.map ofDocuments)).lookup name system = (ofDocuments documents).lookup name system) := by
  refine ⟨fun files paths h => ofFiles_of_holds h, ?_, ?_, ?_, size_ofDocuments documents, ?_, ?_⟩
  · intro others hperm name system
    exact lookup_congr (get?_ofDocuments_perm hunique hperm name)
  · intro name system
    rw [lookup_eq_unknown_iff, mem_keys_ofDocuments]
    simp only [not_exists, not_and]
  · rintro before document after rfl name system hbefore hname
    exact lookup_ofDocuments hbefore hname
  · intro document h
    rw [ofDocuments_append]
    exact merge_eq_left fun name hname => mem_keys_ofDocuments.2 (h name hname)
  · rintro parts rfl name system
    exact lookup_congr (get?_ofDocuments_flatten parts name)

/-- Two documents with a name in common.  The first one has no rule for the target system, so the name cannot be
satisfied, although the second one has such a rule; other names of the second one are found. -/
theorem documents_of_two :
    let first : Rules := ⟨[("foo", .mapping [(.text "ubuntu", .sequence [.text "libfoo-dev"])])]⟩
    let second : Rules := ⟨[("foo", .mapping [(.text "nixos", .sequence [.text "libfoo"])]),
      ("bar", .mapping [(.text "nixos", .sequence [.text "libbar"])])]⟩
    (∀ d ∈ [first, second], d.keys.Nodup) ∧
      (ofDocuments [first, second]).lookup "foo" targetSystem = .unsatisfiable ∧
      (ofDocuments [first, second]).lookup "bar" targetSystem = .found (.ofList ["libbar"]) ∧
      (ofDocuments [first, second]).size = 2 := by
  intro first second
  have hunique : ∀ d ∈ [first, second], d.keys.Nodup := by decide
  obtain ⟨-, -, -, hwins, hsize, -⟩ := earlier_documents_win [first, second] hunique
  refine ⟨hunique, ?_, ?_, ?_⟩
  · rw [hwins [] first [second] rfl "foo" targetSystem (by decide) (by decide)]
    rfl
  · rw [hwins [first] second [] rfl "bar" targetSystem (by decide) (by decide)]
    show lookupEntry targetSystem (.mapping [(.text "nixos", .sequence [.text "libbar"])]) = _
    simp [lookupEntry, Value.get?, packages?, targetSystem, Value.text?]
  · rw [hsize]
    decide

end RosRecipes.Rosdep.Rules
