import ReleaseWeaver.Proofs.Toml.Documents
import ReleaseWeaver.Config.Document

/-
  A configuration that is written and read back, with any of its keys left out. What is written is
  a document of strings, so the reader gets the entries that are left; each part of the
  configuration is then found under its key, and where the key is left out stands the default.
-/

namespace ReleaseWeaver.Config

open Toml (Value Entries)

/-- The keys that may be missing: those at the top and those of the markers. -/
inductive Key where
  | fieldPrefix
  | handleCallFragment
  | releaseMethod
  | disposalContract
  | trackingContainer
  | registrationHelper
  | commandCapability
  | markers
  | trackHandles
  | releaseCommands
deriving DecidableEq

/-- A key as it stands in the document. -/
def Key.name : Key → String
  | .fieldPrefix => "field_prefix"
  | .handleCallFragment => "handle_call_fragment"
  | .releaseMethod => "release_method"
  | .disposalContract => "disposal_contract"
  | .trackingContainer => "tracking_container"
  | .registrationHelper => "registration_helper"
  | .commandCapability => "command_capability"
  | .markers => "markers"
  | .trackHandles => "track_handles"
  | .releaseCommands => "release_commands"

theorem Key.name_injective {k k' : Key} (same : k.name = k'.name) : k = k' := by
  cases k <;> cases k' <;> first | rfl | exact absurd same (by decide)

/-- What is left of some entries. No other key of a table has the name of one that may be
missing. -/
def without {α : Type} (omitted : List Key) (entries : List (String × α)) : List (String × α) :=
  entries.filter fun e => !(omitted.any fun k => k.name == e.1)

/-- The tables that are left, with what is left of each of them. -/
def tablesWithout (c : Config) (omitted : List Key) : List (String × List (String × String)) :=
  (without omitted c.tables).map fun table => (table.1, without omitted table.2)

/-- Write a configuration and leave out some keys. -/
def toTomlWithout (c : Config) (omitted : List Key) : String :=
  Toml.writeEntries (without omitted c.topEntries)
    ++ String.join ((c.tablesWithout omitted).map fun table => Toml.writeTable table.1 table.2)

/-- A configuration with the default for each of some keys. -/
def withDefaults (c : Config) (omitted : List Key) : Config :=
  let choose {α : Type} (k : Key) (fallback own : α) : α := if k ∈ omitted then fallback else own
  let known : Config := default
  { fieldPrefix := choose .fieldPrefix known.fieldPrefix c.fieldPrefix
    handleCallFragment := choose .handleCallFragment known.handleCallFragment c.handleCallFragment
    releaseMethod := choose .releaseMethod known.releaseMethod c.releaseMethod
    disposalContract := choose .disposalContract known.disposalContract c.disposalContract
    trackingContainer := choose .trackingContainer known.trackingContainer c.trackingContainer
    registrationHelper := choose .registrationHelper known.registrationHelper c.registrationHelper
    commandCapability := choose .commandCapability known.commandCapability c.commandCapability
    markers := choose .markers known.markers
      { trackHandles := choose .trackHandles known.markers.trackHandles c.markers.trackHandles
        releaseCommands :=
          choose .releaseCommands known.markers.releaseCommands c.markers.releaseCommands } }

/-! ## What is left -/

section

variable {α : Type} {omitted : List Key} {entries : List (String × α)}

theorem without_nil (entries : List (String × α)) : without [] entries = entries :=
  List.filter_eq_self.2 fun _ _ => rfl

theorem lookup_without (omitted : List Key) (entries : List (String × α)) (k : Key) :
    (without omitted entries).lookup k.name =
      if k ∈ omitted then none else entries.lookup k.name := by
  have gone : (omitted.any fun k' => k'.name == k.name) = decide (k ∈ omitted) := by
    rw [Bool.eq_iff_iff, List.any_eq_true, decide_eq_true_iff]
    constructor
    · rintro ⟨k', listed, same⟩
      rwa [← Key.name_injective (beq_iff_eq.1 same)]
    · exact fun listed => ⟨k, listed, beq_self_eq_true _⟩
  induction entries with
  | nil => simp [without]
  | cons e rest ih =>
    rw [without] at ih ⊢
    by_cases here : k.name = e.1
    · by_cases listed : k ∈ omitted
      · rw [List.filter_cons_of_neg (by simp [← here, gone, listed]), ih, if_pos listed,
          if_pos listed]
      · rw [List.filter_cons_of_pos (by simp [← here, gone, listed]), if_neg listed,
          List.lookup_cons, List.lookup_cons, here, beq_self_eq_true]
    · have other : List.lookup k.name (e :: rest) = List.lookup k.name rest := by
        rw [List.lookup_cons, beq_false_of_ne here]
      rw [other, ← ih, List.filter_cons]
      split
      · rw [List.lookup_cons, beq_false_of_ne here]
      · rfl

/-- The keys of a symbol are never left out. -/
theorem without_symbol (omitted : List Key)
    (others : ∀ e ∈ entries, e.1 ∈ ["type", "member", "name", "assembly"]) :
    without omitted entries = entries := by
  refine List.filter_eq_self.2 fun e listed => ?_
  have other (k : Key) : k.name ∉ ["type", "member", "name", "assembly"] := by
    cases k <;> decide
  have absent : ∀ k ∈ omitted, k.name ≠ e.1 := fun k _ same => other k (same ▸ others e listed)
  simpa using absent

theorem without_map {β : Type} (omitted : List Key) (f : String × α → β)
    (entries : List (String × α)) : (without omitted entries).map (fun e => (e.1, f e)) =
      without omitted (entries.map fun e => (e.1, f e)) := by
  rw [without, without, List.filter_map]
  rfl

theorem without_append (omitted : List Key) (entries entries' : List (String × α)) :
    without omitted (entries ++ entries') = without omitted entries ++ without omitted entries' :=
  List.filter_append ..

end

/-! ## What is read back -/

/-- A table as it is read, without the keys left out. -/
def tableLeft (omitted : List Key) (entries : List (String × String)) : Value :=
  .table .header (without omitted (Toml.stringEntries entries))

theorem stringEntries_without (omitted : List Key) (entries : List (String × String)) :
    Toml.stringEntries (without omitted entries) = without omitted (Toml.stringEntries entries) :=
  without_map omitted (fun e => Value.string e.2) entries

theorem tableEntries_without (c : Config) (omitted : List Key) :
    Toml.tableEntries (c.tablesWithout omitted) =
      without omitted (c.tables.map fun table => (table.1, tableLeft omitted table.2)) := by
  rw [← without_map, tablesWithout, Toml.tableEntries, List.map_map]
  refine List.map_congr_left fun table _ => ?_
  rw [Function.comp_apply, stringEntries_without, tableLeft]

theorem typeSymbol?_left (omitted : List Key) (s : TypeSymbol) :
    typeSymbol? (tableLeft omitted [("name", s.name), ("assembly", s.assembly)]) = some s := by
  rw [tableLeft, without_symbol omitted (by simp [Toml.stringEntries])]
  rfl

theorem memberSymbol?_left (omitted : List Key) (s : MemberSymbol) :
    memberSymbol? (tableLeft omitted
      [("type", s.type), ("member", s.member), ("assembly", s.assembly)]) = some s := by
  rw [tableLeft, without_symbol omitted (by simp [Toml.stringEntries])]
  rfl

theorem markerNames?_left (omitted : List Key) (m : MarkerNames) :
    markerNames? (tableLeft omitted
      [("track_handles", m.trackHandles), ("release_commands", m.releaseCommands)]) =
      some {
        trackHandles :=
          if .trackHandles ∈ omitted then default.markers.trackHandles else m.trackHandles
        releaseCommands :=
          if .releaseCommands ∈ omitted then default.markers.releaseCommands
          else m.releaseCommands } := by
  have found := lookup_without omitted (Toml.stringEntries
    [("track_handles", m.trackHandles), ("release_commands", m.releaseCommands)])
  have first : List.lookup "track_handles" (without omitted (Toml.stringEntries
      [("track_handles", m.trackHandles), ("release_commands", m.releaseCommands)])) =
      if .trackHandles ∈ omitted then none else some (.string m.trackHandles) :=
    found .trackHandles
  have second : List.lookup "release_commands" (without omitted (Toml.stringEntries
      [("track_handles", m.trackHandles), ("release_commands", m.releaseCommands)])) =
      if .releaseCommands ∈ omitted then none else some (.string m.releaseCommands) :=
    found .releaseCommands
  simp only [markerNames?, stringsOf, valuesOf, tableLeft, List.map_cons, List.map_nil, first,
    second]
  by_cases inFirst : Key.trackHandles ∈ omitted <;>
    by_cases inSecond : Key.releaseCommands ∈ omitted <;>
    simp only [inFirst, inSecond, if_true, if_false] <;> rfl

/-- The entries of a document without some keys. -/
def entriesLeft (c : Config) (omitted : List Key) : Entries :=
  without omitted (Toml.stringEntries c.topEntries
    ++ c.tables.map fun table => (table.1, tableLeft omitted table.2))

/-- A key is found unless it is left out. -/
theorem keyOr_left {α : Type} (c : Config) (omitted : List Key) (k : Key)
    (read : Value → Option α) (fallback : α) {v : Value} {a : α}
    (found : (Toml.stringEntries c.topEntries
      ++ c.tables.map fun table => (table.1, tableLeft omitted table.2)).lookup k.name = some v)
    (reads : read v = some a) : keyOr (c.entriesLeft omitted) k.name read fallback =
      some (if k ∈ omitted then fallback else a) := by
  rw [keyOr, entriesLeft, lookup_without, found]
  split <;> simp_all

theorem ofEntries?_left (c : Config) (omitted : List Key) :
    ofEntries? (c.entriesLeft omitted) = some (c.withDefaults omitted) := by
  have symbol {s : TypeSymbol} := typeSymbol?_left omitted s
  have fieldPrefix := keyOr_left c omitted .fieldPrefix string? default.fieldPrefix rfl rfl
  have handleCallFragment :=
    keyOr_left c omitted .handleCallFragment string? default.handleCallFragment rfl rfl
  have releaseMethod := keyOr_left c omitted .releaseMethod string? default.releaseMethod rfl rfl
  have disposalContract :=
    keyOr_left c omitted .disposalContract typeSymbol? default.disposalContract rfl symbol
  have trackingContainer :=
    keyOr_left c omitted .trackingContainer typeSymbol? default.trackingContainer rfl symbol
  have registrationHelper := keyOr_left c omitted .registrationHelper memberSymbol?
    default.registrationHelper rfl (memberSymbol?_left omitted _)
  have commandCapability :=
    keyOr_left c omitted .commandCapability typeSymbol? default.commandCapability rfl symbol
  have markers := keyOr_left c omitted .markers markerNames? default.markers rfl
    (markerNames?_left omitted _)
  simp only [Key.name, Config.default] at fieldPrefix handleCallFragment releaseMethod markers
  simp only [Key.name, Config.default] at disposalContract trackingContainer
  simp only [Key.name, Config.default] at registrationHelper commandCapability
  simp only [ofEntries?, fieldPrefix, handleCallFragment, releaseMethod, disposalContract,
    trackingContainer, registrationHelper, commandCapability, markers]
  rfl

/-! ## What is written -/

theorem topEntries_bare (c : Config) : ∀ e ∈ c.topEntries, Toml.IsBare e.1 := by
  have keys : ∀ key ∈ c.topEntries.map Prod.fst, Toml.IsBare key := by
    simp only [topEntries, List.map_cons, List.map_nil]
    decide
  exact List.forall_mem_map.1 keys

/-- Every table is under a bare key, and so are its entries, none of them twice. -/
theorem tables_bare (c : Config) : ∀ table ∈ c.tables, Toml.IsBare table.1 ∧
    (table.2.map Prod.fst).Nodup ∧ ∀ e ∈ table.2, Toml.IsBare e.1 := by
  have keys : ∀ table ∈ c.tables.map fun table => (table.1, table.2.map Prod.fst),
      Toml.IsBare table.1 ∧ table.2.Nodup ∧ ∀ key ∈ table.2, Toml.IsBare key := by
    simp only [tables, List.map_cons, List.map_nil]
    decide
  intro table listed
  obtain ⟨bare, once, inside⟩ := keys _ (List.mem_map_of_mem listed)
  exact ⟨bare, once, List.forall_mem_map.1 inside⟩

theorem names_nodup (c : Config) :
    (c.topEntries.map Prod.fst ++ c.tables.map Prod.fst).Nodup := by
  simp only [topEntries, tables, List.map_cons, List.map_nil]
  decide

/-- The reader gets the entries that are left. -/
theorem parse?_without (c : Config) (omitted : List Key) :
    Toml.parse? (c.toTomlWithout omitted) = some (c.entriesLeft omitted) := by
  have fewer {α : Type} (entries : List (String × α)) :
      ((without omitted entries).map Prod.fst).Sublist (entries.map Prod.fst) :=
    List.filter_sublist.map _
  have names : (c.tablesWithout omitted).map Prod.fst =
      (without omitted c.tables).map Prod.fst := by
    rw [tablesWithout, List.map_map]
    rfl
  have once : ((without omitted c.topEntries).map Prod.fst
      ++ (c.tablesWithout omitted).map Prod.fst).Nodup := by
    rw [names]
    exact c.names_nodup.sublist ((fewer _).append (fewer _))
  have top : ∀ e ∈ without omitted c.topEntries, Toml.IsBare e.1 := fun e listed =>
    c.topEntries_bare e (List.mem_of_mem_filter listed)
  have inside : ∀ table ∈ c.tablesWithout omitted, Toml.IsBare table.1 ∧
      (table.2.map Prod.fst).Nodup ∧ ∀ e ∈ table.2, Toml.IsBare e.1 := by
    refine List.forall_mem_map.2 fun table listed => ?_
    obtain ⟨bare, once, inside⟩ := c.tables_bare table (List.mem_of_mem_filter listed)
    exact ⟨bare, once.sublist (fewer _), fun e left => inside e (List.mem_of_mem_filter left)⟩
  have read := Toml.parse?_written _ _ once (fun table listed => (inside table listed).2.1) top
    fun table listed => ⟨(inside table listed).1, (inside table listed).2.2⟩
  rw [toTomlWithout, read, entriesLeft, without_append, stringEntries_without,
    tableEntries_without]

/-- With any keys left out, what is written reads back as the configuration with their defaults;
with no key left out, that is the text the writer gives, and the configuration itself. -/
theorem ofToml_toTomlWithout (c : Config) :
    (∀ omitted, ofToml (c.toTomlWithout omitted) = .ok (c.withDefaults omitted)) ∧
      c.toTomlWithout [] = c.toToml ∧ ofToml c.toToml = .ok c := by
  have read (omitted : List Key) :
      ofToml (c.toTomlWithout omitted) = .ok (c.withDefaults omitted) := by
    rw [ofToml, parse?_without, Option.bind_some, ofEntries?_left]
  have whole : c.toTomlWithout [] = c.toToml := by
    simp only [toTomlWithout, tablesWithout, without_nil, toToml, List.map_map]
    rfl
  exact ⟨read, whole, whole ▸ read []⟩

end ReleaseWeaver.Config
