import ReleaseWeaver.Proofs.Toml.Spellings
import ReleaseWeaver.Toml.Document

/-
  Documents of strings read back: some entries at the top, and behind them tables that have nothing
  but strings. Line by line the reader gets the keys and the strings as they were written, and put
  together the lines give the entries of each table under its name. Main statement: where no key is
  written twice in one place, the reader gets exactly what was written.
-/

namespace ReleaseWeaver.Toml

/-! ## Keys -/

/-- A key that needs no quotes. -/
def IsBare (key : String) : Prop := key.toList ≠ [] ∧ ∀ c ∈ key.toList, isBareKeyChar c = true

instance (key : String) : Decidable (IsBare key) :=
  decidable_of_iff (key.toList.isEmpty = false ∧ key.toList.all isBareKeyChar = true) <| by
    rw [IsBare, List.isEmpty_eq_false_iff, List.all_eq_true]

/-- A bare key starts with none of the characters that mean something else there. -/
theorem IsBare.cons {key : String} (bare : IsBare key) : ∃ c cs, key.toList = c :: cs ∧
    c ∉ ['"', '\'', '[', '#', '\n', '\r', ' ', '\t', '\ufeff'] := by
  obtain ⟨nonempty, chars⟩ := bare
  cases same : key.toList with
  | nil => exact absurd same nonempty
  | cons c cs =>
    refine ⟨c, cs, rfl, fun listed => ?_⟩
    have others : ∀ c ∈ ['"', '\'', '[', '#', '\n', '\r', ' ', '\t', '\ufeff'],
        isBareKeyChar c = false := by
      simp only [List.forall_mem_cons, List.not_mem_nil, false_imp_iff, implies_true, and_true]
      decide
    have char := chars c (by simp [same])
    rw [others c listed] at char
    cases char

theorem readSimpleKey_bare {key : String} (bare : IsBare key) {rest : List Char}
    (stops : rest.takeWhile isBareKeyChar = []) :
    readSimpleKey (key.toList ++ rest) = some (key, rest) := by
  obtain ⟨c, cs, same, other⟩ := bare.cons
  simp only [List.mem_cons, not_or] at other
  have kept : rest.dropWhile isBareKeyChar = rest := by
    have split := List.takeWhile_append_dropWhile (p := isBareKeyChar) (l := rest)
    rwa [stops, List.nil_append] at split
  have taken : (key.toList ++ rest).takeWhile isBareKeyChar = key.toList := by
    rw [List.takeWhile_append_of_pos bare.2, stops, List.append_nil]
  have dropped : (key.toList ++ rest).dropWhile isBareKeyChar = rest := by
    rw [List.dropWhile_append_of_pos bare.2, kept]
  rw [readSimpleKey, taken, dropped, String.ofList_toList]
  · simp [same]
  · rw [same]
    exact fun _ here => other.1 (List.cons.inj here).1
  · rw [same]
    exact fun _ here => other.2.1 (List.cons.inj here).1

theorem skipBlanks_bare {key : String} (bare : IsBare key) (rest : List Char) :
    skipBlanks (key.toList ++ rest) = key.toList ++ rest := by
  obtain ⟨c, cs, same, other⟩ := bare.cons
  simp only [List.mem_cons, not_or] at other
  rw [same, List.cons_append, skipBlanks, List.dropWhile_cons_of_neg]
  simp [isBlank, other]

/-- A bare key with no dot behind it. -/
theorem readKey_bare {key : String} (bare : IsBare key) (rest : List Char)
    (stops : rest.takeWhile isBareKeyChar = []) (single : ∀ more, skipBlanks rest ≠ '.' :: more) :
    readKey (key.toList ++ rest) = some ([], key, skipBlanks rest) := by
  obtain ⟨c, cs, same, _⟩ := bare.cons
  have keys : readKeys (key.toList ++ rest).length (key.toList ++ rest) =
      some ([key], skipBlanks rest) := by
    have length : (key.toList ++ rest).length = (cs ++ rest).length + 1 := by
      rw [same, List.cons_append, List.length_cons]
    rw [length, readKeys, skipBlanks_bare bare, readSimpleKey_bare bare stops]
    dsimp only [Option.bind_eq_bind, Option.bind_some]
    split
    · next here => exact absurd here (single _)
    · rfl
  rw [readKey, keys]
  rfl

/-! ## Lines -/

/-- A line as it is written: a string under a key, or the header of a table. -/
inductive Written where
  | entry (key text : String)
  | header (name : String)

namespace Written

def name : Written → String
  | entry key _ => key
  | header name => name

def chars : Written → List Char
  | entry key text => key.toList ++ ' ' :: '=' :: ' ' :: (writeChars text.toList ++ ['\n'])
  | header name => '\n' :: '[' :: (name.toList ++ [']', '\n'])

/-- What the line says. -/
def line : Written → Line
  | entry key text => .entry [] key (.string text)
  | header name => .table [] name

end Written

theorem readValue_string (text : String) (rest : List Char) :
    readValue nestingLimit (writeChars text.toList ++ '\n' :: rest) =
      some (.string text, '\n' :: rest) := by
  have back : readString (writeChars text.toList ++ '\n' :: rest) = _ :=
    readString_writeChars text.toList nofun nofun
  have read : readValue.readText nestingLimit (writeChars text.toList ++ '\n' :: rest) =
      some (.string text, '\n' :: rest) := by
    rw [readValue.readText, back, Option.map_some]
    dsimp only
    rw [String.ofList_toList]
  obtain ⟨quote, body, same, rfl | rfl⟩ := writeChars_cons text.toList
  · rw [same] at read ⊢
    exact read
  · rw [same] at read ⊢
    exact read

theorem skipBlanks_string (text : String) (rest : List Char) :
    skipBlanks (' ' :: (writeChars text.toList ++ rest)) = writeChars text.toList ++ rest := by
  obtain ⟨quote, body, same, rfl | rfl⟩ := writeChars_cons text.toList <;> rw [same] <;> rfl

/-- A line is read back behind the line end that may be ahead of it. -/
theorem readLine_written (w : Written) (bare : IsBare w.name) (rest : List Char) :
    ∃ c cs, skipTrivia false (w.chars ++ rest) = some (c :: cs) ∧
      readLine (c :: cs) = some (w.line, rest) := by
  cases w with
  | entry key text =>
    have bare : IsBare key := bare
    obtain ⟨c, cs, same, other⟩ := bare.cons
    simp only [List.mem_cons, List.not_mem_nil, or_false, not_or] at other
    obtain ⟨double, single, bracket, hash, newline, back, blank, tab, _⟩ := other
    have chars : (Written.entry key text).chars ++ rest =
        key.toList ++ ' ' :: '=' :: ' ' :: (writeChars text.toList ++ '\n' :: rest) := by
      simp [Written.chars]
    have first : key.toList ++ ' ' :: '=' :: ' ' :: (writeChars text.toList ++ '\n' :: rest) =
        c :: (cs ++ ' ' :: '=' :: ' ' :: (writeChars text.toList ++ '\n' :: rest)) := by
      rw [same]
      rfl
    have keyed := readKey_bare bare
      (' ' :: '=' :: ' ' :: (writeChars text.toList ++ '\n' :: rest)) rfl
      fun _ dot => by cases dot
    refine ⟨c, cs ++ ' ' :: '=' :: ' ' :: (writeChars text.toList ++ '\n' :: rest), ?_, ?_⟩
    · rw [chars, first, skipTrivia.eq_4 _ _ _ newline fun _ same => absurd same back]
      simp [isBlank, blank, tab, hash]
    · rw [← first, readLine.eq_3]
      · rw [keyed]
        show ((readValue nestingLimit (skipBlanks (' ' :: (writeChars text.toList ++ '\n' :: rest)))
          ).bind fun read => (endLine false read.2).bind fun rest =>
            some (Line.entry [] key read.1, rest)) = _
        rw [skipBlanks_string, readValue_string]
        rfl
      · rw [first]
        exact fun _ here => bracket (List.cons.inj here).1
      · rw [first]
        exact fun _ here => bracket (List.cons.inj here).1
  | header name =>
    have bare : IsBare name := bare
    obtain ⟨c, cs, same, other⟩ := bare.cons
    simp only [List.mem_cons, List.not_mem_nil, or_false, not_or] at other
    have keyed := readKey_bare bare (']' :: '\n' :: rest) rfl fun _ dot => by cases dot
    refine ⟨'[', name.toList ++ ']' :: '\n' :: rest, ?_, ?_⟩
    · simp [Written.chars, skipTrivia, isBlank]
    · rw [readLine]
      · rw [keyed]
        rfl
      · rw [same]
        exact fun _ here => other.2.2.1 (List.cons.inj here).1

/-- No line starts with a byte order mark. -/
theorem dropMark_written {written : List Written} (bare : ∀ w ∈ written, IsBare w.name) :
    dropMark (written.flatMap Written.chars) = written.flatMap Written.chars := by
  cases written with
  | nil => rfl
  | cons w rest =>
    have here : IsBare w.name := bare w List.mem_cons_self
    obtain ⟨c, cs, same, other⟩ := here.cons
    rw [dropMark.eq_2]
    intro more start
    rw [List.flatMap_cons] at start
    cases w with
    | entry key text =>
      rw [Written.chars, show key.toList = c :: cs from same] at start
      exact other (by simp [(List.cons.inj start).1])
    | header name => cases start

theorem length_written (written : List Written) :
    written.length ≤ (written.flatMap Written.chars).length := by
  induction written with
  | nil => exact Nat.le_refl _
  | cons w rest ih =>
    have nonempty : 0 < w.chars.length := by
      cases w with
      | entry key text => rw [Written.chars, List.length_append, List.length_cons]; omega
      | header name => exact Nat.succ_pos _
    rw [List.flatMap_cons, List.length_append, List.length_cons]
    omega

/-- The lines of a document are read back. -/
theorem readLines_written (written : List Written) (bare : ∀ w ∈ written, IsBare w.name)
    {count : Nat} (enough : written.length < count) :
    readLines count (written.flatMap Written.chars) = some (written.map Written.line) := by
  induction written generalizing count with
  | nil =>
    cases count with
    | zero => cases enough
    | succ count => rfl
  | cons w rest ih =>
    obtain ⟨here, further⟩ := List.forall_mem_cons.1 bare
    cases count with
    | zero => cases enough
    | succ count =>
      obtain ⟨c, cs, trivia, line⟩ := readLine_written w here (rest.flatMap Written.chars)
      rw [List.flatMap_cons, readLines, trivia]
      show ((readLine (c :: cs)).bind fun read => (readLines count read.2).bind fun lines =>
        some (read.1 :: lines)) = _
      rw [line, Option.bind_some, ih further (Nat.lt_of_succ_lt_succ enough)]
      rfl

/-! ## Tables -/

/-- Entries that are strings. -/
def stringEntries (entries : List (String × String)) : Entries :=
  entries.map fun e => (e.1, .string e.2)

/-- Tables of strings, each under its header. -/
def tableEntries (tables : List (String × List (String × String))) : Entries :=
  tables.map fun table => (table.1, .table .header (stringEntries table.2))

section

variable {entries inner : Entries} {key : String} {v v' : Value}

theorem lookup_fresh (fresh : key ∉ entries.map Prod.fst) : entries.lookup key = none := by
  refine List.lookup_eq_none_iff.2 fun e listed => ?_
  rw [bne_iff_ne]
  rintro rfl
  exact fresh (List.mem_map_of_mem listed)

theorem lookup_concat (fresh : key ∉ entries.map Prod.fst) :
    (entries ++ [(key, v)]).lookup key = some v := by
  rw [List.lookup_append, lookup_fresh fresh, Option.none_or]
  simp

theorem replace_concat (fresh : key ∉ entries.map Prod.fst) :
    Entries.replace (entries ++ [(key, v)]) key v' = entries ++ [(key, v')] := by
  have kept : entries.map (fun e => if e.1 == key then (key, v') else e) = entries := by
    refine (List.map_congr_left fun e listed => if_neg ?_).trans (List.map_id entries)
    rw [beq_iff_eq]
    rintro rfl
    exact fresh (List.mem_map_of_mem listed)
  rw [Entries.replace, List.map_append, kept]
  simp

/-- A line under no header adds to the top. -/
theorem add?_top (fresh : key ∉ entries.map Prod.fst) (v : Value) :
    Draft.add? ⟨entries, []⟩ (.entry [] key v) = some ⟨entries ++ [(key, v)], []⟩ := by
  simp [Draft.add?, Entries.updateHeader?, Entries.update?, Entries.addDotted?, Entries.add?,
    lookup_fresh fresh]

/-- A line under the header of a table adds to this table. -/
theorem add?_inside {name : String} (outside : name ∉ entries.map Prod.fst)
    (fresh : key ∉ inner.map Prod.fst) (v : Value) :
    Draft.add? ⟨entries ++ [(name, .table .header inner)], [name]⟩ (.entry [] key v) =
      some ⟨entries ++ [(name, .table .header (inner ++ [(key, v)]))], [name]⟩ := by
  simp [Draft.add?, Entries.updateHeader?, Entries.update?, Entries.addDotted?, Entries.add?,
    lookup_fresh fresh, lookup_concat outside, replace_concat outside]

theorem add?_header {name : String} (fresh : name ∉ entries.map Prod.fst) (current : List String) :
    Draft.add? ⟨entries, current⟩ (.table [] name) =
      some ⟨entries ++ [(name, .table .header [])], [name]⟩ := by
  simp [Draft.add?, Entries.updateHeader?, Entries.update?, Entries.openTable?, lookup_fresh fresh]

/-- Lines with strings, where each of them adds its entry to the same place. -/
theorem foldlM_entries (place : Entries → Draft) (adds : ∀ {key inner}, key ∉ inner.map Prod.fst →
      ∀ v, (place inner).add? (.entry [] key v) = some (place (inner ++ [(key, v)])))
    (inner : Entries) (texts : List (String × String))
    (once : (inner.map Prod.fst ++ texts.map Prod.fst).Nodup) :
    (texts.map fun e => (Written.entry e.1 e.2).line).foldlM Draft.add? (place inner) =
      some (place (inner ++ stringEntries texts)) := by
  induction texts generalizing inner with
  | nil => simp [stringEntries]
  | cons e rest ih =>
    have fresh : e.1 ∉ inner.map Prod.fst := fun listed =>
      (List.nodup_append.1 once).2.2 _ listed _ (by simp) rfl
    have once' : ((inner ++ [(e.1, Value.string e.2)]).map Prod.fst ++ rest.map Prod.fst).Nodup := by
      simpa using once
    rw [List.map_cons, List.foldlM_cons, Written.line, adds fresh, Option.bind_eq_bind,
      Option.bind_some, ih _ once', List.append_assoc]
    rfl

end

/-- The lines of a table. -/
def tableLines (table : String × List (String × String)) : List Written :=
  .header table.1 :: table.2.map fun e => .entry e.1 e.2

theorem foldlM_tables (entries : Entries) (tables : List (String × List (String × String)))
    (once : (entries.map Prod.fst ++ tables.map Prod.fst).Nodup)
    (inside : ∀ table ∈ tables, (table.2.map Prod.fst).Nodup) (current : List String) :
    ∃ last, ((tables.flatMap tableLines).map Written.line).foldlM Draft.add? ⟨entries, current⟩ =
      some ⟨entries ++ tableEntries tables, last⟩ := by
  induction tables generalizing entries current with
  | nil => exact ⟨current, by simp [tableEntries]⟩
  | cons table rest ih =>
    obtain ⟨here, further⟩ := List.forall_mem_cons.1 inside
    have fresh : table.1 ∉ entries.map Prod.fst := fun listed =>
      (List.nodup_append.1 once).2.2 _ listed _ (by simp) rfl
    have filled := foldlM_entries
      (fun inner => ⟨entries ++ [(table.1, .table .header inner)], [table.1]⟩)
      (fun fresh' v => add?_inside fresh fresh' v) [] table.2 (by simpa using here)
    obtain ⟨last, done⟩ := ih (entries ++
      [(table.1, .table .header (stringEntries table.2))]) (by simpa using once) further [table.1]
    refine ⟨last, ?_⟩
    rw [List.flatMap_cons, tableLines, List.cons_append, List.map_cons, Written.line,
      List.foldlM_cons, add?_header fresh, Option.bind_eq_bind, Option.bind_some, List.map_append,
      List.map_map, List.foldlM_append]
    refine Eq.trans (congrArg (· >>= _) filled) ?_
    rw [Option.bind_eq_bind, Option.bind_some, List.nil_append, done, List.append_assoc]
    rfl

/-! ## A whole document -/

theorem toList_writeEntries (texts : List (String × String)) : (writeEntries texts).toList =
    (texts.map fun e => Written.entry e.1 e.2).flatMap Written.chars := by
  rw [writeEntries, String.toList_join, List.flatMap_map, List.flatMap_map]
  refine List.flatMap_congr fun e _ => ?_
  simp only [String.toList_append, writeString, String.toList_ofList, Written.chars]
  simp

theorem toList_writeTable (table : String × List (String × String)) :
    (writeTable table.1 table.2).toList = (tableLines table).flatMap Written.chars := by
  rw [writeTable, tableLines, List.flatMap_cons, String.toList_append, toList_writeEntries]
  simp [Written.chars]

/-- What is written is read back, if no key is written twice in one place. -/
theorem parse?_written (top : List (String × String))
    (tables : List (String × List (String × String)))
    (once : (top.map Prod.fst ++ tables.map Prod.fst).Nodup)
    (inside : ∀ table ∈ tables, (table.2.map Prod.fst).Nodup)
    (bare : ∀ e ∈ top, IsBare e.1)
    (bare' : ∀ table ∈ tables, IsBare table.1 ∧ ∀ e ∈ table.2, IsBare e.1) :
    parse? (writeEntries top ++ String.join (tables.map fun table =>
      writeTable table.1 table.2)) = some (stringEntries top ++ tableEntries tables) := by
  let written := (top.map fun e => Written.entry e.1 e.2) ++ tables.flatMap tableLines
  have chars : (writeEntries top ++ String.join (tables.map fun table =>
      writeTable table.1 table.2)).toList = written.flatMap Written.chars := by
    have rest : (tables.map fun table => writeTable table.1 table.2).flatMap String.toList =
        (tables.flatMap tableLines).flatMap Written.chars := by
      rw [List.flatMap_map, List.flatMap_assoc]
      exact List.flatMap_congr fun table _ => toList_writeTable table
    rw [String.toList_append, toList_writeEntries, String.toList_join, rest, List.flatMap_append]
  have keys : ∀ w ∈ written, IsBare w.name := by
    intro w listed
    obtain first | later := List.mem_append.1 listed
    · obtain ⟨e, among, rfl⟩ := List.mem_map.1 first
      exact bare e among
    · obtain ⟨table, among, line⟩ := List.mem_flatMap.1 later
      obtain rfl | line := List.mem_cons.1 line
      · exact (bare' table among).1
      · obtain ⟨e, member, rfl⟩ := List.mem_map.1 line
        exact (bare' table among).2 e member
  have unmarked := dropMark_written keys
  have length := Nat.lt_succ_of_le (length_written written)
  have filled := foldlM_entries (fun inner => ⟨inner, []⟩)
    (fun fresh v => add?_top fresh v) [] top (by simpa using (List.nodup_append.1 once).1)
  obtain ⟨last, done⟩ := foldlM_tables (stringEntries top) tables
    (by simpa [stringEntries, Function.comp_def] using once) inside []
  rw [parse?, chars, unmarked, readLines_written written keys length]
  show (((written.map Written.line).foldlM Draft.add? {}).bind fun d => some d.entries) = _
  have whole : (written.map Written.line).foldlM Draft.add? {} =
      some ⟨stringEntries top ++ tableEntries tables, last⟩ := by
    rw [List.map_append, List.map_map, List.foldlM_append]
    exact (congrArg (· >>= _) filled).trans done
  rw [whole]
  rfl

end ReleaseWeaver.Toml
