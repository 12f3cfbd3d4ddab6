import ReleaseWeaver.Metadata.Module

/-
  What the full name of a type tells. References that are the same have the same full name, feed the
  same words to a hasher and have the same definition, whatever their scopes. The other way round
  the text has to be taken apart: the qualified name ends before the first mark, and an argument
  ends before the comma or the bracket that follows it, for what is inside its own brackets is read
  with it. This needs names without dots and without marks, and namespaces without marks; a
  parameter is not told from a type without a namespace. Main statement: with such names, references
  are the same if their full names are.
-/

namespace ReleaseWeaver

/-- What can be behind an argument. -/
def isClosing (c : Char) : Bool := c == '>' || c == ','

/-- The characters that stand around generic arguments. -/
def isMark (c : Char) : Bool := c == '<' || isClosing c

namespace TypeRef

mutual

/-- No parameter at any depth, no mark in a name or a namespace, and no dot in a name. -/
def isLegible : TypeRef → Bool
  | .named ns name _ args =>
    ns.toList.all (fun c => !isMark c) && name.toList.all (fun c => !isMark c && c != '.') &&
      areLegible args
  | .param _ => false

def areLegible : List TypeRef → Bool
  | [] => true
  | a :: as => isLegible a && areLegible as

end

/-! ## References that are the same -/

mutual

theorem fullName_of_sameAs : ∀ {a b : TypeRef}, sameAs a b = true → a.fullName = b.fullName
  | .named .., .named .., same => by
    simp only [sameAs, Bool.and_eq_true, beq_iff_eq] at same
    obtain ⟨⟨rfl, rfl⟩, args⟩ := same
    rw [fullName, fullName, fullNames_of_sameArgs args]
  | .param _, .param _, same => by
    simp only [sameAs, beq_iff_eq] at same
    rw [fullName, fullName, same]

theorem fullNames_of_sameArgs : ∀ {as bs : List TypeRef}, sameArgs as bs = true →
    fullNames as = fullNames bs
  | [], [], _ => rfl
  | _ :: _, _ :: _, same => by
    obtain ⟨first, rest⟩ := Bool.and_eq_true_iff.1 same
    rw [fullNames, fullNames, fullName_of_sameAs first, fullNames_of_sameArgs rest]

end

theorem length_of_sameArgs : ∀ {as bs : List TypeRef}, sameArgs as bs = true →
    as.length = bs.length
  | [], [], _ => rfl
  | _ :: _, _ :: _, same => congrArg (· + 1) (length_of_sameArgs (Bool.and_eq_true_iff.1 same).2)

mutual

theorem hashWords_of_sameAs : ∀ {a b : TypeRef}, sameAs a b = true → a.hashWords = b.hashWords
  | .named .., .named .., same => by
    simp only [sameAs, Bool.and_eq_true, beq_iff_eq] at same
    obtain ⟨⟨rfl, rfl⟩, args⟩ := same
    rw [hashWords, hashWords, length_of_sameArgs args, argsHashWords_of_sameArgs args]
  | .param _, .param _, same => by
    simp only [sameAs, beq_iff_eq] at same
    rw [hashWords, hashWords, same]

theorem argsHashWords_of_sameArgs : ∀ {as bs : List TypeRef}, sameArgs as bs = true →
    argsHashWords as = argsHashWords bs
  | [], [], _ => rfl
  | _ :: _, _ :: _, same => by
    obtain ⟨first, rest⟩ := Bool.and_eq_true_iff.1 same
    rw [argsHashWords, argsHashWords, hashWords_of_sameAs first, argsHashWords_of_sameArgs rest]

end

theorem resolve?_of_sameAs {a b : TypeRef} (same : sameAs a b = true) (m : Module) :
    m.resolve? a = m.resolve? b := by
  cases a with
  | named ns name scope args =>
    cases b with
    | named ns' name' scope' args' =>
      simp only [sameAs, Bool.and_eq_true, beq_iff_eq] at same
      obtain ⟨⟨rfl, rfl⟩, _⟩ := same
      rfl
    | param name' => cases same
  | param name =>
    cases b with
    | named ns' name' scope' args' => cases same
    | param name' => rfl

/-! ## Taking a text apart -/

/-- The text is at its end, or goes on with such a character. -/
def Borders (mark : Char → Bool) (rest : List Char) : Prop := ∀ c ∈ rest.head?, mark c = true

theorem borders_nil {mark : Char → Bool} : Borders mark [] := fun _ impossible => by
  cases impossible

theorem borders_cons {mark : Char → Bool} {c : Char} (marks : mark c = true) (rest : List Char) :
    Borders mark (c :: rest) := fun c' first => by
  cases first
  exact marks

theorem Borders.mono {mark mark' : Char → Bool} {rest : List Char} (borders : Borders mark rest)
    (wider : ∀ c, mark c = true → mark' c = true) : Borders mark' rest :=
  fun c first => wider c (borders c first)

/-- Text without marks ends where the marks begin. -/
theorem append_inj_of_borders {mark : Char → Bool} {xs ys r s : List Char}
    (plain : ∀ c ∈ xs, mark c = false) (plain' : ∀ c ∈ ys, mark c = false)
    (borders : Borders mark r) (borders' : Borders mark s) (same : xs ++ r = ys ++ s) :
    xs = ys ∧ r = s := by
  induction xs generalizing ys with
  | nil =>
    cases ys with
    | nil => exact ⟨rfl, same⟩
    | cons y ys =>
      have marks := borders y (by rw [show r = y :: (ys ++ s) from same]; rfl)
      rw [plain' y List.mem_cons_self] at marks
      cases marks
  | cons x xs ih =>
    cases ys with
    | nil =>
      have marks := borders' x (by rw [show s = x :: (xs ++ r) from same.symm]; rfl)
      rw [plain x List.mem_cons_self] at marks
      cases marks
    | cons y ys =>
      obtain ⟨rfl, rest⟩ := List.cons.inj same
      obtain ⟨rfl, rfl⟩ := ih (fun c listed => plain c (List.mem_cons_of_mem x listed))
        (fun c listed => plain' c (List.mem_cons_of_mem x listed)) rest
      exact ⟨rfl, rfl⟩

theorem toList_qualify (ns name : String) : (qualify ns name).toList =
    if ns.isEmpty then name.toList else ns.toList ++ '.' :: name.toList := by
  unfold qualify
  split
  · rfl
  · simp

/-- Without a dot in it, the name is what is behind the last dot. -/
theorem qualify_inj {ns ns' name name' : String} (plain : '.' ∉ name.toList)
    (plain' : '.' ∉ name'.toList) (same : qualify ns name = qualify ns' name') :
    ns = ns' ∧ name = name' := by
  have texts := congrArg String.toList same
  rw [toList_qualify, toList_qualify] at texts
  by_cases empty : ns.isEmpty = true
  · by_cases empty' : ns'.isEmpty = true
    · rw [if_pos empty, if_pos empty'] at texts
      exact ⟨(String.isEmpty_iff.1 empty).trans (String.isEmpty_iff.1 empty').symm,
        String.toList_inj.1 texts⟩
    · rw [if_pos empty, if_neg empty'] at texts
      exact absurd (texts ▸ List.mem_append_right _ List.mem_cons_self) plain
  · by_cases empty' : ns'.isEmpty = true
    · rw [if_neg empty, if_pos empty'] at texts
      exact absurd (texts ▸ List.mem_append_right _ List.mem_cons_self) plain'
    · rw [if_neg empty, if_neg empty'] at texts
      -- Read from the end, the name is the text before the first dot.
      have reversed := congrArg List.reverse texts
      simp only [List.reverse_append, List.reverse_cons, List.append_assoc] at reversed
      have dotless {name : String} (plain : '.' ∉ name.toList) :
          ∀ c ∈ name.toList.reverse, (c == '.') = false := fun c listed => by
        rw [beq_eq_false_iff_ne]
        rintro rfl
        exact plain (List.mem_reverse.1 listed)
      obtain ⟨names, rest⟩ := append_inj_of_borders (dotless plain) (dotless plain')
        (borders_cons rfl _) (borders_cons rfl _) reversed
      exact ⟨String.toList_inj.1 (List.reverse_inj.1 (List.cons.inj rest).2),
        String.toList_inj.1 (List.reverse_inj.1 names)⟩

/-- The text of arguments, the first of them behind `lead`. -/
def behind (lead : Char) : List TypeRef → List Char
  | [] => ['>']
  | a :: as => lead :: (a.fullName.toList ++ behind ',' as)

theorem borders_behind (as : List TypeRef) (r : List Char) :
    Borders isClosing (behind ',' as ++ r) := by
  cases as with
  | nil => exact borders_cons rfl _
  | cons a as => exact borders_cons rfl _

theorem behind_eq (as : List TypeRef) :
    behind ',' as = (fullNames as).flatMap (fun t => ',' :: t.toList) ++ ['>'] := by
  induction as with
  | nil => rfl
  | cons a as ih => rw [behind, ih, fullNames, List.flatMap_cons, List.append_assoc]; rfl

theorem toList_intercalate_cons (t : String) (ts : List String) :
    (String.intercalate "," (t :: ts)).toList =
      t.toList ++ ts.flatMap fun u => ',' :: u.toList := by
  rw [String.toList_intercalate]
  induction ts generalizing t with
  | nil => simp [List.intercalate]
  | cons u us ih =>
    simp only [List.map_cons, List.intercalate_cons_cons] at ih ⊢
    rw [ih, List.flatMap_cons]
    simp

theorem toList_bracketed (a : TypeRef) (as : List TypeRef) :
    (bracketed (fullNames (a :: as))).toList = behind '<' (a :: as) := by
  rw [fullNames, bracketed, String.toList_append, String.toList_append, toList_intercalate_cons,
    behind, behind_eq]
  · simp
  · simp

/-- What is behind the qualified name of a reference. -/
theorem borders_bracketed (args : List TypeRef) {r : List Char} (closes : Borders isClosing r) :
    Borders isMark ((bracketed (fullNames args)).toList ++ r) := by
  cases args with
  | nil => exact closes.mono fun c closing => by rw [isMark, closing, Bool.or_true]
  | cons a as =>
    rw [toList_bracketed]
    exact borders_cons rfl _

theorem unmarked_qualify {ns name : String} (plain : ∀ c ∈ ns.toList, isMark c = false)
    (plain' : ∀ c ∈ name.toList, isMark c = false) :
    ∀ c ∈ (qualify ns name).toList, isMark c = false := by
  intro c listed
  rw [toList_qualify] at listed
  split at listed
  · exact plain' c listed
  · obtain before | rest := List.mem_append.1 listed
    · exact plain c before
    · obtain rfl | behind := List.mem_cons.1 rest
      · rfl
      · exact plain' c behind

theorem isLegible_named {ns name : String} {scope : Option String} {args : List TypeRef} :
    (named ns name scope args).isLegible = true ↔ (∀ c ∈ ns.toList, isMark c = false) ∧
      (∀ c ∈ name.toList, isMark c = false) ∧ '.' ∉ name.toList ∧ areLegible args = true := by
  simp only [isLegible, Bool.and_eq_true, List.all_eq_true, Bool.not_eq_true', bne_iff_ne]
  constructor
  · rintro ⟨⟨plain, names⟩, args⟩
    exact ⟨plain, fun c listed => (names c listed).1, fun dot => (names '.' dot).2 rfl, args⟩
  · rintro ⟨plain, plain', dotless, args⟩
    refine ⟨⟨plain, fun c listed => ⟨plain' c listed, ?_⟩⟩, args⟩
    rintro rfl
    exact dotless listed

/-- A bracket is open behind the one name and not behind the other. -/
theorem not_closing_bracketed {a : TypeRef} {as : List TypeRef} {r s : List Char}
    (closes : Borders isClosing r) : r ≠ (bracketed (fullNames (a :: as))).toList ++ s := by
  rintro rfl
  rw [toList_bracketed] at closes
  exact absurd (closes '<' rfl) (by decide)

/-! The texts of two references are taken apart together, over whatever is behind them. -/

mutual

theorem separate : ∀ {a b : TypeRef} {r s : List Char}, a.isLegible = true → b.isLegible = true →
    Borders isClosing r → Borders isClosing s →
    a.fullName.toList ++ r = b.fullName.toList ++ s → sameAs a b = true ∧ r = s
  | .named ns name _ args, .named ns' name' _ args', r, s, legible, legible', closes, closes',
    same => by
    obtain ⟨plain, named, dotless, inside⟩ := isLegible_named.1 legible
    obtain ⟨plain', named', dotless', inside'⟩ := isLegible_named.1 legible'
    rw [fullName, fullName, String.toList_append, String.toList_append, List.append_assoc,
      List.append_assoc] at same
    obtain ⟨names, rest⟩ := append_inj_of_borders (unmarked_qualify plain named)
      (unmarked_qualify plain' named') (borders_bracketed args closes)
      (borders_bracketed args' closes') same
    obtain ⟨rfl, rfl⟩ := qualify_inj dotless dotless' (String.toList_inj.1 names)
    have both : sameArgs args args' = true ∧ r = s := by
      match args, args', inside, inside', rest with
      | [], [], _, _, rest => exact ⟨rfl, rest⟩
      | [], _ :: _, _, _, rest => exact absurd rest (not_closing_bracketed closes)
      | _ :: _, [], _, _, rest => exact absurd rest.symm (not_closing_bracketed closes')
      | a :: as, b :: bs, inside, inside', rest =>
        rw [toList_bracketed, toList_bracketed] at rest
        exact separateArgs (by decide) inside inside' rest
    refine ⟨?_, both.2⟩
    rw [sameAs, both.1]
    simp

theorem separateArgs : ∀ {as bs : List TypeRef} {lead : Char} {r s : List Char}, lead ≠ '>' →
    areLegible as = true → areLegible bs = true → behind lead as ++ r = behind lead bs ++ s →
    sameArgs as bs = true ∧ r = s
  | [], [], _, _, _, _, _, _, same => ⟨rfl, (List.cons.inj same).2⟩
  | [], _ :: _, _, _, _, opens, _, _, same => absurd (List.cons.inj same).1.symm opens
  | _ :: _, [], _, _, _, opens, _, _, same => absurd (List.cons.inj same).1 opens
  | a :: as, b :: bs, _, r, s, _, legible, legible', same => by
    obtain ⟨first, inside⟩ := Bool.and_eq_true_iff.1 legible
    obtain ⟨first', inside'⟩ := Bool.and_eq_true_iff.1 legible'
    rw [behind, behind, List.cons_append, List.cons_append, List.append_assoc,
      List.append_assoc] at same
    have rest := (List.cons.inj same).2
    obtain ⟨head, rest⟩ := separate first first' (borders_behind as r) (borders_behind bs s) rest
    obtain ⟨tail, rest⟩ := separateArgs (by decide) inside inside' rest
    exact ⟨by rw [sameArgs, head, tail]; rfl, rest⟩

end

end TypeRef

/-- Legible references are the same exactly if their full names are. Then they feed the same words to
a hasher, so they hash alike whatever the hasher, and have the same definition in every module. -/
theorem TypeRef.fullName_identifies {a b : TypeRef} (legible : a.isLegible = true)
    (legible' : b.isLegible = true) :
    ((a == b) = true ↔ a.fullName = b.fullName) ∧
      (a.fullName = b.fullName → a.hashWords = b.hashWords ∧ hash a = hash b ∧
        ∀ m : Module, m.resolve? a = m.resolve? b) := by
  have apart (same : a.fullName = b.fullName) : sameAs a b = true :=
    (separate (r := []) (s := []) legible legible' borders_nil borders_nil (by rw [same])).1
  refine ⟨⟨fullName_of_sameAs, apart⟩, fun same => ?_⟩
  have words := hashWords_of_sameAs (apart same)
  have alike : hash a = hash b := by
    show hash a.hashWords = hash b.hashWords
    rw [words]
  exact ⟨words, alike, resolve?_of_sameAs (apart same)⟩

/-- A nested reference whose two definitions may be seen from some assembly. -/
def Sample.pairOf (outer inner : Option String) : TypeRef :=
  .named "App.Data" "Pair`2" outer
    [.named "App" "Box`1" inner [.plain "System" "String"], .plain "" "Global"]

theorem TypeRef.fullName_identifies_nested :
    let a := Sample.pairOf none (some "Lib")
    let b := Sample.pairOf (some "Core") none
    a.isLegible = true ∧ b.isLegible = true ∧ ((a == b) = true ↔ a.fullName = b.fullName) ∧
      (a.fullName = b.fullName → a.hashWords = b.hashWords ∧ hash a = hash b ∧
        ∀ m : Module, m.resolve? a = m.resolve? b) :=
  ⟨by decide, by decide, TypeRef.fullName_identifies (by decide) (by decide)⟩

/-- A dot in a name moves the border between namespace and name. -/
example : (TypeRef.plain "App" "Data.Pair").fullName = (TypeRef.plain "App.Data" "Pair").fullName ∧
    (TypeRef.plain "App" "Data.Pair" == TypeRef.plain "App.Data" "Pair") = false := by
  decide

end ReleaseWeaver
