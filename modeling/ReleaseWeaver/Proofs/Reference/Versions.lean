import Mathlib.Data.List.Basic
import Mathlib.Data.List.Induction
import Mathlib.Data.List.TakeDrop
import Mathlib.Data.List.TakeWhile
import ReleaseWeaver.Reference.Version

/-
  Versions and their texts. What reading takes off a text is told by the marks: neither a number nor
  an identifier has a dot or a plus in it, and no number has a hyphen. A number is read from its
  digits without leading zeros, and so from one text only. Main statement: a text is read as exactly
  the version that it is the text of, if the identifiers are well-formed and the numbers fit.
-/

namespace ReleaseWeaver.Version

/-! ## Numbers -/

theorem exists_digitChar {c : Char} (digit : c.isDigit = true) :
    ∃ d < 10, c = Nat.digitChar d := by
  have bounds : 48 ≤ c.toNat ∧ c.toNat ≤ 57 := by
    simpa [Char.isDigit, UInt32.le_iff_toNat_le] using digit
  refine ⟨c.toNat - 48, by omega, Char.toNat_inj.1 ?_⟩
  rw [Nat.toNat_digitChar_of_lt_ten (by omega)]
  omega

/-- Digits without a leading zero are the digits of what they stand for. -/
theorem toDigits_ofDigitChars {cs : List Char} (filled : cs ≠ [])
    (digits : ∀ c ∈ cs, c.isDigit = true) (plain : cs.head? ≠ some '0') :
    0 < Nat.ofDigitChars 10 cs 0 ∧ Nat.toDigits 10 (Nat.ofDigitChars 10 cs 0) = cs := by
  induction cs using List.reverseRecOn with
  | nil => exact absurd rfl filled
  | append_singleton cs c ih =>
    obtain ⟨d, small, rfl⟩ := exists_digitChar (digits c (by simp))
    have value : Nat.ofDigitChars 10 (cs ++ [d.digitChar]) 0 =
        10 * Nat.ofDigitChars 10 cs 0 + d := by
      rw [Nat.ofDigitChars_append, Nat.ofDigitChars_cons_digitChar_of_lt_ten small,
        Nat.ofDigitChars_nil]
    have single : Nat.toDigits 10 d = [d.digitChar] := Nat.toDigits_of_lt_base small
    rw [value]
    cases cs with
    | nil =>
      have positive : d ≠ 0 := by
        rintro rfl
        exact plain rfl
      rw [Nat.ofDigitChars_nil, Nat.mul_zero, Nat.zero_add]
      exact ⟨Nat.pos_of_ne_zero positive, single⟩
    | cons a rest =>
      obtain ⟨positive, same⟩ := ih (List.cons_ne_nil a rest)
        (fun c listed => digits c (List.mem_append_left _ listed)) plain
      refine ⟨by omega, ?_⟩
      rw [← Nat.toDigits_append_toDigits (by decide) positive small, same, single]

theorem head?_toDigits {n : Nat} (positive : 0 < n) : (Nat.toDigits 10 n).head? ≠ some '0' := by
  induction n using Nat.strongRecOn with
  | ind n ih =>
    rw [Nat.toDigits_eq_if (by decide)]
    split
    · simpa using Nat.ne_of_gt positive
    · rw [List.head?_append_of_ne_nil _ Nat.toDigits_ne_nil]
      exact ih (n / 10) (by omega) (by omega)

theorem hasLeadingZero_toDigits (n : Nat) : hasLeadingZero (Nat.toDigits 10 n) = false := by
  obtain rfl | positive := Nat.eq_zero_or_pos n
  · rfl
  · simp [hasLeadingZero, head?_toDigits positive]

theorem readNumber?_eq_some {cs : List Char} {n : Nat} :
    readNumber? cs = some n ↔ n < UInt64.size ∧ cs = Nat.toDigits 10 n := by
  constructor
  · intro read
    simp only [readNumber?, Option.ite_none_left_eq_some, Option.ite_none_right_eq_some,
      Option.some.injEq, Bool.or_eq_true, not_or, Bool.not_eq_true, Bool.not_eq_false',
      List.isEmpty_eq_false_iff, List.all_eq_true] at read
    obtain ⟨⟨⟨filled, digits⟩, plain⟩, fits, rfl⟩ := read
    refine ⟨fits, ?_⟩
    by_cases zero : cs.head? = some '0'
    · obtain ⟨rest, rfl⟩ := List.head?_eq_some_iff.1 zero
      have alone : rest = [] := by simpa [hasLeadingZero] using plain
      rw [alone]
      rfl
    · exact (toDigits_ofDigitChars filled digits zero).2.symm
  · rintro ⟨fits, rfl⟩
    have digits : (Nat.toDigits 10 n).all Char.isDigit = true :=
      List.all_eq_true.2 fun c => Nat.isDigit_of_mem_toDigits (by decide) (by decide)
    simp only [readNumber?, List.isEmpty_eq_false_iff.2 Nat.toDigits_ne_nil, digits,
      hasLeadingZero_toDigits, Nat.ofDigitChars_ten_toDigits, if_pos fits]
    rfl

/-! ## Identifiers -/

/-- Nothing, or what a mark stands ahead of. -/
def Behind (mark : Char) (rest : List Char) : Prop := ∀ c ∈ rest.head?, c = mark

theorem span_eq_iff {mark : Char} {cs front rest : List Char} :
    cs.span (· != mark) = (front, rest) ↔
      cs = front ++ rest ∧ mark ∉ front ∧ Behind mark rest := by
  rw [List.span_eq_takeWhile_dropWhile, Prod.mk.injEq]
  constructor
  · rintro ⟨rfl, rfl⟩
    refine ⟨List.takeWhile_append_dropWhile.symm, fun inside => ?_, fun c first => ?_⟩
    · simpa using List.mem_takeWhile_imp inside
    · have stopped := List.head?_dropWhile_not (· != mark) cs
      rw [Option.mem_def.1 first] at stopped
      simpa using stopped
  · rintro ⟨rfl, clear, behind⟩
    have passed : ∀ c ∈ front, (c != mark) = true := fun c inside =>
      bne_iff_ne.2 (ne_of_mem_of_not_mem inside clear)
    rw [List.takeWhile_append_of_pos passed, List.dropWhile_append_of_pos passed]
    cases rest with
    | nil => simp
    | cons c rest =>
      obtain rfl := behind c rfl
      simp

/-- A character that is no separator is in one of the parts, or nowhere. -/
theorem not_mem_intercalate {c sep : Char} {parts : List (List Char)} (apart : c ≠ sep)
    (clear : ∀ part ∈ parts, c ∉ part) : c ∉ [sep].intercalate parts := by
  induction parts with
  | nil => simp
  | cons part parts ih =>
    obtain ⟨here, behind⟩ := List.forall_mem_cons.1 clear
    cases parts with
    | nil => simpa using here
    | cons next parts =>
      rw [List.intercalate_cons_cons]
      simp [here, apart, ih behind]

theorem clear_of_isIdent {zeros : Bool} {cs : List Char} {c : Char}
    (sound : isIdent zeros cs = true) (other : isIdentChar c = false) : c ∉ cs := by
  intro inside
  simp only [isIdent, Bool.and_eq_true, List.all_eq_true] at sound
  rw [sound.1.2 c inside] at other
  cases other

theorem toList_identsText {mark : Char} {idents : List String} (filled : idents ≠ []) :
    (identsText mark idents).toList = mark :: ['.'].intercalate (idents.map String.toList) := by
  rw [identsText, if_neg (by simpa using filled), String.toList_append, String.toList_singleton,
    String.toList_intercalate]
  rfl

theorem behind_identsText (mark : Char) (idents : List String) :
    Behind mark (identsText mark idents).toList := by
  intro c first
  by_cases empty : idents = []
  · subst empty
    cases first
  · rw [toList_identsText empty] at first
    exact (Option.some.inj first).symm

theorem readIdents?_eq_some {zeros : Bool} {mark : Char} {cs : List Char} {idents : List String}
    (behind : Behind mark cs) :
    readIdents? zeros cs = some idents ↔
      (∀ id ∈ idents, isIdent zeros id.toList = true) ∧ cs = (identsText mark idents).toList := by
  constructor
  · intro read
    cases cs with
    | nil =>
      obtain rfl : [] = idents := Option.some.inj read
      exact ⟨by simp, rfl⟩
    | cons c tail =>
      obtain rfl := behind c rfl
      simp only [readIdents?, List.isEmpty_cons, Bool.false_eq_true, if_false, List.drop_succ_cons,
        List.drop_zero, Option.ite_none_right_eq_some, Option.some.injEq, List.all_eq_true] at read
      obtain ⟨sound, rfl⟩ := read
      have same : (List.map String.ofList (tail.splitOn '.')).map String.toList =
          tail.splitOn '.' := by
        simp [Function.comp_def]
      refine ⟨by simpa using sound, ?_⟩
      rw [toList_identsText (by simp [List.splitOn_ne_nil]), same, List.intercalate_splitOn]
  · rintro ⟨sound, rfl⟩
    by_cases empty : idents = []
    · subst empty
      rfl
    · have split : (['.'].intercalate (idents.map String.toList)).splitOn '.' =
          idents.map String.toList := by
        refine List.splitOn_intercalate '.' (List.forall_mem_map.2 fun id listed => ?_)
          (by simpa using empty)
        exact clear_of_isIdent (sound id listed) (by decide)
      have all : (idents.map String.toList).all (isIdent zeros) = true := by
        simpa using sound
      rw [toList_identsText empty]
      simp [readIdents?, split, all, Function.comp_def]

/-! ## Versions -/

/-- The numbers of a version between dots. -/
def coreText (v : Version) : List Char :=
  ['.'].intercalate [Nat.toDigits 10 v.major, Nat.toDigits 10 v.minor, Nat.toDigits 10 v.patch]

theorem toList_text (v : Version) :
    v.text.toList =
      v.coreText ++ (identsText '-' v.pre).toList ++ (identsText '+' v.build).toList := by
  simp [text, coreText, List.intercalate]

theorem not_mem_toDigits {n : Nat} {c : Char} (other : c.isDigit = false) :
    c ∉ Nat.toDigits 10 n := by
  intro inside
  rw [Nat.isDigit_of_mem_toDigits (by decide) (by decide) inside] at other
  cases other

theorem not_mem_coreText {v : Version} {c : Char} (other : c.isDigit = false) (apart : c ≠ '.') :
    c ∉ v.coreText :=
  not_mem_intercalate apart (by simp [not_mem_toDigits other])

theorem plus_not_mem_identsText {idents : List String}
    (sound : ∀ id ∈ idents, isIdent false id.toList = true) :
    '+' ∉ (identsText '-' idents).toList := by
  by_cases empty : idents = []
  · subst empty
    simp [identsText]
  · rw [toList_identsText empty]
    have clear : '+' ∉ ['.'].intercalate (idents.map String.toList) :=
      not_mem_intercalate (by decide) (List.forall_mem_map.2 fun id listed =>
        clear_of_isIdent (sound id listed) (by decide))
    simp [clear]

theorem readNumbers?_eq_some {cs : List Char} {v : Version} :
    readNumbers? cs = some (v.major, v.minor, v.patch) ↔
      (∀ n ∈ [v.major, v.minor, v.patch], n < UInt64.size) ∧ cs = v.coreText := by
  constructor
  · intro read
    simp only [readNumbers?] at read
    split at read
    · rename_i major minor patch parts
      simp only [Option.pure_def, Option.bind_eq_bind, Option.bind_eq_some_iff, readNumber?_eq_some,
        Option.some.injEq, Prod.mk.injEq] at read
      obtain ⟨-, ⟨fits₁, rfl⟩, -, ⟨fits₂, rfl⟩, -, ⟨fits₃, rfl⟩, rfl, rfl, rfl⟩ := read
      refine ⟨by simp [fits₁, fits₂, fits₃], ?_⟩
      rw [coreText, ← parts, List.intercalate_splitOn]
    · cases read
  · rintro ⟨fit, rfl⟩
    have number : ∀ n ∈ [v.major, v.minor, v.patch], readNumber? (Nat.toDigits 10 n) = some n :=
      fun n listed => readNumber?_eq_some.2 ⟨fit n listed, rfl⟩
    have parts : v.coreText.splitOn '.' =
        [Nat.toDigits 10 v.major, Nat.toDigits 10 v.minor, Nat.toDigits 10 v.patch] :=
      List.splitOn_intercalate '.' (by simp [not_mem_toDigits]) (by simp)
    simp only [readNumbers?, parts]
    simp [number]

/-- What is read off a text is the version that it is the text of, and no other. -/
theorem ofString?_eq_some {s : String} {v : Version} :
    ofString? s = some v ↔ v.isReadable = true ∧ v.text = s := by
  simp only [isReadable, Bool.and_eq_true, List.all_eq_true, decide_eq_true_eq]
  constructor
  · intro read
    rcases outer : s.toList.span (· != '+') with ⟨front, build⟩
    rcases inner : front.span (· != '-') with ⟨core, pre⟩
    obtain ⟨whole, -, behindPlus⟩ := span_eq_iff.1 outer
    obtain ⟨rfl, -, behindHyphen⟩ := span_eq_iff.1 inner
    simp only [ofString?, outer, inner, Option.pure_def, Option.bind_eq_bind,
      Option.bind_eq_some_iff, readIdents?_eq_some behindPlus, readIdents?_eq_some behindHyphen,
      Option.some.injEq] at read
    obtain ⟨⟨major, minor, patch⟩, numbers, pre, ⟨soundPre, rfl⟩, build, ⟨soundBuild, rfl⟩, rfl⟩ :=
      read
    obtain ⟨fit, rfl⟩ := readNumbers?_eq_some (v := ⟨major, minor, patch, pre, build⟩).1 numbers
    exact ⟨⟨⟨fit, soundPre⟩, soundBuild⟩, String.toList_injective ((toList_text _).trans whole.symm)⟩
  · rintro ⟨⟨⟨fit, soundPre⟩, soundBuild⟩, rfl⟩
    have outer : v.text.toList.span (· != '+') =
        (v.coreText ++ (identsText '-' v.pre).toList, (identsText '+' v.build).toList) :=
      span_eq_iff.2 ⟨v.toList_text, by
        simp [not_mem_coreText, plus_not_mem_identsText soundPre], behind_identsText '+' v.build⟩
    have inner : (v.coreText ++ (identsText '-' v.pre).toList).span (· != '-') =
        (v.coreText, (identsText '-' v.pre).toList) :=
      span_eq_iff.2 ⟨rfl, not_mem_coreText (by decide) (by decide), behind_identsText '-' v.pre⟩
    have numbers := readNumbers?_eq_some.2 ⟨fit, rfl⟩
    have build := (readIdents?_eq_some (behind_identsText '+' v.build)).2 ⟨soundBuild, rfl⟩
    have pre := (readIdents?_eq_some (behind_identsText '-' v.pre)).2 ⟨soundPre, rfl⟩
    simp only [ofString?, outer, inner, numbers, build, pre]
    rfl

end ReleaseWeaver.Version
