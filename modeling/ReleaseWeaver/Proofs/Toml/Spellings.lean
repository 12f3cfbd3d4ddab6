import Mathlib.Data.List.Basic
import ReleaseWeaver.Toml.Writer

/-
  The spellings of a string read back. Each escape stands for one character, and the two spellings
  over several lines close at the first three quotes in a row that the writer leaves as they are,
  with up to two quotes of the text ahead of them. Main statement: whatever spelling the writer
  chooses, a reader gets the string and what follows it.
-/

namespace ReleaseWeaver.Toml

theorem prepend_some (c : Char) (text rest : List Char) :
    prepend (some c) (some (text, rest)) = some (c :: text, rest) := rfl

/-! ## Escapes -/

/-- How a character may be spelled where escapes count. -/
inductive Spells (c : Char) : List Char → Prop where
  | short {e} : escaped? e = some c → e ≠ 'x' → e ≠ 'u' → e ≠ 'U' → e ≠ '\n' → e ≠ '\r' →
      isBlank e = false → Spells c ['\\', e]
  | number {i j k l} : scalar? [i, j, k, l] = some c → Spells c ['\\', 'u', i, j, k, l]
  | plain : c ≠ '\\' → isControl c = false → Spells c [c]

/-- The number of a control character has four digits. -/
theorem scalar?_fourHex {c : Char} (control : isControl c = true) :
    scalar? (fourHex c.toNat) = some c := by
  have small : c.toNat < 128 := by
    simp only [isControl, Bool.or_eq_true, Bool.and_eq_true, decide_eq_true_eq, beq_iff_eq] at control
    omega
  have each : ∀ n : Fin 128, scalar? (fourHex n) = some (Char.ofNat n) := by decide +kernel
  rw [each ⟨c.toNat, small⟩, Char.ofNat_toNat]

theorem spells_escape (c : Char) : Spells c (escape c) := by
  have short (e : Char) (is : escaped? e = some c) (plain : e ∈ ['b', 't', 'f', 'r', '\\']) :
      Spells c ['\\', e] := by
    have harmless : ∀ e ∈ ['b', 't', 'f', 'r', '\\'], e ≠ 'x' ∧ e ≠ 'u' ∧ e ≠ 'U' ∧ e ≠ '\n' ∧
        e ≠ '\r' ∧ isBlank e = false := by
      simp only [List.forall_mem_cons, List.not_mem_nil, false_imp_iff, implies_true, and_true]
      decide
    obtain ⟨x, u, U, line, back, blank⟩ := harmless e plain
    exact .short is x u U line back blank
  unfold escape
  split
  · next same => exact short 'b' (by rw [eq_of_beq same]; rfl) (by decide)
  split
  · next same => exact short 't' (by rw [eq_of_beq same]; rfl) (by decide)
  split
  · next same => exact short 'f' (by rw [eq_of_beq same]; rfl) (by decide)
  split
  · next same => exact short 'r' (by rw [eq_of_beq same]; rfl) (by decide)
  split
  · next same => exact short '\\' (by rw [eq_of_beq same]; rfl) (by decide)
  next other =>
  split
  · next control => exact .number (scalar?_fourHex control)
  · next printed => exact .plain (by simpa using other) (by simpa using printed)

theorem spells_quote : Spells '"' ['\\', '"'] :=
  .short rfl (by decide) (by decide) (by decide) (by decide) (by decide) (by decide)

theorem spells_newline : Spells '\n' ['\\', 'n'] :=
  .short rfl (by decide) (by decide) (by decide) (by decide) (by decide) (by decide)

theorem escape_ne_quote {c : Char} (other : c ≠ '"') : escape c ≠ ['"'] := by
  intro same
  have spells := spells_escape c
  rw [same] at spells
  cases spells
  exact other rfl

theorem basicBody_cons (c : Char) (cs : List Char) : ∃ spelled,
    basicBody (c :: cs) = spelled ++ basicBody cs ∧ Spells c spelled ∧ spelled ≠ ['"'] := by
  refine ⟨_, List.flatMap_cons, ?_⟩
  split
  · next quote =>
    obtain rfl := eq_of_beq quote
    exact ⟨spells_quote, by decide⟩
  next other =>
  split
  · next line =>
    obtain rfl := eq_of_beq line
    exact ⟨spells_newline, by decide⟩
  · exact ⟨spells_escape c, escape_ne_quote (by simpa using other)⟩

section

variable {c : Char} {cs tail : List Char}

theorem readBasic_spells (spells : Spells c cs) (closes : cs ≠ ['"']) :
    readBasic (cs ++ tail) = prepend (some c) (readBasic tail) := by
  cases spells with
  | short is x u U =>
    rw [List.cons_append, List.cons_append, List.nil_append, readBasic.eq_6, is]
    all_goals simp [x, u, U]
  | number is => rw [← is]; rfl
  | plain escape printed =>
    rw [List.singleton_append, readBasic.eq_7]
    · rw [if_neg (by simp [printed])]
    all_goals simp_all

theorem readLongBasic_spells (spells : Spells c cs) (closes : cs ≠ ['"']) :
    readLongBasic .text (cs ++ tail) = prepend (some c) (readLongBasic .text tail) := by
  cases spells with
  | short is x u U line back blank =>
    rw [List.cons_append, List.cons_append, List.nil_append, readLongBasic.eq_def]
    simp only [reduceCtorEq, decide_false, Bool.false_and, Bool.false_eq_true, if_false]
    split <;> simp_all
  | number is =>
    rw [← is]
    show readLongBasic .text ('\\' :: 'u' :: _ :: _ :: _ :: _ :: tail) = _
    rw [readLongBasic]
    simp [isBlank]
  | plain escape printed =>
    have back : c ≠ '\r' := by
      rintro rfl
      cases printed
    rw [List.singleton_append, readLongBasic]
    · simp [printed]
    all_goals simp_all

/-- A line end stands for itself. -/
theorem readLongBasic_newline :
    readLongBasic .text ('\n' :: tail) = prepend (some '\n') (readLongBasic .text tail) := by
  rw [readLongBasic]
  · simp
  all_goals simp

/-- A quote that no two others follow stands for itself. -/
theorem readLongBasic_quote (alone : ∀ rest, tail ≠ '"' :: '"' :: rest) :
    readLongBasic .text ('"' :: tail) = prepend (some '"') (readLongBasic .text tail) := by
  rw [readLongBasic]
  · simp [isControl]
  all_goals simp [alone]

end

/-! ## One line -/

theorem readBasic_body (cs tail : List Char) :
    readBasic (basicBody cs ++ '"' :: tail) = some (cs, tail) := by
  induction cs with
  | nil => rfl
  | cons c cs ih =>
    obtain ⟨spelled, body, spells, closes⟩ := basicBody_cons c cs
    rw [body, List.append_assoc, readBasic_spells spells closes, ih, prepend_some]

theorem readLiteral_body {cs : List Char} (printed : ∀ c ∈ cs, isControl c = false)
    (closes : '\'' ∉ cs) (tail : List Char) :
    readLiteral (cs ++ '\'' :: tail) = some (cs, tail) := by
  induction cs with
  | nil => rfl
  | cons c cs ih =>
    obtain ⟨here, further⟩ := List.forall_mem_cons.1 printed
    rw [List.mem_cons, not_or] at closes
    rw [List.cons_append, readLiteral, if_neg (by simp [here]), ih further closes.2, prepend_some]
    exact fun same => closes.1 same.symm

/-! ## Several lines -/

/-- What does not start with a quote. -/
def Unquoted (cs : List Char) : Prop := ∀ rest, cs ≠ '"' :: rest

theorem head_spells {c d : Char} {spelled tail rest : List Char} (spells : Spells c spelled)
    (same : spelled ++ tail = d :: rest) : d = '\\' ∨ d = c ∧ isControl c = false := by
  cases spells with
  | short => exact .inl (List.cons.inj same).1.symm
  | number => exact .inl (List.cons.inj same).1.symm
  | plain _ printed => exact .inr ⟨(List.cons.inj same).1.symm, printed⟩

theorem unquoted_spells {c : Char} {spelled : List Char} (spells : Spells c spelled)
    (closes : spelled ≠ ['"']) (tail : List Char) : Unquoted (spelled ++ tail) := by
  intro rest same
  cases spells with
  | short => cases same
  | number => cases same
  | plain => exact closes (congrArg (fun c => [c]) (List.cons.inj same).1)

/-- Behind two quotes the text does not start with a third. -/
theorem unquoted_body (seen : Nat) {c : Char} (cs tail : List Char)
    (apart : c ≠ '"' ∨ 2 ≤ seen) : Unquoted (longBasicBody seen (c :: cs) ++ tail) := by
  rw [longBasicBody]
  split
  · next quote =>
    have twice : 2 ≤ seen := apart.resolve_left (by simpa using quote)
    rw [if_pos twice]
    exact fun rest same => by cases same
  · next quote =>
    split
    · exact fun rest same => by cases same
    · rw [List.append_assoc]
      exact unquoted_spells (spells_escape c) (escape_ne_quote (by simpa using quote)) _

/-- Up to two quotes of the text may stand before the closing ones. -/
theorem readLongBasic_close (quotes : List Char) (few : quotes ∈ [[], ['"'], ['"', '"']])
    {tail : List Char} (ends : Unquoted tail) :
    readLongBasic .text (quotes ++ '"' :: '"' :: '"' :: tail) = some (quotes, tail) := by
  simp only [List.mem_cons, List.not_mem_nil, or_false] at few
  obtain rfl | rfl | rfl := few
  · rw [List.nil_append, readLongBasic]
    · simp
    · exact fun rest => ends _
    · exact fun rest => ends _
  · rw [List.cons_append, List.nil_append, readLongBasic]
    · simp
    · exact fun rest => ends _
  · rw [List.cons_append, List.cons_append, List.nil_append, readLongBasic]
    simp

theorem readLongBasic_body (seen : Nat) (cs : List Char) {tail : List Char} (ends : Unquoted tail) :
    readLongBasic .text (longBasicBody seen cs ++ '"' :: '"' :: '"' :: tail) = some (cs, tail) := by
  induction cs generalizing seen with
  | nil => exact readLongBasic_close [] (by decide) ends
  | cons c cs ih =>
    have first (seen : Nat) (spelled : List Char) (spells : Spells c spelled)
        (closes : spelled ≠ ['"']) : readLongBasic .text
          ((spelled ++ longBasicBody seen cs) ++ '"' :: '"' :: '"' :: tail) =
            some (c :: cs, tail) := by
      rw [List.append_assoc, readLongBasic_spells spells closes, ih, prepend_some]
    have quote (alone : ∀ rest, longBasicBody (seen + 1) cs ++ '"' :: '"' :: '"' :: tail ≠
        '"' :: '"' :: rest) : readLongBasic .text
          ('"' :: (longBasicBody (seen + 1) cs ++ '"' :: '"' :: '"' :: tail)) =
            some ('"' :: cs, tail) := by
      rw [readLongBasic_quote alone, ih, prepend_some]
    rw [longBasicBody]
    split
    · next same =>
      obtain rfl := eq_of_beq same
      split
      · exact first 0 _ spells_quote (by decide)
      · next few =>
        -- The text may end here, or behind one quote more.
        cases cs with
        | nil => exact readLongBasic_close ['"'] (by decide) ends
        | cons d cs =>
          by_cases apart : d ≠ '"' ∨ 2 ≤ seen + 1
          · exact quote fun rest => unquoted_body _ cs _ apart ('"' :: rest)
          · obtain ⟨same, low⟩ := not_or.1 apart
            obtain rfl := not_not.1 same
            obtain rfl : seen = 0 := by omega
            cases cs with
            | nil => exact readLongBasic_close ['"', '"'] (by decide) ends
            | cons e cs =>
              refine quote fun rest here => ?_
              exact unquoted_body 2 cs _ (.inr (Nat.le_refl 2)) rest (List.cons.inj here).2
    · next other =>
      split
      · next line =>
        obtain rfl := eq_of_beq line
        rw [List.cons_append, readLongBasic_newline, ih, prepend_some]
      · exact first 0 _ (spells_escape c) (escape_ne_quote (by simpa using other))

/-! ## As it stands -/

theorem hasRun_mono {mark : Char} {count : Nat} {cs : List Char} {a b : Nat} (le : a ≤ b)
    (run : hasRun mark count a cs = true) : hasRun mark count b cs = true := by
  induction cs generalizing a b with
  | nil =>
    simp only [hasRun, decide_eq_true_eq] at run ⊢
    omega
  | cons c cs ih =>
    simp only [hasRun, Bool.or_eq_true, decide_eq_true_eq] at run ⊢
    refine run.imp (fun more => by omega) fun run => ?_
    split at run
    · next same =>
      rw [if_pos same]
      exact ih (by omega) run
    · next other =>
      rw [if_neg other]
      exact run

/-- A character that does not start three quotes in a row stands for itself. -/
theorem readLongLiteral_cons {c : Char} {tail : List Char}
    (printed : isControl c = true → c = '\n')
    (alone : c = '\'' → ∀ rest, tail ≠ '\'' :: '\'' :: rest) :
    readLongLiteral (c :: tail) = prepend (some c) (readLongLiteral tail) := by
  have back : c ≠ '\r' := by
    rintro rfl
    cases printed rfl
  rw [readLongLiteral]
  · rw [if_neg]
    simpa using printed
  all_goals simp_all

/-- Up to two quotes of the text may stand before the closing ones. -/
theorem readLongLiteral_close (quotes : List Char) (few : quotes ∈ [[], ['\''], ['\'', '\'']])
    {tail : List Char} (ends : ∀ rest, tail ≠ '\'' :: rest) :
    readLongLiteral (quotes ++ '\'' :: '\'' :: '\'' :: tail) = some (quotes, tail) := by
  simp only [List.mem_cons, List.not_mem_nil, or_false] at few
  obtain rfl | rfl | rfl := few
  · rw [List.nil_append, readLongLiteral]
    · exact fun rest => ends _
    · exact fun rest => ends _
  · rw [List.cons_append, List.nil_append, readLongLiteral]
    exact fun rest => ends _
  · rfl

theorem readLongLiteral_body {cs : List Char} (printed : ∀ c ∈ cs, isControl c = true → c = '\n')
    (few : hasRun '\'' 3 0 cs = false) {tail : List Char} (ends : ∀ rest, tail ≠ '\'' :: rest) :
    readLongLiteral (cs ++ '\'' :: '\'' :: '\'' :: tail) = some (cs, tail) := by
  induction cs with
  | nil => exact readLongLiteral_close [] (by decide) ends
  | cons c cs ih =>
    obtain ⟨here, further⟩ := List.forall_mem_cons.1 printed
    have few' : hasRun '\'' 3 0 cs = false := by
      rw [Bool.eq_false_iff] at few ⊢
      intro run
      refine few ?_
      rw [hasRun, hasRun_mono (Nat.zero_le _) run, Bool.or_true]
    have step (alone : c = '\'' → ∀ rest,
        cs ++ '\'' :: '\'' :: '\'' :: tail ≠ '\'' :: '\'' :: rest) :
        readLongLiteral ((c :: cs) ++ '\'' :: '\'' :: '\'' :: tail) = some (c :: cs, tail) := by
      rw [List.cons_append, readLongLiteral_cons here alone, ih further few', prepend_some]
    by_cases quote : c = '\''
    case neg => exact step fun same => absurd same quote
    subst quote
    -- The text may end here, or behind one quote more.
    cases cs with
    | nil => exact readLongLiteral_close ['\''] (by decide) ends
    | cons d cs =>
      by_cases quote : d = '\''
      case neg => exact step fun _ rest same => quote (List.cons.inj same).1
      subst quote
      cases cs with
      | nil => exact readLongLiteral_close ['\'', '\''] (by decide) ends
      | cons e cs =>
        refine step fun _ rest same => ?_
        obtain rfl : e = '\'' := (List.cons.inj (List.cons.inj same).2).1
        have run : hasRun '\'' 3 0 ('\'' :: '\'' :: '\'' :: cs) = true := by
          cases cs <;> simp [hasRun]
        rw [run] at few
        cases few

/-! ## Any spelling -/

theorem of_spelling_literal {cs : List Char} (is : spelling cs = .literal) :
    (∀ c ∈ cs, isControl c = false) ∧ '\'' ∉ cs ∧ cs ≠ [] := by
  have nonempty : cs ≠ [] := by
    rintro rfl
    cases is
  unfold spelling at is
  dsimp only at is
  split at is
  · cases is
  split at is
  · cases is
  split at is
  · next plain =>
    simp only [Bool.and_eq_true, Bool.not_eq_true', List.any_eq_false, List.contains_eq_mem,
      decide_eq_false_iff_not, bne_iff_ne, ne_eq] at plain
    obtain ⟨⟨printed, quotes⟩, lines⟩ := plain
    refine ⟨fun c listed => Bool.eq_false_iff.2 fun control => ?_, quotes, nonempty⟩
    exact printed c listed ⟨control, fun line => lines (line ▸ listed)⟩
  split at is
  · cases is
  split at is
  · cases is
  split at is <;> cases is

theorem of_spelling_longLiteral {cs : List Char} (is : spelling cs = .longLiteral) :
    (∀ c ∈ cs, isControl c = true → c = '\n') ∧ hasRun '\'' 3 0 cs = false := by
  unfold spelling at is
  dsimp only at is
  split at is
  · cases is
  split at is
  · cases is
  split at is
  · cases is
  split at is
  · cases is
  split at is
  · next plain =>
    simp only [Bool.and_eq_true, Bool.not_eq_true', List.any_eq_false, bne_iff_ne, ne_eq] at plain
    refine ⟨fun c listed control => ?_, plain.2⟩
    by_contra other
    exact plain.1 c listed ⟨control, other⟩
  split at is <;> cases is

/-- The line end ahead of a text that has one is dropped, and nothing else is. -/
theorem dropLineEnd_firstLine {cs body : List Char} (ends : ∀ rest, body ≠ '\r' :: rest)
    (lines : '\n' ∉ cs → ∀ rest, body ≠ '\n' :: rest) :
    dropLineEnd (firstLine cs ++ body) = body := by
  unfold firstLine
  split
  · rfl
  · next single =>
    rw [List.nil_append]
    unfold dropLineEnd
    split
    · exact absurd rfl (lines (by simpa using single) _)
    · exact absurd rfl (ends _)
    · rfl

/-- A text over several lines starts with a line end only if it has one, and never with the other
half of one. -/
theorem head_longBasicBody {cs tail rest : List Char} {d : Char}
    (same : longBasicBody 0 cs ++ '"' :: tail = d :: rest) : d ≠ '\r' ∧ (d = '\n' → '\n' ∈ cs) := by
  cases cs with
  | nil =>
    obtain rfl : '"' = d := (List.cons.inj same).1
    exact ⟨by decide, nofun⟩
  | cons c cs =>
    rw [longBasicBody] at same
    split at same
    · obtain rfl : '"' = d := (List.cons.inj same).1
      exact ⟨by decide, nofun⟩
    split at same
    · next line =>
      obtain rfl : '\n' = d := (List.cons.inj same).1
      exact ⟨by decide, fun _ => by simp [eq_of_beq line]⟩
    · rw [List.append_assoc] at same
      obtain rfl | ⟨rfl, printed⟩ := head_spells (spells_escape c) same
      · exact ⟨by decide, nofun⟩
      · refine ⟨?_, fun line => ?_⟩
        · rintro rfl
          cases printed
        · subst line
          cases printed

theorem writeChars_cons (cs : List Char) :
    ∃ quote body, writeChars cs = quote :: body ∧ (quote = '"' ∨ quote = '\'') := by
  unfold writeChars
  cases spelling cs
  · exact ⟨'"', _, rfl, .inl rfl⟩
  · exact ⟨'\'', _, rfl, .inr rfl⟩
  · exact ⟨'"', _, rfl, .inl rfl⟩
  · exact ⟨'\'', _, rfl, .inr rfl⟩

/-- A string is read back in the spelling that the writer chooses. -/
theorem readString_writeChars (cs : List Char) {tail : List Char} (ends : Unquoted tail)
    (ends' : ∀ rest, tail ≠ '\'' :: rest) :
    readString (writeChars cs ++ tail) = some (cs, tail) := by
  unfold writeChars
  cases is : spelling cs with
  | basic =>
    have single (rest : List Char) : basicBody cs ++ '"' :: tail ≠ '"' :: '"' :: rest := by
      cases cs with
      | nil => exact fun same => ends _ (List.cons.inj same).2
      | cons c cs =>
        obtain ⟨spelled, body, spells, closes⟩ := basicBody_cons c cs
        rw [body, List.append_assoc]
        exact unquoted_spells spells closes _ _
    simp only [List.cons_append, List.append_assoc, List.nil_append]
    rw [readString, readBasic_body]
    exact fun rest => single rest
  | literal =>
    obtain ⟨printed, quotes, nonempty⟩ := of_spelling_literal is
    have single (rest : List Char) : cs ++ '\'' :: tail ≠ '\'' :: '\'' :: rest := by
      cases cs with
      | nil => exact absurd rfl nonempty
      | cons c cs => exact fun same => quotes (by simp [(List.cons.inj same).1])
    simp only [List.cons_append, List.append_assoc, List.nil_append]
    rw [readString, readLiteral_body printed quotes]
    exact fun rest => single rest
  | longBasic =>
    simp only [List.cons_append, List.append_assoc, List.nil_append]
    rw [readString, dropLineEnd_firstLine (fun rest same => (head_longBasicBody same).1 rfl)
      fun single rest same => single ((head_longBasicBody same).2 rfl)]
    exact readLongBasic_body 0 cs ends
  | longLiteral =>
    obtain ⟨printed, few⟩ := of_spelling_longLiteral is
    have head {d : Char} {rest : List Char} (same : cs ++ '\'' :: '\'' :: '\'' :: tail = d :: rest) :
        d ∈ '\'' :: cs := by
      cases cs with
      | nil => simp [← (List.cons.inj same).1]
      | cons c cs => simp [← (List.cons.inj same).1]
    simp only [List.cons_append, List.append_assoc, List.nil_append]
    rw [readString, dropLineEnd_firstLine (fun rest same => ?_) fun single rest same => ?_]
    · exact readLongLiteral_body printed few ends'
    · have listed : '\r' ∈ cs := by simpa using head same
      cases printed _ listed rfl
    · exact single (by simpa using head same)

end ReleaseWeaver.Toml
