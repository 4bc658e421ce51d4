import CAt.Assembler.TokenSpans

namespace CAt

open GuardedLoop

def maximalRun (isPart : Char → Bool) (buffer : List Char) (bp : Nat) : List Char :=
  (buffer.drop bp).takeWhile isPart

def runPart (c : Char) : Char → Bool := if isNumber c then isNumber else isAlphanumeric

def TokenType.part : TokenType → Option (Char → Bool)
  | .word => some isAlphanumeric
  | .wordLiterallNumber => some isNumber
  | _ => none

def LiterallExact (wordBuffer : WordBuffer) (buffer : List Char) (bp : Nat) : Prop :=
  ∃ t bp', tokenNext wordBuffer buffer bp = .ok (t, bp') ∧
    ∀ isPart, t.type.part = some isPart →
      t.literall = some (maximalRun isPart buffer bp) ∧
        bp' = bp + (maximalRun isPart buffer bp).length

namespace TokenLiterals

theorem firstLexeme_run {c : Char} (h : isAlphanumeric c = true) (cs : List Char) :
    (firstLexeme c cs).text = (c :: cs).takeWhile (runPart c) ∧
      (firstLexeme c cs).type.part = some (runPart c) ∧ (firstLexeme c cs).isRun = true := by
  rcases isAlphanumeric_iff.mp h with hnumber | hcharacter
  · have hpart : runPart c = isNumber := if_pos hnumber
    rw [firstLexeme_number cs hnumber, hpart, List.takeWhile_cons_of_pos hnumber]
    exact ⟨rfl, rfl, rfl⟩
  · have hpart : runPart c = isAlphanumeric :=
      if_neg (Bool.eq_false_iff.mp (isNumber_of_character hcharacter))
    rw [firstLexeme_word cs hcharacter, hpart, List.takeWhile_cons_of_pos h]
    exact ⟨rfl, rfl, rfl⟩

theorem firstLexeme_not_run {c : Char} (h : isAlphanumeric c = false) (cs : List Char) :
    (firstLexeme c cs).type.part = none ∧ (firstLexeme c cs).isRun = false := by
  obtain ⟨hnumber, hcharacter⟩ := Bool.or_eq_false_iff.mp h
  cases hspace : isSpace c with
  | true =>
    rw [firstLexeme_space cs hspace]
    exact ⟨rfl, rfl⟩
  | false =>
    rw [firstLexeme_symbol cs hspace hnumber hcharacter]
    refine ⟨?_, operatorType_not_run c _ _⟩
    fun_cases operatorType c (cs.headD '\x00') <;> rfl

variable (wordBuffer : WordBuffer)

theorem exact_run (before cs : List Char) {c : Char} (h : isAlphanumeric c = true) :
    LiterallExact wordBuffer (before ++ c :: cs) before.length ↔
      wordBuffer.NulAt ((c :: cs).takeWhile (runPart c)).length := by
  obtain ⟨htext, hpart, hrun⟩ := firstLexeme_run h cs
  have hnul := firstLexeme_run_ne_nul c cs hrun
  have hmaximal (isPart : Char → Bool) :
      maximalRun isPart (before ++ c :: cs) before.length = (c :: cs).takeWhile isPart := by
    rw [maximalRun, List.drop_left]
  rw [← htext, ← WordBuffer.literall_eq_self_iff hnul, LiterallExact, tokenNext_lexeme,
    lexemeLiterall_run wordBuffer hrun]
  constructor
  · rintro ⟨t, bp', hcall, hexact⟩
    cases hlit : wordBuffer.literall (firstLexeme c cs).text with
    | error e =>
      rw [hlit] at hcall
      cases hcall
    | ok literall =>
      rw [hlit] at hcall
      cases hcall
      have hsome := (hexact (runPart c) hpart).1
      rw [hmaximal, ← htext] at hsome
      exact congrArg Except.ok (Option.some.inj hsome)
  · intro hlit
    refine ⟨⟨some (firstLexeme c cs).text, (firstLexeme c cs).type⟩,
      before.length + (firstLexeme c cs).text.length, ?_, ?_⟩
    · rw [hlit]
      rfl
    · intro isPart hisPart
      have hsame : runPart c = isPart := Option.some.inj (hpart.symm.trans hisPart)
      rw [hmaximal, ← hsame, ← htext]
      exact ⟨rfl, rfl⟩

theorem exact_not_run (before cs : List Char) {c : Char} (h : isAlphanumeric c = false) :
    LiterallExact wordBuffer (before ++ c :: cs) before.length := by
  obtain ⟨hpart, hrun⟩ := firstLexeme_not_run h cs
  refine ⟨⟨none, (firstLexeme c cs).type⟩, before.length + (firstLexeme c cs).text.length, ?_, ?_⟩
  · rw [tokenNext_lexeme, lexemeLiterall_not_run wordBuffer hrun]
    rfl
  · intro isPart hisPart
    rw [hpart] at hisPart
    cases hisPart

theorem exact_end {buffer : List Char} {bp : Nat} (h : buffer.length ≤ bp) :
    LiterallExact wordBuffer buffer bp := by
  refine ⟨⟨none, .eob⟩, bp, if_pos h, ?_⟩
  rintro isPart ⟨⟩

theorem literall_exact_iff (buffer : List Char) (bp : Nat) :
    LiterallExact wordBuffer buffer bp ↔
      ∀ c cs, buffer.drop bp = c :: cs → isAlphanumeric c = true →
        wordBuffer.NulAt (maximalRun (runPart c) buffer bp).length := by
  rcases Nat.lt_or_ge bp buffer.length with hlt | hge
  · obtain ⟨before, c, cs, rfl, rfl⟩ := TokenSpans.split_at hlt
    have hdrop : (before ++ c :: cs).drop before.length = c :: cs := List.drop_left
    rw [hdrop]
    cases h : isAlphanumeric c with
    | true =>
      rw [exact_run wordBuffer before cs h]
      constructor
      · rintro hnul d ds heq -
        cases heq
        rw [maximalRun, hdrop]
        exact hnul
      · intro hall
        have hnul := hall c cs rfl h
        rw [maximalRun, hdrop] at hnul
        exact hnul
    | false =>
      refine iff_of_true (exact_not_run wordBuffer before cs h) ?_
      rintro d ds heq hd
      cases heq
      rw [h] at hd
      cases hd
  · refine iff_of_true (exact_end wordBuffer hge) ?_
    intro c cs heq
    rw [List.drop_of_length_le hge] at heq
    cases heq

theorem same_call {wordBuffer wordBuffer' : WordBuffer} {buffer : List Char} {bp : Nat}
    (h : LiterallExact wordBuffer buffer bp) (h' : LiterallExact wordBuffer' buffer bp) :
    tokenNext wordBuffer buffer bp = tokenNext wordBuffer' buffer bp := by
  rcases Nat.lt_or_ge bp buffer.length with hlt | hge
  · obtain ⟨before, c, cs, rfl, rfl⟩ := TokenSpans.split_at hlt
    rw [tokenNext_lexeme, tokenNext_lexeme]
    cases halnum : isAlphanumeric c with
    | true =>
      obtain ⟨htext, -, hrun⟩ := firstLexeme_run halnum cs
      have hnul := firstLexeme_run_ne_nul c cs hrun
      have hfirst := (exact_run wordBuffer before cs halnum).mp h
      have hsecond := (exact_run wordBuffer' before cs halnum).mp h'
      rw [← htext] at hfirst hsecond
      rw [lexemeLiterall_run wordBuffer hrun, lexemeLiterall_run wordBuffer' hrun,
        (WordBuffer.literall_eq_self_iff hnul).mpr hfirst,
        (WordBuffer.literall_eq_self_iff hnul).mpr hsecond]
    | false =>
      obtain ⟨-, hrun⟩ := firstLexeme_not_run halnum cs
      rw [lexemeLiterall_not_run wordBuffer hrun, lexemeLiterall_not_run wordBuffer' hrun]
  · rw [tokenNext, if_pos hge, tokenNext, if_pos hge]

-- `push` was read into word_buffer before: `rec` comes back as `rech`.
def afterPush : WordBuffer := WordBuffer.fill ['p', 'u', 's', 'h'] .zero

theorem rec_after_push_not_exact : ¬ LiterallExact afterPush ['r', 'e', 'c'] 0 := by
  have hc : isAlphanumeric 'r' = true := rfl
  intro h
  obtain ⟨hlen, hnul⟩ := (exact_run afterPush [] ['e', 'c'] hc).mp h
  cases hnul

end TokenLiterals

end CAt
