import CAt.Assembler.Tokenizer

namespace CAt

def isAlphanumeric (c : Char) : Bool := isNumber c || isCharacter c

structure Lexeme where
  text : List Char
  type : TokenType
deriving DecidableEq, Repr

namespace Lexeme

def isRun (l : Lexeme) : Bool := l.type == .word || l.type == .wordLiterallNumber

end Lexeme

def operatorType (c next : Char) : TokenType :=
  match c with
  | '\n' | ';' => .symbolExpressionEnd
  | '+' => if next = '+' then .binaryOperatorPlusPlus else .binaryOperatorPlus
  | '-' => if next = '-' then .binaryOperatorMinusMinus else .binaryOperatorMinus
  | '=' => if next = '=' then .binaryOperatorEqual else .binaryOperatorAsign
  | '(' => .symbolParenOpen
  | ')' => .symbolParenClose
  | '{' => .symbolCurlyOpen
  | '}' => .symbolCurlyClose
  | '.' => .symbolDot
  | ':' => .symbolColon
  | ',' => .symbolComma
  | '#' => .symbolHash
  | _ => .null

def firstLexeme (c : Char) (cs : List Char) : Lexeme :=
  if isSpace c then ⟨[c], .space⟩
  else if isNumber c then ⟨c :: cs.takeWhile isNumber, .wordLiterallNumber⟩
  else if isCharacter c then ⟨c :: cs.takeWhile isAlphanumeric, .word⟩
  else
    let type := operatorType c (cs.headD '\x00')
    ⟨(c :: cs).take type.width, type⟩

theorem operatorType_width (c next : Char) :
    (operatorType c next).width = 1 ∨ ((operatorType c next).width = 2 ∧ next = c) := by
  unfold operatorType
  split <;> first
    | exact .inl rfl
    | split <;> first | exact .inl rfl | exact .inr ⟨rfl, ‹_›⟩

theorem operatorType_not_run (c next : Char) (text : List Char) :
    (Lexeme.mk text (operatorType c next)).isRun = false := by
  unfold operatorType Lexeme.isRun
  split <;> first
    | rfl
    | split <;> rfl

theorem operatorType_ne (c next : Char) :
    operatorType c next ≠ .eob ∧ operatorType c next ≠ .space := by
  unfold operatorType
  split <;> first
    | decide
    | split <;> decide

theorem operatorType_text (c : Char) (cs : List Char) :
    ((c :: cs).take (operatorType c (cs.headD '\x00')).width).length =
      (operatorType c (cs.headD '\x00')).width := by
  rw [List.length_take, List.length_cons]
  rcases operatorType_width c (cs.headD '\x00') with hone | ⟨htwo, hnext⟩
  · omega
  · cases cs with
    | nil =>
      rw [List.headD_nil] at hnext
      subst hnext
      cases htwo
    | cons d cs =>
      rw [List.length_cons]
      omega

theorem char_cases (c : Char) : isSpace c = true ∨ isNumber c = true ∨ isCharacter c = true ∨
    (isSpace c = false ∧ isNumber c = false ∧ isCharacter c = false) := by
  cases isSpace c <;> cases isNumber c <;> cases isCharacter c <;> simp

theorem isAlphanumeric_iff {c : Char} :
    isAlphanumeric c = true ↔ isNumber c = true ∨ isCharacter c = true :=
  Bool.or_eq_true_iff

section First

variable {c : Char} (cs : List Char)

theorem firstLexeme_space (h : isSpace c = true) : firstLexeme c cs = ⟨[c], .space⟩ := if_pos h

theorem firstLexeme_number (h : isNumber c = true) :
    firstLexeme c cs = ⟨c :: cs.takeWhile isNumber, .wordLiterallNumber⟩ := by
  simp [firstLexeme, isSpace_of_number h, h]

theorem firstLexeme_word (h : isCharacter c = true) :
    firstLexeme c cs = ⟨c :: cs.takeWhile isAlphanumeric, .word⟩ := by
  simp [firstLexeme, isSpace_of_character h, isNumber_of_character h, h]

theorem firstLexeme_symbol (hspace : isSpace c = false) (hnumber : isNumber c = false)
    (hcharacter : isCharacter c = false) :
    firstLexeme c cs = ⟨(c :: cs).take (operatorType c (cs.headD '\x00')).width,
      operatorType c (cs.headD '\x00')⟩ := by
  simp [firstLexeme, hspace, hnumber, hcharacter]

end First

theorem firstLexeme_begins (c : Char) (cs : List Char) : (firstLexeme c cs).text <+: c :: cs := by
  rcases char_cases c with h | h | h | ⟨hspace, hnumber, hcharacter⟩
  · rw [firstLexeme_space cs h]
    exact ⟨cs, rfl⟩
  · rw [firstLexeme_number cs h]
    exact List.cons_prefix_cons.mpr ⟨rfl, List.takeWhile_prefix _⟩
  · rw [firstLexeme_word cs h]
    exact List.cons_prefix_cons.mpr ⟨rfl, List.takeWhile_prefix _⟩
  · rw [firstLexeme_symbol cs hspace hnumber hcharacter]
    exact List.take_prefix _ _

theorem firstLexeme_pos (c : Char) (cs : List Char) : 0 < (firstLexeme c cs).text.length := by
  rcases char_cases c with h | h | h | ⟨hspace, hnumber, hcharacter⟩
  · simp [firstLexeme_space cs h]
  · simp [firstLexeme_number cs h]
  · simp [firstLexeme_word cs h]
  · rw [firstLexeme_symbol cs hspace hnumber hcharacter, operatorType_text]
    rcases operatorType_width c (cs.headD '\x00') with h | ⟨h, -⟩ <;> omega

theorem forall_mem_takeWhile (isPart : Char → Bool) (cs : List Char) :
    ∀ d ∈ cs.takeWhile isPart, isPart d = true :=
  fun _ hd => List.mem_takeWhile_imp hd

theorem firstLexeme_run_alphanumeric (c : Char) (cs : List Char)
    (h : (firstLexeme c cs).isRun = true) :
    ∀ d ∈ (firstLexeme c cs).text, isAlphanumeric d = true := by
  rcases char_cases c with hc | hc | hc | ⟨hspace, hnumber, hcharacter⟩
  · rw [firstLexeme_space cs hc] at h
    cases h
  · rw [firstLexeme_number cs hc]
    have hdigits : ∀ d ∈ c :: cs.takeWhile isNumber, isNumber d = true :=
      List.forall_mem_cons.mpr ⟨hc, forall_mem_takeWhile isNumber cs⟩
    exact fun d hd => isAlphanumeric_iff.mpr (.inl (hdigits d hd))
  · rw [firstLexeme_word cs hc]
    exact List.forall_mem_cons.mpr
      ⟨isAlphanumeric_iff.mpr (.inr hc), forall_mem_takeWhile isAlphanumeric cs⟩
  · rw [firstLexeme_symbol cs hspace hnumber hcharacter, operatorType_not_run] at h
    cases h

theorem firstLexeme_run_ne_nul (c : Char) (cs : List Char) (h : (firstLexeme c cs).isRun = true) :
    ∀ d ∈ (firstLexeme c cs).text, d ≠ '\x00' :=
  word_ne_nul (firstLexeme_run_alphanumeric c cs h)

theorem firstLexeme_not_eob (c : Char) (cs : List Char) : (firstLexeme c cs).type ≠ .eob := by
  rcases char_cases c with h | h | h | ⟨hspace, hnumber, hcharacter⟩
  · simp [firstLexeme_space cs h]
  · simp [firstLexeme_number cs h]
  · simp [firstLexeme_word cs h]
  · rw [firstLexeme_symbol cs hspace hnumber hcharacter]
    exact (operatorType_ne c _).1

def lexemes : List Char → List Lexeme
  | [] => []
  | c :: cs => firstLexeme c cs :: lexemes ((c :: cs).drop (firstLexeme c cs).text.length)
termination_by text => text.length
decreasing_by
  have := firstLexeme_pos c cs
  simp only [List.length_drop, List.length_cons]
  omega

theorem lexemes_nil : lexemes [] = [] := by
  rw [lexemes]

theorem lexemes_cons (c : Char) (cs : List Char) :
    lexemes (c :: cs) =
      firstLexeme c cs :: lexemes ((c :: cs).drop (firstLexeme c cs).text.length) := by
  rw [lexemes]

theorem forall_mem_lexemes {P : Lexeme → Prop} (h : ∀ c cs, P (firstLexeme c cs))
    (text : List Char) : ∀ l ∈ lexemes text, P l := by
  induction text using lexemes.induct with
  | case1 => simp [lexemes_nil]
  | case2 c cs ih =>
    rw [lexemes_cons]
    exact List.forall_mem_cons.mpr ⟨h c cs, ih⟩

theorem lexemes_flatten (text : List Char) : (lexemes text).flatMap Lexeme.text = text := by
  induction text using lexemes.induct with
  | case1 => rw [lexemes_nil]; rfl
  | case2 c cs ih =>
    rw [lexemes_cons, List.flatMap_cons, ih]
    exact List.prefix_iff_eq_append.mp (firstLexeme_begins c cs)

section Next

variable (before : List Char) (c : Char) (cs : List Char) (wordBuffer : WordBuffer)

theorem headD_dropWhile {isPart : Char → Bool} (h : isPart '\x00' = false) (cs : List Char) :
    isPart ((cs.dropWhile isPart).headD '\x00') = false := by
  cases hrest : cs.dropWhile isPart with
  | nil => exact h
  | cons d rest =>
    have hne : cs.dropWhile isPart ≠ [] := by rw [hrest]; exact List.cons_ne_nil _ _
    have hhead := List.head_dropWhile_not isPart hne
    simp only [hrest, List.head_cons] at hhead
    exact hhead

def lexemeLiterall (l : Lexeme) : Except TokenFault (Option (List Char)) :=
  if l.isRun then some <$> wordBuffer.literall l.text else .ok none

theorem lexemeLiterall_run {l : Lexeme} (h : l.isRun = true) :
    lexemeLiterall wordBuffer l = some <$> wordBuffer.literall l.text := if_pos h

theorem lexemeLiterall_not_run {l : Lexeme} (h : l.isRun = false) :
    lexemeLiterall wordBuffer l = .ok none := if_neg (Bool.eq_false_iff.mp h)

theorem lexemeLiterall_cases {l : Lexeme} (h : l.isRun = true → ∀ d ∈ l.text, d ≠ '\x00') :
    ((l.isRun = true → wordBuffer.NulAfter l.text.length) ∧
        ∃ literall, lexemeLiterall wordBuffer l = .ok literall) ∨
      (¬ (l.isRun = true → wordBuffer.NulAfter l.text.length) ∧
        ∃ e, lexemeLiterall wordBuffer l = .error e ∧ e ≠ .bufferOverread) := by
  cases hrun : l.isRun with
  | false =>
    refine .inl ⟨?_, none, lexemeLiterall_not_run wordBuffer hrun⟩
    rintro ⟨⟩
  | true =>
    rw [lexemeLiterall_run wordBuffer hrun]
    by_cases hnul : wordBuffer.NulAfter l.text.length
    · rw [WordBuffer.literall_of_nulAfter (h hrun) hnul]
      exact .inl ⟨fun _ => hnul, _, rfl⟩
    · obtain ⟨e, he, hne⟩ := WordBuffer.literall_of_not_nulAfter (h hrun) hnul
      rw [he]
      exact .inr ⟨fun hall => hnul (hall rfl), e, rfl, hne⟩

theorem symbolType_eq :
    symbolType (before ++ c :: cs) before.length c =
      .ok (operatorType c (cs.headD '\x00')) := by
  fun_cases operatorType c (cs.headD '\x00') <;>
    simp_all [symbolType, nextSymbol_append, pure, Except.pure, bind, Except.bind]

theorem run_append_dropWhile (isPart : Char → Bool) :
    before ++ c :: cs = before ++ c :: cs.takeWhile isPart ++ cs.dropWhile isPart := by
  simp

theorem tokenNext_lexeme :
    tokenNext wordBuffer (before ++ c :: cs) before.length = (do
      let literall ← lexemeLiterall wordBuffer (firstLexeme c cs)
      return (⟨literall, (firstLexeme c cs).type⟩,
        before.length + (firstLexeme c cs).text.length)) := by
  rcases char_cases c with h | h | h | ⟨hspace, hnumber, hcharacter⟩
  · rw [firstLexeme_space cs h, tokenNext_space before cs c wordBuffer h]
    rfl
  · have hpart : ∀ d ∈ c :: cs.takeWhile isNumber, isNumber d = true :=
      List.forall_mem_cons.mpr ⟨h, forall_mem_takeWhile isNumber cs⟩
    rw [firstLexeme_number cs h, run_append_dropWhile before c cs isNumber,
      tokenNext_numberRun before _ c wordBuffer hpart (headD_dropWhile rfl cs),
      lexemeLiterall_run wordBuffer rfl]
    cases wordBuffer.literall (c :: cs.takeWhile isNumber) <;> rfl
  · have hrest : isAlphanumeric ((cs.dropWhile isAlphanumeric).headD '\x00') = false :=
      headD_dropWhile rfl cs
    rw [firstLexeme_word cs h, run_append_dropWhile before c cs isAlphanumeric,
      tokenNext_wordRun before _ c wordBuffer h (forall_mem_takeWhile isAlphanumeric cs) hrest,
      lexemeLiterall_run wordBuffer rfl]
    cases wordBuffer.literall (c :: cs.takeWhile isAlphanumeric) <;> rfl
  · rw [firstLexeme_symbol cs hspace hnumber hcharacter, tokenNext_symbol before cs c wordBuffer
      hspace hnumber hcharacter (symbolType_eq before c cs), operatorType_text,
      lexemeLiterall_not_run wordBuffer (operatorType_not_run c _ _)]
    rfl

end Next

end CAt
