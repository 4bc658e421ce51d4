import CAt.Assembler.TokenSpans

namespace CAt

open GuardedLoop

def operators : List Lexeme :=
  [⟨['+'], .binaryOperatorPlus⟩, ⟨['+', '+'], .binaryOperatorPlusPlus⟩,
    ⟨['-'], .binaryOperatorMinus⟩, ⟨['-', '-'], .binaryOperatorMinusMinus⟩,
    ⟨['='], .binaryOperatorAsign⟩, ⟨['=', '='], .binaryOperatorEqual⟩,
    ⟨['('], .symbolParenOpen⟩, ⟨[')'], .symbolParenClose⟩,
    ⟨['{'], .symbolCurlyOpen⟩, ⟨['}'], .symbolCurlyClose⟩,
    ⟨['.'], .symbolDot⟩, ⟨[':'], .symbolColon⟩, ⟨[','], .symbolComma⟩, ⟨['#'], .symbolHash⟩,
    ⟨[';'], .symbolExpressionEnd⟩, ⟨['\n'], .symbolExpressionEnd⟩]

inductive IsSpelling : Lexeme → Prop
  | word {c : Char} {cs : List Char} (first : isCharacter c = true)
      (rest : ∀ d ∈ cs, isAlphanumeric d = true) (short : (c :: cs).length ≤ 1023) :
      IsSpelling ⟨c :: cs, .word⟩
  | number {c : Char} {cs : List Char} (first : isNumber c = true)
      (rest : ∀ d ∈ cs, isNumber d = true) (short : (c :: cs).length ≤ 1023) :
      IsSpelling ⟨c :: cs, .wordLiterallNumber⟩
  | operator {l : Lexeme} (h : l ∈ operators) : IsSpelling l

structure PrintedItem where
  gap : List Char
  spelling : Lexeme
  blank : ∀ c ∈ gap, isSpace c = true
  valid : IsSpelling spelling

-- Only the first spelling may stand without a blank before it.
structure Printout where
  items : List PrintedItem
  trailing : List Char
  separated : ∀ i ∈ items.tail, i.gap ≠ []
  blank : ∀ c ∈ trailing, isSpace c = true

def blanks (gap : List Char) : List Lexeme := gap.map fun c => ⟨[c], .space⟩

namespace Printing

def render (items : List PrintedItem) (trailing : List Char) : List Char :=
  items.flatMap (fun i => i.gap ++ i.spelling.text) ++ trailing

def printed (items : List PrintedItem) (trailing : List Char) : List Lexeme :=
  items.flatMap (fun i => blanks i.gap ++ [i.spelling]) ++ blanks trailing

def Separates (rest : List Char) : Prop := ∀ c ∈ rest.head?, isSpace c = true

theorem Separates.headD {rest : List Char} (h : Separates rest) {P : Char → Prop}
    (hspace : P ' ') (htab : P '\t') (hnul : P '\x00') : P (rest.headD '\x00') := by
  cases rest with
  | nil => exact hnul
  | cons c rest =>
    have hc : c = ' ' ∨ c = '\t' := by simpa [isSpace] using h c rfl
    rcases hc with rfl | rfl
    · exact hspace
    · exact htab

theorem takeWhile_run {isPart : Char → Bool} {cs rest : List Char}
    (hcs : ∀ d ∈ cs, isPart d = true) (hrest : isPart (rest.headD '\x00') = false) :
    (cs ++ rest).takeWhile isPart = cs := by
  rw [List.takeWhile_append_of_pos hcs]
  cases rest with
  | nil => simp
  | cons d rest =>
    have hd : ¬ isPart d = true := Bool.eq_false_iff.mp hrest
    simp [hd]

theorem firstLexeme_operator {rest : List Char} (h : Separates rest) :
    ∀ l ∈ operators, ∃ c cs, l.text = c :: cs ∧ firstLexeme c (cs ++ rest) = l := by
  have hplus : rest.headD '\x00' ≠ '+' := h.headD (P := (· ≠ '+')) (by simp) (by simp) (by simp)
  have hminus : rest.headD '\x00' ≠ '-' := h.headD (P := (· ≠ '-')) (by simp) (by simp) (by simp)
  have hequal : rest.headD '\x00' ≠ '=' := h.headD (P := (· ≠ '=')) (by simp) (by simp) (by simp)
  have hsingle (c : Char) (type : TokenType) (htype : operatorType c (rest.headD '\x00') = type)
      (hwidth : type.width = 1) (hspace : isSpace c = false) (hnumber : isNumber c = false)
      (hcharacter : isCharacter c = false) : ∃ d cs, [c] = d :: cs ∧
        firstLexeme d (cs ++ rest) = ⟨[c], type⟩ := by
    refine ⟨c, [], rfl, ?_⟩
    rw [firstLexeme_symbol _ hspace hnumber hcharacter, List.nil_append, htype, hwidth]
    rfl
  intro l hl
  simp only [operators, List.mem_cons, List.not_mem_nil, or_false] at hl
  rcases hl with rfl | rfl | rfl | rfl | rfl | rfl | hl
  · exact hsingle '+' _ (if_neg hplus) rfl rfl rfl rfl
  · exact ⟨'+', ['+'], rfl, rfl⟩
  · exact hsingle '-' _ (if_neg hminus) rfl rfl rfl rfl
  · exact ⟨'-', ['-'], rfl, rfl⟩
  · exact hsingle '=' _ (if_neg hequal) rfl rfl rfl rfl
  · exact ⟨'=', ['='], rfl, rfl⟩
  · rcases hl with rfl | rfl | rfl | rfl | rfl | rfl | rfl | rfl | rfl | rfl <;>
      exact hsingle _ _ rfl rfl rfl rfl rfl

theorem firstLexeme_spelling {l : Lexeme} (hl : IsSpelling l) {rest : List Char}
    (h : Separates rest) : ∃ c cs, l.text = c :: cs ∧ firstLexeme c (cs ++ rest) = l := by
  cases hl with
  | @word c cs first hrest short =>
    have hend : isAlphanumeric (rest.headD '\x00') = false :=
      h.headD (P := fun d => isAlphanumeric d = false) rfl rfl rfl
    refine ⟨c, cs, rfl, ?_⟩
    rw [firstLexeme_word _ first, takeWhile_run hrest hend]
  | @number c cs first hrest short =>
    have hend : isNumber (rest.headD '\x00') = false :=
      h.headD (P := fun d => isNumber d = false) rfl rfl rfl
    refine ⟨c, cs, rfl, ?_⟩
    rw [firstLexeme_number _ first, takeWhile_run hrest hend]
  | operator hl => exact firstLexeme_operator h l hl

theorem lexemes_spelling {l : Lexeme} (hl : IsSpelling l) {rest : List Char}
    (h : Separates rest) : lexemes (l.text ++ rest) = l :: lexemes rest := by
  obtain ⟨c, cs, htext, hfirst⟩ := firstLexeme_spelling hl h
  have hdrop : (c :: (cs ++ rest)).drop l.text.length = rest := by
    rw [← List.cons_append, ← htext, List.drop_left]
  rw [htext, List.cons_append, lexemes_cons, hfirst, hdrop]

theorem lexemes_blanks {gap : List Char} (h : ∀ c ∈ gap, isSpace c = true) (rest : List Char) :
    lexemes (gap ++ rest) = blanks gap ++ lexemes rest := by
  induction gap with
  | nil => rfl
  | cons c gap ih =>
    obtain ⟨hc, hgap⟩ := List.forall_mem_cons.mp h
    rw [List.cons_append, lexemes_cons, firstLexeme_space _ hc]
    exact congrArg (List.cons _) (ih hgap)

theorem separates_blank {gap : List Char} (h : ∀ c ∈ gap, isSpace c = true) : Separates gap :=
  fun c hc => h c (List.mem_of_head? hc)

theorem separates_render {items : List PrintedItem} {trailing : List Char}
    (hitems : ∀ i ∈ items, i.gap ≠ []) (h : ∀ c ∈ trailing, isSpace c = true) :
    Separates (render items trailing) := by
  cases items with
  | nil => exact separates_blank h
  | cons i items =>
    obtain ⟨c, gap, hgap⟩ := List.exists_cons_of_ne_nil (hitems i List.mem_cons_self)
    intro d hd
    apply i.blank
    simp_all [render]

theorem lexemes_render {trailing : List Char} (h : ∀ c ∈ trailing, isSpace c = true)
    (items : List PrintedItem) (hitems : ∀ i ∈ items.tail, i.gap ≠ []) :
    lexemes (render items trailing) = printed items trailing := by
  induction items with
  | nil => simpa [render, printed, lexemes_nil] using lexemes_blanks h []
  | cons i items ih =>
    have htail : ∀ j ∈ items.tail, j.gap ≠ [] := fun j hj => hitems j (List.mem_of_mem_tail hj)
    have hrest : Separates (render items trailing) := separates_render hitems h
    have hsplit : render (i :: items) trailing =
        i.gap ++ (i.spelling.text ++ render items trailing) := by simp [render]
    rw [hsplit, lexemes_blanks i.blank, lexemes_spelling i.valid hrest, ih htail]
    simp [printed]

theorem spelling_not_space {l : Lexeme} (h : IsSpelling l) : l.type ≠ .space := by
  cases h with
  | word first rest short => simp
  | number first rest short => simp
  | operator h =>
    have hall : ∀ l ∈ operators, l.type ≠ .space := by simp [operators]
    exact hall l h

theorem filter_printed (items : List PrintedItem) (trailing : List Char) :
    (printed items trailing).filter (fun l => l.type != .space) =
      items.map PrintedItem.spelling := by
  have hblanks (gap : List Char) : (blanks gap).filter (fun l => l.type != .space) = [] := by
    simp [blanks]
  induction items with
  | nil => exact hblanks trailing
  | cons i items ih =>
    have hsplit : printed (i :: items) trailing =
        blanks i.gap ++ i.spelling :: printed items trailing := by simp [printed]
    have hkept : (i.spelling.type != .space) = true :=
      bne_iff_ne.mpr (spelling_not_space i.valid)
    rw [hsplit, List.filter_append, hblanks, List.filter_cons, if_pos hkept, ih]
    rfl

end Printing

open Printing (render printed)

def PrintingUndone (junk : Nat → WordBuffer) (p : Printout) : Prop :=
  ∃ s, (callLoop junk (render p.items p.trailing)).Finishes .start s ∧
    (keptCalls s.calls).map (Call.lexeme (render p.items p.trailing)) =
      p.items.map PrintedItem.spelling

namespace Printing

theorem keptCalls_map (buffer : List Char) (calls : List Call) :
    (keptCalls calls).map (Call.lexeme buffer) =
      (calls.map (Call.lexeme buffer)).filter (fun l => l.type != .space) := by
  rw [List.filter_map]
  rfl

theorem printing_undone_iff (junk : Nat → WordBuffer) (p : Printout) :
    PrintingUndone junk p ↔ TerminatedRuns junk 0 (printed p.items p.trailing) := by
  have hlexemes := lexemes_render p.blank p.items p.separated
  rw [← hlexemes, ← TokenSpans.finishes_iff]
  constructor
  · rintro ⟨s, hs, -⟩
    exact ⟨s, hs⟩
  · rintro ⟨s, hs⟩
    refine ⟨s, hs, ?_⟩
    have hcalls := TokenSpans.finished_lexemes junk hs
    rw [hlexemes] at hcalls
    rw [keptCalls_map, hcalls, filter_printed]

def letter : PrintedItem where
  gap := []
  spelling := ⟨['a'], .word⟩
  blank := by simp
  valid := .word rfl (by simp) (by simp)

def oneLetter : Printout where
  items := [letter]
  trailing := []
  separated := by simp
  blank := by simp

theorem oneLetter_not_undone : ¬ PrintingUndone TokenSpans.unterminated oneLetter := by
  rintro ⟨s, hs, -⟩
  have hruns := (TokenSpans.finishes_iff _ _).mp ⟨s, hs⟩
  rw [lexemes_render oneLetter.blank oneLetter.items oneLetter.separated] at hruns
  obtain ⟨i, -, hi⟩ := hruns.1 rfl
  cases hi

end Printing

end CAt
