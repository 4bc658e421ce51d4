import CAt.Assembler.SourceBounds
import CAt.Assembler.TokenSpans
import CAt.Language.Assembly
import CAt.Toolchain.Caasm

namespace CAt

open GuardedLoop
open CAt.Language (Source Spells Quiet)
open TokenLists (expectedList keptLexemes RunsNotNul runsNotNul)

namespace Toolchain

theorem readLoop_ends (file : List UInt8) {n : Nat} (h : file.length ≤ n) :
    readLoop.Ends (.start file) (readLoop.run n (.start file)) := by
  refine .of_variant (fun s => s.rest.length) ?_ h
  rintro ⟨rest, fb, fsize, extent⟩ hguard
  cases rest with
  | nil => cases hguard
  | cons b rest =>
    refine ⟨Nat.succ_pos _, fun t ht => ?_⟩
    simp only [readLoop] at ht
    split at ht
    · cases ht
      exact Nat.lt_succ_self _
    · cases ht

theorem tokenLoop_ends (words : Nat → WordBuffer) (fb : List Char) :
    (tokenLoop words fb).Ends .start ((tokenLoop words fb).run (fb.length + 1) .start) := by
  refine .of_variant (fun s => if s.atEnd then 0 else fb.length - s.filePos + 1) ?_ (Nat.le_refl _)
  rintro ⟨filePos, list, atEnd⟩ hguard
  have hrunning : atEnd = false := Bool.not_eq_true' _ ▸ hguard
  subst hrunning
  refine ⟨Nat.succ_pos _, fun t ht => ?_⟩
  rcases Nat.lt_or_ge filePos fb.length with hlt | hge
  · obtain ⟨before, c, cs, rfl, rfl⟩ := TokenSpans.split_at hlt
    have hpos := firstLexeme_pos c cs
    have hless : (before ++ c :: cs).length - (before.length + (firstLexeme c cs).text.length) + 1 <
        (before ++ c :: cs).length - before.length + 1 := by omega
    rw [TokenLists.body_call] at ht
    obtain ⟨literall, -, ht⟩ := Loop.bind_ok ht
    dsimp only at ht
    split at ht
    · cases ht
      exact hless
    · split at ht
      · cases ht
        exact hless
      · cases ht
  · have hend : tokenNext (words filePos) fb filePos = .ok (⟨none, .eob⟩, filePos) := if_pos hge
    simp only [tokenLoop, hend] at ht
    cases ht
    exact Nat.succ_pos _

theorem readSource_eq (bytes : List Byte) :
    readSource bytes =
      if (ReadSource.chars (fileBytes bytes)).length ≤ maxSize then
        if ReadSource.extentAfter 0 0 (ReadSource.chars (fileBytes bytes)) ≤ maxSize then
          .ok (ReadSource.sourceText (fileBytes bytes))
        else .error .fbOverflow
      else .error (.read .exceededMaximumFileSize) := by
  have hlength : (fileBytes bytes).length ≤ bytes.length := Nat.le_of_eq (List.length_map _)
  have hends := ReadSource.reads (fileBytes bytes) [] 0 0 (Nat.zero_le _)
  rw [Nat.zero_add, List.nil_append] at hends
  have hrun := (readLoop_ends (fileBytes bytes) hlength).unique hends
  rw [readSource, hrun]
  by_cases hshort : (ReadSource.chars (fileBytes bytes)).length ≤ maxSize
  · rw [if_pos hshort, if_pos hshort]
    rfl
  · rw [if_neg hshort, if_neg hshort]

theorem tokenize_eq (words : Nat → WordBuffer) (fb : List Char) :
    tokenize words fb =
      match expectedList words 0 [] (lexemes fb) with
      | .ok list => .ok list
      | .error fault => .error (.tokens fault) := by
  have hrun := (tokenLoop_ends words fb).unique (TokenLists.fills_buffer words fb)
  rw [tokenize, hrun]
  cases expectedList words 0 [] (lexemes fb) <;> rfl

-- Each word and number of the text finds a NUL right behind it in word_buffer.
def WordsExact (words : Nat → WordBuffer) : Nat → List Lexeme → Prop
  | _, [] => True
  | bp, l :: ls =>
    (l.isRun = true → (words bp).NulAt l.text.length) ∧ WordsExact words (bp + l.text.length) ls

theorem expectedList_exact {words : Nat → WordBuffer} {bp : Nat} {ls : List Lexeme}
    {list : List Token} (h : WordsExact words bp ls) (hnul : RunsNotNul ls)
    (hroom : list.length + (keptLexemes ls).length ≤ tokensBlockSize) :
    expectedList words bp list ls = .ok (list ++ (keptLexemes ls).map Lexeme.token) := by
  induction ls generalizing bp list with
  | nil => exact congrArg Except.ok (List.append_nil list).symm
  | cons l ls ih =>
    obtain ⟨hl, hls⟩ := h
    obtain ⟨hnul, hnuls⟩ := List.forall_mem_cons.mp hnul
    have hliterall : lexemeLiterall (words bp) l = .ok l.token.literall := by
      rw [Lexeme.token]
      cases hrun : l.isRun with
      | false => rw [lexemeLiterall_not_run (words bp) hrun]; rfl
      | true =>
        rw [lexemeLiterall_run (words bp) hrun,
          (WordBuffer.literall_eq_self_iff (hnul hrun)).mpr (hl hrun)]
        rfl
    rw [expectedList, hliterall, Loop.ok_bind]
    cases hspace : l.isSpace with
    | true =>
      rw [TokenLists.keptLexemes_space hspace] at hroom ⊢
      rw [if_pos rfl]
      exact ih hls hnuls hroom
    | false =>
      rw [TokenLists.keptLexemes_token hspace, List.length_cons] at hroom
      have hrest : (list ++ [l.token]).length + (keptLexemes ls).length ≤ tokensBlockSize := by
        rw [List.length_append, List.length_singleton]
        omega
      have hstep : expectedList words _ (list ++ [l.token]) ls = _ := ih hls hnuls hrest
      rw [List.append_assoc, List.singleton_append] at hstep
      rw [if_neg Bool.false_ne_true, if_pos (by omega), TokenLists.keptLexemes_token hspace,
        List.map_cons]
      exact hstep

-- The source file spells the program, and the buffers of main_assemble hold the file.
structure Holds (leftovers : Leftovers) (bytes : List Byte) (p : Source) : Prop where
  spells : Spells (sourceTokens (ReadSource.sourceText (fileBytes bytes))) p
  short : (ReadSource.chars (fileBytes bytes)).length < maxSize
  words : WordsExact leftovers.words 0 (lexemes (ReadSource.sourceText (fileBytes bytes)))
  tokens : (sourceTokens (ReadSource.sourceText (fileBytes bytes))).length ≤ tokensBlockSize
  quiet : Quiet leftovers.regs p

theorem readSource_short {bytes : List Byte}
    (h : (ReadSource.chars (fileBytes bytes)).length < maxSize) :
    readSource bytes = .ok (ReadSource.sourceText (fileBytes bytes)) := by
  have hextent : ReadSource.extentAfter 0 0 (ReadSource.chars (fileBytes bytes)) ≤ maxSize := by
    have hfilter := List.length_filter_le (· != 0) (ReadSource.chars (fileBytes bytes)).dropLast
    rw [SourceBounds.extent_le_iff, ReadSource.stringOf, List.length_map]
    rw [List.length_dropLast] at hfilter
    simp only [maxSize] at h ⊢
    omega
  rw [readSource_eq, if_pos (Nat.le_of_lt h), if_pos hextent]

theorem assembleSource_holds {host : Host} {leftovers : Leftovers} {bytes : List Byte} {p : Source}
    (h : Holds leftovers bytes p) :
    assembleSource host leftovers bytes = .ok (p.code host) := by
  have hroom : ([] : List Token).length +
      (keptLexemes (lexemes (ReadSource.sourceText (fileBytes bytes)))).length ≤
        tokensBlockSize := by
    have hlength : (sourceTokens (ReadSource.sourceText (fileBytes bytes))).length =
        (keptLexemes (lexemes (ReadSource.sourceText (fileBytes bytes)))).length :=
      List.length_map _
    rw [List.length_nil, Nat.zero_add, ← hlength]
    exact h.tokens
  have htokens : tokenize leftovers.words (ReadSource.sourceText (fileBytes bytes)) =
      .ok (sourceTokens (ReadSource.sourceText (fileBytes bytes))) := by
    rw [tokenize_eq, expectedList_exact h.words (runsNotNul _) hroom]
    rfl
  rw [assembleSource, readSource_short h.short, Loop.ok_bind, htokens, Loop.ok_bind, passes,
    Language.indexLabels_spelled h.spells, Loop.ok_bind,
    Language.assembleProgram_spelled h.spells h.quiet]

end Toolchain

end CAt
