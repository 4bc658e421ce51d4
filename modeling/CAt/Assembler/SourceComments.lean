import CAt.Assembler.InsertedComments
import CAt.Assembler.LinePasses
import CAt.Assembler.LineWise
import CAt.Assembler.TokenLists

namespace CAt

open GuardedLoop.Loop (bind_ok ok_bind)
open LineWise (lexemes_newline lexemes_hash)
open Segments (Terminated Split)

structure CommentText where
  chars : List Char
  noNewline : '\n' ∉ chars

def commented (a : List Char) (c : CommentText) (b : List Char) : List Char :=
  a ++ '#' :: (c.chars ++ '\n' :: b)

def uncommented (a b : List Char) : List Char := a ++ '\n' :: b

def Transparent (a : List Char) (c : CommentText) (b : List Char) : Prop :=
  indexLabels (sourceTokens (commented a c b)) = indexLabels (sourceTokens (uncommented a b)) ∧
    ∀ host junk labels,
      assembleProgram host junk (sourceTokens (commented a c b)) labels =
        assembleProgram host junk (sourceTokens (uncommented a b)) labels

namespace SourceComments

def lineEnd : Token := ⟨none, .symbolExpressionEnd⟩
def hash : Token := ⟨none, .symbolHash⟩

theorem sourceTokens_newline (a b : List Char) :
    sourceTokens (a ++ '\n' :: b) = sourceTokens a ++ lineEnd :: sourceTokens b := by
  rw [sourceTokens, lexemes_newline, List.filter_append, List.map_append]
  rfl

theorem sourceTokens_hash (a b : List Char) :
    sourceTokens (a ++ '#' :: b) = sourceTokens a ++ hash :: sourceTokens b := by
  rw [sourceTokens, lexemes_hash, List.filter_append, List.map_append]
  rfl

theorem sourceTokens_commented (a : List Char) (c : CommentText) (b : List Char) :
    sourceTokens (commented a c b) =
      sourceTokens a ++ hash :: (sourceTokens c.chars ++ lineEnd :: sourceTokens b) := by
  rw [commented, sourceTokens_hash, sourceTokens_newline]

theorem isLineEnd_eq {text : List Char} {t : Token} (ht : t ∈ sourceTokens text)
    (h : isLineEnd t = true) : t = lineEnd := by
  obtain ⟨l, -, rfl⟩ := List.mem_map.mp ht
  have htype : l.type = .symbolExpressionEnd := by simpa [isLineEnd, Lexeme.token] using h
  simp [Lexeme.token, Lexeme.isRun, htype, lineEnd]

section Blank

variable {before after raw rest : List Token}

theorem terminated_snoc (ts : List Token) : Terminated isLineEnd (ts ++ [lineEnd]) := by
  apply Segments.terminated_iff.mpr
  simp [isLineEnd, lineEnd]

theorem insertion_blank (start : Terminated isLineEnd before)
    (inside : ∀ t ∈ raw, isLineEnd t = false) (hblank : stripComment raw = [])
    (after : List Token) : Insertion (before ++ after) (before ++ (raw ++ lineEnd :: after)) := by
  cases raw with
  | nil => exact .blankLine after start rfl
  | cons t raw =>
    have hhash : isHash t = true := by
      cases h : isHash t with
      | true => rfl
      | false =>
        rw [stripComment_cons h] at hblank
        cases hblank
    exact .commentLine after start hhash (fun u hu => inside u (List.mem_cons_of_mem t hu)) rfl

theorem insertions_blank (hends : ∀ t ∈ rest, isLineEnd t = true → t = lineEnd)
    (hblank : ∀ l ∈ lines rest, l = []) (start : Terminated isLineEnd before)
    (after : List Token) : Insertions (before ++ after) (before ++ (rest ++ lineEnd :: after)) := by
  induction Segments.split isLineEnd rest generalizing before with
  | @last raw inside =>
    have hraw : lines raw = [stripComment raw] := by
      rw [lines, List.splitOnP_eq_singleton inside]
      rfl
    exact .single (insertion_blank start inside (hblank _ (by simp [hraw])) after)
  | @cons raw rest e inside atEnd tail ih =>
    rw [lines_append inside atEnd] at hblank
    obtain ⟨hraw, hrest⟩ := List.forall_mem_cons.mp hblank
    obtain rfl : e = lineEnd := hends e (by simp) atEnd
    have hfirst := insertion_blank start inside hraw after
    have hmore := ih (fun t ht => hends t (by simp [ht])) hrest
      (start.append (Terminated.segment inside atEnd))
    simp only [List.append_assoc, List.cons_append, List.nil_append] at hmore ⊢
    exact .head hfirst hmore

theorem insertions_comment (hends : ∀ t ∈ rest, isLineEnd t = true → t = lineEnd)
    (hblank : ∀ l ∈ (lines rest).tail, l = []) (before after : List Token) :
    Insertions (before ++ lineEnd :: after)
      (before ++ hash :: (rest ++ lineEnd :: after)) := by
  cases Segments.split isLineEnd rest with
  | last inside => exact .single (.trailing before after rfl inside rfl)
  | @cons raw rest e inside atEnd tail =>
    rw [lines_append inside atEnd] at hblank
    obtain rfl : e = lineEnd := hends e (by simp) atEnd
    have hfirst : Insertion (before ++ lineEnd :: after)
        (before ++ hash :: (raw ++ lineEnd :: after)) := .trailing before after rfl inside rfl
    have hmore := insertions_blank (fun t ht => hends t (by simp [ht])) hblank
      (terminated_snoc (before ++ hash :: raw)) after
    simp only [List.append_assoc, List.cons_append, List.nil_append] at hmore ⊢
    exact .head hfirst hmore

end Blank

section Necessary

variable {host : Host} {junk : Junk} {labels : List Label}

theorem index_labels_grow (carry : Carry) (l : List Token) (out out' : LabelIndex)
    (h : indexPass.act carry l out = .ok out') : out.labels.length ≤ out'.labels.length := by
  simp only [indexPass] at h
  split at h
  · split at h
    · cases h
      simp
    · cases h
  · split at h
    · cases h
      exact Nat.le_refl _
    · cases h
      exact Nat.le_refl _

theorem assemble_program_grows (stale : Bool) (l : List Token) (program program' : List Instruction)
    (h : (assemblePass host junk labels).act stale l program = .ok program') :
    program.length ≤ program'.length := by
  simp only [assemblePass] at h
  split at h
  · unfold emitInstruction at h
    split at h
    · cases h
    · split at h
      · cases h
        simp
      · cases h
  · cases h
    exact Nat.le_refl _

theorem index_act_defines {w : Token} {l : List Token} {out : LabelIndex} {lc : Nat}
    (hlabel : looksLikeLabel false (w :: l) = true)
    (h : indexPass.act ⟨[], false⟩ (w :: l) ⟨[], lc⟩ = .ok out) : out.labels.length = 1 := by
  have hdefines : definesLabel ⟨[], false⟩ (w :: l) = true := by
    cases l with
    | nil => simp [looksLikeLabel, secondColon] at hlabel
    | cons t l => simp [definesLabel, hlabel]
  simp only [indexPass, hdefines, if_true] at h
  cases h
  rfl

theorem assemble_act_keeps {w : Token} {l : List Token} {program : List Instruction}
    (hlabel : looksLikeLabel false (w :: l) = false)
    (h : (assemblePass host junk labels).act false (w :: l) [] = .ok program) :
    program.length = 1 := by
  have hkeep : keepsLine false (w :: l) = true := by simp [keepsLine, hlabel]
  simp only [assemblePass, hkeep, if_true, emitInstruction] at h
  split at h
  · cases h
  · cases h
    rfl

theorem blank_of_nothing_done {ls : List (List Token)} {out : LabelIndex} {carry : Carry}
    {lc : Nat} {stale : Bool}
    (hindex : indexPass.runLines (⟨[], false⟩, ⟨[], lc⟩) ls = .ok (carry, out))
    (hlabels : out.labels = [])
    (hassemble : (assemblePass host junk labels).runLines (false, []) ls = .ok (stale, [])) :
    ∀ l ∈ ls, l = [] := by
  induction ls with
  | nil => nofun
  | cons l ls ih =>
    rw [LinePass.runLines_cons] at hindex hassemble
    obtain ⟨⟨carry', out'⟩, hstep, hrest⟩ := bind_ok hindex
    obtain ⟨⟨stale', program'⟩, hstep', hrest'⟩ := bind_ok hassemble
    obtain ⟨-, hcarry, hact⟩ := LinePass.step_ok hstep
    obtain ⟨-, hstale, hact'⟩ := LinePass.step_ok hstep'
    cases l with
    | nil =>
      cases hact
      cases hact'
      cases hcarry
      cases hstale
      exact List.forall_mem_cons.mpr ⟨rfl, ih hrest hrest'⟩
    | cons w l =>
      exfalso
      cases hlabel : looksLikeLabel false (w :: l) with
      | true =>
        have hgrow := LinePass.runLines_mono index_labels_grow hrest
        rw [index_act_defines hlabel hact, hlabels] at hgrow
        exact Nat.not_succ_le_zero 0 hgrow
      | false =>
        have hgrow := LinePass.runLines_mono assemble_program_grows hrest'
        rw [assemble_act_keeps hlabel hact'] at hgrow
        exact Nat.not_succ_le_zero 0 hgrow

theorem lines_hash (ts : List Token) : lines (hash :: ts) = [] :: (lines ts).tail := by
  have hfirst (segment : List Token) : stripComment (hash :: segment) = [] :=
    stripComment_hash rfl segment
  cases Segments.split isLineEnd ts with
  | last inside =>
    have hinside : ∀ t ∈ hash :: ts, isLineEnd t = false :=
      List.forall_mem_cons.mpr ⟨rfl, inside⟩
    rw [lines, lines, List.splitOnP_eq_singleton hinside, List.splitOnP_eq_singleton inside,
      List.map_singleton, hfirst]
    rfl
  | @cons raw rest e inside atEnd tail =>
    have hinside : ∀ t ∈ hash :: raw, isLineEnd t = false :=
      List.forall_mem_cons.mpr ⟨rfl, inside⟩
    rw [← List.cons_append, lines_append hinside atEnd, lines_append inside atEnd, hfirst]
    rfl

theorem blank_of_transparent {c : CommentText} (h : Transparent [] c []) :
    ∀ l ∈ (lines (sourceTokens c.chars)).tail, l = [] := by
  have hempty : sourceTokens [] = [] := by
    rw [sourceTokens, lexemes_nil]
    rfl
  have hplain : sourceTokens (uncommented [] []) = [lineEnd] := by
    rw [uncommented, sourceTokens_newline, hempty]
    rfl
  have htokens : sourceTokens (commented [] c []) =
      (hash :: sourceTokens c.chars) ++ [lineEnd] := by
    rw [sourceTokens_commented, hempty]
    rfl
  have hlines : completedLines ((hash :: sourceTokens c.chars) ++ [lineEnd]) =
      [] :: (lines (sourceTokens c.chars)).tail := by
    rw [completedLines_snoc rfl, ← lines_eq, lines_hash]
  obtain ⟨hindex, hassemble⟩ := h
  have hassemble := hassemble Host.integer (fun _ _ => .zero) []
  rw [htokens, hplain] at hindex hassemble
  have hindexed : indexLabels [lineEnd] = .ok [] := rfl
  have hassembled : assembleProgram Host.integer (fun _ _ => .zero) [lineEnd] [] = .ok [] := rfl
  rw [hindexed, indexLabels_result, LinePass.result, hlines] at hindex
  rw [hassembled, assembleProgram_result, LinePass.result, hlines] at hassemble
  obtain ⟨out, hout, hlabels⟩ := bind_ok hindex
  obtain ⟨⟨carry, out'⟩, hrun, hfinish⟩ := bind_ok hout
  obtain ⟨⟨stale, program⟩, hrun', hfinish'⟩ := bind_ok hassemble
  cases LinePass.finish_ok hfinish
  cases LinePass.finish_ok hfinish'
  have hblank := blank_of_nothing_done hrun (Except.ok.inj hlabels) hrun'
  exact (List.forall_mem_cons.mp hblank).2

end Necessary

theorem transparent_iff (c : CommentText) :
    (∀ a b, Transparent a c b) ↔ ∀ l ∈ (lines (sourceTokens c.chars)).tail, l = [] := by
  constructor
  · intro h
    exact blank_of_transparent (h [] [])
  · intro hblank a b
    have hinsert := insertions_comment (fun t ht => isLineEnd_eq ht) hblank (sourceTokens a)
      (sourceTokens b)
    rw [← sourceTokens_commented, ← sourceTokens_newline] at hinsert
    exact ⟨hinsert.indexLabels_eq, hinsert.assembleProgram_eq⟩

theorem semicolonHalt_noNewline : '\n' ∉ [';', 'h', 'a', 'l', 't'] := by decide

def semicolonHalt : CommentText := ⟨[';', 'h', 'a', 'l', 't'], semicolonHalt_noNewline⟩

def halt : Token := ⟨some ['h', 'a', 'l', 't'], .word⟩

theorem sourceTokens_semicolonHalt :
    sourceTokens (commented [] semicolonHalt []) = [hash, lineEnd, halt, lineEnd] := by
  have hword : lexemes ['h', 'a', 'l', 't'] = [⟨['h', 'a', 'l', 't'], .word⟩] := by
    rw [lexemes_cons]
    exact congrArg _ lexemes_nil
  have htext : lexemes [';', 'h', 'a', 'l', 't'] =
      [⟨[';'], .symbolExpressionEnd⟩, ⟨['h', 'a', 'l', 't'], .word⟩] := by
    rw [lexemes_cons]
    exact congrArg _ hword
  rw [sourceTokens_commented, sourceTokens, sourceTokens, lexemes_nil, semicolonHalt, htext]
  rfl

theorem semicolon_ends_comment : ¬ Transparent [] semicolonHalt [] := by
  rintro ⟨-, hassemble⟩
  have h := hassemble Host.integer (fun _ _ => .zero) []
  rw [sourceTokens_semicolonHalt, uncommented, sourceTokens_newline, sourceTokens, lexemes_nil] at h
  cases h

end SourceComments

end CAt
