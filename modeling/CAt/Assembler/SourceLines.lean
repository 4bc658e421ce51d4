import CAt.Assembler.Passes
import CAt.Library.Segments

namespace CAt

open Segments (Terminated)

def isLineEnd (t : Token) : Bool := t.type == .symbolExpressionEnd

def stripComment (line : List Token) : List Token :=
  line.takeWhile fun t => t.type != .symbolHash

def isLabelLine : List Token → Bool
  | [w, c] => w.type == .word && c.type == .symbolColon
  | _ => false

def isKeywordWord (t : Token) : Bool :=
  t.type == .word && (t.literall.bind isKeyword).isSome

def isInstructionLine : List Token → Bool
  | [] => false
  | [w] => isKeywordWord w
  | w :: t :: _ => isKeywordWord w && t.type != .symbolColon

def lines (ts : List Token) : List (List Token) := (ts.splitOnP isLineEnd).map stripComment

def items (ts : List Token) : List (List Token) := (lines ts).filter fun l => !l.isEmpty

def labelLines (ts : List Token) : List (List Token) := (lines ts).filter isLabelLine

def instructionLines (ts : List Token) : List (List Token) := (lines ts).filter isInstructionLine

structure Shaped (ts : List Token) : Prop where
  shape : ∀ l ∈ lines ts, l = [] ∨ isLabelLine l = true ∨ isInstructionLine l = true
  width : ∀ l ∈ lines ts, l.length ≤ lineSize

structure WellFormed (ts : List Token) : Prop extends Shaped ts where
  terminated : ∀ t ∈ ts.getLast?, isLineEnd t = true
  instructions : (instructionLines ts).length ≤ programSize

theorem lines_append {raw : List Token} {e : Token} (inside : ∀ t ∈ raw, isLineEnd t = false)
    (atEnd : isLineEnd e = true) (rest : List Token) :
    lines (raw ++ e :: rest) = stripComment raw :: lines rest := by
  rw [lines, List.splitOnP_append_cons_of_forall_mem inside e atEnd, List.map_cons]
  rfl

theorem items_append {raw : List Token} {e : Token} (inside : ∀ t ∈ raw, isLineEnd t = false)
    (atEnd : isLineEnd e = true) (rest : List Token) :
    items (raw ++ e :: rest) =
      if stripComment raw = [] then items rest else stripComment raw :: items rest := by
  rw [items, lines_append inside atEnd]
  by_cases h : stripComment raw = []
  · rw [if_pos h, List.filter_cons_of_neg (by simp [h])]
    rfl
  · rw [if_neg h, List.filter_cons_of_pos (by simpa using h)]
    rfl

theorem items_terminated {before : List Token} (h : Terminated isLineEnd before)
    (ts : List Token) : items (before ++ ts) = items before ++ items ts := by
  induction h with
  | nil => rfl
  | cons inside atEnd _ ih =>
    rw [List.append_assoc, List.cons_append, items_append inside atEnd, items_append inside atEnd,
      ih]
    split
    · rfl
    · rfl

theorem filter_items {p : List Token → Bool} (h : p [] = false) (ts : List Token) :
    (items ts).filter p = (lines ts).filter p := by
  rw [items, List.filter_filter]
  apply List.filter_congr
  intro l _
  cases l with
  | nil => simp [h]
  | cons t l => simp

namespace Shaped

theorem item {ts : List Token} (h : Shaped ts) {l : List Token} (hl : l ∈ items ts) :
    isLabelLine l = true ∨ isInstructionLine l = true := by
  obtain ⟨hmem, hne⟩ := List.mem_filter.mp hl
  rcases h.shape l hmem with rfl | hshape
  · cases hne
  · exact hshape

variable {raw rest : List Token} {e : Token}

theorem head (h : Shaped (raw ++ e :: rest)) (inside : ∀ t ∈ raw, isLineEnd t = false)
    (atEnd : isLineEnd e = true) :
    (stripComment raw = [] ∨ isLabelLine (stripComment raw) = true ∨
      isInstructionLine (stripComment raw) = true) ∧ (stripComment raw).length ≤ lineSize := by
  have hmem : stripComment raw ∈ lines (raw ++ e :: rest) := by
    rw [lines_append inside atEnd]
    exact List.mem_cons_self
  exact ⟨h.shape _ hmem, h.width _ hmem⟩

theorem tail (h : Shaped (raw ++ e :: rest)) (inside : ∀ t ∈ raw, isLineEnd t = false)
    (atEnd : isLineEnd e = true) : Shaped rest := by
  have hmem : ∀ l ∈ lines rest, l ∈ lines (raw ++ e :: rest) := by
    intro l hl
    rw [lines_append inside atEnd]
    exact List.mem_cons_of_mem _ hl
  exact ⟨fun l hl => h.shape l (hmem l hl), fun l hl => h.width l (hmem l hl)⟩

theorem left {before ts : List Token} (hbefore : Terminated isLineEnd before)
    (h : Shaped (before ++ ts)) : Shaped before := by
  have hmem : ∀ l ∈ lines before, l = [] ∨ l ∈ lines (before ++ ts) := by
    clear h
    induction hbefore with
    | nil => exact fun l hl => .inl (List.mem_singleton.mp hl)
    | cons inside atEnd _ ih =>
      rw [List.append_assoc, List.cons_append, lines_append inside atEnd,
        lines_append inside atEnd]
      intro l hl
      rcases List.mem_cons.mp hl with rfl | hl
      · exact .inr List.mem_cons_self
      · exact (ih l hl).imp_right (List.mem_cons_of_mem _)
  constructor
  · intro l hl
    exact (hmem l hl).elim .inl (h.shape l)
  · intro l hl
    rcases hmem l hl with rfl | hl
    · exact Nat.zero_le _
    · exact h.width l hl

end Shaped

namespace LineBuffer

def fill (tk : Fin lineSize → Token) (k : Nat) (ts : List Token) : Fin lineSize → Token :=
  fun i => if i.val < k then tk i else ts.getD (i.val - k) (tk i)

theorem fill_nil (tk : Fin lineSize → Token) (k : Nat) : fill tk k [] = tk := by
  funext i
  simp [fill]

theorem fill_update (tk : Fin lineSize → Token) {k : Nat} (h : k < lineSize) (t : Token)
    (ts : List Token) : fill (Function.update tk ⟨k, h⟩ t) (k + 1) ts = fill tk k (t :: ts) := by
  funext i
  unfold fill
  by_cases hi : i = ⟨k, h⟩
  · subst hi
    simp
  · have hne : i.val ≠ k := fun he => hi (Fin.ext he)
    rw [Function.update_of_ne hi]
    by_cases hlt : i.val < k
    · rw [if_pos hlt, if_pos (by omega)]
    · have hsub : i.val - k = (i.val - (k + 1)) + 1 := by omega
      rw [if_neg hlt, if_neg (by omega), hsub, List.getD_cons_succ]

def filled (line : LineBuffer) (l : List Token) : LineBuffer :=
  ⟨fill line.tk line.ic l, line.ic + l.length, false⟩

def store (line : LineBuffer) (t : Token) (h : line.ic < lineSize) : LineBuffer :=
  { line with tk := Function.update line.tk ⟨line.ic, h⟩ t, ic := line.ic + 1 }

theorem filled_store {line : LineBuffer} {t : Token} (h : line.ic < lineSize) (l : List Token) :
    (line.store t h).filled l = line.filled (t :: l) := by
  simp only [store, filled, fill_update, List.length_cons, Nat.add_assoc, Nat.add_comm 1]

theorem filled_nil {line : LineBuffer} (h : line.lineIsComment = false) :
    line.filled [] = line := by
  cases line
  cases h
  simp [filled, fill_nil]

theorem tokens_filled {line : LineBuffer} (hic : line.ic = 0) {l : List Token}
    (hl : l.length ≤ lineSize) : (line.filled l).tokens = l := by
  have hlen : (line.filled l).tokens.length = l.length := by
    simp only [tokens, filled, hic, List.length_take, List.length_ofFn]
    omega
  apply List.ext_getElem hlen
  intro i hi hi'
  have hget : (line.filled l).tokens[i] =
      fill line.tk line.ic l ⟨i, Nat.lt_of_lt_of_le hi' hl⟩ := by
    simp only [tokens, filled, List.getElem_take, List.getElem_ofFn]
  rw [hget, fill, hic, if_neg (Nat.not_lt_zero i), Nat.sub_zero, List.getD_eq_getElem?_getD,
    List.getElem?_eq_getElem hi', Option.getD_some]

end LineBuffer

section Scan

variable {β : Type} {atLineEnd : LineBuffer → β → Except PassFault (LineBuffer × β)}

section Token

variable {line : LineBuffer} {t : Token}

theorem scanToken_hash (h : line.lineIsComment = false) (hhash : (t.type == .symbolHash) = true)
    (out : β) :
    scanToken atLineEnd (line, out) t = .ok ({ line with lineIsComment := true }, out) := by
  simp [scanToken, h, hhash]

theorem scanToken_store (h : line.lineIsComment = false) (hhash : (t.type == .symbolHash) = false)
    (hend : isLineEnd t = false) (hlt : line.ic < lineSize) (out : β) :
    scanToken atLineEnd (line, out) t = .ok (line.store t hlt, out) := by
  unfold isLineEnd at hend
  simp [scanToken, LineBuffer.store, h, hhash, hend, hlt]

theorem scanToken_overflow (h : line.lineIsComment = false)
    (hhash : (t.type == .symbolHash) = false) (hend : isLineEnd t = false)
    (hfull : ¬ line.ic < lineSize) (out : β) :
    scanToken atLineEnd (line, out) t = .error .tkOverflow := by
  unfold isLineEnd at hend
  simp [scanToken, h, hhash, hend, hfull]

end Token

theorem stripComment_hash {t : Token} (h : (t.type == .symbolHash) = true) (raw : List Token) :
    stripComment (t :: raw) = [] := by
  rw [stripComment, List.takeWhile_cons_of_neg (by simpa using h)]

theorem stripComment_cons {t : Token} (h : (t.type == .symbolHash) = false) (raw : List Token) :
    stripComment (t :: raw) = t :: stripComment raw := by
  rw [stripComment, List.takeWhile_cons_of_pos (by simpa using h)]
  rfl

theorem scan_comment {raw : List Token} (inside : ∀ t ∈ raw, isLineEnd t = false)
    (line : LineBuffer) (h : line.lineIsComment = true) (out : β) :
    raw.foldlM (scanToken atLineEnd) (line, out) = .ok (line, out) := by
  induction raw with
  | nil => rfl
  | cons t raw ih =>
    have ht : isLineEnd t = false := inside t List.mem_cons_self
    have hstep : scanToken atLineEnd (line, out) t = .ok (line, out) := by
      unfold isLineEnd at ht
      simp [scanToken, h, ht]
    rw [List.foldlM_cons, hstep]
    exact ih fun u hu => inside u (List.mem_cons_of_mem t hu)

theorem scan_body {raw : List Token} (inside : ∀ t ∈ raw, isLineEnd t = false)
    (line : LineBuffer) (h : line.lineIsComment = false)
    (hroom : line.ic + (stripComment raw).length ≤ lineSize) (out : β) :
    ∃ comment, raw.foldlM (scanToken atLineEnd) (line, out) =
      .ok ({ line.filled (stripComment raw) with lineIsComment := comment }, out) := by
  induction raw generalizing line with
  | nil =>
    refine ⟨false, ?_⟩
    change Except.ok (line, out) = .ok (line.filled [], out)
    rw [LineBuffer.filled_nil h]
  | cons t raw ih =>
    obtain ⟨ht, hraw⟩ := List.forall_mem_cons.mp inside
    rw [List.foldlM_cons]
    cases hhash : t.type == .symbolHash with
    | true =>
      rw [scanToken_hash h hhash, stripComment_hash hhash, LineBuffer.filled_nil h]
      exact ⟨true, scan_comment hraw _ rfl out⟩
    | false =>
      rw [stripComment_cons hhash, List.length_cons] at hroom
      have hlt : line.ic < lineSize := by omega
      rw [scanToken_store h hhash ht hlt, stripComment_cons hhash, ← LineBuffer.filled_store hlt]
      apply ih hraw (line.store t hlt) h
      simp only [LineBuffer.store]
      omega

theorem scan_overflow {raw : List Token} (inside : ∀ t ∈ raw, isLineEnd t = false)
    (line : LineBuffer) (h : line.lineIsComment = false) (hic : line.ic ≤ lineSize)
    (hfull : lineSize < line.ic + (stripComment raw).length) (out : β) :
    raw.foldlM (scanToken atLineEnd) (line, out) = .error .tkOverflow := by
  induction raw generalizing line with
  | nil =>
    rw [stripComment, List.takeWhile_nil, List.length_nil] at hfull
    omega
  | cons t raw ih =>
    obtain ⟨ht, hraw⟩ := List.forall_mem_cons.mp inside
    rw [List.foldlM_cons]
    cases hhash : t.type == .symbolHash with
    | true =>
      rw [stripComment_hash hhash, List.length_nil] at hfull
      omega
    | false =>
      rw [stripComment_cons hhash, List.length_cons] at hfull
      by_cases hlt : line.ic < lineSize
      · rw [scanToken_store h hhash ht hlt]
        apply ih hraw (line.store t hlt) h hlt
        simp only [LineBuffer.store]
        omega
      · rw [scanToken_overflow h hhash ht hlt]
        rfl

theorem scanToken_lineEnd {e : Token} (atEnd : isLineEnd e = true) (line : LineBuffer) (out : β) :
    scanToken atLineEnd (line, out) e = atLineEnd { line with lineIsComment := false } out := by
  have hend : (e.type == .symbolExpressionEnd) = true := atEnd
  have hhash : (e.type == .symbolHash) = false := by
    rw [beq_iff_eq] at hend
    rw [hend]
    rfl
  cases line with
  | mk tk ic lineIsComment =>
    cases lineIsComment with
    | true => simp [scanToken, hend]
    | false => simp [scanToken, hend, hhash]

theorem scan_line {raw : List Token} {e : Token} (inside : ∀ t ∈ raw, isLineEnd t = false)
    (atEnd : isLineEnd e = true) (rest : List Token) (line : LineBuffer)
    (h : line.lineIsComment = false)
    (hroom : line.ic + (stripComment raw).length ≤ lineSize) (out : β) :
    (raw ++ e :: rest).foldlM (scanToken atLineEnd) (line, out) = (do
      let state ← atLineEnd (line.filled (stripComment raw)) out
      rest.foldlM (scanToken atLineEnd) state) := by
  obtain ⟨comment, hbody⟩ := scan_body inside line h hroom out
  rw [List.foldlM_append, hbody]
  change (scanToken atLineEnd _ e >>= _) = _
  rw [scanToken_lineEnd atEnd]
  rfl

end Scan

end CAt
