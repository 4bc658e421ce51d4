import CAt.Assembler.KeptLines

namespace CAt

open GuardedLoop.Loop (bind_ok ok_bind)
open AssembleProgram (end_empty end_dropped)

def lastLine (ts : List Token) : List Token := stripComment ((ts.splitOnP isLineEnd).getLastD [])

theorem lastLine_last {raw : List Token} (inside : ∀ t ∈ raw, isLineEnd t = false) :
    lastLine raw = stripComment raw := by
  rw [lastLine, List.splitOnP_eq_singleton inside]
  rfl

theorem lastLine_append {raw : List Token} {e : Token} (inside : ∀ t ∈ raw, isLineEnd t = false)
    (atEnd : isLineEnd e = true) (rest : List Token) :
    lastLine (raw ++ e :: rest) = lastLine rest := by
  rw [lastLine, List.splitOnP_append_cons_of_forall_mem inside e atEnd, lastLine]
  cases hrest : rest.splitOnP isLineEnd with
  | nil => exact absurd hrest (List.splitOnP_ne_nil _ _)
  | cons l ls => simp

section Snoc

variable {ts : List Token} {e : Token}

theorem completedLines_snoc (atEnd : isLineEnd e = true) :
    completedLines (ts ++ [e]) = completedLines ts ++ [lastLine ts] := by
  induction Segments.split isLineEnd ts with
  | last inside =>
    rw [completedLines_append inside atEnd, completedLines_last inside, lastLine_last inside]
    rfl
  | cons inside hend tail ih =>
    rw [List.append_assoc, List.cons_append, completedLines_append inside hend,
      completedLines_append inside hend, lastLine_append inside hend, ih]
    rfl

theorem lastLine_snoc (atEnd : isLineEnd e = true) : lastLine (ts ++ [e]) = [] := by
  induction Segments.split isLineEnd ts with
  | last inside => exact lastLine_append inside atEnd []
  | cons inside hend tail ih =>
    rw [List.append_assoc, List.cons_append, lastLine_append inside hend, ih]

end Snoc

theorem lines_eq (ts : List Token) : lines ts = completedLines ts ++ [lastLine ts] := by
  induction Segments.split isLineEnd ts with
  | last inside =>
    rw [lines, List.splitOnP_eq_singleton inside, completedLines_last inside, lastLine_last inside]
    rfl
  | cons inside atEnd tail ih =>
    rw [lines_append inside atEnd, completedLines_append inside atEnd, lastLine_append inside atEnd,
      ih]
    rfl

structure LinePass (σ β : Type) where
  carried : σ → Nat
  next : σ → List Token → σ
  act : σ → List Token → β → Except PassFault β

namespace LinePass

variable {σ β : Type} (P : LinePass σ β)

def lineEnd (carry : σ) (l : List Token) (out : β) : Except PassFault (σ × β) :=
  (fun out => (P.next carry l, out)) <$> P.act carry l out

def step (state : σ × β) (l : List Token) : Except PassFault (σ × β) :=
  if P.carried state.1 + l.length ≤ lineSize then P.lineEnd state.1 l state.2
  else .error .tkOverflow

def runLines (state : σ × β) (ls : List (List Token)) : Except PassFault (σ × β) :=
  ls.foldlM P.step state

def finish (last : List Token) (state : σ × β) : Except PassFault β :=
  if P.carried state.1 + last.length ≤ lineSize then .ok state.2 else .error .tkOverflow

def result (state : σ × β) (ts : List Token) : Except PassFault β :=
  P.runLines state (completedLines ts) >>= P.finish (lastLine ts)

variable {P} {state : σ × β} {l : List Token} {ls : List (List Token)}

theorem runLines_append (ls' : List (List Token)) :
    P.runLines state (ls ++ ls') = P.runLines state ls >>= fun mid => P.runLines mid ls' :=
  List.foldlM_append

theorem runLines_cons : P.runLines state (l :: ls) = P.step state l >>= fun mid => P.runLines mid ls :=
  List.foldlM_cons

def carryAfter (P : LinePass σ β) (carry : σ) (ls : List (List Token)) : σ := ls.foldl P.next carry

theorem step_ok {out : β} {carry : σ} {state' : σ × β} (h : P.step (carry, out) l = .ok state') :
    P.carried carry + l.length ≤ lineSize ∧ state'.1 = P.next carry l ∧
      P.act carry l out = .ok state'.2 := by
  unfold step at h
  split at h
  · rename_i hfits
    obtain ⟨out', hact, h⟩ := bind_ok h
    cases h
    exact ⟨hfits, rfl, hact⟩
  · cases h

theorem runLines_carry {out : β} {carry : σ} {state' : σ × β}
    (h : P.runLines (carry, out) ls = .ok state') : state'.1 = P.carryAfter carry ls := by
  induction ls generalizing carry out with
  | nil =>
    cases h
    rfl
  | cons l ls ih =>
    rw [runLines_cons] at h
    obtain ⟨⟨carry', out'⟩, hstep, hrest⟩ := bind_ok h
    obtain ⟨-, hnext, -⟩ := step_ok hstep
    cases hnext
    exact ih hrest

theorem runLines_mono {size : β → Nat}
    (grows : ∀ carry l out out', P.act carry l out = .ok out' → size out ≤ size out')
    {out : β} {carry : σ} {state' : σ × β} (h : P.runLines (carry, out) ls = .ok state') :
    size out ≤ size state'.2 := by
  induction ls generalizing carry out with
  | nil =>
    cases h
    exact Nat.le_refl _
  | cons l ls ih =>
    rw [runLines_cons] at h
    obtain ⟨⟨carry', out'⟩, hstep, hrest⟩ := bind_ok h
    obtain ⟨-, -, hact⟩ := step_ok hstep
    exact (grows carry l out out' hact).trans (ih hrest)

theorem finish_ok {last : List Token} {out : β} (h : P.finish last state = .ok out) :
    state.2 = out := by
  unfold finish at h
  split at h
  · exact Except.ok.inj h
  · cases h

theorem step_of_fits (h : P.carried state.1 + l.length ≤ lineSize) :
    P.step state l = P.lineEnd state.1 l state.2 := if_pos h

theorem step_of_overflow (h : ¬ P.carried state.1 + l.length ≤ lineSize) :
    P.step state l = .error .tkOverflow := if_neg h

end LinePass

inductive SameEnd {σ β : Type} (At : σ → LineBuffer → Prop) :
    Except PassFault (σ × β) → Except PassFault (LineBuffer × β) → Prop
  | error (fault : PassFault) : SameEnd At (.error fault) (.error fault)
  | ok {carry : σ} {line : LineBuffer} (h : At carry line) (out : β) :
      SameEnd At (.ok (carry, out)) (.ok (line, out))

theorem SameEnd.bind {σ β γ : Type} {At : σ → LineBuffer → Prop}
    {pass : Except PassFault (σ × β)} {scan : Except PassFault (LineBuffer × β)}
    (h : SameEnd At pass scan) {f : σ × β → Except PassFault γ}
    {g : LineBuffer × β → Except PassFault γ}
    (next : ∀ carry line out, At carry line → g (line, out) = f (carry, out)) :
    scan >>= g = pass >>= f := by
  cases h with
  | error fault => rfl
  | ok hat out => exact next _ _ out hat

structure Refines {σ β : Type} (P : LinePass σ β) (At : σ → LineBuffer → Prop)
    (atLineEnd : LineBuffer → β → Except PassFault (LineBuffer × β)) : Prop where
  notComment : ∀ {carry line}, At carry line → line.lineIsComment = false
  ic : ∀ {carry line}, At carry line → line.ic = P.carried carry
  room : ∀ {carry line}, At carry line → line.ic ≤ lineSize
  lineEnd : ∀ {carry line}, At carry line → ∀ l out, P.carried carry + l.length ≤ lineSize →
    SameEnd At (P.lineEnd carry l out) (atLineEnd (line.filled l) out)

namespace Refines

variable {σ β : Type} {P : LinePass σ β} {At : σ → LineBuffer → Prop}
  {atLineEnd : LineBuffer → β → Except PassFault (LineBuffer × β)} {carry : σ} {line : LineBuffer}

theorem scan_last (h : Refines P At atLineEnd) (hat : At carry line) {raw : List Token}
    (inside : ∀ t ∈ raw, isLineEnd t = false) (out : β) :
    Prod.snd <$> raw.foldlM (scanToken atLineEnd) (line, out) =
      P.finish (stripComment raw) (carry, out) := by
  have hic := h.ic hat
  by_cases hfits : line.ic + (stripComment raw).length ≤ lineSize
  · obtain ⟨comment, hbody⟩ := scan_body inside line (h.notComment hat) hfits out
    rw [hbody, LinePass.finish, if_pos (hic ▸ hfits)]
    rfl
  · rw [scan_overflow inside line (h.notComment hat) (h.room hat) (Nat.lt_of_not_le hfits),
      LinePass.finish, if_neg (hic ▸ hfits)]
    rfl

theorem scan_result (h : Refines P At atLineEnd) (hat : At carry line) (out : β)
    (ts : List Token) :
    Prod.snd <$> ts.foldlM (scanToken atLineEnd) (line, out) = P.result (carry, out) ts := by
  induction Segments.split isLineEnd ts generalizing carry line out with
  | last inside =>
    rw [h.scan_last hat inside, LinePass.result, completedLines_last inside, lastLine_last inside]
    rfl
  | @cons raw rest e inside atEnd tail ih =>
    have hic := h.ic hat
    rw [LinePass.result, completedLines_append inside atEnd, lastLine_append inside atEnd,
      LinePass.runLines_cons, bind_assoc]
    by_cases hfits : line.ic + (stripComment raw).length ≤ lineSize
    · rw [scan_line inside atEnd rest line (h.notComment hat) hfits,
        LinePass.step_of_fits (hic ▸ hfits), map_bind]
      apply (h.lineEnd hat (stripComment raw) out (hic ▸ hfits)).bind
      intro carry' line' out' hat'
      exact ih hat' out'
    · rw [List.foldlM_append, scan_overflow inside line (h.notComment hat) (h.room hat)
        (Nat.lt_of_not_le hfits), LinePass.step_of_overflow (hic ▸ hfits)]
      rfl

end Refines

def secondColon (stale : Bool) : List Token → Bool
  | _ :: t :: _ => t.type == .symbolColon
  | _ => stale

def firstWord : List Token → Bool
  | w :: _ => w.type == .word
  | [] => false

def looksLikeLabel (stale : Bool) (l : List Token) : Bool := firstWord l && secondColon stale l

-- `tokens` is what `ic` still counts when a line starts, `colon` what `tk[1]` shows beyond it.
structure Carry where
  tokens : List Token
  colon : Bool

def definesLabel (carry : Carry) (l : List Token) : Bool :=
  looksLikeLabel carry.colon (carry.tokens ++ l) && (carry.tokens ++ l).length != 1

def countsLine (carry : Carry) (l : List Token) : Bool :=
  !(carry.tokens ++ l).isEmpty && !secondColon carry.colon (carry.tokens ++ l)

def nextCarry (carry : Carry) (l : List Token) : Carry :=
  if looksLikeLabel carry.colon (carry.tokens ++ l) then
    ⟨if definesLabel carry l then [] else carry.tokens ++ l, true⟩
  else ⟨[], secondColon carry.colon (carry.tokens ++ l)⟩

def indexPass : LinePass Carry LabelIndex where
  carried carry := carry.tokens.length
  next := nextCarry
  act carry l out :=
    if definesLabel carry l then
      if out.labels.length < labelsSize then
        let label := { name := lineName (carry.tokens ++ l), address := BitVec.ofNat 32 out.lc }
        .ok { out with labels := out.labels ++ [label] }
      else .error .labelsOverflow
    else if countsLine carry l then .ok { out with lc := out.lc + 1 }
    else .ok out

def keepsLine (stale : Bool) (l : List Token) : Bool := !looksLikeLabel stale l && !l.isEmpty

def nextStale (stale : Bool) (l : List Token) : Bool :=
  if keepsLine stale l then decide (l.length = 1) && stale else !l.isEmpty || stale

def assemblePass (host : Host) (junk : Junk) (labels : List Label) :
    LinePass Bool (List Instruction) where
  carried _ := 0
  next := nextStale
  act stale l program :=
    if keepsLine stale l then emitInstruction host junk labels l program else .ok program

structure Carries (carry : Carry) (line : LineBuffer) : Prop where
  notComment : line.lineIsComment = false
  ic : line.ic = carry.tokens.length
  atMostOne : carry.tokens.length ≤ 1
  first : ∀ w ∈ carry.tokens, line.tk 0 = w
  colon : line.secondIsColon = carry.colon

section Index

variable {carry : Carry} {line : LineBuffer} {l : List Token} {out : LabelIndex}

theorem carries_empty : Carries ⟨[], false⟩ .empty :=
  ⟨rfl, rfl, Nat.zero_le 1, nofun, rfl⟩

theorem Carries.filled (h : Carries carry line) {w : Token} {l' : List Token}
    (hl : carry.tokens ++ l = w :: l') :
    (line.filled l).tk 0 = w ∧ (line.filled l).ic = (w :: l').length ∧
      (line.filled l).secondIsColon = secondColon carry.colon (w :: l') := by
  have hic := h.ic
  have hone := h.atMostOne
  have hfirst := h.first
  have hcolon := h.colon
  obtain ⟨tokens, colon⟩ := carry
  simp only at hic hone hfirst hcolon hl
  have hlength : (line.filled l).ic = (w :: l').length := by
    rw [LineBuffer.filled, hic, ← List.length_append, hl]
  rcases tokens with _ | ⟨v, _ | ⟨v', tokens⟩⟩
  · rw [List.nil_append] at hl
    subst hl
    refine ⟨?_, hlength, ?_⟩
    · simp [LineBuffer.filled, LineBuffer.fill, hic]
    · cases l' with
      | nil => rw [filled_single_secondIsColon hic, hcolon]; rfl
      | cons t l' => exact filled_secondIsColon hic
  · cases hl
    refine ⟨?_, hlength, ?_⟩
    · simp [LineBuffer.filled, LineBuffer.fill, hic, hfirst]
    · cases l with
      | nil => rw [LineBuffer.filled_nil h.notComment, hcolon]; rfl
      | cons t l => exact filled_held_secondIsColon hic
  · simp at hone

section Line

variable {w : Token} {l' : List Token}

theorem indexPass_empty (hl : carry.tokens ++ l = []) :
    indexPass.lineEnd carry l out = .ok (⟨[], carry.colon⟩, out) := by
  simp only [LinePass.lineEnd, indexPass, nextCarry, definesLabel, countsLine, hl]
  rfl

theorem indexPass_held (hl : carry.tokens ++ l = [w])
    (hlabel : looksLikeLabel carry.colon [w] = true) :
    indexPass.lineEnd carry l out = .ok (⟨[w], true⟩, out) := by
  have hsecond : secondColon carry.colon [w] = true := (Bool.and_eq_true_iff.mp hlabel).2
  simp only [LinePass.lineEnd, indexPass, nextCarry, definesLabel, countsLine, hl, hlabel, hsecond]
  rfl

theorem indexPass_defines (hl : carry.tokens ++ l = w :: l')
    (hlabel : looksLikeLabel carry.colon (w :: l') = true) (hlong : l' ≠ []) :
    indexPass.lineEnd carry l out =
      if out.labels.length < labelsSize then
        .ok (⟨[], true⟩, { out with
          labels := out.labels ++ [⟨w.literall, BitVec.ofNat 32 out.lc⟩] })
      else .error .labelsOverflow := by
  simp only [LinePass.lineEnd, indexPass, nextCarry, definesLabel, hl, hlabel]
  simp only [List.length_cons, bne_iff_ne, ne_eq, Nat.add_eq_right, List.length_eq_zero_iff, hlong,
    not_false_eq_true, if_true, Bool.true_and, lineName]
  split
  · rfl
  · rfl

theorem indexPass_passes (hl : carry.tokens ++ l = w :: l')
    (hlabel : looksLikeLabel carry.colon (w :: l') = false) :
    indexPass.lineEnd carry l out = .ok (⟨[], secondColon carry.colon (w :: l')⟩,
      if secondColon carry.colon (w :: l') then out else { out with lc := out.lc + 1 }) := by
  simp only [LinePass.lineEnd, indexPass, nextCarry, definesLabel, countsLine, hl, hlabel]
  cases secondColon carry.colon (w :: l') with
  | true => rfl
  | false => rfl

theorem indexPass_line (h : Carries carry line) (hl : carry.tokens ++ l = w :: l') :
    SameEnd Carries (indexPass.lineEnd carry l out) (indexLabelsLineEnd (line.filled l) out) := by
  obtain ⟨hfirst, hic, hcolon⟩ := h.filled hl
  have hword : (line.filled l).firstIsWord = firstWord (w :: l') := by
    rw [LineBuffer.firstIsWord, hfirst]
    rfl
  have hne : ((line.filled l).ic != 0) = true := by
    rw [hic]
    rfl
  rw [indexLabelsLineEnd, hword, hcolon, hne, Bool.and_true, Bool.true_and, hfirst, hic,
    ← looksLikeLabel]
  cases hlabel : looksLikeLabel carry.colon (w :: l') with
  | true =>
    have hstale := (Bool.and_eq_true_iff.mp hlabel).2
    cases l' with
    | nil =>
      rw [indexPass_held hl hlabel]
      refine .ok ⟨rfl, hic, Nat.le_refl 1, ?_, hcolon.trans hstale⟩ out
      intro v hv
      rw [List.mem_singleton.mp hv]
      exact hfirst
    | cons t l' =>
      have hlong : ¬ (w :: t :: l').length = 1 := by simp
      rw [indexPass_defines hl hlabel (List.cons_ne_nil t l'), if_pos rfl, if_neg hlong]
      split
      · exact SameEnd.ok ⟨rfl, rfl, Nat.zero_le 1, List.forall_mem_nil _, hcolon.trans hstale⟩ _
      · exact SameEnd.error _
  | false =>
    rw [indexPass_passes hl hlabel, if_neg Bool.false_ne_true]
    cases hsecond : secondColon carry.colon (w :: l') with
    | true => exact SameEnd.ok ⟨rfl, rfl, Nat.zero_le 1, List.forall_mem_nil _, hcolon.trans hsecond⟩ out
    | false => exact SameEnd.ok ⟨rfl, rfl, Nat.zero_le 1, List.forall_mem_nil _, hcolon.trans hsecond⟩ _

end Line

theorem indexPass_refines : Refines indexPass Carries indexLabelsLineEnd where
  notComment h := h.notComment
  ic h := h.ic
  room h := by
    have hone := h.atMostOne
    rw [h.ic]
    exact hone.trans (by decide)
  lineEnd {carry line} h l out _ := by
    cases hl : carry.tokens ++ l with
    | nil =>
      obtain ⟨htokens, rfl⟩ := List.append_eq_nil_iff.mp hl
      have hic : line.ic = 0 := by rw [h.ic, htokens]; rfl
      have hend : indexLabelsLineEnd line out = .ok ({ line with ic := 0 }, out) := by
        simp [indexLabelsLineEnd, hic]
      rw [LineBuffer.filled_nil h.notComment, indexPass_empty hl, hend]
      exact .ok ⟨h.notComment, rfl, Nat.zero_le 1, List.forall_mem_nil _, h.colon⟩ out
    | cons w l' => exact indexPass_line h hl

theorem indexLabels_result (ts : List Token) :
    indexLabels ts = LabelIndex.labels <$> indexPass.result (⟨[], false⟩, ⟨[], 0⟩) ts := by
  rw [← indexPass_refines.scan_result carries_empty, indexLabels]
  cases ts.foldlM (scanToken indexLabelsLineEnd) (.empty, ⟨[], 0⟩) with
  | error fault => rfl
  | ok state => rfl

end Index

section Assemble

variable {host : Host} {junk : Junk} {labels : List Label}

theorem assemblePass_drops {stale : Bool} {l : List Token} (hkeep : keepsLine stale l = false)
    (program : List Instruction) :
    (assemblePass host junk labels).lineEnd stale l program =
      .ok (!l.isEmpty || stale, program) := by
  simp only [LinePass.lineEnd, assemblePass, nextStale, hkeep]
  rfl

theorem assemblePass_keeps {stale : Bool} {l : List Token} (hkeep : keepsLine stale l = true)
    (program : List Instruction) :
    (assemblePass host junk labels).lineEnd stale l program =
      (fun program => (decide (l.length = 1) && stale, program)) <$>
        emitInstruction host junk labels l program := by
  simp only [LinePass.lineEnd, assemblePass, nextStale, hkeep]
  rfl

theorem filled_shows {stale : Bool} {line : LineBuffer} (h : AtLineStart stale line) (w : Token)
    (l : List Token) : (line.filled (w :: l)).firstIsWord = firstWord (w :: l) ∧
      (line.filled (w :: l)).secondIsColon = secondColon stale (w :: l) ∧
      (line.filled (w :: l)).ic ≠ 0 := by
  refine ⟨filled_firstIsWord h.ic, ?_, by simp [LineBuffer.filled]⟩
  cases l with
  | nil =>
    rw [filled_single_secondIsColon h.ic, h.colon]
    rfl
  | cons t l => exact filled_secondIsColon h.ic

theorem assemblePass_line {stale : Bool} {line : LineBuffer} (h : AtLineStart stale line)
    {w : Token} {l : List Token} (hwidth : (w :: l).length ≤ lineSize)
    (program : List Instruction) :
    SameEnd AtLineStart ((assemblePass host junk labels).lineEnd stale (w :: l) program)
      (assembleProgramLineEnd host junk labels (line.filled (w :: l)) program) := by
  obtain ⟨hword, hcolon, hic⟩ := filled_shows h w l
  cases hlabel : looksLikeLabel stale (w :: l) with
  | true =>
    have hkeep : keepsLine stale (w :: l) = false := by simp [keepsLine, hlabel]
    obtain ⟨hfirst, hsecond⟩ := Bool.and_eq_true_iff.mp hlabel
    obtain ⟨line', hend, h'⟩ : ∃ line', assembleProgramLineEnd host junk labels
        (line.filled (w :: l)) program = .ok (line', program) ∧ AtLineStart true line' :=
      lineEnd_dropped (hword.trans hfirst) (hcolon.trans hsecond) hic
    rw [assemblePass_drops hkeep, hend]
    exact .ok h' program
  | false =>
    have hkeep : keepsLine stale (w :: l) = true := by simp [keepsLine, hlabel]
    have hplain : ((line.filled (w :: l)).firstIsWord && (line.filled (w :: l)).secondIsColon) =
        false := by
      rw [hword, hcolon]
      exact hlabel
    obtain ⟨line', h', hend⟩ : ∃ line', AtLineStart (decide ((w :: l).length = 1) && stale) line' ∧
        assembleProgramLineEnd host junk labels (line.filled (w :: l)) program =
          (fun program => (line', program)) <$> emitInstruction host junk labels (w :: l) program :=
      lineEnd_emitted h hwidth (List.cons_ne_nil w l) hplain
    rw [assemblePass_keeps hkeep, hend]
    cases emitInstruction host junk labels (w :: l) program with
    | error fault => exact .error fault
    | ok program' => exact .ok h' program'

theorem assemblePass_refines :
    Refines (assemblePass host junk labels) AtLineStart
      (assembleProgramLineEnd host junk labels) where
  notComment h := h.notComment
  ic h := h.ic
  room h := by
    rw [h.ic]
    exact Nat.zero_le _
  lineEnd {stale line} h l program hfits := by
    have hwidth : l.length ≤ lineSize := by
      simpa [assemblePass] using hfits
    cases l with
    | nil =>
      obtain ⟨line', hend, h'⟩ : ∃ line', assembleProgramLineEnd host junk labels
          (line.filled []) program = .ok (line', program) ∧ AtLineStart stale line' :=
        lineEnd_empty h
      rw [assemblePass_drops (by simp [keepsLine]), hend]
      exact .ok h' program
    | cons w l => exact assemblePass_line h hwidth program

theorem assembleProgram_result (ts : List Token) :
    assembleProgram host junk ts labels =
      (assemblePass host junk labels).result (false, []) ts := by
  rw [← assemblePass_refines.scan_result atLineStart_empty, assembleProgram]
  cases ts.foldlM (scanToken (assembleProgramLineEnd host junk labels)) (.empty, []) with
  | error fault => rfl
  | ok state => rfl

end Assemble

end CAt
