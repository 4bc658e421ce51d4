import CAt.Assembler.PassBounds
import CAt.Library.FoldOutput

namespace CAt

open FoldOutput
open LineErrors (assembleLine_of_inst)

-- The indices at which the loops of parse_reg store into `prefix` and into `number`.
def prefixStores (str : List Char) : List Nat := List.range str.length

def numberStores (str : List Char) : List Nat :=
  if str = ['f', 'r'] then List.range (str.length - 2)
  else if str.head? = some 'r' then List.range (str.length - 1)
  else []

def SafeCall : Option (List Char) → Prop
  | none => False
  | some str => (∀ i ∈ prefixStores str, i < prefixSize + 1) ∧ ∀ i ∈ numberStores str, i < numberSize

def operandCalls (host : Host) (junk : Nat → Reg) (labels : List Label) (type : Inst) :
    Operands → List (Token × Nat) → List (Option (List Char)) :=
  outputs (readOperand host junk labels type) fun _ operand => [operand.1.literall]

def lineCalls (host : Host) (junk : Nat → Reg) (labels : List Label) :
    List Token → List (Option (List Char))
  | [] => []
  | first :: operands =>
    match lineInst first with
    | none => []
    | some type =>
      if getInstuctionCount type = operands.length then
        operandCalls host junk labels type .zero operands.zipIdx
      else []

def lineEndCalls (host : Host) (junk : Junk) (labels : List Label)
    (state : LineBuffer × List Instruction) (token : Token) : List (Option (List Char)) :=
  if isLineEnd token && !(state.1.firstIsWord && state.1.secondIsColon) && state.1.ic != 0 then
    lineCalls host (junk state.2.length) labels state.1.tokens
  else []

def callsFrom (host : Host) (junk : Junk) (labels : List Label) :
    LineBuffer × List Instruction → List Token → List (Option (List Char)) :=
  outputs (scanToken (assembleProgramLineEnd host junk labels)) (lineEndCalls host junk labels)

-- Once the pass has left the defined behaviour, C promises nothing of what is called after.
def MayCall (host : Host) (junk : Junk) (labels : List Label) (ts : List Token)
    (call : Option (List Char)) : Prop :=
  call ∈ callsFrom host junk labels (.empty, []) ts ∨
    ¬ InBounds (assembleProgram host junk ts labels)

def ParsesSafely (host : Host) (junk : Junk) (labels : List Label) (ts : List Token) : Prop :=
  ∀ call, MayCall host junk labels ts call → SafeCall call

namespace OperandBuffers

section Call

variable {str : List Char} {call : Option (List Char)}

theorem prefixStores_iff : (∀ i ∈ prefixStores str, i < prefixSize + 1) ↔ str.length ≤ 4 := by
  simp only [prefixStores, List.mem_range]
  constructor
  · intro h
    by_contra hlong
    exact absurd (h 4 (Nat.lt_of_not_le hlong)) (Nat.lt_irrefl 4)
  · exact fun hlen i hi => Nat.lt_of_lt_of_le hi hlen

theorem numberStores_lt {i : Nat} (hi : i ∈ numberStores str) : i < str.length := by
  unfold numberStores at hi
  split at hi
  · exact Nat.lt_of_lt_of_le (List.mem_range.mp hi) (Nat.sub_le _ _)
  · split at hi
    · exact Nat.lt_of_lt_of_le (List.mem_range.mp hi) (Nat.sub_le _ _)
    · cases hi

theorem safeCall_iff : SafeCall call ↔ ∃ text, call = some text ∧ text.length ≤ 4 := by
  cases call with
  | none =>
    refine iff_of_false id ?_
    rintro ⟨text, ⟨⟩, -⟩
  | some str =>
    simp only [SafeCall, prefixStores_iff, Option.some.injEq, exists_eq_left']
    refine and_iff_left_of_imp fun hlen i hi => ?_
    exact Nat.lt_of_lt_of_le (numberStores_lt hi) (Nat.le_trans hlen (by decide))

theorem safeCall_iff_parseReg : SafeCall (some str) ↔ ∀ host r,
    parseReg host r str ≠ .error .prefixOverflow ∧ parseReg host r str ≠ .error .numberOverflow := by
  rw [safeCall_iff]
  constructor
  · rintro ⟨text, ⟨⟩, hlen⟩ host r
    by_cases hlone : str = ['L']
    · rw [hlone, parseReg_loneL]
      exact ⟨nofun, nofun⟩
    · obtain ⟨r', hparse, -⟩ := parseReg_eq host r hlen hlone
      rw [hparse]
      exact ⟨nofun, nofun⟩
  · intro h
    refine ⟨str, rfl, ?_⟩
    by_contra hlong
    exact (h Host.integer .zero).1 (parseReg_long (Nat.lt_of_not_le hlong))

end Call

section Line

variable {host : Host} {junk : Nat → Reg} {labels : List Label} {type : Inst}

theorem readOperand_safe (acc : Operands) (operand : Token × Nat)
    (h : AssertsOnly (readOperand host junk labels type acc operand)) :
    SafeCall operand.1.literall := by
  obtain ⟨token, t⟩ := operand
  cases htext : token.literall with
  | none =>
    have hnull : readOperand host junk labels type acc (token, t) = .error .nullString := by
      simp only [readOperand, htext]
    exact absurd (h _ hnull) Bool.false_ne_true
  | some text =>
    refine safeCall_iff.mpr ⟨text, rfl, ?_⟩
    by_contra hlong
    have hread : readOperand host junk labels type acc (token, t) = .error .prefixOverflow := by
      rw [readOperand_eq host junk labels acc t htext, parseReg_long (Nat.lt_of_not_le hlong)]
      rfl
    exact absurd (h _ hread) Bool.false_ne_true

theorem operandCalls_safe (acc : Operands) (operands : List (Token × Nat))
    (h : AssertsOnly (operands.foldlM (readOperand host junk labels type) acc)) :
    ∀ call ∈ operandCalls host junk labels type acc operands, SafeCall call := by
  refine forall_outputs acc operands (fun acc operand _ hread => ?_) h
  exact List.forall_mem_singleton.mpr (readOperand_safe acc operand hread)

theorem lineCalls_safe (line : List Token) (h : AssertsOnly (assembleLine host junk labels line)) :
    ∀ call ∈ lineCalls host junk labels line, SafeCall call := by
  cases line with
  | nil => exact List.forall_mem_nil _
  | cons first operands =>
    rw [lineCalls]
    cases hinst : lineInst first with
    | none => exact List.forall_mem_nil _
    | some type =>
      rw [assembleLine_of_inst operands hinst] at h
      by_cases hcount : getInstuctionCount type = operands.length
      · have hreads : AssertsOnly (readOperands host junk labels type operands) := h.of_bind
        rw [readOperands, if_pos hcount] at hreads
        simp only [hcount, if_true]
        exact operandCalls_safe .zero operands.zipIdx hreads
      · simp only [hcount, if_false]
        exact List.forall_mem_nil _

end Line

section Program

variable {host : Host} {junk : Junk} {labels : List Label}

theorem emit_asserts {tokens : List Token} {program : List Instruction}
    (h : InBounds (emitInstruction host junk labels tokens program)) :
    AssertsOnly (assembleLine host (junk program.length) labels tokens) := by
  intro fault hline
  rw [emitInstruction, hline] at h
  exact inBounds_error.mp h

theorem lineEnd_asserts {line : LineBuffer} {program : List Instruction}
    (hplain : (line.firstIsWord && line.secondIsColon) = false) (hic : (line.ic != 0) = true)
    (h : InBounds (assembleProgramLineEnd host junk labels line program)) :
    AssertsOnly (assembleLine host (junk program.length) labels line.tokens) := by
  rw [assembleProgramLineEnd, hplain, Bool.false_and, if_neg Bool.false_ne_true, hic] at h
  exact emit_asserts h.of_bind

theorem lineEndCalls_safe (state : LineBuffer × List Instruction) (token : Token)
    (h : InBounds (scanToken (assembleProgramLineEnd host junk labels) state token)) :
    ∀ call ∈ lineEndCalls host junk labels state token, SafeCall call := by
  obtain ⟨line, program⟩ := state
  rw [lineEndCalls]
  split
  · rename_i hcalls
    obtain ⟨hkept, hic⟩ := Bool.and_eq_true_iff.mp hcalls
    obtain ⟨atEnd, hplain⟩ := Bool.and_eq_true_iff.mp hkept
    rw [scanToken_lineEnd atEnd] at h
    rw [Bool.not_eq_true'] at hplain
    have hline : AssertsOnly (assembleLine host (junk program.length) labels
        { line with lineIsComment := false }.tokens) := lineEnd_asserts hplain hic h
    exact lineCalls_safe _ hline
  · exact List.forall_mem_nil _

theorem callsFrom_safe (ts : List Token) (h : InBounds (assembleProgram host junk ts labels)) :
    ∀ call ∈ callsFrom host junk labels (.empty, []) ts, SafeCall call :=
  forall_outputs _ ts (fun state token _ => lineEndCalls_safe state token) h.of_bind

end Program

def setToken : Token := ⟨some ['s', 'e', 't'], .word⟩

def registerZero : Token := ⟨some ['r', '0'], .word⟩

def tenThousand : Token := ⟨some ['1', '0', '0', '0', '0'], .wordLiterallNumber⟩

def setSource : List Char := ['s', 'e', 't', ' ', 'r', '0', ' ', '1', '0', '0', '0', '0', '\n']

def setTokens : List Token := [setToken, registerZero, tenThousand, ⟨none, .symbolExpressionEnd⟩]

theorem scanned_newline {before : List Char} {list : List Token} (h : Scanned before ['\n'] list)
    (hroom : list.length < tokensBlockSize) :
    Scanned (before ++ ['\n']) [] (list ++ [⟨none, .symbolExpressionEnd⟩]) := by
  have hnext : tokenNext .zero (before ++ ['\n'] ++ []) before.length =
      .ok (⟨none, .symbolExpressionEnd⟩, before.length + 1) := by
    rw [List.append_nil]
    exact tokenNext_symbol before [] '\n' .zero rfl rfl rfl rfl
  exact h.next ['\n'] hnext nofun nofun hroom

theorem tokenizes_setSource : Tokenizes zeroJunk setSource setTokens := by
  have hset : Scanned ['s', 'e', 't'] [' ', 'r', '0', ' ', '1', '0', '0', '0', '0', '\n']
      [setToken] :=
    (Scanned.start _).word rfl (List.all_eq_true.mp rfl) rfl (by decide) (by decide)
  have hregister : Scanned (['s', 'e', 't'] ++ [' '] ++ ['r', '0'])
      [' ', '1', '0', '0', '0', '0', '\n'] ([setToken] ++ [registerZero]) :=
    (hset.space rfl).word rfl (List.all_eq_true.mp rfl) rfl (by decide) (by decide)
  have hnumber : Scanned (['s', 'e', 't', ' ', 'r', '0'] ++ [' '] ++ ['1', '0', '0', '0', '0'])
      ['\n'] ([setToken, registerZero] ++ [tenThousand]) :=
    (hregister.space rfl).number (List.all_eq_true.mp rfl) rfl (by decide) (by decide)
  exact (scanned_newline hnumber (by decide)).finish

end OperandBuffers

end CAt
