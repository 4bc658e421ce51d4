import CAt.Assembler.OperandText
import CAt.Library.Faults

namespace CAt

open Faults (Only)

inductive OperandKind where
  | register | number | address
deriving DecidableEq, Repr

def signature : Inst → List OperandKind
  | .iHalt | .iEntry | .iRec | .iPrint | .iNop => []
  | .iInc | .iDec | .iRegDump | .iRet | .iPop | .iPush | .iGetac | .iRjmp => [.register]
  | .iJmp | .iCall => [.address]
  | .iSet | .iFset => [.register, .number]
  | .iDload | .iFload | .iDsave | .iFsave
  | .iCu2i | .iCi2u | .iCf2i | .iCi2f | .iCu2f | .iCf2u => [.register, .register]
  | .iEjmp | .iNejmp => [.address, .register, .register]
  | _ => [.register, .register, .register]

def NamesRegister (text : List Char) : Prop :=
  ∃ number, (text = 'r' :: number ∨ text = 'f' :: 'r' :: number) ∧ number ≠ [] ∧
    (∀ c ∈ number, isNumber c = true) ∧ atoi number < intRegCount

def NamesNumber (text : List Char) : Prop := text ≠ [] ∧ ∀ c ∈ text, isNumber c = true

def NamesLabel (text : List Char) : Prop := ∃ name, name ≠ [] ∧ text = 'L' :: name

def OperandKind.Accepts (kind : OperandKind) (token : Token) : Prop :=
  ∃ text, token.literall = some text ∧
    match kind with
    | .register => NamesRegister text
    | .number => NamesNumber text
    | .address => NamesNumber text ∨ NamesLabel text

def lineInst (first : Token) : Option Inst := (first.literall.bind isKeyword).bind Inst.ofCode

def WellFormedLine : List Token → Prop
  | [] => False
  | first :: operands => first.type = .word ∧ ∃ type, lineInst first = some type ∧
      List.Forall₂ OperandKind.Accepts (signature type) operands

-- What becomes of an operand: stored, stopped at an assertion, or undefined behaviour.
inductive OperandOutcome where
  | stored | refused | undefined
deriving DecidableEq, Repr

def labelOutcome (name : List Char) : List Label → OperandOutcome
  | [] => .refused
  | l :: ls =>
    match l.name with
    | none => .undefined
    | some other => if other = name then .stored else labelOutcome name ls

-- A label is looked up only if the uninitialised is_value happens to be 0.
def operandOutcome (r : Reg) (labels : List Label) (token : Token) : OperandOutcome :=
  match token.literall with
  | none => .undefined
  | some text =>
    if 4 < text.length then .undefined
    else if text = ['L'] then .refused
    else if text.head? = some 'L' ∧ r.isValue = false then labelOutcome text.tail labels
    else .stored

def refuses (junk : Nat → Reg) (labels : List Label) : Nat → List Token → Bool
  | _, [] => false
  | t, token :: operands =>
    match operandOutcome (junk t) labels token with
    | .stored => refuses junk labels (t + 1) operands
    | .refused => true
    | .undefined => false

def operandsOutcome (junk : Nat → Reg) (labels : List Label) : Nat → List Token → OperandOutcome
  | _, [] => .stored
  | t, token :: operands =>
    match operandOutcome (junk t) labels token with
    | .stored => operandsOutcome junk labels (t + 1) operands
    | .refused => .refused
    | .undefined => .undefined

def AssertsOnly {α : Type} (line : Except LineFault α) : Prop :=
  Only (fun fault => fault.isAssertion = true) line

def lineOutcome (junk : Nat → Reg) (labels : List Label) : List Token → OperandOutcome
  | [] => .undefined
  | first :: operands =>
    match lineInst first with
    | none => .refused
    | some type =>
      if getInstuctionCount type = operands.length then operandsOutcome junk labels 0 operands
      else .stored

def Stops (junk : Nat → Reg) (labels : List Label) : List Token → Prop
  | [] => False
  | first :: operands =>
    match lineInst first with
    | none => True
    | some type => getInstuctionCount type = operands.length ∧ refuses junk labels 0 operands = true

def LineChecked (host : Host) (junk : Nat → Reg) (labels : List Label) (line : List Token) : Prop :=
  WellFormedLine line ∨ ∃ message, assembleLine host junk labels line = .error (.assertion message)

namespace LineErrors

def Yields {α : Type} : OperandOutcome → Except LineFault α → Prop
  | .stored, x => ∃ a, x = .ok a
  | .refused, x => ∃ message, x = .error (.assertion message)
  | .undefined, x => ∃ e, x = .error e ∧ ∀ message, e ≠ .assertion message

section Yields

variable {α : Type} {outcome : OperandOutcome} {x : Except LineFault α}

theorem Yields.ok_iff (h : Yields outcome x) : (∃ a, x = .ok a) ↔ outcome = .stored := by
  cases outcome with
  | stored => exact iff_of_true h rfl
  | refused =>
    obtain ⟨message, rfl⟩ := h
    refine iff_of_false ?_ nofun
    rintro ⟨a, ⟨⟩⟩
  | undefined =>
    obtain ⟨e, rfl, -⟩ := h
    refine iff_of_false ?_ nofun
    rintro ⟨a, ⟨⟩⟩

theorem Yields.assertion_iff (h : Yields outcome x) :
    (∃ message, x = .error (.assertion message)) ↔ outcome = .refused := by
  cases outcome with
  | stored =>
    obtain ⟨a, rfl⟩ := h
    refine iff_of_false ?_ nofun
    rintro ⟨message, ⟨⟩⟩
  | refused => exact iff_of_true h rfl
  | undefined =>
    obtain ⟨e, rfl, hne⟩ := h
    refine iff_of_false ?_ nofun
    rintro ⟨message, herror⟩
    exact hne message (Except.error.inj herror)

theorem Yields.isAssertion_iff {e : LineFault} (h : Yields outcome (.error e : Except LineFault α)) :
    e.isAssertion = true ↔ outcome = .refused := by
  rw [← h.assertion_iff]
  cases e with
  | assertion message => exact iff_of_true rfl ⟨message, rfl⟩
  | nullString => exact iff_of_false Bool.false_ne_true nofun
  | prefixOverflow => exact iff_of_false Bool.false_ne_true nofun
  | numberOverflow => exact iff_of_false Bool.false_ne_true nofun
  | regsOverflow => exact iff_of_false Bool.false_ne_true nofun

theorem Yields.bind_return {β : Type} (h : Yields outcome x) (f : α → β) :
    Yields outcome (do let a ← x; return f a) := by
  cases outcome with
  | stored =>
    obtain ⟨a, rfl⟩ := h
    exact ⟨f a, rfl⟩
  | refused =>
    obtain ⟨message, rfl⟩ := h
    exact ⟨message, rfl⟩
  | undefined =>
    obtain ⟨e, rfl, hne⟩ := h
    exact ⟨e, rfl, hne⟩

end Yields

section Operand

variable {host : Host} {labels : List Label} {type : Inst} {acc : Operands} {t : Nat} {r r' : Reg}
  {text : List Char}

theorem storeOperand_stored (h : r.isValue = true ∨ r.isRegN = true) (ht : t < 4) :
    ∃ acc', storeOperand host labels type acc t r = .ok acc' := by
  unfold storeOperand
  cases hvalue : r.isValue with
  | true =>
    cases hfloat : r.isFloat || isFloatInstr type with
    | true => exact ⟨_, if_pos rfl⟩
    | false =>
      obtain ⟨hr, -⟩ := Bool.or_eq_false_iff.mp hfloat
      rw [hr]
      exact ⟨_, rfl⟩
  | false =>
    have hreg : r.isRegN = true := h.resolve_left (by simp [hvalue])
    simp only [hreg, ht, Bool.false_and, Bool.not_true, Bool.and_false, dif_pos]
    exact ⟨_, rfl⟩

theorem searchLabel_outcome (name : List Char) (labels : List Label) :
    match labelOutcome name labels with
    | .stored => ∃ address, searchLabel name labels = .ok (some address)
    | .refused => searchLabel name labels = .ok none
    | .undefined => searchLabel name labels = .error .nullString := by
  induction labels with
  | nil => rfl
  | cons l ls ih =>
    unfold labelOutcome searchLabel
    cases l.name with
    | none => rfl
    | some other =>
      by_cases h : other = name
      · simp [h]
      · simpa [h] using ih

theorem findLabel_named {name : List Char} (hname : name ≠ [])
    (htext : r.valueLabel = some ('L' :: name)) (labels : List Label) :
    findLabel r labels = searchLabel name labels := by
  have hlen : ('L' :: name).length ≥ 2 := Nat.succ_le_succ (List.length_pos_iff.mpr hname)
  simp only [findLabel, htext]
  exact if_pos hlen

theorem storeOperand_label {name : List Char} (hname : name ≠ []) (hvalue : r.isValue = false)
    (hreg : r.isRegN = false) (hlabel : r.isLabel = true)
    (htext : r.valueLabel = some ('L' :: name)) :
    Yields (labelOutcome name labels) (storeOperand host labels type acc t r) := by
  have houtcome := searchLabel_outcome name labels
  rw [← findLabel_named hname htext] at houtcome
  cases h : labelOutcome name labels with
  | stored =>
    rw [h] at houtcome
    obtain ⟨address, hfound⟩ := houtcome
    simp only [storeOperand, hvalue, hreg, hlabel, hfound]
    exact ⟨_, rfl⟩
  | refused =>
    rw [h] at houtcome
    simp only [storeOperand, hvalue, hreg, hlabel, houtcome]
    exact ⟨_, rfl⟩
  | undefined =>
    rw [h] at houtcome
    simp only [storeOperand, hvalue, hreg, hlabel, houtcome]
    refine ⟨_, rfl, ?_⟩
    rintro message ⟨⟩

theorem operandOutcome_text {token : Token} (h : token.literall = some text) :
    operandOutcome r labels token =
      if 4 < text.length then .undefined
      else if text = ['L'] then .refused
      else if text.head? = some 'L' ∧ r.isValue = false then labelOutcome text.tail labels
      else .stored := by
  simp only [operandOutcome, h]

theorem storeOperand_parsed (hparsed : Parsed r text r')
    (hlabel : ¬ (text.head? = some 'L' ∧ r.isValue = false)) (ht : t < 4) :
    ∃ acc', storeOperand host labels type acc t r' = .ok acc' := by
  apply storeOperand_stored _ ht
  cases hparsed with
  | floatRegister => exact .inr rfl
  | register => exact .inr rfl
  | label =>
    have hvalue : r.isValue ≠ false := fun h => hlabel ⟨rfl, h⟩
    exact .inl (Bool.eq_true_of_not_eq_false hvalue)
  | decimal => exact .inl rfl
  | other => exact .inl rfl

theorem readOperand_outcome (junk : Nat → Reg) (token : Token) (ht : t < 4) :
    Yields (operandOutcome (junk t) labels token)
      (readOperand host junk labels type acc (token, t)) := by
  cases htext : token.literall with
  | none =>
    simp only [operandOutcome, readOperand, htext]
    refine ⟨_, rfl, ?_⟩
    rintro message ⟨⟩
  | some text =>
    rw [operandOutcome_text htext, readOperand_eq host junk labels acc t htext]
    by_cases hlong : 4 < text.length
    · rw [if_pos hlong, parseReg_long hlong]
      refine ⟨_, rfl, ?_⟩
      rintro message ⟨⟩
    rw [if_neg hlong]
    by_cases hlone : text = ['L']
    · rw [if_pos hlone, hlone, parseReg_loneL]
      exact ⟨_, rfl⟩
    rw [if_neg hlone]
    obtain ⟨r', hparse, hparsed⟩ := parseReg_eq host (junk t) (Nat.le_of_not_lt hlong) hlone
    rw [hparse]
    by_cases hlabel : text.head? = some 'L' ∧ (junk t).isValue = false
    · rw [if_pos hlabel]
      obtain ⟨hhead, hvalue⟩ := hlabel
      cases hparsed with
      | label _ named => exact storeOperand_label named hvalue rfl rfl rfl
      | floatRegister => cases hhead
      | register => cases hhead
      | decimal _ digits => cases head_of_isDecimal digits hhead
      | other _ named => exact absurd hhead named.2
    · rw [if_neg hlabel]
      exact storeOperand_parsed hparsed hlabel ht

end Operand

section Line

variable {host : Host} {junk : Nat → Reg} {labels : List Label} {type : Inst}

theorem count_le (type : Inst) : getInstuctionCount type ≤ 3 := by
  cases type <;> decide

theorem operands_room {operands : List Token}
    (h : getInstuctionCount type = operands.length) : 0 + operands.length ≤ 4 := by
  have := count_le type
  omega

theorem foldlM_yields (operands : List Token) (acc : Operands) (t : Nat)
    (h : t + operands.length ≤ 4) :
    Yields (operandsOutcome junk labels t operands)
      ((operands.zipIdx t).foldlM (readOperand host junk labels type) acc) := by
  induction operands generalizing acc t with
  | nil => exact ⟨acc, rfl⟩
  | cons token operands ih =>
    rw [List.length_cons] at h
    have ht : t < 4 := by omega
    have houtcome : Yields (operandOutcome (junk t) labels token)
        (readOperand host junk labels type acc (token, t)) := readOperand_outcome junk token ht
    rw [List.zipIdx_cons, List.foldlM_cons, operandsOutcome]
    cases hcase : operandOutcome (junk t) labels token with
    | stored =>
      rw [hcase] at houtcome
      obtain ⟨acc', hread⟩ := houtcome
      rw [hread]
      exact ih acc' (t + 1) (by omega)
    | refused =>
      rw [hcase] at houtcome
      obtain ⟨message, hread⟩ := houtcome
      rw [hread]
      exact ⟨message, rfl⟩
    | undefined =>
      rw [hcase] at houtcome
      obtain ⟨e, hread, hne⟩ := houtcome
      rw [hread]
      exact ⟨e, rfl, hne⟩

theorem refuses_iff (operands : List Token) (t : Nat) :
    refuses junk labels t operands = true ↔ operandsOutcome junk labels t operands = .refused := by
  induction operands generalizing t with
  | nil => exact iff_of_false Bool.false_ne_true nofun
  | cons token operands ih =>
    rw [refuses, operandsOutcome]
    cases operandOutcome (junk t) labels token with
    | stored => exact ih (t + 1)
    | refused => exact iff_of_true rfl rfl
    | undefined => exact iff_of_false Bool.false_ne_true nofun

theorem assembleLine_of_inst {first : Token} (operands : List Token)
    (h : lineInst first = some type) :
    assembleLine host junk labels (first :: operands) = (do
      let acc ← readOperands host junk labels type operands
      return assemble type (acc.regs 0) (acc.regs 1) (acc.regs 2) (acc.regs 3) acc.fvalue
        acc.dvalue) := by
  cases hfirst : first.literall with
  | none =>
    rw [lineInst, hfirst] at h
    cases h
  | some keyword =>
    rw [lineInst, hfirst] at h
    exact assembleLine_of_keyword hfirst h

theorem assembleLine_unknown {first : Token} (operands : List Token) (h : lineInst first = none) :
    ∃ message, ∀ host junk labels,
      assembleLine host junk labels (first :: operands) = .error (.assertion message) := by
  cases hfirst : first.literall with
  | none =>
    simp only [assembleLine, hfirst]
    exact ⟨_, fun _ _ _ => rfl⟩
  | some keyword =>
    rw [lineInst, hfirst] at h
    have hkeyword : (isKeyword keyword).bind Inst.ofCode = none := h
    simp only [assembleLine, hfirst, hkeyword]
    exact ⟨_, fun _ _ _ => rfl⟩

theorem assembleLine_yields (host : Host) (junk : Nat → Reg) (labels : List Label)
    (line : List Token) :
    Yields (lineOutcome junk labels line) (assembleLine host junk labels line) := by
  cases line with
  | nil => exact ⟨.nullString, rfl, nofun⟩
  | cons first operands =>
    rw [lineOutcome]
    cases hinst : lineInst first with
    | none =>
      obtain ⟨message, hline⟩ := assembleLine_unknown operands hinst
      exact ⟨message, hline host junk labels⟩
    | some type =>
      rw [assembleLine_of_inst operands hinst, readOperands]
      by_cases hcount : getInstuctionCount type = operands.length
      · simp only [hcount, if_true]
        exact (foldlM_yields operands .zero 0 (operands_room hcount)).bind_return _
      · simp only [hcount, if_false]
        exact ⟨_, rfl⟩

theorem stops_iff (line : List Token) :
    Stops junk labels line ↔ lineOutcome junk labels line = .refused := by
  cases line with
  | nil => exact iff_of_false id nofun
  | cons first operands =>
    rw [Stops, lineOutcome]
    cases lineInst first with
    | none => exact iff_of_true trivial rfl
    | some type =>
      by_cases hcount : getInstuctionCount type = operands.length
      · simp only [hcount, if_true, true_and]
        exact refuses_iff operands 0
      · simp only [hcount, if_false, false_and]
        exact iff_of_false id nofun

theorem assembleLine_stops_iff (line : List Token) :
    (∃ message, assembleLine host junk labels line = .error (.assertion message)) ↔
      Stops junk labels line := by
  rw [stops_iff]
  exact (assembleLine_yields host junk labels line).assertion_iff

end Line

theorem lineChecked_iff (host : Host) (junk : Nat → Reg) (labels : List Label)
    (line : List Token) :
    LineChecked host junk labels line ↔ WellFormedLine line ∨ Stops junk labels line :=
  or_congr_right (assembleLine_stops_iff line)

def incLine : List Token := [⟨some ['i', 'n', 'c'], .word⟩]

theorem inc_alone_not_checked : ¬ LineChecked Host.integer (fun _ => .zero) [] incLine := by
  rintro (⟨-, type, htype, hoperands⟩ | ⟨message, hmessage⟩)
  · obtain rfl : .iInc = type := Option.some.inj htype
    cases hoperands
  · cases hmessage

end LineErrors

end CAt
