import CAt.Assembler.KeptLines
import CAt.Assembler.LineErrors
import CAt.Vm.Faults

namespace CAt

open GuardedLoop.Loop (bind_ok)

namespace RegisterOperands

-- The number parse_reg takes from an operand, cut to a byte; it is zero unless the text
-- starts with `r`.
def namedRegister : List Char → Byte
  | 'r' :: number => BitVec.ofInt 8 (atoi number)
  | _ => 0

def operandByte (operands : List Token) (i : Nat) : Byte :=
  ((operands[i]?).bind Token.literall).elim 0 namedRegister

def positions : Inst → List Nat
  | .iSet | .iFset | .iPush | .iPop | .iGetac | .iInc | .iDec | .iRegDump | .iRet => [0]
  | .iCu2i | .iCi2u | .iCf2i | .iCi2f | .iCu2f | .iCf2u => [0, 1]
  | .iEjmp | .iNejmp => [1, 2]
  | .iAdd | .iFadd | .iSub | .iFsub | .iMul | .iFmul | .iDiv | .iFdiv | .iAnd | .iOr
  | .iErjmp | .iNerjmp
  | .iCmpg | .iCmpl | .iCmpeg | .iCmpel | .iCmpe
  | .iFcmpg | .iFcmpl | .iFcmpeg | .iFcmpel | .iFcmpe => [0, 1, 2]
  | _ => []

def lineType : List Token → Option Inst
  | [] => none
  | first :: _ => (first.literall.bind isKeyword).bind Inst.ofCode

def NamesRegisters (l : List Token) : Prop :=
  ∀ type ∈ lineType l, getInstuctionCount type = l.tail.length →
    ∀ j ∈ positions type, (operandByte l.tail j).toNat < intRegCount

section Parse

variable {host : Host} {labels : List Label} {type : Inst} {acc acc' : Operands} {t : Nat}
  {r r' : Reg} {text : List Char}

theorem namedRegister_of_head (h : text.head? ≠ some 'r') : namedRegister text = 0 := by
  unfold namedRegister
  split
  · exact absurd rfl h
  · rfl

theorem namedRegister_of_isDecimal (h : isDecimal text = true) : namedRegister text = 0 := by
  apply namedRegister_of_head
  intro hhead
  cases head_of_isDecimal h hhead

theorem regN_of_parsed (h : Parsed r text r') : r'.regN = namedRegister text := by
  cases h with
  | floatRegister => rfl
  | register => rfl
  | label => rfl
  | decimal _ digits => exact (namedRegister_of_isDecimal digits).symm
  | other _ named => exact (namedRegister_of_head named.1).symm

theorem namedRegister_of_not_register (h : Parsed r text r')
    (hnot : r'.isValue = true ∨ r'.isRegN = false) : namedRegister text = 0 := by
  cases h with
  | register =>
    rcases hnot with hvalue | hreg
    · cases hvalue
    · cases hreg
  | floatRegister => rfl
  | label => rfl
  | decimal _ digits => exact namedRegister_of_isDecimal digits
  | other _ named => exact namedRegister_of_head named.1

theorem toReg_signExtend (b : Byte) : toReg (b.signExtend 32) = b := by
  rw [toReg]
  ext i hi
  have hwide : i < 32 := by omega
  simp [hwide, hi, BitVec.getElem_signExtend]

theorem storeOperand_regs (hparsed : Parsed r text r')
    (h : storeOperand host labels type acc t r' = .ok acc') :
    (acc'.regs = acc.regs ∧ namedRegister text = 0) ∨ ∃ ht : t < 4,
      acc'.regs = Function.update acc.regs ⟨t, ht⟩ ((namedRegister text).signExtend 32) := by
  unfold storeOperand at h
  split at h
  · rename_i hvalue
    cases h
    exact .inl ⟨rfl, namedRegister_of_not_register hparsed (.inl (Bool.and_eq_true_iff.mp hvalue).1)⟩
  · split at h
    · rename_i hvalue
      cases h
      exact .inl ⟨rfl, namedRegister_of_not_register hparsed (.inl (Bool.and_eq_true_iff.mp hvalue).1)⟩
    · split at h
      · rename_i hlabel
        have hreg : r'.isRegN = false := by simpa using (Bool.and_eq_true_iff.mp hlabel).2
        obtain ⟨found, -, h⟩ := bind_ok h
        cases found with
        | none => cases h
        | some address =>
          cases h
          exact .inl ⟨rfl, namedRegister_of_not_register hparsed (.inr hreg)⟩
      · split at h
        · cases h
          rw [← regN_of_parsed hparsed]
          exact .inr ⟨_, rfl⟩
        · cases h

end Parse

section Read

variable {host : Host} {junk : Nat → Reg} {labels : List Label} {type : Inst}

theorem readOperand_regs {acc acc' : Operands} {token : Token} {t : Nat}
    (h : readOperand host junk labels type acc (token, t) = .ok acc') :
    (acc'.regs = acc.regs ∧ operandByte [token] 0 = 0) ∨ ∃ ht : t < 4,
      acc'.regs = Function.update acc.regs ⟨t, ht⟩ ((operandByte [token] 0).signExtend 32) := by
  cases hword : token.literall with
  | none =>
    simp only [readOperand, hword] at h
    cases h
  | some word =>
    have hbyte : operandByte [token] 0 = namedRegister word := by
      simp [operandByte, hword]
    rw [readOperand_eq host junk labels acc t hword] at h
    obtain ⟨r, hr, h⟩ := bind_ok h
    rw [hbyte]
    exact storeOperand_regs (parseReg_ok hr) h

theorem foldlM_regs {operands : List Token} {k : Nat} {acc acc' : Operands}
    (hzero : ∀ i : Fin 4, k ≤ i.val → toReg (acc.regs i) = 0)
    (h : (operands.zipIdx k).foldlM (readOperand host junk labels type) acc = .ok acc')
    (i : Fin 4) :
    toReg (acc'.regs i) =
      if i.val < k then toReg (acc.regs i) else operandByte operands (i.val - k) := by
  induction operands generalizing k acc with
  | nil =>
    cases h
    split
    · rfl
    · exact hzero i (Nat.le_of_not_lt ‹_›)
  | cons token operands ih =>
    rw [List.zipIdx_cons, List.foldlM_cons] at h
    obtain ⟨mid, hmid, hrest⟩ := bind_ok h
    have hregs : ∀ j : Fin 4, toReg (mid.regs j) =
        if j.val = k then operandByte [token] 0 else toReg (acc.regs j) := by
      intro j
      rcases readOperand_regs hmid with ⟨hkept, hbyte⟩ | ⟨hk, hset⟩
      · rw [hkept, hbyte]
        split
        · exact hzero j (Nat.le_of_eq (Eq.symm ‹_›))
        · rfl
      · rw [hset]
        by_cases hj : j = ⟨k, hk⟩
        · subst hj
          rw [Function.update_self, toReg_signExtend, if_pos rfl]
        · rw [Function.update_of_ne hj, if_neg fun he => hj (Fin.ext he)]
    have hzero' : ∀ j : Fin 4, k + 1 ≤ j.val → toReg (mid.regs j) = 0 := by
      intro j hj
      rw [hregs, if_neg (by omega)]
      exact hzero j (by omega)
    rw [ih hzero' hrest, hregs]
    rcases Nat.lt_trichotomy i.val k with hi | hi | hi
    · rw [if_pos (by omega), if_neg (by omega), if_pos hi]
    · rw [if_pos (by omega), if_pos hi, if_neg (by omega), hi, Nat.sub_self]
      rfl
    · have hshift : i.val - k = i.val - (k + 1) + 1 := by omega
      rw [if_neg (by omega), if_neg (by omega), hshift]
      rfl

theorem readOperands_regs {operands : List Token} {acc : Operands}
    (hcount : getInstuctionCount type = operands.length)
    (h : readOperands host junk labels type operands = .ok acc) (i : Fin 4) :
    toReg (acc.regs i) = operandByte operands i.val := by
  rw [readOperands, if_pos hcount] at h
  exact foldlM_regs (fun _ _ => rfl) h i

theorem readOperands_miscounted {operands : List Token}
    (hcount : getInstuctionCount type ≠ operands.length) :
    readOperands host junk labels type operands = .ok .zero := by
  rw [readOperands, if_neg hcount]

theorem readOperands_none {operands : List Token} (hcount : getInstuctionCount type = 0) :
    readOperands host junk labels type operands = .ok .zero := by
  cases operands with
  | nil =>
    have hlength : getInstuctionCount type = ([] : List Token).length := hcount
    rw [readOperands, if_pos hlength]
    rfl
  | cons t operands =>
    apply readOperands_miscounted
    rw [hcount, List.length_cons]
    exact (Nat.succ_ne_zero _).symm

end Read

theorem operands_inRange_iff (op : Inst) (r0 r1 r2 : Byte) (s : UniformStrg) :
    (Build.operands op r0 r1 r2 s).RegistersInRange ↔
      r0.toNat < intRegCount ∧ r1.toNat < intRegCount ∧ r2.toNat < intRegCount := by
  rw [← register_inRange_iff r0, ← register_inRange_iff r1, ← register_inRange_iff r2]
  constructor
  · intro h
    exact ⟨h 0, h 1, h 2⟩
  · rintro ⟨h0, h1, h2⟩ k
    match k with
    | 0 => exact h0
    | 1 => exact h1
    | 2 => exact h2

theorem assemble_zero_inRange (type : Inst) (arg3 : Uint) :
    (assemble type 0 0 0 arg3 0 0).RegistersInRange := by
  cases type <;> exact (operands_inRange_iff _ _ _ _ _).mpr (by decide)

theorem assemble_inRange_iff {type : Inst} (hcount : getInstuctionCount type ≠ 0)
    {args : Fin 4 → Uint} {byte : Nat → Byte} (hbyte : ∀ j : Fin 4, toReg (args j) = byte j.val)
    (fval : Float32Bits) (dval : Uint) :
    (assemble type (args 0) (args 1) (args 2) (args 3) fval dval).RegistersInRange ↔
      ∀ j ∈ positions type, (byte j).toNat < intRegCount := by
  have hzero : (0 : Byte).toNat < intRegCount := by decide
  have h0 : toReg (args 0) = byte 0 := hbyte 0
  have h1 : toReg (args 1) = byte 1 := hbyte 1
  have h2 : toReg (args 2) = byte 2 := hbyte 2
  cases type <;> first
    | exact absurd rfl hcount
    | exact (operands_inRange_iff _ _ _ _ _).trans (by simp [positions, h0, h1, h2])

section Program

variable {host : Host} {labels : List Label}

theorem assembleLine_inRange_iff {junk : Nat → Reg} {l : List Token} {inst : Instruction}
    (h : assembleLine host junk labels l = .ok inst) :
    inst.RegistersInRange ↔ NamesRegisters l := by
  cases l with
  | nil => cases h
  | cons first operands =>
    cases hline : lineType (first :: operands) with
    | none =>
      obtain ⟨message, hstops⟩ := LineErrors.assembleLine_unknown operands hline
      rw [hstops] at h
      cases h
    | some type =>
      rw [LineErrors.assembleLine_of_inst operands hline] at h
      obtain ⟨acc, hacc, h⟩ := bind_ok h
      cases h
      have hnames : NamesRegisters (first :: operands) ↔
          (getInstuctionCount type = operands.length →
            ∀ j ∈ positions type, (operandByte operands j).toNat < intRegCount) := by
        rw [NamesRegisters, hline]
        exact ⟨fun h => h type rfl, fun h type' htype' => Option.some.inj htype' ▸ h⟩
      rw [hnames]
      by_cases hnone : getInstuctionCount type = 0
      · rw [readOperands_none hnone] at hacc
        cases hacc
        refine ⟨fun _ _ j hj => ?_, fun _ => assemble_zero_inRange type 0⟩
        cases type <;> first | exact absurd hnone (by decide) | cases hj
      · by_cases hcount : getInstuctionCount type = operands.length
        · rw [assemble_inRange_iff hnone (readOperands_regs hcount hacc)]
          exact ⟨fun h _ => h, fun h => h hcount⟩
        · rw [readOperands_miscounted hcount] at hacc
          cases hacc
          exact ⟨fun _ h => absurd h hcount, fun _ => assemble_zero_inRange type 0⟩

theorem registersInRange_iff {junk : Junk} {ts : List Token} {program : List Instruction}
    (h : assembleProgram host junk ts labels = .ok program) :
    RegistersInRange program ↔ ∀ l ∈ keptLines ts, NamesRegisters l := by
  obtain ⟨insts, rfl, hlength, hall⟩ := InstructionOrder.emitAll_ok (assembleProgram_kept h)
  constructor
  · intro hrange l hl
    obtain ⟨i, hi, rfl⟩ := List.getElem_of_mem hl
    have hinst := hall i _ _ (List.getElem?_eq_getElem hi)
      (List.getElem?_eq_getElem (hlength ▸ hi))
    exact (assembleLine_inRange_iff hinst).mp (hrange _ (List.getElem_mem _))
  · intro hnames inst hinst
    obtain ⟨i, hi, rfl⟩ := List.getElem_of_mem hinst
    have hline := hall i _ _ (List.getElem?_eq_getElem (hlength ▸ hi))
      (List.getElem?_eq_getElem hi)
    exact (assembleLine_inRange_iff hline).mpr (hnames _ (List.getElem_mem _))

def StaysInRegisterFiles (program : List Instruction) : Prop :=
  RegistersInRange program ∧ ∀ (host : Host) (g : Globals) (p : Program) (n : Nat),
    p.code = program → executeProgram host n (initMachine g p) ≠ .error .registerOutOfBounds

theorem staysInRegisterFiles_iff (host : Host) (junk : Junk) (labels : List Label)
    (ts : List Token) (program : List Instruction)
    (h : assembleProgram host junk ts labels = .ok program) :
    StaysInRegisterFiles program ↔ ∀ l ∈ keptLines ts, NamesRegisters l := by
  rw [← registersInRange_iff h]
  constructor
  · exact And.left
  · intro hrange
    refine ⟨hrange, ?_⟩
    rintro host g p n rfl
    exact executeProgram_registers hrange host g n

end Program

def incLine (register : List Char) : List Token :=
  [⟨some ['i', 'n', 'c'], .word⟩, ⟨some register, .word⟩, ⟨none, .symbolExpressionEnd⟩]

theorem staysInRegisterFiles_iff_inc :
    StaysInRegisterFiles [Build.inc 7] ↔ ∀ l ∈ keptLines (incLine ['r', '7']), NamesRegisters l :=
  staysInRegisterFiles_iff Host.integer (fun _ _ => .zero) [] (incLine ['r', '7']) [Build.inc 7] rfl

theorem inc_r99_leaves_registers :
    indexLabels (incLine ['r', '9', '9']) = .ok [] ∧
      assembleProgram Host.integer (fun _ _ => .zero) (incLine ['r', '9', '9']) [] =
        .ok [Build.inc 99] ∧ ¬ StaysInRegisterFiles [Build.inc 99] :=
  ⟨rfl, rfl, fun h => absurd h.1 (by decide)⟩

end RegisterOperands

end CAt
