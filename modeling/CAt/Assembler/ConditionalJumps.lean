import CAt.Assembler.OperandText
import CAt.Vm.Effects

namespace CAt

namespace ConditionalJumps

def jumpLine (mnemonic : List Char) (a : Uint) (x y : Fin intRegCount) : List Token :=
  [⟨some mnemonic, .word⟩, ⟨some (Nat.toDigits 10 a.toNat), .wordLiterallNumber⟩,
    ⟨some (registerText x.val), .word⟩, ⟨some (registerText y.val), .word⟩]

def ejmp : List Char := ['e', 'j', 'm', 'p']
def nejmp : List Char := ['n', 'e', 'j', 'm', 'p']

structure Agrees (host : Host) (junk : Nat → Reg) (labels : List Label) (m : Machine) (a : Uint)
    (x y : Fin intRegCount) : Prop where
  assemblesEjmp : assembleLine host junk labels (jumpLine ejmp a x y) =
    .ok (Build.ejmp a (registerByte x) (registerByte y))
  assemblesNejmp : assembleLine host junk labels (jumpLine nejmp a x y) =
    .ok (Build.nejmp a (registerByte x) (registerByte y))
  jumpsOnEqual : executeInst host m.advance (Build.ejmp a (registerByte x) (registerByte y)) =
    .ok { m with pc := if m.iregisters x = m.iregisters y then a.setWidth 64 else m.pc + 1 }
  jumpsOnUnequal : executeInst host m.advance (Build.nejmp a (registerByte x) (registerByte y)) =
    .ok { m with pc := if m.iregisters x ≠ m.iregisters y then a.setWidth 64 else m.pc + 1 }

section Assemble

variable (host : Host) (junk : Nat → Reg) (labels : List Label) {type : Inst}

theorem readOperands_jump (a : Uint) (x y : Fin intRegCount) (hcount : getInstuctionCount type = 3)
    (hfloat : isFloatInstr type = false) (ha : a.toNat < 10000) :
    readOperands host junk labels type (jumpLine [] a x y).tail = .ok
      { regs := Function.update (Function.update (fun _ => 0) 1 (BitVec.ofNat 32 x.val)) 2
          (BitVec.ofNat 32 y.val)
        fvalue := 0
        dvalue := a } := by
  have hlength : getInstuctionCount type = (jumpLine [] a x y).tail.length := hcount
  have hzip : (jumpLine [] a x y).tail.zipIdx =
      [((⟨some (Nat.toDigits 10 a.toNat), .wordLiterallNumber⟩ : Token), 0),
        (⟨some (registerText x.val), .word⟩, 1), (⟨some (registerText y.val), .word⟩, 2)] := rfl
  rw [readOperands, if_pos hlength, hzip, List.foldlM_cons,
    readOperand_decimal host junk labels _ _ ha hfloat]
  change List.foldlM _ _ _ = _
  rw [List.foldlM_cons, readOperand_register host junk labels _ _ x.isLt (by decide)]
  change List.foldlM _ _ _ = _
  rw [List.foldlM_cons, readOperand_register host junk labels _ _ y.isLt (by decide),
    BitVec.ofNat_toNat, BitVec.setWidth_eq]
  rfl

theorem readOperands_jump_long (a : Uint) (x y : Fin intRegCount)
    (hcount : getInstuctionCount type = 3) (ha : 10000 ≤ a.toNat) :
    readOperands host junk labels type (jumpLine [] a x y).tail = .error .prefixOverflow := by
  have hlength : getInstuctionCount type = (jumpLine [] a x y).tail.length := hcount
  have hlong : 4 < (Nat.toDigits 10 a.toNat).length := by
    rw [← Nat.not_le, length_toDigits_le (by decide)]
    omega
  rw [readOperands, if_pos hlength]
  change List.foldlM _ _ (((⟨some (Nat.toDigits 10 a.toNat), _⟩ : Token), 0) :: _) = _
  rw [List.foldlM_cons, readOperand_long host junk labels _ _ hlong]
  rfl

theorem assembleLine_jump {mnemonic : List Char}
    (hkeyword : (isKeyword mnemonic).bind Inst.ofCode = some type)
    (hcount : getInstuctionCount type = 3) (hfloat : isFloatInstr type = false)
    (a : Uint) (x y : Fin intRegCount) (ha : a.toNat < 10000) :
    assembleLine host junk labels (jumpLine mnemonic a x y) =
      .ok (assemble type 0 (BitVec.ofNat 32 x.val) (BitVec.ofNat 32 y.val) 0 0 a) := by
  have hsplit : jumpLine mnemonic a x y = ⟨some mnemonic, .word⟩ :: (jumpLine [] a x y).tail := rfl
  rw [hsplit, assembleLine_of_keyword rfl hkeyword, readOperands_jump host junk labels a x y hcount
    hfloat ha]
  rfl

theorem assembleLine_jump_long {mnemonic : List Char}
    (hkeyword : (isKeyword mnemonic).bind Inst.ofCode = some type)
    (hcount : getInstuctionCount type = 3) (a : Uint) (x y : Fin intRegCount)
    (ha : 10000 ≤ a.toNat) :
    assembleLine host junk labels (jumpLine mnemonic a x y) = .error .prefixOverflow := by
  have hsplit : jumpLine mnemonic a x y = ⟨some mnemonic, .word⟩ :: (jumpLine [] a x y).tail := rfl
  rw [hsplit, assembleLine_of_keyword rfl hkeyword, readOperands_jump_long host junk labels a x y
    hcount ha]
  rfl

end Assemble

theorem ejmp_keyword : (isKeyword ejmp).bind Inst.ofCode = some .iEjmp := rfl

theorem nejmp_keyword : (isKeyword nejmp).bind Inst.ofCode = some .iNejmp := rfl

theorem assembles_ejmp_iff (host : Host) (junk : Nat → Reg) (labels : List Label) (a : Uint)
    (x y : Fin intRegCount) :
    assembleLine host junk labels (jumpLine ejmp a x y) =
      .ok (Build.ejmp a (registerByte x) (registerByte y)) ↔ a.toNat < 10000 := by
  constructor
  · intro h
    by_contra hlong
    rw [assembleLine_jump_long host junk labels ejmp_keyword rfl a x y (by omega)] at h
    cases h
  · intro ha
    rw [assembleLine_jump host junk labels ejmp_keyword rfl rfl a x y ha, assemble,
      toReg_ofNat, toReg_ofNat]

theorem assembles_nejmp_iff (host : Host) (junk : Nat → Reg) (labels : List Label) (a : Uint)
    (x y : Fin intRegCount) :
    assembleLine host junk labels (jumpLine nejmp a x y) =
      .ok (Build.nejmp a (registerByte x) (registerByte y)) ↔ a.toNat < 10000 := by
  constructor
  · intro h
    by_contra hlong
    rw [assembleLine_jump_long host junk labels nejmp_keyword rfl a x y (by omega)] at h
    cases h
  · intro ha
    rw [assembleLine_jump host junk labels nejmp_keyword rfl rfl a x y ha, assemble,
      toReg_ofNat, toReg_ofNat]

-- The constructors leave slot 2 at zero, and the comparison reads slots 1 and 2.
theorem jumpImmediateIf_build (m : Machine) (op : Inst) (a : Uint) (x y : Fin intRegCount)
    (f : Uint → Uint → Bool) :
    m.jumpImmediateIf (Build.operands op (registerByte x) (registerByte y) 0 (.ofI32 a)) f =
      .ok (if f (m.iregisters y) (m.iregisters 0) then { m with pc := a.setWidth 64 } else m) := by
  have hy : m.dReg (Build.operands op (registerByte x) (registerByte y) 0 (.ofI32 a)).r1 =
    .ok (m.iregisters y) := Machine.dReg_ofNat m y
  have hzero : m.dReg (Build.operands op (registerByte x) (registerByte y) 0 (.ofI32 a)).r2 =
    .ok (m.iregisters 0) := Machine.dReg_ofNat m 0
  rw [Machine.jumpImmediateIf, hy, hzero]
  change (if f (m.iregisters y) (m.iregisters 0) = true then _ else _) = _
  split
  · exact congrArg (fun v => Except.ok { m with pc := BitVec.setWidth 64 v })
      (UniformStrg.asI32_ofI32 a)
  · rfl

theorem executeInst_ejmp (host : Host) (m : Machine) (a : Uint) (x y : Fin intRegCount) :
    executeInst host m.advance (Build.ejmp a (registerByte x) (registerByte y)) =
      .ok { m with pc := if m.iregisters y = m.iregisters 0 then a.setWidth 64 else m.pc + 1 } := by
  rw [executeInst, Build.ejmp, Build.decode_operands]
  change m.advance.jumpImmediateIf _ _ = _
  rw [jumpImmediateIf_build]
  change Except.ok (if (m.iregisters y == m.iregisters 0) = true then _ else _) = _
  simp only [beq_iff_eq]
  split <;> rfl

theorem executeInst_nejmp (host : Host) (m : Machine) (a : Uint) (x y : Fin intRegCount) :
    executeInst host m.advance (Build.nejmp a (registerByte x) (registerByte y)) =
      .ok { m with pc := if m.iregisters y ≠ m.iregisters 0 then a.setWidth 64 else m.pc + 1 } := by
  rw [executeInst, Build.nejmp, Build.decode_operands]
  change m.advance.jumpImmediateIf _ _ = _
  rw [jumpImmediateIf_build]
  change Except.ok (if (m.iregisters y != m.iregisters 0) = true then _ else _) = _
  simp only [bne_iff_ne]
  split <;> rfl

theorem ok_pc_eq_iff {m : Machine} {p q : Prop} [Decidable p] [Decidable q] {s t : SizeT} :
    (Except.ok { m with pc := if p then s else t } : Except Fault Machine) =
      .ok { m with pc := if q then s else t } ↔ (p ↔ q) ∨ s = t := by
  constructor
  · intro h
    have hpc := congrArg Machine.pc (Except.ok.inj h)
    change (if p then s else t) = (if q then s else t) at hpc
    by_cases hp : p <;> by_cases hq : q
    · exact .inl ⟨fun _ => hq, fun _ => hp⟩
    · rw [if_pos hp, if_neg hq] at hpc
      exact .inr hpc
    · rw [if_neg hp, if_pos hq] at hpc
      exact .inr hpc.symm
    · exact .inl ⟨fun h => absurd h hp, fun h => absurd h hq⟩
  · rintro (hpq | rfl)
    · simp only [hpq]
    · simp only [ite_self]

theorem agrees_iff (host : Host) (junk : Nat → Reg) (labels : List Label) (m : Machine) (a : Uint)
    (x y : Fin intRegCount) :
    Agrees host junk labels m a x y ↔ a.toNat < 10000 ∧
      ((m.iregisters x = m.iregisters y ↔ m.iregisters y = m.iregisters 0) ∨
        a.setWidth 64 = m.pc + 1) := by
  constructor
  · intro h
    refine ⟨(assembles_ejmp_iff host junk labels a x y).mp h.assemblesEjmp, ?_⟩
    have hjump := h.jumpsOnEqual
    rw [executeInst_ejmp, ok_pc_eq_iff] at hjump
    exact hjump.imp_left Iff.symm
  · rintro ⟨ha, hjump⟩
    have hequal := hjump.imp_left Iff.symm
    refine ⟨(assembles_ejmp_iff host junk labels a x y).mpr ha,
      (assembles_nejmp_iff host junk labels a x y).mpr ha, ?_, ?_⟩
    · rw [executeInst_ejmp, ok_pc_eq_iff]
      exact hequal
    · rw [executeInst_nejmp, ok_pc_eq_iff]
      exact hequal.imp_left not_congr

def sevenMachine : Machine :=
  initMachine { Globals.zero with dRegisters := fun i => if i.val = 0 then 0 else 7 } .empty

theorem ejmp_ignores_first_register :
    ¬ Agrees Host.integer (fun _ => .zero) [] sevenMachine 5 1 2 := by
  intro h
  have hpc := congrArg Machine.pc (Except.ok.inj h.jumpsOnEqual)
  exact absurd hpc (by decide)

end ConditionalJumps

end CAt
