import CAt.Library.Faults
import CAt.Vm.Effects

namespace CAt

open Faults (Only)
open GuardedLoop

-- A register number reaches execute_op as a `char`, which is signed.
def Instruction.RegistersInRange (inst : Instruction) : Prop :=
  ∀ k : Fin 3, 0 ≤ inst.argumentReg[k].toInt ∧ inst.argumentReg[k].toInt < intRegCount

instance (inst : Instruction) : Decidable inst.RegistersInRange :=
  inferInstanceAs (Decidable (∀ k : Fin 3, 0 ≤ inst.argumentReg[k].toInt ∧
    inst.argumentReg[k].toInt < intRegCount))

def RegistersInRange (code : List Instruction) : Prop := ∀ inst ∈ code, inst.RegistersInRange

instance (code : List Instruction) : Decidable (RegistersInRange code) :=
  inferInstanceAs (Decidable (∀ inst ∈ code, inst.RegistersInRange))

theorem register_inRange_iff (r : Byte) :
    (0 ≤ r.toInt ∧ r.toInt < intRegCount) ↔ r.toNat < intRegCount := by
  have hlt := r.isLt
  rw [BitVec.toInt_eq_toNat_cond]
  simp only [intRegCount]
  split
  · omega
  · omega

def Slot (inst : Instruction) (r : Byte) : Prop := r = inst.r0 ∨ r = inst.r1 ∨ r = inst.r2

inductive FaultCause (inst : Instruction) (m : Machine) : Inst → Fault → Prop
  | register {op} {r : Byte} (slot : Slot inst r) (outside : intRegCount ≤ r.toNat) :
      FaultCause inst m op .registerOutOfBounds
  | divide : FaultCause inst m .iDiv .divideByZero
  | push (full : stackSize < (m.stackTop + 4).toNat + 4) :
      FaultCause inst m .iPush .stackOutOfBounds
  | pop (outside : stackSize < m.stackTop.toNat + 4) : FaultCause inst m .iPop .stackOutOfBounds
  | address {op} {i : Fin intRegCount} (kind : op = .iDload ∨ op = .iDsave ∨ op = .iFsave)
      (register : regIndex inst.r1 = .ok i) (outside : stackSize < (m.iregisters i).toNat + 4) :
      FaultCause inst m op .stackOutOfBounds
  | fload (outside : stackSize < (inst.r1.signExtend 32).toNat + 4) :
      FaultCause inst m .iFload .stackOutOfBounds
  | print (outside : stackSize < (m.iregisters 1).toNat + (m.iregisters 2).toNat) :
      FaultCause inst m .iPrint .stackOutOfBounds
  | write : FaultCause inst m .iPrint (.assertion "ERROR PERFORMING WRITE")
  | entry : FaultCause inst m .iEntry (.assertion "TODO: ENTRY IS CURRENTLY NOT USED")
  | frame {op} (kind : op = .iRec ∨ op = .iCall) (full : frameCount ≤ m.frames.toNat) :
      FaultCause inst m op .frameOutOfBounds
  | ret (outside : frameCount < m.frames.toNat) : FaultCause inst m .iRet .frameOutOfBounds

namespace Slot

variable (inst : Instruction)

theorem r0 : Slot inst inst.r0 := .inl rfl

theorem r1 : Slot inst inst.r1 := .inr (.inl rfl)

theorem r2 : Slot inst inst.r2 := .inr (.inr rfl)

theorem inRange {inst : Instruction} {r : Byte} (h : Slot inst r)
    (hrange : inst.RegistersInRange) : r.toNat < intRegCount := by
  rcases h with rfl | rfl | rfl
  · exact (register_inRange_iff _).mp (hrange 0)
  · exact (register_inRange_iff _).mp (hrange 1)
  · exact (register_inRange_iff _).mp (hrange 2)

end Slot

namespace FaultCause

variable {inst : Instruction} {m m' : Machine} {op : Inst} {r : Byte}

theorem regIndex (h : Slot inst r) : Only (FaultCause inst m op) (regIndex r) :=
  Only.dite (fun _ => .ok _) fun hr => .error (.register h (Nat.le_of_not_lt hr))

theorem dReg (h : Slot inst r) : Only (FaultCause inst m op) (m'.dReg r) := (regIndex h).map _

theorem fReg (h : Slot inst r) : Only (FaultCause inst m op) (m'.fReg r) := (regIndex h).map _

theorem setDReg (h : Slot inst r) (v : Uint) : Only (FaultCause inst m op) (m'.setDReg r v) :=
  (regIndex h).map _

theorem setFReg (h : Slot inst r) (v : Float32Bits) :
    Only (FaultCause inst m op) (m'.setFReg r v) :=
  (regIndex h).map _

theorem intOp (f : Uint → Uint → Uint) : Only (FaultCause inst m op) (m.intOp inst f) :=
  (dReg (.r1 inst)).bind fun _ _ => (dReg (.r2 inst)).bind fun _ _ => setDReg (.r0 inst) _

theorem floatOp (f : Float32Bits → Float32Bits → Float32Bits) :
    Only (FaultCause inst m op) (m.floatOp inst f) :=
  (fReg (.r1 inst)).bind fun _ _ => (fReg (.r2 inst)).bind fun _ _ => setFReg (.r0 inst) _

theorem floatCompare (f : Float32Bits → Float32Bits → Bool) :
    Only (FaultCause inst m op) (m.floatCompare inst f) :=
  (fReg (.r1 inst)).bind fun _ _ => (fReg (.r2 inst)).bind fun _ _ => setDReg (.r0 inst) _

theorem logicalAnd : Only (FaultCause inst m op) (m.logicalAnd inst) :=
  (dReg (.r1 inst)).bind fun _ _ => .ite (fun _ => setDReg (.r0 inst) _) fun _ =>
    (dReg (.r2 inst)).bind fun _ _ => setDReg (.r0 inst) _

theorem logicalOr : Only (FaultCause inst m op) (m.logicalOr inst) :=
  (dReg (.r1 inst)).bind fun _ _ => .ite (fun _ => setDReg (.r0 inst) _) fun _ =>
    (dReg (.r2 inst)).bind fun _ _ => setDReg (.r0 inst) _

theorem divideOp : Only (FaultCause inst m .iDiv) (m.divide inst) :=
  (dReg (.r1 inst)).bind fun _ _ => (dReg (.r2 inst)).bind fun _ _ =>
    .ite (fun _ => .error .divide) fun _ => setDReg (.r0 inst) _

theorem jumpImmediateIf (f : Uint → Uint → Bool) :
    Only (FaultCause inst m op) (m.jumpImmediateIf inst f) :=
  (dReg (.r1 inst)).bind fun _ _ => (dReg (.r2 inst)).bind fun _ _ =>
    .ite (fun _ => .ok _) fun _ => .ok _

theorem jumpRegisterIf (f : Uint → Uint → Bool) :
    Only (FaultCause inst m op) (m.jumpRegisterIf inst f) :=
  (dReg (.r1 inst)).bind fun _ _ => (dReg (.r2 inst)).bind fun _ _ =>
    .ite (fun _ => (dReg (.r0 inst)).map _) fun _ => .ok _

theorem copyIn {memory : Stack} {offset : Nat} {value : BitVec 32}
    (h : stackSize < offset + 4 → FaultCause inst m op .stackOutOfBounds) :
    Only (FaultCause inst m op) (copyIn memory offset value) :=
  Only.ite (fun _ => .ok _) fun hfits => .error (h (Nat.lt_of_not_le hfits))

theorem copyOut {memory : Stack} {offset : Nat}
    (h : stackSize < offset + 4 → FaultCause inst m op .stackOutOfBounds) :
    Only (FaultCause inst m op) (copyOut memory offset) :=
  Only.dite (fun _ => .ok _) fun hfits => .error (h (Nat.lt_of_not_le hfits))

theorem frameIndex {i : SizeT}
    (h : frameCount ≤ i.toNat → FaultCause inst m op .frameOutOfBounds) :
    Only (FaultCause inst m op) (frameIndex i) :=
  Only.dite (fun _ => .ok _) fun hfits => .error (h (Nat.le_of_not_lt hfits))

theorem pushOp : Only (FaultCause inst m .iPush) (m.push inst) :=
  (dReg (.r0 inst)).bind fun _ _ => ((copyIn .push).map _).map _

theorem popOp : Only (FaultCause inst m .iPop) (m.pop inst) :=
  ((copyOut .pop).map _).bind fun _ _ => setDReg (.r0 inst) _

theorem addressed {address : Uint}
    (kind : op = .iDload ∨ op = .iDsave ∨ op = .iFsave) (hr : m.dReg inst.r1 = .ok address)
    (outside : stackSize < address.toNat + 4) : FaultCause inst m op .stackOutOfBounds := by
  obtain ⟨i, hi, rfl⟩ := Machine.dReg_ok hr
  exact .address kind hi outside

theorem startRecord : Only (FaultCause inst m .iRec) m.startRecord :=
  ((frameIndex (.frame (.inl rfl))).map _).map _

theorem enter : Only (FaultCause inst m .iCall) (m.enter inst) :=
  ((frameIndex (.frame (.inr rfl))).map _).map _

theorem leave : Only (FaultCause inst m .iRet) (m.leave inst) := by
  refine (dReg (.r0 inst)).bind fun value _ => ?_
  unfold Machine.returnToCaller
  refine Only.ite (fun live => ?_) fun root => ?_
  · change m.frames ≠ 0 at live
    refine (frameIndex fun full => .ret ?_).map _
    change frameCount ≤ (m.frames - 1).toNat at full
    have hpred := frames_pred live
    omega
  · change ¬ m.frames ≠ 0 at root
    refine (frameIndex fun full => .ret ?_).map _
    change frameCount ≤ m.frames.toNat at full
    rw [not_not.mp root] at full
    exact absurd full (by decide)

theorem printOp (host : Host) : Only (FaultCause inst m .iPrint) (m.print host) :=
  Only.dite (fun _ => .ite (fun _ => .ok _) fun _ => .error .write) fun hfits =>
    .error (.print (Nat.lt_of_not_le hfits))

theorem regDump : Only (FaultCause inst m .iRegDump) (m.regDump inst) :=
  Only.ite (fun _ => (dReg (.r0 inst)).map _) fun _ => .ok _

end FaultCause

open FaultCause in
theorem executeOpcode_fault (host : Host) (m : Machine) (inst : Instruction) (op : Inst) :
    Only (FaultCause inst m op) (executeOpcode host m inst op) := by
  cases op with
  | iEntry => exact .error .entry
  | iPush => exact pushOp
  | iPop => exact popOp
  | iRec => exact startRecord
  | iCall => exact enter
  | iRet => exact leave
  | iDload =>
    exact (dReg (.r1 inst)).bind fun _ hr =>
      (FaultCause.copyOut (addressed (.inl rfl) hr)).bind fun _ _ => setDReg (.r0 inst) _
  | iFload => exact (FaultCause.copyOut .fload).bind fun _ _ => setFReg (.r0 inst) _
  | iDsave =>
    exact (dReg (.r1 inst)).bind fun _ hr => (dReg (.r0 inst)).bind fun _ _ =>
      (FaultCause.copyIn (addressed (.inr (.inl rfl)) hr)).map _
  | iFsave =>
    exact (dReg (.r1 inst)).bind fun _ hr => (fReg (.r0 inst)).bind fun _ _ =>
      (FaultCause.copyIn (addressed (.inr (.inr rfl)) hr)).map _
  | iPrint => exact printOp host
  | iRegDump => exact regDump
  | iDiv => exact divideOp
  | iAnd => exact logicalAnd
  | iOr => exact logicalOr
  | iGetac | iSet => exact setDReg (.r0 inst) _
  | iFset => exact setFReg (.r0 inst) _
  | iInc | iDec => exact (dReg (.r0 inst)).bind fun _ _ => setDReg (.r0 inst) _
  | iCu2i | iCi2u => exact (dReg (.r1 inst)).bind fun _ _ => setDReg (.r0 inst) _
  | iCf2i | iCf2u => exact (fReg (.r1 inst)).bind fun _ _ => setDReg (.r0 inst) _
  | iCi2f | iCu2f => exact (dReg (.r1 inst)).bind fun _ _ => setFReg (.r0 inst) _
  | iAdd | iSub | iMul | iCmpe | iCmpeg | iCmpel | iCmpg | iCmpl => exact intOp _
  | iFadd | iFsub | iFdiv | iFmul => exact floatOp _
  | iFcmpe | iFcmpeg | iFcmpel | iFcmpg | iFcmpl => exact floatCompare _
  | iEjmp | iNejmp => exact jumpImmediateIf _
  | iErjmp | iNerjmp => exact jumpRegisterIf _
  | iRjmp => exact (dReg (.r0 inst)).map _
  | iHalt | iJmp | iNop => exact .ok _

theorem executeOp_fault {host : Host} {m : Machine} {e : Fault}
    (hpc : m.pc.toNat < m.program.code.length) (h : executeOp host m = .error e) :
    ∃ inst op, m.fetched = some inst ∧ m.opcode = some op ∧ FaultCause inst m.advance op e := by
  have hf : m.fetched = some m.program.code[m.pc.toNat] := List.getElem?_eq_getElem hpc
  rw [executeOp_of_fetched hf, executeInst] at h
  split at h
  · rename_i op hop
    exact ⟨_, op, hf, by simp [Machine.opcode, hf, hop], executeOpcode_fault host _ _ op e h⟩
  · cases h

theorem Machine.fetched_mem {m : Machine} {inst : Instruction} (h : m.fetched = some inst) :
    inst ∈ m.program.code :=
  List.mem_of_getElem? h

theorem executeProgram_program {host : Host} {n : Nat} {m m' : Machine}
    (h : executeProgram host n m = .ok m') : m'.program = m.program := by
  refine Loop.run_invariant (fun t => t.program = m.program) ?_ rfl h
  intro s t hs hg hstep
  obtain ⟨inst, -, he⟩ := executeOp_effect hstep
  exact he.program_unchanged.trans hs

theorem executeProgram_registers {p : Program} (hp : RegistersInRange p.code) (host : Host)
    (g : Globals) (n : Nat) :
    executeProgram host n (initMachine g p) ≠ .error .registerOutOfBounds := by
  intro h
  obtain ⟨k, m, hrun, hg, hbody⟩ := Loop.run_error h
  obtain ⟨inst, op, hf, -, hcause⟩ := executeOp_fault (guard_iff.mp hg).1 hbody
  have hmem := Machine.fetched_mem hf
  rw [executeProgram_program hrun] at hmem
  cases hcause with
  | register slot outside => exact absurd (slot.inRange (hp inst hmem)) (Nat.not_lt_of_le outside)

end CAt
