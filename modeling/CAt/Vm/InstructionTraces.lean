import CAt.Vm.Effects

namespace CAt

open GuardedLoop

abbrev Traces (host : Host) : List (Option Inst) → Machine → Machine → Prop :=
  (vmLoop host).Traced Machine.opcode

structure At (m : Machine) (inst : Instruction) : Prop where
  running : m.isRunning = true
  fetched : m.fetched = some inst

namespace Build

variable (op : Inst) (r r' r'' : Byte) (storage : UniformStrg)

@[simp] theorem r0_operands : (operands op r r' r'' storage).r0 = r := rfl

@[simp] theorem r1_operands : (operands op r r' r'' storage).r1 = r' := rfl

@[simp] theorem r2_operands : (operands op r r' r'' storage).r2 = r'' := rfl

@[simp] theorem storage_operands : (operands op r r' r'' storage).storage = storage := rfl

end Build

abbrev reg0 : Fin intRegCount := ⟨0, zero_lt_intRegCount⟩

abbrev reg1 : Fin intRegCount := ⟨1, one_lt_intRegCount⟩

abbrev reg2 : Fin intRegCount := ⟨2, two_lt_intRegCount⟩

abbrev reg3 : Fin intRegCount := ⟨3, three_lt_intRegCount⟩

theorem regIndex_zero : regIndex 0 = .ok 0 := rfl

theorem frameIndex_of_toNat {frames : SizeT} {i : Fin frameCount} (h : frames.toNat = i.val) :
    frameIndex frames = .ok i := by
  have room : frames.toNat < frameCount := h ▸ i.isLt
  rw [frameIndex, dif_pos room]
  exact congrArg Except.ok (Fin.ext h)

theorem copyIn_fits {offset : Nat} (fits : offset + 4 ≤ stackSize) (memory : Stack)
    (value : BitVec 32) :
    copyIn memory offset value = .ok (ByteMemory.store memory offset value) :=
  if_pos fits

theorem copyOut_fits {offset : Nat} (fits : offset + 4 ≤ stackSize) (memory : Stack) :
    copyOut memory offset = .ok (ByteMemory.load memory offset fits) :=
  dif_pos fits

theorem length_lt_of_le {code : List Instruction} (h : code.length ≤ 16) :
    code.length < 2 ^ 60 := by
  omega

namespace Machine

variable {m : Machine} {r : Byte} {x : Fin intRegCount}

theorem dReg_index (hr : regIndex r = .ok x) : m.dReg r = .ok (m.iregisters x) := by
  rw [dReg, hr]
  rfl

theorem setDReg_index (hr : regIndex r = .ok x) (v : Uint) :
    m.setDReg r v = .ok { m with iregisters := Function.update m.iregisters x v } := by
  rw [setDReg, hr]
  rfl

end Machine

namespace At

section Execute

variable {host : Host} {m m' : Machine} {inst : Instruction} {op : Inst}

theorem guard (h : At m inst) : (vmLoop host).guard m = true := by
  refine guard_iff.mpr ⟨?_, h.running⟩
  exact (List.getElem?_eq_some_iff.mp h.fetched).1

theorem opcode (h : At m inst) : m.opcode = inst.decode := by
  simp [Machine.opcode, h.fetched]

theorem traces (h : At m inst) (hop : inst.decode = some op)
    (hexec : executeOpcode host m.advance inst op = .ok m') : Traces host [some op] m m' := by
  have hbody : executeOp host m = .ok m' := by
    rw [executeOp_of_fetched h.fetched, executeInst, hop]
    exact hexec
  rw [← hop, ← h.opcode]
  exact .cons h.guard hbody (.nil m')

end Execute

section Instructions

variable {host : Host} {m : Machine} {r r' r'' : Byte} {x y z : Fin intRegCount}

theorem set {v : Uint} (h : At m (Build.set r v)) (hr : regIndex r = .ok x) :
    Traces host [some .iSet] m { m with
      pc := m.pc + 1
      iregisters := Function.update m.iregisters x v } := by
  refine h.traces (Build.decode_operands ..) ?_
  change m.advance.setDReg r (UniformStrg.ofI32 v).asI32 = _
  rw [Machine.setDReg_index hr, UniformStrg.asI32_ofI32]
  rfl

theorem add (h : At m (Build.add r r' r'')) (hr : regIndex r = .ok x) (hr' : regIndex r' = .ok y)
    (hr'' : regIndex r'' = .ok z) :
    Traces host [some .iAdd] m { m with
      pc := m.pc + 1
      iregisters := Function.update m.iregisters x (m.iregisters y + m.iregisters z) } := by
  refine h.traces (Build.decode_operands ..) ?_
  change m.advance.intOp (Build.add r r' r'') (· + ·) = _
  simp only [Machine.intOp, Build.add, Build.r0_operands, Build.r1_operands, Build.r2_operands,
    Machine.dReg_index hr', Machine.dReg_index hr'', Loop.ok_bind, Machine.setDReg_index hr]
  rfl

theorem regDump (h : At m (Build.regDump r)) (silent : m.coreLogger = none) :
    Traces host [some .iRegDump] m { m with pc := m.pc + 1 } := by
  refine h.traces (Build.decode_operands ..) ?_
  change m.advance.regDump (Build.regDump r) = _
  simp only [Machine.regDump, Machine.advance, silent]
  rfl

-- The macro NEJMP fills the first two register slots and execute_op compares the last two.
theorem nejmp {a : BitVec 32} (h : At m (Build.nejmp a r r')) (hr' : regIndex r' = .ok y) :
    Traces host [some .iNejmp] m { m with
      pc := if m.iregisters y = m.iregisters 0 then m.pc + 1 else a.setWidth 64 } := by
  refine h.traces (Build.decode_operands ..) ?_
  change m.advance.jumpImmediateIf (Build.nejmp a r r') (· != ·) = _
  simp only [Machine.jumpImmediateIf, Build.nejmp, Build.r1_operands, Build.r2_operands,
    Build.storage_operands, UniformStrg.asI32_ofI32, Machine.dReg_index hr',
    Machine.dReg_index regIndex_zero, Loop.ok_bind, Machine.advance, bne_iff_ne, ite_not]
  split
  · rfl
  · rfl

theorem record {i : Fin frameCount} (h : At m Build.rec) (hi : m.frames.toNat = i.val) :
    Traces host [some .iRec] m { m with
      pc := m.pc + 1
      frameMemory := Function.update m.frameMemory i ⟨0, m.stackTop.setWidth 32, 0⟩ } := by
  refine h.traces (Build.decode_operands ..) ?_
  change m.advance.startRecord = _
  have hindex : frameIndex m.advance.frames = .ok i := frameIndex_of_toNat hi
  rw [Machine.startRecord, CAt.record, hindex]
  rfl

theorem push (h : At m (Build.push r)) (hr : regIndex r = .ok x)
    (fits : (m.stackTop + 4).toNat + 4 ≤ stackSize) :
    Traces host [some .iPush] m { m with
      pc := m.pc + 1
      stackMemory := ByteMemory.store m.stackMemory (m.stackTop + 4).toNat (m.iregisters x)
      stackTop := m.stackTop + 4 } := by
  refine h.traces (Build.decode_operands ..) ?_
  change m.advance.push (Build.push r) = _
  simp only [Machine.push, Build.push, Build.r0_operands, Machine.dReg_index hr, Loop.ok_bind,
    Machine.advance, pushDecimal, copyIn_fits fits]
  rfl

theorem pop (h : At m (Build.pop r)) (hr : regIndex r = .ok x)
    (fits : m.stackTop.toNat + 4 ≤ stackSize) :
    Traces host [some .iPop] m { m with
      pc := m.pc + 1
      iregisters := Function.update m.iregisters x
        (ByteMemory.load m.stackMemory m.stackTop.toNat fits)
      stackTop := m.stackTop - 4 } := by
  refine h.traces (Build.decode_operands ..) ?_
  change m.advance.pop (Build.pop r) = _
  simp only [Machine.pop, Build.pop, Build.r0_operands, Machine.advance, popDecimal,
    copyOut_fits fits, Loop.ok_bind]
  exact Machine.setDReg_index hr _

theorem call {a : BitVec 32} {i : Fin frameCount} (h : At m (Build.call a))
    (hi : m.frames.toNat = i.val) (silent : m.coreLogger = none) :
    Traces host [some .iCall] m { m with
      pc := a.signExtend 64
      frames := m.frames + 1
      frameMemory := Function.update m.frameMemory i
        ⟨m.pc + 1 + 1, 0, m.stackTop.setWidth 32⟩ } := by
  refine h.traces (Build.decode_operands ..) ?_
  change m.advance.enter (Build.call a) = _
  have hindex : frameIndex m.advance.frames = .ok i := frameIndex_of_toNat hi
  rw [Machine.enter, CAt.call, hindex]
  simp only [Build.call, Build.storage_operands, UniformStrg.asI32_ofI32, Machine.log,
    Machine.advance, silent, Option.map_none]
  rfl

theorem ret {i : Fin frameCount} (h : At m (Build.ret r)) (hr : regIndex r = .ok x)
    (hi : m.frames.toNat = i.val + 1) (silent : m.coreLogger = none) :
    Traces host [some .iRet] m { m with
      pc := (m.frameMemory i).rip - 1
      accumRegister := m.iregisters x
      frames := m.frames - 1
      frameMemory := Function.update m.frameMemory i .zero } := by
  refine h.traces (Build.decode_operands ..) ?_
  change m.advance.leave (Build.ret r) = _
  have live : m.frames ≠ 0 := fun hzero => by
    rw [hzero] at hi
    exact absurd hi (Nat.succ_ne_zero _).symm
  have hindex : frameIndex (m.frames - 1) = .ok i := by
    refine frameIndex_of_toNat ?_
    have := frames_pred live
    omega
  simp only [Machine.leave, Build.ret, Build.r0_operands, Machine.dReg_index hr, Loop.ok_bind,
    Machine.advance, Machine.returnToCaller, live, ne_eq, not_false_eq_true, if_true, hindex,
    Machine.log, silent, Option.map_none]
  rfl

theorem rootRet (h : At m (Build.ret r)) (hr : regIndex r = .ok x) (root : m.frames = 0)
    (silent : m.coreLogger = none) :
    Traces host [some .iRet] m { m with
      pc := m.pc + 1
      accumRegister := m.iregisters x
      isRunning := false } := by
  refine h.traces (Build.decode_operands ..) ?_
  change m.advance.leave (Build.ret r) = _
  simp only [Machine.leave, Build.ret, Build.r0_operands, Machine.dReg_index hr, Loop.ok_bind,
    Machine.advance, Machine.returnToCaller, root, ne_eq, not_true_eq_false, if_false,
    Machine.log, silent, Option.map_none]
  rfl

end Instructions

end At

end CAt
