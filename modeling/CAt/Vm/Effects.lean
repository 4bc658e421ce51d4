import CAt.Vm.ExecuteOp

namespace CAt

open GuardedLoop.Loop (bind_ok)

namespace Inst

def writesRegister : Inst → Bool
  | iGetac | iInc | iDec | iAdd | iSub | iMul | iDiv | iFadd | iFsub | iFdiv | iFmul
  | iDload | iFload | iFset | iSet | iAnd | iOr
  | iCu2i | iCi2u | iCf2i | iCi2f | iCu2f | iCf2u
  | iCmpe | iCmpeg | iCmpel | iCmpg | iCmpl
  | iFcmpe | iFcmpeg | iFcmpel | iFcmpg | iFcmpl => true
  | _ => false

def isJump : Inst → Bool
  | iJmp | iEjmp | iNejmp => true
  | _ => false

def isRegisterJump : Inst → Bool
  | iRjmp | iErjmp | iNerjmp => true
  | _ => false

end Inst

inductive Effect (inst : Instruction) (m : Machine) : Option Inst → Machine → Prop
  | registers {op} (iregisters : Fin intRegCount → Uint)
      (fregisters : Fin fltRegCount → Float32Bits) (kind : op.writesRegister = true) :
      Effect inst m (some op) { m with iregisters, fregisters }
  | push (value : Uint) (i : Fin intRegCount) (register : regIndex inst.r0 = .ok i)
      (pushed : value = m.iregisters i) (fits : (m.stackTop + 4).toNat + 4 ≤ stackSize) :
      Effect inst m (some .iPush) { m with
        stackMemory := ByteMemory.store m.stackMemory (m.stackTop + 4).toNat value
        stackTop := m.stackTop + 4 }
  | pop (i : Fin intRegCount) (register : regIndex inst.r0 = .ok i)
      (fits : m.stackTop.toNat + 4 ≤ stackSize) :
      Effect inst m (some .iPop) { m with
        iregisters := Function.update m.iregisters i
          (ByteMemory.load m.stackMemory m.stackTop.toNat fits)
        stackTop := m.stackTop - 4 }
  | save {op} (i : Fin intRegCount) (value : BitVec 32) (kind : op = .iDsave ∨ op = .iFsave)
      (register : regIndex inst.r1 = .ok i) (fits : (m.iregisters i).toNat + 4 ≤ stackSize) :
      Effect inst m (some op) { m with
        stackMemory := ByteMemory.store m.stackMemory (m.iregisters i).toNat value }
  | record (room : m.frames.toNat < frameCount) :
      Effect inst m (some .iRec) { m with
        frameMemory := Function.update m.frameMemory ⟨m.frames.toNat, room⟩
          ⟨0, m.stackTop.setWidth 32, 0⟩ }
  | call (room : m.frames.toNat < frameCount) (line : LogLine) :
      Effect inst m (some .iCall) { m.log line with
        pc := inst.storage.asI32.signExtend 64
        frames := m.frames + 1
        frameMemory := Function.update m.frameMemory ⟨m.frames.toNat, room⟩
          ⟨m.pc + 1, 0, m.stackTop.setWidth 32⟩ }
  | jump {op} (kind : op.isJump = true) :
      Effect inst m (some op) { m with pc := inst.storage.asI32.setWidth 64 }
  | registerJump {op} (target : Uint) (kind : op.isRegisterJump = true) :
      Effect inst m (some op) { m with pc := target.setWidth 64 }
  | stay {op} (kind : op = .iNop ∨ op.isJump = true ∨ op.isRegisterJump = true) :
      Effect inst m (some op) m
  | output {op} (line : LogLine) (writes : List WriteCall)
      (kind : op = .iPrint ∨ op = .iRegDump) :
      Effect inst m (some op) { m.log line with writes }
  | ret (accumRegister : Uint) (line : LogLine) (live : m.frames ≠ 0)
      (room : (m.frames - 1).toNat < frameCount) :
      Effect inst m (some .iRet) { m.log line with
        accumRegister
        pc := (m.frameMemory ⟨(m.frames - 1).toNat, room⟩).rip - 1
        frames := m.frames - 1
        frameMemory := Function.update m.frameMemory ⟨(m.frames - 1).toNat, room⟩ .zero }
  | rootRet (accumRegister : Uint) (line : LogLine) (root : m.frames = 0) :
      Effect inst m (some .iRet) { m.log line with accumRegister, isRunning := false }
  | halt : Effect inst m (some .iHalt) { m with isRunning := false }
  | unsupported (stderr : List String) : Effect inst m none { m with stderr }

namespace Effect

variable {inst : Instruction} {m m' : Machine}

theorem frames_unchanged {op : Option Inst} (h : Effect inst m op m') (hrec : op ≠ some .iRec)
    (hcall : op ≠ some .iCall) (hret : op ≠ some .iRet) :
    m'.frames = m.frames ∧ m'.frameMemory = m.frameMemory := by
  cases h with
  | record => exact absurd rfl hrec
  | call => exact absurd rfl hcall
  | ret => exact absurd rfl hret
  | rootRet => exact absurd rfl hret
  | _ => exact ⟨rfl, rfl⟩

theorem record_inv (h : Effect inst m (some .iRec) m') :
    ∃ room : m.frames.toNat < frameCount, m' = { m with
      frameMemory := Function.update m.frameMemory ⟨m.frames.toNat, room⟩
        ⟨0, m.stackTop.setWidth 32, 0⟩ } := by
  cases h with
  | record room => exact ⟨room, rfl⟩
  | registers _ _ kind | jump kind | registerJump _ kind => cases kind
  | save _ _ kind | output _ _ kind => rcases kind with h | h <;> cases h
  | stay kind => rcases kind with h | h | h <;> cases h

theorem call_inv (h : Effect inst m (some .iCall) m') :
    ∃ (room : m.frames.toNat < frameCount) (line : LogLine), m' = { m.log line with
      pc := inst.storage.asI32.signExtend 64
      frames := m.frames + 1
      frameMemory := Function.update m.frameMemory ⟨m.frames.toNat, room⟩
        ⟨m.pc + 1, 0, m.stackTop.setWidth 32⟩ } := by
  cases h with
  | call room line => exact ⟨room, line, rfl⟩
  | registers _ _ kind | jump kind | registerJump _ kind => cases kind
  | save _ _ kind | output _ _ kind => rcases kind with h | h <;> cases h
  | stay kind => rcases kind with h | h | h <;> cases h

theorem ret_inv (h : Effect inst m (some .iRet) m') :
    ∃ (accumRegister : Uint) (line : LogLine),
      (m.frames = 0 ∧ m' = { m.log line with accumRegister, isRunning := false }) ∨
      (m.frames ≠ 0 ∧ ∃ room : (m.frames - 1).toNat < frameCount, m' = { m.log line with
        accumRegister
        pc := (m.frameMemory ⟨(m.frames - 1).toNat, room⟩).rip - 1
        frames := m.frames - 1
        frameMemory := Function.update m.frameMemory ⟨(m.frames - 1).toNat, room⟩ .zero }) := by
  cases h with
  | ret accumRegister line live room =>
    exact ⟨accumRegister, line, .inr ⟨live, room, rfl⟩⟩
  | rootRet accumRegister line root =>
    exact ⟨accumRegister, line, .inl ⟨root, rfl⟩⟩
  | registers _ _ kind | jump kind | registerJump _ kind => cases kind
  | save _ _ kind | output _ _ kind => rcases kind with h | h <;> cases h
  | stay kind => rcases kind with h | h | h <;> cases h

theorem program_unchanged {op : Option Inst} (h : Effect inst m op m') :
    m'.program = m.program := by
  cases h <;> rfl

theorem coreLogger_isSome {op : Option Inst} (h : Effect inst m op m') :
    m'.coreLogger.isSome = m.coreLogger.isSome := by
  cases h <;> simp [Machine.log]

theorem coreLogger_none {op : Option Inst} (h : Effect inst m op m') (hm : m.coreLogger = none) :
    m'.coreLogger = none := by
  cases h <;> simp [Machine.log, hm]

theorem pc_cases {op : Option Inst} (h : Effect inst m op m') (hcall : op ≠ some .iCall)
    (hret : op ≠ some .iRet) :
    m'.pc = m.pc ∨
      (∃ o, op = some o ∧ o.isJump = true ∧ m'.pc = inst.storage.asI32.setWidth 64) ∨
      ∃ o, op = some o ∧ o.isRegisterJump = true := by
  cases h with
  | call => exact absurd rfl hcall
  | ret => exact absurd rfl hret
  | rootRet => exact absurd rfl hret
  | jump kind => exact .inr (.inl ⟨_, rfl, kind, rfl⟩)
  | registerJump _ kind => exact .inr (.inr ⟨_, rfl, kind⟩)
  | _ => exact .inl rfl

theorem stack_unchanged {op : Option Inst} (h : Effect inst m op m') (hpush : op ≠ some .iPush)
    (hpop : op ≠ some .iPop) (hdsave : op ≠ some .iDsave) (hfsave : op ≠ some .iFsave) :
    m'.stackTop = m.stackTop ∧ m'.stackMemory = m.stackMemory := by
  cases h with
  | push => exact absurd rfl hpush
  | pop => exact absurd rfl hpop
  | save _ _ kind =>
    rcases kind with rfl | rfl
    · exact absurd rfl hdsave
    · exact absurd rfl hfsave
  | _ => exact ⟨rfl, rfl⟩

theorem stackTop_unchanged {op : Option Inst} (h : Effect inst m op m')
    (hpush : op ≠ some .iPush) (hpop : op ≠ some .iPop) : m'.stackTop = m.stackTop := by
  cases h with
  | push => exact absurd rfl hpush
  | pop => exact absurd rfl hpop
  | _ => rfl

theorem push_inv (h : Effect inst m (some .iPush) m') :
    ∃ i, regIndex inst.r0 = .ok i ∧ (m.stackTop + 4).toNat + 4 ≤ stackSize ∧ m' = { m with
      stackMemory := ByteMemory.store m.stackMemory (m.stackTop + 4).toNat (m.iregisters i)
      stackTop := m.stackTop + 4 } := by
  cases h with
  | push value i register pushed fits => exact ⟨i, register, fits, pushed ▸ rfl⟩
  | registers _ _ kind | jump kind | registerJump _ kind => cases kind
  | save _ _ kind | output _ _ kind => rcases kind with h | h <;> cases h
  | stay kind => rcases kind with h | h | h <;> cases h

theorem pop_inv (h : Effect inst m (some .iPop) m') :
    ∃ i, regIndex inst.r0 = .ok i ∧ ∃ fits : m.stackTop.toNat + 4 ≤ stackSize, m' = { m with
      iregisters := Function.update m.iregisters i
        (ByteMemory.load m.stackMemory m.stackTop.toNat fits)
      stackTop := m.stackTop - 4 } := by
  cases h with
  | pop i register fits => exact ⟨i, register, fits, rfl⟩
  | registers _ _ kind | jump kind | registerJump _ kind => cases kind
  | save _ _ kind | output _ _ kind => rcases kind with h | h <;> cases h
  | stay kind => rcases kind with h | h | h <;> cases h

theorem save_inv {op : Inst} (h : Effect inst m (some op) m')
    (kind : op = .iDsave ∨ op = .iFsave) :
    ∃ i, regIndex inst.r1 = .ok i ∧ (m.iregisters i).toNat + 4 ≤ stackSize ∧
      ∃ value, m' = { m with
        stackMemory := ByteMemory.store m.stackMemory (m.iregisters i).toNat value } := by
  cases h with
  | save i value _ register fits => exact ⟨i, register, fits, value, rfl⟩
  | registers _ _ k | jump k | registerJump _ k => rcases kind with rfl | rfl <;> cases k
  | output _ _ k => rcases kind with rfl | rfl <;> rcases k with h | h <;> cases h
  | stay k => rcases kind with rfl | rfl <;> rcases k with h | h | h <;> cases h
  | _ => rcases kind with h | h <;> cases h

end Effect

theorem regIndex_ofNat (x : Fin intRegCount) : regIndex (BitVec.ofNat 8 x.val) = .ok x := by
  have hx : x.val < 16 := x.isLt
  have hval : (BitVec.ofNat 8 x.val).toNat = x.val := by
    rw [BitVec.toNat_ofNat]
    exact Nat.mod_eq_of_lt (by omega)
  have hlt : (BitVec.ofNat 8 x.val).toNat < intRegCount := by
    rw [hval]
    exact hx
  rw [regIndex, dif_pos hlt]
  exact congrArg Except.ok (Fin.ext hval)

theorem frameIndex_ok {r : SizeT} {i : Fin frameCount} (h : frameIndex r = .ok i) :
    ∃ room : r.toNat < frameCount, i = ⟨r.toNat, room⟩ := by
  unfold frameIndex at h
  split at h
  · cases h
    exact ⟨_, rfl⟩
  · cases h

theorem copyIn_ok {memory memory' : Stack} {offset : Nat} {value : BitVec 32}
    (h : copyIn memory offset value = .ok memory') :
    offset + 4 ≤ stackSize ∧ memory' = ByteMemory.store memory offset value := by
  unfold copyIn at h
  split at h
  · cases h
    exact ⟨‹_›, rfl⟩
  · cases h

theorem copyOut_ok {memory : Stack} {offset : Nat} {value : BitVec 32}
    (h : copyOut memory offset = .ok value) :
    ∃ fits : offset + 4 ≤ stackSize, value = ByteMemory.load memory offset fits := by
  unfold copyOut at h
  split at h
  · cases h
    exact ⟨_, rfl⟩
  · cases h

namespace Machine

theorem log_of_none {m : Machine} (h : m.coreLogger = none) (line : LogLine) :
    m.log line = m := by
  cases m
  cases h
  rfl

theorem dReg_ok {m : Machine} {r : Byte} {v : Uint} (h : m.dReg r = .ok v) :
    ∃ i, regIndex r = .ok i ∧ v = m.iregisters i := by
  obtain ⟨i, hi, hv⟩ := bind_ok h
  cases hv
  exact ⟨i, hi, rfl⟩

theorem dReg_ofNat (m : Machine) (x : Fin intRegCount) :
    m.dReg (BitVec.ofNat 8 x.val) = .ok (m.iregisters x) := by
  rw [dReg, regIndex_ofNat]
  rfl

theorem setDReg_ofNat (m : Machine) (x : Fin intRegCount) (v : Uint) :
    m.setDReg (BitVec.ofNat 8 x.val) v =
      .ok { m with iregisters := Function.update m.iregisters x v } := by
  rw [setDReg, regIndex_ofNat]
  rfl

theorem setDReg_ok {m m' : Machine} {r : Byte} {v : Uint} (h : m.setDReg r v = .ok m') :
    ∃ i, regIndex r = .ok i ∧ m' = { m with iregisters := Function.update m.iregisters i v } := by
  obtain ⟨i, hi, hm⟩ := bind_ok h
  cases hm
  exact ⟨i, hi, rfl⟩

def OnlyRegisters (m : Machine) (c : Except Fault Machine) : Prop :=
  ∀ m', c = .ok m' → ∃ iregisters fregisters, m' = { m with iregisters, fregisters }

namespace OnlyRegisters

variable {m : Machine}

theorem setDReg (r : Byte) (v : Uint) : OnlyRegisters m (m.setDReg r v) := by
  intro m' h
  obtain ⟨i, hi, rfl⟩ := setDReg_ok h
  exact ⟨_, m.fregisters, rfl⟩

theorem setFReg (r : Byte) (v : Float32Bits) : OnlyRegisters m (m.setFReg r v) := by
  intro m' h
  obtain ⟨i, hi, hm⟩ := bind_ok h
  cases hm
  exact ⟨m.iregisters, _, rfl⟩

theorem error (e : Fault) : OnlyRegisters m (.error e) := by
  intro m' h
  cases h

theorem bind {α : Type} {c : Except Fault α} {f : α → Except Fault Machine}
    (h : ∀ a, OnlyRegisters m (f a)) : OnlyRegisters m (c >>= f) := by
  intro m' hm
  obtain ⟨a, _, ha⟩ := bind_ok hm
  exact h a m' ha

theorem ite {p : Prop} [Decidable p] {c d : Except Fault Machine} (hc : OnlyRegisters m c)
    (hd : OnlyRegisters m d) : OnlyRegisters m (if p then c else d) := by
  split
  · exact hc
  · exact hd

theorem intOp (inst : Instruction) (f : Uint → Uint → Uint) :
    OnlyRegisters m (m.intOp inst f) :=
  bind fun _ => bind fun _ => setDReg _ _

theorem floatOp (inst : Instruction) (f : Float32Bits → Float32Bits → Float32Bits) :
    OnlyRegisters m (m.floatOp inst f) :=
  bind fun _ => bind fun _ => setFReg _ _

theorem floatCompare (inst : Instruction) (f : Float32Bits → Float32Bits → Bool) :
    OnlyRegisters m (m.floatCompare inst f) :=
  bind fun _ => bind fun _ => setDReg _ _

theorem logicalAnd (inst : Instruction) : OnlyRegisters m (m.logicalAnd inst) :=
  bind fun _ => ite (setDReg _ _) (bind fun _ => setDReg _ _)

theorem logicalOr (inst : Instruction) : OnlyRegisters m (m.logicalOr inst) :=
  bind fun _ => ite (setDReg _ _) (bind fun _ => setDReg _ _)

theorem divide (inst : Instruction) : OnlyRegisters m (m.divide inst) :=
  bind fun _ => bind fun _ => ite (error _) (setDReg _ _)

end OnlyRegisters

end Machine

open Machine in
theorem executeOpcode_registers (host : Host) (m : Machine) (inst : Instruction) {op : Inst}
    (h : op.writesRegister = true) : OnlyRegisters m (executeOpcode host m inst op) := by
  cases op with
  | iGetac | iSet => exact OnlyRegisters.setDReg _ _
  | iFset => exact OnlyRegisters.setFReg _ _
  | iInc | iDec | iCu2i | iCi2u | iCf2i | iCf2u =>
    exact OnlyRegisters.bind fun _ => OnlyRegisters.setDReg _ _
  | iFload | iCi2f | iCu2f => exact OnlyRegisters.bind fun _ => OnlyRegisters.setFReg _ _
  | iDload =>
    exact OnlyRegisters.bind fun _ => OnlyRegisters.bind fun _ => OnlyRegisters.setDReg _ _
  | iAdd | iSub | iMul | iCmpe | iCmpeg | iCmpel | iCmpg | iCmpl =>
    exact OnlyRegisters.intOp inst _
  | iFadd | iFsub | iFdiv | iFmul => exact OnlyRegisters.floatOp inst _
  | iFcmpe | iFcmpeg | iFcmpel | iFcmpg | iFcmpl => exact OnlyRegisters.floatCompare inst _
  | iAnd => exact OnlyRegisters.logicalAnd inst
  | iOr => exact OnlyRegisters.logicalOr inst
  | iDiv => exact OnlyRegisters.divide inst
  | _ => cases h

section Cases

variable {m m' : Machine} {inst : Instruction}

theorem push_effect (h : m.push inst = .ok m') : Effect inst m (some .iPush) m' := by
  obtain ⟨value, hv, h⟩ := bind_ok h
  obtain ⟨i, hi, hvi⟩ := Machine.dReg_ok hv
  obtain ⟨⟨memory, top⟩, hp, h⟩ := bind_ok h
  obtain ⟨memory', hc, hp⟩ := bind_ok hp
  obtain ⟨fits, rfl⟩ := copyIn_ok hc
  cases hp
  cases h
  exact .push value i hi hvi fits

theorem pop_effect (h : m.pop inst = .ok m') : Effect inst m (some .iPop) m' := by
  obtain ⟨⟨value, top⟩, hp, h⟩ := bind_ok h
  obtain ⟨value', hc, hp⟩ := bind_ok hp
  obtain ⟨fits, rfl⟩ := copyOut_ok hc
  cases hp
  obtain ⟨i, hi, rfl⟩ := Machine.setDReg_ok h
  exact .pop i hi fits

theorem startRecord_effect (h : m.startRecord = .ok m') : Effect inst m (some .iRec) m' := by
  obtain ⟨frameMemory, hr, h⟩ := bind_ok h
  obtain ⟨i, hi, hr⟩ := bind_ok hr
  obtain ⟨room, rfl⟩ := frameIndex_ok hi
  cases hr
  cases h
  exact .record room

theorem enter_effect (h : m.enter inst = .ok m') : Effect inst m (some .iCall) m' := by
  obtain ⟨⟨frameMemory, frames, pc⟩, hc, h⟩ := bind_ok h
  obtain ⟨i, hi, hc⟩ := bind_ok hc
  obtain ⟨room, rfl⟩ := frameIndex_ok hi
  cases hc
  cases h
  exact .call room _

theorem leave_effect (h : m.leave inst = .ok m') : Effect inst m (some .iRet) m' := by
  obtain ⟨value, _, h⟩ := bind_ok h
  unfold Machine.returnToCaller at h
  split at h
  · obtain ⟨i, hi, h⟩ := bind_ok h
    obtain ⟨room, rfl⟩ := frameIndex_ok hi
    cases h
    exact .ret (m := m) value _ ‹_› room
  · obtain ⟨i, _, h⟩ := bind_ok h
    cases h
    exact .rootRet (m := m) value _ (not_not.mp ‹_›)

theorem jumpImmediateIf_effect {op : Inst} (kind : op.isJump = true) {f : Uint → Uint → Bool}
    (h : m.jumpImmediateIf inst f = .ok m') : Effect inst m (some op) m' := by
  obtain ⟨x, _, h⟩ := bind_ok h
  obtain ⟨y, _, h⟩ := bind_ok h
  split at h <;> cases h
  · exact .jump kind
  · exact .stay (.inr (.inl kind))

theorem jumpRegisterIf_effect {op : Inst} (kind : op.isRegisterJump = true)
    {f : Uint → Uint → Bool} (h : m.jumpRegisterIf inst f = .ok m') :
    Effect inst m (some op) m' := by
  obtain ⟨x, _, h⟩ := bind_ok h
  obtain ⟨y, _, h⟩ := bind_ok h
  split at h
  · obtain ⟨target, _, h⟩ := bind_ok h
    cases h
    exact .registerJump target kind
  · cases h
    exact .stay (.inr (.inr kind))

theorem print_effect {host : Host} (h : m.print host = .ok m') :
    Effect inst m (some .iPrint) m' := by
  simp only [Machine.print] at h
  split at h
  · split at h <;> cases h
    exact .output _ _ (.inl rfl)
  · cases h

theorem regDump_effect (h : m.regDump inst = .ok m') : Effect inst m (some .iRegDump) m' := by
  unfold Machine.regDump at h
  split at h
  · obtain ⟨value, _, h⟩ := bind_ok h
    cases h
    exact .output _ m.writes (.inr rfl)
  · rename_i hsilent
    cases h
    have hout : Effect inst m (some .iRegDump)
        { m.log (.regDump inst.r0 0) with writes := m.writes } := .output _ _ (.inr rfl)
    rwa [Machine.log_of_none (by simpa using hsilent)] at hout

end Cases

theorem executeOpcode_effect {host : Host} {m m' : Machine} {inst : Instruction} {op : Inst}
    (h : executeOpcode host m inst op = .ok m') : Effect inst m (some op) m' := by
  by_cases hw : op.writesRegister = true
  · obtain ⟨iregisters, fregisters, rfl⟩ := executeOpcode_registers host m inst hw m' h
    exact .registers iregisters fregisters hw
  · cases op with
    | iEntry => cases h
    | iHalt => cases h; exact .halt
    | iPush => exact push_effect h
    | iPop => exact pop_effect h
    | iRec => exact startRecord_effect h
    | iCall => exact enter_effect h
    | iDsave =>
      obtain ⟨address, ha, h⟩ := bind_ok h
      obtain ⟨value, _, h⟩ := bind_ok h
      obtain ⟨memory, hs, h⟩ := bind_ok h
      obtain ⟨i, hi, rfl⟩ := Machine.dReg_ok ha
      obtain ⟨fits, rfl⟩ := copyIn_ok hs
      cases h
      exact .save i value (.inl rfl) hi fits
    | iFsave =>
      obtain ⟨address, ha, h⟩ := bind_ok h
      obtain ⟨value, _, h⟩ := bind_ok h
      obtain ⟨memory, hs, h⟩ := bind_ok h
      obtain ⟨i, hi, rfl⟩ := Machine.dReg_ok ha
      obtain ⟨fits, rfl⟩ := copyIn_ok hs
      cases h
      exact .save i value (.inr rfl) hi fits
    | iJmp => cases h; exact .jump rfl
    | iEjmp => exact jumpImmediateIf_effect rfl h
    | iNejmp => exact jumpImmediateIf_effect rfl h
    | iRjmp =>
      obtain ⟨target, _, h⟩ := bind_ok h
      cases h
      exact .registerJump target rfl
    | iErjmp => exact jumpRegisterIf_effect rfl h
    | iNerjmp => exact jumpRegisterIf_effect rfl h
    | iPrint => exact print_effect h
    | iRegDump => exact regDump_effect h
    | iRet => exact leave_effect h
    | iNop => cases h; exact .stay (.inl rfl)
    | _ => exact absurd rfl hw

theorem dload_ok {host : Host} {m m' : Machine} {inst : Instruction}
    (h : executeOpcode host m inst .iDload = .ok m') :
    ∃ i j, regIndex inst.r0 = .ok i ∧ regIndex inst.r1 = .ok j ∧
      ∃ fits : (m.iregisters j).toNat + 4 ≤ stackSize, m' = { m with
        iregisters := Function.update m.iregisters i
          (ByteMemory.load m.stackMemory (m.iregisters j).toNat fits) } := by
  obtain ⟨address, ha, h⟩ := bind_ok h
  obtain ⟨value, hv, h⟩ := bind_ok h
  obtain ⟨j, hj, rfl⟩ := Machine.dReg_ok ha
  obtain ⟨fits, rfl⟩ := copyOut_ok hv
  obtain ⟨i, hi, rfl⟩ := Machine.setDReg_ok h
  exact ⟨i, j, hi, hj, fits, rfl⟩

theorem executeInst_effect {host : Host} {m m' : Machine} {inst : Instruction}
    (h : executeInst host m inst = .ok m') : Effect inst m inst.decode m' := by
  unfold executeInst at h
  split at h
  · rename_i op hop
    exact hop ▸ executeOpcode_effect h
  · rename_i hop
    cases h
    exact hop ▸ .unsupported _

def Machine.fetched (m : Machine) : Option Instruction := m.program.code[m.pc.toNat]?

def Machine.advance (m : Machine) : Machine := { m with pc := m.pc + 1 }

theorem executeOp_of_fetched {host : Host} {m : Machine} {inst : Instruction}
    (h : m.fetched = some inst) : executeOp host m = executeInst host m.advance inst := by
  unfold Machine.fetched at h
  simp only [executeOp, Machine.instNext, h]
  rfl

theorem executeOp_effect {host : Host} {m m' : Machine} (h : executeOp host m = .ok m') :
    ∃ inst, m.fetched = some inst ∧ Effect inst m.advance inst.decode m' := by
  cases hf : m.fetched with
  | none =>
    unfold Machine.fetched at hf
    simp only [executeOp, Machine.instNext, hf] at h
    cases h
  | some inst =>
    rw [executeOp_of_fetched hf] at h
    exact ⟨inst, rfl, executeInst_effect h⟩

def Machine.opcode (m : Machine) : Option Inst := m.fetched.bind Instruction.decode

theorem executeOp_opcode {host : Host} {m m' : Machine} (h : executeOp host m = .ok m') :
    ∃ inst, m.fetched = some inst ∧ m.opcode = inst.decode ∧
      Effect inst m.advance inst.decode m' := by
  obtain ⟨inst, hf, he⟩ := executeOp_effect h
  exact ⟨inst, hf, by simp [Machine.opcode, hf], he⟩

theorem executeOp_of_opcode (host : Host) {m : Machine} {op : Inst} (h : m.opcode = some op) :
    ∃ inst, m.fetched = some inst ∧ executeOp host m = executeOpcode host m.advance inst op := by
  obtain ⟨inst, hf, hd⟩ := Option.bind_eq_some_iff.mp h
  refine ⟨inst, hf, ?_⟩
  rw [executeOp_of_fetched hf, executeInst, hd]

theorem guard_iff {host : Host} {m : Machine} :
    (vmLoop host).guard m = true ↔ m.pc.toNat < m.program.code.length ∧ m.isRunning = true := by
  simp [vmLoop, BitVec.lt_def]

end CAt
