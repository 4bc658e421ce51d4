import CAt.Library.GuardedLoop
import CAt.Vm.Machine

namespace CAt

def truth (b : Bool) : Uint := if b then 1 else 0

namespace Machine

def intOp (m : Machine) (inst : Instruction) (f : Uint → Uint → Uint) : Except Fault Machine := do
  let x ← m.dReg inst.r1
  let y ← m.dReg inst.r2
  m.setDReg inst.r0 (f x y)

def floatOp (m : Machine) (inst : Instruction)
    (f : Float32Bits → Float32Bits → Float32Bits) : Except Fault Machine := do
  let x ← m.fReg inst.r1
  let y ← m.fReg inst.r2
  m.setFReg inst.r0 (f x y)

def floatCompare (m : Machine) (inst : Instruction)
    (f : Float32Bits → Float32Bits → Bool) : Except Fault Machine := do
  let x ← m.fReg inst.r1
  let y ← m.fReg inst.r2
  m.setDReg inst.r0 (truth (f x y))

-- `&&` and `||` read the third register only when the second one leaves the result open.
def logicalAnd (m : Machine) (inst : Instruction) : Except Fault Machine := do
  let x ← m.dReg inst.r1
  if x = 0 then m.setDReg inst.r0 0
  else
    let y ← m.dReg inst.r2
    m.setDReg inst.r0 (truth (y != 0))

def logicalOr (m : Machine) (inst : Instruction) : Except Fault Machine := do
  let x ← m.dReg inst.r1
  if x != 0 then m.setDReg inst.r0 1
  else
    let y ← m.dReg inst.r2
    m.setDReg inst.r0 (truth (y != 0))

def divide (m : Machine) (inst : Instruction) : Except Fault Machine := do
  let x ← m.dReg inst.r1
  let y ← m.dReg inst.r2
  if y = 0 then .error .divideByZero else m.setDReg inst.r0 (x / y)

def jumpImmediateIf (m : Machine) (inst : Instruction) (f : Uint → Uint → Bool) :
    Except Fault Machine := do
  let x ← m.dReg inst.r1
  let y ← m.dReg inst.r2
  if f x y then return { m with pc := inst.storage.asI32.setWidth 64 } else return m

def jumpRegisterIf (m : Machine) (inst : Instruction) (f : Uint → Uint → Bool) :
    Except Fault Machine := do
  let x ← m.dReg inst.r1
  let y ← m.dReg inst.r2
  if f x y then
    let target ← m.dReg inst.r0
    return { m with pc := target.setWidth 64 }
  else return m

def push (m : Machine) (inst : Instruction) : Except Fault Machine := do
  let value ← m.dReg inst.r0
  let (memory, top) ← pushDecimal m.stackMemory m.stackTop value
  return { m with stackMemory := memory, stackTop := top }

def pop (m : Machine) (inst : Instruction) : Except Fault Machine := do
  let (value, top) ← popDecimal m.stackMemory m.stackTop
  { m with stackTop := top }.setDReg inst.r0 value

def startRecord (m : Machine) : Except Fault Machine := do
  let frameMemory ← record m.frameMemory m.frames m.stackTop
  return { m with frameMemory }

def enter (m : Machine) (inst : Instruction) : Except Fault Machine := do
  let (frameMemory, frames, pc) ←
    call m.frameMemory m.frames (m.pc + 1) m.stackTop (inst.storage.asI32.signExtend 64)
  return { m with frameMemory, frames, pc }.log (.call frames pc)

def returnToCaller (m : Machine) : Except Fault Machine :=
  if m.frames ≠ 0 then do
    let i ← frameIndex (m.frames - 1)
    let rip := (m.frameMemory i).rip
    return { m.log (.ret m.frames rip) with
      pc := rip - 1
      frameMemory := Function.update m.frameMemory i .zero
      frames := m.frames - 1 }
  else do
    let i ← frameIndex m.frames
    return { m with isRunning := false }.log (.rootRet m.frames (m.frameMemory i).rip)

def leave (m : Machine) (inst : Instruction) : Except Fault Machine := do
  let value ← m.dReg inst.r0
  { m with accumRegister := value }.returnToCaller

def print (host : Host) (m : Machine) : Except Fault Machine :=
  let fd := m.iregisters 0
  let buf := m.iregisters 1
  let len := m.iregisters 2
  if h : buf.toNat + len.toNat ≤ stackSize then
    let bytes := ByteMemory.slice m.stackMemory buf.toNat len.toNat h
    let r := host.write m.writes fd bytes
    if r ≠ 0 then
      .ok { m.log (.write fd buf len) with writes := m.writes ++ [⟨fd, bytes, r⟩] }
    else .error (.assertion "ERROR PERFORMING WRITE")
  else .error .stackOutOfBounds

def regDump (m : Machine) (inst : Instruction) : Except Fault Machine :=
  if m.coreLogger.isSome then do
    let value ← m.dReg inst.r0
    return m.log (.regDump inst.r0 value)
  else .ok m

def unsupported (m : Machine) : Machine :=
  { m with stderr := m.stderr ++ ["ERROR: UNSUPPORTED INSTRUCTION"] }

end Machine

def executeOpcode (host : Host) (m : Machine) (inst : Instruction) : Inst → Except Fault Machine
  | .iEntry => .error (.assertion "TODO: ENTRY IS CURRENTLY NOT USED")
  | .iHalt => .ok { m with isRunning := false }
  | .iPush => m.push inst
  | .iPop => m.pop inst
  | .iRec => m.startRecord
  | .iCall => m.enter inst
  | .iGetac => m.setDReg inst.r0 m.accumRegister
  | .iInc => do m.setDReg inst.r0 ((← m.dReg inst.r0) + 1)
  | .iDec => do m.setDReg inst.r0 ((← m.dReg inst.r0) - 1)
  | .iAdd => m.intOp inst (· + ·)
  | .iSub => m.intOp inst (· - ·)
  | .iMul => m.intOp inst (· * ·)
  | .iDiv => m.divide inst
  | .iFadd => m.floatOp inst host.fadd
  | .iFsub => m.floatOp inst host.fsub
  | .iFdiv => m.floatOp inst host.fdiv
  | .iFmul => m.floatOp inst host.fmul
  | .iDload => do m.setDReg inst.r0 (← loadDecimal m.stackMemory (← m.dReg inst.r1))
  -- The address is the register number itself, not the register's value.
  | .iFload => do m.setFReg inst.r0 (← loadFloat m.stackMemory (inst.r1.signExtend 32))
  | .iDsave => do
      let stackMemory ← saveDecimal m.stackMemory (← m.dReg inst.r1) (← m.dReg inst.r0)
      return { m with stackMemory }
  | .iFsave => do
      let stackMemory ← saveFloat m.stackMemory (← m.dReg inst.r1) (← m.fReg inst.r0)
      return { m with stackMemory }
  | .iFset => m.setFReg inst.r0 inst.storage.asF32
  | .iSet => m.setDReg inst.r0 inst.storage.asI32
  | .iAnd => m.logicalAnd inst
  | .iOr => m.logicalOr inst
  | .iCu2i => do m.setDReg inst.r0 (← m.dReg inst.r1)
  | .iCi2u => do m.setDReg inst.r0 (← m.dReg inst.r1)
  | .iCf2i => do m.setDReg inst.r0 (host.floatToInt (← m.fReg inst.r1))
  | .iCi2f => do m.setFReg inst.r0 (host.uintToFloat (← m.dReg inst.r1))
  | .iCu2f => do m.setFReg inst.r0 (host.uintToFloat (← m.dReg inst.r1))
  | .iCf2u => do m.setDReg inst.r0 (host.floatToUint (← m.fReg inst.r1))
  | .iCmpe => m.intOp inst fun x y => truth (x == y)
  | .iCmpeg => m.intOp inst fun x y => truth (y ≤ x)
  | .iCmpel => m.intOp inst fun x y => truth (x ≤ y)
  | .iCmpg => m.intOp inst fun x y => truth (y < x)
  | .iCmpl => m.intOp inst fun x y => truth (x < y)
  | .iFcmpe => m.floatCompare inst host.feq
  | .iFcmpeg => m.floatCompare inst host.fge
  | .iFcmpel => m.floatCompare inst host.fle
  | .iFcmpg => m.floatCompare inst host.fgt
  | .iFcmpl => m.floatCompare inst host.flt
  | .iJmp => .ok { m with pc := inst.storage.asI32.setWidth 64 }
  | .iEjmp => m.jumpImmediateIf inst (· == ·)
  | .iNejmp => m.jumpImmediateIf inst (· != ·)
  | .iRjmp => do return { m with pc := (← m.dReg inst.r0).setWidth 64 }
  | .iErjmp => m.jumpRegisterIf inst (· == ·)
  | .iNerjmp => m.jumpRegisterIf inst (· != ·)
  | .iPrint => m.print host
  | .iRegDump => m.regDump inst
  | .iRet => m.leave inst
  | .iNop => .ok m

def executeInst (host : Host) (m : Machine) (inst : Instruction) : Except Fault Machine :=
  match inst.decode with
  | some op => executeOpcode host m inst op
  | none => .ok m.unsupported

def executeOp (host : Host) (m : Machine) : Except Fault Machine := do
  let (inst, m) ← m.instNext
  executeInst host m inst

def vmLoop (host : Host) : GuardedLoop.Loop Machine Fault where
  guard := fun m => decide (m.pc < m.program.size) && m.isRunning
  body := executeOp host

-- The first `n` rounds of the loop of execute_program.
def executeProgram (host : Host) (n : Nat) (m : Machine) : Except Fault Machine :=
  (vmLoop host).run n m

end CAt
