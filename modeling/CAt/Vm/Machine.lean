import CAt.Library.ByteMemory
import CAt.Vm.InstructionSet
import Mathlib.Logic.Function.Basic

namespace CAt

abbrev intRegCount : Nat := 16
abbrev fltRegCount : Nat := 16
abbrev frameCount : Nat := 128
abbrev stackSize : Nat := 16384

abbrev Stack := ByteMemory.Memory stackSize

-- An array of 16-byte records: its length stays below 2 ^ 60 in a 64-bit address space.
structure Program where
  code : List Instruction
  size_lt : code.length < 2 ^ 60

namespace Program

def size (p : Program) : SizeT := BitVec.ofNat 64 p.code.length

@[simp] theorem size_toNat (p : Program) : p.size.toNat = p.code.length := by
  have := p.size_lt
  simp only [size, BitVec.toNat_ofNat]
  omega

def empty : Program := ⟨[], by decide⟩

def oneCall : Program := ⟨[Build.call 2, Build.halt, Build.ret 0], by decide⟩

end Program

structure CallFrame where
  rip : SizeT
  bfp : Uint
  lvp : Uint
deriving DecidableEq, Repr

def CallFrame.zero : CallFrame := ⟨0, 0, 0⟩

structure WriteCall where
  fd : Uint
  bytes : List Byte
  result : Int
deriving DecidableEq, Repr

inductive LogLine where
  | call (frames ip : SizeT)
  | write (stream buffer length : Uint)
  | regDump (register : Byte) (value : Uint)
  | ret (frames ip : SizeT)
  | rootRet (frames ip : SizeT)
deriving DecidableEq, Repr

inductive Fault where
  | programOutOfBounds
  | registerOutOfBounds
  | stackOutOfBounds
  | frameOutOfBounds
  | divideByZero
  | assertion (message : String)
deriving DecidableEq, Repr

-- What the repository takes from the C implementation and the system: float arithmetic on
-- bit patterns, `atof`, and `write`, whose result may depend on the calls made before.
structure Host where
  fadd : Float32Bits → Float32Bits → Float32Bits
  fsub : Float32Bits → Float32Bits → Float32Bits
  fmul : Float32Bits → Float32Bits → Float32Bits
  fdiv : Float32Bits → Float32Bits → Float32Bits
  feq : Float32Bits → Float32Bits → Bool
  fge : Float32Bits → Float32Bits → Bool
  fle : Float32Bits → Float32Bits → Bool
  fgt : Float32Bits → Float32Bits → Bool
  flt : Float32Bits → Float32Bits → Bool
  floatToInt : Float32Bits → Uint
  floatToUint : Float32Bits → Uint
  uintToFloat : Uint → Float32Bits
  atof : List Char → Float32Bits
  write : List WriteCall → Uint → List Byte → Int

def Host.integer : Host where
  fadd _ _ := 0
  fsub _ _ := 0
  fmul _ _ := 0
  fdiv _ _ := 0
  feq _ _ := false
  fge _ _ := false
  fle _ _ := false
  fgt _ _ := false
  flt _ _ := false
  floatToInt _ := 0
  floatToUint _ := 0
  uintToFloat _ := 0
  atof _ := 0
  write _ _ bytes := bytes.length

structure Globals where
  dRegisters : Fin intRegCount → Uint
  fRegisters : Fin fltRegCount → Float32Bits
  stack : Stack

def Globals.zero : Globals where
  dRegisters := fun _ => 0
  fRegisters := fun _ => 0
  stack := fun _ => 0

structure Machine where
  pc : SizeT
  program : Program
  iregisters : Fin intRegCount → Uint
  fregisters : Fin fltRegCount → Float32Bits
  accumRegister : Uint
  frames : SizeT
  stackTop : SizeT
  frameMemory : Fin frameCount → CallFrame
  stackMemory : Stack
  isRunning : Bool
  coreLogger : Option (List LogLine)
  writes : List WriteCall
  stderr : List String

-- D_REGISTERS, F_REGISTERS and STACK are global arrays: a machine starts on what they hold.
def initMachine (g : Globals) (p : Program) : Machine where
  pc := 0
  program := p
  iregisters := g.dRegisters
  fregisters := g.fRegisters
  accumRegister := 0
  frames := 0
  stackTop := 0
  frameMemory := fun _ => .zero
  stackMemory := g.stack
  isRunning := true
  coreLogger := none
  writes := []
  stderr := []

def regIndex (r : Byte) : Except Fault (Fin intRegCount) :=
  if h : r.toNat < intRegCount then .ok ⟨r.toNat, h⟩ else .error .registerOutOfBounds

theorem zero_lt_intRegCount : 0 < intRegCount := by decide

theorem one_lt_intRegCount : 1 < intRegCount := by decide

theorem two_lt_intRegCount : 2 < intRegCount := by decide

theorem three_lt_intRegCount : 3 < intRegCount := by decide

def frameIndex (i : SizeT) : Except Fault (Fin frameCount) :=
  if h : i.toNat < frameCount then .ok ⟨i.toNat, h⟩ else .error .frameOutOfBounds

theorem frames_succ {frames : SizeT} (room : frames.toNat < frameCount) :
    (frames + 1).toNat = frames.toNat + 1 := by
  simp only [frameCount] at room
  bv_omega

theorem frames_pred {frames : SizeT} (live : frames ≠ 0) :
    frames.toNat = (frames - 1).toNat + 1 := by
  bv_omega

namespace Machine

def globals (m : Machine) : Globals := ⟨m.iregisters, m.fregisters, m.stackMemory⟩

def dReg (m : Machine) (r : Byte) : Except Fault Uint := do
  let i ← regIndex r
  return m.iregisters i

def fReg (m : Machine) (r : Byte) : Except Fault Float32Bits := do
  let i ← regIndex r
  return m.fregisters i

def setDReg (m : Machine) (r : Byte) (v : Uint) : Except Fault Machine := do
  let i ← regIndex r
  return { m with iregisters := Function.update m.iregisters i v }

def setFReg (m : Machine) (r : Byte) (v : Float32Bits) : Except Fault Machine := do
  let i ← regIndex r
  return { m with fregisters := Function.update m.fregisters i v }

def log (m : Machine) (line : LogLine) : Machine :=
  { m with coreLogger := m.coreLogger.map (· ++ [line]) }

def instNext (m : Machine) : Except Fault (Instruction × Machine) :=
  match m.program.code[m.pc.toNat]? with
  | some inst => .ok (inst, { m with pc := m.pc + 1 })
  | none => .error .programOutOfBounds

end Machine

def copyIn (memory : Stack) (offset : Nat) (value : BitVec 32) : Except Fault Stack :=
  if offset + 4 ≤ stackSize then .ok (ByteMemory.store memory offset value)
  else .error .stackOutOfBounds

def copyOut (memory : Stack) (offset : Nat) : Except Fault (BitVec 32) :=
  if h : offset + 4 ≤ stackSize then .ok (ByteMemory.load memory offset h)
  else .error .stackOutOfBounds

def pushDecimal (memory : Stack) (top : SizeT) (value : Uint) : Except Fault (Stack × SizeT) := do
  let memory ← copyIn memory (top + 4).toNat value
  return (memory, top + 4)

def popDecimal (memory : Stack) (top : SizeT) : Except Fault (Uint × SizeT) := do
  let value ← copyOut memory top.toNat
  return (value, top - 4)

def loadDecimal (memory : Stack) (address : Uint) : Except Fault Uint :=
  copyOut memory address.toNat

def saveDecimal (memory : Stack) (address : Uint) (value : Uint) : Except Fault Stack :=
  copyIn memory address.toNat value

def loadFloat (memory : Stack) (address : Uint) : Except Fault Float32Bits :=
  copyOut memory address.toNat

def saveFloat (memory : Stack) (address : Uint) (value : Float32Bits) : Except Fault Stack :=
  copyIn memory address.toNat value

def record (cframe : Fin frameCount → CallFrame) (frames addr : SizeT) :
    Except Fault (Fin frameCount → CallFrame) := do
  let i ← frameIndex frames
  return Function.update cframe i { rip := 0, bfp := addr.setWidth 32, lvp := 0 }

def call (cframe : Fin frameCount → CallFrame) (frames pc addr jmpAddr : SizeT) :
    Except Fault ((Fin frameCount → CallFrame) × SizeT × SizeT) := do
  let i ← frameIndex frames
  return (Function.update cframe i { rip := pc, bfp := 0, lvp := addr.setWidth 32 },
    frames + 1, jmpAddr)

end CAt
