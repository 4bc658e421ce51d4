import Mathlib.Data.Vector.Basic

namespace CAt

abbrev Byte := BitVec 8
abbrev Uint := BitVec 32
abbrev SizeT := BitVec 64
abbrev Float32Bits := BitVec 32

inductive Inst where
  | iHalt | iEntry
  | iDload | iFload | iDsave | iFsave
  | iSet | iFset
  | iPush | iPop
  | iRec | iCall | iGetac
  | iInc | iDec
  | iAdd | iSub | iDiv | iMul
  | iFadd | iFsub | iFdiv | iFmul
  | iAnd | iOr
  | iCu2i | iCi2u | iCf2i | iCi2f | iCu2f | iCf2u
  | iCmpe | iCmpeg | iCmpel | iCmpg | iCmpl
  | iFcmpe | iFcmpeg | iFcmpel | iFcmpg | iFcmpl
  | iJmp | iEjmp | iNejmp
  | iRjmp | iErjmp | iNerjmp
  | iPrint | iRegDump | iRet | iNop
deriving DecidableEq, Repr

namespace Inst

def all : List Inst :=
  [iHalt, iEntry, iDload, iFload, iDsave, iFsave, iSet, iFset, iPush, iPop, iRec, iCall, iGetac,
    iInc, iDec, iAdd, iSub, iDiv, iMul, iFadd, iFsub, iFdiv, iFmul, iAnd, iOr,
    iCu2i, iCi2u, iCf2i, iCi2f, iCu2f, iCf2u, iCmpe, iCmpeg, iCmpel, iCmpg, iCmpl,
    iFcmpe, iFcmpeg, iFcmpel, iFcmpg, iFcmpl, iJmp, iEjmp, iNejmp, iRjmp, iErjmp, iNerjmp,
    iPrint, iRegDump, iRet, iNop]

-- The enumerators carry no explicit values, so each one is its position in the enum.
def code (i : Inst) : Nat := i.ctorIdx

def ofCode (n : Nat) : Option Inst := all[n]?

theorem ofCode_code (i : Inst) : ofCode i.code = some i := by
  cases i <;> rfl

theorem code_lt (i : Inst) : i.code < 51 := by
  cases i <;> decide

theorem code_get_all : ∀ k : Fin all.length, (all.get k).code = k.val := by decide

theorem code_of_ofCode {n : Nat} {i : Inst} (h : ofCode n = some i) : i.code = n := by
  obtain ⟨hn, hi⟩ := List.getElem?_eq_some_iff.mp h
  exact hi ▸ code_get_all ⟨n, hn⟩

theorem code_injective {i j : Inst} (h : i.code = j.code) : i = j :=
  Option.some.inj ((ofCode_code i).symm.trans ((congrArg ofCode h).trans (ofCode_code j)))

end Inst

abbrev UniformStrg := BitVec 64

namespace UniformStrg

def asI32 (s : UniformStrg) : BitVec 32 := s.setWidth 32

def asF32 (s : UniformStrg) : Float32Bits := s.setWidth 32

def ofI32 (v : BitVec 32) : UniformStrg := v.setWidth 64

def ofF32 (v : Float32Bits) : UniformStrg := v.setWidth 64

@[simp] theorem asI32_ofI32 (v : BitVec 32) : asI32 (ofI32 v) = v := by
  simp [asI32, ofI32]

end UniformStrg

structure Instruction where
  operation : BitVec 32
  argumentReg : Vector Byte 3
  storage : UniformStrg
deriving DecidableEq, Repr

namespace Instruction

-- `byte op = inst.operation` keeps the low byte, and `(Inst) op` is an enumerator only when
-- that byte, read as signed, is one.
def decode (inst : Instruction) : Option Inst :=
  Inst.ofCode (inst.operation.setWidth 8).toNat

def r0 (inst : Instruction) : Byte := inst.argumentReg[0]
def r1 (inst : Instruction) : Byte := inst.argumentReg[1]
def r2 (inst : Instruction) : Byte := inst.argumentReg[2]

end Instruction

-- The constructor macros of set.h; operands a macro does not mention are zero.
namespace Build

def operands (op : Inst) (r0 r1 r2 : Byte) (storage : UniformStrg) : Instruction where
  operation := BitVec.ofNat 32 op.code
  argumentReg := #v[r0, r1, r2]
  storage := storage

@[simp] theorem decode_operands (op : Inst) (r0 r1 r2 : Byte) (storage : UniformStrg) :
    (operands op r0 r1 r2 storage).decode = some op := by
  cases op <;> rfl

def fset (r : Byte) (s : Float32Bits) : Instruction := operands .iFset r 0 0 (.ofF32 s)
def set (r : Byte) (s : BitVec 32) : Instruction := operands .iSet r 0 0 (.ofI32 s)
def push (r0 : Byte) : Instruction := operands .iPush r0 0 0 0
def pop (r0 : Byte) : Instruction := operands .iPop r0 0 0 0
def rec : Instruction := operands .iRec 0 0 0 0
def call (addr : BitVec 32) : Instruction := operands .iCall 0 0 0 (.ofI32 addr)
def getac (reg : Byte) : Instruction := operands .iCall reg 0 0 0
def dload (r0 r1 : Byte) : Instruction := operands .iDload r0 r1 0 0
def fload (r0 r1 : Byte) : Instruction := operands .iFload r0 r1 0 0
def dsave (r0 r1 : Byte) : Instruction := operands .iDsave r0 r1 0 0
def fsave (r0 r1 : Byte) : Instruction := operands .iFsave r0 r1 0 0
def inc (r0 : Byte) : Instruction := operands .iInc r0 0 0 0
def dec (r0 : Byte) : Instruction := operands .iDec r0 0 0 0
def add (r0 r1 r2 : Byte) : Instruction := operands .iAdd r0 r1 r2 0
def fadd (r0 r1 r2 : Byte) : Instruction := operands .iFadd r0 r1 r2 0
def sub (r0 r1 r2 : Byte) : Instruction := operands .iSub r0 r1 r2 0
def fsub (r0 r1 r2 : Byte) : Instruction := operands .iFsub r0 r1 r2 0
def div (r0 r1 r2 : Byte) : Instruction := operands .iDiv r0 r1 r2 0
def fdiv (r0 r1 r2 : Byte) : Instruction := operands .iFdiv r0 r1 r2 0
def mul (r0 r1 r2 : Byte) : Instruction := operands .iMul r0 r1 r2 0
def fmul (r0 r1 r2 : Byte) : Instruction := operands .iFmul r0 r1 r2 0
def and (r0 r1 r2 : Byte) : Instruction := operands .iAnd r0 r1 r2 0
def or (r0 r1 r2 : Byte) : Instruction := operands .iOr r0 r1 r2 0
def cu2i (r0 r1 : Byte) : Instruction := operands .iCu2i r0 r1 0 0
def ci2u (r0 r1 : Byte) : Instruction := operands .iCi2u r0 r1 0 0
def cf2i (r0 r1 : Byte) : Instruction := operands .iCf2i r0 r1 0 0
def ci2f (r0 r1 : Byte) : Instruction := operands .iCi2f r0 r1 0 0
def cu2f (r0 r1 : Byte) : Instruction := operands .iCu2f r0 r1 0 0
def cf2u (r0 r1 : Byte) : Instruction := operands .iCf2u r0 r1 0 0
def cmpe (r0 r1 r2 : Byte) : Instruction := operands .iCmpe r0 r1 r2 0
def cmpeg (r0 r1 r2 : Byte) : Instruction := operands .iCmpeg r0 r1 r2 0
def cmpel (r0 r1 r2 : Byte) : Instruction := operands .iCmpel r0 r1 r2 0
def cmpg (r0 r1 r2 : Byte) : Instruction := operands .iCmpg r0 r1 r2 0
def cmpl (r0 r1 r2 : Byte) : Instruction := operands .iCmpl r0 r1 r2 0
def fcmpe (r0 r1 r2 : Byte) : Instruction := operands .iFcmpe r0 r1 r2 0
def fcmpeg (r0 r1 r2 : Byte) : Instruction := operands .iFcmpeg r0 r1 r2 0
def fcmpel (r0 r1 r2 : Byte) : Instruction := operands .iFcmpel r0 r1 r2 0
def fcmpg (r0 r1 r2 : Byte) : Instruction := operands .iFcmpg r0 r1 r2 0
def fcmpl (r0 r1 r2 : Byte) : Instruction := operands .iFcmpl r0 r1 r2 0
def rjmp (r : Byte) : Instruction := operands .iJmp r 0 0 0
def erjmp (r0 r1 r2 : Byte) : Instruction := operands .iEjmp r0 r1 r2 0
def nerjmp (r0 r1 r2 : Byte) : Instruction := operands .iNejmp r0 r1 r2 0
def jmp (s : BitVec 32) : Instruction := operands .iJmp 0 0 0 (.ofI32 s)
def ejmp (a : BitVec 32) (r0 r1 : Byte) : Instruction := operands .iEjmp r0 r1 0 (.ofI32 a)
def nejmp (a : BitVec 32) (r0 r1 : Byte) : Instruction := operands .iNejmp r0 r1 0 (.ofI32 a)
def regDump (r0 : Byte) : Instruction := operands .iRegDump r0 0 0 0
def print : Instruction := operands .iPrint 0 0 0 0
def halt : Instruction := operands .iHalt 0 0 0 0
def ret (r0 : Byte) : Instruction := operands .iRet r0 0 0 0

end Build

end CAt
