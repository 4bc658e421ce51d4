import CAt.Assembler.Tokenizer
import CAt.Vm.Machine

namespace CAt

def keywords : List (List Char) :=
  [['h', 'a', 'l', 't'], ['e', 'n', 't', 'r', 'y'],
    ['d', 'l', 'o', 'a', 'd'], ['f', 'l', 'o', 'a', 'd'],
    ['d', 's', 'a', 'v', 'e'], ['f', 's', 'a', 'v', 'e'],
    ['s', 'e', 't'], ['f', 's', 'e', 't'], ['p', 'u', 's', 'h'], ['p', 'o', 'p'],
    ['r', 'e', 'c'], ['c', 'a', 'l', 'l'], ['g', 'e', 't', 'a', 'c'],
    ['i', 'n', 'c'], ['d', 'e', 'c'],
    ['a', 'd', 'd'], ['s', 'u', 'b'], ['d', 'i', 'v'], ['m', 'u', 'l'],
    ['f', 'a', 'd', 'd', ' '], ['f', 's', 'u', 'b'], ['f', 'd', 'i', 'v'], ['f', 'm', 'u', 'l'],
    ['a', 'n', 'd'], ['o', 'r'],
    ['c', 'u', '2', 'i'], ['c', 'i', '2', 'u'], ['c', 'f', '2', 'i'], ['c', 'i', '2', 'f'],
    ['c', 'u', '2', 'f'], ['c', 'f', '2', 'u'],
    ['c', 'm', 'p', 'e'], ['c', 'm', 'p', 'e', 'g'], ['c', 'm', 'p', 'e', 'l'],
    ['c', 'm', 'p', 'g'], ['c', 'm', 'p', 'l'],
    ['f', 'c', 'm', 'p', 'e'], ['f', 'c', 'm', 'p', 'e', 'g'], ['f', 'c', 'm', 'p', 'e', 'l'],
    ['f', 'c', 'm', 'p', 'g'], ['f', 'c', 'm', 'p', 'l'],
    ['j', 'm', 'p'], ['e', 'j', 'm', 'p'], ['n', 'e', 'j', 'm', 'p'],
    ['r', 'j', 'm', 'p'], ['e', 'r', 'j', 'm', 'p'], ['n', 'e', 'r', 'j', 'm', 'p'],
    ['p', 'r', 'i', 'n', 't'], ['r', 'e', 'g', 'd', 'u', 'm', 'p'], ['r', 'e', 't'],
    ['n', 'o', 'p']]

inductive LineFault where
  | assertion (message : String)
  | nullString
  | prefixOverflow
  | numberOverflow
  | regsOverflow
deriving DecidableEq, Repr

-- Every other fault is undefined behaviour, after which C promises nothing.
def LineFault.isAssertion : LineFault → Bool
  | .assertion _ => true
  | .nullString | .prefixOverflow | .numberOverflow | .regsOverflow => false

-- `valueLiterall` is the union of `f32` and `dec`.
structure Reg where
  isRegN : Bool
  regN : Byte
  isValue : Bool
  isFloat : Bool
  isLabel : Bool
  errorId : Byte
  valueLiterall : BitVec 32
  valueLabel : Option (List Char)
deriving DecidableEq, Repr

def Reg.zero : Reg := ⟨false, 0, false, false, false, 0, 0, none⟩

structure Label where
  name : Option (List Char)
  address : Uint
deriving DecidableEq, Repr

def isKeyword (keyword : List Char) : Option Nat := keywords.findIdx? (· == keyword)

def isDecimal (str : List Char) : Bool := str.all fun c => isNumber c || c == '-'

def isFloat (str : List Char) : Bool := str.all fun c => isNumber c && c != '-' && c != '.'

def isBlank (c : Char) : Bool :=
  c == ' ' || c == '\t' || c == '\n' || c == '\x0b' || c == '\x0c' || c == '\r'

def atoiDigits : Nat → List Char → Nat
  | acc, [] => acc
  | acc, c :: cs => if isNumber c then atoiDigits (acc * 10 + (c.toNat - '0'.toNat)) cs else acc

-- The C library's atoi, on strings whose value fits an int.
def atoi (str : List Char) : Int :=
  match str.dropWhile isBlank with
  | '-' :: cs => -(atoiDigits 0 cs : Int)
  | '+' :: cs => atoiDigits 0 cs
  | cs => atoiDigits 0 cs

def getDecimalValue (str : List Char) : Uint := BitVec.ofInt 32 (atoi str)

def getFloatValue (host : Host) (str : List Char) : Float32Bits := host.atof str

def prefixSize : Nat := 3
def numberSize : Nat := 9

def parseNumber (r : Reg) (number : List Char) : Except LineFault Reg :=
  if number.length < numberSize then .ok { r with regN := BitVec.ofInt 8 (atoi number) }
  else .error .numberOverflow

-- `r` holds what the uninitialised local structure holds when the call starts.
def parseReg (host : Host) (r : Reg) (str : List Char) : Except LineFault Reg :=
  let r :=
    if str.length < 2 then { r with errorId := -1 }
    else if str.length ≥ prefixSize then { r with errorId := -2 }
    else r
  if str.length > prefixSize + 1 then .error .prefixOverflow
  else if str = ['f', 'r'] then
    parseNumber { r with isFloat := true, isRegN := true } (str.drop 2)
  else if str.head? = some 'r' then
    parseNumber { r with isRegN := true, isFloat := false, isValue := false } (str.drop 1)
  else if str.head? = some 'L' then
    if str.length > 1 then
      parseNumber { r with
        isRegN := false, isFloat := false, isLabel := true, valueLabel := some str } []
    else .error (.assertion ("You trying to reference a label? " ++
      "Label has to have at least one character in a name!"))
  else if isDecimal str then
    parseNumber { r with
      isRegN := false, isValue := true, isFloat := false, valueLiterall := getDecimalValue str } []
  else if isFloat str then
    parseNumber { r with
      isRegN := false, isValue := true, isFloat := true,
      valueLiterall := getFloatValue host str } []
  else parseNumber { r with isRegN := false, isValue := true } []

def getInstuctionCount : Inst → Nat
  | .iHalt | .iEntry | .iRec => 0
  | .iInc | .iDec | .iRegDump | .iJmp | .iRet | .iPop | .iPush | .iCall | .iGetac => 1
  | .iSet | .iFset | .iCu2i | .iCi2u | .iCf2i | .iCi2f | .iCu2f | .iCf2u => 2
  | .iAdd | .iFadd | .iSub | .iFsub | .iMul | .iFmul | .iDiv | .iFdiv | .iAnd | .iOr
  | .iEjmp | .iNejmp | .iErjmp | .iNerjmp
  | .iCmpg | .iCmpl | .iCmpeg | .iCmpel | .iCmpe
  | .iFcmpg | .iFcmpl | .iFcmpeg | .iFcmpel | .iFcmpe => 3
  | _ => 0

def isFloatInstr : Inst → Bool
  | .iFadd | .iFsub | .iFmul | .iFdiv | .iFset | .iFload | .iFsave => true
  | _ => false

-- The constructor macros of set.h take register numbers as bytes.
def toReg (arg : Uint) : Byte := arg.setWidth 8

def assemble (i : Inst) (arg0 arg1 arg2 _arg3 : Uint) (fval : Float32Bits) (dval : Uint) :
    Instruction :=
  match i with
  | .iSet => Build.set (toReg arg0) dval
  | .iFset => Build.fset (toReg arg0) fval
  | .iPush => Build.push (toReg arg0)
  | .iPop => Build.pop (toReg arg0)
  | .iRec => Build.rec
  | .iCall => Build.call dval
  | .iGetac => Build.getac (toReg arg0)
  | .iDload => Build.dload (toReg arg0) (toReg dval)
  | .iFload => Build.fload (toReg arg0) (toReg dval)
  | .iDsave => Build.dsave (toReg arg0) (toReg dval)
  | .iFsave => Build.fsave (toReg arg0) (toReg dval)
  | .iInc => Build.inc (toReg arg0)
  | .iDec => Build.dec (toReg arg0)
  | .iAdd => Build.add (toReg arg0) (toReg arg1) (toReg arg2)
  | .iSub => Build.sub (toReg arg0) (toReg arg1) (toReg arg2)
  | .iDiv => Build.div (toReg arg0) (toReg arg1) (toReg arg2)
  | .iMul => Build.mul (toReg arg0) (toReg arg1) (toReg arg2)
  | .iFadd => Build.fadd (toReg arg0) (toReg arg1) (toReg arg2)
  | .iFsub => Build.fsub (toReg arg0) (toReg arg1) (toReg arg2)
  | .iFdiv => Build.fdiv (toReg arg0) (toReg arg1) (toReg arg2)
  | .iFmul => Build.fmul (toReg arg0) (toReg arg1) (toReg arg2)
  | .iAnd => Build.and (toReg arg0) (toReg arg1) (toReg arg2)
  | .iOr => Build.or (toReg arg0) (toReg arg1) (toReg arg2)
  | .iCu2i => Build.cu2i (toReg arg0) (toReg arg1)
  | .iCi2u => Build.ci2u (toReg arg0) (toReg arg1)
  | .iCf2i => Build.cf2i (toReg arg0) (toReg arg1)
  | .iCi2f => Build.ci2f (toReg arg0) (toReg arg1)
  | .iCu2f => Build.cu2f (toReg arg0) (toReg arg1)
  | .iCf2u => Build.cf2u (toReg arg0) (toReg arg1)
  | .iCmpg => Build.cmpg (toReg arg0) (toReg arg1) (toReg arg2)
  | .iCmpl => Build.cmpl (toReg arg0) (toReg arg1) (toReg arg2)
  | .iCmpeg => Build.cmpeg (toReg arg0) (toReg arg1) (toReg arg2)
  | .iCmpel => Build.cmpel (toReg arg0) (toReg arg1) (toReg arg2)
  | .iCmpe => Build.cmpe (toReg arg0) (toReg arg1) (toReg arg2)
  | .iFcmpg => Build.fcmpg (toReg arg0) (toReg arg1) (toReg arg2)
  | .iFcmpl => Build.fcmpl (toReg arg0) (toReg arg1) (toReg arg2)
  | .iFcmpeg => Build.fcmpeg (toReg arg0) (toReg arg1) (toReg arg2)
  | .iFcmpel => Build.fcmpel (toReg arg0) (toReg arg1) (toReg arg2)
  | .iFcmpe => Build.fcmpe (toReg arg0) (toReg arg1) (toReg arg2)
  | .iRjmp => Build.rjmp (toReg dval)
  | .iErjmp => Build.erjmp (toReg arg0) (toReg arg1) (toReg arg2)
  | .iNerjmp => Build.nerjmp (toReg arg0) (toReg arg1) (toReg arg2)
  | .iJmp => Build.jmp dval
  | .iEjmp => Build.ejmp dval (toReg arg1) (toReg arg2)
  | .iNejmp => Build.nejmp dval (toReg arg1) (toReg arg2)
  | .iPrint => Build.print
  | .iRegDump => Build.regDump (toReg arg0)
  | .iHalt => Build.halt
  | .iEntry => Build.halt
  | .iRet => Build.ret (toReg arg0)
  -- I_NOP breaks out of the switch to the final `return HALT()`.
  | .iNop => Build.halt

def searchLabel (label : List Char) : List Label → Except LineFault (Option Uint)
  | [] => .ok none
  | l :: ls =>
    match l.name with
    | none => .error .nullString
    | some name => if name = label then .ok (some l.address) else searchLabel label ls

-- The result is `none` where the source sets `*error`.
def findLabel (r : Reg) (labels : List Label) : Except LineFault (Option Uint) :=
  match r.valueLabel with
  | none => .error .nullString
  | some valueLabel =>
    if valueLabel.length ≥ 2 then searchLabel (valueLabel.drop 1) labels
    else .error (.assertion "LABEL HAS TO BE AT LEAST 1 char")

structure Operands where
  regs : Fin 4 → Uint
  fvalue : Float32Bits
  dvalue : Uint

def Operands.zero : Operands := ⟨fun _ => 0, 0, 0⟩

-- `t` counts the operands from 0, so it is the `t - 1` of the source.
def readOperand (host : Host) (junk : Nat → Reg) (labels : List Label) (type : Inst)
    (acc : Operands) (operand : Token × Nat) : Except LineFault Operands := do
  let (token, t) := operand
  match token.literall with
  | none => .error .nullString
  | some word =>
    let r ← parseReg host (junk t) word
    if r.isValue && (r.isFloat || isFloatInstr type) then
      return { acc with fvalue := host.uintToFloat r.valueLiterall }
    else if r.isValue && !r.isFloat then
      return { acc with dvalue := r.valueLiterall }
    else if r.isLabel && !r.isValue && !r.isRegN then
      match ← findLabel r labels with
      | some address => return { acc with dvalue := address }
      | none => .error (.assertion "Label was not found!")
    else if h : t < 4 then
      return { acc with regs := Function.update acc.regs ⟨t, h⟩ (r.regN.signExtend 32) }
    else .error .regsOverflow

-- Every iteration over the operands tests the same count; when it does not fit, the source
-- only prints a message and keeps the zeroes.
def readOperands (host : Host) (junk : Nat → Reg) (labels : List Label) (type : Inst)
    (operands : List Token) : Except LineFault Operands :=
  if getInstuctionCount type = operands.length then
    operands.zipIdx.foldlM (readOperand host junk labels type) .zero
  else .ok .zero

def assembleLine (host : Host) (junk : Nat → Reg) (labels : List Label) (instTk : List Token) :
    Except LineFault Instruction :=
  match instTk with
  | [] => .error .nullString
  | first :: operands =>
    match first.literall with
    | none => .error (.assertion "ERROR: instruction token value cannot be zero")
    | some keyword =>
      match (isKeyword keyword).bind Inst.ofCode with
      | none => .error (.assertion "ERROR: FIRST SYMBOL SHOULD BE A AN INSTRUCTION NAME.\n")
      | some type => do
        let acc ← readOperands host junk labels type operands
        return assemble type (acc.regs 0) (acc.regs 1) (acc.regs 2) (acc.regs 3) acc.fvalue
          acc.dvalue

theorem assembleLine_of_keyword {host : Host} {junk : Nat → Reg} {labels : List Label}
    {first : Token} {operands : List Token} {keyword : List Char} {type : Inst}
    (hfirst : first.literall = some keyword)
    (htype : (isKeyword keyword).bind Inst.ofCode = some type) :
    assembleLine host junk labels (first :: operands) = (do
      let acc ← readOperands host junk labels type operands
      return assemble type (acc.regs 0) (acc.regs 1) (acc.regs 2) (acc.regs 3) acc.fvalue
        acc.dvalue) := by
  simp only [assembleLine, hfirst, htype]

end CAt
