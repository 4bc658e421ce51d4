import CAt.Library.Printf
import CAt.Vm.InstructionSet

namespace CAt

open Printf (Piece decimal)

-- What a conversion of print_instruction_asm prints; `sizeT` is as_i32 cast to size_t.
inductive Operand where
  | r0 | r1 | r2 | asI32 | sizeT | asF32
deriving DecidableEq, Repr

def Operand.value (inst : Instruction) : Operand → Int
  | .r0 => inst.r0.toInt
  | .r1 => inst.r1.toInt
  | .r2 => inst.r2.toInt
  | .asI32 => inst.storage.asI32.toInt
  | .sizeT => (inst.storage.asI32.signExtend 64).toNat
  | .asF32 => inst.storage.asF32.toInt

def Operand.print (formatFloat : Float32Bits → List Char) (inst : Instruction) :
    Operand → List Char
  | .asF32 => formatFloat inst.storage.asF32
  | operand => decimal (operand.value inst)

def asmFormat : Inst → Option (List (Piece Operand))
  | .iHalt => some [.text "\n\thalt"]
  | .iInc => some [.text "\n\tinc @r", .arg .r0]
  | .iPush => some [.text "\n\tpush @r", .arg .r0]
  | .iPop => some [.text "\n\tpop @r", .arg .r0]
  | .iCall => some [.text "\n\tcall @address(", .arg .sizeT, .text ")"]
  | .iRec => some [.text "\n\trec "]
  | .iGetac => some [.text "\n\tgetac @r", .arg .r0]
  | .iDec => some [.text "\n\tdec @r", .arg .r0]
  | .iAdd => some [.text "\n\tadd @r", .arg .r0, .text ", @r", .arg .r1, .text ", @r", .arg .r2]
  | .iSub => some [.text "\n\tsub @r", .arg .r0, .text ", @r", .arg .r1, .text ", @r", .arg .r2]
  | .iMul => some [.text "\n\tmul @r", .arg .r0, .text ", @r", .arg .r1, .text ", @r", .arg .r2]
  | .iDiv => some [.text "\n\tdiv @r", .arg .r0, .text ", @r", .arg .r1, .text ", @r", .arg .r2]
  | .iFadd =>
    some [.text "\n\tfadd @fr", .arg .r0, .text ", @fr", .arg .r1, .text ", @fr", .arg .r2]
  | .iFsub =>
    some [.text "\n\tfsub @fr", .arg .r0, .text ", @fr", .arg .r1, .text ", @fr", .arg .r2]
  | .iFdiv =>
    some [.text "\n\tfdiv @fr", .arg .r0, .text ", @fr", .arg .r1, .text ", @fr", .arg .r2]
  | .iFmul =>
    some [.text "\n\tfmul @fr", .arg .r0, .text ", @fr", .arg .r1, .text ", @fr", .arg .r2]
  | .iDload => some [.text "\n\tdload @r", .arg .r0, .text ", @r", .arg .r1]
  | .iFload => some [.text "\n\tfload @r", .arg .r0, .text ", @r", .arg .r1]
  | .iDsave => some [.text "\n\tdsave @r", .arg .r0, .text ", @r", .arg .r1]
  | .iFsave => some [.text "\n\tfsave @r", .arg .r0, .text ", @r", .arg .r1]
  | .iFset => some [.text "\n\tfset @r", .arg .r0, .text ", $(", .arg .asF32, .text ")"]
  | .iSet => some [.text "\n\tset @r", .arg .r0, .text ", $(", .arg .asI32, .text ")"]
  | .iAnd => some [.text "\n\tand @r", .arg .r0, .text ", @r", .arg .r1, .text ", @r", .arg .r2]
  | .iOr => some [.text "\n\tor @r", .arg .r0, .text ", @r", .arg .r1, .text ", @r", .arg .r2]
  | .iCu2i => some [.text "\n\tcu2i @r", .arg .r0, .text ", @r", .arg .r1]
  | .iCi2u => some [.text "\n\tci2u @r", .arg .r0, .text ", @r", .arg .r1]
  | .iCf2i => some [.text "\n\tcf2i @r", .arg .r0, .text ", @fr", .arg .r1]
  | .iCi2f => some [.text "\n\tci2f @fr", .arg .r0, .text ", @r", .arg .r1]
  | .iCu2f => some [.text "\n\tcu2f @fr", .arg .r0, .text ", @r", .arg .r1]
  | .iCf2u => some [.text "\n\tcf2u @r", .arg .r0, .text ", @fr", .arg .r1]
  | .iCmpe => some [.text "\n\tcmpe @r", .arg .r0, .text ", @r", .arg .r1, .text ", @r", .arg .r2]
  | .iCmpeg =>
    some [.text "\n\tcmpeg @r", .arg .r0, .text ", @r", .arg .r1, .text ", @r", .arg .r2]
  | .iCmpel =>
    some [.text "\n\tcmpel @r", .arg .r0, .text ", @r", .arg .r1, .text ", @r", .arg .r2]
  | .iCmpg => some [.text "\n\tcmpg @r", .arg .r0, .text ", @r", .arg .r1, .text ", @r", .arg .r2]
  | .iCmpl => some [.text "\n\tcmpl @r", .arg .r0, .text ", @r", .arg .r1, .text ", @r", .arg .r2]
  | .iFcmpe =>
    some [.text "\n\tfcmpe @r", .arg .r0, .text ", @fr", .arg .r1, .text ", @fr", .arg .r2]
  | .iFcmpeg =>
    some [.text "\n\tfcmpeg @r", .arg .r0, .text ", @fr", .arg .r1, .text ", @fr", .arg .r2]
  | .iFcmpel =>
    some [.text "\n\tfcmpel @r", .arg .r0, .text ", @fr", .arg .r1, .text ", @fr", .arg .r2]
  | .iFcmpg =>
    some [.text "\n\tfcmpg @r", .arg .r0, .text ", @fr", .arg .r1, .text ", @fr", .arg .r2]
  | .iFcmpl =>
    some [.text "\n\tfcmpl @r", .arg .r0, .text ", @fr", .arg .r1, .text ", @fr", .arg .r2]
  | .iJmp => some [.text "\n\tjmp @address(", .arg .asI32, .text ")"]
  | .iEjmp =>
    some [.text "\n\tejmp @address(", .arg .asI32, .text "), @r", .arg .r0, .text ", @r", .arg .r1]
  | .iNejmp =>
    some [.text "\n\tnejump @address(", .arg .asI32, .text "), @r", .arg .r0, .text ", @r",
      .arg .r1]
  | .iPrint => some [.text "\n\tprint -> sys:write $r\x7b0,1,2\x7d"]
  | .iRegDump => some [.text "\n\treg_dump#debug @r", .arg .r0]
  | .iNop => some [.text "\n\tnop"]
  | .iEntry => some [.text "\nENTRY:\n"]
  | .iRet => some [.text "\n\tret @r", .arg .r0, .text "\n"]
  | .iRjmp | .iErjmp | .iNerjmp => none

structure Printed where
  stdout : List Char
  stderr : List Char
deriving DecidableEq, Repr

def printInstructionAsm (formatFloat : Float32Bits → List Char) (inst : Instruction) : Printed :=
  match inst.decode.bind asmFormat with
  | some pieces => ⟨Printf.render (Operand.print formatFloat inst) pieces, []⟩
  | none => ⟨[], "\n\tERROR: UNSUPPORTED INSTRUCTION".toList⟩

end CAt
