import CAt.Assembler.Disassembler
import CAt.Assembler.Passes
import CAt.Assembler.ProgramFile
import CAt.Assembler.ReadSource
import CAt.Assembler.TokenLists
import CAt.Toolchain.CommandLine

namespace CAt

open GuardedLoop

-- What the C program finds in memory it never wrote: word_buffer at each call of token_next,
-- `r` at each call of parse_reg, and the byte behind the registers of each instruction.
structure Leftovers where
  words : Nat → WordBuffer
  regs : Junk
  padding : Nat → Byte

inductive CaasmFault where
  | read (fault : ReadFault)
  | fbOverflow
  | tokens (fault : TokenFault)
  | passes (fault : PassFault)
deriving DecidableEq, Repr

-- How a process ended. What FULL_DEBUG_VIEW prints is left out of stdout.
structure Ended where
  status : Int
  files : FileSystem
  stdout : List String
  stderr : List String

def fileBytes (bytes : List Byte) : List UInt8 := bytes.map UInt8.ofBitVec

def readSource (bytes : List Byte) : Except CaasmFault (List Char) :=
  match readLoop.run bytes.length (.start (fileBytes bytes)) with
  | .error fault => .error (.read fault)
  | .ok s => if s.extent ≤ maxSize then .ok s.fb else .error .fbOverflow

def tokenize (words : Nat → WordBuffer) (fb : List Char) : Except CaasmFault (List Token) :=
  match (tokenLoop words fb).run (fb.length + 1) .start with
  | .error fault => .error (.tokens fault)
  | .ok s => .ok s.list

def passes (host : Host) (regs : Junk) (list : List Token) :
    Except CaasmFault (List Instruction) :=
  match (do assembleProgram host regs list (← indexLabels list)) with
  | .error fault => .error (.passes fault)
  | .ok program => .ok program

def assembleSource (host : Host) (leftovers : Leftovers) (bytes : List Byte) :
    Except CaasmFault (List Instruction) := do
  let fb ← readSource bytes
  let list ← tokenize leftovers.words fb
  passes host leftovers.regs list

def stored (padding : Nat → Byte) (program : List Instruction) : List StoredInstruction :=
  program.mapIdx fun n inst => ⟨inst, padding n⟩

-- The path for the output, and the warning when `-o` stands without one.
def outPath (a : Args) : String × List String :=
  match argFindValue a "-o" with
  | some path => (path, [])
  | none =>
    ("./out.caic", if argFind a "-o" ≠ 0 then
      ["[WARN]:\tout path flag found, but not argument given"] else [])

def sucessulyWritten (bytes : Nat) (path : String) : String :=
  "Sucessuly written " ++ toString bytes ++ " bytes into \"" ++ path ++ "\"\n"

-- The int that main_assemble itself returns is never read; `status` is that of the process.
def mainAssemble (host : Host) (leftovers : Leftovers) (files : FileSystem) (a : Args) :
    Except CaasmFault Ended :=
  let (path, warning) := outPath a
  match a.argv[1]? with
  | none =>
    .ok ⟨0, files, ["USAGE:\n\t caasm ./c_at_assembly_file.caasm"], []⟩
  | some source =>
    match files.content source with
    | none => .ok ⟨-1, files, warning ++ ["Failed to open file:\t\"" ++ source ++ "\""], []⟩
    | some bytes => do
      let program ← assembleSource host leftovers bytes
      let written := writeToFile files path (stored leftovers.padding program)
      let report := if written.result ≠ 0 then [sucessulyWritten (16 * program.length) path] else []
      return ⟨0, written.files, warning ++ report, written.stderr⟩

-- `i` is a uint: the listing is that of print_program_asm for fewer than 2 ^ 32 instructions.
def printProgramAsm (formatFloat : Float32Bits → List Char) (program : List Instruction) :
    Printed where
  stdout := program.flatMap fun inst => (printInstructionAsm formatFloat inst).stdout
  stderr := program.flatMap fun inst => (printInstructionAsm formatFloat inst).stderr

def mainDisassemble (formatFloat : Float32Bits → List Char) (files : FileSystem) (a : Args) :
    Ended :=
  match argFindValue a "-d" with
  | none =>
    if argFind a "-d" ≠ 0 then
      ⟨0, files, ["[WARN]:\tdissasemble flag found, but not argument given"], []⟩
    else ⟨0, files, ["f"], []⟩
  | some path =>
    let loaded := loadFromFile files path 0
    let program := (ProgramFile.program loaded).map StoredInstruction.toInstruction
    let printed := printProgramAsm formatFloat program
    ⟨0, files, loaded.stdout ++ [String.ofList printed.stdout],
      loaded.stderr ++ [String.ofList printed.stderr]⟩

def usage : String :=
  "USAGE:\n\tcaasm [FLAGS] [FILE]\n\t\tFLAGS: \n\t\t" ++
    " '-d' - disassamble program source to stdout, can't be paired with '-o' " ++ "\t\t" ++
    " '-o' - assamble program to instruction code, if not specified file name is 'out.caic'"

def caasm (host : Host) (formatFloat : Float32Bits → List Char) (leftovers : Leftovers)
    (files : FileSystem) (a : Args) : Except CaasmFault Ended :=
  if a.argc < 2 then .ok ⟨-1, files, [usage], []⟩
  else if argFind a "-d" ≠ 0 then .ok (mainDisassemble formatFloat files a)
  else mainAssemble host leftovers files a

end CAt
