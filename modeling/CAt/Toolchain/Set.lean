import CAt.Assembler.ProgramFile
import CAt.Toolchain.CommandLine
import CAt.Vm.ExecuteOp

namespace CAt

open StoredInstruction (layout)

structure SetEnded where
  status : Byte
  writes : List WriteCall
  stdout : List String
  stderr : List String
deriving DecidableEq, Repr

def exitStatus (returned : Uint) : Byte := returned.setWidth 8

-- No array of 2 ^ 60 instructions or more fits in memory.
def ofStored (stored : List StoredInstruction) : Except Fault Program :=
  if h : (stored.map StoredInstruction.toInstruction).length < 2 ^ 60 then .ok ⟨_, h⟩
  else .error .programOutOfBounds

-- main of vm.c, as far as `fuel` rounds of execute_program go; `none` when they do not end it.
def setMain (host : Host) (fuel : Nat) (files : FileSystem) (a : Args) :
    Except Fault (Option SetEnded) :=
  match a.argv with
  | [_, path] => do
    let loaded := loadFromFile files path 0
    let program ← ofStored (ProgramFile.program loaded)
    let m ← executeProgram host fuel (initMachine .zero program)
    return if (vmLoop host).guard m then none else
      some ⟨exitStatus m.accumRegister, m.writes, loaded.stdout, loaded.stderr ++ m.stderr⟩
  | _ => .ok (some ⟨exitStatus (-1), [], ["\nUSAGE:\n\t set ./c_at_instruction_set.caic"], []⟩)

def SetReturns (host : Host) (files : FileSystem) (a : Args) (ended : SetEnded) : Prop :=
  ∃ fuel, setMain host fuel files a = .ok (some ended)

namespace Toolchain

variable {host : Host} {files : FileSystem} {tool path : String}

def warnings (size : Nat) : List String :=
  if size % 16 = 0 then ["WARNING: UNEVEN BYTE COUNT FOR INSTRUCTION SET\n"] else []

theorem load_stdout {bytes : List Byte} (h : files.content path = some bytes) :
    (loadFromFile files path 0).stdout = warnings (bytes.length / 16) ∧
      (loadFromFile files path 0).stderr = [] := by
  rw [← ProgramFile.loadFromFile_size h]
  simp only [loadFromFile, h]
  exact ⟨rfl, trivial⟩

theorem ofStored_of_map {stored : List StoredInstruction} {program : Program}
    (h : stored.map StoredInstruction.toInstruction = program.code) :
    ofStored stored = .ok program := by
  have hlt : (stored.map StoredInstruction.toInstruction).length < 2 ^ 60 := h ▸ program.size_lt
  rw [ofStored, dif_pos hlt]
  obtain ⟨code, size⟩ := program
  cases h
  rfl

theorem setMain_content {bytes : List Byte} (h : files.content path = some bytes) (fuel : Nat) :
    setMain host fuel files ⟨[tool, path]⟩ = (do
      let program ← ofStored (layout.read bytes)
      let m ← executeProgram host fuel (initMachine .zero program)
      return if (vmLoop host).guard m then none else
        some ⟨exitStatus m.accumRegister, m.writes, warnings (bytes.length / 16), m.stderr⟩) := by
  obtain ⟨hstdout, hstderr⟩ := load_stdout h
  rw [setMain]
  simp only [ProgramFile.loadFromFile_program h, hstdout, hstderr, List.nil_append]

end Toolchain

end CAt
