import CAt.Assembler.AssembleLine

namespace CAt

abbrev lineSize : Nat := 32
def labelsSize : Nat := 128
def programSize : Nat := 128

inductive PassFault where
  | line (fault : LineFault)
  | tkOverflow
  | labelsOverflow
  | programOverflow
deriving DecidableEq, Repr

def PassFault.isAssertion : PassFault → Bool
  | .line fault => fault.isAssertion
  | .tkOverflow | .labelsOverflow | .programOverflow => false

structure LineBuffer where
  tk : Fin lineSize → Token
  ic : Nat
  lineIsComment : Bool

namespace LineBuffer

def empty : LineBuffer := ⟨fun _ => .zero, 0, false⟩

def secondIsColon (line : LineBuffer) : Bool := (line.tk 1).type == .symbolColon

def firstIsWord (line : LineBuffer) : Bool := (line.tk 0).type == .word

def tokens (line : LineBuffer) : List Token := (List.ofFn line.tk).take line.ic

end LineBuffer

-- The loop body that index_labels and assemble_program share, up to what they do at a line's end.
def scanToken {β : Type} (atLineEnd : LineBuffer → β → Except PassFault (LineBuffer × β))
    (state : LineBuffer × β) (token : Token) : Except PassFault (LineBuffer × β) :=
  let (line, out) := state
  let isLineEnd := token.type == .symbolExpressionEnd
  let isHashSymbol := token.type == .symbolHash
  if line.lineIsComment then
    if isLineEnd then atLineEnd { line with lineIsComment := false } out else .ok (line, out)
  else if isHashSymbol then .ok ({ line with lineIsComment := true }, out)
  else if isLineEnd then atLineEnd line out
  else if h : line.ic < lineSize then
    .ok ({ line with tk := Function.update line.tk ⟨line.ic, h⟩ token, ic := line.ic + 1 }, out)
  else .error .tkOverflow

structure LabelIndex where
  labels : List Label
  lc : Nat

-- `ic` is zeroed before the loop that would clear `tk`, so `tk` keeps the tokens of the line.
def indexLabelsLineEnd (line : LineBuffer) (out : LabelIndex) :
    Except PassFault (LineBuffer × LabelIndex) :=
  if line.firstIsWord && line.secondIsColon && line.ic != 0 then
    if line.ic = 1 then .ok (line, out)
    else if out.labels.length < labelsSize then
      let label := { name := (line.tk 0).literall, address := BitVec.ofNat 32 out.lc }
      .ok ({ line with ic := 0 }, { out with labels := out.labels ++ [label] })
    else .error .labelsOverflow
  else if line.ic != 0 && !line.secondIsColon then
    .ok ({ line with ic := 0 }, { out with lc := out.lc + 1 })
  else .ok ({ line with ic := 0 }, out)

def indexLabels (list : List Token) : Except PassFault (List Label) := do
  let (_, out) ← list.foldlM (scanToken indexLabelsLineEnd) (.empty, ⟨[], 0⟩)
  return out.labels

-- What `parse_reg` finds in its uninitialised local at the n-th instruction's k-th operand.
abbrev Junk := Nat → Nat → Reg

def emitInstruction (host : Host) (junk : Junk) (labels : List Label) (tokens : List Token)
    (program : List Instruction) : Except PassFault (List Instruction) :=
  match assembleLine host (junk program.length) labels tokens with
  | .error fault => .error (.line fault)
  | .ok inst =>
    if program.length < programSize then .ok (program ++ [inst]) else .error .programOverflow

def assembleProgramLineEnd (host : Host) (junk : Junk) (labels : List Label) (line : LineBuffer)
    (program : List Instruction) : Except PassFault (LineBuffer × List Instruction) := do
  if line.firstIsWord && line.secondIsColon && line.ic != 0 then
    return ({ line with ic := 0 }, program)
  else
    let program ←
      if line.ic != 0 then emitInstruction host junk labels line.tokens program else .ok program
    let tk := fun s => if s.val < line.ic then Token.zero else line.tk s
    return ({ line with tk, ic := 0 }, program)

-- The program has as many instructions as the list; *program_size is its length.
def assembleProgram (host : Host) (junk : Junk) (list : List Token) (labels : List Label) :
    Except PassFault (List Instruction) := do
  let (_, program) ← list.foldlM (scanToken (assembleProgramLineEnd host junk labels)) (.empty, [])
  return program

end CAt
