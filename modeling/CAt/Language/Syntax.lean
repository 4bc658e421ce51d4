import CAt.Assembler.Completeness
import CAt.Assembler.RegisterInstructions
import CAt.Assembler.SourceLines
import CAt.Vm.InstructionTraces

namespace CAt

namespace Language

open RegisterInstructions (Mnemonic)

-- parse_reg takes texts of at most four characters and find_label skips the `L` of an operand,
-- so that a label that can be named has at most three characters.
structure LabelName where
  first : Char
  rest : List Char
  letter : isCharacter first = true
  alphanumeric : ∀ c ∈ rest, isAlphanumeric c = true
  short : rest.length ≤ 2
deriving DecidableEq

namespace LabelName

def ofLetter (c : Char) (h : isCharacter c = true) : LabelName := ⟨c, [], h, nofun, Nat.zero_le 2⟩

def text (name : LabelName) : List Char := name.first :: name.rest

def reference (name : LabelName) : List Char := 'L' :: name.text

theorem text_injective {name other : LabelName} (h : name.text = other.text) : name = other := by
  obtain ⟨first, rest, _, _, _⟩ := name
  obtain ⟨first', rest', _, _, _⟩ := other
  cases h
  rfl

theorem length_reference (name : LabelName) : name.reference.length ≤ 4 := by
  have := name.short
  rw [reference, text, List.length_cons, List.length_cons]
  omega

end LabelName

inductive Target where
  | address (a : Fin 10000)
  | label (name : LabelName)
deriving DecidableEq

inductive FloatComputation where
  | fsub | fdiv | fmul
deriving DecidableEq

inductive FloatComparison where
  | fcmpe | fcmpeg | fcmpel | fcmpg | fcmpl
deriving DecidableEq

inductive Cast where
  | cf2i | ci2f | cu2f | cf2u
deriving DecidableEq

-- The instructions a source line can name with all their operands. `branch` is ejmp or nejmp
-- with r0 as its first register, the one execute_op compares the second register with.
inductive Statement where
  | halt | record | print
  | registers (mn : Mnemonic) (r : Fin 3 → Fin intRegCount)
  | computeFloats (op : FloatComputation) (x y z : Fin intRegCount)
  | compareFloats (op : FloatComparison) (x y z : Fin intRegCount)
  | cast (op : Cast) (x y : Fin intRegCount)
  | regDump (x : Fin intRegCount)
  | set (x : Fin intRegCount) (v : Fin 10000)
  | fset (x : Fin intRegCount) (v : Fin 10000)
  | jump (target : Target)
  | call (target : Target)
  | branch (equal : Bool) (target : Target) (x : Fin intRegCount)

inductive Argument where
  | register (x : Fin intRegCount)
  | number (v : Fin 10000)
  | label (name : LabelName)

namespace Argument

def token : Argument → Token
  | register x => registerToken x
  | number v => ⟨some (Nat.toDigits 10 v.val), .wordLiterallNumber⟩
  | label name => ⟨some name.reference, .word⟩

def names : Argument → List LabelName
  | label name => [name]
  | _ => []

end Argument

def Target.resolve (place : LabelName → Nat) : Target → Nat
  | address a => a.val
  | label name => place name

def Target.argument : Target → Argument
  | address a => .number a
  | label name => .label name

def FloatComputation.op : FloatComputation → Inst
  | fsub => .iFsub
  | fdiv => .iFdiv
  | fmul => .iFmul

def FloatComparison.op : FloatComparison → Inst
  | fcmpe => .iFcmpe
  | fcmpeg => .iFcmpeg
  | fcmpel => .iFcmpel
  | fcmpg => .iFcmpg
  | fcmpl => .iFcmpl

def Cast.op : Cast → Inst
  | cf2i => .iCf2i
  | ci2f => .iCi2f
  | cu2f => .iCu2f
  | cf2u => .iCf2u

namespace Statement

def op : Statement → Inst
  | halt => .iHalt
  | record => .iRec
  | print => .iPrint
  | registers mn _ => mn.op
  | computeFloats op .. => op.op
  | compareFloats op .. => op.op
  | cast op .. => op.op
  | regDump _ => .iRegDump
  | set .. => .iSet
  | fset .. => .iFset
  | jump _ => .iJmp
  | call _ => .iCall
  | branch equal .. => if equal then .iEjmp else .iNejmp

def arguments : Statement → List Argument
  | halt | record | print => []
  | registers mn r => ((List.ofFn r).take mn.arity).map .register
  | computeFloats _ x y z | compareFloats _ x y z => [.register x, .register y, .register z]
  | cast _ x y => [.register x, .register y]
  | regDump x => [.register x]
  | set x v | fset x v => [.register x, .number v]
  | jump target | call target => [target.argument]
  | branch _ target x => [target.argument, .register reg0, .register x]

def tokens (s : Statement) : List Token :=
  ⟨some (mnemonic s.op), .word⟩ :: s.arguments.map Argument.token

def names (s : Statement) : List LabelName := s.arguments.flatMap Argument.names

end Statement

inductive Line where
  | label (name : LabelName)
  | statement (s : Statement)

def Line.tokens : Line → List Token
  | label name => [⟨some name.text, .word⟩, ⟨none, .symbolColon⟩]
  | statement s => s.tokens

def statements : List Line → List Statement
  | [] => []
  | .label _ :: ls => statements ls
  | .statement s :: ls => s :: statements ls

def definitions : List Line → List LabelName
  | [] => []
  | .label name :: ls => name :: definitions ls
  | .statement _ :: ls => definitions ls

-- Where a label points when `n` statements stand before the lines: behind the statements
-- before its first definition.
def findFrom (name : LabelName) : Nat → List Line → Option Nat
  | _, [] => none
  | n, .label other :: ls => if other = name then some n else findFrom name n ls
  | n, .statement _ :: ls => findFrom name (n + 1) ls

-- A mnemonic that stands alone behind a label definition is taken for a second one.
def apart : Bool → List Line → Bool
  | _, [] => true
  | _, .label _ :: ls => apart true ls
  | labelled, .statement s :: ls => !(labelled && s.arguments.isEmpty) && apart false ls

structure Source where
  lines : List Line
  apart : apart false lines = true
  statementsFit : (statements lines).length ≤ programSize
  labelsFit : (definitions lines).length ≤ labelsSize
  defined : ∀ s ∈ statements lines, ∀ name ∈ s.names, (findFrom name 0 lines).isSome = true

namespace Source

def statements (p : Source) : List Statement := Language.statements p.lines

def position (p : Source) (name : LabelName) : Nat := (findFrom name 0 p.lines).getD 0

def namesLabels (p : Source) : Prop := ∃ s ∈ p.statements, s.names ≠ []

end Source

end Language

end CAt
