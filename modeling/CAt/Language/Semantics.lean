import CAt.Language.Syntax
import CAt.Vm.ExecuteOp

namespace CAt

namespace Language

open GuardedLoop
open RegisterInstructions (value)

-- The machine the programmer thinks of: a stack of words and a stack of open calls, both
-- innermost first, and no addresses but the positions of statements.
structure State where
  next : Nat
  registers : Fin intRegCount → Uint
  floats : Fin fltRegCount → Float32Bits
  accumulator : Uint
  stack : List Uint
  callers : List Nat
  output : List WriteCall
  running : Bool

namespace State

def init : State where
  next := 0
  registers := fun _ => 0
  floats := fun _ => 0
  accumulator := 0
  stack := []
  callers := []
  output := []
  running := true

def advance (s : State) : State := { s with next := s.next + 1 }

def assign (s : State) (x : Fin intRegCount) (v : Uint) : State :=
  { s with registers := Function.update s.registers x v }

def assignFloat (s : State) (x : Fin fltRegCount) (v : Float32Bits) : State :=
  { s with floats := Function.update s.floats x v }

def goto (s : State) (position : Nat) : State := { s with next := position }

def bytes (s : State) : List Byte := s.stack.reverse.flatMap ByteMemory.wordBytes

end State

theorem zero_lt_three : 0 < 3 := by decide

theorem two_lt_three : 2 < 3 := by decide

abbrev arg0 : Fin 3 := ⟨0, zero_lt_three⟩

abbrev arg2 : Fin 3 := ⟨2, two_lt_three⟩

-- One word at the bottom of STACK is never used.
def maxWords : Nat := stackSize / 4 - 1

def FloatComputation.compute (host : Host) :
    FloatComputation → Float32Bits → Float32Bits → Float32Bits
  | fsub => host.fsub
  | fdiv => host.fdiv
  | fmul => host.fmul

def FloatComparison.compare (host : Host) : FloatComparison → Float32Bits → Float32Bits → Bool
  | fcmpe => host.feq
  | fcmpeg => host.fge
  | fcmpel => host.fle
  | fcmpg => host.fgt
  | fcmpl => host.flt

def Cast.perform (host : Host) (s : State) (x y : Fin intRegCount) : Cast → State
  | cf2i => s.assign x (host.floatToInt (s.floats y))
  | cf2u => s.assign x (host.floatToUint (s.floats y))
  | ci2f | cu2f => s.assignFloat x (host.uintToFloat (s.registers y))

def printed (host : Host) (s : State) : Except Fault State :=
  let fd := s.registers reg0
  let buf := (s.registers reg1).toNat
  let len := (s.registers reg2).toNat
  if 4 ≤ buf ∧ buf + len ≤ 4 + 4 * s.stack.length then
    let bytes := (s.bytes.drop (buf - 4)).take len
    let r := host.write s.output fd bytes
    if r ≠ 0 then .ok { s with output := s.output ++ [⟨fd, bytes, r⟩] }
    else .error (.assertion "ERROR PERFORMING WRITE")
  else .error .stackOutOfBounds

def perform (host : Host) (place : LabelName → Nat) (s : State) :
    Statement → Except Fault State
  | .halt => .ok { s.advance with running := false }
  | .record => if s.callers.length < frameCount then .ok s.advance else .error .frameOutOfBounds
  | .print => printed host s.advance
  | .registers (.compute c) r =>
    if c = .div ∧ s.registers (r arg2) = 0 then .error .divideByZero
    else .ok (s.advance.assign (r arg0)
      (BitVec.ofInt 32 (value (fun k => (s.registers (r k)).toNat) c)))
  | .registers .push r =>
    if s.stack.length < maxWords then
      .ok { s.advance with stack := s.registers (r arg0) :: s.stack }
    else .error .stackOutOfBounds
  | .registers .pop r =>
    match s.stack with
    | [] => .error .stackOutOfBounds
    | w :: stack => .ok ({ s.advance with stack }.assign (r arg0) w)
  | .registers .ret r =>
    match s.callers with
    | [] => .ok { s.advance with accumulator := s.registers (r arg0), running := false }
    | caller :: callers =>
      .ok { s with next := caller, accumulator := s.registers (r arg0), callers }
  | .computeFloats op x y z =>
    .ok (s.advance.assignFloat x (op.compute host (s.floats y) (s.floats z)))
  | .compareFloats op x y z =>
    .ok (s.advance.assign x (truth (op.compare host (s.floats y) (s.floats z))))
  | .cast op x y => .ok (op.perform host s.advance x y)
  | .regDump _ => .ok s.advance
  | .set x v => .ok (s.advance.assign x (BitVec.ofNat 32 v.val))
  | .fset x v => .ok (s.advance.assignFloat x (host.uintToFloat (BitVec.ofNat 32 v.val)))
  | .jump target => .ok (s.goto (target.resolve place))
  | .call target =>
    if s.callers.length < frameCount then
      .ok { s with next := target.resolve place, callers := (s.next + 1) :: s.callers }
    else .error .frameOutOfBounds
  | .branch equal target x =>
    if (s.registers x == s.registers reg0) = equal then .ok (s.goto (target.resolve place))
    else .ok s.advance

def step (host : Host) (p : Source) (s : State) : Except Fault State :=
  match p.statements[s.next]? with
  | none => .error .programOutOfBounds
  | some statement => perform host p.position s statement

def machine (host : Host) (p : Source) : Loop State Fault where
  guard s := s.running && decide (s.next < p.statements.length)
  body := step host p

def run (host : Host) (p : Source) (n : Nat) : Except Fault State := (machine host p).run n .init

def Returns (host : Host) (p : Source) (s : State) : Prop := (machine host p).Finishes .init s

end Language

end CAt
