import CAt.Library.Binary32
import CAt.Vm.InstructionTraces

namespace CAt

open Binary32 (HoldsInt)
open GuardedLoop.Loop (ok_bind)

namespace Casts

-- (int) of a float and (float) of a uint, as far as the C standard and binary32 fix them.
structure ExactCasts (host : Host) : Prop where
  toInt : ∀ (f : Float32Bits) (n : Int), n.natAbs ≤ 2 ^ 24 → HoldsInt f n →
    host.floatToInt f = BitVec.ofInt 32 n
  ofUint : ∀ v : Uint, v.toNat ≤ 2 ^ 24 → HoldsInt (host.uintToFloat v) v.toNat
  nonneg : ∀ (v : Uint) (n : Int), HoldsInt (host.uintToFloat v) n → 0 ≤ n

def binary32Host : Host :=
  { Host.integer with
    floatToInt := fun f => BitVec.ofInt 32 (Binary32.truncate f)
    uintToFloat := fun v => Binary32.ofNat v.toNat }

theorem exactCasts_binary32 : ExactCasts binary32Host where
  toInt _ _ _ h := congrArg (BitVec.ofInt 32) (Binary32.truncate_of_holds h)
  ofUint _ hv := Binary32.holds_ofNat hv
  nonneg v _ h := Binary32.nonneg_of_holds h (Binary32.msb_ofNat v.isLt)

section Instructions

variable {host : Host} {m : Machine} {x y : Fin intRegCount}

theorem cf2i (hf : m.fetched = some (Build.cf2i (BitVec.ofNat 8 x.val) (BitVec.ofNat 8 y.val))) :
    executeOp host m = .ok { m.advance with
      iregisters := Function.update m.iregisters x (host.floatToInt (m.fregisters y)) } := by
  rw [executeOp_of_fetched hf, executeInst, Build.cf2i, Build.decode_operands]
  simp only [executeOpcode, Build.r0_operands, Build.r1_operands, Machine.fReg, regIndex_ofNat,
    ok_bind, Machine.setDReg_ofNat]
  rfl

theorem ci2f (hf : m.fetched = some (Build.ci2f (BitVec.ofNat 8 x.val) (BitVec.ofNat 8 y.val))) :
    executeOp host m = .ok { m.advance with
      fregisters := Function.update m.fregisters x (host.uintToFloat (m.iregisters y)) } := by
  rw [executeOp_of_fetched hf, executeInst, Build.ci2f, Build.decode_operands]
  simp only [executeOpcode, Build.r0_operands, Build.r1_operands, Machine.dReg_ofNat,
    Machine.setFReg, regIndex_ofNat, ok_bind]
  rfl

end Instructions

-- CI2F converts the register as a uint, so a negative number comes back as its value plus 2 ^ 32.
theorem holds_reinterpreted_iff {host : Host} (hexact : ExactCasts host) {n : Int}
    (hn : n.natAbs ≤ 2 ^ 24) : HoldsInt (host.uintToFloat (BitVec.ofInt 32 n)) n ↔ 0 ≤ n := by
  refine ⟨hexact.nonneg _ n, fun hnonneg => ?_⟩
  obtain ⟨k, rfl⟩ := Int.eq_ofNat_of_zero_le hnonneg
  rw [Int.natAbs_natCast] at hn
  have hvalue : (BitVec.ofInt 32 (k : Int)).toNat = k := by
    rw [BitVec.ofInt_natCast, BitVec.toNat_ofNat]
    exact Nat.mod_eq_of_lt (by omega)
  have hholds := hexact.ofUint (BitVec.ofInt 32 (k : Int)) ((Nat.le_of_eq hvalue).trans hn)
  rw [hvalue] at hholds
  exact hholds

theorem casts_return_iff {host : Host} (hexact : ExactCasts host) (m : Machine)
    (a b c : Fin intRegCount) (n : Int) (hn : n.natAbs ≤ 2 ^ 24)
    (hholds : HoldsInt (m.fregisters a) n)
    (hfirst : m.fetched = some (Build.cf2i (BitVec.ofNat 8 b.val) (BitVec.ofNat 8 a.val)))
    (hsecond : m.advance.fetched =
      some (Build.ci2f (BitVec.ofNat 8 c.val) (BitVec.ofNat 8 b.val))) :
    ∃ s t, executeOp host m = .ok s ∧ executeOp host s = .ok t ∧
      (HoldsInt (t.fregisters c) n ↔ 0 ≤ n) := by
  refine ⟨_, _, cf2i hfirst, ci2f hsecond, ?_⟩
  rw [← holds_reinterpreted_iff hexact hn, ← hexact.toInt _ n hn hholds]
  simp only [Function.update_self]

def five : Float32Bits := 0x40a00000

def minusFive : Float32Bits := 0xc0a00000

theorem holds_five : HoldsInt five 5 := ⟨by decide, by decide⟩

theorem holds_minusFive : HoldsInt minusFive (-5) := ⟨by decide, by decide⟩

def casting (f : Float32Bits) : Machine :=
  { initMachine .zero ⟨[Build.cf2i 1 0, Build.ci2f 2 1], by decide⟩ with
    fregisters := Function.update (fun _ => 0) reg0 f }

theorem casts_return_iff_five :
    ∃ s t, executeOp binary32Host (casting five) = .ok s ∧ executeOp binary32Host s = .ok t ∧
      (HoldsInt (t.fregisters reg2) 5 ↔ (0 : Int) ≤ 5) :=
  casts_return_iff exactCasts_binary32 (casting five) reg0 reg1 reg2 5 (by decide)
    holds_five rfl rfl

theorem minus_five_lost :
    ExactCasts binary32Host ∧ HoldsInt ((casting minusFive).fregisters reg0) (-5) ∧
      ∃ s t, executeOp binary32Host (casting minusFive) = .ok s ∧
        executeOp binary32Host s = .ok t ∧ ¬ HoldsInt (t.fregisters reg2) (-5) := by
  refine ⟨exactCasts_binary32, holds_minusFive, _, _, rfl, rfl, ?_⟩
  intro h
  have hbits : HoldsInt (binary32Host.uintToFloat (binary32Host.floatToInt minusFive)) (-5) := h
  exact absurd (exactCasts_binary32.nonneg _ _ hbits) (by decide)

end Casts

end CAt
