import CAt.Vm.InstructionTraces
import Mathlib.Algebra.Group.Nat.Defs

namespace CAt

open GuardedLoop

-- simple_loop of test_list.c with its third instruction replaced by SET(2,n).
def simpleLoop (n : Uint) : Program where
  code := [Build.set 0 0, Build.set 1 1, Build.set 2 n, Build.set 3 4, Build.regDump 0,
    Build.add 0 0 1, Build.nejmp 3 0 2, Build.ret 0]
  size_lt := length_lt_of_le (Nat.le_of_ble_eq_true rfl)

namespace CountingLoop

def iterations (n : Uint) : Nat := if n = 0 then 2 ^ 32 else n.toNat

def setUp : List (Option Inst) := [some .iSet, some .iSet, some .iSet]

def iteration : List (Option Inst) := [some .iSet, some .iRegDump, some .iAdd, some .iNejmp]

def trace (n : Uint) : List (Option Inst) :=
  setUp ++ (List.replicate (iterations n) iteration).flatten ++ [some .iRet]

theorem trace_length (n : Uint) : (trace n).length = 4 * iterations n + 4 := by
  simp [trace, setUp, iteration, List.length_flatten]
  omega

theorem iterations_pos (n : Uint) : 0 < iterations n := by
  unfold iterations
  split
  · decide
  · rename_i hn
    exact Nat.pos_of_ne_zero fun hzero => hn (BitVec.eq_of_toNat_eq hzero)

theorem ofNat_eq_iff {n : Uint} {i : Nat} (h : i < iterations n) :
    n = BitVec.ofNat 32 (i + 1) ↔ i + 1 = iterations n := by
  rw [← BitVec.toNat_inj, BitVec.toNat_ofNat]
  unfold iterations at h ⊢
  have := n.isLt
  split
  · rename_i hn
    rw [if_pos hn] at h
    simp [hn]
    omega
  · rename_i hn
    rw [if_neg hn] at h
    omega

def looping (g : Globals) (n : Uint) (pc : SizeT) (d : Fin intRegCount → Uint) : Machine :=
  { initMachine g (simpleLoop n) with pc, iregisters := d }

def started (d : Fin intRegCount → Uint) (n : Uint) : Fin intRegCount → Uint :=
  Function.update (Function.update (Function.update d reg0 0) reg1 1) reg2 n

def bumped (d : Fin intRegCount → Uint) : Fin intRegCount → Uint :=
  Function.update (Function.update d reg3 4) reg0 (d reg0 + d reg1)

structure Counted (g : Globals) (n : Uint) (i : Nat) (d : Fin intRegCount → Uint) (m : Machine) :
    Prop where
  shape : m = looping g n (if i = iterations n then 7 else 3) d
  count : d 0 = BitVec.ofNat 32 i
  one : d 1 = 1
  bound : d 2 = n

section Traces

variable {host : Host} {g : Globals} {n : Uint} {d : Fin intRegCount → Uint}

theorem setUp_traces :
    Traces host setUp (initMachine g (simpleLoop n)) (looping g n 3 (started g.dRegisters n)) :=
  .next (t := looping g n 1 (Function.update g.dRegisters 0 0)) (At.set ⟨rfl, rfl⟩ rfl)
    (.next (t := looping g n 2 (Function.update (Function.update g.dRegisters 0 0) 1 1))
      (At.set ⟨rfl, rfl⟩ rfl) (At.set ⟨rfl, rfl⟩ rfl))

theorem iteration_traces :
    Traces host iteration (looping g n 3 d)
      (looping g n (if bumped d 2 = bumped d 0 then 7 else 3) (bumped d)) :=
  .next (t := looping g n 4 (Function.update d 3 4)) (At.set ⟨rfl, rfl⟩ rfl)
    (.next (t := looping g n 5 (Function.update d 3 4)) (At.regDump ⟨rfl, rfl⟩ rfl)
      (.next (t := looping g n 6 (bumped d))
        (At.add (x := 0) (y := 0) (z := 1) ⟨rfl, rfl⟩ rfl rfl rfl)
        (At.nejmp (a := 3) (y := 2) ⟨rfl, rfl⟩ rfl)))

theorem Counted.step {i : Nat} {m : Machine} (hi : i < iterations n) (h : Counted g n i d m) :
    ∃ m', Traces host iteration m m' ∧ Counted g n (i + 1) (bumped d) m' := by
  obtain ⟨hshape, hcount, hone, hbound⟩ := h
  have hnext : d 0 + d 1 = BitVec.ofNat 32 (i + 1) := by
    rw [hcount, hone, BitVec.ofNat_add]
    rfl
  rw [hshape, if_neg (Nat.ne_of_lt hi)]
  refine ⟨_, iteration_traces, ?_, hnext, hone, hbound⟩
  have hlast : bumped d 2 = bumped d 0 ↔ i + 1 = iterations n := by
    change d 2 = d 0 + d 1 ↔ _
    rw [hbound, hnext, ofNat_eq_iff hi]
  simp only [hlast]

theorem ofNat_iterations (n : Uint) : BitVec.ofNat 32 (iterations n) = n := by
  obtain ⟨i, hi⟩ := Nat.exists_eq_succ_of_ne_zero (Nat.ne_of_gt (iterations_pos n))
  rw [hi]
  exact ((ofNat_eq_iff (by omega)).mpr hi.symm).symm

end Traces

theorem trace_traces (host : Host) (g : Globals) (n : Uint) :
    ∃ d, d 0 = n ∧ Traces host (trace n) (initMachine g (simpleLoop n))
      { looping g n 8 d with accumRegister := n, isRunning := false } := by
  have hstart : Counted g n 0 (started g.dRegisters n) (looping g n 3 (started g.dRegisters n)) := by
    refine ⟨?_, rfl, rfl, rfl⟩
    rw [if_neg (Nat.ne_of_lt (iterations_pos n))]
  obtain ⟨m, hloop, d, hshape, hcount, -, -⟩ := Loop.Traced.repeat_of (L := vmLoop host)
    (fun i m => ∃ d, Counted g n i d m)
    (fun i m hi ⟨d, hd⟩ => (hd.step hi).imp fun _ h => ⟨h.1, _, h.2⟩) ⟨_, hstart⟩
  rw [if_pos rfl] at hshape
  rw [ofNat_iterations] at hcount
  have hret : Traces host [some .iRet] (looping g n 7 d)
      { looping g n 8 d with accumRegister := d 0, isRunning := false } :=
    At.rootRet ⟨rfl, rfl⟩ rfl rfl rfl
  rw [hcount] at hret
  exact ⟨d, hcount, (setUp_traces.append hloop).append (hshape ▸ hret)⟩

theorem simpleLoop_counts (host : Host) (g : Globals) (n : Uint) :
    ∃ m, executeProgram host (4 * iterations n + 4) (initMachine g (simpleLoop n)) = .ok m ∧
      (vmLoop host).guard m = false ∧ m.accumRegister = n ∧ m.iregisters 0 = n ∧
      Traces host (trace n) (initMachine g (simpleLoop n)) m ∧
      (trace n).length = 4 * iterations n + 4 := by
  obtain ⟨d, hcount, htrace⟩ := trace_traces host g n
  have hrun := htrace.run
  rw [trace_length] at hrun
  exact ⟨_, hrun, rfl, rfl, hcount, htrace, trace_length n⟩

end CountingLoop

end CAt
