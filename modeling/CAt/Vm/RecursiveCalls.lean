import CAt.Vm.CallDepth
import CAt.Vm.InstructionTraces

namespace CAt

open GuardedLoop

-- recursive_function_call of test_list.c with SET(0,k) at 0 and SET(2,n) at 7.
def recursiveFunctionCall (k n : Uint) : Program where
  code := [Build.set 0 k, Build.rec, Build.push 0, Build.call 5, Build.ret 0,
    Build.pop 0, Build.set 1 1, Build.set 2 n, Build.add 0 0 1, Build.regDump 0,
    Build.nejmp 12 0 2, Build.ret 0,
    Build.rec, Build.push 0, Build.call 5, Build.ret 0]
  size_lt := length_lt_of_le (Nat.le_of_ble_eq_true rfl)

namespace RecursiveCalls

def entry : List (Option Inst) :=
  [some .iPop, some .iSet, some .iSet, some .iAdd, some .iRegDump, some .iNejmp]

def descent : List (Option Inst) := [some .iRec, some .iPush, some .iCall]

def callTrace : Nat → List (Option Inst)
  | 0 => entry ++ [some .iRet]
  | c + 1 => entry ++ (descent ++ (callTrace c ++ [some .iRet]))

def trace (c : Nat) : List (Option Inst) :=
  some .iSet :: (descent ++ (callTrace c ++ [some .iRet]))

theorem count_callTrace (c : Nat) : (callTrace c).count (some .iCall) = c := by
  induction c with
  | zero => rfl
  | succ c ih =>
    simp only [callTrace, List.count_append, ih]
    simp [entry, descent, Nat.add_comm]

theorem count_trace (c : Nat) : (trace c).count (some .iCall) = c + 1 := by
  simp [trace, descent, List.count_append, count_callTrace]

structure Data where
  iregisters : Fin intRegCount → Uint
  accumRegister : Uint
  frameMemory : Fin frameCount → CallFrame
  stackMemory : Stack

def Data.assign (x : Data) (i : Fin intRegCount) (v : Uint) : Data :=
  { x with iregisters := Function.update x.iregisters i v }

def state (g : Globals) (k n : Uint) (pc frames top : SizeT) (x : Data) : Machine :=
  { initMachine g (recursiveFunctionCall k n) with
    pc
    iregisters := x.iregisters
    accumRegister := x.accumRegister
    frames
    stackTop := top
    frameMemory := x.frameMemory
    stackMemory := x.stackMemory }

theorem top_fits : (4 : SizeT).toNat + 4 ≤ stackSize := by decide

def argument (x : Data) : Uint := ByteMemory.load x.stackMemory (4 : SizeT).toNat top_fits

def entered (n : Uint) (x : Data) : Data :=
  (((x.assign reg0 (argument x)).assign reg1 1).assign reg2 n).assign reg0 (argument x + 1)

def recorded (i : Fin frameCount) (x : Data) : Data :=
  { x with frameMemory := Function.update x.frameMemory i ⟨0, 0, 0⟩ }

def pushed (x : Data) : Data :=
  { x with stackMemory := ByteMemory.store x.stackMemory (4 : SizeT).toNat (x.iregisters reg0) }

def called (i : Fin frameCount) (rip : SizeT) (x : Data) : Data :=
  { x with frameMemory := Function.update x.frameMemory i ⟨rip, 0, 4⟩ }

def invoked (i : Fin frameCount) (rip : SizeT) (x : Data) : Data :=
  called i rip (pushed (recorded i x))

def returned (i : Fin frameCount) (x : Data) : Data :=
  { x with
    accumRegister := x.iregisters reg0
    frameMemory := Function.update x.frameMemory i .zero }

section Blocks

variable {host : Host} {g : Globals} {k n : Uint} {f rip : SizeT} {x : Data}
  {i : Fin frameCount}

theorem pop_traces :
    Traces host [some .iPop] (state g k n 5 f 4 x)
      (state g k n 6 f 0 (x.assign 0 (argument x))) := by
  have htop : (state g k n 5 f 4 x).stackTop - 4 = 0 := by
    change (4 : SizeT) - 4 = 0
    rfl
  have hpop : Traces host [some .iPop] (state g k n 5 f 4 x) _ :=
    At.pop (x := 0) ⟨rfl, rfl⟩ rfl top_fits
  rw [htop] at hpop
  exact hpop

theorem entry_traces :
    Traces host entry (state g k n 5 f 4 x)
      (state g k n (if n = argument x + 1 then 11 else 12) f 0 (entered n x)) :=
  .next pop_traces
    (.next (t := state g k n 7 f 0 ((x.assign 0 (argument x)).assign 1 1))
      (At.set ⟨rfl, rfl⟩ rfl)
      (.next (t := state g k n 8 f 0 (((x.assign 0 (argument x)).assign 1 1).assign 2 n))
        (At.set ⟨rfl, rfl⟩ rfl)
        (.next (t := state g k n 9 f 0 (entered n x))
          (At.add (x := 0) (y := 0) (z := 1) ⟨rfl, rfl⟩ rfl rfl rfl)
          (.next (t := state g k n 10 f 0 (entered n x)) (At.regDump ⟨rfl, rfl⟩ rfl)
            (At.nejmp (a := 12) (y := 2) ⟨rfl, rfl⟩ rfl)))))

theorem descent_traces {pc : SizeT} (hrec : At (state g k n pc f 0 x) Build.rec)
    (hpush : ∀ y, At (state g k n (pc + 1) f 0 y) (Build.push 0))
    (hcall : ∀ y, At (state g k n (pc + 1 + 1) f 4 y) (Build.call 5)) (hi : f.toNat = i.val) :
    Traces host descent (state g k n pc f 0 x) (state g k n 5 (f + 1) 4
      (invoked i (pc + 1 + 1 + 1 + 1) x)) :=
  .next (hrec.record hi) (.next ((hpush (recorded i x)).push rfl top_fits)
    ((hcall (pushed (recorded i x))).call hi rfl))

theorem return_traces {pc : SizeT} (hret : At (state g k n pc f 0 x) (Build.ret 0))
    (hi : f.toNat = i.val + 1) :
    Traces host [some .iRet] (state g k n pc f 0 x)
      (state g k n ((x.frameMemory i).rip - 1) (f - 1) 0 (returned i x)) :=
  hret.ret rfl hi rfl

theorem argument_invoked : argument (invoked i rip x) = x.iregisters 0 :=
  ByteMemory.load_store_same x.stackMemory (x.iregisters 0) top_fits

theorem invoked_frame : (invoked i rip x).frameMemory i = ⟨rip, 0, 4⟩ :=
  Function.update_self ..

theorem invoked_below {l : Fin frameCount} (h : l.val < i.val) :
    (invoked i rip x).frameMemory l = x.frameMemory l := by
  have hne : l ≠ i := Fin.ne_of_lt h
  simp [invoked, called, pushed, recorded, Function.update_of_ne hne]

theorem returned_below {l : Fin frameCount} (h : l.val < i.val) :
    (returned i x).frameMemory l = x.frameMemory l :=
  Function.update_of_ne (Fin.ne_of_lt h) ..

theorem more_calls {v : Uint} {c : Nat} (h : c + 1 < frameCount)
    (hn : v + BitVec.ofNat 32 (c + 1 + 1) = n) : n ≠ v + 1 := by
  simp only [frameCount] at h
  bv_omega

theorem next_argument {v : Uint} {c : Nat} (hn : v + BitVec.ofNat 32 (c + 1 + 1) = n) :
    v + 1 + BitVec.ofNat 32 (c + 1) = n := by
  bv_omega

-- The induction is on the calls still to come: the activation in frame `i` hands back what the
-- one above it left in register 0, and the frames below it are as they were.
theorem callTrace_traces (host : Host) (c : Nat) (room : i.val + c < frameCount)
    (hf : f.toNat = i.val + 1) (hn : argument x + BitVec.ofNat 32 (c + 1) = n) :
    ∃ x', Traces host (callTrace c) (state g k n 5 f 4 x)
        (state g k n ((x.frameMemory i).rip - 1) (f - 1) 0 x') ∧
      x'.iregisters 0 = n ∧ ∀ l, l.val < i.val → x'.frameMemory l = x.frameMemory l := by
  induction c generalizing i f x with
  | zero =>
    have hlast : n = argument x + 1 := hn.symm
    have hentry : Traces host entry (state g k n 5 f 4 x) _ := entry_traces
    rw [if_pos hlast] at hentry
    refine ⟨returned i (entered n x), hentry.append (return_traces ⟨rfl, rfl⟩ hf), ?_, ?_⟩
    · exact hlast.symm
    · exact fun l hl => returned_below hl
  | succ c ih =>
    have hmore : n ≠ argument x + 1 := more_calls (by omega) hn
    have hentry : Traces host entry (state g k n 5 f 4 x) _ := entry_traces
    rw [if_neg hmore] at hentry
    let j : Fin frameCount := ⟨i.val + 1, by omega⟩
    have hdown : Traces host descent (state g k n 12 f 0 (entered n x))
        (state g k n 5 (f + 1) 4 (invoked j 16 (entered n x))) :=
      descent_traces ⟨rfl, rfl⟩ (fun _ => ⟨rfl, rfl⟩) (fun _ => ⟨rfl, rfl⟩) hf
    have hf' : (f + 1).toNat = j.val + 1 := by
      rw [frames_succ (hf ▸ j.isLt), hf]
    have hn' : argument (invoked j 16 (entered n x)) + BitVec.ofNat 32 (c + 1) = n := by
      rw [argument_invoked]
      exact next_argument hn
    have hroom : j.val + c < frameCount := by
      change i.val + 1 + c < frameCount
      omega
    obtain ⟨x', hcalls, hresult, hbelow⟩ := ih hroom hf' hn'
    have hback : f + 1 - 1 = f := BitVec.add_sub_cancel f 1
    rw [invoked_frame, hback] at hcalls
    have hkept (l : Fin frameCount) (hl : l.val < j.val) : x'.frameMemory l = x.frameMemory l := by
      rw [hbelow l hl, invoked_below hl]
      rfl
    have hreturn : Traces host [some .iRet] (state g k n 15 f 0 x') _ :=
      return_traces ⟨rfl, rfl⟩ hf
    rw [hkept i (Nat.lt_succ_self _)] at hreturn
    refine ⟨returned i x', hentry.append (hdown.append (hcalls.append hreturn)), hresult, ?_⟩
    intro l hl
    rw [returned_below hl, hkept l (Nat.lt_succ_of_lt hl)]

end Blocks

def initial (g : Globals) : Data := ⟨g.dRegisters, 0, fun _ => .zero, g.stack⟩

theorem trace_traces (host : Host) (g : Globals) {k n : Uint} {c : Nat} (room : c < frameCount)
    (hn : k + BitVec.ofNat 32 (c + 1) = n) :
    ∃ x, Traces host (trace c) (initMachine g (recursiveFunctionCall k n))
      { state g k n 5 0 0 x with accumRegister := n, isRunning := false } := by
  have hset : Traces host [some .iSet] (initMachine g (recursiveFunctionCall k n))
      (state g k n 1 0 0 ((initial g).assign 0 k)) := At.set ⟨rfl, rfl⟩ rfl
  have hcall : Traces host descent (state g k n 1 0 0 ((initial g).assign 0 k))
      (state g k n 5 1 4 (invoked 0 5 ((initial g).assign 0 k))) :=
    descent_traces ⟨rfl, rfl⟩ (fun _ => ⟨rfl, rfl⟩) (fun _ => ⟨rfl, rfl⟩) rfl
  have hn' : argument (invoked 0 5 ((initial g).assign 0 k)) + BitVec.ofNat 32 (c + 1) = n := by
    rw [argument_invoked]
    exact hn
  have hroom : (0 : Fin frameCount).val + c < frameCount := by
    rw [Fin.val_zero, Nat.zero_add]
    exact room
  obtain ⟨x, hcalls, hresult, -⟩ := callTrace_traces (f := 1) host c hroom rfl hn'
  rw [invoked_frame] at hcalls
  have hret : Traces host [some .iRet] (state g k n 4 0 0 x)
      { state g k n 5 0 0 x with accumRegister := x.iregisters 0, isRunning := false } :=
    At.rootRet ⟨rfl, rfl⟩ rfl rfl rfl
  rw [hresult] at hret
  exact ⟨x, hset.next (hcall.append (hcalls.append hret))⟩

theorem recursiveFunctionCall_returns (host : Host) (g : Globals) (k n : Uint)
    (hpos : 1 ≤ (n - k).toNat) (hle : (n - k).toNat ≤ frameCount) :
    ∃ ops m, Traces host ops (initMachine g (recursiveFunctionCall k n)) m ∧
      (vmLoop host).guard m = false ∧
      m.accumRegister = n ∧ m.frames = 0 ∧ m.stackTop = 0 ∧
      ops.count (some .iCall) = (n - k).toNat ∧
      CallDepth.FramesBounded host g (recursiveFunctionCall k n) := by
  obtain ⟨c, hc⟩ := Nat.exists_eq_add_of_le' hpos
  have hn : k + BitVec.ofNat 32 (c + 1) = n := by
    rw [← hc, BitVec.ofNat_toNat, BitVec.setWidth_eq, BitVec.add_comm, BitVec.sub_add_cancel]
  obtain ⟨x, htrace⟩ := trace_traces host g (by omega) hn
  refine ⟨trace c, _, htrace, rfl, rfl, rfl, rfl, ?_, ?_⟩
  · rw [count_trace, hc]
  · exact CallDepth.framesBounded_of_finishes (htrace.finishes rfl)

theorem recursiveFunctionCall_returns_five :
    ∃ ops m, Traces Host.integer ops (initMachine .zero (recursiveFunctionCall 0 5)) m ∧
      m.accumRegister = 5 ∧ ops.count (some .iCall) = 5 := by
  obtain ⟨ops, m, htrace, -, haccum, -, -, hcalls, -⟩ :=
    recursiveFunctionCall_returns Host.integer .zero 0 5 (by decide) (by decide)
  exact ⟨ops, m, htrace, haccum, hcalls⟩

end RecursiveCalls

end CAt
