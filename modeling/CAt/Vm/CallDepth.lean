import CAt.Vm.CallStack
import CAt.Vm.ForwardOnly

namespace CAt

open GuardedLoop
open CallStack (openCalls)

namespace CallDepth

def WritesFrame (m : Machine) : Prop := m.opcode = some .iRec ∨ m.opcode = some .iCall

structure FramesBounded (host : Host) (g : Globals) (p : Program) : Prop where
  frames : ∀ n m, executeProgram host n (initMachine g p) = .ok m → m.frames.toNat ≤ frameCount
  writes : ∀ n m, executeProgram host n (initMachine g p) = .ok m →
    (vmLoop host).guard m = true → WritesFrame m → m.frames.toNat < frameCount
  stopped : ∀ n, executeProgram host n (initMachine g p) ≠ .error .frameOutOfBounds

def Shallow (host : Host) (g : Globals) (p : Program) : Prop :=
  ∀ n m, executeProgram host n (initMachine g p) = .ok m → (vmLoop host).guard m = true →
    WritesFrame m → (openCalls host g p n).length < frameCount

variable {host : Host} {g : Globals} {p : Program}

theorem frames_le {callers : List Machine} {m : Machine} (h : CallStack.Holds callers m) :
    m.frames.toNat ≤ frameCount := by
  by_contra hdeep
  have hlive : frameCount < callers.reverse.length := by
    rw [List.length_reverse, ← h.depth]
    exact Nat.lt_of_not_le hdeep
  obtain ⟨room, -, -⟩ := h.represents.live frameCount hlive
  exact Nat.lt_irrefl _ room

theorem Shallow.stopped (h : Shallow host g p) (n : Nat) :
    executeProgram host n (initMachine g p) ≠ .error .frameOutOfBounds := by
  intro herror
  obtain ⟨k, m, hrun, hg, hbody⟩ := Loop.run_error herror
  have hm := CallStack.run_holds hrun
  have hpc := (guard_iff.mp hg).1
  refine executeOp_frameSafe host hpc (fun _ => frames_le hm) (fun hop => ?_) hbody
  rw [hm.depth]
  exact h k m hrun hg hop

theorem framesBounded_iff (host : Host) (g : Globals) (p : Program) :
    FramesBounded host g p ↔ Shallow host g p := by
  constructor
  · intro h n m hrun hg hop
    rw [← (CallStack.run_holds hrun).depth]
    exact h.writes n m hrun hg hop
  · intro h
    refine ⟨fun n m hrun => frames_le (CallStack.run_holds hrun), ?_, h.stopped⟩
    intro n m hrun hg hop
    rw [(CallStack.run_holds hrun).depth]
    exact h n m hrun hg hop

theorem framesBounded_of_forwardOnly (hp : ForwardOnly.Holds p) : FramesBounded host g p where
  frames n m hrun := (ForwardOnly.run_ordered hp hrun).depth
  writes n m hrun hg _ := by
    have hm := ForwardOnly.run_ordered hp hrun
    have hpc := (guard_iff.mp hg).1
    have hle := hm.increasing.frames_le
    have hshort := hp.short
    rw [hm.program] at hpc
    omega
  stopped := ForwardOnly.run_frameSafe hp

theorem framesBounded_of_finishes {m : Machine}
    (h : (vmLoop host).Finishes (initMachine g p) m) : FramesBounded host g p where
  frames _ _ hrun := frames_le (CallStack.run_holds hrun)
  writes n t hrun hg hop := by
    cases hbody : (vmLoop host).body t with
    | error e =>
      have herror : executeProgram host (n + 1) (initMachine g p) = .error e := by
        rw [executeProgram, Loop.run_succ_last, ← executeProgram, hrun]
        exact (Loop.iterate_of_guard hg).trans hbody
      exact absurd h (Loop.not_finishes_of_error herror)
    | ok u =>
      obtain ⟨inst, -, hcode, he⟩ := executeOp_opcode hbody
      rcases hop with hrec | hcall
      · rw [hcode] at hrec
        rw [hrec] at he
        exact he.record_inv.1
      · rw [hcode] at hcall
        rw [hcall] at he
        exact he.call_inv.1
  stopped _ herror := absurd h (Loop.not_finishes_of_error herror)

def selfCall : Program := ⟨[Build.call 0], by decide⟩

structure Recursing (n : Nat) (m : Machine) : Prop where
  program : m.program = selfCall
  pc : m.pc = 0
  running : m.isRunning = true
  depth : m.frames.toNat = n

theorem Recursing.fetched {n : Nat} {m : Machine} (h : Recursing n m) :
    m.fetched = some (Build.call 0) := by
  rw [Machine.fetched, h.program, h.pc]
  rfl

theorem Recursing.guard {n : Nat} {m : Machine} (h : Recursing n m) :
    (vmLoop host).guard m = true := by
  rw [guard_iff, h.program, h.pc]
  exact ⟨by decide, h.running⟩

theorem Recursing.step {n : Nat} {m : Machine} (h : Recursing n m) (room : n < frameCount) :
    ∃ m', executeOp host m = .ok m' ∧ Recursing (n + 1) m' := by
  have hroom : m.frames.toNat < frameCount := by
    rw [h.depth]
    exact room
  have hindex : frameIndex m.advance.frames = .ok ⟨m.frames.toNat, hroom⟩ :=
    dif_pos hroom
  refine ⟨{ m.advance.log (.call (m.frames + 1) 0) with
    pc := 0
    frames := m.frames + 1
    frameMemory := Function.update m.frameMemory ⟨_, hroom⟩
      ⟨m.advance.pc + 1, 0, m.stackTop.setWidth 32⟩ }, ?_, h.program, rfl, h.running, ?_⟩
  · rw [executeOp_of_fetched h.fetched, executeInst, Build.call, Build.decode_operands]
    change m.advance.enter (Build.call 0) = _
    rw [Machine.enter, call, hindex]
    rfl
  · change (m.frames + 1).toNat = _
    rw [frames_succ hroom, h.depth]

theorem selfCall_run (n : Nat) (h : n ≤ frameCount) :
    ∃ m, executeProgram host n (initMachine g selfCall) = .ok m ∧ Recursing n m := by
  induction n with
  | zero => exact ⟨_, rfl, rfl, rfl, rfl, rfl⟩
  | succ n ih =>
    obtain ⟨m, hrun, hm⟩ := ih (Nat.le_of_succ_le h)
    obtain ⟨m', (hstep : executeOp host m = _), hm'⟩ := hm.step h
    refine ⟨m', ?_, hm'⟩
    rw [executeProgram, Loop.run_succ_last, ← executeProgram, hrun]
    exact (Loop.iterate_of_guard hm.guard).trans hstep

theorem selfCall_overflows : ¬ FramesBounded Host.integer .zero selfCall := by
  intro h
  obtain ⟨m, (hrun : executeProgram Host.integer frameCount (initMachine .zero selfCall) = _), hm⟩ :=
    selfCall_run frameCount (Nat.le_refl _)
  have hcall : WritesFrame m := .inr (by rw [Machine.opcode, hm.fetched]; rfl)
  have hlt := h.writes frameCount m hrun hm.guard hcall
  rw [hm.depth] at hlt
  exact Nat.lt_irrefl _ hlt

end CallDepth

end CAt
