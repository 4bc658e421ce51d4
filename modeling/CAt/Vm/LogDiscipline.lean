import CAt.Vm.Effects

namespace CAt

open GuardedLoop
open GuardedLoop.Loop (bind_ok)

namespace LogDiscipline

structure Position where
  depth : Nat
  ended : Bool
deriving DecidableEq, Repr

def follow (p : Position) (line : LogLine) : Option Position :=
  if p.ended then none
  else match line with
    | .call frames _ => if frames.toNat = p.depth + 1 then some ⟨p.depth + 1, false⟩ else none
    | .ret frames _ =>
      if frames.toNat = p.depth ∧ 0 < p.depth then some ⟨p.depth - 1, false⟩ else none
    | .rootRet frames _ => if frames.toNat = 0 ∧ p.depth = 0 then some ⟨0, true⟩ else none
    | .write .. | .regDump .. => some p

def audit (lines : List LogLine) : Option Position := lines.foldlM follow ⟨0, false⟩

def writeLine : LogLine → Option (Uint × Nat)
  | .write stream _ length => some (stream, length.toNat)
  | _ => none

inductive Tells (m m' : Machine) : List LogLine → Prop
  | silent (frames : m'.frames = m.frames) (writes : m'.writes = m.writes) : Tells m m' []
  | call (ip : SizeT) (frames : m'.frames.toNat = m.frames.toNat + 1)
      (writes : m'.writes = m.writes) : Tells m m' [.call m'.frames ip]
  | ret (ip : SizeT) (frames : m.frames.toNat = m'.frames.toNat + 1)
      (writes : m'.writes = m.writes) : Tells m m' [.ret m.frames ip]
  | rootRet (ip : SizeT) (root : m.frames = 0) (frames : m'.frames = m.frames)
      (stopped : m'.isRunning = false) (writes : m'.writes = m.writes) :
      Tells m m' [.rootRet m.frames ip]
  | write (buffer length : Uint) (w : WriteCall) (frames : m'.frames = m.frames)
      (writes : m'.writes = m.writes ++ [w]) (whole : w.bytes.length = length.toNat) :
      Tells m m' [.write w.fd buffer length]
  | regDump (register : Byte) (value : Uint) (frames : m'.frames = m.frames)
      (writes : m'.writes = m.writes) : Tells m m' [.regDump register value]

section Instructions

variable {host : Host} {m m' : Machine} {inst : Instruction} {log : List LogLine}

def Extends (log : List LogLine) (m m' : Machine) : Prop :=
  ∃ lines, m'.coreLogger = some (log ++ lines) ∧ Tells m m' lines

theorem Extends.silent (hlog : m.coreLogger = some log) (hsame : m'.coreLogger = m.coreLogger)
    (frames : m'.frames = m.frames) (writes : m'.writes = m.writes) : Extends log m m' :=
  ⟨[], by rw [hsame, hlog, List.append_nil], .silent frames writes⟩

theorem log_some (hlog : m.coreLogger = some log) (line : LogLine) :
    (m.log line).coreLogger = some (log ++ [line]) := by
  rw [Machine.log, hlog]
  rfl

theorem enter_tells (hlog : m.coreLogger = some log) (h : m.enter inst = .ok m') :
    Extends log m m' := by
  obtain ⟨⟨frameMemory, frames, pc⟩, hcall, h⟩ := bind_ok h
  obtain ⟨i, hi, hcall⟩ := bind_ok hcall
  obtain ⟨room, -⟩ := frameIndex_ok hi
  cases hcall
  cases h
  exact ⟨_, log_some (m := { m with frameMemory := _, frames := _, pc := _ }) hlog _,
    .call _ (frames_succ room) rfl⟩

theorem leave_tells (hlog : m.coreLogger = some log) (h : m.leave inst = .ok m') :
    Extends log m m' := by
  obtain ⟨value, -, h⟩ := bind_ok h
  rw [Machine.returnToCaller] at h
  split at h
  · rename_i live
    obtain ⟨i, -, h⟩ := bind_ok h
    cases h
    exact ⟨_, log_some hlog _, .ret _ (frames_pred live) rfl⟩
  · rename_i root
    obtain ⟨i, -, h⟩ := bind_ok h
    cases h
    exact ⟨_, log_some hlog _, .rootRet _ (not_not.mp root) rfl rfl rfl⟩

theorem print_tells (hlog : m.coreLogger = some log) (h : m.print host = .ok m') :
    Extends log m m' := by
  rw [Machine.print] at h
  dsimp only at h
  split at h
  · split at h
    · cases h
      exact ⟨_, log_some hlog _, .write _ _ ⟨_, _, _⟩ rfl rfl List.length_ofFn⟩
    · cases h
  · cases h

theorem regDump_tells (hlog : m.coreLogger = some log) (h : m.regDump inst = .ok m') :
    Extends log m m' := by
  rw [Machine.regDump, hlog, Option.isSome_some, if_pos rfl] at h
  obtain ⟨value, -, h⟩ := bind_ok h
  cases h
  exact ⟨_, log_some hlog _, .regDump _ _ rfl rfl⟩

theorem silent_effect {op : Option Inst} (h : Effect inst m op m') (hcall : op ≠ some .iCall)
    (hret : op ≠ some .iRet) (hprint : op ≠ some .iPrint) (hregDump : op ≠ some .iRegDump) :
    m'.coreLogger = m.coreLogger ∧ m'.frames = m.frames ∧ m'.writes = m.writes := by
  cases h with
  | call => exact absurd rfl hcall
  | ret => exact absurd rfl hret
  | rootRet => exact absurd rfl hret
  | output _ _ kind =>
    rcases kind with rfl | rfl
    · exact absurd rfl hprint
    · exact absurd rfl hregDump
  | _ => exact ⟨rfl, rfl, rfl⟩

theorem executeInst_tells (hlog : m.coreLogger = some log) (h : executeInst host m inst = .ok m') :
    Extends log m m' := by
  have heffect := executeInst_effect h
  rw [executeInst] at h
  by_cases hcall : inst.decode = some .iCall
  · rw [hcall] at h
    exact enter_tells hlog h
  by_cases hret : inst.decode = some .iRet
  · rw [hret] at h
    exact leave_tells hlog h
  by_cases hprint : inst.decode = some .iPrint
  · rw [hprint] at h
    exact print_tells hlog h
  by_cases hregDump : inst.decode = some .iRegDump
  · rw [hregDump] at h
    exact regDump_tells hlog h
  · obtain ⟨hsame, frames, writes⟩ := silent_effect heffect hcall hret hprint hregDump
    exact .silent hlog hsame frames writes

theorem Tells.of_advance {lines : List LogLine} (h : Tells m.advance m' lines) :
    Tells m m' lines := by
  cases h with
  | silent frames writes => exact .silent frames writes
  | call ip frames writes => exact .call ip frames writes
  | ret ip frames writes => exact .ret ip frames writes
  | rootRet ip root frames stopped writes => exact .rootRet ip root frames stopped writes
  | write buffer length w frames writes whole => exact .write buffer length w frames writes whole
  | regDump register value frames writes => exact .regDump register value frames writes

theorem executeOp_tells (hlog : m.coreLogger = some log) (h : executeOp host m = .ok m') :
    Extends log m m' := by
  obtain ⟨inst, hfetched, -⟩ := executeOp_effect h
  rw [executeOp_of_fetched hfetched] at h
  have hadvance : m.advance.coreLogger = some log := hlog
  obtain ⟨lines, hlines, htells⟩ := executeInst_tells hadvance h
  exact ⟨lines, hlines, htells.of_advance⟩

end Instructions

section Lines

variable {m m' : Machine} {lines : List LogLine}

def outline (w : WriteCall) : Uint × Nat := (w.fd, w.bytes.length)

theorem Tells.follows (h : Tells m m' lines) :
    ∃ ended, lines.foldlM follow ⟨m.frames.toNat, false⟩ = some ⟨m'.frames.toNat, ended⟩ ∧
      (ended = true → m'.isRunning = false) := by
  cases h with
  | silent frames writes => exact ⟨false, frames ▸ rfl, nofun⟩
  | call ip frames writes =>
    refine ⟨false, ?_, nofun⟩
    simp [follow, frames]
  | ret ip frames writes =>
    refine ⟨false, ?_, nofun⟩
    simp [follow, frames]
  | rootRet ip root frames stopped writes =>
    refine ⟨true, ?_, fun _ => stopped⟩
    simp [follow, frames, root]
  | write buffer length w frames writes whole => exact ⟨false, frames ▸ rfl, nofun⟩
  | regDump register value frames writes => exact ⟨false, frames ▸ rfl, nofun⟩

theorem Tells.writes_eq (h : Tells m m' lines) :
    m'.writes.map outline = m.writes.map outline ++ lines.filterMap writeLine := by
  cases h with
  | write buffer length w frames writes whole =>
    rw [writes, List.map_append]
    simp [writeLine, outline, whole]
  | silent frames writes | call ip frames writes | ret ip frames writes
  | rootRet ip root frames stopped writes | regDump register value frames writes =>
    rw [writes]
    exact (List.append_nil _).symm

end Lines

structure Kept (before : List LogLine) (m : Machine) (lines : List LogLine) (ended : Bool) :
    Prop where
  log : m.coreLogger = some (before ++ lines)
  position : audit lines = some ⟨m.frames.toNat, ended⟩
  stopped : ended = true → m.isRunning = false
  writes : lines.filterMap writeLine = m.writes.map outline

section Run

variable {host : Host} {m m' : Machine} {before lines : List LogLine} {ended : Bool}

theorem Kept.step (h : Kept before m lines ended) (running : m.isRunning = true)
    (hstep : executeOp host m = .ok m') : ∃ lines' ended', Kept before m' lines' ended' := by
  have hopen : ended = false := by
    by_contra hended
    rw [Bool.not_eq_false] at hended
    rw [h.stopped hended] at running
    cases running
  subst hopen
  obtain ⟨added, hlog, htells⟩ := executeOp_tells h.log hstep
  obtain ⟨ended, hfollow, hstopped⟩ := htells.follows
  refine ⟨lines ++ added, ended, ?_, ?_, hstopped, ?_⟩
  · rw [hlog, List.append_assoc]
  · have hposition := h.position
    rw [audit] at hposition ⊢
    rw [List.foldlM_append, hposition]
    exact hfollow
  · rw [List.filterMap_append, h.writes, htells.writes_eq]

theorem run_kept {g : Globals} {p : Program} {n : Nat}
    (h : executeProgram host n { initMachine g p with coreLogger := some before } = .ok m) :
    ∃ lines ended, Kept before m lines ended := by
  refine Loop.run_invariant (fun m => ∃ lines ended, Kept before m lines ended) ?_ ?_ h
  · rintro s t ⟨lines, ended, hkept⟩ hguard hstep
    exact hkept.step (guard_iff.mp hguard).2 hstep
  · refine ⟨[], false, ?_, rfl, nofun, rfl⟩
    rw [List.append_nil]

end Run

theorem log_tells_run {host : Host} {g : Globals} {p : Program} {before : List LogLine} {n : Nat}
    {m : Machine}
    (h : executeProgram host n { initMachine g p with coreLogger := some before } = .ok m) :
    ∃ lines, m.coreLogger = some (before ++ lines) ∧
      (∃ ended, audit lines = some ⟨m.frames.toNat, ended⟩ ∧
        (ended = true → m.isRunning = false)) ∧
      lines.filterMap writeLine = m.writes.map outline := by
  obtain ⟨lines, ended, hkept⟩ := run_kept h
  exact ⟨lines, hkept.log, ⟨ended, hkept.position, hkept.stopped⟩, hkept.writes⟩

theorem log_tells_run_one_call :
    ∃ m lines, executeProgram Host.integer 2
        { initMachine .zero Program.oneCall with coreLogger := some [] } = .ok m ∧
      m.coreLogger = some lines ∧ audit lines = some ⟨0, false⟩ := by
  have hrun : executeProgram Host.integer 2
      { initMachine .zero Program.oneCall with coreLogger := some [] } = .ok _ := rfl
  obtain ⟨lines, hlog, ⟨ended, hposition, hstopped⟩, -⟩ := log_tells_run hrun
  cases ended with
  | true => cases hstopped rfl
  | false => exact ⟨_, lines, hrun, hlog, hposition⟩

end LogDiscipline

end CAt
