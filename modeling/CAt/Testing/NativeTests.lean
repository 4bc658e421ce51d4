import CAt.Vm.LogDiscipline

namespace CAt

open GuardedLoop
open LogDiscipline (Position follow audit writeLine outline)

structure TestProgram where
  desiredReturn : Uint
  name : String
  program : Program

structure TestResult where
  sucess : Bool
  returnCode : Byte
deriving DecidableEq, Repr

-- The same system when the process has made these calls before.
def Host.after (host : Host) (writes : List WriteCall) : Host :=
  { host with write := fun calls fd bytes => host.write (writes ++ calls) fd bytes }

inductive TesterFault where
  | vm (fault : Fault)
  | unfinished
deriving DecidableEq, Repr

inductive DumpLine where
  | executionStart
  | executionEnd
  | line (l : LogLine)
deriving DecidableEq, Repr

-- What is printed of a test, without its colours and its time. The return code is a char.
inductive Report where
  | ok (name : String)
  | fail (name : String) (returned : Uint)
deriving DecidableEq, Repr

def Report.isOk : Report → Bool
  | ok _ => true
  | fail .. => false

-- The globals, the calls of write and the log outlive the tests of one process.
structure Tester where
  globals : Globals
  writes : List WriteCall
  log : List DumpLine
  sucessfulTests : SizeT
  allTestsPassed : Bool
  reports : List Report

namespace Tester

def start (g : Globals) : Tester := ⟨g, [], [], 0, true, []⟩

end Tester

def runSetProgram (host : Host) (fuel : Nat) (g : Globals) (entry : TestProgram) :
    Except TesterFault (TestResult × Machine) :=
  match executeProgram host fuel { initMachine g entry.program with coreLogger := some [] } with
  | .error e => .error (.vm e)
  | .ok m =>
    if (vmLoop host).guard m then .error .unfinished else
      .ok (⟨decide (entry.desiredReturn = m.accumRegister), m.accumRegister.setWidth 8⟩, m)

def report (item : TestProgram) (r : TestResult) : Report :=
  if r.sucess then .ok item.name else .fail item.name (r.returnCode.signExtend 32)

def executionSection (m : Machine) : List DumpLine :=
  .executionStart :: (m.coreLogger.getD []).map .line ++ [.executionEnd]

def Tester.record (t : Tester) (item : TestProgram) (r : TestResult) (m : Machine) : Tester where
  globals := m.globals
  writes := t.writes ++ m.writes
  log := t.log ++ executionSection m
  sucessfulTests := if r.sucess then t.sucessfulTests + 1 else t.sucessfulTests
  allTestsPassed := t.allTestsPassed && r.sucess
  reports := t.reports ++ [report item r]

-- `i` is a uint: the loop is that of run_native_tests for lists of fewer than 2 ^ 32 tests.
def runNativeTests (host : Host) (fuel : Nat) (list : List TestProgram) (t : Tester) :
    Except TesterFault Tester :=
  list.foldlM (fun t item => do
    let (r, m) ← runSetProgram (host.after t.writes) fuel t.globals item
    return t.record item r m) t

namespace NativeTests

def result (item : TestProgram) (m : Machine) : TestResult :=
  ⟨decide (item.desiredReturn = m.accumRegister), m.accumRegister.setWidth 8⟩

inductive Session (host : Host) : Globals → List WriteCall → List TestProgram → List Machine → Prop
  | nil (g : Globals) (writes : List WriteCall) : Session host g writes [] []
  | cons {g : Globals} {writes : List WriteCall} {item : TestProgram} {items : List TestProgram}
      {m : Machine} {ms : List Machine}
      (finishes : (vmLoop (host.after writes)).Finishes
        { initMachine g item.program with coreLogger := some [] } m)
      (rest : Session host m.globals (writes ++ m.writes) items ms) :
      Session host g writes (item :: items) (m :: ms)

def tell (t : Tester) (items : List TestProgram) (ms : List Machine) : Tester :=
  (items.zip ms).foldl (fun t im => t.record im.1 (result im.1 im.2) im.2) t

section Refinement

variable {host : Host} {fuel : Nat} {g : Globals} {item : TestProgram} {items : List TestProgram}
  {t t' : Tester} {m : Machine} {ms : List Machine}

theorem runSetProgram_finishes {r : TestResult} (h : runSetProgram host fuel g item = .ok (r, m)) :
    executeProgram host fuel { initMachine g item.program with coreLogger := some [] } = .ok m ∧
      (vmLoop host).guard m = false ∧ r = result item m := by
  rw [runSetProgram] at h
  split at h
  · cases h
  · rename_i u hrun
    split at h
    · cases h
    · rename_i hguard
      cases h
      exact ⟨hrun, Bool.eq_false_iff.mpr hguard, rfl⟩

theorem runSetProgram_of_run {n : Nat} (hn : n ≤ fuel)
    (hrun : executeProgram host n { initMachine g item.program with coreLogger := some [] } = .ok m)
    (hguard : (vmLoop host).guard m = false) :
    runSetProgram host fuel g item = .ok (result item m, m) := by
  obtain ⟨k, rfl⟩ := Nat.exists_eq_add_of_le hn
  have hlong : executeProgram host (n + k)
      { initMachine g item.program with coreLogger := some [] } = .ok m :=
    Loop.run_finished hrun hguard k
  rw [runSetProgram, hlong]
  simp only [hguard, Bool.false_eq_true, if_false]
  rfl

theorem runNativeTests_cons (items : List TestProgram) :
    runNativeTests host fuel (item :: items) t = (do
      let (r, m) ← runSetProgram (host.after t.writes) fuel t.globals item
      runNativeTests host fuel items (t.record item r m)) := by
  rw [runNativeTests, List.foldlM_cons, bind_assoc]
  rfl

theorem session_of_run (h : runNativeTests host fuel items t = .ok t') :
    ∃ ms, Session host t.globals t.writes items ms ∧ t' = tell t items ms := by
  induction items generalizing t with
  | nil =>
    cases h
    exact ⟨[], .nil _ _, rfl⟩
  | cons item items ih =>
    rw [runNativeTests_cons] at h
    obtain ⟨⟨r, m⟩, hitem, hrest⟩ := Loop.bind_ok h
    obtain ⟨hrun, hguard, rfl⟩ := runSetProgram_finishes hitem
    obtain ⟨ms, hsession, rfl⟩ := ih hrest
    exact ⟨m :: ms, .cons ⟨fuel, hrun, hguard⟩ hsession, rfl⟩

theorem run_of_session (h : Session host t.globals t.writes items ms) :
    ∃ least, ∀ fuel, least ≤ fuel → runNativeTests host fuel items t = .ok (tell t items ms) := by
  generalize hg : t.globals = g at h
  generalize hwrites : t.writes = writes at h
  induction h generalizing t with
  | nil => exact ⟨0, fun _ _ => rfl⟩
  | @cons g writes item items m ms finishes rest ih =>
    subst hg hwrites
    obtain ⟨n, hrun, hguard⟩ := finishes
    obtain ⟨least, hleast⟩ := ih (t := t.record item (result item m) m) rfl rfl
    refine ⟨max n least, fun fuel hfuel => ?_⟩
    have hitem : runSetProgram (host.after t.writes) fuel t.globals item =
        .ok (result item m, m) :=
      runSetProgram_of_run (Nat.le_trans (Nat.le_max_left _ _) hfuel) hrun hguard
    rw [runNativeTests_cons, hitem]
    exact hleast fuel (Nat.le_trans (Nat.le_max_right _ _) hfuel)

end Refinement

section Dump

inductive DumpState where
  | between (done : Nat)
  | inside (done : Nat) (p : Position)
deriving DecidableEq, Repr

def readLine : DumpState → DumpLine → Option DumpState
  | .between done, .executionStart => some (.inside done ⟨0, false⟩)
  | .inside done p, .line l => (follow p l).map (.inside done)
  | .inside done _, .executionEnd => some (.between (done + 1))
  | _, _ => none

def readDump (log : List DumpLine) : Option DumpState := log.foldlM readLine (.between 0)

def dumpWrite : DumpLine → Option (Uint × Nat)
  | .line l => writeLine l
  | _ => none

variable {host : Host} {g : Globals} {item : TestProgram} {m : Machine} {lines : List LogLine}

theorem readLines {done : Nat} {p q : Position} (h : lines.foldlM follow p = some q) :
    (lines.map DumpLine.line).foldlM readLine (.inside done p) = some (.inside done q) := by
  induction lines generalizing p with
  | nil =>
    cases h
    rfl
  | cons l lines ih =>
    rw [List.foldlM_cons] at h
    obtain ⟨p', hfollow, hrest⟩ := Option.bind_eq_some_iff.mp h
    rw [List.map_cons, List.foldlM_cons, readLine, hfollow]
    exact ih hrest

structure Told (m : Machine) : Prop where
  read : ∀ done, (executionSection m).foldlM readLine (.between done) = some (.between (done + 1))
  writes : (executionSection m).filterMap dumpWrite = m.writes.map outline

theorem told_of_finishes
    (h : (vmLoop host).Finishes { initMachine g item.program with coreLogger := some [] } m) :
    Told m := by
  obtain ⟨n, hrun, -⟩ := h
  obtain ⟨lines, ended, hkept⟩ := LogDiscipline.run_kept hrun
  have hsection : executionSection m =
      .executionStart :: lines.map DumpLine.line ++ [.executionEnd] := by
    rw [executionSection, hkept.log]
    rfl
  refine ⟨fun done => ?_, ?_⟩
  · have hlines : (lines.map DumpLine.line).foldlM readLine (.inside done ⟨0, false⟩) = _ :=
      readLines hkept.position
    rw [hsection, List.cons_append, List.foldlM_cons, readLine, Option.bind_eq_bind,
      Option.bind_some, List.foldlM_append, hlines]
    rfl
  · rw [hsection, ← hkept.writes, List.cons_append, List.filterMap_cons, List.filterMap_append,
      List.filterMap_map]
    simp [dumpWrite, Function.comp_def]

end Dump

structure Accounted (done : Nat) (t : Tester) : Prop where
  dump : readDump t.log = some (.between done)
  writes : t.log.filterMap dumpWrite = t.writes.map outline
  length : t.reports.length = done
  counted : t.sucessfulTests.toNat = t.reports.countP Report.isOk
  verdict : t.allTestsPassed = t.reports.all Report.isOk

section Account

variable {host : Host} {fuel done : Nat} {g : Globals} {writes : List WriteCall}
  {item : TestProgram} {items : List TestProgram} {t : Tester} {m : Machine} {ms : List Machine}

theorem isOk_report (item : TestProgram) (r : TestResult) : (report item r).isOk = r.sucess := by
  rw [report]
  cases r.sucess <;> rfl

theorem accounted_start (g : Globals) : Accounted 0 (.start g) := ⟨rfl, rfl, rfl, rfl, rfl⟩

theorem Accounted.record (h : Accounted done t) (hm : Told m) (hdone : done < 2 ^ 32)
    (r : TestResult) : Accounted (done + 1) (t.record item r m) where
  dump := by
    have hdump := h.dump
    rw [readDump] at hdump
    rw [readDump, Tester.record, List.foldlM_append, hdump]
    exact hm.read done
  writes := by
    rw [Tester.record, List.filterMap_append, List.map_append, h.writes, hm.writes]
  length := by
    rw [Tester.record, List.length_append, h.length]
    rfl
  counted := by
    have hle : t.reports.countP Report.isOk ≤ done := h.length ▸ List.countP_le_length
    have hcounted := h.counted
    rw [Tester.record, List.countP_append, List.countP_singleton, isOk_report, ← hcounted]
    cases r.sucess with
    | true =>
      simp only [if_true]
      bv_omega
    | false => rfl
  verdict := by
    rw [Tester.record, List.all_append, ← h.verdict, List.all_cons, isOk_report, List.all_nil,
      Bool.and_true]

theorem Accounted.session (h : Accounted done t) (hsession : Session host g writes items ms)
    (hsize : done + items.length ≤ 2 ^ 32) : Accounted (done + items.length) (tell t items ms) := by
  induction hsession generalizing t done with
  | nil => exact h
  | @cons g writes item items m ms finishes rest ih =>
    rw [List.length_cons] at hsize ⊢
    have hrecord : Accounted (done + 1) (t.record item (result item m) m) :=
      h.record (told_of_finishes finishes) (by omega) _
    have hrest := ih hrecord (by omega)
    rw [Nat.add_assoc, Nat.add_comm 1] at hrest
    exact hrest

theorem tell_reports (t : Tester) (items : List TestProgram) (ms : List Machine) :
    (tell t items ms).reports =
      t.reports ++ List.zipWith (fun item m => report item (result item m)) items ms := by
  induction items generalizing t ms with
  | nil => exact (List.append_nil _).symm
  | cons item items ih =>
    cases ms with
    | nil => exact (List.append_nil _).symm
    | cons m ms =>
      have htail := ih (t.record item (result item m) m) ms
      rw [Tester.record, List.append_assoc] at htail
      exact htail

theorem Accounted.all_passed_iff (h : Accounted done t) :
    t.allTestsPassed = true ↔ t.sucessfulTests.toNat = done := by
  rw [h.verdict, h.counted, ← h.length, List.countP_eq_length, List.all_eq_true]

theorem native_tests_account {list : List TestProgram} (hsize : list.length < 2 ^ 32) (host : Host)
    (g : Globals) :
    ((∃ fuel t, runNativeTests host fuel list (.start g) = .ok t) ↔
      ∃ ms, Session host g [] list ms) ∧
    ∀ fuel t, runNativeTests host fuel list (.start g) = .ok t →
      (∃ ms, Session host g [] list ms ∧
        t.reports = List.zipWith (fun item m => report item (result item m)) list ms) ∧
      readDump t.log = some (.between list.length) ∧
      t.log.filterMap dumpWrite = t.writes.map outline ∧
      (t.allTestsPassed = true ↔ t.sucessfulTests.toNat = list.length) := by
  refine ⟨⟨?_, ?_⟩, ?_⟩
  · rintro ⟨fuel, t, h⟩
    obtain ⟨ms, hsession, -⟩ := session_of_run h
    exact ⟨ms, hsession⟩
  · rintro ⟨ms, hsession⟩
    obtain ⟨least, hleast⟩ := run_of_session (t := .start g) hsession
    exact ⟨least, _, hleast least (Nat.le_refl _)⟩
  · intro fuel t h
    obtain ⟨ms, hsession, rfl⟩ := session_of_run h
    have haccounted := (accounted_start g).session hsession (by omega)
    rw [Nat.zero_add] at haccounted
    refine ⟨⟨ms, hsession, ?_⟩, haccounted.dump, haccounted.writes, haccounted.all_passed_iff⟩
    exact (tell_reports _ _ _).trans (List.nil_append _)

def returnTwice : List TestProgram :=
  [⟨0, "ret", ⟨[Build.ret 0], by decide⟩⟩, ⟨7, "ret", ⟨[Build.ret 0], by decide⟩⟩]

theorem native_tests_account_twice :
    ∃ fuel t, runNativeTests Host.integer fuel returnTwice (.start .zero) = .ok t ∧
      readDump t.log = some (.between 2) := by
  have hfinishes (host : Host) (g : Globals) : ∃ m, (vmLoop host).Finishes
      { initMachine g ⟨[Build.ret 0], by decide⟩ with coreLogger := some [] } m := by
    have hrun : executeProgram host 1
        { initMachine g ⟨[Build.ret 0], by decide⟩ with coreLogger := some [] } = .ok _ := rfl
    exact ⟨_, 1, hrun, rfl⟩
  obtain ⟨first, hfirst⟩ := hfinishes (Host.integer.after []) .zero
  obtain ⟨second, hsecond⟩ := hfinishes (Host.integer.after ([] ++ first.writes)) first.globals
  have hsession : Session Host.integer .zero [] returnTwice [first, second] :=
    .cons hfirst (.cons hsecond (.nil _ _))
  have hsize : returnTwice.length < 2 ^ 32 := by decide
  obtain ⟨hruns, haccount⟩ := native_tests_account hsize Host.integer .zero
  obtain ⟨fuel, t, hrun⟩ := hruns.mpr ⟨_, hsession⟩
  obtain ⟨-, hdump, -⟩ := haccount fuel t hrun
  exact ⟨fuel, t, hrun, hdump⟩

end Account

end NativeTests

end CAt
