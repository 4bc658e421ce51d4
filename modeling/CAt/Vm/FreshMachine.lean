import CAt.Vm.ExecuteOp

namespace CAt

open GuardedLoop

namespace FreshMachine

structure Outcome where
  accumRegister : Uint
  iregisters : Fin intRegCount → Uint
  fregisters : Fin fltRegCount → Float32Bits
  stackMemory : Stack

def outcome (m : Machine) : Outcome :=
  ⟨m.accumRegister, m.iregisters, m.fregisters, m.stackMemory⟩

def Observes (host : Host) (g : Globals) (p : Program) (o : Outcome) : Prop :=
  ∃ m, (vmLoop host).Finishes (initMachine g p) m ∧ outcome m = o

inductive RunsAll (host : Host) : Globals → List Program → Globals → Prop
  | nil (g : Globals) : RunsAll host g [] g
  | cons {g g' : Globals} {p : Program} {ps : List Program} {m : Machine}
      (finishes : (vmLoop host).Finishes (initMachine g p) m)
      (rest : RunsAll host m.globals ps g') : RunsAll host g (p :: ps) g'

def Fresh (host : Host) (g : Globals) : Prop :=
  ∀ p o, Observes host g p o ↔ Observes host .zero p o

theorem observes_unique {host : Host} {g : Globals} {p : Program} {o o' : Outcome}
    (h : Observes host g p o) (h' : Observes host g p o') : o = o' := by
  obtain ⟨m, hm, rfl⟩ := h
  obtain ⟨m', hm', rfl⟩ := h'
  rw [Loop.finishes_unique hm hm']

theorem observes_empty (host : Host) (g : Globals) :
    Observes host g .empty ⟨0, g.dRegisters, g.fRegisters, g.stack⟩ :=
  ⟨initMachine g .empty, ⟨0, rfl, rfl⟩, rfl⟩

theorem fresh_iff (host : Host) (g : Globals) : Fresh host g ↔ g = .zero := by
  constructor
  · intro h
    have hg := (h .empty _).mp (observes_empty host g)
    have heq := observes_unique hg (observes_empty host .zero)
    cases g
    cases heq
    rfl
  · rintro rfl p o
    exact Iff.rfl

def HistoryIndependent (host : Host) (ps : List Program) : Prop :=
  ∀ g, RunsAll host .zero ps g → Fresh host g

theorem historyIndependent_iff (host : Host) (ps : List Program) :
    HistoryIndependent host ps ↔ ∀ g, RunsAll host .zero ps g → g = .zero := by
  constructor
  · intro h g hruns
    exact (fresh_iff host g).mp (h g hruns)
  · intro h g hruns
    exact (fresh_iff host g).mpr (h g hruns)

def LeavesZero (host : Host) (p : Program) : Prop :=
  ∀ m, (vmLoop host).Finishes (initMachine .zero p) m → m.globals = .zero

theorem historyIndependent_of_leavesZero {host : Host} {ps : List Program}
    (h : ∀ p ∈ ps, LeavesZero host p) : HistoryIndependent host ps := by
  rw [historyIndependent_iff]
  intro g hruns
  induction ps with
  | nil =>
    cases hruns
    rfl
  | cons p ps ih =>
    cases hruns with
    | cons finishes rest =>
      rw [h p List.mem_cons_self _ finishes] at rest
      exact ih (fun q hq => h q (List.mem_cons_of_mem p hq)) rest

def incDec : Program :=
  ⟨[Build.inc 0, Build.inc 0, Build.inc 0, Build.inc 0, Build.regDump 0, Build.dec 0, Build.dec 0,
    Build.regDump 0, Build.ret 0], by decide⟩

theorem incDec_runs : ∃ m m', (vmLoop Host.integer).Finishes (initMachine .zero incDec) m ∧
    m.accumRegister = 2 ∧ (vmLoop Host.integer).Finishes (initMachine m.globals incDec) m' ∧
    m'.accumRegister = 4 :=
  ⟨_, _, ⟨9, rfl, rfl⟩, rfl, ⟨9, rfl, rfl⟩, rfl⟩

theorem incDec_not_historyIndependent : ¬ HistoryIndependent Host.integer [incDec] := by
  obtain ⟨m, m', hfirst, htwo, hsecond, hfour⟩ := incDec_runs
  intro h
  have hfresh := h m.globals (.cons hfirst (.nil _)) incDec (outcome m')
  have hobserved := hfresh.mp ⟨m', hsecond, rfl⟩
  have heq := observes_unique hobserved ⟨m, hfirst, rfl⟩
  have haccum : m'.accumRegister = m.accumRegister := congrArg Outcome.accumRegister heq
  rw [htwo, hfour] at haccum
  exact absurd haccum (by decide)

end FreshMachine

end CAt
