import CAt.Language.Semantics
import CAt.Language.Simulation
import CAt.Vm.Relocation

namespace CAt

namespace Language

open GuardedLoop
open Relocation (relocate takesAddress)

namespace Statement

def target : Statement → Option Target
  | jump t => some t
  | call t => some t
  | branch _ t _ => some t
  | _ => none

def symbolic (s : Statement) : Bool :=
  match s.target with
  | some (.address _) => false
  | _ => true

end Statement

def State.shift (n : Nat) (s : State) : State :=
  { s with next := s.next + n, callers := s.callers.map (· + n) }

structure Linked (p q r : Source) : Prop where
  lines : r.lines = p.lines ++ q.lines
  symbolic : ∀ s ∈ q.statements, s.symbolic = true
  fresh : ∀ s ∈ q.statements, ∀ name ∈ s.names, name ∉ definitions p.lines

section Positions

variable {name : LabelName} {n : Nat}

theorem statements_append (ls ls' : List Line) :
    statements (ls ++ ls') = statements ls ++ statements ls' := by
  induction ls with
  | nil => rfl
  | cons l ls ih =>
    cases l with
    | label other => exact ih
    | statement s => exact congrArg (s :: ·) ih

theorem findFrom_add (name : LabelName) (n k : Nat) (ls : List Line) :
    findFrom name (n + k) ls = (findFrom name n ls).map (· + k) := by
  induction ls generalizing n with
  | nil => rfl
  | cons l ls ih =>
    cases l with
    | label other =>
      rw [findFrom, findFrom]
      split
      · rfl
      · exact ih n
    | statement s =>
      rw [findFrom, findFrom, Nat.add_right_comm]
      exact ih (n + 1)

theorem findFrom_append_of_some {ls : List Line} {k : Nat} (h : findFrom name n ls = some k)
    (ls' : List Line) : findFrom name n (ls ++ ls') = some k := by
  induction ls generalizing n with
  | nil => cases h
  | cons l ls ih =>
    cases l with
    | label other =>
      rw [List.cons_append, findFrom]
      rw [findFrom] at h
      split at h
      · rename_i heq
        rw [if_pos heq]
        exact h
      · rename_i hne
        rw [if_neg hne]
        exact ih h
    | statement s => exact ih h

theorem findFrom_append_of_fresh {ls : List Line} (h : name ∉ definitions ls) (ls' : List Line) :
    findFrom name n (ls ++ ls') = findFrom name (n + (statements ls).length) ls' := by
  induction ls generalizing n with
  | nil => rfl
  | cons l ls ih =>
    cases l with
    | label other =>
      rw [definitions, List.mem_cons, not_or] at h
      rw [List.cons_append, findFrom, if_neg (Ne.symm h.1)]
      exact ih h.2
    | statement s =>
      rw [List.cons_append, findFrom, ih h, statements, List.length_cons, Nat.add_assoc,
        Nat.add_comm 1]

end Positions

section Encode

variable {host : Host} {place place' : LabelName → Nat} {n : Nat}

theorem addToI32_ofI32 (v : BitVec 32) (n : Nat) :
    Relocation.addToI32 (.ofI32 v) n = .ofI32 (v + BitVec.ofNat 32 n) := by
  have hhigh : (UniformStrg.ofI32 v).extractLsb' 32 32 = 0#32 := by
    ext i hi
    simp [UniformStrg.ofI32]
  rw [Relocation.addToI32, hhigh, UniformStrg.asI32_ofI32]
  apply BitVec.eq_of_toNat_eq
  rw [BitVec.toNat_append, UniformStrg.ofI32, BitVec.toNat_setWidth]
  have hlt : (v + BitVec.ofNat 32 n).toNat < 2 ^ 64 :=
    Nat.lt_trans (v + BitVec.ofNat 32 n).isLt (by decide)
  rw [Nat.mod_eq_of_lt hlt, BitVec.toNat_zero, Nat.zero_shiftLeft, Nat.zero_or]

theorem relocate_operands {op : Inst} (h : takesAddress op = true) (r0 r1 r2 : Byte) (k n : Nat) :
    relocate n (Build.operands op r0 r1 r2 (.ofI32 (BitVec.ofNat 32 k))) =
      Build.operands op r0 r1 r2 (.ofI32 (BitVec.ofNat 32 (k + n))) := by
  have hany : (Build.operands op r0 r1 r2 (.ofI32 (BitVec.ofNat 32 k))).decode.any takesAddress =
      true := by
    rw [Build.decode_operands]
    exact h
  rw [relocate, if_pos hany, Build.storage_operands, addToI32_ofI32, BitVec.ofNat_add]
  rfl

theorem target_names {s : Statement} {t : Target} (h : s.target = some t) :
    ∀ name ∈ t.argument.names, name ∈ s.names := by
  intro name hname
  cases s with
  | jump t' | call t' | branch _ t' _ =>
    cases h
    exact List.mem_append_left _ hname
  | _ => cases h

theorem resolve_congr {s : Statement} {t : Target} (ht : s.target = some t)
    (h : ∀ name ∈ s.names, place' name = place name) : t.resolve place' = t.resolve place := by
  have hnames := target_names ht
  cases t with
  | address a => rfl
  | label name => exact h name (hnames name List.mem_cons_self)

theorem resolve_shift {s : Statement} {t : Target} (hs : s.symbolic = true) (ht : s.target = some t)
    (h : ∀ name ∈ s.names, place' name = place name + n) :
    t.resolve place' = t.resolve place + n := by
  have hnames := target_names ht
  cases t with
  | address a =>
    rw [Statement.symbolic, ht] at hs
    cases hs
  | label name => exact h name (hnames name List.mem_cons_self)

theorem encode_congr {s : Statement} (h : ∀ name ∈ s.names, place' name = place name) :
    s.encode host place' = s.encode host place := by
  cases s with
  | jump t | call t | branch _ t _ => rw [Statement.encode, Statement.encode, resolve_congr rfl h]
  | _ => rfl

theorem encode_shift {s : Statement} (hs : s.symbolic = true)
    (h : ∀ name ∈ s.names, place' name = place name + n) :
    s.encode host place' = relocate n (s.encode host place) := by
  have hfixed {op : Inst} (hop : takesAddress op = false) (r0 r1 r2 : Byte) (v : UniformStrg) :
      Build.operands op r0 r1 r2 v = relocate n (Build.operands op r0 r1 r2 v) :=
    (Relocation.relocate_of_not_address (Build.decode_operands ..) hop).symm
  cases s with
  | jump t | call t =>
    rw [Statement.encode, Statement.encode, resolve_shift hs rfl h]
    exact (relocate_operands rfl _ _ _ _ _).symm
  | branch equal t =>
    rw [Statement.encode, Statement.encode, resolve_shift hs rfl h]
    cases equal <;> exact (relocate_operands rfl _ _ _ _ _).symm
  | registers mn r =>
    rcases mn with c | _ | _ | _
    · cases c <;> exact hfixed rfl _ _ _ _
    all_goals exact hfixed rfl _ _ _ _
  | computeFloats op | compareFloats op | cast op => cases op <;> exact hfixed rfl _ _ _ _
  | _ => exact hfixed rfl _ _ _ _

end Encode

section Perform

variable {host : Host} {place place' : LabelName → Nat} {n : Nat} {s : State}

theorem perform_congr {statement : Statement}
    (h : ∀ name ∈ statement.names, place' name = place name) :
    perform host place' s statement = perform host place s statement := by
  cases statement with
  | jump t | call t | branch _ t _ => rw [perform, perform, resolve_congr rfl h]
  | registers mn r => cases mn <;> rfl
  | _ => rfl

theorem advance_shift (n : Nat) (s : State) : (s.shift n).advance = s.advance.shift n :=
  congrArg (fun next => { s with next, callers := s.callers.map (· + n) })
    (Nat.add_right_comm s.next n 1)

theorem ite_shift {c : Prop} [Decidable c] {a a' b b' : Except Fault State}
    (ha : a' = State.shift n <$> a) (hb : b' = State.shift n <$> b) :
    (if c then a' else b') = State.shift n <$> if c then a else b := by
  subst ha hb
  split <;> rfl

theorem printed_shift (n : Nat) (s : State) :
    printed host (s.shift n) = State.shift n <$> printed host s :=
  ite_shift (ite_shift rfl rfl) rfl

theorem registers_shift (n : Nat) (s : State) (mn : RegisterInstructions.Mnemonic)
    (r : Fin 3 → Fin intRegCount) :
    perform host place' (s.shift n) (.registers mn r) =
      State.shift n <$> perform host place s (.registers mn r) := by
  have hadvance := advance_shift n s
  cases mn with
  | compute c =>
    exact ite_shift rfl (congrArg (fun t => Except.ok (State.assign t (r 0) _)) hadvance)
  | push =>
    exact ite_shift (congrArg (fun t => Except.ok { t with stack := s.registers (r 0) :: s.stack })
      hadvance) rfl
  | pop =>
    have hstack : (s.shift n).stack = s.stack := rfl
    rw [perform, perform, hadvance, hstack]
    cases s.stack <;> rfl
  | ret =>
    have hcallers : (s.shift n).callers = s.callers.map (· + n) := rfl
    rw [perform, perform, hadvance, hcallers]
    cases s.callers <;> rfl

theorem perform_shift {statement : Statement} (hs : statement.symbolic = true)
    (h : ∀ name ∈ statement.names, place' name = place name + n) :
    perform host place' (s.shift n) statement =
      State.shift n <$> perform host place s statement := by
  have hadvance := advance_shift n s
  cases statement with
  | halt => exact congrArg (fun t => Except.ok { t with running := false }) hadvance
  | record =>
    have hlength : (s.shift n).callers.length = s.callers.length := List.length_map _
    rw [perform, perform, hlength]
    exact ite_shift (congrArg Except.ok hadvance) rfl
  | print =>
    rw [perform, perform, hadvance]
    exact printed_shift n s.advance
  | registers mn r => exact registers_shift n s mn r
  | computeFloats op x y z =>
    exact congrArg (fun t => Except.ok (State.assignFloat t x _)) hadvance
  | compareFloats op x y z =>
    exact congrArg (fun t => Except.ok (State.assign t x _)) hadvance
  | cast op x y =>
    rw [perform, perform, hadvance]
    cases op <;> rfl
  | regDump => exact congrArg Except.ok hadvance
  | set x v => exact congrArg (fun t => Except.ok (State.assign t x _)) hadvance
  | fset x v => exact congrArg (fun t => Except.ok (State.assignFloat t x _)) hadvance
  | jump t =>
    rw [perform, perform, resolve_shift hs rfl h]
    rfl
  | call t =>
    have hlength : (s.shift n).callers.length = s.callers.length := List.length_map _
    rw [perform, perform, resolve_shift hs rfl h, hlength]
    refine ite_shift (congrArg Except.ok ?_) rfl
    rw [State.shift, State.shift, List.map_cons, Nat.add_right_comm]
  | branch equal t x =>
    rw [perform, perform, resolve_shift hs rfl h, hadvance]
    exact ite_shift rfl rfl

end Perform

namespace Linked

variable {p q r : Source} {host : Host}

theorem statements_eq (h : Linked p q r) : r.statements = p.statements ++ q.statements := by
  rw [Source.statements, h.lines, statements_append]
  rfl

theorem position_left (h : Linked p q r) {s : Statement} (hs : s ∈ p.statements)
    {name : LabelName} (hname : name ∈ s.names) : r.position name = p.position name := by
  obtain ⟨k, hk⟩ := Option.isSome_iff_exists.mp (p.defined s hs name hname)
  rw [Source.position, Source.position, h.lines, findFrom_append_of_some hk, hk]

theorem position_right (h : Linked p q r) {s : Statement} (hs : s ∈ q.statements)
    {name : LabelName} (hname : name ∈ s.names) :
    r.position name = q.position name + p.statements.length := by
  obtain ⟨k, hk⟩ := Option.isSome_iff_exists.mp (q.defined s hs name hname)
  rw [Source.position, Source.position, h.lines, findFrom_append_of_fresh (h.fresh s hs name hname),
    Source.statements, findFrom_add, hk]
  rfl

theorem code_eq (h : Linked p q r) (host : Host) :
    r.code host = p.code host ++ (q.code host).map (relocate p.statements.length) := by
  have hleft : p.statements.map (·.encode host r.position) = p.code host :=
    List.map_congr_left fun s hs => encode_congr fun name hname => h.position_left hs hname
  have hright : q.statements.map (·.encode host r.position) =
      (q.code host).map (relocate p.statements.length) := by
    rw [Source.code, List.map_map]
    exact List.map_congr_left fun s hs =>
      encode_shift (h.symbolic s hs) fun name hname => h.position_right hs hname
  rw [Source.code, h.statements_eq, List.map_append, hleft, hright]

theorem length_eq (h : Linked p q r) :
    r.statements.length = p.statements.length + q.statements.length := by
  rw [h.statements_eq, List.length_append]

theorem guard_right (h : Linked p q r) (s : State) :
    (machine host q).guard s = (machine host r).guard (s.shift p.statements.length) := by
  have hnext : s.next < q.statements.length ↔
      s.next + p.statements.length < r.statements.length := by
    rw [h.length_eq]
    omega
  simp only [machine, State.shift, hnext]

theorem step_right (h : Linked p q r) (s : State) :
    step host r (s.shift p.statements.length) =
      State.shift p.statements.length <$> step host q s := by
  have hstatement : r.statements[(s.shift p.statements.length).next]? = q.statements[s.next]? := by
    have hle : p.statements.length ≤ s.next + p.statements.length := Nat.le_add_left _ _
    rw [h.statements_eq]
    change (p.statements ++ q.statements)[s.next + p.statements.length]? = _
    rw [List.getElem?_append_right hle, Nat.add_sub_cancel]
  rw [step, step, hstatement]
  cases hs : q.statements[s.next]? with
  | none => rfl
  | some statement =>
    have hmem : statement ∈ q.statements := List.mem_of_getElem? hs
    exact perform_shift (h.symbolic statement hmem) fun name hname => h.position_right hmem hname

theorem run_right (h : Linked p q r) (s : State) (k : Nat) :
    Loop.Alike (fun s t => t = s.shift p.statements.length) ((machine host q).run k s)
      ((machine host r).run k (s.shift p.statements.length)) := by
  refine Loop.run_alike (fun (s t : State) => t = s.shift p.statements.length) ?_ ?_ rfl k
  · rintro s _ rfl
    exact h.guard_right s
  · rintro s _ rfl -
    change Loop.Alike _ (step host q s) (step host r _)
    rw [h.step_right]
    cases step host q s with
    | error e => exact .error e
    | ok t => exact .ok rfl

theorem step_left (h : Linked p q r) {s : State} (hnext : s.next < p.statements.length) :
    step host r s = step host p s := by
  have hstatement : r.statements[s.next]? = p.statements[s.next]? := by
    rw [h.statements_eq, List.getElem?_append_left hnext]
  rw [step, step, hstatement, List.getElem?_eq_getElem hnext]
  exact perform_congr fun name hname => h.position_left (List.getElem_mem hnext) hname

theorem run_left (h : Linked p q r) {k : Nat} {s s' : State}
    (hrun : (machine host p).run k s = .ok s') (hstopped : s'.running = false) :
    (machine host r).run k s = .ok s' := by
  induction k generalizing s with
  | zero => exact hrun
  | succ k ih =>
    cases hguard : (machine host p).guard s with
    | true =>
      obtain ⟨hrunning, hnext⟩ := Bool.and_eq_true_iff.mp hguard
      have hlt : s.next < p.statements.length := of_decide_eq_true hnext
      have hlt' : s.next < r.statements.length := by
        rw [h.length_eq]
        omega
      have hguard' : (machine host r).guard s = true :=
        Bool.and_eq_true_iff.mpr ⟨hrunning, decide_eq_true hlt'⟩
      rw [Loop.run_succ, Loop.iterate_of_guard hguard] at hrun
      obtain ⟨u, hu, hrest⟩ := Loop.bind_ok hrun
      have hbody : (machine host r).body s = .ok u := (h.step_left hlt).trans hu
      rw [Loop.run_succ, Loop.iterate_of_guard hguard', hbody, Loop.ok_bind]
      exact ih hrest
    | false =>
      rw [Loop.run_of_not_guard hguard] at hrun
      cases hrun
      have hguard' : (machine host r).guard s' = false := by
        change (s'.running && _) = false
        rw [hstopped]
        rfl
      exact Loop.run_of_not_guard hguard' _

end Linked

theorem linked_source {p q r : Source} (h : Linked p q r) (host : Host) :
    r.code host = p.code host ++ (q.code host).map (relocate p.statements.length) ∧
      (∀ s, Returns host p s → s.running = false → Returns host r s) ∧
      ∀ k, Loop.Alike (fun s t => t = s.shift p.statements.length) (run host q k)
        ((machine host r).run k (State.init.shift p.statements.length)) := by
  refine ⟨h.code_eq host, ?_, h.run_right .init⟩
  rintro s ⟨k, hrun, -⟩ hstopped
  refine ⟨k, h.run_left hrun hstopped, ?_⟩
  change (s.running && _) = false
  rw [hstopped]
  rfl

-- jmp Lg, g: set r1 7, ret r1
def jumpOn : Source where
  lines :=
    let g : LabelName := .ofLetter 'g' rfl
    [.statement (.jump (.label g)), .label g, .statement (.set reg1 ⟨7, by decide⟩),
      .statement (.registers .ret fun _ => reg1)]
  apart := rfl
  statementsFit := by decide
  labelsFit := by decide
  defined := by decide

def addOneJumpOn : Source where
  lines := addOne.lines ++ jumpOn.lines
  apart := rfl
  statementsFit := by decide
  labelsFit := by decide
  defined := by decide

theorem linked_source_jumpOn :
    addOneJumpOn.code Host.integer =
      addOne.code Host.integer ++ (jumpOn.code Host.integer).map (relocate 5) := by
  have hlinked : Linked addOne jumpOn addOneJumpOn := ⟨rfl, by decide, by decide⟩
  exact (linked_source hlinked Host.integer).1

end Language

end CAt
