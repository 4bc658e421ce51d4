import CAt.Language.Linking
import CAt.Toolchain.EndToEnd

namespace CAt

namespace Language

open Toolchain (Holds assembleSource_holds holds_page textBytes zeroLeftovers)

def Target.rename (f : LabelName → LabelName) : Target → Target
  | address a => .address a
  | label name => .label (f name)

def Statement.rename (f : LabelName → LabelName) : Statement → Statement
  | jump target => .jump (target.rename f)
  | call target => .call (target.rename f)
  | branch equal target x => .branch equal (target.rename f) x
  | s => s

def Line.rename (f : LabelName → LabelName) : Line → Line
  | label name => .label (f name)
  | statement s => .statement (s.rename f)

structure Renamed (f : LabelName → LabelName) (p q : Source) : Prop where
  lines : q.lines = p.lines.map (Line.rename f)
  distinct : ∀ a ∈ definitions p.lines, ∀ s ∈ p.statements, ∀ b ∈ s.names, f a = f b → a = b

variable {f : LabelName → LabelName} {p q : Source} {place : LabelName → Nat}
  {host : Host} {s : Statement}

theorem findFrom_rename {name : LabelName} {n : Nat} {ls : List Line}
    (h : ∀ a ∈ definitions ls, f a = f name → a = name) :
    findFrom (f name) n (ls.map (Line.rename f)) = findFrom name n ls := by
  induction ls generalizing n with
  | nil => rfl
  | cons l ls ih =>
    cases l with
    | statement s => exact ih h
    | label other =>
      obtain ⟨hother, hrest⟩ := List.forall_mem_cons.mp h
      have hsame : f other = f name ↔ other = name := ⟨hother, congrArg f⟩
      simp only [List.map_cons, Line.rename, findFrom, hsame, ih hrest]

theorem statements_rename (ls : List Line) :
    Language.statements (ls.map (Line.rename f)) =
      (Language.statements ls).map (Statement.rename f) := by
  induction ls with
  | nil => rfl
  | cons l ls ih =>
    cases l with
    | label name => exact ih
    | statement s => exact congrArg (s.rename f :: ·) ih

theorem resolve_rename (target : Target) :
    (target.rename f).resolve place = target.resolve (place ∘ f) := by
  cases target <;> rfl

theorem encode_rename (s : Statement) :
    (s.rename f).encode host place = s.encode host (place ∘ f) := by
  cases s with
  | jump target | call target | branch _ target _ =>
    rw [Statement.rename, Statement.encode, Statement.encode, resolve_rename]
  | _ => rfl

theorem perform_rename (t : State) (s : Statement) :
    perform host place t (s.rename f) = perform host (place ∘ f) t s := by
  cases s with
  | jump target | call target | branch _ target _ =>
    rw [Statement.rename, perform, perform, resolve_rename]
  | registers mn r => cases mn <;> rfl
  | _ => rfl

namespace Renamed

theorem statements (h : Renamed f p q) : q.statements = p.statements.map (Statement.rename f) := by
  rw [Source.statements, h.lines, statements_rename]
  rfl

theorem position (h : Renamed f p q) (hs : s ∈ p.statements) {name : LabelName}
    (hname : name ∈ s.names) : q.position (f name) = p.position name := by
  rw [Source.position, h.lines, findFrom_rename fun a ha => h.distinct a ha s hs name hname]
  rfl

theorem code (h : Renamed f p q) (host : Host) : q.code host = p.code host := by
  rw [Source.code, h.statements, List.map_map]
  refine List.map_congr_left fun s hs => (encode_rename s).trans ?_
  exact encode_congr fun name hname => h.position hs hname

theorem machine (h : Renamed f p q) (host : Host) :
    Language.machine host q = Language.machine host p := by
  have hlength : q.statements.length = p.statements.length := by
    rw [h.statements, List.length_map]
  have hstep : step host q = step host p := by
    funext t
    rw [step, step, h.statements, List.getElem?_map]
    cases hs : p.statements[t.next]? with
    | none => rfl
    | some s =>
      refine (perform_rename t s).trans ?_
      exact perform_congr fun name hname => h.position (List.mem_of_getElem? hs) hname
  rw [Language.machine, Language.machine, hlength, hstep]

end Renamed

theorem renamed_source (h : Renamed f p q) (host : Host) :
    (∀ leftovers leftovers' bytes bytes', Holds leftovers bytes p → Holds leftovers' bytes' q →
      assembleSource host leftovers' bytes' = assembleSource host leftovers bytes) ∧
    ∀ n, run host q n = run host p n := by
  constructor
  · intro leftovers leftovers' bytes bytes' hp hq
    rw [assembleSource_holds hp, assembleSource_holds hq, h.code host]
  · intro n
    rw [run, run, h.machine host]

def nameK : LabelName := .ofLetter 'k' rfl

def addOneAtK : Source where
  lines := addOne.lines.map (Line.rename fun _ => nameK)
  apart := rfl
  statementsFit := by decide
  labelsFit := by decide
  defined := by decide

theorem renamed_source_addOne :
    assembleSource Host.integer zeroLeftovers (textBytes addOneAtK.page) =
      assembleSource Host.integer zeroLeftovers (textBytes addOne.page) := by
  have hrenamed : Renamed (fun _ => nameK) addOne addOneAtK := ⟨rfl, by decide⟩
  have hquiet (p : Source) : Quiet zeroLeftovers.regs p := fun _ _ _ => rfl
  have hp : Holds zeroLeftovers (textBytes addOne.page) addOne :=
    holds_page (by decide) rfl (hquiet _)
  have hq : Holds zeroLeftovers (textBytes addOneAtK.page) addOneAtK :=
    holds_page (by decide) rfl (hquiet _)
  exact (renamed_source hrenamed Host.integer).1 _ _ _ _ hp hq

end Language

end CAt
