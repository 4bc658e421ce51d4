import CAt.Library.LastMatch

namespace CAt

open LastMatch (scan Last)

structure Args where
  argv : List String
deriving DecidableEq, Repr

namespace Args

def argc (a : Args) : Nat := a.argv.length

def At (a : Args) (lit : String) (i : Nat) : Prop := a.argv[i]? = some lit

def ValueAt (a : Args) (lit : String) (i : Nat) : Prop := a.At lit i ∧ i + 1 < a.argc

instance (a : Args) (lit : String) : DecidablePred (a.At lit) :=
  fun i => inferInstanceAs (Decidable (a.argv[i]? = some lit))

instance (a : Args) (lit : String) : DecidablePred (a.ValueAt lit) :=
  fun i => inferInstanceAs (Decidable (a.At lit i ∧ i + 1 < a.argc))

end Args

def argFind (a : Args) (lit : String) : Nat := scan (a.At lit) id 0 (a.argc - 1)

def argFindValue (a : Args) (lit : String) : Option String :=
  scan (a.ValueAt lit) (fun i => a.argv[i + 1]?) none (a.argc - 1)

namespace Args

variable {a : Args} {lit value : String}

theorem at_iff_mem_tail :
    lit ∈ a.argv.tail ↔ ∃ i, 1 ≤ i ∧ i ≤ a.argc - 1 ∧ a.At lit i := by
  rw [List.mem_iff_getElem?]
  constructor
  · rintro ⟨i, hi⟩
    rw [List.getElem?_tail] at hi
    obtain ⟨hlt, -⟩ := List.getElem?_eq_some_iff.mp hi
    exact ⟨i + 1, Nat.succ_pos i, Nat.le_pred_of_lt hlt, hi⟩
  · rintro ⟨i, hpos, -, hi⟩
    refine ⟨i - 1, ?_⟩
    rw [List.getElem?_tail, Nat.sub_add_cancel hpos]
    exact hi

theorem argFind_ne_zero_iff : argFind a lit ≠ 0 ↔ lit ∈ a.argv.tail := by
  rw [at_iff_mem_tail]
  rcases LastMatch.scan_cases (P := a.At lit) 0 (a.argc - 1) with ⟨i, hi, hscan⟩ | ⟨hnone, hscan⟩
  · refine iff_of_true ?_ ⟨i, hi.pos, hi.le, hi.found⟩
    rw [argFind, hscan]
    exact Nat.ne_of_gt hi.pos
  · refine iff_of_false (fun h => h hscan) ?_
    rintro ⟨i, hpos, hle, hi⟩
    exact hnone i hpos hle hi

theorem argFindValue_some_iff :
    argFindValue a lit = some value ↔
      ∃ i, Last (a.ValueAt lit) (a.argc - 1) i ∧ a.argv[i + 1]? = some value := by
  constructor
  · intro h
    rcases LastMatch.scan_cases (P := a.ValueAt lit) none (a.argc - 1) with
      ⟨i, hi, hscan⟩ | ⟨-, hscan⟩
    · exact ⟨i, hi, hscan.symm.trans h⟩
    · cases hscan.symm.trans h
  · rintro ⟨i, hi, hvalue⟩
    exact (LastMatch.scan_of_last hi none).trans hvalue

end Args

example : argFindValue ⟨["caasm", "-o", "a", "-o", "b", "-o"]⟩ "-o" = some "b" := by decide

end CAt
