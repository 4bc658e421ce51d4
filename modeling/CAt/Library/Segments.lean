import Mathlib.Data.List.Basic

namespace Segments

variable {α : Type} {isEnd : α → Bool}

inductive Terminated (isEnd : α → Bool) : List α → Prop
  | nil : Terminated isEnd []
  | cons {segment rest : List α} {e : α} (inside : ∀ x ∈ segment, isEnd x = false)
      (atEnd : isEnd e = true) (tail : Terminated isEnd rest) :
      Terminated isEnd (segment ++ e :: rest)

inductive Split (isEnd : α → Bool) : List α → Prop
  | last {segment : List α} (inside : ∀ x ∈ segment, isEnd x = false) : Split isEnd segment
  | cons {segment rest : List α} {e : α} (inside : ∀ x ∈ segment, isEnd x = false)
      (atEnd : isEnd e = true) (tail : Split isEnd rest) : Split isEnd (segment ++ e :: rest)

theorem split_append (xs segment : List α) (inside : ∀ x ∈ segment, isEnd x = false) :
    Split isEnd (segment ++ xs) := by
  induction xs generalizing segment with
  | nil =>
    rw [List.append_nil]
    exact .last inside
  | cons x xs ih =>
    cases hx : isEnd x with
    | true => exact .cons inside hx (ih [] nofun)
    | false =>
      have hsplit : segment ++ x :: xs = segment ++ [x] ++ xs := by simp
      rw [hsplit]
      apply ih
      intro y hy
      rcases List.mem_append.mp hy with hy | hy
      · exact inside y hy
      · rw [List.mem_singleton.mp hy]
        exact hx

theorem split (isEnd : α → Bool) (xs : List α) : Split isEnd xs := split_append xs [] nofun

theorem getLast?_segment (segment rest : List α) (e : α) :
    (segment ++ e :: rest).getLast? = some (rest.getLast?.getD e) := by
  rw [List.getLast?_append_cons, List.getLast?_cons]

theorem Split.terminated {xs : List α} (h : Split isEnd xs)
    (hlast : ∀ e ∈ xs.getLast?, isEnd e = true) : Terminated isEnd xs := by
  induction h with
  | @last segment inside =>
    cases hsegment : segment.getLast? with
    | none =>
      rw [List.getLast?_eq_none_iff.mp hsegment]
      exact .nil
    | some x =>
      have hend := hlast x hsegment
      rw [inside x (List.mem_of_getLast? hsegment)] at hend
      cases hend
  | @cons segment rest e inside atEnd tail ih =>
    refine .cons inside atEnd (ih ?_)
    intro x hx
    apply hlast x
    rw [getLast?_segment, Option.mem_def.mp hx]
    rfl

theorem terminated_iff {xs : List α} :
    Terminated isEnd xs ↔ ∀ e ∈ xs.getLast?, isEnd e = true := by
  constructor
  · intro h
    induction h with
    | nil => nofun
    | @cons segment rest e inside atEnd tail ih =>
      intro x hx
      rw [getLast?_segment] at hx
      cases hrest : rest.getLast? with
      | none =>
        rw [hrest] at hx
        cases hx
        exact atEnd
      | some y =>
        rw [hrest] at hx
        cases hx
        exact ih y hrest
  · exact (split isEnd xs).terminated

theorem Terminated.append {xs ys : List α} (hxs : Terminated isEnd xs)
    (hys : Terminated isEnd ys) : Terminated isEnd (xs ++ ys) := by
  induction hxs with
  | nil => exact hys
  | cons inside atEnd _ ih =>
    rw [List.append_assoc, List.cons_append]
    exact .cons inside atEnd ih

theorem Terminated.segment {segment : List α} {e : α} (inside : ∀ x ∈ segment, isEnd x = false)
    (atEnd : isEnd e = true) : Terminated isEnd (segment ++ [e]) :=
  .cons inside atEnd .nil

end Segments
