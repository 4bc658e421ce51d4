import Mathlib.Data.List.Basic

namespace Printf

def decimal (v : Int) : List Char :=
  if v < 0 then '-' :: Nat.toDigits 10 v.natAbs else Nat.toDigits 10 v.natAbs

inductive Piece (α : Type) where
  | text (s : String)
  | arg (a : α)
deriving DecidableEq, Repr

section Render

variable {α : Type}

def render (print : α → List Char) : List (Piece α) → List Char
  | [] => []
  | .text s :: ps => s.toList ++ render print ps
  | .arg a :: ps => print a ++ render print ps

-- Behind every argument the text ends or goes on with something that is no digit.
def delimited : List (Piece α) → Bool
  | [] => true
  | .text _ :: ps => delimited ps
  | [.arg _] => true
  | .arg _ :: .arg _ :: _ => false
  | .arg _ :: .text s :: ps => s.toList.head?.any (!·.isDigit) && delimited ps

theorem render_congr {print print' : α → List Char} {ps : List (Piece α)}
    (h : ∀ a, .arg a ∈ ps → print a = print' a) : render print ps = render print' ps := by
  induction ps with
  | nil => rfl
  | cons p ps ih =>
    have hrest := ih fun a ha => h a (List.mem_cons_of_mem p ha)
    cases p with
    | text s => rw [render, render, hrest]
    | arg b => rw [render, render, hrest, h b List.mem_cons_self]

end Render

def Stops (cs : List Char) : Prop := ∀ c ∈ cs.head?, c.isDigit = false

theorem stops_nil : Stops [] := nofun

theorem digits_append_inj {n k : Nat} {cs ds : List Char} (hc : Stops cs) (hd : Stops ds)
    (h : Nat.toDigits 10 n ++ cs = Nat.toDigits 10 k ++ ds) : n = k ∧ cs = ds := by
  have hdigits (n : Nat) {cs : List Char} (hc : Stops cs) :
      (Nat.toDigits 10 n ++ cs).takeWhile Char.isDigit = Nat.toDigits 10 n := by
    rw [List.takeWhile_append_of_pos
      fun c hc => Nat.isDigit_of_mem_toDigits (by decide) (by decide) hc]
    cases cs with
    | nil => exact List.append_nil _
    | cons c cs => rw [List.takeWhile_cons_of_neg (by simp [hc c rfl]), List.append_nil]
  have hsame := hdigits n hc
  rw [h, hdigits k hd] at hsame
  have hvalue := congrArg (fun ds => Nat.ofDigitChars 10 ds 0) hsame
  simp only [Nat.ofDigitChars_ten_toDigits] at hvalue
  obtain rfl := hvalue
  exact ⟨rfl, List.append_cancel_left h⟩

theorem minus_ne_digits {n : Nat} {cs ds : List Char} : '-' :: cs ≠ Nat.toDigits 10 n ++ ds := by
  intro h
  cases hn : Nat.toDigits 10 n with
  | nil => exact Nat.toDigits_ne_nil hn
  | cons d digits =>
    rw [hn] at h
    obtain ⟨rfl, -⟩ := List.cons.inj h
    have hdigit : Char.isDigit '-' = true :=
      Nat.isDigit_of_mem_toDigits (by decide) (by decide) (hn ▸ List.mem_cons_self)
    cases hdigit

theorem decimal_append_inj {v w : Int} {cs ds : List Char} (hc : Stops cs) (hd : Stops ds)
    (h : decimal v ++ cs = decimal w ++ ds) : v = w ∧ cs = ds := by
  unfold decimal at h
  split at h
  · split at h
    · obtain ⟨hvalue, hrest⟩ := digits_append_inj hc hd (List.cons.inj h).2
      exact ⟨by omega, hrest⟩
    · exact absurd h minus_ne_digits
  · split at h
    · exact absurd h.symm minus_ne_digits
    · obtain ⟨hvalue, hrest⟩ := digits_append_inj hc hd h
      exact ⟨by omega, hrest⟩

theorem stops_render {α : Type} (print : α → List Char) {a : α} {ps : List (Piece α)}
    {cs : List Char} (h : delimited (.arg a :: ps) = true) (hc : Stops cs) :
    Stops (render print ps ++ cs) ∧ delimited ps = true := by
  match ps, h with
  | [], _ => exact ⟨hc, rfl⟩
  | .text s :: ps, h =>
    simp only [delimited, Bool.and_eq_true, Option.any_eq_true] at h
    obtain ⟨⟨c, hhead, hdigit⟩, hps⟩ := h
    refine ⟨fun c' hc' => ?_, hps⟩
    rw [render, List.append_assoc, List.head?_append, hhead, Option.some_or] at hc'
    cases hc'
    simpa using hdigit

theorem render_append_inj {α : Type} {value value' : α → Int} {ps : List (Piece α)}
    {cs ds : List Char} (hps : delimited ps = true) (hc : Stops cs) (hd : Stops ds)
    (h : render (fun a => decimal (value a)) ps ++ cs =
      render (fun a => decimal (value' a)) ps ++ ds) :
    (∀ a, .arg a ∈ ps → value a = value' a) ∧ cs = ds := by
  induction ps with
  | nil => exact ⟨nofun, h⟩
  | cons p ps ih =>
    cases p with
    | text s =>
      rw [render, render, List.append_assoc, List.append_assoc] at h
      obtain ⟨hvalues, htail⟩ := ih hps (List.append_cancel_left h)
      refine ⟨fun a ha => ?_, htail⟩
      have hmem : Piece.arg a ∈ ps := by simpa using ha
      exact hvalues a hmem
    | arg b =>
      rw [render, render, List.append_assoc, List.append_assoc] at h
      obtain ⟨hstops, hrest⟩ := stops_render (fun a => decimal (value a)) hps hc
      obtain ⟨hstops', -⟩ := stops_render (fun a => decimal (value' a)) hps hd
      obtain ⟨hvalue, htexts⟩ := decimal_append_inj hstops hstops' h
      obtain ⟨hvalues, htail⟩ := ih hrest htexts
      refine ⟨fun a ha => ?_, htail⟩
      rcases List.mem_cons.mp ha with heq | hmem
      · cases heq
        exact hvalue
      · exact hvalues a hmem

theorem render_inj {α : Type} {value value' : α → Int} {ps : List (Piece α)}
    (hps : delimited ps = true)
    (h : render (fun a => decimal (value a)) ps = render (fun a => decimal (value' a)) ps) :
    ∀ a, .arg a ∈ ps → value a = value' a := by
  have hends : render (fun a => decimal (value a)) ps ++ [] =
      render (fun a => decimal (value' a)) ps ++ [] := by rw [h]
  exact (render_append_inj hps stops_nil stops_nil hends).1

end Printf
