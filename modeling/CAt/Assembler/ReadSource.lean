import CAt.Library.GuardedLoop
import Mathlib.Data.List.TakeWhile

namespace CAt

open GuardedLoop

def maxSize : Nat := 2048

-- fgetc's result is kept in a signed char, where the byte 0xff is EOF as well.
def eofByte : UInt8 := 0xff

def byteChar (b : UInt8) : Char := Char.ofNat b.toNat

inductive ReadFault where
  | exceededMaximumFileSize
deriving DecidableEq, Repr

-- `fb` is the string in the array of that name and `extent` one more than the highest index of
-- the array that sprintf has written, in the array or behind it.
structure ReadState where
  rest : List UInt8
  fb : List Char
  fsize : Nat
  extent : Nat
deriving DecidableEq, Repr

namespace ReadState

def start (file : List UInt8) : ReadState := ⟨file, [], 0, 0⟩

-- sprintf(fb,"%s%c",fb,c): a NUL does not make the string longer.
def append (s : ReadState) (b : UInt8) (rest : List UInt8) : ReadState where
  rest := rest
  fb := if b = 0 then s.fb else s.fb ++ [byteChar b]
  fsize := s.fsize + 1
  extent := max s.extent (s.fb.length + 2)

end ReadState

def readLoop : Loop ReadState ReadFault where
  guard := fun s =>
    match s.rest with
    | [] => false
    | b :: _ => b != eofByte
  body := fun s =>
    match s.rest with
    | [] => .ok s
    | b :: rest =>
      if s.fsize < maxSize then .ok (s.append b rest) else .error .exceededMaximumFileSize

namespace ReadSource

def chars (file : List UInt8) : List UInt8 := file.takeWhile (· != eofByte)

def stringOf (bytes : List UInt8) : List Char := (bytes.filter (· != 0)).map byteChar

def sourceText (file : List UInt8) : List Char := stringOf (chars file)

def extentAfter (length extent : Nat) (bytes : List UInt8) : Nat :=
  if bytes = [] then extent else max extent (length + (stringOf bytes.dropLast).length + 2)

def Rejected (file : List UInt8) : Prop :=
  ∃ n, readLoop.run n (.start file) = .error .exceededMaximumFileSize

section Read

variable {b : UInt8} {rest bytes : List UInt8} {fb : List Char} {extent : Nat}

theorem chars_cons (h : b ≠ eofByte) : chars (b :: rest) = b :: chars rest := by
  simp [chars, h]

theorem append_eq (all : List UInt8) (fsize : Nat) :
    ReadState.append ⟨all, fb, fsize, extent⟩ b rest =
      ⟨rest, fb ++ stringOf [b], fsize + 1, max extent (fb.length + 2)⟩ := by
  by_cases h : b = 0
  · simp [ReadState.append, stringOf, h]
  · simp [ReadState.append, stringOf, h]

theorem stringOf_cons (b : UInt8) (bytes : List UInt8) :
    stringOf (b :: bytes) = stringOf [b] ++ stringOf bytes := by
  by_cases h : b = 0
  · simp [stringOf, h]
  · simp [stringOf, h]

theorem extentAfter_cons :
    extentAfter (fb ++ stringOf [b]).length (max extent (fb.length + 2)) bytes =
      extentAfter fb.length extent (b :: bytes) := by
  cases bytes with
  | nil => simp [extentAfter, stringOf]
  | cons c bytes =>
    have hsplit := congrArg List.length (stringOf_cons b (c :: bytes).dropLast)
    rw [List.length_append] at hsplit
    simp only [extentAfter, List.cons_ne_nil, if_false, List.dropLast_cons_cons, hsplit,
      List.length_append]
    omega

theorem reads (rest : List UInt8) (fb : List Char) (fsize extent : Nat)
    (hsize : fsize ≤ maxSize) :
    readLoop.Ends ⟨rest, fb, fsize, extent⟩
      (if fsize + (chars rest).length ≤ maxSize then
        .ok ⟨rest.dropWhile (· != eofByte), fb ++ stringOf (chars rest),
          fsize + (chars rest).length, extentAfter fb.length extent (chars rest)⟩
      else .error .exceededMaximumFileSize) := by
  induction rest generalizing fb fsize extent with
  | nil =>
    rw [if_pos (show fsize + (chars []).length ≤ maxSize from hsize)]
    change readLoop.Ends _ (.ok ⟨[], fb ++ [], fsize, extent⟩)
    rw [List.append_nil]
    exact .of_finishes ((Loop.Reaches.refl _ _).finishes rfl)
  | cons b rest ih =>
    by_cases hb : b = eofByte
    · have hnone : chars (b :: rest) = [] := by simp [chars, hb]
      have hdrop : (b :: rest).dropWhile (· != eofByte) = b :: rest := by simp [hb]
      rw [hnone, hdrop, if_pos (show fsize + [].length ≤ maxSize from hsize)]
      change readLoop.Ends _ (.ok ⟨b :: rest, fb ++ [], fsize, extent⟩)
      rw [List.append_nil]
      exact .of_finishes ((Loop.Reaches.refl _ _).finishes (by simp [readLoop, hb]))
    · have hguard : readLoop.guard ⟨b :: rest, fb, fsize, extent⟩ = true := by
        simp [readLoop, hb]
      have hdrop : (b :: rest).dropWhile (· != eofByte) = rest.dropWhile (· != eofByte) := by
        simp [hb]
      rw [chars_cons hb, hdrop, List.length_cons]
      by_cases hlt : fsize < maxSize
      · have hbody : readLoop.body ⟨b :: rest, fb, fsize, extent⟩ =
            .ok ⟨rest, fb ++ stringOf [b], fsize + 1, max extent (fb.length + 2)⟩ := by
          rw [← append_eq (b :: rest)]
          exact if_pos hlt
        have hrest := ih (fb ++ stringOf [b]) (fsize + 1) (max extent (fb.length + 2)) hlt
        rw [extentAfter_cons, List.append_assoc, ← stringOf_cons, Nat.add_assoc,
          Nat.add_comm 1] at hrest
        exact hrest.of_head hguard hbody
      · rw [if_neg (by omega)]
        exact .of_body_error hguard (if_neg hlt)

end Read

theorem rejected_iff (file : List UInt8) : Rejected file ↔ maxSize < (chars file).length := by
  have hends := reads file [] 0 0 (Nat.zero_le _)
  rw [Nat.zero_add] at hends
  constructor
  · rintro ⟨n, hn⟩
    have herror := hends.eq_of_error hn
    split at herror
    · cases herror
    · omega
  · intro h
    rw [if_neg (by omega)] at hends
    obtain ⟨n, hn, -⟩ := hends
    exact ⟨n, hn⟩

theorem finishes_iff (file : List UInt8) (s : ReadState) :
    readLoop.Finishes (.start file) s ↔ (chars file).length ≤ maxSize ∧
      s = ⟨file.dropWhile (· != eofByte), sourceText file, (chars file).length,
        extentAfter 0 0 (chars file)⟩ := by
  have hends := reads file [] 0 0 (Nat.zero_le _)
  rw [Nat.zero_add] at hends
  refine hends.finishes_iff.trans ?_
  split
  · rename_i hle
    constructor
    · intro h
      exact ⟨hle, (Except.ok.inj h).symm⟩
    · rintro ⟨-, rfl⟩
      rfl
  · rename_i hgt
    refine iff_of_false nofun fun h => hgt h.1

end ReadSource

end CAt
