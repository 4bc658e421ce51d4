import CAt.Assembler.ReadSource
import CAt.Strings.Copies
import CAt.Strings.Pattern

namespace CAt

open GuardedLoop.Loop (bind_ok ok_bind finish_ok_iff finish_of_run)
open UintLoop

-- Behind the last byte fgetc returns EOF, and a char keeps its low byte.
def fgetc : List UInt8 → Char × List UInt8
  | [] => (byteChar eofByte, [])
  | b :: rest => (byteChar b, rest)

def storeNext (i : BitVec 32) (s : List UInt8 × List Char) :
    Except StrFault (List UInt8 × List Char) := do
  return ((fgetc s.1).2, ← storeChar s.2 i.toNat (fgetc s.1).1)

def fileHasStr (fuel : Nat) (file : Option (List UInt8)) (pattern : CString) :
    Except StrFault Bool :=
  match file with
  | none => .ok false
  | some bytes => do
    let fLen := bytes.length
    let buffer := List.replicate (fLen + 1) nul
    let (_, _, buffer) ← (upTo fLen storeNext).finish .unfinished fuel (0, bytes, buffer)
    let result ← strHasPattern fuel (strMoveCstr (.ofBuffer buffer)) (strMoveCstr pattern)
    return decide (result ≠ strNopattern)

namespace FileHasStr

open Pattern (MatchAt WrapsAt FirstAt matchAt_le exists_firstAt wrapsAt_iff toInt_counter
  single_completes_iff window_completes_iff strHasPattern_single strHasPattern_window)

def text (bytes : List UInt8) : Str := strMoveCstr (.ofBuffer (bytes.map byteChar))

section Read

variable {bytes : List UInt8} {fuel k : Nat} {b : Bool} {pattern : CString}

theorem foldTo_storeNext (hk : k ≤ bytes.length) (hbound : bytes.length < 2 ^ 32) :
    foldTo storeNext (bytes, List.replicate (bytes.length + 1) nul) k =
      .ok (bytes.drop k, (bytes.take k).map byteChar ++
        (List.replicate (bytes.length + 1) nul).drop k) := by
  induction k with
  | zero => rfl
  | succ k ih =>
    have hlen : ((bytes.take k).map byteChar).length = k := by
      rw [List.length_map, List.length_take_of_le (Nat.le_of_succ_le hk)]
    have hroom : k < (List.replicate (bytes.length + 1) nul).length := by
      rw [List.length_replicate]
      omega
    have hbuffer : k < ((bytes.take k).map byteChar ++
        (List.replicate (bytes.length + 1) nul).drop k).length := by
      rw [List.length_append, hlen, List.length_drop]
      omega
    rw [foldTo, ih (Nat.le_of_succ_le hk), ok_bind, storeNext, List.drop_eq_getElem_cons hk, fgetc,
      counter_toNat (by omega), storeChar_of_lt hbuffer, set_append_drop _ hlen hroom, ok_bind,
      List.take_succ_eq_append_getElem hk, List.map_append]
    rfl

theorem foldTo_file (hbound : bytes.length < 2 ^ 32) :
    foldTo storeNext (bytes, List.replicate (bytes.length + 1) nul) bytes.length =
      .ok ([], bytes.map byteChar ++ [nul]) := by
  rw [foldTo_storeNext (Nat.le_refl _) hbound, List.drop_length, List.take_length]
  simp

theorem text_eq (bytes : List UInt8) :
    text bytes = strMoveCstr (.ofBuffer (bytes.map byteChar ++ [nul])) :=
  congrArg Str.mk (Copies.ofBuffer_terminated _).symm

theorem text_len_le (bytes : List UInt8) : (text bytes).len ≤ bytes.length := by
  have hle := (List.takeWhile_prefix (l := bytes.map byteChar) (· != nul)).length_le
  rw [List.length_map] at hle
  exact hle

theorem finish_read (hbound : bytes.length < 2 ^ 32) (hfuel : bytes.length ≤ fuel) :
    (upTo bytes.length storeNext).finish .unfinished fuel
        (0, bytes, List.replicate (bytes.length + 1) nul) =
      .ok (BitVec.ofNat 32 bytes.length, [], bytes.map byteChar ++ [nul]) :=
  finish_upTo_iff.mpr ⟨hfuel, hbound, foldTo_file hbound, rfl⟩

theorem fileHasStr_ok_iff : fileHasStr fuel (some bytes) pattern = .ok b ↔
    bytes.length ≤ fuel ∧ bytes.length < 2 ^ 32 ∧ ∃ v,
      strHasPattern fuel (text bytes) (strMoveCstr pattern) = .ok v ∧
        decide (v ≠ strNopattern) = b := by
  rw [fileHasStr]
  constructor
  · intro h
    obtain ⟨⟨i, rest, buffer⟩, hfinish, h⟩ := bind_ok h
    obtain ⟨hfuel, hbound, hfold, -⟩ := finish_upTo_iff.mp hfinish
    rw [foldTo_file hbound] at hfold
    cases hfold
    obtain ⟨v, hv, h⟩ := bind_ok h
    exact ⟨hfuel, hbound, v, text_eq bytes ▸ hv, Except.ok.inj h⟩
  · rintro ⟨hfuel, hbound, v, hv, rfl⟩
    rw [text_eq] at hv
    rw [finish_read hbound hfuel, ok_bind]
    simp only [hv, ok_bind]
    rfl

end Read

section Search

variable {src pat : Str} {k : Nat} {b : Bool}

theorem infix_iff_matchAt : pat.ptr <:+: src.ptr ↔ ∃ k, MatchAt src pat k := by
  rw [List.infix_iff_prefix_suffix]
  constructor
  · rintro ⟨rest, hstart, hsuffix⟩
    rw [List.suffix_iff_eq_drop.mp hsuffix] at hstart
    exact ⟨_, hstart⟩
  · rintro ⟨k, hmatch⟩
    exact ⟨_, hmatch, List.drop_suffix _ _⟩

theorem assertPattern_of_ok (h : assertPattern src pat = .ok ()) :
    0 < pat.len ∧ pat.len < src.len := by
  rw [assertPattern] at h
  split at h
  · split at h
    · rename_i hne hlt
      exact ⟨Nat.pos_of_ne_zero hne.2, hlt⟩
    · cases h
  · cases h

theorem wrapsAt_window (hlt : pat.len < src.len) (hsize : src.len < 2 ^ 32)
    (hk : k ≤ src.len - pat.len) : WrapsAt src pat k ↔ MatchAt src pat k :=
  wrapsAt_iff (by omega)

theorem window_ne (hpat : 0 < pat.len) (hsize : src.len < 2 ^ 32) (hk : k ≤ src.len - pat.len)
    (hlt : pat.len < src.len) : (BitVec.ofNat 32 k).toInt ≠ strNopattern := by
  rw [toInt_counter (by omega), strNopattern]
  split <;> omega

theorem hasPattern_value {v : Int} (hpat : 0 < pat.len) (hlt : pat.len < src.len)
    (hsize : src.len < 2 ^ 32) (h : Completes (fun fuel => strHasPattern fuel src pat) v) :
    v ≠ strNopattern ↔ ∃ k, MatchAt src pat k := by
  by_cases hone : pat.len = 1
  · rcases (single_completes_iff hone hlt).mp h with ⟨rfl, k, -, hfirst⟩ | ⟨rfl, -, hnone⟩
    · exact iff_of_true (by decide) ⟨k, hfirst.1⟩
    · exact iff_of_false (fun hne => hne rfl) (not_exists.mpr hnone)
  · obtain ⟨-, ⟨k, -, hk, hfirst, rfl⟩ | ⟨rfl, -, hmisses⟩⟩ :=
      (window_completes_iff (by omega) hlt).mp h
    · exact iff_of_true (window_ne hpat hsize hk hlt)
        ⟨k, (wrapsAt_window hlt hsize hk).mp hfirst.1⟩
    · refine iff_of_false (fun hne => hne rfl) ?_
      rintro ⟨k, hmatch⟩
      have hle := matchAt_le hpat hmatch
      have hk : k ≤ src.len - pat.len := by omega
      exact hmisses k hk ((wrapsAt_window hlt hsize hk).mpr hmatch)

theorem hasPattern_returns (hpat : 0 < pat.len) (hlt : pat.len < src.len)
    (hsize : src.len < 2 ^ 32) : ∃ v, Completes (fun fuel => strHasPattern fuel src pat) v := by
  by_cases hexists : ∃ k, MatchAt src pat k
  · obtain ⟨k, hfirst⟩ := exists_firstAt hexists
    have hle := matchAt_le hpat hfirst.1
    have hbound : k < 2 ^ 32 := by omega
    by_cases hone : pat.len = 1
    · exact ⟨1, (single_completes_iff hone hlt).mpr (.inl ⟨rfl, k, hbound, hfirst⟩)⟩
    · have hwraps (j : Nat) (hj : j ≤ k) : WrapsAt src pat j ↔ MatchAt src pat j :=
        wrapsAt_window hlt hsize (by omega)
      have hfirstWraps : FirstAt (WrapsAt src pat) k :=
        ⟨(hwraps k (Nat.le_refl k)).mpr hfirst.1,
          fun j hj hj' => hfirst.2 j hj ((hwraps j (Nat.le_of_lt hj)).mp hj')⟩
      exact ⟨_, (window_completes_iff (by omega) hlt).mpr
        ⟨by omega, .inl ⟨k, hbound, by omega, hfirstWraps, rfl⟩⟩⟩
  · have hnone := not_exists.mp hexists
    by_cases hone : pat.len = 1
    · exact ⟨_, (single_completes_iff hone hlt).mpr (.inr ⟨rfl, hsize, hnone⟩)⟩
    · refine ⟨_, (window_completes_iff (by omega) hlt).mpr
        ⟨by omega, .inr ⟨rfl, by omega, fun k hk hwraps => ?_⟩⟩⟩
      exact hnone k ((wrapsAt_window hlt hsize hk).mp hwraps)

theorem patternAt_mono {fuel fuel' : Nat} {i : BitVec 32} (hle : fuel ≤ fuel')
    (h : patternAt fuel src pat i = .ok b) : patternAt fuel' src pat i = .ok b := by
  obtain ⟨t, hfinish, h⟩ := bind_ok h
  obtain ⟨hrun, hguard⟩ := finish_ok_iff.mp hfinish
  rw [patternAt, finish_of_run hrun hguard hle, ok_bind]
  exact h

theorem hasPattern_mono {fuel fuel' : Nat} {v : Int} (hpat : 0 < pat.len) (hlt : pat.len < src.len)
    (hle : fuel ≤ fuel') (h : strHasPattern fuel src pat = .ok v) :
    strHasPattern fuel' src pat = .ok v := by
  by_cases hone : pat.len = 1
  · rw [strHasPattern_single hone hlt] at h ⊢
    obtain ⟨t, hfinish, hvalue⟩ := bind_ok h
    rw [search_mono (fun _ _ hhit => hhit) hle hfinish]
    exact hvalue
  · rw [strHasPattern_window (by omega) hlt] at h ⊢
    obtain ⟨t, hfinish, hvalue⟩ := bind_ok h
    rw [search_mono (fun _ _ => patternAt_mono hle) hle hfinish]
    exact hvalue

theorem hasPattern_iff (hsize : src.len < 2 ^ 32) :
    (∃ v, Completes (fun fuel => strHasPattern fuel src pat) v ∧
      decide (v ≠ strNopattern) = b) ↔
    0 < pat.len ∧ pat.len < src.len ∧ (b = true ↔ pat.ptr <:+: src.ptr) := by
  constructor
  · rintro ⟨v, h, rfl⟩
    obtain ⟨fuel, hfuel⟩ := h
    obtain ⟨⟨⟩, hassert, -⟩ := bind_ok hfuel
    obtain ⟨hpat, hlt⟩ := assertPattern_of_ok hassert
    rw [decide_eq_true_iff, infix_iff_matchAt]
    exact ⟨hpat, hlt, hasPattern_value hpat hlt hsize ⟨fuel, hfuel⟩⟩
  · rintro ⟨hpat, hlt, hb⟩
    obtain ⟨v, h⟩ := hasPattern_returns hpat hlt hsize
    refine ⟨v, h, Bool.eq_iff_iff.mpr ?_⟩
    rw [decide_eq_true_iff, hb, infix_iff_matchAt]
    exact hasPattern_value hpat hlt hsize h

end Search

theorem file_found {file : Option (List UInt8)} {pattern : CString} {b : Bool} :
    Completes (fun fuel => fileHasStr fuel file pattern) b ↔
      (file = none ∧ b = false) ∨ ∃ bytes, file = some bytes ∧ bytes.length < 2 ^ 32 ∧
        0 < strlen pattern ∧ strlen pattern < (text bytes).len ∧
          (b = true ↔ pattern.chars <:+: (text bytes).ptr) := by
  cases file with
  | none =>
    constructor
    · rintro ⟨fuel, h⟩
      cases h
      exact .inl ⟨rfl, rfl⟩
    · rintro (⟨-, rfl⟩ | ⟨bytes, hfile, -⟩)
      · exact ⟨0, rfl⟩
      · cases hfile
  | some bytes =>
    have hsearch (hbound : bytes.length < 2 ^ 32) :
        (∃ v, Completes (fun fuel => strHasPattern fuel (text bytes) (strMoveCstr pattern)) v ∧
          decide (v ≠ strNopattern) = b) ↔ _ :=
      hasPattern_iff (Nat.lt_of_le_of_lt (text_len_le bytes) hbound)
    constructor
    · rintro ⟨fuel, h⟩
      obtain ⟨-, hbound, v, hv, hb⟩ := fileHasStr_ok_iff.mp h
      exact .inr ⟨bytes, rfl, hbound, (hsearch hbound).mp ⟨v, ⟨fuel, hv⟩, hb⟩⟩
    · rintro (⟨hfile, -⟩ | ⟨bytes, hfile, hbound, hfound⟩)
      · cases hfile
      · cases hfile
        obtain ⟨v, ⟨fuel, hv⟩, hb⟩ := (hsearch hbound).mpr hfound
        exact ⟨max bytes.length fuel, fileHasStr_ok_iff.mpr ⟨Nat.le_max_left _ _, hbound, v,
          hasPattern_mono hfound.1 hfound.2.1 (Nat.le_max_right _ _) hv, hb⟩⟩

section Stops

variable {bytes : List UInt8} {pattern : CString}

theorem assertPattern_fails {src pat : Str} (h : ¬ (0 < pat.len ∧ pat.len < src.len)) :
    ∃ message, assertPattern src pat = .error (.assertion message) := by
  rw [assertPattern]
  split
  · rename_i hne
    have hle : ¬ src.len > pat.len := fun hlt => h ⟨Nat.pos_of_ne_zero hne.2, hlt⟩
    exact ⟨_, if_neg hle⟩
  · exact ⟨_, rfl⟩

theorem refused (hbound : bytes.length < 2 ^ 32)
    (h : ¬ (0 < strlen pattern ∧ strlen pattern < (text bytes).len)) {fuel : Nat}
    (hfuel : bytes.length ≤ fuel) :
    ∃ message, fileHasStr fuel (some bytes) pattern = .error (.assertion message) := by
  obtain ⟨message, hassert⟩ : ∃ message, assertPattern (text bytes) (strMoveCstr pattern) =
      .error (.assertion message) := assertPattern_fails h
  have hsearch : strHasPattern fuel (text bytes) (strMoveCstr pattern) =
      .error (.assertion message) := by
    rw [strHasPattern, hassert]
    rfl
  refine ⟨message, ?_⟩
  rw [fileHasStr, finish_read hbound hfuel]
  rw [text_eq] at hsearch
  simp only [ok_bind, hsearch]
  rfl

theorem storeNext_stays {n : Nat} (hn : 2 ^ 32 ≤ n) (i : BitVec 32) (s : List UInt8 × List Char)
    (hs : s.2.length = n) : ∃ s', storeNext i s = .ok s' ∧ s'.2.length = n := by
  have hroom : i.toNat < s.2.length := by
    rw [hs]
    exact Nat.lt_of_lt_of_le i.isLt hn
  rw [storeNext, storeChar_of_lt hroom]
  refine ⟨_, rfl, ?_⟩
  rw [List.length_set, hs]

theorem endless (hlong : 2 ^ 32 ≤ bytes.length) (fuel : Nat) :
    fileHasStr fuel (some bytes) pattern = .error .unfinished := by
  have hread : (upTo bytes.length storeNext).finish .unfinished fuel
      (0, bytes, List.replicate (bytes.length + 1) nul) = .error .unfinished :=
    upTo_endless (fun s => s.2.length = bytes.length + 1) hlong
      (storeNext_stays (Nat.le_succ_of_le hlong)) List.length_replicate fuel
  rw [fileHasStr, hread]
  rfl

end Stops

theorem file_search (file : Option (List UInt8)) (pattern : CString) :
    (∀ b, Completes (fun fuel => fileHasStr fuel file pattern) b ↔
      (file = none ∧ b = false) ∨ ∃ bytes, file = some bytes ∧ bytes.length < 2 ^ 32 ∧
        0 < strlen pattern ∧ strlen pattern < (text bytes).len ∧
          (b = true ↔ pattern.chars <:+: (text bytes).ptr)) ∧
      ∀ bytes, file = some bytes →
        (bytes.length < 2 ^ 32 → ¬ (0 < strlen pattern ∧ strlen pattern < (text bytes).len) →
          ∀ fuel ≥ bytes.length, ∃ message,
            fileHasStr fuel file pattern = .error (.assertion message)) ∧
        (2 ^ 32 ≤ bytes.length → ∀ fuel, fileHasStr fuel file pattern = .error .unfinished) := by
  refine ⟨fun b => file_found, ?_⟩
  rintro bytes rfl
  exact ⟨fun hbound hpattern fuel hfuel => refused hbound hpattern hfuel, endless⟩

end FileHasStr

end CAt
