import CAt.Library.UintLoop
import Mathlib.Data.List.TakeWhile

namespace CAt

open GuardedLoop.Loop (bind_ok ok_bind)
open UintLoop

def nul : Char := Char.ofNat 0

-- A String owns the `len` chars behind its pointer; with no chars the pointer may be NULL.
structure Str where
  ptr : List Char
deriving DecidableEq, Repr

def Str.len (s : Str) : Nat := s.ptr.length

-- What a `char*` argument points to, up to the NUL that ends it.
structure CString where
  chars : List Char
  nonzero : nul ∉ chars

def strlen (cstr : CString) : Nat := cstr.chars.length

def CString.ofBuffer (buffer : List Char) : CString where
  chars := buffer.takeWhile (· != nul)
  nonzero h := by
    have hne := List.mem_takeWhile_imp h
    rw [bne_self_eq_false] at hne
    exact Bool.false_ne_true hne

inductive StrFault where
  | assertion (message : String)
  | outOfBounds
  | unfinished
deriving DecidableEq, Repr

def loadChar (ptr : List Char) (i : Nat) : Except StrFault Char :=
  match ptr[i]? with
  | some c => .ok c
  | none => .error .outOfBounds

def storeChar (ptr : List Char) (i : Nat) (c : Char) : Except StrFault (List Char) :=
  if i < ptr.length then .ok (ptr.set i c) else .error .outOfBounds

def sameChar (l : List Char) (i : Nat) (r : List Char) (j : Nat) : Except StrFault Bool := do
  return (← loadChar l i) == (← loadChar r j)

-- The chars that the buffer gains hold whatever the heap holds there.
def reallocarray (junk : Nat → Char) (ptr : List Char) (nmemb : Nat) : List Char :=
  ptr.take nmemb ++ (List.range' ptr.length (nmemb - ptr.length)).map junk

def fullLength : Nat := 0
def strNopattern : Int := -1

def strFromCstr (cstr : CString) (len : Nat) : Except StrFault Str :=
  if strlen cstr ≥ len then
    .ok ⟨cstr.chars.take (if len = 0 then strlen cstr else len)⟩
  else .error (.assertion "String length cannot be greater than provided cstr len")

def strCreate (cstr : CString) : Except StrFault Str := strFromCstr cstr fullLength

def strIsEmpty (s : Str) : Bool := s.len == 0

-- `index + len` is a sum of two size_t.
def assertSlice (orig : Str) (index len : BitVec 64) : Except StrFault Unit :=
  if index.toNat < orig.len then
    if len.toNat < orig.len then
      if (index + len).toNat ≤ orig.len then .ok ()
      else .error (.assertion "Slice go out of original string bounds")
    else .error (.assertion "Sub string length cannot be greated than origin len")
  else .error (.assertion "Index overflows original string")

def strSubstr (fuel : Nat) (orig : Str) (index len : BitVec 64) : Except StrFault Str := do
  assertSlice orig index len
  let copy := fun (i : BitVec 32) buffer => do
    storeChar buffer i.toNat (← loadChar orig.ptr (index + i.setWidth 64).toNat)
  let buffer := List.replicate (len.toNat + 1) nul
  let (_, buffer) ← (upTo len.toNat copy).finish .unfinished fuel (0, buffer)
  strCreate (.ofBuffer buffer)

def strAppendChars (fuel : Nat) (junk : Nat → Char) (s : Str) (chars : CString) :
    Except StrFault Str := do
  let charsLen := strlen chars
  let newLen := s.len + charsLen
  if charsLen = 0 then return s
  if strIsEmpty s then strCreate chars
  else
    let diff := newLen - s.len
    let copy := fun (i : BitVec 32) newPtr => do
      storeChar newPtr (i.toNat + diff) (← loadChar chars.chars i.toNat)
    let (_, newPtr) ← (upTo diff copy).finish .unfinished fuel (0, reallocarray junk s.ptr newLen)
    return ⟨newPtr⟩

def strAppendChar (junk : Nat → Char) (s : Str) (ch : Char) : Except StrFault Str := do
  let newLen := s.len + 1
  if strIsEmpty s then strCreate (.ofBuffer [ch])
  else return ⟨← storeChar (reallocarray junk s.ptr newLen) s.len ch⟩

def strReverse (fuel : Nat) (s : Str) : Except StrFault Str := do
  if strIsEmpty s then return s
  let copy := fun (i : BitVec 32) ptr => do
    storeChar ptr i.toNat (← loadChar s.ptr (s.len - 1 - i.toNat))
  let (_, ptr) ← (upTo s.len copy).finish .unfinished fuel (0, s.ptr)
  return ⟨ptr⟩

def assertPattern (src pat : Str) : Except StrFault Unit :=
  if src.len ≠ 0 ∧ pat.len ≠ 0 then
    if src.len > pat.len then .ok ()
    else .error (.assertion
      "Pattern string cannot be equal or bigger to Source!Check str_are_equal(String,String)")
  else .error (.assertion "Source and pattern do not allow length of 0")

def strBeginsWith (fuel : Nat) (src pat : Str) : Except StrFault Bool := do
  assertPattern src pat
  let test := fun (i : BitVec 32) => sameChar src.ptr i.toNat pat.ptr i.toNat
  let (_, equal) ← (upTo pat.len (allOf test)).finish .unfinished fuel (0, true)
  return equal

def strEndsWith (fuel : Nat) (src pat : Str) : Except StrFault Bool := do
  assertPattern src pat
  let offset := src.len - pat.len
  let test := fun (i : BitVec 32) => sameChar src.ptr (i.toNat + offset) pat.ptr i.toNat
  let start := (BitVec.ofNat 32 (pat.len - 1), true)
  let (_, equal) ← (downFrom (allOf test)).finish .unfinished fuel start
  return equal

-- `src_i + c` adds two 32-bit counters.
def patternAt (fuel : Nat) (src pat : Str) (srcI : BitVec 32) : Except StrFault Bool := do
  let test := fun (c : BitVec 32) => sameChar src.ptr (srcI + c).toNat pat.ptr c.toNat
  let (_, equal) ← (upTo pat.len (allOf test)).finish .unfinished fuel (0, true)
  return equal

def strHasPattern (fuel : Nat) (src pat : Str) : Except StrFault Int := do
  assertPattern src pat
  let diff := src.len - pat.len
  if pat.len = 1 then
    let hit := fun (i : BitVec 32) => sameChar src.ptr i.toNat pat.ptr 0
    let (_, found) ← (search src.len hit).finish .unfinished fuel (0, false)
    -- The source returns `true` here.
    return if found then 1 else strNopattern
  else
    let (srcI, found) ←
      (search (diff + 1) (patternAt fuel src pat)).finish .unfinished fuel (0, false)
    return if found then srcI.toInt else strNopattern

-- is_a_num = is_a_num && (isOk(s.ptr[i])), over the whole string
def strAllChars (isOk : Char → Bool) (fuel : Nat) (s : Str) : Except StrFault Bool := do
  let test := fun (i : BitVec 32) => isOk <$> loadChar s.ptr i.toNat
  let (_, isANum) ← (upTo s.len (allOf test)).finish .unfinished fuel (0, true)
  return isANum

def strIsInteger : Nat → Str → Except StrFault Bool :=
  strAllChars fun c => ('0' ≤ c && c ≤ '9') || c == '-'

def strIsFloat : Nat → Str → Except StrFault Bool :=
  strAllChars fun c => ('0' ≤ c && c ≤ '9') || c == '-' || c == '.'

def Completes {α : Type} (f : Nat → Except StrFault α) (v : α) : Prop := ∃ fuel, f fuel = .ok v

theorem completes_upTo_iff {σ α : Type} {n : Nat} {body : BitVec 32 → σ → Except StrFault σ} {a : σ}
    {f : σ → α} {g : Nat → Except StrFault α} {y : α}
    (hloop : ∀ fuel, g fuel = (fun t => f t.2) <$> (upTo n body).finish .unfinished fuel (0, a)) :
    Completes g y ↔ n < 2 ^ 32 ∧ ∃ b, foldTo body a n = .ok b ∧ f b = y := by
  constructor
  · rintro ⟨fuel, h⟩
    exact (map_finish_upTo_iff.mp ((hloop fuel).symm.trans h)).2
  · intro h
    exact ⟨n, (hloop n).trans (map_finish_upTo_iff.mpr ⟨Nat.le_refl n, h⟩)⟩

theorem loadChar_of_lt {ptr : List Char} {i : Nat} (h : i < ptr.length) :
    loadChar ptr i = .ok ptr[i] := by
  rw [loadChar, List.getElem?_eq_getElem h]

theorem storeChar_of_lt {ptr : List Char} {i : Nat} (h : i < ptr.length) (c : Char) :
    storeChar ptr i c = .ok (ptr.set i c) := if_pos h

theorem storeChar_of_le {ptr : List Char} {i : Nat} (h : ptr.length ≤ i) (c : Char) :
    storeChar ptr i c = .error .outOfBounds := if_neg (Nat.not_lt.mpr h)

theorem sameChar_of_lt {l r : List Char} {i j : Nat} (hi : i < l.length) (hj : j < r.length) :
    sameChar l i r j = .ok (l[i]? == r[j]?) := by
  rw [sameChar, loadChar_of_lt hi, loadChar_of_lt hj, List.getElem?_eq_getElem hi,
    List.getElem?_eq_getElem hj]
  rfl

theorem assertPattern_ok {src pat : Str} (hpat : 0 < pat.len) (hlt : pat.len < src.len) :
    assertPattern src pat = .ok () := by
  rw [assertPattern, if_pos ⟨Nat.ne_zero_of_lt hlt, Nat.ne_zero_of_lt hpat⟩, if_pos hlt]

theorem prefix_drop_iff {src pat : List Char} {off : Nat} :
    pat <+: src.drop off ↔ ∀ k < pat.length, src[off + k]? = pat[k]? := by
  simp only [List.prefix_iff_getElem?, List.getElem?_drop]
  refine forall_congr' fun k => forall_congr' fun hk => ?_
  rw [List.getElem?_eq_getElem hk]

theorem all_sameChar_iff {src pat : List Char} {off : Nat} :
    ((List.range pat.length).all fun k => src[off + k]? == pat[k]?) = true ↔
      pat <+: src.drop off := by
  simp only [List.all_eq_true, List.mem_range, beq_iff_eq, prefix_drop_iff]

theorem strIsEmpty_iff {s : Str} : strIsEmpty s = true ↔ s.ptr = [] := by
  rw [strIsEmpty, beq_iff_eq]
  exact List.length_eq_zero_iff

theorem strCreate_eq (cstr : CString) : strCreate cstr = .ok ⟨cstr.chars⟩ := by
  rw [strCreate, strFromCstr, fullLength, if_pos (Nat.zero_le _), if_pos rfl, strlen,
    List.take_length]

section Stores

variable {ptr chars : List Char} {off n : Nat} {get : BitVec 32 → Except StrFault Char}

theorem set_append_drop {written : List Char} (c : Char) (hlen : written.length = n)
    (h : n < ptr.length) :
    (written ++ ptr.drop n).set n c = written ++ [c] ++ ptr.drop (n + 1) := by
  rw [List.drop_eq_getElem_cons h, List.set_append_right _ _ (Nat.le_of_eq hlen), hlen,
    Nat.sub_self, List.set_cons_zero, List.append_assoc, List.singleton_append]

theorem foldTo_store (hget : ∀ k < n, ∃ h : k < chars.length, get (BitVec.ofNat 32 k) = .ok chars[k])
    (hfits : off + n ≤ ptr.length) (hn : n ≤ 2 ^ 32) :
    foldTo (fun i ptr => do storeChar ptr (i.toNat + off) (← get i)) ptr n =
      .ok (ptr.take off ++ chars.take n ++ ptr.drop (off + n)) := by
  induction n with
  | zero =>
    rw [List.take_zero, List.append_nil, Nat.add_zero, List.take_append_drop]
    rfl
  | succ n ih =>
    obtain ⟨hchar, hvalue⟩ := hget n (Nat.lt_succ_self n)
    have hbefore := ih (fun k hk => hget k (Nat.lt_succ_of_lt hk)) (Nat.le_of_succ_le hfits)
      (Nat.le_of_succ_le hn)
    have hlen : (ptr.take off ++ chars.take n).length = off + n := by
      rw [List.length_append, List.length_take_of_le (by omega),
        List.length_take_of_le (Nat.le_of_lt hchar)]
    have hroom : n + off < (ptr.take off ++ chars.take n ++ ptr.drop (off + n)).length := by
      rw [List.length_append, hlen, List.length_drop]
      omega
    rw [foldTo, hbefore, ok_bind, hvalue, ok_bind,
      counter_toNat hn, storeChar_of_lt hroom, Nat.add_comm n off,
      set_append_drop _ hlen (by omega), List.append_assoc (ptr.take off),
      List.take_append_getElem hchar]
    rfl

end Stores

theorem strBeginsWith_ok_iff {src pat : Str} {fuel : Nat} {b : Bool} (hpat : 0 < pat.len)
    (hlt : pat.len < src.len) : strBeginsWith fuel src pat = .ok b ↔
      pat.len ≤ fuel ∧ pat.len < 2 ^ 32 ∧ (b = true ↔ pat.ptr <+: src.ptr) := by
  have htest (k : Nat) (hk : k < pat.len) (hbound : k < 2 ^ 32) :
      sameChar src.ptr (BitVec.ofNat 32 k).toNat pat.ptr (BitVec.ofNat 32 k).toNat =
        .ok (src.ptr[0 + k]? == pat.ptr[k]?) := by
    rw [counter_toNat hbound, Nat.zero_add]
    exact sameChar_of_lt (Nat.lt_trans hk hlt) hk
  have hloop : strBeginsWith fuel src pat = Prod.snd <$>
      (upTo pat.len (allOf fun i => sameChar src.ptr i.toNat pat.ptr i.toNat)).finish .unfinished
        fuel (0, true) := by
    rw [strBeginsWith, assertPattern_ok hpat hlt]
    rfl
  have hall : ((List.range pat.len).all fun k => src.ptr[0 + k]? == pat.ptr[k]?) = true ↔
      pat.ptr <+: src.ptr := all_sameChar_iff
  rw [hloop]
  exact snd_finish_allOf_iff htest hall

end CAt
