import CAt.Toolchain.Set
import CAt.Toolchain.Visible

namespace CAt

open GuardedLoop
open LittleEndian (ofBytes)
open StoredInstruction (layout)
open Toolchain (ofStored_of_map setMain_content)

namespace UnreadBytes

-- The bytes of a 16-byte record that execute_op can read: the low byte of the operation, the
-- registers, and the half of the storage that i32 and f32 share.
def readOffsets : List Nat := [0, 4, 5, 6, 8, 9, 10, 11]

def AgreeOn (offsets : List Nat) (bytes bytes' : List Byte) : Prop :=
  bytes.length = bytes'.length ∧
    ∀ i < bytes.length, i % 16 ∈ offsets → bytes[i]? = bytes'[i]?

instance (offsets : List Nat) (bytes bytes' : List Byte) :
    Decidable (AgreeOn offsets bytes bytes') :=
  inferInstanceAs (Decidable (bytes.length = bytes'.length ∧
    ∀ i < bytes.length, i % 16 ∈ offsets → bytes[i]? = bytes'[i]?))

theorem ofBytes_low {b0 b1 b2 b3 : Byte} {high high' : List Byte} :
    (BitVec.ofNat 64 (ofBytes (b0 :: b1 :: b2 :: b3 :: high))).setWidth 32 =
      (BitVec.ofNat 64 (ofBytes (b0 :: b1 :: b2 :: b3 :: high'))).setWidth 32 := by
  apply BitVec.eq_of_toNat_eq
  simp only [ofBytes, BitVec.toNat_setWidth, BitVec.toNat_ofNat]
  omega

theorem ofBytes_lowest {b : Byte} {high high' : List Byte} :
    (BitVec.ofNat 32 (ofBytes (b :: high))).setWidth 8 =
      (BitVec.ofNat 32 (ofBytes (b :: high'))).setWidth 8 := by
  apply BitVec.eq_of_toNat_eq
  simp only [ofBytes, BitVec.toNat_setWidth, BitVec.toNat_ofNat]
  omega

theorem seen_decode {bs bs' : List Byte} (hbs : bs.length = 16) (hbs' : bs'.length = 16)
    (h : ∀ k ∈ readOffsets, bs[k]? = bs'[k]?) :
    (StoredInstruction.decode bs).toInstruction.seen =
      (StoredInstruction.decode bs').toInstruction.seen := by
  match bs, hbs, bs', hbs' with
  | o0 :: o1 :: o2 :: o3 :: r0 :: r1 :: r2 :: padding :: s0 :: s1 :: s2 :: s3 :: storage, _,
    o0' :: o1' :: o2' :: o3' :: r0' :: r1' :: r2' :: padding' :: s0' :: s1' :: s2' :: s3' ::
      storage', _ =>
    have hread : o0 = o0' ∧ r0 = r0' ∧ r1 = r1' ∧ r2 = r2' ∧ s0 = s0' ∧ s1 = s1' ∧ s2 = s2' ∧
        s3 = s3' := by simpa [readOffsets] using h
    obtain ⟨rfl, rfl, rfl, rfl, rfl, rfl, rfl, rfl⟩ := hread
    exact Visible.seen_congr ofBytes_lowest rfl ofBytes_low

theorem getElem?_record (bytes : List Byte) (j : Nat) {k : Nat} (hk : k < 16) :
    (layout.record bytes j)[k]? = bytes[16 * j + k]? := by
  change ((bytes.drop (16 * j)).take 16)[k]? = _
  rw [List.getElem?_take_of_lt hk, List.getElem?_drop]

theorem length_record {bytes : List Byte} {j : Nat} (h : j < bytes.length / 16) :
    (layout.record bytes j).length = 16 := by
  change ((bytes.drop (16 * j)).take 16).length = 16
  rw [List.length_take, List.length_drop]
  omega

theorem offsets_lt : ∀ k ∈ readOffsets, k < 16 := by decide

def instructions (bytes : List Byte) : List Instruction :=
  (layout.read bytes).map StoredInstruction.toInstruction

section Agree

variable {bytes bytes' : List Byte}

theorem AgreeOn.seen (h : AgreeOn readOffsets bytes bytes') :
    (instructions bytes).map Instruction.seen = (instructions bytes').map Instruction.seen := by
  obtain ⟨hlength, hread⟩ := h
  simp only [instructions, Records.Layout.read, List.map_map, hlength]
  apply List.map_congr_left
  intro j hj
  have hlt : j < bytes'.length / 16 := List.mem_range.mp hj
  apply seen_decode (length_record (hlength ▸ hlt)) (length_record hlt)
  intro k hk
  have hk16 := offsets_lt k hk
  have hmod : (16 * j + k) % 16 = k := by omega
  have hbound : 16 * j + k < bytes.length := by omega
  rw [getElem?_record bytes j hk16, getElem?_record bytes' j hk16]
  exact hread _ hbound (hmod.symm ▸ hk)

end Agree

section Set

variable {host : Host} {files files' : FileSystem} {tool path : String} {bytes bytes' : List Byte}

theorem ofStored_read (bytes : List Byte) (hlt : (instructions bytes).length < 2 ^ 60) :
    ofStored (layout.read bytes) = .ok ⟨instructions bytes, hlt⟩ :=
  ofStored_of_map rfl

theorem ofStored_large {bytes : List Byte} (hlarge : ¬ (instructions bytes).length < 2 ^ 60) :
    ofStored (layout.read bytes) = .error .programOutOfBounds :=
  dif_neg hlarge

def ended (host : Host) (stdout : List String) (m : Machine) : Option SetEnded :=
  if (vmLoop host).guard m then none else
    some ⟨exitStatus m.accumRegister, m.writes, stdout, m.stderr⟩

theorem ended_bare {m m' : Machine} (h : Visible.Twins m m') (stdout : List String) :
    ended host stdout m = ended host stdout m' := by
  have haccum : m.bare.accumRegister = m'.bare.accumRegister := congrArg _ h.bare
  have hwrites : m.bare.writes = m'.bare.writes := congrArg _ h.bare
  have hstderr : m.bare.stderr = m'.bare.stderr := congrArg _ h.bare
  change m.accumRegister = m'.accumRegister at haccum
  change m.writes = m'.writes at hwrites
  change m.stderr = m'.stderr at hstderr
  rw [ended, ended, h.guard_eq, haccum, hwrites, hstderr]

theorem length_instructions (bytes : List Byte) : (instructions bytes).length = bytes.length / 16 :=
  (List.length_map _).trans (layout.length_read bytes)

theorem setMain_seen (h : files.content path = some bytes) (h' : files'.content path = some bytes')
    (hseen : (instructions bytes).map Instruction.seen = (instructions bytes').map Instruction.seen)
    (fuel : Nat) :
    setMain host fuel files ⟨[tool, path]⟩ = setMain host fuel files' ⟨[tool, path]⟩ := by
  have hlength : (instructions bytes).length = (instructions bytes').length := by
    have := congrArg List.length hseen
    rwa [List.length_map, List.length_map] at this
  rw [setMain_content h, setMain_content h', ← length_instructions, ← length_instructions, hlength]
  by_cases hlt : (instructions bytes).length < 2 ^ 60
  · have htwins : Visible.Twins (initMachine .zero ⟨instructions bytes, hlt⟩)
        (initMachine .zero ⟨instructions bytes', hlength ▸ hlt⟩) := ⟨rfl, hseen, .inl rfl⟩
    rw [ofStored_read bytes hlt, ofStored_read bytes' (hlength ▸ hlt), Loop.ok_bind, Loop.ok_bind]
    have halike : Loop.Alike Visible.Twins (executeProgram host fuel _)
        (executeProgram host fuel _) := htwins.run fuel
    generalize executeProgram host fuel _ = c at halike ⊢
    generalize executeProgram host fuel _ = c' at halike ⊢
    cases halike with
    | error e => rfl
    | ok twins => exact congrArg Except.ok (ended_bare twins _)
  · rw [ofStored_large hlt, ofStored_large (hlength ▸ hlt)]

theorem set_ignores_unread (h : files.content path = some bytes)
    (h' : files'.content path = some bytes') (hagree : AgreeOn readOffsets bytes bytes') :
    (∀ ended, SetReturns host files ⟨[tool, path]⟩ ended ↔
      SetReturns host files' ⟨[tool, path]⟩ ended) ∧
    ∀ fuel e, setMain host fuel files ⟨[tool, path]⟩ = .error e ↔
      setMain host fuel files' ⟨[tool, path]⟩ = .error e := by
  have hmain (fuel : Nat) : setMain host fuel files ⟨[tool, path]⟩ =
      setMain host fuel files' ⟨[tool, path]⟩ := setMain_seen h h' hagree.seen fuel
  refine ⟨fun ended => ?_, fun fuel e => by rw [hmain]⟩
  simp only [SetReturns, hmain]

def disk (bytes : List Byte) : FileSystem := ⟨fun _ => some bytes, fun _ => true⟩

-- set r0 5, ret r0: once as it is assembled, and once with every byte that is not read set.
def plainBytes : List Byte :=
  layout.write [⟨Build.set 0 5, 0⟩, ⟨Build.ret 0, 0⟩]

def noisyBytes : List Byte :=
  plainBytes.mapIdx fun i b => if i % 16 ∈ readOffsets then b else 255

theorem set_ignores_unread_noisy :
    SetReturns Host.integer (disk noisyBytes) ⟨["set", "p.caic"]⟩ ⟨5, [], [], []⟩ := by
  have hagree : AgreeOn readOffsets plainBytes noisyBytes := by decide
  have hplain : SetReturns Host.integer (disk plainBytes) ⟨["set", "p.caic"]⟩ ⟨5, [], [], []⟩ :=
    ⟨2, rfl⟩
  have halike : (∀ ended, SetReturns Host.integer (disk plainBytes) ⟨["set", "p.caic"]⟩ ended ↔
      SetReturns Host.integer (disk noisyBytes) ⟨["set", "p.caic"]⟩ ended) ∧ _ :=
    set_ignores_unread rfl rfl hagree
  exact (halike.1 _).mp hplain

end Set

end UnreadBytes

end CAt
