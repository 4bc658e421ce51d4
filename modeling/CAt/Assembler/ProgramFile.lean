import CAt.Library.Records
import CAt.Vm.InstructionSet
import Mathlib.Logic.Function.Basic

namespace CAt

open LittleEndian (toBytes ofBytes length_toBytes ofBytes_toBytes toBytes_ofBytes ofBytes_lt)
open Records (Layout)

-- An Instruction as it lies in memory: the byte between argument_reg and storage is padding.
structure StoredInstruction extends Instruction where
  padding : Byte
deriving DecidableEq, Repr

namespace StoredInstruction

def encode (i : StoredInstruction) : List Byte :=
  toBytes 4 i.operation.toNat ++ [i.r0, i.r1, i.r2, i.padding] ++ toBytes 8 i.storage.toNat

def decode (bs : List Byte) : StoredInstruction where
  operation := BitVec.ofNat 32 (ofBytes (bs.take 4))
  argumentReg := Vector.ofFn fun k => bs.getD (4 + k.val) 0
  padding := bs.getD 7 0
  storage := BitVec.ofNat 64 (ofBytes (bs.drop 8))

theorem length_encode (i : StoredInstruction) : i.encode.length = 16 := by
  simp [encode]

theorem decode_encode (i : StoredInstruction) : decode i.encode = i := by
  have hoperation : ofBytes (toBytes 4 i.operation.toNat) = i.operation.toNat :=
    ofBytes_toBytes i.operation.isLt
  have hstorage : ofBytes (toBytes 8 i.storage.toNat) = i.storage.toNat :=
    ofBytes_toBytes i.storage.isLt
  have hregisters : (Vector.ofFn fun k : Fin 3 => i.encode.getD (4 + k.val) 0) = i.argumentReg := by
    ext k hk
    rw [Vector.getElem_ofFn]
    match k, hk with
    | 0, _ => rfl
    | 1, _ => rfl
    | 2, _ => rfl
  change StoredInstruction.mk ⟨BitVec.ofNat 32 (ofBytes (toBytes 4 i.operation.toNat)),
    Vector.ofFn fun k : Fin 3 => i.encode.getD (4 + k.val) 0,
    BitVec.ofNat 64 (ofBytes (toBytes 8 i.storage.toNat))⟩ i.padding = i
  rw [hoperation, hstorage, hregisters, BitVec.ofNat_toNat, BitVec.ofNat_toNat,
    BitVec.setWidth_eq, BitVec.setWidth_eq]

theorem toNat_ofBytes {n w : Nat} {bs : List Byte} (h : bs.length = n) (hw : 256 ^ n = 2 ^ w) :
    (BitVec.ofNat w (ofBytes bs)).toNat = ofBytes bs := by
  rw [BitVec.toNat_ofNat]
  apply Nat.mod_eq_of_lt
  rw [← hw, ← h]
  exact ofBytes_lt bs

theorem encode_decode (bs : List Byte) (h : bs.length = 16) : (decode bs).encode = bs := by
  match bs, h with
  | o0 :: o1 :: o2 :: o3 :: r0 :: r1 :: r2 :: padding :: storage, h =>
    have hstorage : storage.length = 8 := by
      simp only [List.length_cons] at h
      omega
    change toBytes 4 (BitVec.ofNat 32 (ofBytes [o0, o1, o2, o3])).toNat ++
      [r0, r1, r2, padding] ++ toBytes 8 (BitVec.ofNat 64 (ofBytes storage)).toNat = _
    rw [toNat_ofBytes (n := 4) rfl (by decide), toNat_ofBytes hstorage (by decide),
      toBytes_ofBytes (n := 4) rfl, toBytes_ofBytes hstorage]
    rfl

def layout : Layout Byte StoredInstruction where
  size := 16
  pos := by decide
  encode := encode
  decode := decode
  length_encode := length_encode
  decode_encode := decode_encode
  encode_decode := encode_decode

end StoredInstruction

open StoredInstruction (layout)

-- What fopen finds: the files that exist and the paths that can be created.
structure FileSystem where
  content : String → Option (List Byte)
  canCreate : String → Bool

structure Written where
  result : Int
  files : FileSystem
  stderr : List String

structure Loaded where
  instructions : Option (List StoredInstruction)
  programSize : Nat
  stderr : List String
  stdout : List String

def writeToFile (files : FileSystem) (fpath : String) (program : List StoredInstruction) :
    Written :=
  if files.canCreate fpath then
    { result := 1
      files := { files with
        content := Function.update files.content fpath (some (layout.write program)) }
      stderr := [] }
  else
    { result := -1
      files
      stderr := ["ERROR:\tFAILED TO CREATE FILE(" ++ fpath ++ ")\n"] }

-- `fread` of one item of zero bytes reads no item, so an empty file leaves the size as it was.
def loadFromFile (files : FileSystem) (fpath : String) (programSize : Nat) : Loaded :=
  match files.content fpath with
  | none =>
    { instructions := none
      programSize
      stderr := ["ERROR:\tFAILED TO LOAD FILE(" ++ fpath ++ ")\n"]
      stdout := [] }
  | some fbuff =>
    let rsize := if fbuff.length = 0 then 0 else 1
    let size := if rsize ≠ 0 then fbuff.length / layout.size else programSize
    { instructions := if rsize ≠ 0 then some (layout.read fbuff) else none
      programSize := size
      stderr := []
      stdout := if size % 16 = 0 then
        ["WARNING: UNEVEN BYTE COUNT FOR INSTRUCTION SET\n"] else [] }

namespace ProgramFile

-- The array a caller gets: the pointer may be null only with a size of zero.
def program (l : Loaded) : List StoredInstruction := (l.instructions.getD []).take l.programSize

variable {files : FileSystem} {fpath : String}

theorem writeToFile_content (h : files.canCreate fpath = true) (ps : List StoredInstruction) :
    (writeToFile files fpath ps).files.content fpath = some (layout.write ps) := by
  rw [writeToFile, if_pos h]
  exact Function.update_self _ _ _

theorem loadFromFile_size {bytes : List Byte} (h : files.content fpath = some bytes) :
    (loadFromFile files fpath 0).programSize = bytes.length / 16 := by
  simp only [loadFromFile, h]
  by_cases hempty : bytes.length = 0
  · rw [if_pos hempty, hempty]
    rfl
  · rw [if_neg hempty]
    rfl

theorem loadFromFile_program {bytes : List Byte} (h : files.content fpath = some bytes) :
    program (loadFromFile files fpath 0) = layout.read bytes := by
  have hlength : (layout.read bytes).length = bytes.length / 16 := layout.length_read bytes
  rw [program, loadFromFile_size h]
  simp only [loadFromFile, h]
  by_cases hempty : bytes.length = 0
  · rw [if_pos hempty, hempty]
    rw [hempty] at hlength
    exact (List.length_eq_zero_iff.mp hlength).symm
  · rw [if_neg hempty]
    exact List.take_of_length_le (Nat.le_of_eq hlength)

theorem caic_round_trip (files : FileSystem) (fpath : String) :
    (files.canCreate fpath = true → ∀ ps,
      (loadFromFile (writeToFile files fpath ps).files fpath 0).programSize = ps.length ∧
      program (loadFromFile (writeToFile files fpath ps).files fpath 0) = ps) ∧
    ∀ bytes, files.content fpath = some bytes →
      (loadFromFile files fpath 0).programSize = bytes.length / 16 ∧
      (program (loadFromFile files fpath 0)).length = bytes.length / 16 ∧
      (∀ j i, (program (loadFromFile files fpath 0))[j]? = some i →
        i = StoredInstruction.decode ((bytes.drop (16 * j)).take 16)) ∧
      ∀ copy, files.canCreate copy = true →
        (writeToFile files copy (program (loadFromFile files fpath 0))).files.content copy =
          some (bytes.take (16 * (bytes.length / 16))) := by
  constructor
  · intro hcreate ps
    have hcontent := writeToFile_content hcreate ps
    have hlength : (layout.write ps).length / 16 = ps.length := by
      rw [layout.length_write]
      exact Nat.mul_div_cancel_left _ (by decide)
    exact ⟨(loadFromFile_size hcontent).trans hlength,
      (loadFromFile_program hcontent).trans (layout.read_write ps)⟩
  · intro bytes hcontent
    rw [loadFromFile_program hcontent]
    refine ⟨loadFromFile_size hcontent, layout.length_read bytes, ?_, ?_⟩
    · intro j i hi
      obtain ⟨hj, rfl⟩ := List.getElem?_eq_some_iff.mp hi
      exact layout.getElem_read bytes j hj
    · intro copy hcopy
      rw [writeToFile_content hcopy, layout.write_read]
      rfl

-- set r1 770, with a padding byte the C program left behind, and ret r1.
def returning : List StoredInstruction := [⟨Build.set 1 770, 9⟩, ⟨Build.ret 1, 0⟩]

def cutShort : List Byte := (layout.write returning).take 21

def cutDisk : FileSystem := ⟨fun _ => some cutShort, fun _ => true⟩

theorem caic_round_trip_cut :
    program (loadFromFile (writeToFile cutDisk "all" returning).files "all" 0) = returning ∧
      program (loadFromFile cutDisk "cut" 0) = [⟨Build.set 1 770, 9⟩] ∧
      (writeToFile cutDisk "copy" (program (loadFromFile cutDisk "cut" 0))).files.content "copy" =
        some [6, 0, 0, 0, 1, 0, 0, 9, 2, 3, 0, 0, 0, 0, 0, 0] := by
  obtain ⟨hwritten, -⟩ := caic_round_trip cutDisk "all"
  obtain ⟨-, hread⟩ := caic_round_trip cutDisk "cut"
  obtain ⟨-, hlength, hrecord, hcopy⟩ := hread cutShort rfl
  refine ⟨(hwritten rfl returning).2, ?_, hcopy "copy" rfl⟩
  obtain ⟨first, hfirst⟩ := List.length_eq_one_iff.mp hlength
  have hdecoded := hrecord 0 first (by rw [hfirst]; rfl)
  rw [hfirst, hdecoded]
  rfl

end ProgramFile

end CAt
