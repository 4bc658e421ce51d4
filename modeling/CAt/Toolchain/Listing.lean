import CAt.Toolchain.Caasm
import CAt.Toolchain.UnreadBytes

namespace CAt

open Printf (decimal render render_append_inj)
open HiddenOperands (reads restrict_congr reads_of_printed stdout_of_format format_delimited
  printedOps mem_printedOps)
open UnreadBytes (instructions)

namespace Listing

-- What a listing shows whole: no FSET, no jump to a register, and conditional jumps as
-- assemble_line makes them, with nothing in their last register.
def Plain (inst : Instruction) : Prop :=
  ∃ op ∈ inst.decode, op ∈ printedOps ∧ op ≠ .iFset ∧
    (op = .iEjmp ∨ op = .iNejmp → inst.r2 = 0)

instance (inst : Instruction) : Decidable (Plain inst) :=
  inferInstanceAs (Decidable (∃ op ∈ inst.decode, op ∈ printedOps ∧ op ≠ .iFset ∧
    (op = .iEjmp ∨ op = .iNejmp → inst.r2 = 0)))

def word (text : List Char) : List Char := (text.drop 2).takeWhile fun c => c != ' ' && c != '\n'

def wordOf (op : Inst) : List Char := word (render (fun _ => []) ((asmFormat op).getD []))

theorem words_nodup : (printedOps.map wordOf).Nodup := by decide +kernel

def AtLineEnd (text : List Char) : Prop := text = [] ∨ ∃ rest, text = '\n' :: rest

section Texts

variable {formatFloat : Float32Bits → List Char} {i j : Instruction} {p : Inst}
  {ps : List (Printf.Piece Operand)} {cs ds : List Char}

theorem word_render (h : asmFormat p = some ps) (hcs : AtLineEnd cs) (print : Operand → List Char) :
    word (render print ps ++ cs) = wordOf p := by
  rcases hcs with rfl | ⟨rest, rfl⟩ <;> cases p <;> cases h <;> rfl

theorem stops_lineEnd (h : AtLineEnd cs) : Printf.Stops cs := by
  rcases h with rfl | ⟨rest, rfl⟩
  · nofun
  · intro c hc
    cases hc
    rfl

theorem format_of_printed (h : p ∈ printedOps) : ∃ ps, asmFormat p = some ps :=
  Option.isSome_iff_exists.mp (List.mem_filter.mp h).2

theorem text_lineEnd (hi : i.decode = some p) (h : asmFormat p = some ps) (cs : List Char) :
    ∃ rest, (printInstructionAsm formatFloat i).stdout ++ cs = '\n' :: rest := by
  rw [printInstructionAsm, hi, Option.bind_some, h]
  cases p <;> cases h <;> exact ⟨_, rfl⟩

theorem reads_of_plain (hi : i.decode = some p) (hj : j.decode = some p) (h : asmFormat p = some ps)
    (hri : p = .iEjmp ∨ p = .iNejmp → i.r2 = 0) (hrj : p = .iEjmp ∨ p = .iNejmp → j.r2 = 0)
    (hvalues : ∀ a, .arg a ∈ ps → a.value i = a.value j) : i.seen = j.seen := by
  have hreads : ∀ a ∈ reads p, a.value i = a.value j := by
    by_cases hjump : p = .iEjmp ∨ p = .iNejmp
    · have hr2 : i.r2 = j.r2 := (hri hjump).trans (hrj hjump).symm
      have hshown : .arg .asI32 ∈ ps ∧ .arg .r1 ∈ ps := HiddenOperands.immediateJump_shows h hjump
      have hlast : Operand.r2.value i = Operand.r2.value j := congrArg BitVec.toInt hr2
      have hall : ∀ a ∈ [Operand.asI32, .r1, .r2], a.value i = a.value j := by
        simp [hvalues _ hshown.1, hvalues _ hshown.2, hlast]
      rcases hjump with rfl | rfl <;> exact hall
    · exact reads_of_printed h (mt Or.inl hjump) (mt Or.inr hjump) hvalues
  rw [Instruction.seen, Instruction.seen, hi, hj]
  exact restrict_congr hreads

theorem text_append_inj (hi : Plain i) (hj : Plain j) (hcs : AtLineEnd cs) (hds : AtLineEnd ds)
    (h : (printInstructionAsm formatFloat i).stdout ++ cs =
      (printInstructionAsm formatFloat j).stdout ++ ds) : i.seen = j.seen ∧ cs = ds := by
  obtain ⟨p, hip, hp, hfset, hri⟩ := hi
  obtain ⟨q, hjq, hq, hfset', hrj⟩ := hj
  obtain ⟨ps, hps⟩ := format_of_printed hp
  obtain ⟨qs, hqs⟩ := format_of_printed hq
  rw [stdout_of_format hip hps hfset, stdout_of_format hjq hqs hfset'] at h
  have hword := congrArg word h
  rw [word_render hps hcs, word_render hqs hds] at hword
  obtain rfl := List.inj_on_of_nodup_map words_nodup hp hq hword
  cases hps.symm.trans hqs
  obtain ⟨hvalues, hrest⟩ := render_append_inj (format_delimited hps) (stops_lineEnd hcs)
    (stops_lineEnd hds) h
  exact ⟨reads_of_plain hip hjq hps hri hrj hvalues, hrest⟩

end Texts

section Listings

variable {formatFloat : Float32Bits → List Char} {code code' : List Instruction}

def listing (formatFloat : Float32Bits → List Char) (code : List Instruction) : List Char :=
  (printProgramAsm formatFloat code).stdout

theorem listing_cons (i : Instruction) (code : List Instruction) :
    listing formatFloat (i :: code) =
      (printInstructionAsm formatFloat i).stdout ++ listing formatFloat code := rfl

theorem text_atLineEnd {i : Instruction} (h : Plain i) (cs : List Char) :
    ∃ rest, (printInstructionAsm formatFloat i).stdout ++ cs = '\n' :: rest := by
  obtain ⟨p, hp, hprinted, -, -⟩ := h
  obtain ⟨ps, hps⟩ := format_of_printed hprinted
  exact text_lineEnd hp hps cs

theorem listing_atLineEnd (h : ∀ i ∈ code, Plain i) : AtLineEnd (listing formatFloat code) := by
  cases code with
  | nil => exact .inl rfl
  | cons i code =>
    rw [listing_cons]
    exact .inr (text_atLineEnd (h i List.mem_cons_self) _)

theorem listing_inj (h : ∀ i ∈ code, Plain i) (h' : ∀ i ∈ code', Plain i)
    (heq : listing formatFloat code = listing formatFloat code') :
    code.map Instruction.seen = code'.map Instruction.seen := by
  induction code generalizing code' with
  | nil =>
    cases code' with
    | nil => rfl
    | cons j code' =>
      obtain ⟨rest, hrest⟩ := text_atLineEnd (h' j List.mem_cons_self) (listing formatFloat code')
      rw [listing_cons, hrest] at heq
      cases heq
  | cons i code ih =>
    cases code' with
    | nil =>
      obtain ⟨rest, hrest⟩ := text_atLineEnd (h i List.mem_cons_self) (listing formatFloat code)
      rw [listing_cons, hrest] at heq
      cases heq
    | cons j code' =>
      obtain ⟨hi, hcode⟩ := List.forall_mem_cons.mp h
      obtain ⟨hj, hcode'⟩ := List.forall_mem_cons.mp h'
      rw [listing_cons, listing_cons] at heq
      obtain ⟨hseen, hrest⟩ :=
        text_append_inj hi hj (listing_atLineEnd hcode) (listing_atLineEnd hcode') heq
      rw [List.map_cons, List.map_cons, hseen, ih hcode hcode' hrest]

end Listings

section Files

variable {host : Host} {formatFloat : Float32Bits → List Char} {files files' : FileSystem}
  {tool path : String} {bytes bytes' : List Byte}

theorem mainDisassemble_listing {a : Args} (hargs : argFindValue a "-d" = some path)
    (h : files.content path = some bytes) :
    (mainDisassemble formatFloat files a).stdout =
      Toolchain.warnings (bytes.length / 16) ++
        [String.ofList (listing formatFloat (instructions bytes))] := by
  rw [mainDisassemble, hargs]
  simp only [ProgramFile.loadFromFile_program h, (Toolchain.load_stdout h).1]
  rfl

theorem listing_determines_run {a : Args} (hargs : argFindValue a "-d" = some path)
    (h : files.content path = some bytes) (h' : files'.content path = some bytes')
    (hplain : ∀ i ∈ instructions bytes, Plain i) (hplain' : ∀ i ∈ instructions bytes', Plain i)
    (hlisting : (mainDisassemble formatFloat files a).stdout =
      (mainDisassemble formatFloat files' a).stdout) (fuel : Nat) :
    setMain host fuel files ⟨[tool, path]⟩ = setMain host fuel files' ⟨[tool, path]⟩ := by
  rw [mainDisassemble_listing hargs h, mainDisassemble_listing hargs h',
    List.append_singleton_inj] at hlisting
  have hlistings : listing formatFloat (instructions bytes) =
      listing formatFloat (instructions bytes') := by
    simpa using congrArg String.toList hlisting.2
  exact UnreadBytes.setMain_seen h h' (listing_inj hplain hplain' hlistings) fuel

theorem listing_determines_run_noisy :
    setMain Host.integer 2 (UnreadBytes.disk UnreadBytes.noisyBytes) ⟨["set", "p.caic"]⟩ =
      .ok (some ⟨5, [], [], []⟩) := by
  have hplain : ∀ i ∈ instructions UnreadBytes.plainBytes, Plain i := by decide
  have hnoisy : ∀ i ∈ instructions UnreadBytes.noisyBytes, Plain i := by decide
  have hlisting : (mainDisassemble HiddenOperands.showBits (UnreadBytes.disk UnreadBytes.plainBytes)
      ⟨["caasm", "-d", "p.caic"]⟩).stdout = (mainDisassemble HiddenOperands.showBits
      (UnreadBytes.disk UnreadBytes.noisyBytes) ⟨["caasm", "-d", "p.caic"]⟩).stdout := by rfl
  have hsame : setMain Host.integer 2 (UnreadBytes.disk UnreadBytes.plainBytes)
      ⟨["set", "p.caic"]⟩ = _ := listing_determines_run rfl rfl rfl hplain hnoisy hlisting 2
  exact hsame.symm.trans rfl

end Files

end Listing

end CAt
