import CAt.Language.Simulation
import CAt.Toolchain.PrintedSource
import CAt.Toolchain.Set

namespace CAt

open GuardedLoop
open CAt.Language (Source State addOne)
open StoredInstruction (layout)

namespace Toolchain

structure Asks (a : Args) (source out : String) : Prop where
  source : a.argv[1]? = some source
  assemble : "-d" ∉ a.argv.tail
  out : (outPath a).1 = out

section Assemble

variable {host : Host} {formatFloat : Float32Bits → List Char} {leftovers : Leftovers}
  {files : FileSystem} {a : Args} {source out : String} {bytes : List Byte} {p : Source}

theorem caasm_mainAssemble (hasks : Asks a source out) :
    caasm host formatFloat leftovers files a = mainAssemble host leftovers files a := by
  have hargc : ¬ a.argc < 2 := by
    obtain ⟨hlt, -⟩ := List.getElem?_eq_some_iff.mp hasks.source
    exact Nat.not_lt.mpr hlt
  have hflag : argFind a "-d" = 0 := by
    by_contra hfound
    exact hasks.assemble (Args.argFind_ne_zero_iff.mp hfound)
  rw [caasm, if_neg hargc, if_neg (not_not.mpr hflag)]

def withFile (files : FileSystem) (path : String) (content : List Byte) : FileSystem :=
  { files with content := Function.update files.content path (some content) }

theorem withFile_content (files : FileSystem) (path : String) (content : List Byte) :
    (withFile files path content).content path = some content :=
  Function.update_self _ _ _

theorem caasm_holds (hasks : Asks a source out) (hsource : files.content source = some bytes)
    (hout : files.canCreate out = true) (h : Holds leftovers bytes p) :
    ∃ ended, caasm host formatFloat leftovers files a = .ok ended ∧ ended.status = 0 ∧
      ended.files = withFile files out (layout.write (stored leftovers.padding (p.code host))) := by
  obtain ⟨hargument, -, rfl⟩ := id hasks
  have hwritten : (writeToFile files (outPath a).1
      (stored leftovers.padding (p.code host))).files =
        withFile files (outPath a).1 (layout.write (stored leftovers.padding (p.code host))) := by
    rw [writeToFile, if_pos hout]
    rfl
  rw [caasm_mainAssemble hasks, mainAssemble]
  simp only [hargument, hsource, assembleSource_holds h, Loop.ok_bind]
  exact ⟨_, rfl, rfl, hwritten⟩

end Assemble

section Execute

variable {host : Host} {files : FileSystem} {tool path : String} {padding : Nat → Byte}
  {code : List Instruction}

theorem stored_instructions (padding : Nat → Byte) (code : List Instruction) :
    (stored padding code).map StoredInstruction.toInstruction = code := by
  apply List.ext_getElem
  · simp [stored]
  · intro n hn hn'
    simp [stored]

theorem length_stored (padding : Nat → Byte) (code : List Instruction) :
    (stored padding code).length = code.length :=
  List.length_mapIdx

theorem setMain_stored (program : Program)
    (hcontent : files.content path = some (layout.write (stored padding program.code)))
    (fuel : Nat) :
    setMain host fuel files ⟨[tool, path]⟩ = (do
      let m ← executeProgram host fuel (initMachine .zero program)
      return if (vmLoop host).guard m then none else
        some ⟨exitStatus m.accumRegister, m.writes, warnings program.code.length, m.stderr⟩) := by
  have hload :
      ofStored (layout.read (layout.write (stored padding program.code))) = .ok program := by
    apply ofStored_of_map
    rw [layout.read_write, stored_instructions]
  have hsize : (layout.write (stored padding program.code)).length / 16 = program.code.length := by
    rw [layout.length_write, length_stored]
    exact Nat.mul_div_cancel_left _ (by decide)
  rw [setMain_content hcontent, hload, hsize]
  rfl

end Execute

def report (p : Source) (s : State) : SetEnded :=
  ⟨exitStatus s.accumulator, s.output, warnings p.statements.length, []⟩

section EndToEnd

variable {host : Host} {files : FileSystem} {tool path : String} {padding : Nat → Byte}
  {p : Source} {s : State}

theorem setReturns_iff
    (hcontent : files.content path = some (layout.write (stored padding (p.code host))))
    {ended : SetEnded} :
    SetReturns host files ⟨[tool, path]⟩ ended ↔
      ∃ m, (vmLoop host).Finishes (initMachine .zero (p.program host)) m ∧
        ended = ⟨exitStatus m.accumRegister, m.writes, warnings p.statements.length, m.stderr⟩ := by
  have hlength : (p.program host).code.length = p.statements.length := p.length_code host
  have hmain (fuel : Nat) : setMain host fuel files ⟨[tool, path]⟩ = _ :=
    setMain_stored (p.program host) hcontent fuel
  simp only [hlength] at hmain
  constructor
  · rintro ⟨fuel, h⟩
    rw [hmain] at h
    obtain ⟨m, hexecute, h⟩ := Loop.bind_ok h
    split at h
    · cases h
    · rename_i hguard
      cases h
      exact ⟨m, ⟨fuel, hexecute, Bool.eq_false_iff.mpr hguard⟩, rfl⟩
  · rintro ⟨m, ⟨fuel, hexecute, hguard⟩, rfl⟩
    have hprogram : executeProgram host fuel (initMachine .zero (p.program host)) = .ok m :=
      hexecute
    refine ⟨fuel, ?_⟩
    rw [hmain, hprogram, Loop.ok_bind, hguard]
    rfl

theorem set_reports
    (hcontent : files.content path = some (layout.write (stored padding (p.code host))))
    (h : Language.Returns host p s) : SetReturns host files ⟨[tool, path]⟩ (report p s) := by
  obtain ⟨m, hfinishes, hm⟩ := Language.returns_represented .zero rfl rfl h
  refine (setReturns_iff hcontent).mpr ⟨m, hfinishes, ?_⟩
  rw [hm.accumRegister, hm.writes, hm.stderr, report]

theorem set_reports_only
    (hcontent : files.content path = some (layout.write (stored padding (p.code host))))
    (hsafe : ∀ n, ∃ s, Language.run host p n = .ok s) {ended : SetEnded}
    (h : SetReturns host files ⟨[tool, path]⟩ ended) :
    ∃ s, Language.Returns host p s ∧ ended = report p s := by
  obtain ⟨m, hfinishes, rfl⟩ := (setReturns_iff hcontent).mp h
  obtain ⟨s, hreturns, hm⟩ := Language.returns_of_finishes .zero rfl rfl hsafe hfinishes
  refine ⟨s, hreturns, ?_⟩
  rw [hm.accumRegister, hm.writes, hm.stderr, report]

theorem assembled_and_run {formatFloat : Float32Bits → List Char} {leftovers : Leftovers}
    {a : Args} {source out : String} {bytes : List Byte} (hasks : Asks a source out)
    (hsource : files.content source = some bytes) (hout : files.canCreate out = true)
    (h : Holds leftovers bytes p) (tool : String) :
    ∃ ended, caasm host formatFloat leftovers files a = .ok ended ∧ ended.status = 0 ∧
      (∀ path, path ≠ out → ended.files.content path = files.content path) ∧
      (∀ s, Language.Returns host p s → SetReturns host ended.files ⟨[tool, out]⟩ (report p s)) ∧
      ((∀ n, ∃ s, Language.run host p n = .ok s) → ∀ e,
        SetReturns host ended.files ⟨[tool, out]⟩ e →
          ∃ s, Language.Returns host p s ∧ e = report p s) := by
  obtain ⟨ended, hcaasm, hstatus, hfiles⟩ :
      ∃ ended, caasm host formatFloat leftovers files a = .ok ended ∧ _ :=
    caasm_holds hasks hsource hout h
  have hcontent : ended.files.content out =
      some (layout.write (stored leftovers.padding (p.code host))) := by
    rw [hfiles]
    exact withFile_content _ _ _
  refine ⟨ended, hcaasm, hstatus, fun path hpath => ?_, fun s hs => set_reports hcontent hs,
    fun hsafe e he => set_reports_only hcontent hsafe he⟩
  rw [hfiles]
  exact Function.update_of_ne hpath _ _

def addOneFiles : FileSystem where
  content path := if path = "one.caasm" then some (textBytes addOne.page) else none
  canCreate _ := true

def zeroLeftovers : Leftovers := ⟨zeroJunk, fun _ _ => .zero, fun _ => 0⟩

def addOneArgs : Args := ⟨["caasm", "one.caasm", "-o", "one.caic"]⟩

theorem addOne_asks : Asks addOneArgs "one.caasm" "one.caic" := ⟨rfl, by decide, by decide⟩

theorem addOne_holds : Holds zeroLeftovers (textBytes addOne.page) addOne := by
  have hshort : addOne.page.length < maxSize := by decide
  have hquiet : Language.Quiet zeroLeftovers.regs addOne := fun _ _ _ => rfl
  exact holds_page hshort rfl hquiet

theorem assembled_and_run_addOne :
    ∃ ended, caasm Host.integer (fun _ => []) zeroLeftovers addOneFiles addOneArgs = .ok ended ∧
      SetReturns Host.integer ended.files ⟨["set", "one.caic"]⟩ ⟨21, [], [], []⟩ := by
  obtain ⟨ended, hcaasm, -, -, hset, -⟩ :
      ∃ ended, caasm Host.integer (fun _ => []) zeroLeftovers addOneFiles _ = .ok ended ∧ _ :=
    assembled_and_run addOne_asks rfl rfl addOne_holds "set"
  have hreturns : Language.Returns Host.integer addOne { State.init with
      next := 3
      registers := Function.update (Function.update (fun _ => 0) 0 20) 0 21
      accumulator := 21
      running := false } := ⟨5, rfl, rfl⟩
  exact ⟨ended, hcaasm, hset _ hreturns⟩

end EndToEnd

end Toolchain

end CAt
