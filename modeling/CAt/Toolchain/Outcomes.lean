import CAt.Toolchain.EndToEnd

namespace CAt

open GuardedLoop
open StoredInstruction (layout)
open CAt.Language (addOne)

namespace Toolchain

inductive Outcome (host : Host) (leftovers : Leftovers) (files : FileSystem) (a : Args) :
    Ended → Prop
  | usage {ended} (few : a.argc < 2) (status : ended.status = -1) (same : ended.files = files) :
      Outcome host leftovers files a ended
  | listing {ended} (enough : 2 ≤ a.argc) (flag : "-d" ∈ a.argv.tail)
      (status : ended.status = 0) (same : ended.files = files) :
      Outcome host leftovers files a ended
  | missing {ended} (noFlag : "-d" ∉ a.argv.tail) {source : String}
      (given : a.argv[1]? = some source) (absent : files.content source = none)
      (status : ended.status = -1) (same : ended.files = files) :
      Outcome host leftovers files a ended
  | assembled {ended} (noFlag : "-d" ∉ a.argv.tail) {source : String} {bytes : List Byte}
      {program : List Instruction} (given : a.argv[1]? = some source)
      (present : files.content source = some bytes)
      (assembles : assembleSource host leftovers bytes = .ok program) (status : ended.status = 0)
      (written : ended.files =
        (writeToFile files (outPath a).1 (stored leftovers.padding program)).files)
      (reported : sucessulyWritten (16 * program.length) (outPath a).1 ∈ ended.stdout) :
      Outcome host leftovers files a ended

variable {host : Host} {formatFloat : Float32Bits → List Char} {leftovers : Leftovers}
  {files : FileSystem} {a : Args} {ended : Ended}

theorem mainDisassemble_files :
    (mainDisassemble formatFloat files a).files = files ∧
      (mainDisassemble formatFloat files a).status = 0 := by
  unfold mainDisassemble
  split
  · split <;> exact ⟨rfl, rfl⟩
  · exact ⟨rfl, rfl⟩

theorem written_result (files : FileSystem) (path : String) (program : List StoredInstruction) :
    (writeToFile files path program).result ≠ 0 := by
  unfold writeToFile
  split
  · exact Int.one_ne_zero
  · exact Int.neg_ne_zero.mpr Int.one_ne_zero

theorem mainAssemble_outcome (hargc : 2 ≤ a.argc) (hflag : "-d" ∉ a.argv.tail)
    (h : mainAssemble host leftovers files a = .ok ended) :
    Outcome host leftovers files a ended := by
  have hgiven : a.argv[1]? = some a.argv[1] := List.getElem?_eq_getElem hargc
  rw [mainAssemble, hgiven] at h
  dsimp only at h
  cases hcontent : files.content a.argv[1] with
  | none =>
    rw [hcontent] at h
    cases h
    exact .missing hflag hgiven hcontent rfl rfl
  | some bytes =>
    rw [hcontent] at h
    obtain ⟨program, hprogram, h⟩ := Loop.bind_ok h
    cases h
    refine .assembled hflag hgiven hcontent hprogram rfl rfl ?_
    rw [if_pos (written_result _ _ _)]
    exact List.mem_append_right _ List.mem_cons_self

theorem caasm_outcome (h : caasm host formatFloat leftovers files a = .ok ended) :
    Outcome host leftovers files a ended := by
  rw [caasm] at h
  split at h
  · rename_i hfew
    cases h
    exact .usage hfew rfl rfl
  · rename_i hfew
    have hargc : 2 ≤ a.argc := Nat.le_of_not_lt hfew
    split at h
    · rename_i hflag
      cases h
      exact .listing hargc (Args.argFind_ne_zero_iff.mp hflag) mainDisassemble_files.2
        mainDisassemble_files.1
    · rename_i hflag
      exact mainAssemble_outcome hargc (fun hmem => hflag (Args.argFind_ne_zero_iff.mpr hmem)) h

theorem writeToFile_changes {path out : String} {program : List StoredInstruction}
    (h : (writeToFile files out program).files.content path ≠ files.content path) :
    path = out ∧ files.canCreate out = true ∧
      (writeToFile files out program).files.content path = some (layout.write program) := by
  unfold writeToFile at h ⊢
  split at h
  · rename_i hcreate
    have hpath : path = out := by
      by_contra hne
      exact h (Function.update_of_ne hne _ _)
    subst hpath
    rw [if_pos hcreate]
    exact ⟨rfl, hcreate, Function.update_self _ _ _⟩
  · exact absurd rfl h

theorem caasm_changes_only_output (h : caasm host formatFloat leftovers files a = .ok ended)
    {path : String} (hchanged : ended.files.content path ≠ files.content path) :
    path = (outPath a).1 ∧ files.canCreate path = true ∧ "-d" ∉ a.argv.tail ∧
      ∃ source bytes program, a.argv[1]? = some source ∧ files.content source = some bytes ∧
        assembleSource host leftovers bytes = .ok program ∧
        ended.files.content path = some (layout.write (stored leftovers.padding program)) := by
  cases caasm_outcome h with
  | usage few status same => exact absurd (congrArg (FileSystem.content · path) same) hchanged
  | listing enough flag status same =>
    exact absurd (congrArg (FileSystem.content · path) same) hchanged
  | missing noFlag given absent status same =>
    exact absurd (congrArg (FileSystem.content · path) same) hchanged
  | assembled noFlag given present assembles status written reported =>
    rw [written] at hchanged ⊢
    obtain ⟨rfl, hcreate, hcontent⟩ := writeToFile_changes hchanged
    exact ⟨rfl, hcreate, noFlag, _, _, _, given, present, assembles, hcontent⟩

theorem caasm_status_iff (h : caasm host formatFloat leftovers files a = .ok ended) :
    ended.status ≠ 0 ↔ a.argc < 2 ∨ "-d" ∉ a.argv.tail ∧
      ∃ source, a.argv[1]? = some source ∧ files.content source = none := by
  have hgiven {source : String} (h : a.argv[1]? = some source) : ¬ a.argc < 2 := by
    obtain ⟨hlt, -⟩ := List.getElem?_eq_some_iff.mp h
    exact Nat.not_lt.mpr hlt
  cases caasm_outcome h with
  | usage few status same =>
    rw [status]
    exact iff_of_true (by decide) (.inl few)
  | listing enough flag status same =>
    refine iff_of_false (not_not.mpr status) ?_
    rintro (few | ⟨noFlag, -⟩)
    · exact absurd few (Nat.not_lt.mpr enough)
    · exact noFlag flag
  | missing noFlag given absent status same =>
    rw [status]
    exact iff_of_true (by decide) (.inr ⟨noFlag, _, given, absent⟩)
  | assembled noFlag given present assembles status written reported =>
    refine iff_of_false (not_not.mpr status) ?_
    rintro (few | ⟨-, source, hsource, habsent⟩)
    · exact hgiven given few
    · cases given.symm.trans hsource
      cases present.symm.trans habsent

theorem caasm_effects (h : caasm host formatFloat leftovers files a = .ok ended) :
    (∀ path, ended.files.content path ≠ files.content path →
      path = (outPath a).1 ∧ files.canCreate path = true ∧ "-d" ∉ a.argv.tail ∧
        ∃ source bytes program, a.argv[1]? = some source ∧ files.content source = some bytes ∧
          assembleSource host leftovers bytes = .ok program ∧
          ended.files.content path = some (layout.write (stored leftovers.padding program))) ∧
      (ended.status ≠ 0 ↔ a.argc < 2 ∨ "-d" ∉ a.argv.tail ∧
        ∃ source, a.argv[1]? = some source ∧ files.content source = none) ∧
      ∀ source bytes program, "-d" ∉ a.argv.tail → a.argv[1]? = some source →
        files.content source = some bytes → assembleSource host leftovers bytes = .ok program →
        sucessulyWritten (16 * program.length) (outPath a).1 ∈ ended.stdout := by
  refine ⟨fun path => caasm_changes_only_output h, caasm_status_iff h, ?_⟩
  intro source bytes program hflag hgiven hpresent hassembles
  cases caasm_outcome h with
  | usage few status same =>
    obtain ⟨hlt, -⟩ := List.getElem?_eq_some_iff.mp hgiven
    exact absurd few (Nat.not_lt.mpr hlt)
  | listing enough flag status same => exact absurd flag hflag
  | missing noFlag given absent status same =>
    cases given.symm.trans hgiven
    cases absent.symm.trans hpresent
  | assembled noFlag given present assembles status written reported =>
    cases given.symm.trans hgiven
    cases present.symm.trans hpresent
    cases assembles.symm.trans hassembles
    exact reported

theorem caasm_effects_addOne :
    ∃ ended, caasm Host.integer (fun _ => []) zeroLeftovers addOneFiles addOneArgs = .ok ended ∧
      ended.status = 0 ∧ ended.files.content "one.caasm" = some (textBytes addOne.page) ∧
      ended.files.content "one.caic" =
        some (layout.write (stored (fun _ => 0) (addOne.code Host.integer))) ∧
      sucessulyWritten 80 "one.caic" ∈ ended.stdout := by
  have hassembles : assembleSource Host.integer zeroLeftovers (textBytes addOne.page) =
      .ok (addOne.code Host.integer) := assembleSource_holds addOne_holds
  have hsource : addOneFiles.content "one.caasm" = some (textBytes addOne.page) := by
    simp [addOneFiles]
  have hbytes : 16 * (addOne.code Host.integer).length = 80 := rfl
  obtain ⟨ended, hcaasm, -, hfiles⟩ :
      ∃ ended, caasm Host.integer (fun _ => []) zeroLeftovers addOneFiles addOneArgs = .ok ended ∧
        _ := caasm_holds addOne_asks hsource rfl addOne_holds
  obtain ⟨hchanged, hstatus, hreport⟩ := caasm_effects hcaasm
  have hmessage := hreport _ _ _ addOne_asks.assemble addOne_asks.source hsource hassembles
  rw [hbytes, addOne_asks.out] at hmessage
  refine ⟨ended, hcaasm, ?_, ?_, ?_, hmessage⟩
  · by_contra hfailed
    rcases hstatus.mp hfailed with hfew | ⟨-, source, hgiven, hmissing⟩
    · exact absurd hfew (by decide)
    · rw [Option.some.inj (hgiven.symm.trans addOne_asks.source), hsource] at hmissing
      cases hmissing
  · by_contra hother
    rw [← hsource] at hother
    have hpath : "one.caasm" = "one.caic" :=
      (hchanged "one.caasm" hother).1.trans addOne_asks.out
    exact absurd hpath (by decide)
  · rw [hfiles]
    exact withFile_content _ _ _

end Toolchain

end CAt
