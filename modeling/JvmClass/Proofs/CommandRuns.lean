import JvmClass.CommandLine
import JvmClass.Proofs.OutlineListing

/-!
# Runs over several files

Each file is listed as if it were the only one: what it prints, what it logs and whether it fails
depend on its contents and on the options, and the options on which words occur among the arguments
but not on their places. A run is therefore put together from the runs over its single files.
-/

namespace JvmClass

/-! ## Files -/

namespace Listing

variable (options : Options) (path : String) (contents : Except String (List UInt8))

/-- A class that has been loaded is listed to its end. -/
theorem value_listFile :
    (listFile options path contents).value =
      ⟨(loadNamed contents).value.map fun (c, className) =>
        (listClass options path c className).value⟩ := by
  rw [listFile, Logged.value_bind]
  cases (loadNamed contents).value with
  | error e => rfl
  | ok loaded =>
      obtain ⟨c, className⟩ := loaded
      dsimp only
      rw [Logged.value_bind]
      -- Reporting the number of failures does not change the block.
      split <;> rfl

theorem value_listClass (c : ClassFile) (className : String) :
    (listClass options path c className).value =
      ⟨className, c.methods.map fun m => (listMethod options path c.pool className m).value⟩ := by
  rw [listClass, Logged.value_bind, Logged.value_all, List.map_map]
  rfl

theorem log_listBody (pool : ConstantPool) {m : Member} {code : Code}
    (h : m.code? pool = .ok (some code)) :
    (listBody options path pool m).log =
      (code.localVariableTables pool options.lengthCheck).flatMap fun table =>
        (listTable options table).log := by
  rw [listBody, h]
  dsimp only
  rw [Logged.log_bind, Logged.log_pure, List.append_nil, Logged.log_all, List.flatMap_map]

theorem log_listMethod (pool : ConstantPool) (className : String) (m : Member) :
    (listMethod options path pool className m).log =
      (match header pool className m with
        | .ok _ => []
        | .error e => (reportIn path e).log) ++ (listBody options path pool m).log := by
  rw [listMethod]
  cases header pool className m with
  | ok found =>
      dsimp only
      rw [Logged.log_bind, Logged.log_pure, List.append_nil, List.nil_append]
  | error e =>
      dsimp only
      rw [Logged.log_bind, Logged.log_bind, Logged.log_pure, List.append_nil]

theorem log_listClass (c : ClassFile) (className : String) :
    (listClass options path c className).log =
      c.methods.flatMap fun m => (listMethod options path c.pool className m).log := by
  rw [listClass, Logged.log_bind, Logged.log_pure, List.append_nil, Logged.log_all,
    List.flatMap_map]

/-- A file prints one whole block, or nothing where there is no class with a name. -/
theorem lines_listFile :
    (listFile options path contents).value.lines =
      match (loadNamed contents).value with
      | .error _ => []
      | .ok (c, className) =>
        ("class " ++ className ++ " \x7b") ::
          (c.methods.flatMap fun m => (listMethod options path c.pool className m).value.lines) ++
          ["\x7d"] := by
  rw [value_listFile]
  cases (loadNamed contents).value with
  | error e => rfl
  | ok loaded =>
      obtain ⟨c, className⟩ := loaded
      dsimp only [Except.map, File.lines]
      rw [value_listClass, Block.lines, List.flatMap_map]

end Listing

/-! ## Runs -/

namespace CommandLine

open Listing (listFile)

/-- Everything that a run logs, before levels are looked at. -/
def records (contents : String → Except String (List UInt8)) (arguments : List String) :
    List Log.Record :=
  ((ofArguments arguments).listings contents).log

variable (contents : String → Except String (List UInt8)) (threshold : Log.Threshold)
  (arguments : List String)

theorem records_eq :
    records contents arguments = (ofArguments arguments).paths.flatMap fun path =>
      (listFile (ofArguments arguments).options path (contents path)).log := by
  rw [records, listings, Logged.log_all, List.flatMap_map]

theorem run_of_no_path (h : (ofArguments arguments).paths = []) :
    run contents threshold arguments = ⟨[], [usage], 1⟩ := by
  rw [run, h]
  rfl

theorem run_of_paths (h : (ofArguments arguments).paths ≠ []) :
    run contents threshold arguments =
      { output := ((ofArguments arguments).listings contents).value.flatMap Listing.File.lines
        errors := Log.lines threshold (records contents arguments)
        exitStatus :=
          if ((ofArguments arguments).listings contents).value.any Listing.File.failed then 1
          else 0 } := by
  have hsome : ¬ (ofArguments arguments).paths.isEmpty = true := by
    rwa [List.isEmpty_iff]
  exact if_neg hsome

theorem output_run :
    (run contents threshold arguments).output = (ofArguments arguments).paths.flatMap fun path =>
      (listFile (ofArguments arguments).options path (contents path)).value.lines := by
  by_cases h : (ofArguments arguments).paths = []
  · rw [run_of_no_path contents threshold arguments h, h]
    rfl
  · rw [run_of_paths contents threshold arguments h, listings, Logged.value_all, List.map_map,
      List.flatMap_map]
    rfl

theorem exitStatus_run :
    (run contents threshold arguments).exitStatus =
      if (ofArguments arguments).paths = [] ∨ ∃ path ∈ (ofArguments arguments).paths,
        (listFile (ofArguments arguments).options path (contents path)).value.failed = true
      then 1 else 0 := by
  by_cases h : (ofArguments arguments).paths = []
  · rw [run_of_no_path contents threshold arguments h, if_pos (.inl h)]
  · rw [run_of_paths contents threshold arguments h, listings, Logged.value_all, List.map_map]
    simp only [h, false_or, List.any_map, List.any_eq_true, Function.comp_apply]

/-! ## Arguments -/

theorem paths_ofArguments :
    (ofArguments arguments).paths =
      arguments.filter fun a => decide (a ≠ permissiveWord ∧ a ≠ warnDescriptorsWord) := by
  apply List.filter_congr
  intro a _
  simp [bne, Bool.decide_and, Bool.beq_eq_decide_eq]

variable {arguments} {arguments' : List String}

/-- Only the words that occur matter for the options. -/
theorem options_congr (hpermissive : permissiveWord ∈ arguments' ↔ permissiveWord ∈ arguments)
    (hwarn : warnDescriptorsWord ∈ arguments' ↔ warnDescriptorsWord ∈ arguments) :
    (ofArguments arguments').options = (ofArguments arguments).options := by
  simp only [ofArguments, hpermissive, hwarn]

/-- A single path behind words that are no path. -/
theorem ofArguments_single {flags : List String} {path : String}
    (hflags : ∀ w, w ∈ flags ↔ w ∈ arguments ∧ (w = permissiveWord ∨ w = warnDescriptorsWord))
    (hpath : path ∈ (ofArguments arguments).paths) :
    ofArguments (flags ++ [path]) = ⟨(ofArguments arguments).options, [path]⟩ := by
  rw [paths_ofArguments, List.mem_filter, decide_eq_true_iff] at hpath
  obtain ⟨-, hpermissive, hwarn⟩ := hpath
  have hoptions : (ofArguments (flags ++ [path])).options = (ofArguments arguments).options := by
    apply options_congr
    · simp [hflags, hpermissive.symm]
    · simp [hflags, hwarn.symm]
  have hpaths : (ofArguments (flags ++ [path])).paths = [path] := by
    have hnone : flags.filter (fun a => decide (a ≠ permissiveWord ∧ a ≠ warnDescriptorsWord)) =
        [] := by
      rw [List.filter_eq_nil_iff]
      intro w hw
      have hword := ((hflags w).mp hw).2
      rw [decide_eq_true_iff, not_and_or, not_not, not_not]
      exact hword
    rw [paths_ofArguments, List.filter_append, hnone, List.nil_append]
    exact List.filter_cons_of_pos (decide_eq_true ⟨hpermissive, hwarn⟩)
  exact congrArg₂ CommandLine.mk hoptions hpaths

end CommandLine

open CommandLine in
/-- A run prints, logs and fails as the runs over its paths one by one do, each with the words that
set options anywhere among the arguments; without a path it prints how it is to be called. Only the
order of the paths matters, and each of them prints one whole block if its file can be listed, and
nothing if there is a reason why it cannot. -/
theorem run_joins_single_runs (contents : String → Except String (List UInt8))
    (threshold : Log.Threshold) (arguments flags : List String)
    (hflags : ∀ w, w ∈ flags ↔
      w ∈ arguments ∧ (w = "--permissive" ∨ w = "--warn-descriptors")) :
    let pathsOf := List.filter fun a => decide (a ≠ "--permissive" ∧ a ≠ "--warn-descriptors")
    let paths := pathsOf arguments
    let run := CommandLine.run contents threshold
    let single path := flags ++ [path]
    (paths = [] → run arguments =
      ⟨[], ["usage: javad [--permissive] [--warn-descriptors] <file.class>..."], 1⟩) ∧
    (paths ≠ [] →
      (run arguments).output = paths.flatMap (fun path => (run (single path)).output) ∧
      records contents arguments = paths.flatMap (fun path => records contents (single path)) ∧
      (run arguments).errors = Log.lines threshold (records contents arguments) ∧
      (run arguments).exitStatus =
        if ∃ path ∈ paths, (run (single path)).exitStatus = 1 then 1 else 0) ∧
    (∀ arguments', pathsOf arguments' = paths →
      (∀ w, w = "--permissive" ∨ w = "--warn-descriptors" → (w ∈ arguments' ↔ w ∈ arguments)) →
      run arguments' = run arguments ∧ records contents arguments' = records contents arguments) ∧
    ∀ path ∈ paths,
      match (Listing.loadNamed (contents path)).value with
      | .error e => Listing.Unlisted (contents path) e ∧ (run (single path)).output = []
      | .ok (c, className) => Listing.Listed (contents path) c className ∧
        ∃ methods : List Listing.Method,
          methods.length = c.methods.length ∧
          (run (single path)).output = ("class " ++ className ++ " \x7b") ::
            methods.flatMap Listing.Method.lines ++ ["\x7d"] := by
  intro pathsOf paths run single
  have hpaths : (ofArguments arguments).paths = paths := paths_ofArguments arguments
  have hsingle (path : String) (hpath : path ∈ paths) :
      ofArguments (single path) = ⟨(ofArguments arguments).options, [path]⟩ :=
    ofArguments_single hflags (hpaths ▸ hpath)
  have houtput (path : String) (hpath : path ∈ paths) : (run (single path)).output =
      (Listing.listFile (ofArguments arguments).options path (contents path)).value.lines := by
    rw [output_run, hsingle path hpath, List.flatMap_singleton]
  have hexit (path : String) (hpath : path ∈ paths) : (run (single path)).exitStatus = 1 ↔
      (Listing.listFile (ofArguments arguments).options path (contents path)).value.failed =
        true := by
    rw [exitStatus_run, hsingle path hpath]
    simp
  have hrecords (path : String) (hpath : path ∈ paths) : records contents (single path) =
      (Listing.listFile (ofArguments arguments).options path (contents path)).log := by
    rw [records_eq, hsingle path hpath, List.flatMap_singleton]
  refine ⟨?_, ?_, ?_, ?_⟩
  · intro hnone
    exact run_of_no_path contents threshold arguments (hpaths.trans hnone)
  · intro hsome
    have hfailed : (∃ path ∈ paths, (run (single path)).exitStatus = 1) ↔
        ∃ path ∈ paths, (Listing.listFile (ofArguments arguments).options path
          (contents path)).value.failed = true :=
      exists_congr fun path => and_congr_right fun hpath => hexit path hpath
    refine ⟨?_, ?_, ?_, ?_⟩
    · rw [output_run, hpaths]
      exact (List.flatMap_congr houtput).symm
    · rw [records_eq, hpaths]
      exact (List.flatMap_congr hrecords).symm
    · exact congrArg Outcome.errors (run_of_paths contents threshold arguments (hpaths ▸ hsome))
    · rw [exitStatus_run, hpaths]
      simp only [hsome, false_or, hfailed]
  · intro arguments' hsame hwords
    have hcommand : ofArguments arguments' = ofArguments arguments := by
      have hoptions := options_congr (hwords permissiveWord (.inl rfl))
        (hwords warnDescriptorsWord (.inr rfl))
      exact congrArg₂ CommandLine.mk hoptions
        ((paths_ofArguments arguments').trans (hsame.trans hpaths.symm))
    constructor
    · simp only [run, CommandLine.run, hcommand]
    · simp only [records, hcommand]
  · intro path hpath
    rw [houtput path hpath, Listing.lines_listFile]
    cases hloaded : (Listing.loadNamed (contents path)).value with
    | error e => exact ⟨Listing.loadNamed_eq_error_iff.mp hloaded, rfl⟩
    | ok loaded =>
        obtain ⟨c, className⟩ := loaded
        let method (m : Member) : Listing.Method :=
          (Listing.listMethod (ofArguments arguments).options path c.pool className m).value
        refine ⟨Listing.loadNamed_eq_ok_iff.mp hloaded, c.methods.map method, List.length_map _, ?_⟩
        rw [List.flatMap_map]

/-- One good file, one that ends too early, and nothing else. -/
def mixedContents : String → Except String (List UInt8)
  | "Sample.class" => .ok sampleImage.bytes
  | "Short.class" => .ok [0xCA, 0xFE]
  | _ => .error Listing.noSuchFile

open CommandLine in
theorem run_joins_single_runs_mixed :
    let arguments := ["Short.class", "--permissive", "Sample.class", "missing", "--permissive",
      "Sample.class"]
    (∀ w, w ∈ ["--permissive"] ↔
      w ∈ arguments ∧ (w = "--permissive" ∨ w = "--warn-descriptors")) ∧
    (run mixedContents none arguments).output =
      (run mixedContents none ["--permissive", "Sample.class"]).output ++
        (run mixedContents none ["--permissive", "Sample.class"]).output ∧
    records mixedContents arguments =
      records mixedContents ["--permissive", "Short.class"] ++
        (records mixedContents ["--permissive", "Sample.class"] ++
          (records mixedContents ["--permissive", "missing"] ++
            records mixedContents ["--permissive", "Sample.class"])) ∧
    (run mixedContents none ["--permissive", "missing"]).exitStatus = 1 ∧
    (run mixedContents none arguments).exitStatus = 1 ∧
    run mixedContents none
        ["Short.class", "Sample.class", "missing", "Sample.class", "--permissive"] =
      run mixedContents none arguments := by
  intro arguments
  have hflags : ∀ w, w ∈ ["--permissive"] ↔
      w ∈ arguments ∧ (w = "--permissive" ∨ w = "--warn-descriptors") := by
    intro w
    simp only [arguments, List.mem_cons, List.not_mem_nil, or_false]
    constructor
    · rintro rfl
      decide
    · rintro ⟨hw, rfl | rfl⟩
      · rfl
      · revert hw
        decide
  have hpaths : arguments.filter (fun a => decide (a ≠ "--permissive" ∧ a ≠ "--warn-descriptors")) =
      ["Short.class", "Sample.class", "missing", "Sample.class"] := by decide +kernel
  obtain ⟨-, hsome, hmoved, -⟩ :=
    run_joins_single_runs mixedContents none arguments ["--permissive"] hflags
  rw [hpaths] at hsome hmoved
  simp only [List.flatMap_cons, List.flatMap_nil, List.append_nil, List.singleton_append] at hsome
  obtain ⟨houtput, hrecords, -, hexit⟩ := hsome (List.cons_ne_nil _ _)
  have hshort : (run mixedContents none ["--permissive", "Short.class"]).output = [] := by
    decide +kernel
  have hmissing : run mixedContents none ["--permissive", "missing"] = ⟨[], [], 1⟩ := by
    decide +kernel
  have hone : (run mixedContents none ["--permissive", "missing"]).exitStatus = 1 := by
    rw [hmissing]
  refine ⟨hflags, ?_, hrecords, hone, ?_, ?_⟩
  · rw [houtput, hshort, hmissing, List.nil_append, List.nil_append]
  · rw [hexit]
    exact if_pos ⟨"missing", by decide, hone⟩
  · refine (hmoved _ (by decide +kernel) ?_).1
    rintro w (rfl | rfl)
    · decide
    · decide

end JvmClass
