import OpenClickNP.Compiler.Driver

/-!
# `main.cpp`: the status of the process

`main` returns the number of errors, and the caller sees its last byte. The backends are asked one
after the other; each records as many errors as files of it cannot be written (`Backend`), so the
status of a run can be told from its passes and from the files (`exitStatus_truthful_iff`).
-/

namespace OpenClickNP

open Ast Eg Be

/-! ## The command line -/

/-- What `main` makes of its arguments: the usage text and a status, or a run of the driver. -/
inductive Command where
  | usage (status : Int)
  | compile (opts : DriverOptions)
deriving DecidableEq, Repr

def platformFromString (s : String) : Platform :=
  if s = "u50_qdma" then .u50Qdma else .u50Xdma

/-- The options that take the next argument. -/
def withValue (a value : String) (opts : DriverOptions) : Option DriverOptions :=
  if a = "-o" then some { opts with outputDir := value }
  else if a = "--platform" then some { opts with platform := platformFromString value }
  else if a = "-I" then some { opts with importDirs := opts.importDirs ++ [value] }
  else none

/-- The arguments that stand alone. -/
def withFlag (a : String) (opts : DriverOptions) : Option DriverOptions :=
  if a = "--parse-only" then some { opts with parseOnly := true }
  else if a = "--no-hls" then some { opts with emitHlsCpp := false }
  else if a = "--no-systemc" then some { opts with emitSystemc := false }
  else if a = "--no-swemu" then some { opts with emitSwEmu := false }
  else if a = "--no-verilator" then some { opts with emitVerilatorSim := false }
  else if a = "--no-link" then some { opts with emitVppLink := false }
  else if a = "--no-host" then some { opts with emitXrtHost := false }
  else if a ≠ "" ∧ a.toList.head? ≠ some '-' then some { opts with inputPath := a }
  else none

/-- The loop over `argv`. -/
def parseArgs : List String → DriverOptions → Command
  | [], opts => if opts.inputPath = "" then .usage 1 else .compile opts
  | [a], opts =>
    if a = "-h" ∨ a = "--help" then .usage 0
    else
      match withFlag a opts with
      | some opts => parseArgs [] opts
      | none => .usage 1
  | a :: value :: rest, opts =>
    if a = "-h" ∨ a = "--help" then .usage 0
    else
      match withValue a value opts, withFlag a opts with
      | some opts, _ => parseArgs rest opts
      | none, some opts => parseArgs (value :: rest) opts
      -- "unknown option"
      | none, none => .usage 1

/-- What the caller of a process sees. -/
inductive Seen where
  | exited (status : Nat)
  | aborted
deriving DecidableEq, Repr

/-- The last byte of the status; an exception that nobody catches aborts the process. -/
def seen : Except Thrown Int → Seen
  | .ok status => .exited (status % 256).toNat
  | .error _ => .aborted

/-- `main`, on the arguments behind the name of the program. -/
def process (depth turns nesting : Nat) (host : Host) (argv : List String) : Option Seen :=
  match parseArgs argv { inputPath := "" } with
  | .usage status => some (seen (.ok status))
  | .compile opts => (Driver.run depth turns nesting host opts).map fun e => seen e.result

/-! ## Counting errors -/

/-- The number of errors that have been recorded; `error_count_` is its last 32 bits. -/
def DiagnosticEngine.errors (d : DiagnosticEngine) : Nat :=
  d.diags.countP (·.severity == .error)

section
variable {d : DiagnosticEngine}

@[simp] theorem errors_error (d : DiagnosticEngine) (r : SourceRange) (msg : String) :
    (d.error r msg).errors = d.errors + 1 := by
  simp [DiagnosticEngine.error, DiagnosticEngine.emit, DiagnosticEngine.errors,
    List.countP_append]

theorem errors_pos_iff : 0 < d.errors ↔ d.hasError = true := by
  unfold DiagnosticEngine.errors DiagnosticEngine.hasError
  rw [List.countP_pos_iff, List.any_eq_true]

theorem errors_eq_zero (h : ¬ d.hasError = true) : d.errors = 0 :=
  Nat.eq_zero_of_not_pos fun hpos => h (errors_pos_iff.mp hpos)

end

/-- A counter of 32 bits, read as an `int`. -/
theorem toInt_ofNat (n : Nat) :
    (UInt32.ofNat n).toInt32.toInt
      = if n % 2 ^ 32 < 2 ^ 31 then ((n % 2 ^ 32 : Nat) : Int)
        else ((n % 2 ^ 32 : Nat) : Int) - 2 ^ 32 := by
  have hbits : (UInt32.ofNat n).toInt32.toInt = (UInt32.ofNat n).toBitVec.toInt := rfl
  rw [hbits, BitVec.toInt_eq_toNat_cond]
  have hnat : (UInt32.ofNat n).toBitVec.toNat = n % 2 ^ 32 := UInt32.toNat_ofNat
  rw [hnat]
  split <;> split <;> omega

theorem seen_eq_zero_iff {n : Int} : seen (.ok n) = .exited 0 ↔ n % 256 = 0 := by
  unfold seen
  rw [Seen.exited.injEq]
  omega

/-- `return diags.errorCount();` -/
theorem seen_errors (d : DiagnosticEngine) :
    seen (.ok (Driver.errors d)) = .exited 0 ↔ 256 ∣ d.errors := by
  have hint : Driver.errors d = _ := toInt_ofNat d.errors
  rw [seen_eq_zero_iff, hint]
  split <;> omega

/-- `return std::max<uint32_t>(1u, diags.errorCount());` -/
theorem seen_failure (d : DiagnosticEngine) :
    seen (.ok (Driver.failure d)) = .exited 0 ↔ 256 ∣ d.errors ∧ ¬ 2 ^ 32 ∣ d.errors := by
  have hcount : d.errorCount.toNat = d.errors % 2 ^ 32 := UInt32.toNat_ofNat
  by_cases hzero : d.errorCount.toNat = 0
  · have hone : Driver.failure d = 1 := by
      have hmax : d.errorCount = 0 := UInt32.toNat_inj.mp hzero
      rw [Driver.failure, hmax]
      decide
    rw [seen_eq_zero_iff, hone]
    omega
  · -- `std::max` takes the counter itself
    have hself : Driver.failure d = Driver.errors d := by
      have hle : (1 : UInt32) ≤ d.errorCount := by
        rw [UInt32.le_iff_toNat_le]
        exact Nat.pos_of_ne_zero hzero
      have hmax : max 1 d.errorCount = d.errorCount := if_pos hle
      rw [Driver.failure, hmax]
      rfl
    rw [hself, seen_errors]
    omega

/-- `return std::max<int>(1, static_cast<int>(diags.errorCount()));` -/
theorem seen_max_errors (d : DiagnosticEngine) :
    seen (.ok (max 1 (Driver.errors d))) = .exited 0
      ↔ 256 ∣ d.errors ∧ 0 < d.errors % 2 ^ 32 ∧ d.errors % 2 ^ 32 < 2 ^ 31 := by
  have hint : Driver.errors d = _ := toInt_ofNat d.errors
  rw [seen_eq_zero_iff, hint]
  split <;> omega

/-! ## The backends -/

/-- A backend: where it writes, and how many of its writes fail. It returns true when none does,
and records an error for each. -/
structure Backend (host : Host) where
  emit : DiagnosticEngine → Emitted
  dir : String
  faults : Nat
  throws : host.createDirectories dir = false → ∀ d, emit d = (.error .filesystemError, d)
  returns : host.createDirectories dir = true →
    ∀ d, (emit d).1 = .ok (decide (faults = 0)) ∧ (emit d).2.errors = d.errors + faults

section
variable {host : Host}

/-- `emitHlsCpp` goes on behind a file that cannot be written. -/
theorem emitKernels_foldl (kdir : String) (ks : List KernelHls) (ok : Bool)
    (d : DiagnosticEngine) :
    (ks.foldl (emitKernels host kdir) (ok, d)).1
        = (ok && decide (ks.countP (fun k => !host.canWrite (host.join kdir (k.name ++ ".cpp")))
            = 0)) ∧
      (ks.foldl (emitKernels host kdir) (ok, d)).2.errors
        = d.errors + ks.countP fun k => !host.canWrite (host.join kdir (k.name ++ ".cpp")) := by
  induction ks generalizing ok d with
  | nil => simp
  | cons k ks ih =>
    rw [List.foldl_cons, List.countP_cons]
    cases hwrite : host.canWrite (host.join kdir (k.name ++ ".cpp")) with
    | true =>
      have hstep : emitKernels host kdir (ok, d) k = (ok, d) := if_pos hwrite
      rw [hstep]
      simpa using ih ok d
    | false =>
      have hstep : emitKernels host kdir (ok, d) k = (false, d.error {} ("cannot write "
          ++ host.join kdir (k.name ++ ".cpp"))) := if_neg (by simp [hwrite])
      rw [hstep]
      obtain ⟨hok, herrors⟩ := ih false (d.error {} ("cannot write "
        ++ host.join kdir (k.name ++ ".cpp")))
      refine ⟨by simpa using hok, ?_⟩
      rw [herrors, errors_error]
      simp only [Bool.not_false, if_true]
      omega

/-- The other backends stop there. -/
theorem openFiles_counts (files : List (String × String)) (d : DiagnosticEngine) :
    (openFiles host files d).1 = (files.all fun f => host.canWrite f.1) ∧
      (openFiles host files d).2.errors
        = d.errors + if files.all (fun f => host.canWrite f.1) then 0 else 1 := by
  induction files with
  | nil => exact ⟨rfl, rfl⟩
  | cons file files ih =>
    rw [List.all_cons, openFiles]
    cases host.canWrite file.1 with
    | true =>
      rw [Bool.true_and]
      exact ih
    | false => simp

def hlsBackend (host : Host) (build : Build) (outdir : String) : Backend host where
  emit := emitHlsCpp host build outdir
  dir := host.join outdir "kernels"
  faults := build.kernels.countP fun k =>
    !host.canWrite (host.join (host.join outdir "kernels") (k.name ++ ".cpp"))
  throws hdir d := if_neg (by simp [hdir])
  returns hdir d := by
    have hemit : emitHlsCpp host build outdir d = _ := if_pos hdir
    rw [hemit]
    simpa using emitKernels_foldl (host.join outdir "kernels") build.kernels true d

/-- A backend with a list of files. -/
def filesBackend (host : Host) (dir : String) (files : List (String × String)) :
    Backend host where
  emit d := inDirectory host dir d (openFiles host files)
  dir := dir
  faults := if files.all (fun f => host.canWrite f.1) then 0 else 1
  throws hdir d := if_neg (by simp [hdir])
  returns hdir d := by
    have hemit : inDirectory host dir d (openFiles host files) = _ := if_pos hdir
    obtain ⟨hok, herrors⟩ := @openFiles_counts host files d
    rw [hemit]
    refine ⟨?_, herrors⟩
    rw [hok]
    cases files.all fun f => host.canWrite f.1 <;> rfl

/-- `topology.cpp` of `emitSystemC` and of `emitSwEmu`. -/
def topologyBackend (host : Host) (dir : String) : Backend host :=
  filesBackend host dir [(host.join dir "topology.cpp", host.join dir "topology.cpp")]

def verilatorBackend (host : Host) (dir : String) : Backend host :=
  filesBackend host dir
    [(host.join dir "topology.v", "topology.v"), (host.join dir "tb.cpp", "tb.cpp")]

def linkBackend (host : Host) (dir : String) : Backend host :=
  filesBackend host dir
    [(host.join dir "connectivity.cfg", "connectivity.cfg"),
      (host.join dir "clocks.cfg", "clocks.cfg")]

def hostBackend (host : Host) (build : Build) (dir : String) : Backend host :=
  filesBackend host dir ((host.join dir "kernel_table.cpp", "kernel_table.cpp") ::
    (elementTypes build.kernels).map fun t => (host.join dir (t ++ ".hpp"), "element header"))

/-- `if (enabled) ..` -/
def asked (enabled : Bool) (b : Backend host) : List (Backend host) := if enabled then [b] else []

/-- The backends that the options ask for, in the order in which they are run. -/
def requested (host : Host) (opts : DriverOptions) (build : Build) : List (Backend host) :=
  asked opts.emitHlsCpp (hlsBackend host build opts.outputDir)
    ++ asked opts.emitSystemc (topologyBackend host (host.join opts.outputDir "systemc"))
    ++ asked opts.emitSwEmu (topologyBackend host (host.join opts.outputDir "sw_emu"))
    ++ asked opts.emitVerilatorSim (verilatorBackend host (host.join opts.outputDir "verilator"))
    ++ asked opts.emitVppLink (linkBackend host (host.join opts.outputDir "link"))
    ++ asked opts.emitXrtHost (hostBackend host build (host.join opts.outputDir "host"))

/-- `ok &= emit(..)`. -/
def runBackend (s : Emitted) (b : Backend host) : Emitted := Driver.emitIf s true b.emit

theorem foldl_asked (s : Emitted) (enabled : Bool) (b : Backend host) :
    (asked enabled b).foldl runBackend s = Driver.emitIf s enabled b.emit := by
  cases enabled with
  | true => rfl
  | false =>
    obtain ⟨res, d⟩ := s
    cases res <;> rfl

theorem emitAll_eq (opts : DriverOptions) (build : Build) (d : DiagnosticEngine) :
    Driver.emitAll host opts build d
      = (requested host opts build).foldl runBackend (.ok true, d) := by
  simp only [requested, List.foldl_append, foldl_asked]
  rfl

/-- The errors of the backends. -/
def faults : List (Backend host) → Nat
  | [] => 0
  | b :: bs => b.faults + faults bs

/-- The directories of all backends can be created. -/
def Directories (bs : List (Backend host)) : Prop :=
  ∀ b ∈ bs, host.createDirectories b.dir = true

/-- Every backend returns true. -/
def AllTrue (bs : List (Backend host)) : Prop := ∀ b ∈ bs, ∀ d, (b.emit d).1 = .ok true

theorem foldl_thrown (e : Thrown) (bs : List (Backend host)) (d : DiagnosticEngine) :
    bs.foldl runBackend (.error e, d) = (.error e, d) := by
  induction bs with
  | nil => rfl
  | cons b bs ih => exact ih

/-- **What the backends leave**, one after the other. Induction on them. -/
theorem foldl_runBackend (bs : List (Backend host)) (ok : Bool) (d : DiagnosticEngine) :
    (Directories bs → ∃ d',
      bs.foldl runBackend (.ok ok, d) = (.ok (ok && decide (faults bs = 0)), d')
      ∧ d'.errors = d.errors + faults bs) ∧
    (¬ Directories bs → ∃ e d', bs.foldl runBackend (.ok ok, d) = (.error e, d')) := by
  induction bs generalizing ok d with
  | nil =>
    refine ⟨fun _ => ⟨d, ?_, rfl⟩, fun h => absurd (by simp [Directories]) h⟩
    simp [faults]
  | cons b bs ih =>
    have hcons : Directories (b :: bs) ↔ host.createDirectories b.dir = true ∧ Directories bs :=
      List.forall_mem_cons
    rw [List.foldl_cons, hcons]
    -- an exception of one backend ends the run of all
    cases hdir : host.createDirectories b.dir with
    | false =>
      have hstep : runBackend (.ok ok, d) b = (.error .filesystemError, d) := by
        show ((b.emit d).1.map (ok && ·), (b.emit d).2) = _
        rw [b.throws hdir d]
        rfl
      rw [hstep, foldl_thrown]
      exact ⟨fun h => absurd h.1 Bool.false_ne_true, fun _ => ⟨_, _, rfl⟩⟩
    | true =>
      obtain ⟨hres, herrors⟩ := b.returns hdir d
      have hstep : runBackend (.ok ok, d) b
          = (.ok (ok && decide (b.faults = 0)), (b.emit d).2) := by
        show ((b.emit d).1.map (ok && ·), (b.emit d).2) = _
        rw [hres]
        rfl
      obtain ⟨hall, hsome⟩ := ih (ok && decide (b.faults = 0)) (b.emit d).2
      rw [hstep]
      refine ⟨fun h => ?_, fun h => hsome fun hbs => h ⟨rfl, hbs⟩⟩
      obtain ⟨d', hd', hcount⟩ := hall h.2
      refine ⟨d', ?_, ?_⟩
      · have hsum : decide (faults (b :: bs) = 0)
            = (decide (b.faults = 0) && decide (faults bs = 0)) := by
          rw [← Bool.decide_and]
          exact decide_eq_decide.mpr Nat.add_eq_zero_iff
        rw [hd', hsum, Bool.and_assoc]
      · rw [hcount, herrors, Nat.add_assoc]
        rfl

theorem allTrue_iff {bs : List (Backend host)} (hdirs : Directories bs) :
    AllTrue bs ↔ faults bs = 0 := by
  induction bs with
  | nil => simp [AllTrue, faults]
  | cons b bs ih =>
    obtain ⟨hdir, hdirs⟩ := List.forall_mem_cons.mp hdirs
    have hone : (∀ d, (b.emit d).1 = .ok true) ↔ b.faults = 0 := by
      constructor
      · intro h
        have hres := (b.returns hdir {}).1.symm.trans (h {})
        exact of_decide_eq_true (Except.ok.inj hres)
      · intro h d
        rw [(b.returns hdir d).1, h]
        rfl
    rw [AllTrue, List.forall_mem_cons, hone, faults, Nat.add_eq_zero_iff]
    exact and_congr_right fun _ => ih hdirs

/-- A backend that throws does not return. -/
theorem not_allTrue {bs : List (Backend host)} (h : ¬ Directories bs) : ¬ AllTrue bs := by
  intro hall
  refine h fun b hb => ?_
  by_contra hdir
  have hthrows := hall b hb {}
  rw [b.throws (by simpa using hdir) {}] at hthrows
  cases hthrows

end

/-! ## The passes -/

/-- How far a run comes, with the errors of the passes that it has run. -/
inductive Passed where
  /-- The input file cannot be opened. -/
  | unopened
  /-- `--parse-only`. -/
  | parsed (errors : Nat)
  | unresolved (errors : Nat)
  /-- An error in front of the backends. -/
  | analysed (errors : Nat)
  | lowered (build : Build)

namespace Passed

/-- Every backend that is asked for returned true; in front of the backends none is. -/
def AllTrue (host : Host) (opts : DriverOptions) : Passed → Prop
  | .lowered build => OpenClickNP.AllTrue (requested host opts build)
  | _ => True

/-- There are errors, and the last byte of the status is zero. -/
def Vanishes (host : Host) (opts : DriverOptions) : Passed → Prop
  | .unopened => False
  | .parsed errors | .analysed errors => errors ≠ 0 ∧ 256 ∣ errors
  -- of unsigned numbers `std::max` takes 1 for a counter that has come round to 0
  | .unresolved errors => 256 ∣ errors ∧ ¬ 2 ^ 32 ∣ errors
  -- and of `int`s also for one that has become negative
  | .lowered build =>
    let errors := faults (requested host opts build)
    Directories (requested host opts build) ∧
      256 ∣ errors ∧ 0 < errors % 2 ^ 32 ∧ errors % 2 ^ 32 < 2 ^ 31

end Passed

/-- The passes behind the parser. -/
def compilePasses (nesting : Nat) (host : Host) (opts : DriverOptions) (mod : Module)
    (p : Parser) : Option Passed := do
  let (ok, d, g) ← resolveModuleToGraph nesting mod p.diags
  if ok then
    let (g, d) ← Driver.analyzed host g d
    if d.hasError then pure (.analysed d.errors)
    else pure (.lowered (lowerToBackend g opts.platform Driver.userClockHz opts.inputPath))
  else pure (.unresolved d.errors)

/-- The passes of a run. -/
def passed (depth turns nesting : Nat) (host : Host) (opts : DriverOptions) : Option Passed :=
  match Parser.parseFile host.toFileSystem opts.importDirs depth opts.inputPath turns {} with
  | none => none
  | some (none, _) => some .unopened
  | some (some mod, p) =>
    if opts.parseOnly then some (.parsed p.diags.errors)
    else compilePasses nesting host opts mod p

namespace Driver

section
variable {host : Host} {opts : DriverOptions} {depth turns nesting : Nat} {e : Ended}

theorem result_finish {buffers : List SourceBuffer} {d : DiagnosticEngine} {status : Int}
    (h : ∃ text, (finish buffers d status).diags.render buffers = .ok text) :
    (finish buffers d status).result = .ok status := by
  obtain ⟨text, htext⟩ := h
  have hrender : d.render buffers = .ok text := htext
  rw [finish, hrender]
  rfl

/-- Where the input file cannot be opened the run aborts. -/
theorem run_unopened (hread : host.read opts.inputPath = none)
    (hrun : run depth turns nesting host opts = some e) :
    passed depth turns nesting host opts = some .unopened ∧ e.diags.errors = 1 ∧
      seen e.result = .aborted := by
  cases depth with
  | zero => cases hrun
  | succ depth =>
    let dummy : SourceLoc := { fileId := 0, line := 1, column := 1, offset := 0 }
    let d : DiagnosticEngine := ({} : DiagnosticEngine).error { «begin» := dummy, «end» := dummy }
      ("cannot open \x60" ++ opts.inputPath ++ "\x60")
    have hparse : Parser.parseFile host.toFileSystem opts.importDirs (depth + 1) opts.inputPath
        turns {}
        = some (none, { seenFiles := [host.weaklyCanonical opts.inputPath], diags := d }) :=
      Parser.parseFile_of_missing List.not_mem_nil hread
    rw [run, hparse] at hrun
    cases hrun
    refine ⟨?_, rfl, rfl⟩
    rw [passed, hparse]

/-- The parser returns a module for an input file that can be opened. -/
theorem exists_module {contents : List Char} (hread : host.read opts.inputPath = some contents)
    {r : Option Module} {p : Parser}
    (h : Parser.parseFile host.toFileSystem opts.importDirs depth opts.inputPath turns {}
      = some (r, p)) : ∃ mod, r = some mod := by
  cases depth with
  | zero => cases h
  | succ depth =>
    rw [Parser.parseFile_of_new List.not_mem_nil hread] at h
    unfold Parser.parseBuffer at h
    split at h
    · cases h
    · cases h
      exact ⟨_, rfl⟩

/-- Where the resolver refuses a module there is an error. -/
theorem hasError_of_refused {mod : Module} {d d' : DiagnosticEngine} {g : Graph}
    (h : resolveModuleToGraph nesting mod d = some (false, d', g)) : d'.hasError = true := by
  obtain ⟨rf, -, hok, rfl, -⟩ := resolver_of_resolves h
  simpa using hok

/-- The status says whether there is an error and what the backends returned. -/
def Truthful (host : Host) (opts : DriverOptions) (x : Passed) (e : Ended) : Prop :=
  seen e.result = .exited 0 ↔ e.diags.errors = 0 ∧ x.AllTrue host opts

/-- Behind the backends. -/
theorem truthful_afterEmit {buffers : List SourceBuffer} {build : Build} {d : DiagnosticEngine}
    (hd : d.errors = 0)
    (hanswers : Answers host (afterEmit buffers (emitAll host opts build d))) :
    Truthful host opts (.lowered build) (afterEmit buffers (emitAll host opts build d))
      ↔ ¬ (Passed.lowered build).Vanishes host opts := by
  rw [emitAll_eq] at hanswers ⊢
  obtain ⟨hall, hsome⟩ := foldl_runBackend (requested host opts build) true d
  by_cases hdirs : Directories (requested host opts build)
  · obtain ⟨d', hd', hcount⟩ := hall hdirs
    rw [hd, Nat.zero_add] at hcount
    rw [hd', Bool.true_and, ← hcount] at hanswers ⊢
    have htrue : (Passed.lowered build).AllTrue host opts ↔ d'.errors = 0 := by
      rw [hcount]
      exact allTrue_iff hdirs
    have hvanish : (Passed.lowered build).Vanishes host opts
        ↔ 256 ∣ d'.errors ∧ 0 < d'.errors % 2 ^ 32 ∧ d'.errors % 2 ^ 32 < 2 ^ 31 := by
      rw [hcount]
      exact and_iff_right hdirs
    have hresult := result_finish hanswers.prints
    rw [Truthful, htrue, hvanish]
    show (seen (finish _ _ _).result = _ ↔ d'.errors = 0 ∧ d'.errors = 0) ↔ _
    rw [hresult, and_self]
    by_cases hzero : d'.errors = 0
    · rw [if_pos (decide_eq_true hzero), seen_errors, hzero]
      simp
    · rw [if_neg (by simpa using hzero), seen_max_errors]
      simp [hzero]
  · obtain ⟨thrown, d', hd'⟩ := hsome hdirs
    rw [hd']
    refine iff_of_true (iff_of_false (fun h => by cases h) fun h => not_allTrue hdirs h.2) ?_
    exact fun h => hdirs h.1

theorem truthful_compile {mod : Module} {p : Parser} (hanswers : Answers host e)
    (hrun : compile nesting host opts mod p = some e) :
    ∃ x, compilePasses nesting host opts mod p = some x ∧
      (Truthful host opts x e ↔ ¬ x.Vanishes host opts) := by
  obtain ⟨⟨ok, d, g⟩, hresolve, hrest⟩ := Option.bind_eq_some_iff.mp hrun
  rw [compilePasses, hresolve]
  cases ok with
  | false =>
    cases hrest
    have hpos : 0 < d.errors := errors_pos_iff.mpr (hasError_of_refused hresolve)
    refine ⟨.unresolved d.errors, rfl, ?_⟩
    rw [Truthful, result_finish hanswers.prints, seen_failure]
    show (_ ↔ d.errors = 0 ∧ True) ↔ ¬ (256 ∣ d.errors ∧ ¬ 2 ^ 32 ∣ d.errors)
    omega
  | true =>
    obtain ⟨⟨g', d'⟩, hanalyzed, hlast⟩ := Option.bind_eq_some_iff.mp hrest
    show ∃ x, (analyzed host g d >>= fun out => _) = some x ∧ _
    rw [hanalyzed]
    show ∃ x, (if d'.hasError = true then _ else _) = some x ∧ _
    dsimp only at hlast
    by_cases herror : d'.hasError = true
    · rw [if_pos herror] at hlast ⊢
      cases hlast
      have hpos : 0 < d'.errors := errors_pos_iff.mpr herror
      refine ⟨.analysed d'.errors, rfl, ?_⟩
      rw [Truthful, result_finish hanswers.prints, seen_errors]
      show (_ ↔ d'.errors = 0 ∧ True) ↔ ¬ (d'.errors ≠ 0 ∧ 256 ∣ d'.errors)
      omega
    · rw [if_neg herror] at hlast ⊢
      cases hlast
      exact ⟨.lowered _, rfl, truthful_afterEmit (errors_eq_zero herror) hanswers⟩

/-- **Every exit of the driver.** -/
theorem truthful_run (hrun : run depth turns nesting host opts = some e) :
    ∃ x, passed depth turns nesting host opts = some x ∧
      (Truthful host opts x e ↔ ¬ x.Vanishes host opts) := by
  cases hread : host.read opts.inputPath with
  | none =>
    obtain ⟨hpassed, herrors, habort⟩ := run_unopened hread hrun
    refine ⟨.unopened, hpassed, iff_of_true (iff_of_false ?_ ?_) not_false⟩
    · rw [habort]
      exact nofun
    · rw [herrors]
      exact fun h => absurd h.1 Nat.one_ne_zero
  | some contents =>
    have hanswers := answers_run hread hrun
    unfold run at hrun
    split at hrun
    · cases hrun
    next p hparse =>
      obtain ⟨mod, hmod⟩ := exists_module hread hparse
      cases hmod
    next mod p hparse =>
      unfold passed
      rw [hparse]
      dsimp only
      by_cases honly : opts.parseOnly = true
      · rw [if_pos honly] at hrun ⊢
        cases hrun
        refine ⟨.parsed p.diags.errors, rfl, ?_⟩
        rw [Truthful, result_finish hanswers.prints, seen_errors]
        show (256 ∣ p.diags.errors ↔ p.diags.errors = 0 ∧ True)
          ↔ ¬ (p.diags.errors ≠ 0 ∧ 256 ∣ p.diags.errors)
        rcases Nat.eq_zero_or_pos p.diags.errors with hzero | hpos
        · simp [hzero]
        · simp [Nat.ne_of_gt hpos]
      · rw [if_neg honly] at hrun ⊢
        exact truthful_compile hanswers hrun

end

end Driver

/-- **The status says whether the compiler succeeded, except** where the errors of a run are a
multiple of 256. -/
theorem exitStatus_truthful_iff (host : Host) (argv : List String) (opts : DriverOptions)
    (hargs : parseArgs argv { inputPath := "" } = .compile opts) (depth turns nesting : Nat)
    (e : Driver.Ended) (hrun : Driver.run depth turns nesting host opts = some e) :
    ∃ x, passed depth turns nesting host opts = some x ∧
      ((process depth turns nesting host argv = some (.exited 0) ↔
          e.diags.errors = 0 ∧ x.AllTrue host opts) ↔
        ¬ x.Vanishes host opts) := by
  obtain ⟨x, hpassed, htruthful⟩ := Driver.truthful_run hrun
  refine ⟨x, hpassed, ?_⟩
  have hprocess : process depth turns nesting host argv = some (seen e.result) := by
    rw [process, hargs]
    show (Driver.run depth turns nesting host opts).map _ = _
    rw [hrun]
    rfl
  rw [hprocess, Option.some_inj]
  exact htruthful

/-- A host whose only file is the input. -/
def inputOnly (contents : List Char) : Host := { noFiles with read := fun _ => some contents }

/-- An empty file compiles. -/
theorem exitStatus_empty_file :
    ∃ (e : Driver.Ended) (x : Passed),
      passed 1 1 1 (inputOnly []) { inputPath := "in.clnp" } = some x ∧
      ((process 1 1 1 (inputOnly []) ["in.clnp"] = some (.exited 0) ↔
          e.diags.errors = 0 ∧ x.AllTrue (inputOnly []) { inputPath := "in.clnp" }) ↔
        ¬ x.Vanishes (inputOnly []) { inputPath := "in.clnp" }) :=
  ⟨(Driver.run 1 1 1 (inputOnly []) { inputPath := "in.clnp" }).get (by decide +kernel),
    exitStatus_truthful_iff (inputOnly []) ["in.clnp"] { inputPath := "in.clnp" } (by decide)
      1 1 1 _ (Option.some_get _).symm⟩

/-- A file of 255 characters that are no tokens: one more error for the statement they are not. -/
def strayFile : List Char := List.replicate 255 '?'

theorem exitStatus_of_256_errors :
    ¬ ∀ (host : Host) (argv : List String) (opts : DriverOptions),
      parseArgs argv { inputPath := "" } = .compile opts →
      ∀ (depth turns nesting : Nat) (e : Driver.Ended),
        Driver.run depth turns nesting host opts = some e →
        ∃ x, passed depth turns nesting host opts = some x ∧
          (process depth turns nesting host argv = some (.exited 0) ↔
            e.diags.errors = 0 ∧ x.AllTrue host opts) := by
  intro h
  -- 255 stray characters and the statement they are not: 256 errors
  have hlast : (Driver.run 1 265 1 (inputOnly strayFile) { inputPath := "in.clnp" }).map
      (fun e => (seen e.result, e.diags.errors)) = some (.exited 0, 256) := by
    decide +kernel
  obtain ⟨e, hrun, hends⟩ := Option.map_eq_some_iff.mp hlast
  obtain ⟨hzero, herrors⟩ := Prod.mk.injEq .. ▸ hends
  have hargs : parseArgs ["in.clnp"] { inputPath := "" } = .compile { inputPath := "in.clnp" } := by
    decide
  obtain ⟨x, -, hx⟩ := h (inputOnly strayFile) ["in.clnp"] _ hargs 1 265 1 e hrun
  have hprocess : process 1 265 1 (inputOnly strayFile) ["in.clnp"] = some (.exited 0) := by
    rw [process, hargs]
    show (Driver.run 1 265 1 _ _).map _ = _
    rw [hrun, Option.map_some, hzero]
  rw [herrors] at hx
  exact absurd (hx.mp hprocess).1 (by decide)

end OpenClickNP
