import OpenClickNP.Compiler.Cycles
import OpenClickNP.Compiler.FileIds
import OpenClickNP.Compiler.GroupRecursion
import OpenClickNP.Compiler.Lower

/-!
# `driver.cpp`, `diagnostic.cpp`: a run of the compiler

`Driver.run` parses, resolves, analyses, lowers and emits, and prints the diagnostics at the end.
Printing looks up the buffer of each diagnostic and throws where it is not there. Every pass gives
its diagnostics the ranges of statements, or the default range in file `0`, so they can be printed
exactly when the input file can be opened, which makes it file `0` (`run_answers_iff`).
-/

namespace OpenClickNP

open Ast Eg Be

inductive Thrown where
  | outOfRange | filesystemError
deriving DecidableEq, Repr

/-! ## Printing -/

def sevName : Severity → String
  | .note => "note"
  | .warning => "warning"
  | .error => "error"

def sevColor : Severity → String
  | .note => "\x1b[1;36m"
  | .warning => "\x1b[1;33m"
  | .error => "\x1b[1;31m"

def kReset : String := "\x1b[0m"

def kBold : String := "\x1b[1m"

/-- `SourceBuffer::lineText`: without the line break and the carriage returns in front of it. -/
def SourceBuffer.lineText (buf : SourceBuffer) (line : UInt32) : List Char :=
  let starts := buf.lineStarts
  if line = 0 ∨ starts.length < line.toNat then []
  else
    let first := starts.getD (line.toNat - 1) 0
    let last := if line.toNat < starts.length then starts.getD line.toNat 0 - 1
      else UInt32.ofNat buf.contents.length
    let text := (buf.contents.drop first.toNat).take (last - first).toNat
    (text.reverse.dropWhile (· == '\r')).reverse

/-- `SourceManager::buffer`. -/
def bufferAt (buffers : List SourceBuffer) (fileId : UInt32) : Except Thrown SourceBuffer :=
  match buffers[fileId.toNat]? with
  | some buf => .ok buf
  | none => .error .outOfRange

/-- The source line and the marks below it. -/
def markedLine (line : List Char) (d : Diagnostic) : String :=
  let «begin» := d.range.begin
  let «end» := d.range.end
  let span : UInt32 :=
    if «end».line = «begin».line ∧ «begin».column < «end».column then «end».column - «begin».column
    else 1
  "  " ++ String.ofList line ++ "\n" ++ "  "
    ++ String.ofList (List.replicate («begin».column.toNat - 1) ' ') ++ sevColor d.severity ++ "^"
    ++ String.ofList (List.replicate (span.toNat - 1) '~') ++ kReset ++ "\n"

/-- No diagnostic of the compiler has notes. -/
def renderOne (buffers : List SourceBuffer) (d : Diagnostic) : Except Thrown String := do
  let buf ← bufferAt buffers d.range.begin.fileId
  let line := buf.lineText d.range.begin.line
  pure (kBold ++ buf.path ++ ":" ++ toString d.range.begin.line ++ ":"
    ++ toString d.range.begin.column ++ ": " ++ sevColor d.severity ++ sevName d.severity ++ ":"
    ++ kReset ++ " " ++ d.message ++ "\n" ++ if line.isEmpty then "" else markedLine line d)

namespace DiagnosticEngine

/-- `error_count_` and `warning_count_`. -/
def count (d : DiagnosticEngine) (severity : Severity) : UInt32 :=
  UInt32.ofNat (d.diags.countP (·.severity == severity))

def errorCount (d : DiagnosticEngine) : UInt32 := d.count .error

def warningCount (d : DiagnosticEngine) : UInt32 := d.count .warning

def render (d : DiagnosticEngine) (buffers : List SourceBuffer) : Except Thrown String := do
  let os ← d.diags.foldlM (fun os x => do
    let one ← renderOne buffers x
    pure (os ++ one)) ""
  if 0 < d.errorCount ∨ 0 < d.warningCount then
    pure (os ++ toString d.errorCount ++ " error(s), " ++ toString d.warningCount
      ++ " warning(s)\n")
  else pure os

end DiagnosticEngine

/-! ## The analyses that the graph module leaves out -/

/-- `analyzeAutorun`. -/
def analyzeAutorun (g : Graph) : Graph :=
  { g with kernels := g.kernels.map fun k =>
      if k.special = .none then { k with autorun := true } else k }

def isBoundary (k : Option Kernel) : Bool :=
  match specialOf k with
  | .torIn | .torOut | .nicIn | .nicOut | .hostIn | .hostOut => true
  | _ => false

/-! ## The host -/

/-- The files that the compiler reads and writes, and how its streams print numbers. -/
structure Host extends FileSystem where
  /-- `fs::create_directories`; `false` where it throws. -/
  createDirectories : String → Bool
  /-- An output stream on the path can be opened. -/
  canWrite : String → Bool
  /-- A number of bits per second by `1e9`, to three digits. -/
  formatGbps : Int → String

/-- `analyzeBandwidth`. The numbers are whole and below `2 ^ 53`, so that the comparison is
exact. -/
def analyzeBandwidth (host : Host) (g : Graph) (d : DiagnosticEngine) (userClockHz : Int) :
    DiagnosticEngine :=
  let internalBps := 512 * userClockHz
  let cmacBps := 100000000000
  match g.edges.find? fun e => isBoundary (g.find e.srcKernel) || isBoundary (g.find e.dstKernel)
    with
  | some e =>
    if internalBps < cmacBps then
      d.warn e.src ("internal datapath " ++ host.formatGbps internalBps
        ++ " Gb/s is below CMAC line rate " ++ host.formatGbps cmacBps
        ++ " Gb/s; this is fine for sub-line-rate workloads, but "
        ++ "100 G saturation requires 195+ MHz user clock")
    else d
  | none => d

/-! ## The backends -/

/-- What a backend leaves: its result, or what it threw, and the diagnostics. -/
abbrev Emitted := Except Thrown Bool × DiagnosticEngine

/-- `fs::create_directories(dir)`, and what follows. -/
def inDirectory (host : Host) (dir : String) (d : DiagnosticEngine)
    (emit : DiagnosticEngine → Bool × DiagnosticEngine) : Emitted :=
  if host.createDirectories dir then (.ok (emit d).1, (emit d).2)
  else (.error .filesystemError, d)

/-- An output file; the text that goes into it has no part in the run. -/
def openFiles (host : Host) : List (String × String) → DiagnosticEngine → Bool × DiagnosticEngine
  | [], d => (true, d)
  | (path, name) :: files, d =>
    if host.canWrite path then openFiles host files d
    else (false, d.error {} ("cannot write " ++ name))

/-- The kernels of `emitHlsCpp`: it goes on behind a file that cannot be written. -/
def emitKernels (host : Host) (kdir : String) (s : Bool × DiagnosticEngine) (k : KernelHls) :
    Bool × DiagnosticEngine :=
  let p := host.join kdir (k.name ++ ".cpp")
  if host.canWrite p then s else (false, s.2.error {} ("cannot write " ++ p))

def emitHlsCpp (host : Host) (build : Build) (outdir : String) (d : DiagnosticEngine) : Emitted :=
  let kdir := host.join outdir "kernels"
  inDirectory host kdir d fun d => build.kernels.foldl (emitKernels host kdir) (true, d)

/-- The one file of a backend. -/
def emitTopology (host : Host) (dir : String) (d : DiagnosticEngine) : Emitted :=
  let p := host.join dir "topology.cpp"
  inDirectory host dir d (openFiles host [(p, p)])

def emitSystemC (host : Host) (_ : Build) (outdir : String) (d : DiagnosticEngine) : Emitted :=
  emitTopology host (host.join outdir "systemc") d

def emitSwEmu (host : Host) (_ : Build) (outdir : String) (d : DiagnosticEngine) : Emitted :=
  emitTopology host (host.join outdir "sw_emu") d

def emitVerilator (host : Host) (_ : Build) (outdir : String) (d : DiagnosticEngine) : Emitted :=
  let dir := host.join outdir "verilator"
  inDirectory host dir d (openFiles host
    [(host.join dir "topology.v", "topology.v"), (host.join dir "tb.cpp", "tb.cpp")])

def emitVppLink (host : Host) (_ : Build) (outdir : String) (d : DiagnosticEngine) : Emitted :=
  let dir := host.join outdir "link"
  inDirectory host dir d (openFiles host
    [(host.join dir "connectivity.cfg", "connectivity.cfg"),
      (host.join dir "clocks.cfg", "clocks.cfg")])

/-- The element types of the kernels, each where it comes first. -/
def elementTypes (ks : List KernelHls) : List String :=
  ks.foldl (fun done k => if k.elementType ∈ done then done else done ++ [k.elementType]) []

def emitXrtHost (host : Host) (build : Build) (outdir : String) (d : DiagnosticEngine) : Emitted :=
  let dir := host.join outdir "host"
  inDirectory host dir d (openFiles host
    ((host.join dir "kernel_table.cpp", "kernel_table.cpp") ::
      (elementTypes build.kernels).map fun t => (host.join dir (t ++ ".hpp"), "element header")))

/-! ## The driver -/

structure DriverOptions where
  inputPath : String
  outputDir : String := "generated"
  platform : Platform := .u50Xdma
  emitHlsCpp : Bool := true
  emitSystemc : Bool := true
  emitSwEmu : Bool := true
  emitVerilatorSim : Bool := true
  emitVppLink : Bool := true
  emitXrtHost : Bool := true
  importDirs : List String := []
  parseOnly : Bool := false
deriving DecidableEq, Repr

namespace Driver

/-- The buffers and the diagnostics at the end of a run, and what it returns or throws. -/
structure Ended where
  buffers : List SourceBuffer
  diags : DiagnosticEngine
  result : Except Thrown Int

/-- `static_cast<int>(diags.errorCount())`. -/
def errors (d : DiagnosticEngine) : Int := d.errorCount.toInt32.toInt

/-- `std::max<uint32_t>(1u, diags.errorCount())`. -/
def failure (d : DiagnosticEngine) : Int := (max 1 d.errorCount).toInt32.toInt

/-- `diags.render(std::cerr); return status;`. -/
def finish (buffers : List SourceBuffer) (diags : DiagnosticEngine) (status : Int) : Ended where
  buffers := buffers
  diags := diags
  result := (diags.render buffers).map fun _ => status

/-- `if (enabled) ok &= emit(..);`. -/
def emitIf (s : Emitted) (enabled : Bool) (emit : DiagnosticEngine → Emitted) : Emitted :=
  match s with
  | (.error e, d) => (.error e, d)
  | (.ok ok, d) => if enabled then ((emit d).1.map (ok && ·), (emit d).2) else (.ok ok, d)

def emitAll (host : Host) (opts : DriverOptions) (build : Build) (d : DiagnosticEngine) :
    Emitted :=
  let s : Emitted := (.ok true, d)
  let s := emitIf s opts.emitHlsCpp (emitHlsCpp host build opts.outputDir)
  let s := emitIf s opts.emitSystemc (emitSystemC host build opts.outputDir)
  let s := emitIf s opts.emitSwEmu (emitSwEmu host build opts.outputDir)
  let s := emitIf s opts.emitVerilatorSim (emitVerilator host build opts.outputDir)
  let s := emitIf s opts.emitVppLink (emitVppLink host build opts.outputDir)
  emitIf s opts.emitXrtHost (emitXrtHost host build opts.outputDir)

/-- After the backends. -/
def afterEmit (buffers : List SourceBuffer) (s : Emitted) : Ended :=
  match s with
  | (.error e, d) => { buffers := buffers, diags := d, result := .error e }
  | (.ok ok, d) => finish buffers d (if ok then errors d else max 1 (errors d))

def userClockHz : Int := 322265625

/-- The passes behind the resolver. -/
def analyzed (host : Host) (g : Graph) (d : DiagnosticEngine) : Option (Graph × DiagnosticEngine) :=
  let d := (analyzePortArity g d).2
  let g := analyzeAutorun g
  (analyzeCycles (cycleBound g) g d).map fun d => (g, analyzeBandwidth host g d userClockHz)

/-- `Driver::run` behind the parser, with at most `nesting` groups in one another. -/
def compile (nesting : Nat) (host : Host) (opts : DriverOptions) (mod : Module) (p : Parser) :
    Option Ended := do
  let (ok, d, g) ← resolveModuleToGraph nesting mod p.diags
  if ok then
    let (g, d) ← analyzed host g d
    if d.hasError then pure (finish p.buffers d (errors d))
    else
      let build := lowerToBackend g opts.platform userClockHz opts.inputPath
      pure (afterEmit p.buffers (emitAll host opts build d))
  else pure (finish p.buffers d (failure d))

/-- `Driver::run`, with at most `depth` files open at a time and `turns` turns of a loop of the
parser. -/
def run (depth turns nesting : Nat) (host : Host) (opts : DriverOptions) : Option Ended :=
  match Parser.parseFile host.toFileSystem opts.importDirs depth opts.inputPath turns {} with
  | none => none
  | some (none, p) => some (finish p.buffers p.diags (failure p.diags))
  | some (some mod, p) =>
    if opts.parseOnly then some (finish p.buffers p.diags (errors p.diags))
    else compile nesting host opts mod p

/-- A run ends so. -/
def Runs (host : Host) (opts : DriverOptions) (e : Ended) : Prop :=
  ∃ depth turns nesting, run depth turns nesting host opts = some e

/-- Every diagnostic is in a buffer that has been loaded, all of them can be printed, and no lookup
throws; a status is returned unless a directory cannot be created. -/
structure Answers (host : Host) (e : Ended) : Prop where
  loaded : ∀ x ∈ e.diags.diags, x.range.Within e.buffers.length
  prints : ∃ text, e.diags.render e.buffers = .ok text
  inRange : e.result ≠ .error .outOfRange
  status : (∀ dir, host.createDirectories dir = true) → ∃ n, e.result = .ok n

end Driver

/-! ## Diagnostics and their buffers -/

/-- The diagnostics are in the first `n` buffers. -/
def DiagnosticEngine.Located (n : Nat) (d : DiagnosticEngine) : Prop :=
  ∀ x ∈ d.diags, x.range.Within n

section
variable {n : Nat} {d : DiagnosticEngine} {r : SourceRange}

theorem located_emit (hd : d.Located n) {x : Diagnostic} (hx : x.range.Within n) :
    (d.emit x).Located n := by
  intro y hy
  rcases List.mem_append.mp hy with hy | hy
  · exact hd y hy
  · rw [List.mem_singleton.mp hy]
    exact hx

theorem located_error (hd : d.Located n) (hr : r.Within n) (msg : String) :
    (d.error r msg).Located n := located_emit hd hr

/-- Diagnostics in buffers that are there are printed. Induction on the diagnostics. -/
theorem render_eq_ok {buffers : List SourceBuffer} (hd : d.Located buffers.length) :
    ∃ text, d.render buffers = .ok text := by
  have hone : ∀ x ∈ d.diags, ∃ text, renderOne buffers x = .ok text := by
    intro x hx
    obtain ⟨buf, hbuf⟩ : ∃ buf, buffers[x.range.begin.fileId.toNat]? = some buf :=
      ⟨_, List.getElem?_eq_getElem (hd x hx).begins⟩
    rw [renderOne, bufferAt, hbuf]
    exact ⟨_, rfl⟩
  have hall : ∀ (xs : List Diagnostic), (∀ x ∈ xs, ∃ text, renderOne buffers x = .ok text) →
      ∀ os, ∃ text, xs.foldlM (fun os x => do
        let one ← renderOne buffers x
        pure (os ++ one)) os = .ok text := by
    intro xs
    induction xs with
    | nil => exact fun _ os => ⟨os, rfl⟩
    | cons x xs ih =>
      intro h os
      obtain ⟨one, hx⟩ := h x List.mem_cons_self
      obtain ⟨text, htext⟩ := ih (fun y hy => h y (List.mem_cons_of_mem _ hy)) (os ++ one)
      refine ⟨text, ?_⟩
      rw [List.foldlM_cons, hx]
      exact htext
  obtain ⟨os, hos⟩ := hall d.diags hone ""
  rw [DiagnosticEngine.render, hos]
  by_cases hcount : 0 < d.errorCount ∨ 0 < d.warningCount
  · exact ⟨_, if_pos hcount⟩
  · exact ⟨_, if_neg hcount⟩

/-! ## The analyses -/

theorem located_checkEdge {g : Graph} {e : Edge} (he : e.src.Within n)
    {s : Bool × DiagnosticEngine} (hs : s.2.Located n) : (checkEdge g s e).2.Located n := by
  have hsrc : (checkSrcArity g e s).2.Located n := by
    unfold checkSrcArity
    split
    · split
      · exact located_error hs he _
      · exact hs
    · exact hs
  have hdst : (checkDstArity g e (checkSrcArity g e s)).2.Located n := by
    unfold checkDstArity
    split
    · split
      · exact located_error hsrc he _
      · exact hsrc
    · exact hsrc
  unfold checkEdge
  simp only []
  generalize checkDstArity g e (checkSrcArity g e s) = t at hdst
  have hlow : (if e.srcPort < 1 then arityError e.src "source port must be >= 1" t
      else t).2.Located n := by
    split
    · exact located_error hdst he _
    · exact hdst
  split
  · exact located_error hlow he _
  · exact hlow

theorem located_portArity {g : Graph} (hg : ∀ e ∈ g.edges, e.src.Within n) (hd : d.Located n) :
    (analyzePortArity g d).2.Located n :=
  List.foldlRecOn (motive := fun s : Bool × DiagnosticEngine => s.2.Located n) g.edges
    (checkEdge g) hd fun _ hs e he => located_checkEdge (hg e he) hs

theorem located_cycles {g : Graph} {fuel : Nat} (hn : 0 < n)
    (hg : ∀ k ∈ g.kernels, k.src.Within n) (hfuel : cycleBound g ≤ fuel) (hd : d.Located n) :
    ∃ d', analyzeCycles fuel g d = some d' ∧ d'.Located n := by
  obtain ⟨t, hrun, -⟩ := exists_tarjan hfuel
  refine ⟨_, analyzeCycles_eq hrun, fun x hx => ?_⟩
  rcases List.mem_append.mp hx with hx | hx
  · exact hd x hx
  · obtain ⟨comp, -, rfl⟩ := List.mem_map.mp hx
    show (cycleRange g comp).Within n
    unfold cycleRange
    split
    · split
      next k hk => exact hg k (Graph.find_eq_some hk).1
      · exact SourceRange.within_default hn
    · exact SourceRange.within_default hn

theorem located_bandwidth {g : Graph} {host : Host} (hg : ∀ e ∈ g.edges, e.src.Within n)
    (hd : d.Located n) (hz : Int) : (analyzeBandwidth host g d hz).Located n := by
  unfold analyzeBandwidth
  simp only []
  split
  next e he =>
    split
    · exact located_emit hd (hg e (List.mem_of_find?_eq_some he))
    · exact hd
  · exact hd

/-! ## The resolver -/

/-- The statements of the module are in the first `n` buffers. -/
def ModuleWithin (n : Nat) (m : Module) : Prop := ∀ x ∈ m.stmts, Parser.TopWithin n x

section
variable {m : Module} {src : SourceRange}

theorem InstanceSrc.within (hm : ModuleWithin n m) (h : InstanceSrc m src) : src.Within n := by
  obtain ⟨d, rfl, hd | ⟨g, hg, hd⟩⟩ := h
  · exact hm _ hd
  · exact (hm _ hg).2 _ hd

theorem ConnectionSrc.within (hm : ModuleWithin n m) (h : ConnectionSrc m src) :
    src.Within n := by
  obtain ⟨c, rfl, hc | ⟨g, hg, hc⟩⟩ := h
  · exact hm _ hc
  · exact (hm _ hg).2 _ hc

theorem Fault.within (hm : ModuleWithin n m) {x : Diagnostic} (h : Fault m x) :
    x.range.Within n := by
  cases h with
  | element d hd => exact hm _ hd
  | group d hd => exact (hm _ hd).1
  | type _ hsrc => exact hsrc.within hm
  | node _ _ hsrc => exact hsrc.within hm

/-- The ranges of the graph are in the first `n` buffers. -/
structure GraphWithin (n : Nat) (g : Graph) : Prop where
  kernels : ∀ k ∈ g.kernels, k.src.Within n
  edges : ∀ e ∈ g.edges, e.src.Within n

theorem located_resolve (hn : 0 < n) (hm : ModuleWithin n m) (hd : d.Located n) {nesting : Nat}
    {out : Bool × DiagnosticEngine × Graph} (h : resolveModuleToGraph nesting m d = some out) :
    out.2.1.Located n ∧ GraphWithin n out.2.2 := by
  obtain ⟨r, hr, hout⟩ := Option.bind_eq_some_iff.mp h
  cases hout
  have hsourced := sourced_resolve d hr
  refine ⟨fun x hx => ?_, fun k hk => ?_, fun e he => ?_⟩
  · exact (hsourced.diags x hx).elim (hd x) (Fault.within hm)
  · rcases hsourced.kernels k hk with hold | hinst | hdefault
    · cases hold
    · exact hinst.within hm
    · rw [hdefault]
      exact SourceRange.within_default hn
  · exact ((hsourced.edges e he).resolve_left List.not_mem_nil).within hm

theorem within_autorun {g : Graph} (hg : GraphWithin n g) : GraphWithin n (analyzeAutorun g) where
  kernels k hk := by
    obtain ⟨k, hmem, rfl⟩ := List.mem_map.mp hk
    split
    · exact hg.kernels k hmem
    · exact hg.kernels k hmem
  edges := hg.edges

end

/-! ## The backends -/

/-- What a backend may leave. -/
structure Sound (host : Host) (n : Nat) (s : Emitted) : Prop where
  located : s.2.Located n
  inRange : s.1 ≠ .error .outOfRange
  result : (∀ dir, host.createDirectories dir = true) → ∃ ok, s.1 = .ok ok

variable {host : Host} {build : Build} {outdir : String}

theorem sound_inDirectory {dir : String} {emit : DiagnosticEngine → Bool × DiagnosticEngine}
    (hd : d.Located n) (hemit : (emit d).2.Located n) :
    Sound host n (inDirectory host dir d emit) := by
  unfold inDirectory
  split
  · exact ⟨hemit, nofun, fun _ => ⟨_, rfl⟩⟩
  next hdir => exact ⟨hd, nofun, fun hall => absurd (hall dir) hdir⟩

theorem located_openFiles (hn : 0 < n) (files : List (String × String)) (hd : d.Located n) :
    (openFiles host files d).2.Located n := by
  induction files with
  | nil => exact hd
  | cons file files ih =>
    unfold openFiles
    split
    · exact ih
    · exact located_error hd (SourceRange.within_default hn) _

theorem sound_hlsCpp (hn : 0 < n) (hd : d.Located n) :
    Sound host n (emitHlsCpp host build outdir d) := by
  unfold emitHlsCpp
  refine sound_inDirectory hd ?_
  refine List.foldlRecOn (motive := fun s : Bool × DiagnosticEngine => s.2.Located n)
    build.kernels _ hd fun s hs k _ => ?_
  unfold emitKernels
  simp only []
  split
  · exact hs
  · exact located_error hs (SourceRange.within_default hn) _

/-- The other backends open their files one after the other. -/
theorem sound_files (hn : 0 < n) (dir : String) (files : List (String × String))
    (hd : d.Located n) : Sound host n (inDirectory host dir d (openFiles host files)) :=
  sound_inDirectory hd (located_openFiles hn files hd)

namespace Driver

theorem sound_emitIf {s : Emitted} {emit : DiagnosticEngine → Emitted} (hs : Sound host n s)
    (enabled : Bool) (h : ∀ d : DiagnosticEngine, d.Located n → Sound host n (emit d)) :
    Sound host n (emitIf s enabled emit) := by
  obtain ⟨res, d⟩ := s
  cases res with
  | error e => exact hs
  | ok ok =>
    cases enabled with
    | false => exact hs
    | true =>
      -- the status of the backend is added to that of the backends before it
      have hemit := h d hs.located
      refine ⟨hemit.located, fun heq => hemit.inRange ?_, fun hall => ?_⟩
      · cases hres : (emit d).1 with
        | error e =>
          have hmap : ((emit d).1.map (ok && ·)) = .error .outOfRange := heq
          rw [hres] at hmap
          exact hmap
        | ok b =>
          have hmap : ((emit d).1.map (ok && ·)) = .error .outOfRange := heq
          rw [hres] at hmap
          cases hmap
      · obtain ⟨b, hb⟩ := hemit.result hall
        refine ⟨ok && b, ?_⟩
        show (emit d).1.map (ok && ·) = _
        rw [hb]
        rfl

theorem sound_emitAll (opts : DriverOptions) (hn : 0 < n) (hd : d.Located n) :
    Sound host n (emitAll host opts build d) := by
  have hfiles : ∀ dir files (d : DiagnosticEngine), d.Located n →
      Sound host n (inDirectory host dir d (openFiles host files)) := fun dir files _ hd =>
    sound_files hn dir files hd
  -- from the last backend back to the first
  refine sound_emitIf ?_ _ (hfiles _ _)
  refine sound_emitIf ?_ _ (hfiles _ _)
  refine sound_emitIf ?_ _ (hfiles _ _)
  refine sound_emitIf ?_ _ (hfiles _ _)
  refine sound_emitIf ?_ _ (hfiles _ _)
  refine sound_emitIf ?_ _ fun _ hd => sound_hlsCpp hn hd
  exact ⟨hd, nofun, fun _ => ⟨true, rfl⟩⟩

/-! ## The run -/

theorem answers_finish {buffers : List SourceBuffer} (hd : d.Located buffers.length)
    (status : Int) : Answers host (finish buffers d status) := by
  obtain ⟨text, htext⟩ := render_eq_ok hd
  have hresult : (finish buffers d status).result = .ok status := by
    rw [finish, htext]
    rfl
  refine ⟨hd, ⟨text, htext⟩, ?_, fun _ => ⟨status, hresult⟩⟩
  rw [hresult]
  exact nofun

theorem answers_afterEmit {buffers : List SourceBuffer} {s : Emitted}
    (hs : Sound host buffers.length s) : Answers host (afterEmit buffers s) := by
  obtain ⟨res, d⟩ := s
  cases res with
  | ok ok => exact answers_finish hs.located _
  | error e =>
    refine ⟨hs.located, render_eq_ok hs.located, fun heq => ?_, fun hall => ?_⟩
    · cases heq
      exact hs.inRange rfl
    · obtain ⟨ok, hok⟩ := hs.result hall
      cases hok

/-- The passes behind the resolver end. -/
theorem exists_analyzed {g : Graph} (hn : 0 < n) (hg : GraphWithin n g) (hd : d.Located n) :
    ∃ out, analyzed host g d = some out ∧ out.2.Located n := by
  have hauto := within_autorun hg
  obtain ⟨d', hrun, hd'⟩ := located_cycles hn hauto.kernels (Nat.le_refl _)
    (located_portArity hg.edges hd)
  have hlast : (analyzeBandwidth host (analyzeAutorun g) d' userClockHz).Located n :=
    located_bandwidth hauto.edges hd' userClockHz
  refine ⟨(analyzeAutorun g, _), ?_, hlast⟩
  rw [analyzed, hrun]
  rfl

section
variable {p : Parser} {mod : Module} {opts : DriverOptions}

/-- Where the resolver returns the compiler does, and it answers. -/
theorem exists_compile (hp : p.Within n) (hn : 0 < n) (hm : ModuleWithin n mod) {nesting : Nat}
    {out : Bool × DiagnosticEngine × Graph}
    (h : resolveModuleToGraph nesting mod p.diags = some out) :
    ∃ e, compile nesting host opts mod p = some e ∧ Answers host e := by
  have hpos : 0 < p.buffers.length := Nat.lt_of_lt_of_le hn hp.count
  have hall : ModuleWithin p.buffers.length mod := fun x hx => (hm x hx).mono hp.count
  have hdiags : p.diags.Located p.buffers.length := fun x hx => (hp.diags x hx).mono hp.count
  obtain ⟨hd, hg⟩ := located_resolve hpos hall hdiags h
  obtain ⟨ok, d, g⟩ := out
  unfold compile
  rw [h]
  cases ok with
  | false => exact ⟨_, rfl, answers_finish hd _⟩
  | true =>
    obtain ⟨⟨g', d'⟩, hrun, hd'⟩ : ∃ out, analyzed host g d = some out ∧
        out.2.Located p.buffers.length := exists_analyzed hpos hg hd
    show ∃ e, (analyzed host g d >>= fun out => _) = some e ∧ Answers host e
    rw [hrun]
    show ∃ e, (if d'.hasError = true then _ else _) = some e ∧ Answers host e
    split
    · exact ⟨_, rfl, answers_finish hd' _⟩
    · exact ⟨_, rfl, answers_afterEmit (sound_emitAll opts hpos hd')⟩

theorem answers_compile (hp : p.Within n) (hn : 0 < n) (hm : ModuleWithin n mod) {nesting : Nat}
    {e : Ended} (h : compile nesting host opts mod p = some e) : Answers host e := by
  obtain ⟨out, hout, -⟩ := Option.bind_eq_some_iff.mp h
  obtain ⟨e', he', hanswers⟩ : ∃ e, compile nesting host opts mod p = some e ∧ Answers host e :=
    exists_compile hp hn hm hout
  rw [h] at he'
  cases he'
  exact hanswers

/-- What the parser leaves of an input file that can be opened. -/
theorem opened_input {contents : List Char} (hread : host.read opts.inputPath = some contents)
    {depth turns : Nat} {r : Option Module} {q : Parser}
    (h : Parser.parseFile host.toFileSystem opts.importDirs depth opts.inputPath turns {}
      = some (r, q)) : Parser.Opened 0 r q :=
  Parser.triple_parseFile depth opts.inputPath (.inr ⟨contents, hread⟩) turns {} r q
    ⟨⟨Nat.le_refl _, fun _ hx => absurd hx List.not_mem_nil⟩, fun _ => rfl⟩ h

theorem answers_run {contents : List Char} (hread : host.read opts.inputPath = some contents)
    {depth turns nesting : Nat} {e : Ended} (h : run depth turns nesting host opts = some e) :
    Answers host e := by
  unfold run at h
  split at h
  · cases h
  next p hparse =>
    -- no module is returned
    obtain ⟨k, -, -, hp, -⟩ := opened_input hread hparse
    cases h
    exact answers_finish (fun x hx => (hp.diags x hx).mono hp.count) _
  next mod p hparse =>
    obtain ⟨k, -, hk, hp, hm⟩ := opened_input hread hparse
    split at h
    · cases h
      exact answers_finish (fun x hx => (hp.diags x hx).mono hp.count) _
    · exact answers_compile hp hk (hm mod rfl) h

/-- An input file that cannot be opened has its error in a buffer that is not there. -/
theorem run_missing (hread : host.read opts.inputPath = none) :
    ∃ e, Runs host opts e ∧ e.result = .error .outOfRange := by
  let dummy : SourceLoc := { fileId := 0, line := 1, column := 1, offset := 0 }
  let d : DiagnosticEngine := ({} : DiagnosticEngine).error { «begin» := dummy, «end» := dummy }
    ("cannot open \x60" ++ opts.inputPath ++ "\x60")
  have hparse : Parser.parseFile host.toFileSystem opts.importDirs 1 opts.inputPath 0 {}
      = some (none, { seenFiles := [host.weaklyCanonical opts.inputPath], diags := d }) :=
    Parser.parseFile_of_missing List.not_mem_nil hread
  refine ⟨finish [] d (failure d), ⟨1, 0, 0, ?_⟩, rfl⟩
  rw [run, hparse]

/-- The parser ends, and the resolver, where it is run, meets no group that contains itself. -/
def InputEnds (host : Host) (opts : DriverOptions) : Prop :=
  ∃ depth r p, Production.Yields
    (Parser.parseFile host.toFileSystem opts.importDirs depth opts.inputPath) {} r p ∧
      ∀ mod, r = some mod → opts.parseOnly = false →
        ∀ g, Instantiated mod g → ¬ Recursive mod g

theorem exists_runs {contents : List Char} (hread : host.read opts.inputPath = some contents)
    (h : InputEnds host opts) : ∃ e, Runs host opts e := by
  obtain ⟨depth, r, p, ⟨turns, hturns⟩, hgroups⟩ := h
  have hparse := hturns turns (Nat.le_refl _)
  cases r with
  | none =>
    refine ⟨finish p.buffers p.diags (failure p.diags), depth, turns, 0, ?_⟩
    rw [run, hparse]
  | some mod =>
    cases honly : opts.parseOnly with
    | true =>
      refine ⟨finish p.buffers p.diags (errors p.diags), depth, turns, 0, ?_⟩
      rw [run, hparse]
      exact if_pos honly
    | false =>
      obtain ⟨k, -, hk, hp, hm⟩ := opened_input hread hparse
      obtain ⟨out, nesting, hout⟩ := (resolves_iff mod p.diags).mpr (hgroups mod rfl honly)
      obtain ⟨e, he, -⟩ : ∃ e, compile nesting host opts mod p = some e ∧ Answers host e :=
        exists_compile hp hk (hm mod rfl) hout
      refine ⟨e, depth, turns, nesting, ?_⟩
      rw [run, hparse, ← he]
      exact if_neg (by rw [honly]; exact Bool.false_ne_true)

end

end Driver

end

open Driver

/-- **Printing never throws, except** where the input file cannot be opened. Where it can, the run
ends if the parser and the resolver do. -/
theorem run_answers_iff (host : Host) (opts : DriverOptions) :
    ((∀ e, Runs host opts e → Answers host e) ↔
      ∃ contents, host.read opts.inputPath = some contents) ∧
    ((∃ contents, host.read opts.inputPath = some contents) → InputEnds host opts →
      ∃ e, Runs host opts e) := by
  refine ⟨⟨fun h => ?_, fun ⟨contents, hread⟩ e ⟨depth, turns, nesting, hrun⟩ =>
    answers_run hread hrun⟩, fun ⟨contents, hread⟩ hends => exists_runs hread hends⟩
  cases hread : host.read opts.inputPath with
  | some contents => exact ⟨contents, rfl⟩
  | none =>
    obtain ⟨e, hruns, hresult⟩ := run_missing hread
    exact absurd hresult (h e hruns).inRange

/-- A host without files. -/
def noFiles : Host where
  weaklyCanonical := id
  isAbsolute := fun _ => false
  isFile := fun _ => false
  parentPath := fun _ => ""
  join := fun dir name => dir ++ "/" ++ name
  read := fun _ => none
  createDirectories := fun _ => true
  canWrite := fun _ => true
  formatGbps := fun bps => toString (bps / 1000000000)

theorem run_throws : ¬ ∀ (host : Host) (opts : DriverOptions) (e : Ended), Runs host opts e →
    Answers host e := by
  intro h
  have hmissing : noFiles.read ({ inputPath := "missing.clnp" } : DriverOptions).inputPath = none :=
    rfl
  obtain ⟨e, hruns, hresult⟩ := run_missing hmissing
  exact absurd hresult (h noFiles _ e hruns).inRange

end OpenClickNP
