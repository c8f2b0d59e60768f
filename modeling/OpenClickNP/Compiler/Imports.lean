import OpenClickNP.Compiler.Printing
import OpenClickNP.Lib.DepthFirst

/-!
# Imports

A file comes with the statements of what it imports in front of each import, and every file comes
once, however the files import each other: `parseFile` goes through them depth first. A file that
is imported while it is still being read gives nothing there, and the statements that follow do
not wait for it (`cycle_unordered`).
-/

namespace OpenClickNP

open Ast Production Syntax

open DepthFirst (Occurrence LeadsTo IsOwn Includes InOrder AllIn visit visitItems)

namespace Parser

section
variable {fs : FileSystem} {importDirs : List String}

/-! ## The bound on the open files -/

/-- A parser of imports that ends more often makes the parser of a file end more often. -/
theorem le_parseImport {pf pf' : String → Production Parser Module}
    (h : ∀ path, Le (pf path) (pf' path)) :
    Le (parseImport fs importDirs pf) (parseImport fs importDirs pf') := by
  refine Le.bind (Le.refl _) fun kw => Le.bind (Le.refl _) fun _ => Le.bind (Le.refl _) fun str =>
    Le.bind (Le.refl _) fun _ => Le.bind (Le.refl _) fun s =>
    Le.bind (Le.attempt (Le.within (h _))) fun _ => Le.refl _

theorem le_stmtTurn {pf pf' : String → Production Parser Module}
    (h : ∀ path, Le (pf path) (pf' path)) :
    Le (stmtTurn fs importDirs pf ()) (stmtTurn fs importDirs pf' ()) := by
  have htop : Le (parseTopStmt fs importDirs pf) (parseTopStmt fs importDirs pf') := by
    refine Le.bind (Le.refl _) fun tok => ?_
    split
    · exact le_parseImport h
    · exact Le.refl _
    · exact Le.refl _
    · exact Le.refl _
  exact Le.bind (Le.refl _) fun tok => Le.ite (Le.refl _)
    (Le.bind (Le.attempt htop) fun _ => Le.refl _)

/-- With a larger bound on the open files, `parseFile` gives the same wherever it ended before.
Induction on the bound. -/
theorem le_parseFile_succ (depth : Nat) (path : String) :
    Le (parseFile fs importDirs depth path) (parseFile fs importDirs (depth + 1) path) := by
  induction depth generalizing path with
  | zero => exact fun _ _ _ hx => by cases hx
  | succ depth ih =>
    refine Le.bind (Le.refl _) fun p => Le.ite (Le.refl _) (Le.bind (Le.refl _) fun _ => ?_)
    cases fs.read path with
    | none => exact Le.refl _
    | some contents =>
      intro n p x hx
      have hstmts : Le (parseStmts fs importDirs (parseFile fs importDirs depth))
          (parseStmts fs importDirs (parseFile fs importDirs (depth + 1))) :=
        Le.loop (fun _ => le_stmtTurn ih) ()
      show parseBuffer fs importDirs (parseFile fs importDirs (depth + 1)) path contents n p
        = some x
      have hx' : parseBuffer fs importDirs (parseFile fs importDirs depth) path contents n p
          = some x := hx
      unfold parseBuffer at hx' ⊢
      cases hrun : parseStmts fs importDirs (parseFile fs importDirs depth) n
          (openFile p path contents) with
      | none =>
        rw [hrun] at hx'
        cases hx'
      | some out =>
        rw [hrun] at hx'
        rwa [hstmts n _ out hrun]

theorem le_parseFile {depth depth' : Nat} (h : depth ≤ depth') (path : String) :
    Le (parseFile fs importDirs depth path) (parseFile fs importDirs depth' path) := by
  induction h with
  | refl => exact Le.refl _
  | step _ ih => exact ih.trans (le_parseFile_succ _ path)

end

end Parser

/-! ## A tree of files -/

/-- Files that import each other. A path stands for the file of its canonical form; `goto` is the
file to which the import of a file leads. -/
structure SourceTree (fs : FileSystem) (importDirs : List String) where
  files : Finset String
  contents : String → List Char
  stmts : String → List Stmt
  goto : String → String → String
  read : ∀ path, fs.weaklyCanonical path ∈ files →
    fs.read path = some (contents (fs.weaklyCanonical path))
  written : ∀ f ∈ files, Parser.Contains (contents f) (stmts f)
  resolve : ∀ path, fs.weaklyCanonical path ∈ files →
    ∀ target semi, .import target semi ∈ stmts (fs.weaklyCanonical path) →
      fs.weaklyCanonical (fs.resolveImport importDirs path target)
        = goto (fs.weaklyCanonical path) target
  closed : ∀ f ∈ files, ∀ target semi, .import target semi ∈ stmts f → goto f target ∈ files

/-- An import. -/
def Syntax.Stmt.isImport : Stmt → Bool
  | .import _ _ => true
  | _ => false

def Ast.TopStmt.isImport : TopStmt → Bool
  | .importDecl _ => true
  | _ => false

namespace SourceTree

variable {fs : FileSystem} {importDirs : List String} (T : SourceTree fs importDirs)

/-- An import as the file to which it leads; every other statement is the file's own. -/
def item (f : String) : Stmt → Option String
  | .import target _ => some (T.goto f target)
  | _ => none

/-- The items of a file. -/
def body (f : String) : List (Option String) := (T.stmts f).map (T.item f)

/-- What is written in the file of a path. -/
def fileAt (path : String) : Option (List Stmt) :=
  if fs.weaklyCanonical path ∈ T.files then some (T.stmts (fs.weaklyCanonical path)) else none

/-- The own statements of the files, in the order in which they are read from `root` on. -/
def occurrences (root : String) : List (Occurrence String) :=
  ((visit T.body (T.files.card + 1) [] root []).map Prod.fst).getD []

/-- The statement at an occurrence. -/
def stmtAt (x : Occurrence String) : Option Stmt := (T.stmts x.file)[x.index]?

theorem closed_body {f : String} (hf : f ∈ T.files) {g : String} (hg : some g ∈ T.body f) :
    g ∈ T.files := by
  obtain ⟨s, hs, hitem⟩ := List.mem_map.mp hg
  cases s with
  | «import» target semi =>
    cases hitem
    exact T.closed f hf target semi hs
  | _ => cases hitem

/-! ## The files are flattened depth first -/

variable {T}

/-- The statements of a file from the `i`-th on. Induction on the statements. -/
theorem mergeStmts_of_visitItems
    {mergeFile : String → List String → Option (List Stmt × List String)}
    {visitFile : String → List String → Option (List (Occurrence String) × List String)}
    {path : String} {chain : List String} (hpath : fs.weaklyCanonical path ∈ T.files)
    (hfile : ∀ path, fs.weaklyCanonical path ∈ T.files → ∀ seen occ seen',
      visitFile (fs.weaklyCanonical path) seen = some (occ, seen') →
      ∃ w, mergeFile path seen = some (w, seen') ∧
        (w.filter fun s => !s.isImport).map some = occ.map T.stmtAt)
    {ss : List Stmt} {i : Nat} (hss : (T.stmts (fs.weaklyCanonical path)).drop i = ss)
    {seen : List String} {occ : List (Occurrence String)} {seen' : List String}
    (h : visitItems visitFile (fs.weaklyCanonical path) chain i
      (ss.map (T.item (fs.weaklyCanonical path))) seen = some (occ, seen')) :
    ∃ w, mergeStmts fs importDirs mergeFile path ss seen = some (w, seen') ∧
      (w.filter fun s => !s.isImport).map some = occ.map T.stmtAt := by
  induction ss generalizing i seen occ with
  | nil =>
    cases h
    exact ⟨[], rfl, rfl⟩
  | cons s ss ih =>
    obtain ⟨hs, hrest⟩ := DepthFirst.getElem?_of_drop_eq_cons hss
    rw [List.map_cons] at h
    by_cases himport : ∃ target semi, s = .import target semi
    · obtain ⟨target, semi, rfl⟩ := himport
      have hgoto := T.resolve path hpath target semi (List.mem_of_getElem? hs)
      have hclosed := T.closed _ hpath target semi (List.mem_of_getElem? hs)
      rw [← hgoto] at hclosed
      obtain ⟨sub, seen₁, rest, hsub, hvisit, rfl⟩ := DepthFirst.visitItems_include_iff.mp h
      rw [← hgoto] at hsub
      obtain ⟨w₁, hmerge₁, hw₁⟩ := hfile _ hclosed seen sub seen₁ hsub
      obtain ⟨w₂, hmerge₂, hw₂⟩ := ih hrest hvisit
      refine ⟨w₁ ++ .import target semi :: w₂, ?_, ?_⟩
      · simp only [mergeStmts, hmerge₁, hmerge₂, Option.bind_eq_bind, Option.bind_some,
          Option.pure_def]
      · rw [List.filter_append, List.filter_cons_of_neg (by simp [Stmt.isImport]),
          List.map_append, hw₁, hw₂, List.map_append]
    · have hno : ∀ target semi, s ≠ .import target semi :=
        fun target semi heq => himport ⟨target, semi, heq⟩
      have hitem : T.item (fs.weaklyCanonical path) s = none ∧ s.isImport = false := by
        cases s with
        | «import» target semi => exact absurd rfl (hno target semi)
        | _ => exact ⟨rfl, rfl⟩
      rw [hitem.1] at h
      obtain ⟨rest, hvisit, rfl⟩ := DepthFirst.visitItems_own_iff.mp h
      obtain ⟨w, hmerge, hw⟩ := ih hrest hvisit
      refine ⟨s :: w, ?_, ?_⟩
      · rw [mergeStmts]
        · simp only [hmerge, Option.bind_eq_bind, Option.bind_some, Option.pure_def]
        · exact hno
      · rw [List.filter_cons_of_pos (by simp [hitem.2]), List.map_cons, hw, List.map_cons]
        exact congrArg (· :: _) hs.symm

/-- **The merged files.** Induction on the depth. -/
theorem merge_of_visit {depth : Nat} {chain : List String} {path : String}
    (hpath : fs.weaklyCanonical path ∈ T.files) {seen : List String}
    {occ : List (Occurrence String)} {seen' : List String}
    (h : visit T.body depth chain (fs.weaklyCanonical path) seen = some (occ, seen')) :
    ∃ w, merge fs importDirs T.fileAt depth path seen = some (w, seen') ∧
      (w.filter fun s => !s.isImport).map some = occ.map T.stmtAt := by
  induction depth generalizing chain path seen occ seen' with
  | zero => cases h
  | succ depth ih =>
    unfold visit at h
    unfold merge
    by_cases hseen : fs.weaklyCanonical path ∈ seen
    · rw [if_pos hseen] at h
      cases h
      exact ⟨[], if_pos hseen, rfl⟩
    · rw [if_neg hseen] at h
      obtain ⟨w, hmerge, hw⟩ := mergeStmts_of_visitItems (T := T) hpath
        (fun path hpath seen occ seen' hvisit => ih hpath hvisit) List.drop_zero h
      refine ⟨w, ?_, hw⟩
      simp only [if_neg hseen, fileAt, if_pos hpath, Option.bind_eq_bind, Option.bind_some, hmerge]

/-! ## What the module contains -/

/-- An import gives an import, and no other statement does. -/
theorem isImport_of_gives {s : Stmt} {out : List TopStmt} (h : s.Gives out) :
    ∀ x ∈ out, x.isImport = s.isImport := by
  intro x hx
  cases s with
  | decl d semi =>
    obtain ⟨body, rfl, -⟩ := h
    obtain ⟨y, -, rfl⟩ := List.mem_map.mp hx
    cases y <;> rfl
  | group g =>
    obtain ⟨d, rfl, -⟩ := h
    obtain rfl := List.mem_singleton.mp hx
    rfl
  | «import» target semi =>
    obtain ⟨y, rfl, hy⟩ := List.map_eq_singleton_iff.mp h
    obtain rfl := List.mem_singleton.mp hx
    cases x with
    | importDecl d => rfl
    | _ => nomatch hy
  | element e =>
    obtain ⟨y, rfl, hy⟩ := List.map_eq_singleton_iff.mp h
    obtain rfl := List.mem_singleton.mp hx
    cases x with
    | importDecl d => nomatch hy
    | _ => rfl

/-- The own statements among the statements of a module. Induction on the statements. -/
theorem own_of_gives {w : List Stmt} {outs : List (List TopStmt)}
    (h : List.Forall₂ Stmt.Gives w outs) :
    ∃ owns, List.Forall₂ Stmt.Gives (w.filter fun s => !s.isImport) owns ∧
      outs.flatten.filter (fun s => !s.isImport) = owns.flatten := by
  induction h with
  | nil => exact ⟨[], .nil, rfl⟩
  | @cons s out w outs hs _ ih =>
    obtain ⟨owns, hgives, howns⟩ := ih
    have hout := isImport_of_gives hs
    rw [List.flatten_cons, List.filter_append, howns]
    cases hk : s.isImport with
    | true =>
      have hnil : (out.filter fun s => !s.isImport) = [] :=
        List.filter_eq_nil_iff.mpr fun x hx => by simp [hout x hx, hk]
      refine ⟨owns, ?_, ?_⟩
      · rwa [List.filter_cons_of_neg (by simp [hk])]
      · rw [hnil, List.nil_append]
    | false =>
      have hall : (out.filter fun s => !s.isImport) = out :=
        List.filter_eq_self.mpr fun x hx => by simp [hout x hx, hk]
      refine ⟨out :: owns, ?_, ?_⟩
      · rw [List.filter_cons_of_pos (by simp [hk])]
        exact .cons hs hgives
      · rw [hall, List.flatten_cons]

variable (T)

/-- But for its imports, the module consists of what the statements at the occurrences give. -/
def Renders (occ : List (Occurrence String)) (m : Module) : Prop :=
  ∃ outs, List.Forall₂ (fun x out => ∃ s, T.stmtAt x = some s ∧ s.Gives out) occ outs ∧
    m.stmts.filter (fun s => !s.isImport) = outs.flatten

/-- The own statements of every file to which `root` leads, each once, in the order of the file. -/
structure Complete (root : String) (occ : List (Occurrence String)) : Prop where
  mem : ∀ f i, (∃ c, ⟨f, i, c⟩ ∈ occ) ↔ LeadsTo T.body root f ∧ IsOwn T.body f i
  inOrder : InOrder occ

/-- The statements of an imported file come before the later ones of the file that imports it. -/
def ImportsFirst (occ : List (Occurrence String)) : Prop :=
  ∀ n x, occ[n]? = some x → ∀ i < x.index, ∀ g, Includes T.body x.file i g →
    AllIn T.body g (occ.take n)

/-- The same of the imported files that are not being read at the import; those that are being
read lead to the file. -/
structure OthersFirst (occ : List (Occurrence String)) : Prop where
  first : ∀ n x, occ[n]? = some x → ∀ i < x.index, ∀ g, Includes T.body x.file i g →
    g ∉ x.chain → AllIn T.body g (occ.take n)
  leads : ∀ x ∈ occ, ∀ h ∈ x.chain, LeadsTo T.body h x.file

variable {T}

/-- The statements of the merged files render the occurrences. -/
theorem renders_of_gives {w : List Stmt} {occ : List (Occurrence String)} {m : Module}
    {outs : List (List TopStmt)}
    (hown : (w.filter fun s => !s.isImport).map some = occ.map T.stmtAt)
    (hgives : List.Forall₂ Stmt.Gives w outs) (hstmts : m.stmts = outs.flatten) :
    T.Renders occ m := by
  obtain ⟨owns, howns, hflat⟩ := own_of_gives hgives
  refine ⟨owns, ?_, by rw [hstmts, hflat]⟩
  have hmap : List.Forall₂ (fun s out => ∃ y, s = some y ∧ y.Gives out)
      (occ.map T.stmtAt) owns := by
    rw [← hown]
    exact List.forall₂_map_left_iff.mpr (howns.imp fun y out hy => ⟨y, rfl, hy⟩)
  exact List.forall₂_map_left_iff.mp hmap

theorem fileAt_written {path : String} {ss : List Stmt} (h : T.fileAt path = some ss) :
    ∃ contents, fs.read path = some contents ∧ Parser.Contains contents ss := by
  rw [fileAt, Option.ite_none_right_eq_some] at h
  obtain ⟨hpath, heq⟩ := h
  cases heq
  exact ⟨_, T.read path hpath, T.written _ hpath⟩

/-- **Imports.** The parser ends, however the files import each other, and gives the own statements
of all files that are reached, each once. -/
theorem parseFile_merges {root : String} (hroot : fs.weaklyCanonical root ∈ T.files) :
    ∃ m q, (∀ depth, T.files.card < depth →
        Yields (Parser.parseFile fs importDirs depth root) {} (some m) q) ∧
      T.Renders (T.occurrences (fs.weaklyCanonical root)) m ∧
      T.Complete (fs.weaklyCanonical root) (T.occurrences (fs.weaklyCanonical root)) ∧
      T.OthersFirst (T.occurrences (fs.weaklyCanonical root)) := by
  have hcard : DepthFirst.unseen T.files [] < T.files.card + 1 :=
    Nat.lt_succ_of_le (Finset.card_filter_le _ _)
  obtain ⟨occ, seen, hvisit, -⟩ :=
    DepthFirst.exists_visit (fun f hf g hg => T.closed_body hf hg) [] hroot hcard
  have hocc : T.occurrences (fs.weaklyCanonical root) = occ := by
    rw [occurrences, hvisit]
    rfl
  obtain ⟨w, hmerge, hown⟩ := merge_of_visit hroot hvisit
  obtain ⟨m, q, outs, hrun, -, -, hgives, hstmts⟩ :=
    Parser.delivers_parseFile (fun path ss h => fileAt_written h) hmerge {} rfl
  have hv := DepthFirst.visited hvisit
  rw [hocc]
  refine ⟨m, q, fun depth hdepth => (Parser.le_parseFile hdepth root).yields hrun,
    renders_of_gives hown hgives hstmts, ⟨fun f i => ?_, hv.inOrder⟩,
    ⟨fun n x hx i hi g hg hopen => ?_, fun x hx h hh => ?_⟩⟩
  · rw [hv.mem, DepthFirst.mem_seen_iff hvisit]
    simp only [List.not_mem_nil, not_false_eq_true, true_and]
  · exact (hv.inFront n x hx i hi g hg hopen).resolve_left List.not_mem_nil
  · exact (hv.chain_leads x hx h hh).resolve_left List.not_mem_nil

/-- Two files that import each other before a statement of their own: neither statement can come
before the other. -/
theorem not_importsFirst {root f g : String} {i j i' j' : Nat} (hroot : LeadsTo T.body root f)
    (hf : IsOwn T.body f i) (hg : IsOwn T.body g j) (hi : i' < i) (hj : j' < j)
    (hfg : Includes T.body f i' g) (hgf : Includes T.body g j' f)
    {occ : List (Occurrence String)} (hocc : T.Complete root occ) : ¬ T.ImportsFirst occ := by
  intro hfirst
  obtain ⟨c, hc⟩ := (hocc.mem f i).mpr ⟨hroot, hf⟩
  obtain ⟨n, hn⟩ := List.mem_iff_getElem?.mp hc
  -- the statement of `g` comes before that of `f`, and one of `f` comes before it
  obtain ⟨d, hd⟩ := hfirst n _ hn i' hi g hfg j hg
  obtain ⟨k, hk⟩ := List.mem_iff_getElem?.mp hd
  rw [List.getElem?_take, Option.ite_none_right_eq_some] at hk
  obtain ⟨hkn, hk⟩ := hk
  obtain ⟨e, he⟩ := hfirst k _ hk j' hj f hgf i hf
  obtain ⟨l, hl⟩ := List.mem_iff_getElem?.mp he
  rw [List.getElem?_take, Option.ite_none_right_eq_some] at hl
  obtain ⟨hlk, hl⟩ := hl
  have hln : l < n := Nat.lt_trans hlk hkn
  obtain ⟨hn', hgetn⟩ := List.getElem?_eq_some_iff.mp hn
  obtain ⟨hl', hgetl⟩ := List.getElem?_eq_some_iff.mp hl
  have hlt := List.pairwise_iff_getElem.mp hocc.inOrder l n hl' hn' hln
  rw [hgetn, hgetl] at hlt
  exact absurd (hlt rfl) (Nat.lt_irrefl i)

end SourceTree

/-! ## Two files that import each other -/

/-- An import, and an element. -/
def loopStmts (target name : String) : List Stmt := [
  .import target true,
  .element { name := name, ports := some (.ofNat 1, .ofNat 1), sections := [] }]

def importLoop (f : String) : List Stmt :=
  if f = "a.clnp" then loopStmts "b.clnp" "A" else loopStmts "a.clnp" "B"

def loopText (f : String) : List Char := textOf (spread ((importLoop f).flatMap Stmt.lexemes)) ++ []

def loopFiles : Finset String := {"a.clnp", "b.clnp"}

def loopFs : FileSystem where
  weaklyCanonical := id
  isAbsolute := fun _ => false
  isFile := fun path => path ∈ loopFiles
  parentPath := fun _ => ""
  join := fun _ target => target
  read := fun path => if path ∈ loopFiles then some (loopText path) else none

theorem contains_loop {f : String} (hf : f ∈ loopFiles) :
    Parser.Contains (loopText f) (importLoop f) := by
  have hvalid : ∀ target name, ∀ x ∈ loopStmts target name, x.Valid := by
    intro target name x hx
    simp only [loopStmts, List.mem_cons, List.not_mem_nil, or_false] at hx
    rcases hx with rfl | rfl
    · trivial
    · exact nofun
  simp only [loopFiles, Finset.mem_insert, Finset.mem_singleton] at hf
  rcases hf with rfl | rfl
  · exact contains_spread (hvalid _ _) (by decide)
  · exact contains_spread (hvalid _ _) (by decide)

theorem import_of_mem_loop {f target : String} {semi : Bool}
    (h : .import target semi ∈ importLoop f) :
    target ∈ loopFiles := by
  unfold importLoop loopStmts at h
  split at h
  · simp only [List.mem_cons, Stmt.import.injEq, reduceCtorEq, List.not_mem_nil, or_false] at h
    rw [h.1]
    decide
  · simp only [List.mem_cons, Stmt.import.injEq, reduceCtorEq, List.not_mem_nil, or_false] at h
    rw [h.1]
    decide

theorem resolve_loop {path target : String} (hpath : path ∈ loopFiles)
    (htarget : target ∈ loopFiles) :
    loopFs.resolveImport [] path target = target := by
  have hne : ∀ f ∈ loopFiles, f ≠ "" := by decide
  unfold FileSystem.resolveImport
  rw [if_neg (hne target htarget), if_neg (by simp [loopFs]),
    if_pos ⟨hne path hpath, decide_eq_true htarget⟩]
  rfl

def loopTree : SourceTree loopFs [] where
  files := loopFiles
  contents := loopText
  stmts := importLoop
  goto := fun _ target => target
  read := fun _ hpath => if_pos hpath
  written := fun _ hf => contains_loop hf
  resolve := fun _ hpath _ _ himport => resolve_loop hpath (import_of_mem_loop himport)
  closed := fun _ _ _ _ himport => import_of_mem_loop himport

theorem loop_merges : ∃ m q, Yields (Parser.parseFile loopFs [] 3 "a.clnp") {} (some m) q ∧
    loopTree.Renders [⟨"b.clnp", 1, ["b.clnp", "a.clnp"]⟩, ⟨"a.clnp", 1, ["a.clnp"]⟩] m := by
  have hroot : loopFs.weaklyCanonical "a.clnp" ∈ loopTree.files := by decide
  obtain ⟨m, q, hrun, hrenders, -, -⟩ := SourceTree.parseFile_merges hroot
  exact ⟨m, q, hrun 3 (by decide), hrenders⟩

/-- Whatever comes out of the two files, it is not both complete and in the order of the
imports. -/
theorem cycle_unordered : ¬ ∃ m q,
    (∀ depth, loopFiles.card < depth →
      Yields (Parser.parseFile loopFs [] depth "a.clnp") {} (some m) q) ∧
    ∃ occ, loopTree.Renders occ m ∧ loopTree.Complete "a.clnp" occ ∧
      loopTree.ImportsFirst occ := by
  rintro ⟨m, q, -, occ, -, hcomplete, hfirst⟩
  have howna : IsOwn loopTree.body "a.clnp" 1 := rfl
  have hownb : IsOwn loopTree.body "b.clnp" 1 := rfl
  exact SourceTree.not_importsFirst .refl howna hownb Nat.one_pos Nat.one_pos rfl rfl hcomplete
    hfirst

end OpenClickNP
