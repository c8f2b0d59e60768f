import OpenClickNP.Compiler.KernelNames
import OpenClickNP.Compiler.Printing

/-!
# Inline instances

An inline instance of a chain is named twice: the parser names it after the place where it
stands, and joins the connections of the chain under that name; the resolver counts, and names the
kernel after its counter. The two names are never equal (`anonName_ne_autoName`), so an inline
instance is joined to nothing. Only a chain without an arrow can have one
(`inline_joined_iff`).
-/

namespace OpenClickNP

open Ast Eg QualifiedName Syntax OpenClickNP.Parser Production

/-! ## What a chain should build -/

/-- The inline nodes, each with its type and its name among `names`. -/
def inlineKernels : List Node → List String → List (String × String)
  | .named _ :: nodes, _ :: names => inlineKernels nodes names
  | .inline type _ :: nodes, name :: names => (type, name) :: inlineKernels nodes names
  | _, _ => []

/-- The pairs of neighbours. -/
def wires (names : List String) : List (String × String) := names.zip names.tail

/-- Between `r` and `r'` the resolver has built the chain, with `names` for its nodes: one kernel
for each inline node, and one edge for each arrow, between the nodes that the arrow joins. -/
structure ChainBuilt (c : Chain) (r r' : Resolver) (names : List String) : Prop where
  named : List.Forall₂ (fun n name => n.isNamed = true → name = n.word) c.nodes names
  kernels : ∃ ks, r'.graph.kernels = r.graph.kernels ++ ks ∧
    ks.map (fun k => (k.type, k.name)) = inlineKernels c.nodes names
  edges : ∃ es, r'.graph.edges = r.graph.edges ++ es ∧
    es.map (fun e => (e.srcKernel, e.dstKernel)) = wires names

/-- The resolver takes the statements from `r` to `r'`, and builds each chain among them; `names`
are those of the inline nodes. -/
inductive Builds (fuel : Nat) : Resolver → List (Stmt × List TopStmt) → List String → Resolver →
    Prop
  | nil (r : Resolver) : Builds fuel r [] [] r
  | chain {r r₁ r' : Resolver} {c : Chain} {semi : Bool} {out : List TopStmt}
    {items : List (Stmt × List TopStmt)} {names rest : List String}
    (hrun : out.foldlM (Resolver.processTop fuel) r = some r₁) (hbuilt : ChainBuilt c r r₁ names)
    (hrest : Builds fuel r₁ items rest r') :
    Builds fuel r ((.decl (.chain c) semi, out) :: items)
      ((inlineKernels c.nodes names).map Prod.snd ++ rest) r'
  | other {r r₁ r' : Resolver} {x : Stmt} {out : List TopStmt}
    {items : List (Stmt × List TopStmt)} {names : List String}
    (hother : ∀ c semi, x ≠ .decl (.chain c) semi)
    (hrun : out.foldlM (Resolver.processTop fuel) r = some r₁)
    (hrest : Builds fuel r₁ items names r') : Builds fuel r ((x, out) :: items) names r'

/-- The two errors about a node that is not there. -/
def AboutNode (n : String) (msg : String) : Prop :=
  msg = "unknown source node \x60" ++ n ++ "\x60" ∨
    msg = "unknown destination node \x60" ++ n ++ "\x60"

/-- The module has been read from the statements `w`, and the resolver has made the graph of it,
with the diagnostics `d`. Each chain has been built; no two inline nodes have one name; and the
diagnostics that come after the last statement are not about inline nodes. -/
def InlineJoined (fuel : Nat) (w : List Stmt) (m : Module) (diags d : DiagnosticEngine) : Prop :=
  ∃ items names r', items.map Prod.fst = w ∧ (∀ i ∈ items, i.1.Gives i.2) ∧
    m.stmts = items.flatMap Prod.snd ∧
    Builds fuel (m.stmts.foldl Resolver.collectDecl { diags := diags }) items names r' ∧
    names.Nodup ∧
    ∃ ds, d.diags = r'.diags.diags ++ ds ∧ ∀ x ∈ ds, ∀ n ∈ names, ¬ AboutNode n x.message

/-! ## The two names -/

theorem anonName_ne_autoName (type type' : String) (loc : SourceLoc) (k : Nat) :
    anonName type loc ≠ autoName type' k := by
  intro h
  have hnumbered : numbered (type ++ "__anon_" ++ toString loc.line.toNat) "_" loc.column.toNat
      = numbered type' "__anon_" k := h
  have hcol : "_".toList.getLast? = some '_' := by decide
  have hanon : "__anon_".toList.getLast? = some '_' := by decide
  have hstem := (numbered_split hcol rfl hanon rfl hnumbered).1
  have hrev := congrArg (fun s : String => s.toList.reverse) hstem
  -- in front of the last underscore there is a digit of the line on one side, an `n` on the other
  obtain ⟨c, w, hcw⟩ : ∃ c w, (toString loc.line.toNat).toList.reverse = c :: w := by
    refine List.exists_cons_of_ne_nil fun hnil => ?_
    rw [Nat.toString_eq_repr, Nat.toList_repr, List.reverse_eq_nil_iff] at hnil
    exact Nat.toDigits_ne_nil hnil
  have hdigit : c.isDigit = true := by
    have hmem : c ∈ (toString loc.line.toNat).toList := by
      rw [← List.mem_reverse, hcw]
      exact List.mem_cons_self
    rw [Nat.toString_eq_repr, Nat.toList_repr] at hmem
    exact Lexer.mem_toDigits hmem
  simp only [String.toList_append, List.reverse_append, hcw, List.append_assoc] at hrev
  have htag : "__anon_".toList.reverse = '_' :: 'n' :: ['o', 'n', 'a', '_', '_'] := by decide
  have hone : "_".toList.reverse = ['_'] := by decide
  rw [htag, hone] at hrev
  have hc : c = 'n' := (List.cons.inj (List.cons.inj hrev).2).1
  rw [hc] at hdigit
  exact absurd hdigit (by decide)

/-- The names that the resolver gives the nodes, when it has counted to `k`. -/
def resolverNames : Nat → List Node → List String
  | _, [] => []
  | k, .named x :: nodes => x :: resolverNames k nodes
  | k, .inline type _ :: nodes => autoName type k :: resolverNames (k + 1) nodes

section
variable {nodes : List Node} {names : List String}

theorem resolverNames_named (k : Nat) (nodes : List Node) :
    List.Forall₂ (fun n name => n.isNamed = true → name = n.word) nodes
      (resolverNames k nodes) := by
  induction nodes generalizing k with
  | nil => exact .nil
  | cons n nodes ih =>
    cases n with
    | named x => exact .cons (fun _ => rfl) (ih k)
    | inline type args => exact .cons nofun (ih (k + 1))

/-- The kernels and the names written settle all names. -/
theorem names_unique {names' : List String}
    (h : List.Forall₂ (fun n name => n.isNamed = true → name = n.word) nodes names)
    (h' : List.Forall₂ (fun n name => n.isNamed = true → name = n.word) nodes names')
    (hsame : inlineKernels nodes names = inlineKernels nodes names') : names = names' := by
  induction nodes generalizing names names' with
  | nil =>
    cases h
    cases h'
    rfl
  | cons n nodes ih =>
    cases h with
    | cons hn hrest =>
      cases h' with
      | cons hn' hrest' =>
        cases n with
        | named x => rw [hn rfl, hn' rfl, ih hrest hrest' hsame]
        | inline type args =>
          obtain ⟨hhead, htail⟩ := List.cons.inj hsame
          rw [(Prod.mk.inj hhead).2, ih hrest hrest' htail]

/-- The ends of two or more nodes are all named by the wires. -/
theorem wires_inj {a b : String} {as bs : List String} (hlen : as.length = bs.length)
    (hne : as ≠ []) (h : wires (a :: as) = wires (b :: bs)) : a :: as = b :: bs := by
  induction as generalizing a b bs with
  | nil => exact absurd rfl hne
  | cons a' as ih =>
    cases bs with
    | nil => nomatch hlen
    | cons b' bs =>
      obtain ⟨hhead, htail⟩ := List.cons.inj h
      have ha := (Prod.mk.inj hhead).1
      cases as with
      | nil =>
        obtain rfl : bs = [] := List.length_eq_zero_iff.mp (by simpa using hlen.symm)
        rw [ha, (Prod.mk.inj hhead).2]
      | cons a'' as => rw [ha, ih (by simpa using hlen) (List.cons_ne_nil _ _) htail]

end

/-! ## What the resolver builds -/

/-- The tables stay those of `m`, the counter does not go back, and kernels are only added. -/
structure Grows (m : Module) (r r' : Resolver) : Prop where
  tables : Tables m r'
  counter : r.anonCounter ≤ r'.anonCounter
  kernels : ∃ ks, r'.graph.kernels = r.graph.kernels ++ ks

section
variable {m : Module} {r r' r'' : Resolver} {fuel : Nat}

theorem Grows.refl (h : Tables m r) : Grows m r r :=
  ⟨h, le_rfl, [], (List.append_nil _).symm⟩

theorem Grows.trans (h : Grows m r r') (h' : Grows m r' r'') : Grows m r r'' := by
  obtain ⟨ks, hks⟩ := h.kernels
  obtain ⟨ks', hks'⟩ := h'.kernels
  exact ⟨h'.tables, h.counter.trans h'.counter, ks ++ ks', by rw [hks', hks, List.append_assoc]⟩

theorem grows_processTop (hr : Tables m r) {s : TopStmt}
    (h : Resolver.processTop fuel r s = some r') : Grows m r r' := by
  cases s with
  | instanceDecl d =>
    have hrun : Resolver.processInstance fuel (placed none r d).2 (placed none r d).1 = some r' := h
    obtain ⟨os, hocc, ks, hks, -⟩ := adds_processInstance hr hrun
    exact ⟨hr.extends (extends_processInstance h), (autoNumbered_occurrences hocc).1, ks, hks⟩
  | connectionDecl c =>
    cases h
    exact ⟨hr, le_rfl, [], (List.append_nil _).symm⟩
  | _ =>
    cases h
    exact Grows.refl hr

theorem grows_run (hr : Tables m r) {stmts : List TopStmt}
    (h : stmts.foldlM (Resolver.processTop fuel) r = some r') : Grows m r r' := by
  induction stmts generalizing r with
  | nil =>
    cases h
    exact Grows.refl hr
  | cons s stmts ih =>
    rw [List.foldlM_cons] at h
    obtain ⟨r₁, hstep, hrest⟩ := Option.bind_eq_some_iff.mp h
    have hgrows := grows_processTop hr hstep
    exact hgrows.trans (ih hgrows.tables hrest)

/-- `r'` has one kernel more for each type and name in `made`, one edge more for each pair of
`joined`, and has counted the kernels. -/
structure Makes (r r' : Resolver) (made joined : List (String × String)) : Prop where
  kernels : ∃ ks, r'.graph.kernels = r.graph.kernels ++ ks ∧
    ks.map (fun k => (k.type, k.name)) = made
  edges : ∃ es, r'.graph.edges = r.graph.edges ++ es ∧
    es.map (fun e => (e.srcKernel, e.dstKernel)) = joined
  counter : r'.anonCounter = r.anonCounter + made.length

theorem Makes.refl (r : Resolver) : Makes r r [] [] :=
  ⟨⟨[], (List.append_nil _).symm, rfl⟩, ⟨[], (List.append_nil _).symm, rfl⟩, rfl⟩

theorem Makes.trans {ks ks' es es' : List (String × String)} (h : Makes r r' ks es)
    (h' : Makes r' r'' ks' es') : Makes r r'' (ks ++ ks') (es ++ es') := by
  obtain ⟨⟨k, hk, hks⟩, ⟨e, he, hes⟩, hcount⟩ := h
  obtain ⟨⟨k', hk', hks'⟩, ⟨e', he', hes'⟩, hcount'⟩ := h'
  refine ⟨⟨k ++ k', ?_, ?_⟩, ⟨e ++ e', ?_, ?_⟩, ?_⟩
  · rw [hk', hk, List.append_assoc]
  · rw [List.map_append, hks, hks']
  · rw [he', he, List.append_assoc]
  · rw [List.map_append, hes, hes']
  · rw [hcount', hcount, List.length_append, Nat.add_assoc]

/-- An anonymous instance of an element. -/
theorem makes_instance (hr : Tables m r) {d : InstanceDecl} (hanon : d.anonymous = true)
    (helement : ((HandInline.declared m).elemDecls.lookup d.type).isSome = true)
    (h : Resolver.processTop fuel r (.instanceDecl d) = some r') :
    Makes r r' [(d.type, autoName d.type r.anonCounter)] [] := by
  obtain ⟨decl, hdecl⟩ := Option.isSome_iff_exists.mp helement
  rw [← hr.1] at hdecl
  cases fuel with
  | zero => nomatch h
  | succ fuel =>
    simp only [Resolver.processTop, Resolver.processInstance, hdecl, Option.some.injEq] at h
    subst h
    obtain ⟨hkernels, hcounter⟩ := kernels_emitKernel r decl d
    rw [if_pos hanon] at hkernels hcounter
    refine ⟨⟨_, hkernels, rfl⟩, ⟨[], ?_, rfl⟩, hcounter⟩
    rw [List.append_nil]
    unfold Resolver.emitKernelFromInstance
    rw [if_pos hanon]
    rfl

theorem makes_connection (c : ConnectionDecl) :
    Makes r (r.addConnection c "") [] [(c.source.nodeName, c.dest.nodeName)] := by
  refine ⟨⟨[], (List.append_nil _).symm, rfl⟩, ⟨[Resolver.edgeOf c ""], rfl, ?_⟩, rfl⟩
  simp [Resolver.edgeOf]

/-- Every inline node is of a declared element type. -/
def Declared (m : Module) (nodes : List Node) : Prop :=
  ∀ type args, .inline type args ∈ nodes →
    ((HandInline.declared m).elemDecls.lookup type).isSome = true

/-- The statement of a node. -/
theorem makes_node (hr : Tables m r) {n : Node} {name : String} (hdecl : Declared m [n])
    {body : List GroupStmt} (hbody : body.map GroupStmt.bare = n.stmts name)
    (h : (body.map topOf).foldlM (Resolver.processTop fuel) r = some r') :
    Makes r r' (inlineKernels [n] (resolverNames r.anonCounter [n])) [] := by
  cases n with
  | named x =>
    obtain rfl : body = [] := List.map_eq_nil_iff.mp hbody
    cases h
    exact Makes.refl r
  | inline type args =>
    obtain ⟨x, rfl, hx⟩ := List.map_eq_singleton_iff.mp hbody
    cases x with
    | connectionDecl c => nomatch hx
    | instanceDecl d =>
      have hd := GroupStmt.instanceDecl.inj hx
      have htype : d.type = type := congrArg InstanceDecl.type hd
      have hanon : d.anonymous = true := congrArg InstanceDecl.anonymous hd
      subst htype
      have hrun : Resolver.processTop fuel r (.instanceDecl d) = some r' := by
        simpa [topOf] using h
      exact makes_instance hr hanon (hdecl _ _ List.mem_cons_self) hrun

theorem resolverNames_cons (k : Nat) (n : Node) (nodes : List Node) :
    inlineKernels (n :: nodes) (resolverNames k (n :: nodes))
      = inlineKernels [n] (resolverNames k [n]) ++
        inlineKernels nodes (resolverNames (k + (inlineKernels [n] (resolverNames k [n])).length)
          nodes) := by
  cases n <;> rfl

theorem run_append {xs ys : List TopStmt} {r₁ : Resolver}
    (h : (xs ++ ys).foldlM (Resolver.processTop fuel) r = some r₁) :
    ∃ r', xs.foldlM (Resolver.processTop fuel) r = some r' ∧
      ys.foldlM (Resolver.processTop fuel) r' = some r₁ := by
  rw [List.foldlM_append] at h
  exact Option.bind_eq_some_iff.mp h

/-- The links of a chain behind the node `a`, whose own names are `names`. -/
theorem makes_links (hr : Tables m r) {links : List Link} {source : ConnEnd} {names : List String}
    (hdecl : Declared m (links.map Link.node)) (hlen : links.length = names.length)
    {body : List GroupStmt} (hbody : body.map GroupStmt.bare = Chain.linkStmts source links names)
    (h : (body.map topOf).foldlM (Resolver.processTop fuel) r = some r') :
    Makes r r' (inlineKernels (links.map Link.node)
      (resolverNames r.anonCounter (links.map Link.node))) (wires (source.nodeName :: names)) := by
  induction links generalizing r source names body with
  | nil =>
    obtain rfl : names = [] := List.length_eq_zero_iff.mp hlen.symm
    obtain rfl : body = [] := List.map_eq_nil_iff.mp hbody
    cases h
    exact Makes.refl _
  | cons l links ih =>
    cases names with
    | nil => nomatch hlen
    | cons name names =>
      -- the instance of the node, the connection to it, and the links behind
      obtain ⟨node, behind, rfl, hnode, hbehind⟩ := List.map_eq_append_iff.mp hbody
      obtain ⟨x, rest, rfl, hx, hrest⟩ := List.map_eq_cons_iff.mp hbehind
      cases x with
      | instanceDecl d => nomatch hx
      | connectionDecl c =>
        have hc := GroupStmt.connectionDecl.inj hx
        have hsource : c.source.nodeName = source.nodeName :=
          congrArg (fun c : ConnectionDecl => c.source.nodeName) hc
        have hdest : c.dest.nodeName = name :=
          congrArg (fun c : ConnectionDecl => c.dest.nodeName) hc
        rw [List.map_append, List.map_cons] at h
        obtain ⟨r₁, hrun, hrun'⟩ := run_append h
        have hfirst := makes_node hr (n := l.node)
          (fun type args ht => hdecl type args (by
            rw [List.mem_singleton.mp ht]
            exact List.mem_cons_self)) hnode hrun
        have hconn : Makes r₁ (r₁.addConnection c "") [] [(source.nodeName, name)] := by
          rw [← hsource, ← hdest]
          exact makes_connection c
        have htables := (grows_run hr hrun).tables
        have htail := ih (r := r₁.addConnection c "") htables
          (fun type args ht => hdecl type args (List.mem_cons_of_mem _ ht))
          (by simpa using hlen) hrest hrun'
        have hall := (hfirst.trans hconn).trans htail
        rw [show (r₁.addConnection c "").anonCounter = _ from hfirst.counter] at hall
        rw [List.map_cons, resolverNames_cons]
        simpa [wires] using hall

/-- **What the resolver builds for a chain**: its own names for the kernels, the names of the
parser for the ends of the edges. -/
theorem makes_chain (hr : Tables m r) {c : Chain} (hdecl : Declared m c.nodes)
    {body : List GroupStmt} (hgives : (Decl.chain c).Gives body)
    (h : (body.map topOf).foldlM (Resolver.processTop fuel) r = some r') :
    ∃ names, Chain.Named c.nodes names ∧
      Makes r r' (inlineKernels c.nodes (resolverNames r.anonCounter c.nodes)) (wires names) := by
  obtain ⟨name, names, hnamed, hbody⟩ := hgives
  obtain ⟨node, rest, rfl, hnode, hrest⟩ := List.map_eq_append_iff.mp hbody
  rw [List.map_append] at h
  obtain ⟨r₁, hrun, hrun'⟩ := run_append h
  have hlen : c.links.length = names.length := by
    simpa using (List.forall₂_cons.mp hnamed).2.length_eq
  have hfirst := makes_node hr (n := c.first)
    (fun type args ht => hdecl type args (by
      rw [List.mem_singleton.mp ht]
      exact List.mem_cons_self)) hnode hrun
  have htail := makes_links (grows_run hr hrun).tables
    (fun type args ht => hdecl type args (List.mem_cons_of_mem _ ht)) hlen hrest hrun'
  have hall := hfirst.trans htail
  rw [hfirst.counter] at hall
  refine ⟨name :: names, hnamed, ?_⟩
  rw [Chain.nodes, resolverNames_cons]
  exact hall

/-! ## Chains that are built -/

theorem named_length {nodes : List Node} {names : List String} (h : Chain.Named nodes names) :
    nodes.length = names.length := List.Forall₂.length_eq h

/-- An inline node never has the name of the parser. -/
theorem resolverNames_ne {k : Nat} {nodes : List Node} {names : List String}
    (h : Chain.Named nodes names) (hsame : names = resolverNames k nodes) :
    ∀ n ∈ nodes, n.isNamed = true := by
  induction nodes generalizing k names with
  | nil => nofun
  | cons n nodes ih =>
    obtain ⟨name, rest, ⟨loc, rfl⟩, hrest, rfl⟩ := List.forall₂_cons_left_iff.mp h
    cases n with
    | named x =>
      have htail := ih hrest (List.cons.inj hsame).2
      intro n hn
      rcases List.mem_cons.mp hn with rfl | hn
      · rfl
      · exact htail n hn
    | inline type args => exact absurd (List.cons.inj hsame).1 (anonName_ne_autoName _ _ _ _)

theorem resolverNames_eq {k : Nat} {nodes : List Node} {names : List String}
    (h : Chain.Named nodes names) (hnamed : ∀ n ∈ nodes, n.isNamed = true) :
    names = resolverNames k nodes := by
  induction nodes generalizing names with
  | nil =>
    cases h
    rfl
  | cons n nodes ih =>
    obtain ⟨name, rest, ⟨loc, rfl⟩, hrest, rfl⟩ := List.forall₂_cons_left_iff.mp h
    cases n with
    | named x => rw [ih hrest fun n hn => hnamed n (List.mem_cons_of_mem _ hn)]; rfl
    | inline type args => nomatch hnamed _ List.mem_cons_self

/-- **One chain.** It is built, under the names of the resolver, exactly when it has no arrow or
no inline node. -/
theorem chainBuilt_iff {c : Chain} {names names' : List String}
    (hnamed : Chain.Named c.nodes names')
    (hmakes : Makes r r' (inlineKernels c.nodes (resolverNames r.anonCounter c.nodes))
      (wires names')) :
    ChainBuilt c r r' names ↔ names = resolverNames r.anonCounter c.nodes ∧
      (c.links ≠ [] → ∀ n ∈ c.nodes, n.isNamed = true) := by
  obtain ⟨ks, hks, hmade⟩ := hmakes.kernels
  obtain ⟨es, hes, hjoined⟩ := hmakes.edges
  have hresolver := resolverNames_named r.anonCounter c.nodes
  constructor
  · rintro ⟨hown, ⟨ks', hks', hkernels⟩, es', hes', hedges⟩
    obtain rfl : ks' = ks := List.append_cancel_left (hks'.symm.trans hks)
    obtain rfl : es' = es := List.append_cancel_left (hes'.symm.trans hes)
    have hnames := names_unique hown hresolver (hkernels.symm.trans hmade)
    refine ⟨hnames, fun hlinks => ?_⟩
    have hwires := hjoined.symm.trans hedges
    rw [hnames] at hwires
    -- with an arrow, the wires give all the names
    obtain ⟨first, rest, hfirst, hrest, rfl⟩ := List.forall₂_cons_left_iff.mp hnamed
    obtain ⟨first', rest', -, hrest', heq⟩ := List.forall₂_cons_left_iff.mp hresolver
    rw [heq] at hwires
    have hne : rest ≠ [] := by
      intro hnil
      have hlen := named_length hrest
      rw [hnil, List.length_map] at hlen
      exact hlinks (List.length_eq_zero_iff.mp hlen)
    have hlen : rest.length = rest'.length := hrest.length_eq.symm.trans hrest'.length_eq
    have hsame := wires_inj hlen hne hwires
    exact resolverNames_ne hnamed (hsame.trans heq.symm)
  · rintro ⟨rfl, hcond⟩
    refine ⟨hresolver, ⟨ks, hks, hmade⟩, es, hes, ?_⟩
    rw [hjoined]
    by_cases hlinks : c.links = []
    · -- one node, and nothing to join
      have hone : ∀ ns : List String, ns.length = 1 → wires ns = [] := by
        intro ns hns
        obtain ⟨x, rfl⟩ := List.length_eq_one_iff.mp hns
        rfl
      have hlen : c.nodes.length = 1 := by simp [Chain.nodes, hlinks]
      rw [hone names' ((named_length hnamed).symm.trans hlen),
        hone _ (hresolver.length_eq.symm.trans hlen)]
    · rw [← resolverNames_eq hnamed (hcond hlinks)]

/-! ## All chains of a module -/

/-- A made-up name, as an occurrence. -/
def anonymousOccurrence (n : String) : Occurrence := { name := n, anonymous := true }

theorem autoNumbered_nodes (k : Nat) (nodes : List Node) :
    AutoNumbered k (k + (inlineKernels nodes (resolverNames k nodes)).length)
      (((inlineKernels nodes (resolverNames k nodes)).map Prod.snd).map anonymousOccurrence) := by
  induction nodes generalizing k with
  | nil => exact AutoNumbered.nil k
  | cons n nodes ih =>
    cases n with
    | named x => exact ih k
    | inline type args =>
      have hone : AutoNumbered k (k + 1) [anonymousOccurrence (autoName type k)] := by
        refine ⟨Nat.le_succ k, fun o ho _ => ?_, List.pairwise_singleton _ _⟩
        rw [List.mem_singleton.mp ho]
        exact ⟨type, k, le_rfl, Nat.lt_succ_self k, rfl⟩
      have hall := hone.append (ih (k + 1))
      rw [Nat.add_assoc, Nat.add_comm 1] at hall
      exact hall

/-- The chains among the items. -/
def ChainsOk (items : List (Stmt × List TopStmt)) : Prop :=
  ∀ c semi out, (.decl (.chain c) semi, out) ∈ items → c.links ≠ [] →
    ∀ n ∈ c.nodes, n.isNamed = true

/-- The items give what is written, and inline nodes are of declared element types. -/
def ItemsOk (m : Module) (items : List (Stmt × List TopStmt)) : Prop :=
  ∀ i ∈ items, i.1.Gives i.2 ∧ ∀ c semi, i.1 = .decl (.chain c) semi → Declared m c.nodes

theorem ItemsOk.tail {i : Stmt × List TopStmt} {items : List (Stmt × List TopStmt)}
    (h : ItemsOk m (i :: items)) : ItemsOk m items :=
  fun j hj => h j (List.mem_cons_of_mem _ hj)

theorem makes_item (hr : Tables m r) {c : Chain} {semi : Bool} {out : List TopStmt}
    {items : List (Stmt × List TopStmt)} (hok : ItemsOk m ((.decl (.chain c) semi, out) :: items))
    (h : out.foldlM (Resolver.processTop fuel) r = some r') :
    ∃ names, Chain.Named c.nodes names ∧
      Makes r r' (inlineKernels c.nodes (resolverNames r.anonCounter c.nodes)) (wires names) := by
  obtain ⟨⟨body, rfl, hgives⟩, hdecl⟩ := hok _ List.mem_cons_self
  exact makes_chain hr (hdecl c semi rfl) hgives h

/-- **A run that builds every chain.** The chains are as they must be, and the names are numbered
and those of kernels. Induction on the run. -/
theorem Builds.facts {items : List (Stmt × List TopStmt)} {names : List String}
    (h : Builds fuel r items names r') (hr : Tables m r) (hok : ItemsOk m items) :
    ChainsOk items ∧ Grows m r r' ∧
      AutoNumbered r.anonCounter r'.anonCounter (names.map anonymousOccurrence) ∧
      ∀ n ∈ names, ∃ k ∈ r'.graph.kernels, k.name = n := by
  induction h with
  | nil r => exact ⟨nofun, Grows.refl hr, AutoNumbered.nil _, nofun⟩
  | @chain r r₁ r' c semi out items names rest hrun hbuilt hrest ih =>
    have hgrows := grows_run hr hrun
    obtain ⟨hchains, hgrows', hnumbered, hkernels⟩ := ih hgrows.tables hok.tail
    obtain ⟨names', hnamed, hmakes⟩ := makes_item hr hok hrun
    obtain ⟨rfl, hcond⟩ := (chainBuilt_iff hnamed hmakes).mp hbuilt
    refine ⟨?_, hgrows.trans hgrows', ?_, fun n hn => ?_⟩
    · intro c' semi' out' hmem
      rcases List.mem_cons.mp hmem with heq | hmem
      · cases heq
        exact hcond
      · exact hchains c' semi' out' hmem
    · rw [hmakes.counter] at hnumbered
      rw [List.map_append]
      exact (autoNumbered_nodes _ _).append hnumbered
    · rcases List.mem_append.mp hn with hn | hn
      · obtain ⟨ks, hks, hmade⟩ := hmakes.kernels
        rw [← hmade, List.map_map] at hn
        obtain ⟨k, hk, rfl⟩ := List.mem_map.mp hn
        obtain ⟨ks', hks'⟩ := hgrows'.kernels
        exact ⟨k, by rw [hks', hks]; simp [hk], rfl⟩
      · exact hkernels n hn
  | @other r r₁ r' x out items names hother hrun hrest ih =>
    have hgrows := grows_run hr hrun
    obtain ⟨hchains, hgrows', hnumbered, hkernels⟩ := ih hgrows.tables hok.tail
    refine ⟨?_, hgrows.trans hgrows', hnumbered.weaken hgrows.counter, hkernels⟩
    intro c semi out' hmem
    rcases List.mem_cons.mp hmem with heq | hmem
    · exact absurd (Prod.mk.inj heq).1.symm (hother c semi)
    · exact hchains c semi out' hmem

/-- The other way round: a run whose chains are as they must be builds them. -/
theorem builds_run {items : List (Stmt × List TopStmt)} (hr : Tables m r) (hok : ItemsOk m items)
    (hchains : ChainsOk items)
    (h : (items.flatMap Prod.snd).foldlM (Resolver.processTop fuel) r = some r') :
    ∃ names, Builds fuel r items names r' := by
  induction items generalizing r with
  | nil =>
    cases h
    exact ⟨[], .nil _⟩
  | cons i items ih =>
    obtain ⟨x, out⟩ := i
    rw [List.flatMap_cons] at h
    obtain ⟨r₁, hrun, hrest⟩ := run_append h
    obtain ⟨names, hbuilds⟩ := ih (grows_run hr hrun).tables hok.tail
      (fun c semi out hmem => hchains c semi out (List.mem_cons_of_mem _ hmem)) hrest
    by_cases hchain : ∃ c semi, x = .decl (.chain c) semi
    · obtain ⟨c, semi, rfl⟩ := hchain
      obtain ⟨names', hnamed, hmakes⟩ := makes_item hr hok hrun
      have hbuilt := (chainBuilt_iff hnamed hmakes).mpr
        ⟨rfl, hchains c semi out List.mem_cons_self⟩
      exact ⟨_, .chain hrun hbuilt hbuilds⟩
    · exact ⟨names, .other (fun c semi heq => hchain ⟨c, semi, heq⟩) hrun hbuilds⟩

end

/-! ## The errors about nodes -/

theorem aboutNode_inj {n n' msg : String} (h : AboutNode n msg) (h' : AboutNode n' msg) :
    n = n' := by
  -- the two messages differ at their ninth character
  have hhead : ∀ a b : String, ("unknown source node \x60" ++ a ++ "\x60")
      ≠ "unknown destination node \x60" ++ b ++ "\x60" := by
    intro a b heq
    have hchars := congrArg (fun s : String => s.toList[8]?) heq
    simp at hchars
  rcases h with rfl | rfl <;> rcases h' with h' | h'
  · simpa using h'
  · exact absurd h' (hhead _ _)
  · exact absurd h'.symm (hhead _ _)
  · simpa using h'

/-- `d'` has more diagnostics than `d`, all about names that no kernel has. -/
def Reports (g : Graph) (d d' : DiagnosticEngine) : Prop :=
  ∃ ds, d'.diags = d.diags ++ ds ∧
    ∀ x ∈ ds, ∃ n, Resolver.hasKernel g n = false ∧ AboutNode n x.message

theorem Reports.refl (g : Graph) (d : DiagnosticEngine) : Reports g d d :=
  ⟨[], (List.append_nil _).symm, nofun⟩

theorem Reports.trans {g : Graph} {d d' d'' : DiagnosticEngine} (h : Reports g d d')
    (h' : Reports g d' d'') : Reports g d d'' := by
  obtain ⟨ds, hds, hall⟩ := h
  obtain ⟨ds', hds', hall'⟩ := h'
  refine ⟨ds ++ ds', by rw [hds', hds, List.append_assoc], fun x hx => ?_⟩
  rcases List.mem_append.mp hx with hx | hx
  · exact hall x hx
  · exact hall' x hx

/-- The check of one end. -/
theorem reports_end {g : Graph} {d : DiagnosticEngine} {n msg : String} {src : SourceRange}
    (habout : AboutNode n msg) :
    Reports g d (if Resolver.hasKernel g n then d else d.error src msg) := by
  split
  · exact Reports.refl g d
  · rename_i hunknown
    refine ⟨_, rfl, fun x hx => ⟨n, by simpa using hunknown, ?_⟩⟩
    rw [List.mem_singleton.mp hx]
    exact habout

/-- The final pass only reports names that no kernel has. -/
theorem reports_checkEnds (g : Graph) (es : List Edge) (d : DiagnosticEngine) :
    Reports g d (es.foldl (Resolver.checkEnds g) d) := by
  induction es generalizing d with
  | nil => exact Reports.refl g d
  | cons e es ih => exact ((reports_end (.inl rfl)).trans (reports_end (.inr rfl))).trans (ih _)

theorem hasKernel_synthesize {r : Resolver} {n : String} (h : ∃ k ∈ r.graph.kernels, k.name = n) :
    Resolver.hasKernel r.synthesizeSpecials.graph n = true := by
  have hkept : ∀ (ns : List String) (g : Graph),
      g.kernels ⊆ (ns.foldl Resolver.addSpecial g).kernels := by
    intro ns
    induction ns with
    | nil => exact fun g => List.Subset.refl _
    | cons a ns ih =>
      intro g
      refine List.Subset.trans ?_ (ih (Resolver.addSpecial g a))
      unfold Resolver.addSpecial
      split
      · exact List.Subset.refl _
      · split
        · exact List.Subset.refl _
        · exact List.subset_append_left _ _
  obtain ⟨k, hk, rfl⟩ := h
  refine List.any_eq_true.mpr ⟨k, hkept _ _ hk, ?_⟩
  exact beq_self_eq_true _

/-! ## The module -/

section
variable {w : List Stmt} {outs : List (List TopStmt)} {m : Module} {fuel : Nat} {ok : Bool}
variable {diags d : DiagnosticEngine} {g : Graph}

theorem joined_iff (hgives : List.Forall₂ Stmt.Gives w outs) (hstmts : m.stmts = outs.flatten)
    (hdecl : ∀ c semi, .decl (.chain c) semi ∈ w → Declared m c.nodes)
    (hresolve : resolveModuleToGraph fuel m diags = some (ok, d, g)) :
    InlineJoined fuel w m diags d ↔ ∀ c semi, .decl (.chain c) semi ∈ w → c.links ≠ [] →
      ∀ n ∈ c.nodes, n.isNamed = true := by
  have hstart := tables_start m diags
  constructor
  · rintro ⟨items, names, r', rfl, hall, -, hbuilds, -⟩ c semi hmem
    obtain ⟨⟨x, out⟩, hi, rfl⟩ := List.mem_map.mp hmem
    have hok : ItemsOk m items := fun i hi => ⟨hall i hi, fun c semi heq =>
      hdecl c semi (heq ▸ List.mem_map_of_mem hi)⟩
    exact (hbuilds.facts hstart hok).1 c semi out hi
  · intro hchains
    have hlen := hgives.length_eq
    have hfst : (w.zip outs).map Prod.fst = w := List.map_fst_zip (Nat.le_of_eq hlen)
    have hsnd : (w.zip outs).map Prod.snd = outs := List.map_snd_zip (Nat.le_of_eq hlen.symm)
    have hall : ∀ i ∈ w.zip outs, i.1.Gives i.2 := by
      rintro ⟨x, out⟩ hi
      exact (List.forall₂_iff_zip.mp hgives).2 hi
    have hflat : m.stmts = (w.zip outs).flatMap Prod.snd := by
      rw [hstmts, List.flatMap_def, hsnd]
    have hmem : ∀ i ∈ w.zip outs, i.1 ∈ w := fun i hi => hfst ▸ List.mem_map_of_mem hi
    have hok : ItemsOk m (w.zip outs) := fun i hi => ⟨hall i hi, fun c semi heq =>
      hdecl c semi (heq ▸ hmem i hi)⟩
    obtain ⟨rf, hrf, -, rfl, -⟩ := resolver_of_resolves hresolve
    obtain ⟨names, hbuilds⟩ := builds_run hstart hok
      (fun c semi out hi => hchains c semi (hmem _ hi)) (by rw [← hflat]; exact hrf)
    obtain ⟨-, -, hnumbered, hkernels⟩ := hbuilds.facts hstart hok
    refine ⟨w.zip outs, names, rf, hfst, hall, hflat, hbuilds, ?_, ?_⟩
    · have hapart := hnumbered.2.2
      rw [List.pairwise_map] at hapart
      exact hapart.imp fun h => h rfl rfl
    · obtain ⟨ds, hds, hreports⟩ := reports_checkEnds rf.synthesizeSpecials.graph
        rf.synthesizeSpecials.graph.edges rf.diags
      refine ⟨ds, hds, fun x hx n hn habout => ?_⟩
      obtain ⟨n', hunknown, habout'⟩ := hreports x hx
      rw [aboutNode_inj habout' habout, hasKernel_synthesize (hkernels n hn)] at hunknown
      nomatch hunknown

end

/-! ## Declared elements -/

theorem name_apply (e : ElementDecl) (x : Section) : (x.apply e).name = e.name := by
  cases x <;> rfl

theorem name_decl (e : Element) : e.decl.name = e.name := by
  have hfold : ∀ (xs : List Section) (d : ElementDecl),
      (xs.foldl Section.apply d).name = d.name := by
    intro xs
    induction xs with
    | nil => exact fun _ => rfl
    | cons x xs ih => exact fun d => (ih _).trans (name_apply d x)
  exact hfold e.sections _

/-- A collected element stays. -/
theorem lookup_collect {stmts : List TopStmt} {r : Resolver} {type : String}
    (h : (r.elemDecls.lookup type).isSome = true ∨
      ∃ d, .elementDecl d ∈ stmts ∧ d.name = type) :
    ((stmts.foldl Resolver.collectDecl r).elemDecls.lookup type).isSome = true := by
  induction stmts generalizing r with
  | nil =>
    rcases h with h | ⟨d, hd, -⟩
    · exact h
    · nomatch hd
  | cons s stmts ih =>
    refine ih ?_
    rcases h with h | ⟨d, hd, hname⟩
    · left
      cases s with
      | elementDecl d =>
        simp only [Resolver.collectDecl, Resolver.collectElement]
        split
        · exact h
        · rw [List.lookup_append]
          simp [h]
      | elementGroupDecl d =>
        simp only [Resolver.collectDecl, Resolver.collectGroup]
        split <;> exact h
      | _ => exact h
    · rcases List.mem_cons.mp hd with rfl | hd
      · left
        subst hname
        simp only [Resolver.collectDecl, Resolver.collectElement]
        split
        · rename_i x hx
          rw [show (r.error d.src _).elemDecls.lookup d.name = some x from hx]
          rfl
        · rw [List.lookup_append]
          simp
      · exact Or.inr ⟨d, hd, hname⟩

section
variable {w : List Stmt} {m : Module} {fuel : Nat} {ok : Bool} {p : Parser}
variable {d : DiagnosticEngine} {g : Graph}

theorem exists_related {α β : Type} {R : α → β → Prop} {as : List α} {bs : List β}
    (h : List.Forall₂ R as bs) {a : α} (ha : a ∈ as) : ∃ b ∈ bs, R a b := by
  induction h with
  | nil => nomatch ha
  | cons hhead _ ih =>
    rcases List.mem_cons.mp ha with rfl | ha
    · exact ⟨_, List.mem_cons_self, hhead⟩
    · obtain ⟨b, hb, h⟩ := ih ha
      exact ⟨b, List.mem_cons_of_mem _ hb, h⟩

theorem declared_of_written {outs : List (List TopStmt)} (hgives : List.Forall₂ Stmt.Gives w outs)
    (hstmts : m.stmts = outs.flatten) {e : Element} (he : .element e ∈ w) :
    ((HandInline.declared m).elemDecls.lookup e.name).isSome = true := by
  refine lookup_collect (.inr ?_)
  obtain ⟨out, hout, hgive⟩ := exists_related hgives he
  obtain ⟨x, rfl, hx⟩ := List.map_eq_singleton_iff.mp hgive
  cases x with
  | elementDecl d =>
    refine ⟨d, ?_, ?_⟩
    · rw [hstmts]
      exact List.mem_flatten.mpr ⟨_, hout, List.mem_cons_self⟩
    · have hd : d.bare = e.decl := TopStmt.elementDecl.inj hx
      rw [← name_decl e, ← hd]
      rfl
  | _ => nomatch hx

/-- **Inline instances.** Read from its files and resolved, a program joins all its inline
instances exactly when no chain with an arrow has one. -/
theorem inline_joined_iff {fs : FileSystem} {importDirs : List String}
    {files : String → Option (List Stmt)} {depth : Nat} {path : String} {seen : List String}
    (hfiles : ∀ path ss, files path = some ss →
      ∃ contents, fs.read path = some contents ∧ Contains contents ss)
    (hmerge : merge fs importDirs files depth path [] = some (w, seen))
    (hparse : Yields (parseFile fs importDirs depth path) {} (some m) p)
    (hdecl : ∀ c semi, .decl (.chain c) semi ∈ w → ∀ type args, .inline type args ∈ c.nodes →
      ∃ e, .element e ∈ w ∧ e.name = type)
    (hresolve : resolveModuleToGraph fuel m p.diags = some (ok, d, g)) :
    InlineJoined fuel w m p.diags d ↔ ∀ c semi, .decl (.chain c) semi ∈ w → c.links ≠ [] →
      ∀ n ∈ c.nodes, n.isNamed = true := by
  obtain ⟨m', p', outs, hrun, -, -, hgives, hstmts⟩ := delivers_parseFile hfiles hmerge {} rfl
  obtain ⟨hm, -⟩ := hparse.unique hrun
  obtain rfl : m = m' := Option.some.inj hm
  refine joined_iff hgives hstmts (fun c semi hc type args hn => ?_) hresolve
  obtain ⟨e, he, rfl⟩ := hdecl c semi hc type args hn
  exact declared_of_written hgives hstmts he

end

/-! ## Two programs -/

/-- Without groups there is nothing to expand, and the resolver gives a result. -/
theorem resolve_isSome {m : Module} (hplain : ∀ g, .elementGroupDecl g ∉ m.stmts) (fuel : Nat)
    (diags : DiagnosticEngine) : (resolveModuleToGraph (fuel + 1) m diags).isSome = true := by
  have hcollect : ∀ (stmts : List TopStmt) (r : Resolver), (∀ g, .elementGroupDecl g ∉ stmts) →
      (stmts.foldl Resolver.collectDecl r).groupDecls = r.groupDecls := by
    intro stmts
    induction stmts with
    | nil => exact fun _ _ => rfl
    | cons s stmts ih =>
      intro r hno
      rw [List.foldl_cons, ih _ fun g hg => hno g (List.mem_cons_of_mem _ hg)]
      cases s with
      | elementGroupDecl g => exact absurd List.mem_cons_self (hno g)
      | elementDecl d =>
        simp only [Resolver.collectDecl, Resolver.collectElement]
        split <;> rfl
      | _ => rfl
  have hrun : ∀ (stmts : List TopStmt) (r : Resolver), r.groupDecls = [] →
      ∃ r', stmts.foldlM (Resolver.processTop (fuel + 1)) r = some r' := by
    intro stmts
    induction stmts with
    | nil => exact fun r _ => ⟨r, rfl⟩
    | cons s stmts ih =>
      intro r hr
      obtain ⟨r₁, hstep, hr₁⟩ : ∃ r₁, Resolver.processTop (fuel + 1) r s = some r₁ ∧
          r₁.groupDecls = [] := by
        cases s with
        | instanceDecl d =>
          simp only [Resolver.processTop, Resolver.processInstance, hr, List.lookup_nil]
          split
          · rename_i decl _
            exact ⟨_, rfl, (extends_emitKernel decl d "").groupDecls.trans hr⟩
          · exact ⟨_, rfl, hr⟩
        | connectionDecl c => exact ⟨_, rfl, hr⟩
        | _ => exact ⟨r, rfl, hr⟩
      obtain ⟨r', hrest⟩ := ih r₁ hr₁
      exact ⟨r', by rw [List.foldlM_cons, hstep]; exact hrest⟩
  obtain ⟨r', hr'⟩ := hrun m.stmts _ (hcollect m.stmts { diags := diags } hplain)
  simp [resolveModuleToGraph, Resolver.resolve, hr']

theorem not_group_of_gives {x : Stmt} {out : List TopStmt} (h : x.Gives out)
    (hx : ∀ g, x ≠ .group g) (g : ElementGroupDecl) : .elementGroupDecl g ∉ out := by
  intro hmem
  cases x with
  | group y => exact hx y rfl
  | decl d semi =>
    obtain ⟨body, rfl, -⟩ := h
    obtain ⟨y, -, hy⟩ := List.mem_map.mp hmem
    cases y <;> nomatch hy
  | _ =>
    obtain ⟨y, rfl, hy⟩ := List.map_eq_singleton_iff.mp h
    obtain rfl := List.mem_singleton.mp hmem
    nomatch hy

/-- `.element Pass <1, 1> { }`, and the chain. -/
def passChain (c : Chain) : List Stmt := [
  .element { name := "Pass", ports := some (.ofNat 1, .ofNat 1), sections := [] },
  .decl (.chain c) true]

/-- `Pass(1, 1)` -/
def passInline : Node := .inline "Pass" { nIn := .ofNat 1, nOut := .ofNat 1 }

section
variable {c : Chain}

def passText (c : Chain) : List Char := textOf (spread ((passChain c).flatMap Stmt.lexemes))

theorem contains_passChain
    (hplain : ∀ l ∈ (passChain c).flatMap Stmt.lexemes, l.Plain ∧ l.isBlock = false) :
    Contains (passText c ++ []) (passChain c) := by
  refine contains_spread (fun x hx => ?_) hplain
  simp only [passChain, List.mem_cons, List.not_mem_nil, or_false] at hx
  rcases hx with rfl | rfl
  · exact nofun
  · trivial

theorem merge_passChain : merge (oneFile (passText c ++ [])) []
    (onlyFile "top.clnp" (passChain c)) 1 "top.clnp" [] = some (passChain c, ["top.clnp"]) := by
  refine merge_of_plain _ _ _ (fun x hx target semi => ?_) (if_pos rfl) 0
  simp only [passChain, List.mem_cons, List.not_mem_nil, or_false] at hx
  rcases hx with rfl | rfl <;> nofun

/-- The program is parsed, and resolved. -/
theorem passChain_runs
    (hplain : ∀ l ∈ (passChain c).flatMap Stmt.lexemes, l.Plain ∧ l.isBlock = false) :
    ∃ m p outs ok d g,
      Yields (parseFile (oneFile (passText c ++ [])) [] 1 "top.clnp") {} (some m) p ∧
      resolveModuleToGraph 1 m p.diags = some (ok, d, g) ∧
      List.Forall₂ Stmt.Gives (passChain c) outs ∧ m.stmts = outs.flatten := by
  obtain ⟨m, p, outs, hrun, -, -, hgives, hstmts⟩ := delivers_parseFile
    (contains_onlyFile rfl (contains_passChain hplain)) merge_passChain {} rfl
  have hno : ∀ g, .elementGroupDecl g ∉ m.stmts := by
    intro g hg
    rw [hstmts] at hg
    obtain ⟨out, hout, hmem⟩ := List.mem_flatten.mp hg
    obtain ⟨x, hx, hgive⟩ := exists_related hgives.flip hout
    refine not_group_of_gives hgive (fun y hy => ?_) g hmem
    simp only [passChain, List.mem_cons, List.not_mem_nil, or_false] at hx
    rcases hx with rfl | rfl <;> nomatch hy
  obtain ⟨⟨ok, d, g⟩, hresolve⟩ := Option.isSome_iff_exists.mp (resolve_isSome hno 0 p.diags)
  exact ⟨m, p, outs, ok, d, g, hrun, hresolve, hgives, hstmts⟩

theorem declared_passChain (hc : ∀ type args, .inline type args ∈ c.nodes → type = "Pass") :
    ∀ c' semi, .decl (.chain c') semi ∈ passChain c → ∀ type args, .inline type args ∈ c'.nodes →
      ∃ e, .element e ∈ passChain c ∧ e.name = type := by
  intro c' semi hmem type args hinline
  simp only [passChain, List.mem_cons, List.not_mem_nil, or_false, reduceCtorEq, false_or] at hmem
  cases hmem
  exact ⟨_, List.mem_cons_self, (hc type args hinline).symm⟩

end

/-- `Pass(1, 1);` -/
def inlineAlone : Chain := { first := passInline, links := [] }

theorem inlineAlone_joined : ∃ m p ok d g,
    Yields (parseFile (oneFile (passText inlineAlone ++ [])) [] 1 "top.clnp") {} (some m) p ∧
      resolveModuleToGraph 1 m p.diags = some (ok, d, g) ∧
        InlineJoined 1 (passChain inlineAlone) m p.diags d := by
  have hplain : ∀ l ∈ (passChain inlineAlone).flatMap Stmt.lexemes,
      l.Plain ∧ l.isBlock = false := by decide
  obtain ⟨m, p, outs, ok, d, g, hparse, hresolve, -⟩ := passChain_runs hplain
  refine ⟨m, p, ok, d, g, hparse, hresolve, (inline_joined_iff
    (contains_onlyFile rfl (contains_passChain hplain)) merge_passChain hparse
    (declared_passChain fun type args h => ?_) hresolve).mpr fun c semi hmem hlinks => ?_⟩
  · cases List.mem_singleton.mp h
    rfl
  · simp only [passChain, List.mem_cons, List.not_mem_nil, or_false, reduceCtorEq, false_or] at hmem
    cases hmem
    exact absurd rfl hlinks

/-- `tor_in -> Pass(1, 1) -> tor_out;` -/
def inlineBetween : Chain where
  first := .named "tor_in"
  links := [{ lossy := false, node := passInline }, { lossy := false, node := .named "tor_out" }]

theorem inlineBetween_not_joined : ∃ m p ok d g,
    Yields (parseFile (oneFile (passText inlineBetween ++ [])) [] 1 "top.clnp") {} (some m) p ∧
      resolveModuleToGraph 1 m p.diags = some (ok, d, g) ∧
        ¬ InlineJoined 1 (passChain inlineBetween) m p.diags d := by
  have hplain : ∀ l ∈ (passChain inlineBetween).flatMap Stmt.lexemes,
      l.Plain ∧ l.isBlock = false := by decide
  obtain ⟨m, p, outs, ok, d, g, hparse, hresolve, hgives, hstmts⟩ := passChain_runs hplain
  refine ⟨m, p, ok, d, g, hparse, hresolve, fun hjoined => ?_⟩
  have hdecl := declared_passChain (c := inlineBetween) fun type args h => by
    simp only [Chain.nodes, inlineBetween, passInline, List.map_cons, List.map_nil, List.mem_cons,
      List.not_mem_nil, or_false, reduceCtorEq, false_or] at h
    cases h
    rfl
  rw [joined_iff hgives hstmts (fun c semi hc type args hn => by
    obtain ⟨e, he, rfl⟩ := hdecl c semi hc type args hn
    exact declared_of_written hgives hstmts he) hresolve] at hjoined
  have hnamed := hjoined inlineBetween true (List.mem_cons_of_mem _ List.mem_cons_self)
    (List.cons_ne_nil _ _) passInline (by decide)
  nomatch hnamed

end OpenClickNP
