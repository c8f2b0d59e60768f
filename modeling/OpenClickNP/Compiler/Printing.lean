import Mathlib.Data.List.TakeWhile
import OpenClickNP.Compiler.Files
import OpenClickNP.Compiler.Layout

/-!
# Printing statements

`written` is how a statement of the syntax tree is written in the language. The statements that
can be written so that they come back are the canonical ones: identifiers that are no keywords,
numbers below `2 ^ 31`, blocks whose braces are balanced.
-/

namespace OpenClickNP

open Syntax OpenClickNP.Parser Production

namespace Ast

/-! ## Canonical statements -/

/-- A number that can be written, and that fits an `int`. -/
def IsCount (n : Int) : Prop := 0 ≤ n ∧ n < 2 ^ 31

instance (n : Int) : Decidable (IsCount n) := inferInstanceAs (Decidable (_ ∧ _))

/-- Port counts are given both or left out. -/
def IsPorts (nIn nOut : Int) : Prop := IsCount nIn ∧ IsCount nOut ∨ nIn = -1 ∧ nOut = -1

def IsBlock (block : Option OpaqueCpp) : Prop := ∀ b ∈ block, OpaqueText 0 b.text.toList

structure ElementDecl.Canonical (e : ElementDecl) : Prop where
  name : IsIdent e.name
  ports : IsPorts e.nInPorts e.nOutPorts
  state : IsBlock e.state
  init : IsBlock e.init
  handler : IsBlock e.handler
  signal : IsBlock e.signal
  params : ∀ p ∈ e.signalParams, IsIdent p.typeName ∧ IsIdent p.fieldName
  unsignalled : e.signal = none → e.signalParams = []
  pipelineIi : 0 ≤ e.pipelineIi ∧ e.pipelineIi ≤ 64

def InstanceParam.Canonical (p : InstanceParam) : Prop :=
  match p.kind with
  | .number => ∃ n : Nat, n < 2 ^ 31 ∧ p.text = toString n
  | .string => True

structure InstanceDecl.Canonical (d : InstanceDecl) : Prop where
  type : IsIdent d.type
  name : IsIdent d.name
  named : d.anonymous = false
  args : (IsCount d.nInPorts ∧ IsCount d.nOutPorts ∧ IsCount d.channelDepth) ∨
    (d.nInPorts = -1 ∧ d.nOutPorts = -1 ∧ d.channelDepth = 64 ∧ d.params = [])
  params : ∀ p ∈ d.params, p.Canonical

def PortRange.Canonical (r : PortRange) : Prop :=
  IsCount r.lo ∧ IsCount r.hi ∧ (IsCount r.depth ∨ r.depth = -1)

def ConnEnd.Canonical (e : ConnEnd) : Prop := IsIdent e.nodeName ∧ e.range.Canonical

def ConnectionDecl.Canonical (c : ConnectionDecl) : Prop := c.source.Canonical ∧ c.dest.Canonical

def GroupStmt.Canonical : GroupStmt → Prop
  | .instanceDecl d => d.Canonical
  | .connectionDecl c => c.Canonical

structure ElementGroupDecl.Canonical (g : ElementGroupDecl) : Prop where
  name : IsIdent g.name
  ports : IsPorts g.nInPorts g.nOutPorts
  body : ∀ x ∈ g.body, x.Canonical

/-- An import would bring its file along. -/
def TopStmt.Canonical : TopStmt → Prop
  | .importDecl _ => False
  | .elementDecl e => e.Canonical
  | .elementGroupDecl g => g.Canonical
  | .instanceDecl d => d.Canonical
  | .connectionDecl c => c.Canonical

/-! ## How they are written -/

/-- What the language leaves open: a semicolon behind a declaration, and the side of the name that
the bracket of a destination stands on. -/
structure Style where
  semi : Bool
  behind : Bool

def countOf (n : Int) : Numeral := .ofNat n.toNat

def portsWritten (nIn nOut : Int) : Option (Numeral × Numeral) :=
  if nIn = -1 then none else some (countOf nIn, countOf nOut)

def ElementDecl.signalWritten (e : ElementDecl) (b : OpaqueCpp) : Section :=
  .signal (if e.signalParams = [] then none
    else some (e.signalParams.map fun p => (p.typeName, p.fieldName))) b.text

def ElementDecl.written (e : ElementDecl) : Element where
  name := e.name
  ports := portsWritten e.nInPorts e.nOutPorts
  sections :=
    (e.state.map fun b => .state b.text).toList ++ ((e.init.map fun b => .init b.text).toList ++
      ((e.handler.map fun b => .handler b.text).toList ++ ((e.signal.map e.signalWritten).toList ++
        ((if e.pipelineIi = 0 then [] else [.timing [countOf e.pipelineIi]]) ++
          (if e.hlsPragmas = [] then [] else [.hlsPragma e.hlsPragmas])))))

def InstanceParam.written (p : InstanceParam) : Param :=
  match p.kind with
  | .number => .number { text := p.text, value := (stoull p.text.toList 10).getD 0 }
  | .string => .string p.text

def InstanceDecl.argsWritten (d : InstanceDecl) : Option Args :=
  if d.nInPorts = -1 then none
  else some {
    nIn := countOf d.nInPorts
    nOut := countOf d.nOutPorts
    depth := if d.channelDepth = 64 then none else some (countOf d.channelDepth)
    params := d.params.map InstanceParam.written }

def InstanceDecl.written (d : InstanceDecl) : Instance where
  type := d.type
  name := d.name
  marks := (if d.hostControl then [.hostControl] else []) ++ (if d.autorun then [.autorun] else [])
  args := d.argsWritten

def PortRange.written (r : PortRange) : Option Bracket :=
  if r.lo = 0 ∧ r.hi = 0 ∧ r.depth = -1 then none
  else some {
    lo := countOf r.lo
    hi := if r.hi = r.lo then none else some (countOf r.hi)
    depth := if r.depth = -1 then none else some (countOf r.depth) }

def ConnectionDecl.written (c : ConnectionDecl) (behind : Bool) : Chain where
  first := .named c.source.nodeName
  post := c.source.range.written
  links := [{
    lossy := c.lossy
    pre := if behind then none else c.dest.range.written
    node := .named c.dest.nodeName
    post := if behind then c.dest.range.written else none }]

def GroupStmt.written (st : Style) : GroupStmt → Decl
  | .instanceDecl d => .instance d.written
  | .connectionDecl c => .chain (c.written st.behind)

def TopStmt.written (st : Style) : TopStmt → Stmt
  | .importDecl d => .import d.path st.semi
  | .elementDecl e => .element e.written
  | .elementGroupDecl g => .group {
      name := g.name
      ports := portsWritten g.nInPorts g.nOutPorts
      body := g.body.map fun x => (x.written st, st.semi) }
  | .instanceDecl d => .decl (.instance d.written) st.semi
  | .connectionDecl c => .decl (.chain (c.written st.behind)) st.semi

/-! ## Numbers -/

theorem castInt_count {n : Int} (h : IsCount n) : castInt (countOf n).value = n := by
  obtain ⟨hlo, hhi⟩ := h
  have hvalue : (countOf n).value.toNat = n.toNat := by
    rw [countOf, Numeral.ofNat, UInt64.toNat_ofNat']
    omega
  simp only [castInt, hvalue]
  omega

theorem castInt_getD {n : Int} (h : IsCount n) {d : Int} :
    (((if n = d then none else some (countOf n)) : Option Numeral).map
      fun m => castInt m.value).getD d = n := by
  by_cases hd : n = d
  · rw [if_pos hd, hd]
    rfl
  · rw [if_neg hd, Option.map_some, Option.getD_some, castInt_count h]

theorem portsOf_written {nIn nOut : Int} (h : IsPorts nIn nOut) :
    portsOf (portsWritten nIn nOut) = (nIn, nOut) := by
  rcases h with ⟨hin, hout⟩ | ⟨rfl, rfl⟩
  · have hne : nIn ≠ -1 := fun heq => by simp [heq, IsCount] at hin
    rw [portsWritten, if_neg hne, portsOf, castInt_count hin, castInt_count hout]
  · rfl

theorem stoi_count {n : Int} (h : IsCount n) : stoi (countOf n).text = some n := by
  obtain ⟨hlo, hhi⟩ := h
  have htext : (countOf n).text.toList = Nat.toDigits 10 n.toNat := by
    rw [countOf, Numeral.ofNat, Nat.toString_eq_repr, Nat.toList_repr]
  have hdigits : ((Nat.toDigits 10 n.toNat).takeWhile Char.isDigit) = Nat.toDigits 10 n.toNat :=
    List.takeWhile_eq_self_iff.mpr fun c hc => Lexer.mem_toDigits hc
  have hne : (Nat.toDigits 10 n.toNat).isEmpty = false := by simp
  have hlt : ¬ 2 ^ 31 ≤ n.toNat := by omega
  simp only [stoi, htext, hdigits, Lexer.foldl_toDigits, hne, hlt]
  simp only [Bool.false_or, decide_false, Bool.false_eq_true, if_false, Int.toNat_of_nonneg hlo]

/-! ## What is written stands for the statement -/

theorem range_written {r : PortRange} (h : r.Canonical) :
    ((r.written).map Bracket.range).getD {} = r.bare := by
  obtain ⟨hlo, hhi, hdepth⟩ := h
  unfold PortRange.written
  split
  · rename_i hdefault
    obtain ⟨h₁, h₂, h₃⟩ := hdefault
    simp [PortRange.bare, h₁, h₂, h₃]
  · have hhi' : castInt (((if r.hi = r.lo then none else some (countOf r.hi)) :
        Option Numeral).getD (countOf r.lo)).value = r.hi := by
      split
      · rename_i heq
        rw [Option.getD_none, castInt_count hlo, heq]
      · rw [Option.getD_some, castInt_count hhi]
    have hdepth' : (((if r.depth = -1 then none else some (countOf r.depth)) :
        Option Numeral).map fun n => castInt n.value).getD (-1) = r.depth := by
      rcases hdepth with hcount | hnone
      · exact castInt_getD hcount
      · rw [if_pos hnone, hnone]
        rfl
    simp only [Option.map_some, Option.getD_some, Bracket.range, hhi', hdepth', castInt_count hlo,
      PortRange.bare]

theorem param_written (p : InstanceParam) : p.written.value = p.bare := by
  unfold InstanceParam.written
  cases hk : p.kind <;> simp only [Param.value, InstanceParam.bare, ← hk]

theorem instance_written {d : InstanceDecl} (h : d.Canonical) : d.written.decl = d.bare := by
  have hmarks : d.written.marks.contains .hostControl = d.hostControl ∧
      d.written.marks.contains .autorun = d.autorun := by
    unfold InstanceDecl.written
    cases d.hostControl <;> cases d.autorun <;> exact ⟨rfl, rfl⟩
  have hparams : (d.params.map InstanceParam.written).map Param.value
      = d.params.map InstanceParam.bare := by
    rw [List.map_map]
    exact List.map_congr_left fun p _ => param_written p
  simp only [Instance.decl, hmarks.1, hmarks.2]
  simp only [InstanceDecl.written, InstanceDecl.argsWritten, InstanceDecl.bare, h.named]
  rcases h.args with ⟨hin, hout, hdepth⟩ | ⟨hin, hout, hdepth, hnone⟩
  · have hne : d.nInPorts ≠ -1 := fun heq => by simp [heq, IsCount] at hin
    simp only [if_neg hne, castInt_count hin, castInt_count hout, hparams, Args.channelDepth,
      castInt_getD hdepth]
  · simp [hin, hout, hdepth, hnone]

section
variable (d : ElementDecl) (b : Option OpaqueCpp)

theorem apply_state : (b.map fun b => Section.state b.text).toList.foldl Section.apply d
    = { d with state := (b.map OpaqueCpp.bare).or d.state } := by
  cases b <;> rfl

theorem apply_init : (b.map fun b => Section.init b.text).toList.foldl Section.apply d
    = { d with init := (b.map OpaqueCpp.bare).or d.init } := by
  cases b <;> rfl

theorem apply_handler : (b.map fun b => Section.handler b.text).toList.foldl Section.apply d
    = { d with handler := (b.map OpaqueCpp.bare).or d.handler } := by
  cases b <;> rfl

theorem apply_signal {e : ElementDecl} (h : e.signal = none → e.signalParams = []) :
    (e.signal.map e.signalWritten).toList.foldl Section.apply d
      = { d with
          signalParams := d.signalParams ++ e.signalParams.map SignalParam.bare
          signal := (e.signal.map OpaqueCpp.bare).or d.signal } := by
  cases hs : e.signal with
  | none => simp [h hs]
  | some b =>
    by_cases hp : e.signalParams = []
    · simp [Section.apply, ElementDecl.signalWritten, OpaqueCpp.bare, hp]
    · simp [Section.apply, ElementDecl.signalWritten, OpaqueCpp.bare, SignalParam.bare, hp]

theorem apply_timing {ii : Int} (hii : 0 ≤ ii ∧ ii ≤ 64) (hd : d.pipelineIi = 0) :
    (if ii = 0 then [] else [Section.timing [countOf ii]]).foldl Section.apply d
      = { d with pipelineIi := ii } := by
  split
  · rename_i h
    rw [h, ← hd]
    rfl
  · have hcount : IsCount ii := ⟨hii.1, by omega⟩
    simp [Section.apply, stoi_count hcount]

theorem apply_hlsPragma (pragmas : List String) :
    (if pragmas = [] then [] else [Section.hlsPragma pragmas]).foldl Section.apply d
      = { d with hlsPragmas := d.hlsPragmas ++ pragmas } := by
  split
  · rename_i h
    rw [h, List.append_nil]
    rfl
  · rfl

end

theorem element_written {e : ElementDecl} (h : e.Canonical) : e.written.decl = e.bare := by
  simp only [Element.decl, ElementDecl.written, portsOf_written h.ports, List.foldl_append,
    apply_state, apply_init, apply_handler, apply_signal _ h.unsignalled,
    apply_timing _ h.pipelineIi, apply_hlsPragma, Option.or_none, List.nil_append,
    ElementDecl.bare]

theorem connection_written {c : ConnectionDecl} (h : c.Canonical) {behind : Bool}
    {out : List GroupStmt} (hgives : (Decl.chain (c.written behind)).Gives out) :
    out.map GroupStmt.bare = [.connectionDecl c.bare] := by
  obtain ⟨name, names, hnames, hout⟩ := hgives
  obtain ⟨⟨_, rfl⟩, hlinks⟩ := List.forall₂_cons.mp hnames
  obtain ⟨_, _, ⟨_, rfl⟩, -, rfl⟩ := List.forall₂_cons_left_iff.mp hlinks
  have hdest : Link.range {
      lossy := c.lossy
      pre := if behind then none else c.dest.range.written
      node := .named c.dest.nodeName
      post := if behind then c.dest.range.written else none } = c.dest.range.bare := by
    rw [← range_written h.2.2]
    cases behind
    · rfl
    · simp [Link.range]
  rw [hout]
  simp only [Chain.stmts, ConnectionDecl.written, Chain.linkStmts, hdest, range_written h.1.2,
    ConnectionDecl.bare, ConnEnd.bare]
  rfl

theorem groupStmt_written {x : GroupStmt} (h : x.Canonical) (st : Style) {out : List GroupStmt}
    (hgives : (x.written st).Gives out) : out.map GroupStmt.bare = [x.bare] := by
  cases x with
  | instanceDecl d => rw [hgives, instance_written h]; rfl
  | connectionDecl c => exact connection_written h hgives

theorem bare_topOf (x : GroupStmt) : (topOf x).bare = topOf x.bare := by
  cases x <;> rfl

theorem map_bare_topOf {x : GroupStmt} {out : List GroupStmt}
    (h : out.map GroupStmt.bare = [x.bare]) :
    (out.map topOf).map TopStmt.bare = [(topOf x).bare] := by
  have hcomm : (out.map topOf).map TopStmt.bare = (out.map GroupStmt.bare).map topOf := by
    rw [List.map_map, List.map_map]
    exact List.map_congr_left fun y _ => bare_topOf y
  rw [hcomm, h, List.map_singleton, bare_topOf]

theorem body_written {st : Style} {body : List GroupStmt} (h : ∀ x ∈ body, x.Canonical)
    {outs : List (List GroupStmt)}
    (hgives : List.Forall₂ (fun b out => b.1.Gives out)
      (body.map fun x => (x.written st, st.semi)) outs) :
    outs.flatten.map GroupStmt.bare = body.map GroupStmt.bare := by
  induction body generalizing outs with
  | nil =>
    cases hgives
    rfl
  | cons x body ih =>
    obtain ⟨out, outs, hx, hrest, rfl⟩ := List.forall₂_cons_left_iff.mp hgives
    rw [List.flatten_cons, List.map_append, groupStmt_written (h x List.mem_cons_self) st hx,
      ih (fun y hy => h y (List.mem_cons_of_mem _ hy)) hrest]
    rfl

/-- **What is written stands for the statement.** -/
theorem bare_of_gives {x : TopStmt} {st : Style} {out : List TopStmt} (h : x.Canonical)
    (hgives : (x.written st).Gives out) : out.map TopStmt.bare = [x.bare] := by
  cases x with
  | importDecl d => exact h.elim
  | elementDecl e =>
    rw [TopStmt.bare, ← element_written h]
    exact hgives
  | elementGroupDecl g =>
    obtain ⟨d, rfl, hname, hports, outs, hall, hbody⟩ := hgives
    have hcounts := hports.trans (portsOf_written h.ports)
    simp only [Prod.mk.injEq] at hcounts
    simp only [List.map_singleton, TopStmt.bare, ElementGroupDecl.bare, hname, hcounts.1, hcounts.2,
      hbody, body_written h.body hall]
  | instanceDecl d =>
    obtain ⟨body, rfl, hbody⟩ := hgives
    exact map_bare_topOf (groupStmt_written (x := .instanceDecl d) h st hbody)
  | connectionDecl c =>
    obtain ⟨body, rfl, hbody⟩ := hgives
    exact map_bare_topOf (groupStmt_written (x := .connectionDecl c) h st hbody)

/-! ## What is written can be read -/

/-- The lexemes can be read back from their spelling. -/
def Readable (ls : List Lexeme) : Prop := ∀ l ∈ ls, l.Plain ∧ l.Closed

@[simp] theorem readable_nil : Readable [] := nofun

@[simp] theorem readable_cons {l : Lexeme} {ls : List Lexeme} :
    Readable (l :: ls) ↔ (l.Plain ∧ l.Closed) ∧ Readable ls := List.forall_mem_cons

@[simp] theorem readable_append {ls ls' : List Lexeme} :
    Readable (ls ++ ls') ↔ Readable ls ∧ Readable ls' := List.forall_mem_append

theorem readable_flatMap {α : Type} {f : α → List Lexeme} {xs : List α}
    (h : ∀ x ∈ xs, Readable (f x)) : Readable (xs.flatMap f) := by
  intro l hl
  obtain ⟨x, hx, hlx⟩ := List.mem_flatMap.mp hl
  exact h x hx l hlx

@[simp] theorem readable_sym {k : Tok} : ((Lexeme.sym k).Plain ∧ (Lexeme.sym k).Closed) ↔
    k ∉ [.eof, .error, .ident, .integer, .stringLit, .opaqueCpp] :=
  ⟨And.left, fun h => ⟨h, trivial⟩⟩

@[simp] theorem readable_str {x : String} : (Lexeme.str x).Plain ∧ (Lexeme.str x).Closed :=
  ⟨trivial, trivial⟩

@[simp] theorem readable_block {text : String} :
    ((Lexeme.block text).Plain ∧ (Lexeme.block text).Closed) ↔ OpaqueText 0 text.toList :=
  ⟨And.right, fun h => ⟨trivial, h⟩⟩

@[simp] theorem readable_ident {x : String} :
    ((Lexeme.ident x).Plain ∧ (Lexeme.ident x).Closed) ↔ IsIdent x :=
  ⟨And.left, fun h => ⟨h, trivial⟩⟩

theorem readable_count {n : Int} (h : IsCount n) :
    (Lexeme.number (countOf n)).Plain ∧ (Lexeme.number (countOf n)).Closed := by
  obtain ⟨hlo, hhi⟩ := h
  have hvalue : (countOf n).value.toNat = n.toNat := by
    rw [countOf, Numeral.ofNat, UInt64.toNat_ofNat']
    omega
  refine ⟨?_, trivial⟩
  rw [Lexeme.Plain, hvalue]
  rfl

theorem readable_semicolon (semi : Bool) : Readable (semicolonLexemes semi) := by
  cases semi with
  | false => exact readable_nil
  | true => simp [semicolonLexemes]

theorem readable_ports {nIn nOut : Int} (h : IsPorts nIn nOut) :
    Readable (portsLexemes (portsWritten nIn nOut)) := by
  rcases h with ⟨hin, hout⟩ | ⟨rfl, rfl⟩
  · have hne : nIn ≠ -1 := fun heq => by simp [heq, IsCount] at hin
    rw [portsWritten, if_neg hne]
    simp [portsLexemes, readable_count hin, readable_count hout]
  · exact readable_nil

theorem readable_params {params : List SignalParam}
    (h : ∀ p ∈ params, IsIdent p.typeName ∧ IsIdent p.fieldName) :
    Readable (signalParamsLexemes (params.map fun p => (p.typeName, p.fieldName))) := by
  induction params with
  | nil => exact readable_nil
  | cons p params ih =>
    obtain ⟨htype, hfield⟩ := h p List.mem_cons_self
    have hrest := ih fun q hq => h q (List.mem_cons_of_mem _ hq)
    cases params with
    | nil => simp [signalParamsLexemes, htype, hfield]
    | cons q params => simpa [signalParamsLexemes, htype, hfield] using hrest

/-- The sections of an element, each with what it needs. -/
theorem readable_section {e : ElementDecl} (h : e.Canonical) {x : Section}
    (hx : x ∈ e.written.sections) : x.Valid ∧ Readable x.lexemes := by
  simp only [ElementDecl.written, List.mem_append, Option.mem_toList, Option.map_eq_some_iff] at hx
  rcases hx with ⟨b, hb, rfl⟩ | ⟨b, hb, rfl⟩ | ⟨b, hb, rfl⟩ | ⟨b, hb, rfl⟩ | hx | hx
  · exact ⟨trivial, by simp [Section.lexemes, h.state b hb]⟩
  · exact ⟨trivial, by simp [Section.lexemes, h.init b hb]⟩
  · exact ⟨trivial, by simp [Section.lexemes, h.handler b hb]⟩
  · refine ⟨trivial, ?_⟩
    unfold ElementDecl.signalWritten
    split
    · simp [Section.lexemes, h.signal b hb]
    · simp [Section.lexemes, h.signal b hb, readable_params h.params]
  · split at hx
    · nomatch hx
    · rename_i hne
      obtain rfl := List.mem_singleton.mp hx
      obtain ⟨hlo, hhi⟩ := h.pipelineIi
      have hcount : IsCount e.pipelineIi := ⟨hlo, by omega⟩
      refine ⟨fun n hn => ?_, ?_⟩
      · rw [List.mem_singleton.mp hn]
        exact ⟨_, stoi_count hcount, by omega, hhi⟩
      · have hii : IsIdent "ii" := by decide
        simp [Section.lexemes, readable_count hcount, hii]
  · split at hx
    · nomatch hx
    · obtain rfl := List.mem_singleton.mp hx
      refine ⟨trivial, ?_⟩
      simp only [Section.lexemes, readable_cons, readable_append]
      simp [readable_flatMap]

theorem readable_element {e : ElementDecl} (h : e.Canonical) : Readable e.written.lexemes := by
  have hname : IsIdent e.written.name := h.name
  have hports : Readable (portsLexemes e.written.ports) := readable_ports h.ports
  have hsections := readable_flatMap fun x hx => (readable_section h hx).2
  simp [Element.lexemes, hname, hports, hsections]

theorem readable_param {p : InstanceParam} (h : p.Canonical) :
    p.written.lexeme.Plain ∧ p.written.lexeme.Closed := by
  unfold InstanceParam.Canonical at h
  unfold InstanceParam.written
  cases hk : p.kind with
  | number =>
    rw [hk] at h
    obtain ⟨n, hn, htext⟩ := h
    have hdigits : p.text.toList = Nat.toDigits 10 n := by
      rw [htext, Nat.toString_eq_repr, Nat.toList_repr]
    have hvalue : ((stoull p.text.toList 10).getD 0).toNat = n := by
      rw [hdigits, Lexer.stoull_toDigits (by omega), Option.getD_some, UInt64.toNat_ofNat']
      omega
    refine ⟨?_, trivial⟩
    simp only [Param.lexeme, Lexeme.Plain, hvalue]
    exact htext
  | string => exact readable_str

theorem readable_instance {d : InstanceDecl} (h : d.Canonical) : Readable d.written.lexemes := by
  have htype : IsIdent d.written.type := h.type
  have hname : IsIdent d.written.name := h.name
  have hmarks : Readable (d.written.marks.map Mark.lexeme) := by
    unfold InstanceDecl.written
    cases d.hostControl <;> cases d.autorun <;> simp [Mark.lexeme]
  have hargs : Readable (Instance.argsLexemes d.written.args) := by
    show Readable (Instance.argsLexemes d.argsWritten)
    unfold InstanceDecl.argsWritten
    split
    · exact readable_nil
    · rename_i hne
      rcases h.args with ⟨hin, hout, hdepth⟩ | ⟨hin, -⟩
      · have hparams : Readable (((d.params.map InstanceParam.written).flatMap
            fun p => [.sym .comma, p.lexeme])) := by
          refine readable_flatMap fun p hp => ?_
          obtain ⟨q, hq, rfl⟩ := List.mem_map.mp hp
          simp [readable_param (h.params q hq)]
        have hstar : Readable (depthLexemes
            (if d.channelDepth = 64 then none else some (countOf d.channelDepth))) := by
          split
          · exact readable_nil
          · simp [depthLexemes, readable_count hdepth]
        simp [Instance.argsLexemes, Args.lexemes, readable_count hin, readable_count hout, hstar,
          hparams]
      · exact absurd hin hne
  simp [Instance.lexemes, htype, hname, hmarks, hargs]

theorem readable_range {r : PortRange} (h : r.Canonical) :
    Readable (bracketLexemes r.written) := by
  obtain ⟨hlo, hhi, hdepth⟩ := h
  unfold PortRange.written
  split
  · exact readable_nil
  · have hdash : Readable ((if r.hi = r.lo then none else some (countOf r.hi)).elim []
        fun n => [.sym .dash, .number n]) := by
      split
      · exact readable_nil
      · simp [readable_count hhi]
    have hstar : Readable (depthLexemes
        (if r.depth = -1 then none else some (countOf r.depth))) := by
      split
      · exact readable_nil
      · rename_i hne
        simp [depthLexemes, readable_count (hdepth.resolve_right hne)]
    simp [bracketLexemes, Bracket.lexemes, readable_count hlo, hdash, hstar]

theorem readable_connection {c : ConnectionDecl} (h : c.Canonical) (behind : Bool) :
    Readable (c.written behind).lexemes := by
  obtain ⟨⟨hsource, hout⟩, hdest, hin⟩ := h
  have hranges := And.intro (readable_range hout) (readable_range hin)
  have harrow : ((Lexeme.sym (if c.lossy then .fatArrow else .arrow)).Plain ∧
      (Lexeme.sym (if c.lossy then .fatArrow else .arrow)).Closed) := by
    cases c.lossy <;> simp
  have hnone : Readable (bracketLexemes none) := readable_nil
  cases behind <;> simp [ConnectionDecl.written, Chain.lexemes, Link.lexemes, Node.lexemes, hsource,
    hdest, hranges.1, hranges.2, harrow, hnone]

theorem readable_groupStmt {x : GroupStmt} (h : x.Canonical) (st : Style) :
    Readable (x.written st).lexemes := by
  cases x with
  | instanceDecl d => exact readable_instance h
  | connectionDecl c => exact readable_connection h st.behind

/-- **A canonical statement can be read back as it is written.** -/
theorem readable_written {x : TopStmt} (h : x.Canonical) (st : Style) :
    (x.written st).Valid ∧ Readable (x.written st).lexemes := by
  cases x with
  | importDecl d => exact h.elim
  | elementDecl e =>
    exact ⟨fun y hy => (readable_section h hy).1, readable_element h⟩
  | elementGroupDecl g =>
    have hbody : Readable (Group.bodyLexemes (g.body.map fun x => (x.written st, st.semi))) := by
      refine readable_flatMap fun d hd => ?_
      obtain ⟨y, hy, rfl⟩ := List.mem_map.mp hd
      exact readable_append.mpr ⟨readable_groupStmt (h.body y hy) st, readable_semicolon st.semi⟩
    refine ⟨trivial, ?_⟩
    simp [TopStmt.written, Stmt.lexemes, Group.lexemes, h.name, readable_ports h.ports, hbody]
  | instanceDecl d =>
    exact ⟨trivial, readable_append.mpr ⟨readable_instance h, readable_semicolon st.semi⟩⟩
  | connectionDecl c =>
    exact ⟨trivial,
      readable_append.mpr ⟨readable_connection h st.behind, readable_semicolon st.semi⟩⟩

end Ast

open Ast

/-! ## Round trip -/

/-- The lexemes of a list of statements, each in a style of its own. -/
def printed (given : List (TopStmt × Style)) : List Lexeme :=
  given.flatMap fun x => (x.1.written x.2).lexemes

/-- The text is the given statements, with blanks between the lexemes and behind them. -/
structure Prints (given : List (TopStmt × Style)) (ps : List Spelled) (blanks : List Char) :
    Prop where
  lexemes : ps.map Spelled.lexeme = printed given
  spaced : Spaced ps blanks
  blanks : ∀ c ∈ blanks, Lexer.isBlank c = true

/-- A file system in which every path is the one file. -/
def oneFile (contents : List Char) : FileSystem where
  weaklyCanonical := id
  isAbsolute := fun _ => false
  isFile := fun _ => true
  parentPath := fun _ => ""
  join := fun _ target => target
  read := fun _ => some contents

/-- Read from the file at `path`, the text gives the statements, up to source ranges, and no
diagnostic. -/
def ReadsBack (fs : FileSystem) (importDirs : List String) (depth : Nat) (path : String)
    (stmts : List TopStmt) : Prop :=
  ∃ m p, Yields (parseFile fs importDirs depth path) {} (some m) p ∧
    m.stmts.map TopStmt.bare = stmts.map TopStmt.bare ∧ p.diags = {}

section
variable {given : List (TopStmt × Style)} {ps : List Spelled} {blanks : List Char}

/-- Laid out statements that can be read. -/
theorem contains_layout {ss : List Stmt}
    (hlexemes : ps.map Spelled.lexeme = ss.flatMap Stmt.lexemes)
    (hspaced : Spaced ps blanks) (hblanks : ∀ c ∈ blanks, Lexer.isBlank c = true)
    (hreadable : ∀ x ∈ ss, x.Valid ∧ Readable x.lexemes) (hreach : InReach 0 ps) :
    Contains (textOf ps ++ blanks) ss := by
  refine ⟨fun x hx => (hreadable x hx).1, fun p path => ?_⟩
  rw [← hlexemes]
  refine openFile_reads hblanks hspaced (fun q hq => ?_) hreach
  have hmem : q.lexeme ∈ ss.flatMap Stmt.lexemes := by
    rw [← hlexemes]
    exact List.mem_map_of_mem hq
  obtain ⟨x, hx, hlx⟩ := List.mem_flatMap.mp hmem
  exact (hreadable x hx).2 _ hlx

/-- Statements without blocks, with one blank between their lexemes. -/
theorem contains_spread {ss : List Stmt} (hvalid : ∀ x ∈ ss, x.Valid)
    (hplain : ∀ l ∈ ss.flatMap Stmt.lexemes, l.Plain ∧ l.isBlock = false) :
    Contains (textOf (spread (ss.flatMap Stmt.lexemes)) ++ []) ss := by
  refine contains_layout (map_spread _) (spaced_spread _ nofun) nofun
    (fun x hx => ⟨hvalid x hx, fun l hl => ?_⟩) (inReach_of_isBlock 0 fun q hq => ?_)
  · have hmem := hplain l (List.mem_flatMap.mpr ⟨x, hx, hl⟩)
    exact ⟨hmem.1, closed_of_isBlock hmem.2⟩
  · refine (hplain q.lexeme ?_).2
    rw [← map_spread (ss.flatMap Stmt.lexemes)]
    exact List.mem_map_of_mem hq

theorem contains_prints (hcanonical : ∀ x ∈ given, x.1.Canonical) (hprints : Prints given ps blanks)
    (hreach : InReach 0 ps) :
    Contains (textOf ps ++ blanks) (given.map fun x => x.1.written x.2) := by
  have hlexemes : (given.map fun x => x.1.written x.2).flatMap Stmt.lexemes = printed given :=
    List.flatMap_map ..
  refine contains_layout (hprints.lexemes.trans hlexemes.symm) hprints.spaced hprints.blanks
    (fun y hy => ?_) hreach
  obtain ⟨x, hx, rfl⟩ := List.mem_map.mp hy
  exact readable_written (hcanonical x hx) x.2

theorem not_import (hcanonical : ∀ x ∈ given, x.1.Canonical) :
    ∀ y ∈ given.map (fun x => x.1.written x.2), ∀ target semi, y ≠ .import target semi := by
  intro y hy target semi heq
  obtain ⟨⟨x, st⟩, hx, rfl⟩ := List.mem_map.mp hy
  cases x with
  | importDecl d => exact hcanonical _ hx
  | _ => nomatch heq

theorem flatten_gives {outs : List (List TopStmt)} (hcanonical : ∀ x ∈ given, x.1.Canonical)
    (hgives : List.Forall₂ Stmt.Gives (given.map fun x => x.1.written x.2) outs) :
    outs.flatten.map TopStmt.bare = (given.map Prod.fst).map TopStmt.bare := by
  induction given generalizing outs with
  | nil =>
    cases hgives
    rfl
  | cons x given ih =>
    obtain ⟨out, outs, hx, hrest, rfl⟩ := List.forall₂_cons_left_iff.mp hgives
    rw [List.flatten_cons, List.map_append, bare_of_gives (hcanonical x List.mem_cons_self) hx,
      ih (fun y hy => hcanonical y (List.mem_cons_of_mem _ hy)) hrest]
    rfl

/-- **Round trip.** Canonical statements, printed in any layout in which the braces of the blocks
stand below 4 GiB, are read back without a diagnostic. -/
theorem readsBack_prints {fs : FileSystem} {importDirs : List String} {depth : Nat} {path : String}
    (hcanonical : ∀ x ∈ given, x.1.Canonical) (hprints : Prints given ps blanks)
    (hreach : InReach 0 ps) (hread : fs.read path = some (textOf ps ++ blanks)) :
    ReadsBack fs importDirs (depth + 1) path (given.map Prod.fst) := by
  have hmerge := merge_of_plain fs importDirs (onlyFile path _) (not_import hcanonical)
    (if_pos rfl) depth
  obtain ⟨m, p, outs, hrun, -, hdiags, hgives, hstmts⟩ := delivers_parseFile
    (contains_onlyFile hread (contains_prints hcanonical hprints hreach)) hmerge {} rfl
  refine ⟨m, p, hrun, ?_, hdiags⟩
  rw [hstmts, flatten_gives hcanonical hgives]

end

/-- An element with a block, an instance of it with a string parameter, and a connection. -/
def counterStmts : List (TopStmt × Style) := [
  (.elementDecl {
    name := "Counter"
    nInPorts := 1
    nOutPorts := 1
    state := some { text := "int n;" }
    pipelineIi := 2
    hlsPragmas := ["a\"b"] }, ⟨false, false⟩),
  (.instanceDecl {
    type := "Counter"
    name := "c"
    hostControl := true
    nInPorts := 1
    nOutPorts := 1
    channelDepth := 128
    params := [{ kind := .string, text := "x\n" }] }, ⟨false, false⟩),
  (.connectionDecl {
    source := { nodeName := "tor_in" }
    dest := { nodeName := "c", range := { lo := 1, hi := 1, depth := 16 } } }, ⟨false, true⟩)]

theorem canonical_counterStmts : ∀ x ∈ counterStmts, x.1.Canonical := by
  have hblock : OpaqueText 0 "int n;".toList := by
    rw [← List.append_nil "int n;".toList]
    exact .plains (by decide) .nil
  have hnone : ∀ b ∈ (none : Option OpaqueCpp), OpaqueText 0 b.text.toList := nofun
  intro x hx
  simp only [counterStmts, List.mem_cons, List.not_mem_nil, or_false] at hx
  rcases hx with rfl | rfl | rfl
  · refine ⟨by decide, .inl (by decide), ?_, hnone, hnone, hnone, nofun, fun _ => rfl, by decide⟩
    rintro b ⟨⟩
    exact hblock
  · refine ⟨by decide, by decide, rfl, .inl (by decide), fun p hp => ?_⟩
    rw [List.mem_singleton.mp hp]
    trivial
  · exact ⟨⟨by decide, by decide, by decide, .inr rfl⟩, by decide, by decide, by decide,
      .inl (by decide)⟩

theorem readsBack_counterStmts :
    ReadsBack (oneFile (textOf (spread (printed counterStmts)) ++ [])) [] 1 "counter.clnp"
      (counterStmts.map Prod.fst) := by
  have hprints : Prints counterStmts (spread (printed counterStmts)) [] :=
    ⟨map_spread _, spaced_spread _ nofun, nofun⟩
  exact readsBack_prints canonical_counterStmts hprints (inReach_of_length 0 (by decide +kernel))
    rfl

end OpenClickNP
