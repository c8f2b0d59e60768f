import OpenClickNP.Compiler.Layout
import OpenClickNP.Compiler.Resolver

/-!
# The ports of a chain

A bracket before a node of a chain is meant for the port that the connection into the node ends
at, one behind it for the port that the connection out of the node starts from. The parser keeps
one range for the node, and uses it for both connections: the bracket behind the node if there is
one, else the bracket before it. So a chain is connected as it is written exactly when at each
node between two arrows both brackets stand for the same port (`chain_ports_iff`).
-/

namespace OpenClickNP

open Ast Production OpenClickNP.Parser Syntax

/-- The port that a bracket stands for; without one, or with `0`, it is port 1. -/
def bracketPort (b : Option Bracket) : Int :=
  let lo := ((b.map Bracket.range).getD {}).lo
  if lo = 0 then 1 else lo

/-- The connections are those of the chain as it is written: one for each arrow, of its kind,
from the node in front of the arrow to the node behind it, and at a node between two arrows each
bracket gives its own side its port. -/
structure AsWritten (c : Chain) (conns : List ConnectionDecl) : Prop where
  length : conns.length = c.links.length
  joins : ∀ (i : Nat) (l : Link) (conn : ConnectionDecl), c.links[i]? = some l →
    conns[i]? = some conn →
      c.nodes[i]? = some (Node.named conn.source.nodeName) ∧
        c.nodes[i + 1]? = some (Node.named conn.dest.nodeName) ∧ conn.lossy = l.lossy
  ports : ∀ (i : Nat) (l : Link) (conn next : ConnectionDecl), c.links[i]? = some l →
    conns[i]? = some conn → conns[i + 1]? = some next →
      (Resolver.edgeOf conn "").dstPort = bracketPort l.pre ∧
        (Resolver.edgeOf next "").srcPort = bracketPort l.post

/-- Parsing the chain at `s` reads it to `v` and pushes its connections as they are written. -/
def ConnectsAsWritten (c : Chain) (sink : Sink) (s : FileState) (v : State) : Prop :=
  ∃ conns, Yields (parseDeclOrChain sink) s (some ())
      ((s.pushAll sink (conns.map .connectionDecl)).at v) ∧ AsWritten c conns

theorem named_word {n : Node} (h : n.isNamed = true) : n = .named n.word := by
  cases n with
  | named x => rfl
  | inline type args => nomatch h

/-! ## The connections of the parser -/

/-- The end that the parser makes of the node behind an arrow. -/
def endOf (l : Link) : ConnEnd := { nodeName := l.node.word, range := l.range }

/-- The end that it makes of the first node. -/
def sourceOf (c : Chain) : ConnEnd where
  nodeName := c.first.word
  range := (c.post.map Bracket.range).getD {}

/-- The connections of the links behind `source`, all to named nodes. -/
def connectionsOf (source : ConnEnd) : List Link → List ConnectionDecl
  | [] => []
  | l :: ls => { source := source, dest := endOf l, lossy := l.lossy } :: connectionsOf (endOf l) ls

section
variable {links : List Link} {source : ConnEnd} {names : List String}

theorem linkStmts_of_named (hnamed : ∀ l ∈ links, l.node.isNamed = true)
    (hnames : Chain.Named (links.map Link.node) names) :
    Chain.linkStmts source links names
      = (connectionsOf source links).map .connectionDecl := by
  induction links generalizing source names with
  | nil => rfl
  | cons l links ih =>
    cases hnames with
    | cons hname hrest =>
      have hx := named_word (hnamed l List.mem_cons_self)
      obtain ⟨loc, rfl⟩ := hname
      have hend : ({ nodeName := l.node.nameAt loc, range := l.range } : ConnEnd) = endOf l := by
        rw [endOf, hx]
        rfl
      rw [Chain.linkStmts, ih (fun m hm => hnamed m (List.mem_cons_of_mem _ hm)) hrest, hend, hx]
      rfl

theorem length_connectionsOf (source : ConnEnd) (links : List Link) :
    (connectionsOf source links).length = links.length := by
  induction links generalizing source with
  | nil => rfl
  | cons l links ih => rw [connectionsOf, List.length_cons, List.length_cons, ih]

theorem connectionsOf_eq (source : ConnEnd) (links : List Link) :
    connectionsOf source links = List.zipWith
      (fun e l => { source := e, dest := endOf l, lossy := l.lossy })
      (source :: links.map endOf) links := by
  induction links generalizing source with
  | nil => rfl
  | cons l links ih => rw [connectionsOf, ih, List.map_cons, List.zipWith_cons_cons]

/-- The connection of each arrow: from the end in front of it, which is the end that the arrow
before it made. -/
theorem connectionsOf_get {i : Nat} {conn : ConnectionDecl} {l : Link} (hl : links[i]? = some l)
    (hconn : (connectionsOf source links)[i]? = some conn) :
    (source :: links.map endOf)[i]? = some conn.source ∧ conn.dest = endOf l ∧
      conn.lossy = l.lossy := by
  rw [connectionsOf_eq, List.getElem?_zipWith, hl] at hconn
  cases he : (source :: links.map endOf)[i]? with
  | none => simp [he] at hconn
  | some e =>
    simp only [he, Option.some.injEq] at hconn
    exact ⟨by rw [← hconn], by rw [← hconn], by rw [← hconn]⟩

end

/-! ## As written -/

section
variable {c : Chain} {conns : List ConnectionDecl}

/-- Source ranges do not matter. -/
theorem asWritten_bare : AsWritten c (conns.map ConnectionDecl.bare) ↔ AsWritten c conns := by
  constructor
  · rintro ⟨hlength, hjoins, hports⟩
    refine ⟨by simpa using hlength, fun i l conn hl hconn => ?_,
      fun i l conn next hl hconn hnext => ?_⟩
    · exact hjoins i l conn.bare hl (by rw [List.getElem?_map, hconn]; rfl)
    · exact hports i l conn.bare next.bare hl (by rw [List.getElem?_map, hconn]; rfl)
        (by rw [List.getElem?_map, hnext]; rfl)
  · rintro ⟨hlength, hjoins, hports⟩
    refine ⟨by simpa using hlength, fun i l conn hl hconn => ?_,
      fun i l conn next hl hconn hnext => ?_⟩
    · rw [List.getElem?_map, Option.map_eq_some_iff] at hconn
      obtain ⟨conn, hconn, rfl⟩ := hconn
      exact hjoins i l conn hl hconn
    · rw [List.getElem?_map, Option.map_eq_some_iff] at hconn hnext
      obtain ⟨conn, hconn, rfl⟩ := hconn
      obtain ⟨next, hnext, rfl⟩ := hnext
      exact hports i l conn next hl hconn hnext

/-- The one port that both connections of a node get is the one of both brackets when these
agree. -/
theorem bracketPort_or (pre post : Option Bracket) :
    bracketPort (post.or pre) = bracketPort pre ∧ bracketPort (post.or pre) = bracketPort post
      ↔ bracketPort pre = bracketPort post := by
  cases post with
  | none => simp
  | some b => simpa using eq_comm

theorem mem_dropLast_iff {α : Type} {xs : List α} {x : α} :
    x ∈ xs.dropLast ↔ ∃ i, xs[i]? = some x ∧ i + 1 < xs.length := by
  rw [List.mem_iff_getElem?]
  refine exists_congr fun i => ?_
  rw [List.getElem?_dropLast]
  by_cases h : i < xs.length - 1
  · rw [if_pos h]
    simp only [iff_self_and]
    omega
  · rw [if_neg h]
    simp
    omega

theorem asWritten_connectionsOf (hnamed : ∀ n ∈ c.nodes, n.isNamed = true) :
    AsWritten c (connectionsOf (sourceOf c) c.links)
      ↔ ∀ l ∈ c.links.dropLast, bracketPort l.pre = bracketPort l.post := by
  generalize hsource : sourceOf c = source
  have hnodes : c.nodes = (source :: c.links.map endOf).map fun e => .named e.nodeName := by
    have hwords : c.nodes = c.nodes.map fun n => .named n.word :=
      (List.map_id _).symm.trans (List.map_congr_left fun n hn => named_word (hnamed n hn))
    rw [hwords, ← hsource, Chain.nodes, List.map_cons, List.map_cons, List.map_map, List.map_map]
    rfl
  -- the end behind the arrow is also the source of the next connection
  have hends : ∀ (i : Nat) (l : Link) (conn next : ConnectionDecl), c.links[i]? = some l →
      (connectionsOf source c.links)[i]? = some conn →
      (connectionsOf source c.links)[i + 1]? = some next →
      conn.dest = endOf l ∧ next.source = endOf l := by
    intro i l conn next hl hconn hnext
    refine ⟨(connectionsOf_get hl hconn).2.1, ?_⟩
    obtain ⟨hlt, -⟩ := List.getElem?_eq_some_iff.mp hnext
    rw [length_connectionsOf] at hlt
    have hsource := (connectionsOf_get (List.getElem?_eq_getElem hlt) hnext).1
    rw [List.getElem?_cons_succ, List.getElem?_map, hl] at hsource
    exact (Option.some.inj hsource).symm
  constructor
  · rintro ⟨-, -, hports⟩ l hl
    obtain ⟨i, hi, hlt⟩ := mem_dropLast_iff.mp hl
    have hlen := length_connectionsOf source c.links
    obtain ⟨conn, hconn⟩ : ∃ conn, (connectionsOf source c.links)[i]? = some conn :=
      ⟨_, List.getElem?_eq_getElem (by omega)⟩
    obtain ⟨next, hnext⟩ : ∃ next, (connectionsOf source c.links)[i + 1]? = some next :=
      ⟨_, List.getElem?_eq_getElem (by omega)⟩
    obtain ⟨hdest, hsource⟩ := hends i l conn next hi hconn hnext
    have h := hports i l conn next hi hconn hnext
    rw [Resolver.edgeOf, Resolver.edgeOf, hdest, hsource] at h
    exact (bracketPort_or _ _).mp h
  · intro hagree
    refine ⟨length_connectionsOf _ _, fun i l conn hl hconn => ?_,
      fun i l conn next hl hconn hnext => ?_⟩
    · obtain ⟨hsource, hdest, hlossy⟩ := connectionsOf_get hl hconn
      refine ⟨?_, ?_, hlossy⟩
      · rw [hnodes, List.getElem?_map, hsource]
        rfl
      · rw [hnodes, List.getElem?_map, List.getElem?_cons_succ, List.getElem?_map, hl, hdest]
        rfl
    · obtain ⟨hdest, hsource⟩ := hends i l conn next hl hconn hnext
      have hlt := (List.getElem?_eq_some_iff.mp hnext).1
      rw [length_connectionsOf] at hlt
      rw [Resolver.edgeOf, Resolver.edgeOf, hdest, hsource]
      exact (bracketPort_or _ _).mpr (hagree l (mem_dropLast_iff.mpr ⟨i, hl, hlt⟩))

end

theorem pushAll_inj {s : FileState} {u : State} {sink : Sink} {xs ys : List GroupStmt}
    (h : (s.pushAll sink xs).at u = (s.pushAll sink ys).at u) : xs = ys := by
  have htop : Function.Injective topOf := by
    intro x y hxy
    cases x <;> cases y <;> simp_all [topOf]
  cases sink with
  | module =>
    have hstmts : s.stmts ++ xs.map topOf = s.stmts ++ ys.map topOf := congrArg FileState.stmts h
    exact List.map_injective_iff.mpr htop (List.append_cancel_left hstmts)
  | group =>
    have hbody : s.body ++ xs = s.body ++ ys := congrArg FileState.body h
    exact List.append_cancel_left hbody

/-- Statements that are connections up to source ranges are connections. -/
theorem connections_of_bare {out : List GroupStmt} {bare : List ConnectionDecl}
    (h : out.map GroupStmt.bare = bare.map .connectionDecl) :
    ∃ conns : List ConnectionDecl,
      out = conns.map .connectionDecl ∧ conns.map ConnectionDecl.bare = bare := by
  induction out generalizing bare with
  | nil => exact ⟨[], rfl, by simpa using h⟩
  | cons x out ih =>
    cases bare with
    | nil => nomatch h
    | cons b bare =>
      obtain ⟨hx, hout⟩ := List.cons.inj h
      obtain ⟨conns, rfl, hconns⟩ := ih hout
      cases x with
      | instanceDecl d => nomatch hx
      | connectionDecl x =>
        exact ⟨x :: conns, rfl, by rw [List.map_cons, hconns, GroupStmt.connectionDecl.inj hx]⟩

section
variable {c : Chain} {semi : Bool} {s : FileState} {v : State} {sink : Sink}

theorem connects_iff (hnamed : ∀ n ∈ c.nodes, n.isNamed = true)
    (hreads : s.toState.Reads (c.lexemes ++ semicolonLexemes semi) v)
    (hend : semi = false → Ends v.cur) :
    ConnectsAsWritten c sink s v ↔ AsWritten c (connectionsOf (sourceOf c) c.links) := by
  have hfirst : c.first = .named c.first.word := named_word (hnamed _ List.mem_cons_self)
  have hlinks : ∀ l ∈ c.links, l.node.isNamed = true := fun l hl =>
    hnamed _ (List.mem_cons_of_mem _ (List.mem_map_of_mem hl))
  obtain ⟨out, hrun, name, names, hnames, hout⟩ := yields_chain (s := s) hreads hend sink
  rw [FileState.at_self] at hrun
  obtain ⟨⟨loc, rfl⟩, hrest⟩ := List.forall₂_cons.mp hnames
  have hsource : ({ nodeName := c.first.nameAt loc, range := (c.post.map Bracket.range).getD {} } :
      ConnEnd) = sourceOf c := by
    rw [sourceOf, hfirst]
    rfl
  rw [Chain.stmts, linkStmts_of_named hlinks hrest, hsource, hfirst] at hout
  obtain ⟨conns, rfl, hconns⟩ := connections_of_bare hout
  rw [← hconns, asWritten_bare]
  constructor
  · rintro ⟨conns', hrun', hwritten⟩
    have hsame := pushAll_inj (hrun'.unique hrun).2
    have hinj : Function.Injective GroupStmt.connectionDecl :=
      fun _ _ => GroupStmt.connectionDecl.inj
    rwa [← List.map_injective_iff.mpr hinj hsame]
  · exact fun hwritten => ⟨conns, hrun, hwritten⟩

/-- **The connections of a chain.** A chain of named nodes is connected as it is written exactly
when at every node between two arrows the bracket before it and the one behind it stand for the
same port. -/
theorem chain_ports_iff (hnamed : ∀ n ∈ c.nodes, n.isNamed = true)
    (hreads : s.toState.Reads (c.lexemes ++ semicolonLexemes semi) v)
    (hend : semi = false → Ends v.cur) :
    ConnectsAsWritten c sink s v ↔
      ∀ l ∈ c.links.dropLast, bracketPort l.pre = bracketPort l.post := by
  rw [connects_iff hnamed hreads hend]
  exact asWritten_connectionsOf hnamed

end

/-- `A -> [2]B[2] => C;` -/
def bothBrackets : Chain where
  first := .named "A"
  links := [
    { lossy := false, pre := some { lo := .ofNat 2 }, node := .named "B",
      post := some { lo := .ofNat 2 } },
    { lossy := true, node := .named "C" }]

theorem bothBrackets_ports : ∃ v, ConnectsAsWritten bothBrackets .module
    (openFile {} "" (textOf (spread (bothBrackets.lexemes ++ semicolonLexemes true)))) v := by
  obtain ⟨v, hreads, -⟩ := openFile_spread (bothBrackets.lexemes ++ semicolonLexemes true)
    {} "" (by decide)
  exact ⟨v, (chain_ports_iff (by decide) hreads nofun).mpr (by decide)⟩

/-- `A -> [2]B => C;` -/
def oneBracket : Chain where
  first := .named "A"
  links := [
    { lossy := false, pre := some { lo := .ofNat 2 }, node := .named "B" },
    { lossy := true, node := .named "C" }]

theorem oneBracket_ports : ∃ v,
    (openFile {} "" (textOf (spread (oneBracket.lexemes ++ semicolonLexemes true)))).toState.Reads
      (oneBracket.lexemes ++ semicolonLexemes true) v ∧
    ¬ ConnectsAsWritten oneBracket .module
      (openFile {} "" (textOf (spread (oneBracket.lexemes ++ semicolonLexemes true)))) v := by
  obtain ⟨v, hreads, -⟩ := openFile_spread (oneBracket.lexemes ++ semicolonLexemes true)
    {} "" (by decide)
  refine ⟨v, hreads, fun hconn => ?_⟩
  rw [connects_iff (by decide) hreads nofun, asWritten_connectionsOf (by decide)] at hconn
  exact absurd hconn (by decide)

end OpenClickNP
