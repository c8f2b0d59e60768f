import OpenClickNP.Compiler.ChainPorts

/-!
# The depths of a chain

A bracket may give the channel a depth. For the connection into a node the one before it counts
first, for the connection out of it the one behind it. The parser keeps one bracket for the node, so
a depth before the node is lost where the bracket behind it has no depth or another one
(`chain_depths_iff`).
-/

namespace OpenClickNP

open Ast Production OpenClickNP.Parser Syntax

/-- The depth in a bracket, `-1` without one. -/
def bracketDepth (b : Option Bracket) : Int := ((b.map Bracket.range).getD {}).depth

/-- The depth written for the connection into the node. -/
def Syntax.Link.depthIn (l : Link) : Int :=
  if bracketDepth l.pre ≠ -1 then bracketDepth l.pre else bracketDepth l.post

/-- The depth written for the connection out of it. -/
def Syntax.Link.depthOut (l : Link) : Int :=
  if bracketDepth l.post ≠ -1 then bracketDepth l.post else bracketDepth l.pre

def connectionOf : GroupStmt → Option ConnectionDecl
  | .instanceDecl _ => none
  | .connectionDecl c => some c

/-- Both ends of every connection have the depth that is written there, when the first one starts
from an end with the depth `depth`. -/
def EndsKept : Int → List Link → List ConnectionDecl → Prop
  | _, [], [] => True
  | depth, l :: links, c :: conns =>
    c.source.range.depth = depth ∧ c.dest.range.depth = l.depthIn ∧
      EndsKept l.depthOut links conns
  | _, _, _ => False

/-- A depth before the node is not lost. -/
def DepthTogether (l : Link) : Prop :=
  bracketDepth l.pre = -1 ∨ l.post = none ∨ bracketDepth l.post = bracketDepth l.pre

instance (l : Link) : Decidable (DepthTogether l) := inferInstanceAs (Decidable (_ ∨ _ ∨ _))

section
variable {l : Link} {links : List Link} {names : List String} {source : ConnEnd} {depth : Int}

theorem depth_range (l : Link) :
    l.range.depth = if l.post = none then bracketDepth l.pre else bracketDepth l.post := by
  unfold Link.range
  cases l.post <;> rfl

theorem depthIn_iff : l.range.depth = l.depthIn ↔ DepthTogether l := by
  rw [depth_range]
  unfold Link.depthIn DepthTogether
  cases hpost : l.post with
  -- only a bracket behind the node replaces the one before it
  | none =>
    have hnone : bracketDepth none = -1 := rfl
    simp only [reduceIte, true_or, or_true, iff_true, hnone]
    split_ifs with h
    · rfl
    · simpa using h
  | some b =>
    simp only [reduceCtorEq, if_false, false_or]
    split_ifs with h
    · simp [h]
    · simp [not_not.mp h]

/-- A node that keeps the depth before it keeps the one behind it. -/
theorem depthOut_of_together (h : DepthTogether l) : l.range.depth = l.depthOut := by
  rw [depth_range]
  unfold Link.depthOut
  cases hpost : l.post with
  | none =>
    have hnone : bracketDepth none = -1 := rfl
    simp [hnone]
  | some b =>
    simp only [reduceCtorEq, if_false]
    split_ifs with hdepth
    · rfl
    · rcases h with h | h | h
      · rw [h, not_not.mp hdepth]
      · rw [hpost] at h
        cases h
      · rw [← hpost, h]

theorem connections_node (n : Node) (name : String) :
    (n.stmts name).filterMap connectionOf = [] := by
  cases n <;> rfl

/-- Induction on the links; the end of one connection is where the next one starts. -/
theorem endsKept_linkStmts (hsource : source.range.depth = depth)
    (hlength : names.length = links.length) :
    EndsKept depth links ((Chain.linkStmts source links names).filterMap connectionOf) ↔
      ∀ l ∈ links, DepthTogether l := by
  induction links generalizing source names depth with
  | nil =>
    cases names with
    | nil => simp [Chain.linkStmts, EndsKept]
    | cons name names => cases hlength
  | cons l links ih =>
    cases names with
    | nil => cases hlength
    | cons name names =>
      have hconns : (Chain.linkStmts source (l :: links) (name :: names)).filterMap connectionOf
          = { source := source, dest := { nodeName := name, range := l.range }, lossy := l.lossy }
            :: (Chain.linkStmts { nodeName := name, range := l.range } links names).filterMap
              connectionOf := by
        rw [Chain.linkStmts, List.filterMap_append, connections_node, List.nil_append]
        rfl
      rw [hconns, EndsKept, List.forall_mem_cons, depthIn_iff]
      -- the next connection starts with the range that this one ends with
      constructor
      · rintro ⟨-, hl, hrest⟩
        exact ⟨hl, (ih (depthOut_of_together hl) (Nat.succ.inj hlength)).mp hrest⟩
      · rintro ⟨hl, hrest⟩
        exact ⟨hsource, hl, (ih (depthOut_of_together hl) (Nat.succ.inj hlength)).mpr hrest⟩

/-- Source ranges do not matter. -/
theorem endsKept_bare {conns : List ConnectionDecl} :
    EndsKept depth links (conns.map ConnectionDecl.bare) ↔ EndsKept depth links conns := by
  induction conns generalizing depth links with
  | nil => exact Iff.rfl
  | cons c conns ih =>
    cases links with
    | nil => exact Iff.rfl
    | cons l links =>
      rw [List.map_cons, EndsKept, EndsKept, ih]
      exact Iff.rfl

end

/-- Parsing the chain at `s` reads it to `v`, and the connections it pushes keep the depths. -/
def KeepsDepths (c : Chain) (sink : Sink) (s : FileState) (v : State) : Prop :=
  ∃ out, Yields (parseDeclOrChain sink) s (some ()) ((s.pushAll sink out).at v) ∧
    EndsKept (bracketDepth c.post) c.links (out.filterMap connectionOf)

theorem connectionOf_bare (out : List GroupStmt) :
    (out.map GroupStmt.bare).filterMap connectionOf
      = (out.filterMap connectionOf).map ConnectionDecl.bare := by
  rw [List.filterMap_map, List.map_filterMap]
  refine List.filterMap_congr fun x _ => ?_
  cases x <;> rfl

/-- **The depths of a chain** are kept exactly when none before a node is lost. -/
theorem chain_depths_iff {c : Chain} {semi : Bool} {s : FileState} {v : State} {sink : Sink}
    (hreads : s.toState.Reads (c.lexemes ++ semicolonLexemes semi) v)
    (hend : semi = false → Ends v.cur) :
    KeepsDepths c sink s v ↔ ∀ l ∈ c.links, DepthTogether l := by
  obtain ⟨out, hrun, name, names, hnames, hout⟩ := yields_chain (s := s) hreads hend sink
  rw [FileState.at_self] at hrun
  obtain ⟨-, hrest⟩ := List.forall₂_cons.mp hnames
  have hlength : names.length = c.links.length := by
    rw [← hrest.length_eq, List.length_map]
  have hends : EndsKept (bracketDepth c.post) c.links (out.filterMap connectionOf) ↔
      ∀ l ∈ c.links, DepthTogether l := by
    rw [← endsKept_bare, ← connectionOf_bare, hout, Chain.stmts, List.filterMap_append,
      connections_node, List.nil_append]
    exact endsKept_linkStmts rfl hlength
  -- a production ends in one way, so `out'` is `out`
  constructor
  · rintro ⟨out', hrun', hkept⟩
    rw [pushAll_inj (hrun'.unique hrun).2] at hkept
    exact hends.mp hkept
  · exact fun hl => ⟨out, hrun, hends.mpr hl⟩

end OpenClickNP
