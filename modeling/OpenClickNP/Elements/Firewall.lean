import OpenClickNP.Elements.HashTable
import OpenClickNP.Elements.LookupAct

/-!
# The rules of the `Firewall` application

The host puts a rule at an index of its own choice, and `HashTable` looks a key up at the index
that the key hashes to; `LookupAct` reads the hit flag of the answer, and never the action. So
whether a packet passes is decided by whether a rule for its key stands at the key's own index
(`passes_answer_iff`), and this is what the installed rules say only under a condition on where
they stand (`firewall_forwards_iff`).
-/

namespace OpenClickNP

open Run Frames

/-- Some installed rule has the key, and does not block. -/
def Permitted (rules : Fin TABLE_SIZE → Option Rule) (k0 k1 : UInt64) : Prop :=
  ∃ i rule, rules i = some rule ∧ rule.key0 = k0 ∧ rule.key1 = k1 ∧ rule.action ≠ 0

/-- A rule for the key stands at the index of the key. -/
def InPlace (rules : Fin TABLE_SIZE → Option Rule) (k0 k1 : UInt64) : Prop :=
  ∃ rule, rules (hashIndex k0 k1) = some rule ∧ rule.key0 = k0 ∧ rule.key1 = k1

/-- The condition on the rules, for one key. -/
structure WellPlaced (rules : Fin TABLE_SIZE → Option Rule) (k0 k1 : UInt64) : Prop where
  /-- Of the rules for the key, if one does not block, one stands at the index of the key. -/
  found : Permitted rules k0 k1 → InPlace rules k0 k1
  /-- And if one stands there, one does not block. -/
  passing : InPlace rules k0 k1 → Permitted rules k0 k1

theorem passes_answer_iff (st : HashTableState) (f : Flit) :
    passes (st.answer f) = true ↔ InPlace st.rules (f.get 0) (f.get 1) := by
  rw [InPlace, ← hit_eq_true_iff, passes, HashTableState.answer, get_one_resultFlit]
  cases st.hit (f.get 0) (f.get 1) <;> simp

/-- The answers of a run of lookups, when all rule operations posted before have been served. -/
theorem answers_of_maps {memory : Fin TABLE_SIZE → Entry} {inCap outCap : Nat → Int}
    {ops : List (KernelAction Flit)} {metas answers : List Flit}
    (hserved : pending (exec (kstep hashTable) (kinit (hashTableInit memory) inCap outCap) ops)
      = [])
    (hlookups : Maps hashTable KeepsTable
      (exec (kstep hashTable) (kinit (hashTableInit memory) inCap outCap) ops) metas answers) :
    ∃ st : HashTableState, st.rules = installed (posted ops) ∧ answers = metas.map st.answer := by
  obtain ⟨hsig, hreq⟩ := List.append_eq_nil_iff.mp hserved
  have hnone : (exec (kstep hashTable) (kinit (hashTableInit memory) inCap outCap)
      ops).locals.hasSignal = false := by
    by_contra hhas
    rw [if_pos (Bool.eq_true_of_not_eq_false hhas)] at hsig
    cases hsig
  refine ⟨_, installed_exec memory inCap outCap ops hserved, ?_⟩
  rw [transduces_hashTable.output_of_maps lazy_hashTable (quiet_of_none hnone hreq) hlookups,
    output_hashTable]
  rfl

/-- What `LookupAct` has let through when each packet was ruled by its own decision. -/
theorem sent_of_ruled {packets : List (List Flit)} {decisions : List Flit}
    (hframed : ∀ P ∈ packets, Framed Flit.eop P) (hlen : decisions.length = packets.length)
    {inCap outCap : Nat → Int} {as : List (KernelAction Flit)}
    (henv : Meets (kstep lookupAct) (Offered packets decisions)
      (kinit lookupInit inCap outCap) as)
    (hown : Meets (kstep lookupAct) (fun s a => OneDecision s a ∧ FindsRoom 1 s a)
      (kinit lookupInit inCap outCap) as)
    (hall : (exec (kstep lookupAct) (kinit lookupInit inCap outCap) as).taken 1
      = packets.flatten) :
    (exec (kstep lookupAct) (kinit lookupInit inCap outCap) as).sent 1
      = ((packets.zip decisions).filter fun x => passes x.2).flatMap Prod.fst := by
  have hruled := (along_iff_meets_of (fun _ _ _ hw henv hs => offering_step hw henv hs)
    (fun _ _ _ hw h henv hs => ruled_step hframed hlen hw henv h hs) as henv
    (offering_kinit inCap outCap) (ruled_kinit hlen inCap outCap)).mpr hown
  exact hruled.exec.complete hall

/-- **When the firewall forwards what the rules permit.** For every run in which the host issues
rule operations, all lookups behind them, and every run of `LookupAct` that rules each packet by
its own decision: the packets forwarded are those whose answers carry the hit flag; and this flag
says for a packet whether an installed rule permits its key, if and only if the rules are well
placed for the key. -/
theorem firewall_forwards_iff (memory : Fin TABLE_SIZE → Entry) {inCap outCap : Nat → Int}
    {ops : List (KernelAction Flit)} {metas answers : List Flit}
    (hserved : pending (exec (kstep hashTable) (kinit (hashTableInit memory) inCap outCap) ops)
      = [])
    (hlookups : Maps hashTable KeepsTable
      (exec (kstep hashTable) (kinit (hashTableInit memory) inCap outCap) ops) metas answers)
    {packets : List (List Flit)} (hframed : ∀ P ∈ packets, Framed Flit.eop P)
    (hlen : metas.length = packets.length) {inCap' outCap' : Nat → Int}
    {as : List (KernelAction Flit)}
    (henv : Meets (kstep lookupAct) (Offered packets answers)
      (kinit lookupInit inCap' outCap') as)
    (hown : Meets (kstep lookupAct) (fun s a => OneDecision s a ∧ FindsRoom 1 s a)
      (kinit lookupInit inCap' outCap') as)
    (hall : (exec (kstep lookupAct) (kinit lookupInit inCap' outCap') as).taken 1
      = packets.flatten) :
    (exec (kstep lookupAct) (kinit lookupInit inCap' outCap') as).sent 1
        = ((packets.zip answers).filter fun x => passes x.2).flatMap Prod.fst ∧
      answers.length = packets.length ∧
      ∀ x ∈ metas.zip answers,
        ((passes x.2 = true ↔ Permitted (installed (posted ops)) (x.1.get 0) (x.1.get 1)) ↔
          WellPlaced (installed (posted ops)) (x.1.get 0) (x.1.get 1)) := by
  obtain ⟨st, hrules, rfl⟩ := answers_of_maps hserved hlookups
  have hlen' : (metas.map st.answer).length = packets.length := by rw [List.length_map, hlen]
  refine ⟨sent_of_ruled hframed hlen' henv hown hall, hlen', fun x hx => ?_⟩
  obtain ⟨m, -, rfl⟩ : ∃ m ∈ metas, (m, st.answer m) = x := by
    rw [← List.map_prod_left_eq_zip] at hx
    exact List.mem_map.mp hx
  rw [passes_answer_iff, hrules]
  constructor
  · intro h
    exact ⟨h.mpr, h.mp⟩
  · intro h
    exact ⟨h.passing, h.found⟩

/-- The rule that the host installs: source 10.0.0.1, destination 10.0.0.2, at index 123. -/
def hostRule : ClSignal where
  cmd := 1
  sparam := 123
  lparam := fun i =>
    if i = 0 then 0x0A0000010A000002 else if i = 1 then 6 else if i = 2 then 1 else 0

/-- The host's rule is posted and served. -/
def hostOps : List (KernelAction Flit) := .post hostRule :: List.replicate 4 .kernel

/-- The metadata of a packet that the rule is meant for. -/
def hostMeta : Flit := (({} : Flit).set 0 0x0A0000010A000002).set 1 6

/-- The table at the start. -/
def noMemory : Fin TABLE_SIZE → Entry := fun _ => ⟨0, 0, 0, 0⟩

def hostTable : KernelState HashTableState Flit :=
  exec (kstep hashTable) (kinit (hashTableInit noMemory) (fun _ => 64) fun _ => 64) hostOps

theorem waiting_hostTable : Waiting hostTable where
  head := rfl
  noSignal := rfl
  noRequest := rfl
  asked := (by decide : testPort PORT_ALL 1 = true)
  free := testPort_zero 1
  empty := rfl

theorem maps_hostTable (metas : List Flit) :
    Maps hashTable KeepsTable hostTable metas (metas.map hostTable.locals.state.answer) :=
  (transduces_hashTable.maps_iff lazy_hashTable waiting_hostTable _ _).mpr
    (output_hashTable _ metas).symm

/-- A packet of one flit. -/
def shortPacket : Flit := ⟨Vector.replicate 64 255⟩

/-- It comes in with its decision, and is ruled by it. -/
def ruleShort (decision : Flit) : List (KernelAction Flit) :=
  .produce 1 shortPacket :: .produce 2 decision :: List.replicate 7 .kernel

theorem framed_shortPacket : ∀ P ∈ [[shortPacket]], Framed Flit.eop P :=
  fun P hP => ⟨[], shortPacket, List.mem_singleton.mp hP, by decide, by simp⟩

def lookupStart : KernelState LookupState Flit := kinit lookupInit (fun _ => 64) fun _ => 64

set_option maxRecDepth 4000 in
theorem offered_hostTable : Meets (kstep lookupAct)
    (Offered [[shortPacket]] ([hostMeta].map hostTable.locals.state.answer)) lookupStart
    (ruleShort (hostTable.locals.state.answer hostMeta)) := by decide +kernel

set_option maxRecDepth 4000 in
theorem ruled_hostTable : Meets (kstep lookupAct) (fun s a => OneDecision s a ∧ FindsRoom 1 s a)
    lookupStart (ruleShort (hostTable.locals.state.answer hostMeta)) := by decide

theorem taken_hostTable : (exec (kstep lookupAct) lookupStart
    (ruleShort (hostTable.locals.state.answer hostMeta))).taken 1 = [[shortPacket]].flatten := by
  decide +kernel

theorem firewall_forwards_host_rule :
    let answers := [hostMeta].map hostTable.locals.state.answer
    let t := exec (kstep lookupAct) lookupStart
      (ruleShort (hostTable.locals.state.answer hostMeta))
    t.sent 1 = (([[shortPacket]].zip answers).filter fun x => passes x.2).flatMap Prod.fst ∧
      answers.length = 1 ∧
      ∀ x ∈ [hostMeta].zip answers,
        ((passes x.2 = true ↔ Permitted (installed (posted hostOps)) (x.1.get 0) (x.1.get 1)) ↔
          WellPlaced (installed (posted hostOps)) (x.1.get 0) (x.1.get 1)) :=
  firewall_forwards_iff noMemory rfl (maps_hostTable [hostMeta]) framed_shortPacket rfl
    offered_hostTable ruled_hostTable taken_hostTable

theorem get_hostMeta : hostMeta.get 0 = 0x0A0000010A000002 ∧ hostMeta.get 1 = 6 := by
  refine ⟨?_, Flit.get_set_self _ (by decide) (by decide) _⟩
  rw [hostMeta, Flit.get_set_of_ne _ (by decide), Flit.get_set_self _ (by decide) (by decide)]

/-- The packets that the host's own rule is meant for are dropped. -/
theorem firewall_drops_permitted :
    ¬ ∀ (memory : Fin TABLE_SIZE → Entry) (inCap outCap : Nat → Int)
      (ops : List (KernelAction Flit)) (metas answers : List Flit),
      pending (exec (kstep hashTable) (kinit (hashTableInit memory) inCap outCap) ops) = [] →
      Maps hashTable KeepsTable
        (exec (kstep hashTable) (kinit (hashTableInit memory) inCap outCap) ops) metas answers →
      ∀ packets : List (List Flit), (∀ P ∈ packets, Framed Flit.eop P) →
      metas.length = packets.length →
      ∀ (inCap' outCap' : Nat → Int) (as : List (KernelAction Flit)),
        Meets (kstep lookupAct) (Offered packets answers) (kinit lookupInit inCap' outCap') as →
        Meets (kstep lookupAct) (fun s a => OneDecision s a ∧ FindsRoom 1 s a)
          (kinit lookupInit inCap' outCap') as →
        (exec (kstep lookupAct) (kinit lookupInit inCap' outCap') as).taken 1 = packets.flatten →
        ∀ x ∈ metas.zip answers,
          passes x.2 = true ↔ Permitted (installed (posted ops)) (x.1.get 0) (x.1.get 1) := by
  intro h
  have hforwards := h noMemory (fun _ => 64) (fun _ => 64) hostOps [hostMeta] _ rfl
    (maps_hostTable [hostMeta]) [[shortPacket]] framed_shortPacket rfl (fun _ => 64) (fun _ => 64)
    _ offered_hostTable ruled_hostTable taken_hostTable _ List.mem_cons_self
  obtain ⟨h0, h1⟩ := get_hostMeta
  have hpermitted : Permitted (installed (posted hostOps)) (hostMeta.get 0) (hostMeta.get 1) :=
    ⟨tableIndex 123, { key0 := 0x0A0000010A000002, key1 := 6, action := 1 }, by decide, h0.symm,
      h1.symm, by decide⟩
  obtain ⟨rule, hrule, -⟩ := (passes_answer_iff _ _).mp (hforwards.mpr hpermitted)
  rw [h0, h1] at hrule
  have hnone : hostTable.locals.state.rules (hashIndex 0x0A0000010A000002 6) = none := by decide
  cases hnone.symm.trans hrule

end OpenClickNP
