import OpenClickNP.Backend.Transduction
import OpenClickNP.Runtime.Packets
import OpenClickNP.Runtime.Sha1

/-!
# `SHA1.clnp`

The element hashes the flits of a packet, from the one with `sop` to the one with `eop`, and emits
the digest with the last one. It takes in whole payloads, and never looks at the pad bytes; so the
digest of a packet is the one of the packet filled up with zeros (`sha1_digests_iff`).
-/

namespace OpenClickNP

open Run Frames

/-- The `.state` block. -/
structure Sha1State where
  ctx : Sha1.Ctx
  started : Bool

/-- `if (!started || f.sop()) { init(ctx); started = true; }`. -/
def Sha1State.begin (st : Sha1State) (f : Flit) : Sha1State :=
  if !st.started || f.sop then { ctx := Sha1.init st.ctx, started := true } else st

/-- The state when the payload has been taken in. -/
def Sha1State.absorb (st : Sha1State) (f : Flit) : Sha1State :=
  let st := st.begin f
  { st with ctx := Sha1.update st.ctx (f.getData 32) }

/-- The flit of a digest. -/
def digestFlit (digest : List UInt8) : Flit :=
  let pad := (List.range 32).map fun i => if i < 20 then digest.getD i 0 else 0
  ((({} : Flit).setData pad 32).setSop true).setEop true

/-- The `.handler` block. -/
def sha1Handler (v : View Sha1State Flit) : BodyResult Sha1State Flit :=
  let f := v.inputData 1
  let st := v.state.absorb f
  { state :=
      if testPort v.inputPort 1 then
        if f.eop then { ctx := Sha1.finalCtx st.ctx, started := false } else st
      else v.state
    ops :=
      if testPort v.inputPort 1 then
        .clearInputReady (PORT_BIT 1) ::
          if f.eop then [.setOutputPort 1 (digestFlit (Sha1.finalDigest st.ctx))] else []
      else []
    ret := some (PORT_BIT 1) }

def sha1 : KernelFn Sha1State Flit where
  inPorts := [1]
  outPorts := [1]
  nodup_outPorts := nodup_one
  handler := sha1Handler

/-! ## The element as a machine -/

/-- What a call makes of a flit. -/
def Sha1State.next (st : Sha1State) (f : Flit) : Sha1State :=
  if f.eop then { ctx := Sha1.finalCtx (st.absorb f).ctx, started := false } else st.absorb f

def Sha1State.out (st : Sha1State) (f : Flit) : List Flit :=
  if f.eop then [digestFlit (Sha1.finalDigest (st.absorb f).ctx)] else []

def sha1Machine : Transducer Sha1State (Option Flit) Flit where
  next st x := x.elim st st.next
  out st x := x.elim [] st.out

/-- The element has no `.signal` block, and never serves a signal. -/
theorem transduces_sha1 : Transduces sha1 id (fun _ => True) sha1Machine where
  inPorts := rfl
  outPorts := rfl
  returns _ := rfl
  state v := by
    unfold offered sha1Machine
    cases hbit : testPort v.inputPort 1 <;>
      simp [sha1, sha1Handler, Sha1State.next, hbit]
  taken _ := takenIn_offered rfl
  sets v := by
    rw [setsOf_of_ready 1 (v := v) (r := sha1.handler v) rfl, offered]
    split
    · show setsOf 1 (if (v.inputData 1).eop then _ else _) = Sha1State.out _ _
      unfold Sha1State.out
      split <;> rfl
    · rfl
  signalState _ _ := rfl
  signalOps _ := rfl
  signalRet _ := rfl

theorem lazy_sha1 : Lazy sha1Machine := fun _ => ⟨rfl, rfl⟩

/-! ## One packet -/

theorem getData_digestFlit {digest : List UInt8} (h : digest.length = 20) :
    (digestFlit digest).getData 20 = digest := by
  unfold digestFlit Flit.setSop Flit.setEop
  rw [Flit.getData_eq_take, Flit.getData_setFlag, Flit.getData_setFlag,
    Flit.getData_setData _ (by simp)]
  refine List.ext_getElem (by simp [h]) fun i hi hi' => ?_
  have hi20 : i < 20 := by omega
  rw [List.getElem_take, List.getElem_map, List.getElem_range, if_pos hi20,
    List.getD_eq_getElem _ _ hi']

theorem absorb_of_begin {st : Sha1State} {f : Flit} {c : Sha1.Ctx}
    (h : st.begin f = { ctx := c, started := true }) :
    st.absorb f = { ctx := Sha1.update c (f.getData 32), started := true } := by
  unfold Sha1State.absorb
  rw [h]

/-- The payloads go into the context one after the other. Induction on the flits behind the
first. -/
theorem output_framed {st : Sha1State} {f : Flit} {rest : List Flit} {c : Sha1.Ctx}
    (hbegin : st.begin f = { ctx := c, started := true }) (hsop : ∀ g ∈ rest, g.sop = false)
    (hframed : Framed Flit.eop (f :: rest)) :
    sha1Machine.output st ((f :: rest).map some) = [digestFlit (Sha1.finalDigest
      (((f :: rest).map fun g => g.getData 32).foldl Sha1.update c))] := by
  have habsorb := absorb_of_begin hbegin
  induction rest generalizing st f c with
  | nil =>
    have heop := framed_singleton_iff.mp hframed
    simp [sha1Machine, Sha1State.out, heop, habsorb]
  | cons g rest ih =>
    obtain ⟨heop, hrest⟩ := framed_cons_cons_iff.mp hframed
    have hnext : sha1Machine.next st (some f)
        = { ctx := Sha1.update c (f.getData 32), started := true } := by
      simp [sha1Machine, Sha1State.next, heop, habsorb]
    have hout : sha1Machine.out st (some f) = [] := by simp [sha1Machine, Sha1State.out, heop]
    -- the context goes on: it has been started, and this is not a first flit
    have hgo : Sha1State.begin { ctx := Sha1.update c (f.getData 32), started := true } g
        = { ctx := Sha1.update c (f.getData 32), started := true } := by
      simp [Sha1State.begin, hsop g List.mem_cons_self]
    rw [List.map_cons, Transducer.output_cons, hnext, hout, List.nil_append,
      ih hgo (fun x hx => hsop x (List.mem_cons_of_mem _ hx)) hrest (absorb_of_begin hgo)]
    rfl

/-- **One packet, one digest.** The first flit starts the context anew, whatever was there. -/
theorem output_packet (st : Sha1State) (c : Sha1.Ctx) {p : List UInt8} (hp : p ≠ []) :
    sha1Machine.output st ((packetToFlits p).map some)
      = [digestFlit (Sha1.hash c (p ++ List.replicate (fill p.length) 0))] := by
  have hpacked := packed_packetToFlits hp
  obtain ⟨f, rest, hfs, hsop, hrest⟩ := hpacked.starts
  have hbegin : st.begin f = { ctx := Sha1.init st.ctx, started := true } := by
    simp [Sha1State.begin, show f.sop = true from hsop]
  have hflits := payloadBytes_packetToFlits hp
  rw [hfs] at hflits ⊢
  rw [output_framed hbegin hrest (hfs ▸ hpacked.framed), Sha1.hash_flatten _ c, ← hflits,
    payloadBytes, List.flatMap_def]

theorem output_packets (st : Sha1State) (c : Sha1.Ctx) {packets : List (List UInt8)}
    (hne : ∀ p ∈ packets, p ≠ []) :
    sha1Machine.output st ((packets.flatMap packetToFlits).map some)
      = packets.map fun p => digestFlit (Sha1.hash c (p ++ List.replicate (fill p.length) 0)) := by
  induction packets generalizing st with
  | nil => rfl
  | cons p packets ih =>
    rw [List.flatMap_cons, List.map_append, Transducer.output_append,
      output_packet st c (hne p List.mem_cons_self),
      ih _ fun q hq => hne q (List.mem_cons_of_mem _ hq)]
    rfl

theorem getData_hash (c : Sha1.Ctx) (m : List UInt8) :
    (digestFlit (Sha1.hash c m)).getData 20 = Sha1.hash c m :=
  getData_digestFlit (Sha1.length_hash c m)

/-- The first twenty bytes of the payloads. -/
theorem getData_digests (c : Sha1.Ctx) (f : List UInt8 → List UInt8)
    (packets : List (List UInt8)) :
    (packets.map fun p => digestFlit (Sha1.hash c (f p))).map (fun g => g.getData 20)
      = packets.map fun p => Sha1.hash c (f p) := by
  simp only [List.map_map, Function.comp_def, getData_hash]

/-- **When the element emits the digests of the packets.** For all non-empty packets, from any
state between two flits and with any bytes on the stack of `hash`: there is a run that takes their
flits, and what it emits is one digest for each packet, in order, if and only if every packet has
a length that is a multiple of 32, or the same digest when it is filled up with zeros. -/
theorem sha1_digests_iff (packets : List (List UInt8)) (hne : ∀ p ∈ packets, p ≠ [])
    {s : KernelState Sha1State Flit} (h : Waiting s) (c : Sha1.Ctx) :
    (∃ gs, Maps sha1 (fun _ => True) s (packets.flatMap packetToFlits) gs) ∧
      ∀ gs, Maps sha1 (fun _ => True) s (packets.flatMap packetToFlits) gs →
        (gs.map (fun g => g.getData 20) = packets.map (Sha1.hash c) ↔
          ∀ p ∈ packets, 32 ∣ p.length ∨
            Sha1.hash c (p ++ List.replicate (fill p.length) 0) = Sha1.hash c p) := by
  refine ⟨⟨_, (transduces_sha1.maps_iff lazy_sha1 h _ _).mpr rfl⟩, fun gs hmaps => ?_⟩
  rw [(transduces_sha1.maps_iff lazy_sha1 h _ _).mp hmaps, output_packets _ c hne]
  rw [getData_digests c fun p => p ++ List.replicate (fill p.length) 0, List.map_inj_left]
  refine forall₂_congr fun p _ => ⟨Or.inr, fun hp => ?_⟩
  rcases hp with hlen | hhash
  · rw [(fill_eq_zero_iff p.length).mpr hlen, List.replicate_zero, List.append_nil]
  · exact hhash

/-- One packet of 32 bytes, and one of a single byte. -/
theorem sha1_digests_two_packets :
    let packets : List (List UInt8) := [List.replicate 32 1, [1]]
    let s : KernelState Sha1State Flit :=
      kinit { ctx := Sha1.init default, started := false } (fun _ => 4) fun _ => 4
    (∃ gs, Maps sha1 (fun _ => True) s (packets.flatMap packetToFlits) gs) ∧
      ∀ gs, Maps sha1 (fun _ => True) s (packets.flatMap packetToFlits) gs →
        (gs.map (fun g => g.getData 20) = packets.map (Sha1.hash default) ↔
          ∀ p ∈ packets, 32 ∣ p.length ∨
            Sha1.hash default (p ++ List.replicate (fill p.length) 0) = Sha1.hash default p) :=
  sha1_digests_iff _ (by decide) (waiting_kinit _ _ _) default

/-- The padded messages `a`, and `a` with 31 zeros. -/
def padA (zeros : Bool) : Vector UInt8 64 :=
  Vector.ofFn fun i =>
    if i.val = 0 then 0x61
    else if i.val = if zeros then 32 else 1 then 0x80
    else if i.val = 62 then if zeros then 1 else 0
    else if i.val = 63 then if zeros then 0 else 8
    else 0

theorem hash_a_ne (c : Sha1.Ctx) :
    Sha1.hash c (0x61 :: List.replicate 31 0) ≠ Sha1.hash c [0x61] := by
  rw [Sha1.hash_of_pad c (padA true) (by decide), Sha1.hash_of_pad c (padA false) (by decide)]
  intro h
  have hfirst : (Sha1.digestBytes (Sha1.compress (Sha1.init default).h (padA true))).head?
      ≠ (Sha1.digestBytes (Sha1.compress (Sha1.init default).h (padA false))).head? := by
    decide +kernel
  exact hfirst (congrArg List.head? h)

/-- The packet `a`. -/
theorem sha1_hashes_padding :
    ¬ ∀ (packets : List (List UInt8)), (∀ p ∈ packets, p ≠ []) →
      ∀ (s : KernelState Sha1State Flit), Waiting s → ∀ c gs,
        Maps sha1 (fun _ => True) s (packets.flatMap packetToFlits) gs →
          gs.map (fun g => g.getData 20) = packets.map (Sha1.hash c) := by
  intro h
  have hwait := waiting_kinit (α := Flit) (⟨Sha1.init default, false⟩ : Sha1State)
    (fun _ => 4) fun _ => 4
  have hdigests := h [[0x61]] (by decide) _ hwait default _
    ((transduces_sha1.maps_iff lazy_sha1 hwait _ _).mpr rfl)
  rw [output_packets _ default (by decide), getData_digests default
    fun p => p ++ List.replicate (fill p.length) 0] at hdigests
  exact hash_a_ne default (List.cons.inj hdigests).1

end OpenClickNP
