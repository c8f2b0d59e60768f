import OpenClickNP.Elements.FlitActs
import OpenClickNP.Elements.Sha1

/-!
# `SHA1_Block.clnp`

The element compresses a block for every two flits, and a flit with `sop` begins a message. It does
not pad; who feeds it the padded message gets the digest with the last block
(`sha1Block_digests`).
-/

namespace OpenClickNP

open Run BlockFold

/-! ## The element -/

/-- The `.state` block. -/
structure Sha1BlockState where
  h : Sha1.Hash
  block : Vector UInt8 64
  flitIdx : UInt32

/-- The words that a message begins with. -/
def sha1BlockStart : Sha1.Hash :=
  { a := 0x67452301, b := 0xEFCDAB89, c := 0x98BADCFE, d := 0x10325476, e := 0xC3D2E1F0 }

/-- The `.init` block; it leaves the bytes of the block as they are. -/
def sha1BlockInit (block : Vector UInt8 64) : Sha1BlockState :=
  { h := sha1BlockStart, block := block, flitIdx := 0 }

/-- `if (f.sop()) { ... }`. -/
def Sha1BlockState.begin (st : Sha1BlockState) (f : Flit) : Sha1BlockState :=
  if f.sop then { st with h := sha1BlockStart, flitIdx := 0 } else st

/-- The state when the flit is in its half of the block. -/
def Sha1BlockState.absorb (st : Sha1BlockState) (f : Flit) : Sha1BlockState :=
  let st := st.begin f
  { st with
    block := Sha1.copyIn st.block (st.flitIdx * 32).toNat (f.getData 32)
    flitIdx := st.flitIdx + 1 }

theorem Sha1BlockState.absorb_h (st : Sha1BlockState) (f : Flit) :
    (st.absorb f).h = (st.begin f).h := by simp only [absorb]

theorem Sha1BlockState.absorb_block (st : Sha1BlockState) (f : Flit) : (st.absorb f).block
    = Sha1.copyIn (st.begin f).block ((st.begin f).flitIdx * 32).toNat (f.getData 32) := by
  simp only [absorb]

theorem Sha1BlockState.absorb_flitIdx (st : Sha1BlockState) (f : Flit) :
    (st.absorb f).flitIdx = (st.begin f).flitIdx + 1 := by simp only [absorb]

/-- The hash value when the block is full. -/
def Sha1BlockState.compressed (st : Sha1BlockState) : Sha1.Hash := Sha1.compress st.h st.block

/-- What a flit does to the state. -/
def Sha1BlockState.next (st : Sha1BlockState) (f : Flit) : Sha1BlockState :=
  let st := st.absorb f
  if st.flitIdx = 2 then { st with h := st.compressed, flitIdx := 0 } else st

/-- What is put out for a flit. -/
def Sha1BlockState.out (st : Sha1BlockState) (f : Flit) : List (Nat × Flit) :=
  let st := st.absorb f
  if st.flitIdx = 2 then [(1, digestFlit (Sha1.digestBytes st.compressed))] else []

/-- `SHA1_Block`. -/
def sha1Block : KernelFn Sha1BlockState Flit where
  inPorts := [1]
  outPorts := [1]
  nodup_outPorts := nodup_one
  hasSignal := true
  handler := onEachFlit Sha1BlockState.next Sha1BlockState.out

theorem acts_sha1Block : ActsOnFlits sha1Block Sha1BlockState.next Sha1BlockState.out where
  inPorts := rfl
  handler := rfl
  ports q hq := by
    rw [List.mem_singleton.mp hq]
    decide
  once st f q _ := by
    apply filter_length_le_one
    unfold Sha1BlockState.out
    simp only
    split
    · exact List.nodup_singleton _
    · exact List.nodup_nil
  signal _ := rfl

/-! ## The message so far -/

/-- The flits of the last message, as far as it has come. -/
def lastMessage (fs : List Flit) : List Flit :=
  fs.foldl (fun part f => if f.sop then [f] else part ++ [f]) []

theorem lastMessage_append (fs : List Flit) (f : Flit) :
    lastMessage (fs ++ [f]) = (if f.sop then [] else lastMessage fs) ++ [f] := by
  unfold lastMessage
  rw [List.foldl_append]
  show (if f.sop then [f] else _ ++ [f]) = _
  split <;> rfl

/-- What is put out when some flits have come in: behind every second flit of a message, the
standard's hash value of its blocks up to there. -/
def digestBehind (fs : List Flit) : List Flit :=
  let part := lastMessage fs
  if part ≠ [] ∧ part.length % 2 = 0 then
    [digestFlit (Fips180.digest
      (foldBlocks Fips180.compress 64 Fips180.H0 (payloadBytes part)))]
  else []

/-- The state has the hash value of the whole blocks of the message, and the half of the next. -/
structure HashedPart (st : Sha1BlockState) (part : List Flit) : Prop where
  h : st.h.words = foldBlocks Fips180.compress 64 Fips180.H0 (payloadBytes part)
  flitIdx : st.flitIdx = UInt32.ofNat (part.length % 2)
  block : st.block.toList.take (32 * (part.length % 2)) = rest 64 (payloadBytes part)

theorem hashedPart_init (block : Vector UInt8 64) : HashedPart (sha1BlockInit block) [] where
  h := foldBlocks_nil.symm
  flitIdx := rfl
  block := by simp [payloadBytes, rest]

theorem HashedPart.begin {st : Sha1BlockState} {part : List Flit} (h : HashedPart st part)
    (f : Flit) : HashedPart (st.begin f) (if f.sop then [] else part) := by
  unfold Sha1BlockState.begin
  split
  · exact ⟨(hashedPart_init st.block).h, rfl, (hashedPart_init st.block).block⟩
  · exact h

variable {st : Sha1BlockState} {part : List Flit} {f : Flit}

/-- The flit fills the half of the block that is its own. -/
theorem HashedPart.copyIn (h : HashedPart st part) (f : Flit) :
    (Sha1.copyIn st.block (st.flitIdx * 32).toNat (f.getData 32)).toList.take
        (32 * (part.length % 2) + 32)
      = rest 64 (payloadBytes part) ++ f.getData 32 := by
  have hat : (st.flitIdx * 32).toNat = 32 * (part.length % 2) := by
    rw [h.flitIdx]
    rcases Nat.mod_two_eq_zero_or_one part.length with hpart | hpart <;> rw [hpart] <;> rfl
  have hroom : 32 * (part.length % 2) + (f.getData 32).length ≤ 64 := by
    rw [Flit.length_getData]
    omega
  have htake := Sha1.take_copyIn st.block hroom
  rw [h.block, Flit.length_getData] at htake
  rw [hat]
  exact htake

/-- How long the bytes of the message are behind the last whole block. -/
theorem length_payloadBytes_mod (part : List Flit) :
    (payloadBytes part).length % 64 = 32 * (part.length % 2) := by
  rw [length_payloadBytes]
  omega

theorem payloadBytes_concat (part : List Flit) (f : Flit) :
    payloadBytes (part ++ [f]) = payloadBytes part ++ f.getData 32 := by
  rw [payloadBytes_append, payloadBytes, payloadBytes, List.flatMap_singleton]

/-- The first flit of a block. -/
theorem HashedPart.first (h : HashedPart (st.begin f) part) (heven : part.length % 2 = 0) :
    HashedPart (st.next f) (part ++ [f]) ∧ st.out f = [] := by
  have hlen : (part ++ [f]).length % 2 = 1 := by
    rw [List.length_append, List.length_singleton]
    omega
  have hidx : (st.absorb f).flitIdx = 1 := by
    rw [Sha1BlockState.absorb_flitIdx, h.flitIdx, heven]
    rfl
  have hnext : st.next f = st.absorb f := if_neg (by rw [hidx]; decide)
  have hout : st.out f = [] := if_neg (by rw [hidx]; decide)
  have hlt : (payloadBytes part).length % 64 + (f.getData 32).length < 64 := by
    rw [length_payloadBytes_mod, Flit.length_getData, heven]
    decide
  obtain ⟨hfold, hrest⟩ := foldBlocks_append_of_lt Fips180.compress Fips180.H0 hlt
  have hcopy := h.copyIn f
  rw [heven] at hcopy
  rw [hnext]
  refine ⟨⟨?_, ?_, ?_⟩, hout⟩
  · rw [payloadBytes_concat, hfold, Sha1BlockState.absorb_h, h.h]
  · rw [hidx, hlen]
    rfl
  · rw [hlen, payloadBytes_concat, hrest, Sha1BlockState.absorb_block]
    exact hcopy

/-- The second flit of a block. -/
theorem HashedPart.second (h : HashedPart (st.begin f) part) (hodd : part.length % 2 = 1) :
    HashedPart (st.next f) (part ++ [f]) ∧ st.out f = [(1, digestFlit (Fips180.digest
      (foldBlocks Fips180.compress 64 Fips180.H0 (payloadBytes (part ++ [f])))))] := by
  have hlen : (part ++ [f]).length % 2 = 0 := by
    rw [List.length_append, List.length_singleton]
    omega
  have hidx : (st.absorb f).flitIdx = 2 := by
    rw [Sha1BlockState.absorb_flitIdx, h.flitIdx, hodd]
    rfl
  have hnext : st.next f = { st.absorb f with h := (st.absorb f).compressed, flitIdx := 0 } :=
    if_pos hidx
  have hout : st.out f = [(1, digestFlit (Sha1.digestBytes (st.absorb f).compressed))] :=
    if_pos hidx
  have hfull : (payloadBytes part).length % 64 + (f.getData 32).length = 64 := by
    rw [length_payloadBytes_mod, Flit.length_getData, hodd]
  obtain ⟨hfold, hrest⟩ :=
    foldBlocks_append_of_eq Fips180.compress Fips180.H0 (by decide) hfull
  have hblock : (st.absorb f).block.toList = rest 64 (payloadBytes part) ++ f.getData 32 := by
    rw [Sha1BlockState.absorb_block, ← h.copyIn f, hodd, List.take_of_length_le (by simp)]
  -- the block is full, and is compressed
  have hwords : (st.absorb f).compressed.words
      = foldBlocks Fips180.compress 64 Fips180.H0 (payloadBytes (part ++ [f])) := by
    unfold Sha1BlockState.compressed
    rw [payloadBytes_concat, hfold, Sha1.words_compress, hblock, Sha1BlockState.absorb_h, h.h]
  refine ⟨?_, ?_⟩
  · rw [hnext]
    refine ⟨hwords, ?_, ?_⟩
    · rw [hlen]
      rfl
    · rw [hlen, payloadBytes_concat, hrest, Nat.mul_zero, List.take_zero]
  · rw [hout, Sha1.digestBytes_eq, hwords]

/-- **One flit.** -/
theorem hashedPart_next {fs : List Flit} (h : HashedPart st (lastMessage fs)) (f : Flit) :
    HashedPart (st.next f) (lastMessage (fs ++ [f])) ∧
      st.out f = (digestBehind (fs ++ [f])).map ((1, ·)) := by
  have hbegin := h.begin f
  unfold digestBehind
  rw [lastMessage_append]
  generalize (if f.sop then [] else lastMessage fs) = part at hbegin
  have hne : part ++ [f] ≠ [] := List.append_ne_nil_of_right_ne_nil part (List.cons_ne_nil f [])
  have hlen : (part ++ [f]).length = part.length + 1 := List.length_append
  rcases Nat.mod_two_eq_zero_or_one part.length with heven | hodd
  · obtain ⟨hnext, hout⟩ := hbegin.first heven
    refine ⟨hnext, ?_⟩
    rw [hout, if_neg fun hfull => by omega]
    rfl
  · obtain ⟨hnext, hout⟩ := hbegin.second hodd
    refine ⟨hnext, ?_⟩
    rw [hout, if_pos ⟨hne, by omega⟩]
    rfl

/-! ## Runs -/

/-- What is put out for some flits. -/
def blockDigests (fs : List Flit) : List Flit := fs.inits.flatMap digestBehind

theorem blockDigests_concat (fs : List Flit) (f : Flit) :
    blockDigests (fs ++ [f]) = blockDigests fs ++ digestBehind (fs ++ [f]) := by
  unfold blockDigests
  rw [List.inits_append, List.flatMap_append]
  simp

theorem lastMessage_packet (before : List Flit) (f : Flit) (part : List Flit) (hf : f.sop = true)
    (hpart : ∀ g ∈ part, g.sop = false) : lastMessage (before ++ f :: part) = f :: part := by
  induction part using List.reverseRecOn with
  | nil => rw [lastMessage_append, if_pos hf]; rfl
  | append_singleton part g ih =>
    have hg := hpart g (by simp)
    rw [← List.cons_append, ← List.append_assoc, lastMessage_append, if_neg (by rw [hg]; decide),
      ih fun x hx => hpart x (List.mem_append_left _ hx)]

/-- **The digest of a padded message** is put out last. -/
theorem digestBehind_pad (before : List Flit) (m : List UInt8) :
    digestBehind (before ++ packetToFlits (Fips180.pad m)) = [digestFlit (Fips180.sha1 m)] := by
  have hlen := Fips180.length_pad m
  have hne : Fips180.pad m ≠ [] := by
    unfold Fips180.pad
    simp
  have hfill : fill (Fips180.pad m).length = 0 := (fill_eq_zero_iff _).mpr (by omega)
  have hpayload := payloadBytes_packetToFlits hne
  rw [hfill, List.replicate_zero, List.append_nil] at hpayload
  obtain ⟨f, part, hfs, hsop, hpart⟩ := (packed_packetToFlits hne).starts
  have heven : (packetToFlits (Fips180.pad m)).length % 2 = 0 := by
    have hbytes := congrArg List.length hpayload
    rw [length_payloadBytes] at hbytes
    omega
  unfold digestBehind
  rw [hfs] at hpayload heven ⊢
  rw [lastMessage_packet before f part hsop hpart, if_pos ⟨List.cons_ne_nil f part, heven⟩,
    hpayload]
  rfl

theorem blockDigests_pad (before : List Flit) (m : List UInt8) : ∃ gs o,
    blockDigests (before ++ packetToFlits (Fips180.pad m)) = gs ++ [o] ∧
      o.getData 20 = Fips180.sha1 m := by
  have hlast := digestBehind_pad before m
  have hlen : (Fips180.sha1 m).length = 20 := by
    simp [Fips180.sha1, Fips180.digest, Fips180.length_bigEndian]
  rcases List.eq_nil_or_concat (before ++ packetToFlits (Fips180.pad m)) with hnil | ⟨fs, f, hfs⟩
  · rw [hnil] at hlast
    exact absurd hlast (List.cons_ne_nil _ _).symm
  · refine ⟨blockDigests fs, digestFlit (Fips180.sha1 m), ?_, getData_digestFlit hlen⟩
    rw [List.concat_eq_append] at hfs
    rw [hfs, blockDigests_concat, ← hfs, hlast]

/-- **What `SHA1_Block` puts out**, in every run and from any bytes in the block: behind every
second flit of a message the hash value of its blocks up to there; so when the flits of a padded
message have come in, whatever was before, the last flit that is put out has its digest. -/
theorem sha1Block_digests (block : Vector UInt8 64) (inCap outCap : Nat → Int)
    (as : List (KernelAction Flit)) :
    let t := exec (kstep sha1Block) (kinit (sha1BlockInit block) inCap outCap) as
    t.sent 1 = blockDigests (t.taken 1) ∧ ∀ before m, ∃ gs o,
      blockDigests (before ++ packetToFlits (Fips180.pad m)) = gs ++ [o] ∧
        o.getData 20 = Fips180.sha1 m := by
  intro t
  obtain ⟨served, -, -, hsent⟩ := acts_sha1Block.inv (fun st _ => st) (fun _ req => req)
    (fun _ => rfl) (fun _ => rfl)
    (Q := fun st _ taken sent _ => HashedPart st (lastMessage taken) ∧ sent 1 = blockDigests taken)
    ⟨hashedPart_init block, rfl⟩
    (fun st _ taken sent _ f ⟨hst, hsent⟩ => by
      obtain ⟨hnext, hout⟩ := hashedPart_next hst f
      refine ⟨hnext, ?_⟩
      show sent 1 ++ ((st.out f).filter _).map _ = _
      rw [hsent, hout, blockDigests_concat]
      simp [List.filter_map, Function.comp_def])
    (fun _ _ _ _ _ _ h => h) inCap outCap as
  exact ⟨hsent, blockDigests_pad⟩

end OpenClickNP
