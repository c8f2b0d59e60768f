import OpenClickNP.Elements.FirstFlit
import OpenClickNP.Lib.InternetChecksum

/-!
# `IPChecksum.clnp`

The element adds up the words of the IP header in the first flit of a packet. The last word of the
header is in bytes 32 and 33, behind the end of the flit: what is added is what memory holds behind
the buffer. The checksum is right exactly when this word is the one in the packet, or passes for it
with end-around carry (`ipChecksum_sums_iff`).
-/

namespace OpenClickNP

open Run InternetChecksum

/-! ## The element -/

/-- `w`, of the bytes `i` and `i + 1`. -/
def wordAt (buf : Nat → UInt8) (i : Nat) : UInt16 :=
  ((buf i).toUInt16 <<< 8) ||| (buf (i + 1)).toUInt16

/-- `sum`, behind the `for` loop. -/
def headerSum (buf : Nat → UInt8) : UInt32 :=
  (List.range' 0 10 2).foldl
    (fun sum i => if i = 10 then sum else sum + (wordAt buf (14 + i)).toUInt32) 0

theorem toNat_carryStep (sum : UInt32) :
    ((sum &&& (0xFFFF : UInt32)) + (sum >>> 16)).toNat = carry sum.toNat := by
  have hlt := sum.toNat_lt
  have hlow : (sum &&& 0xFFFF).toNat = sum.toNat % 65536 := by
    rw [UInt32.toNat_and]
    exact Nat.and_two_pow_sub_one_eq_mod _ 16
  have hhigh : (sum >>> 16).toNat = sum.toNat / 65536 := by
    rw [UInt32.toNat_shiftRight]
    exact Nat.shiftRight_eq_div_pow _ 16
  rw [UInt32.toNat_add, hlow, hhigh, carry, Nat.mod_eq_of_lt (by omega)]

theorem shiftRight_eq_zero_iff (sum : UInt32) : sum >>> 16 = 0 ↔ sum.toNat < 65536 := by
  have hhigh : (sum >>> 16).toNat = sum.toNat / 65536 := by
    rw [UInt32.toNat_shiftRight]
    exact Nat.shiftRight_eq_div_pow _ 16
  rw [← UInt32.toNat_inj, hhigh]
  show _ = 0 ↔ _
  omega

/-- The `while` loop. -/
def foldSum (sum : UInt32) : UInt32 :=
  if sum >>> 16 = 0 then sum else foldSum ((sum &&& (0xFFFF : UInt32)) + (sum >>> 16))
termination_by sum.toNat
decreasing_by
  rename_i hgo
  rw [toNat_carryStep]
  exact carry_lt (Nat.le_of_not_lt fun hlt => hgo ((shiftRight_eq_zero_iff sum).mpr hlt))

/-- `csum`. -/
def csum (buf : Nat → UInt8) : UInt16 := (~~~foldSum (headerSum buf)).toUInt16

/-- `meta`, of the first flit. -/
def checksumMeta (outside : Flit → Nat → UInt8) (f : Flit) : Flit :=
  ((({} : Flit).set 0 (csum (bufAt outside f)).toUInt64).setSop true).setEop true

/-- `IPChecksum`. -/
def ipChecksum (outside : Flit → Nat → UInt8) : KernelFn FirstState Flit :=
  firstFlitFn (checksumMeta outside)

/-! ## The sum -/

theorem toNat_wordAt (buf : Nat → UInt8) (i : Nat) :
    (wordAt buf i).toNat = 256 * (buf i).toNat + (buf (i + 1)).toNat := by
  have hhi := (buf i).toNat_lt
  have hlo := (buf (i + 1)).toNat_lt
  have hshift : ((buf i).toUInt16 <<< 8).toNat = 2 ^ 8 * (buf i).toNat := by
    rw [UInt16.toNat_shiftLeft, UInt8.toNat_toUInt16, Nat.shiftLeft_eq]
    show (buf i).toNat * 2 ^ 8 % 2 ^ 16 = _
    omega
  rw [wordAt, UInt16.toNat_or, hshift, UInt8.toNat_toUInt16, ← Nat.two_pow_add_eq_or_of_lt hlo]

/-- The words of the header but for the checksum and the last one. -/
def otherWords : List Nat := [14, 16, 18, 20, 22, 26, 28, 30]

def otherSum (buf : Nat → UInt8) : ℕ := (otherWords.map fun i => (wordAt buf i).toNat).sum

theorem toNat_headerSum (buf : Nat → UInt8) :
    (headerSum buf).toNat = otherSum buf + (wordAt buf 32).toNat := by
  have hword : ∀ i, (wordAt buf i).toNat < 65536 := fun i => (wordAt buf i).toNat_lt
  -- nine words are too few for an overflow
  have hadd : ∀ (is : List Nat) (sum : UInt32), sum.toNat + 65536 * is.length < 2 ^ 32 →
      (is.foldl (fun sum i => sum + (wordAt buf i).toUInt32) sum).toNat
        = sum.toNat + (is.map fun i => (wordAt buf i).toNat).sum := by
    intro is
    induction is with
    | nil => exact fun sum _ => (Nat.add_zero _).symm
    | cons i is ih =>
      intro sum hroom
      rw [List.length_cons] at hroom
      have hone := hword i
      have hnext : (sum + (wordAt buf i).toUInt32).toNat = sum.toNat + (wordAt buf i).toNat := by
        rw [UInt32.toNat_add, UInt16.toNat_toUInt32, Nat.mod_eq_of_lt (by omega)]
      rw [List.foldl_cons, ih _ (by rw [hnext]; omega), hnext, List.map_cons, List.sum_cons,
        Nat.add_assoc]
  have hloop : headerSum buf
      = (otherWords ++ [32]).foldl (fun sum i => sum + (wordAt buf i).toUInt32) 0 := rfl
  rw [hloop, hadd _ 0 (by decide), List.map_append, List.sum_append, otherSum]
  exact Nat.zero_add _

/-- The loop ends with the word that stands for the sum. -/
theorem toNat_foldSum (sum : UInt32) : (foldSum sum).toNat = rep sum.toNat := by
  induction sum using foldSum.induct with
  | case1 sum hdone =>
    rw [foldSum, if_pos hdone, rep_of_lt ((shiftRight_eq_zero_iff sum).mp hdone)]
  | case2 sum hgo ih => rw [foldSum, if_neg hgo, ih, toNat_carryStep, rep_carry]

theorem toNat_csum (buf : Nat → UInt8) :
    (csum buf).toNat = 65535 - rep (otherSum buf + (wordAt buf 32).toNat) := by
  have hrep := rep_le (otherSum buf + (wordAt buf 32).toNat)
  have hnot : (~~~foldSum (headerSum buf)).toNat
      = 2 ^ 32 - 1 - rep (otherSum buf + (wordAt buf 32).toNat) := by
    rw [UInt32.toNat_not, toNat_foldSum, toNat_headerSum]
    rfl
  rw [csum, UInt32.toNat_toUInt16, hnot]
  omega

/-! ## What the header says -/

/-- The IP header, with the checksum field taken as zero. -/
def zeroedHeader (bytes : List UInt8) : List UInt8 :=
  (bytes.drop 14).take 10 ++ [0, 0] ++ (bytes.drop 26).take 8

def headerChecksum (bytes : List UInt8) : UInt64 := UInt64.ofNat (checksum (zeroedHeader bytes))

theorem sum_zeroedHeader {bytes : List UInt8} (h : 34 ≤ bytes.length) :
    (words (zeroedHeader bytes)).sum
      = otherSum (bytes.getD · 0) + (wordAt (bytes.getD · 0) 32).toNat := by
  rw [zeroedHeader, take_drop_eq (by omega), take_drop_eq (by omega)]
  simp only [otherSum, otherWords, toNat_wordAt, List.range_succ, List.range_zero, List.map_cons,
    List.map_nil, List.nil_append, List.cons_append, words, List.sum_cons, List.sum_nil,
    Nat.reduceAdd, UInt8.toNat_zero]
  omega

/-- The word behind the buffer passes for the last word of the header. -/
def PassesFor (outside : Flit → Nat → UInt8) (bytes : List UInt8) : Prop :=
  let read := wordAt (outside (packetFlit bytes 0)) 32
  let meant := wordAt (bytes.getD · 0) 32
  read = meant ∨ (∃ i ∈ otherWords, wordAt (bytes.getD · 0) i ≠ 0) ∧
    (read = 0 ∧ meant = 0xFFFF ∨ read = 0xFFFF ∧ meant = 0)

theorem otherSum_ne_zero_iff (buf : Nat → UInt8) :
    otherSum buf ≠ 0 ↔ ∃ i ∈ otherWords, wordAt buf i ≠ 0 := by
  have hzero : otherSum buf = 0 ↔ ∀ i ∈ otherWords, wordAt buf i = 0 := by
    rw [otherSum, List.sum_eq_zero_iff_forall_eq_nat, List.forall_mem_map]
    exact forall₂_congr fun i _ => UInt16.toNat_inj (b := 0)
  rw [Ne, hzero]
  simp

theorem get_checksumMeta (outside : Flit → Nat → UInt8) (f : Flit) :
    (checksumMeta outside f).get 0 = (csum (bufAt outside f)).toUInt64 := by
  unfold checksumMeta Flit.setSop Flit.setEop
  rw [Flit.get_setFlag, Flit.get_setFlag, Flit.get_set_self _ (by decide) (by decide)]

theorem toNat_headerChecksum {bytes : List UInt8} (h : 34 ≤ bytes.length) :
    (headerChecksum bytes).toNat
      = 65535 - rep (otherSum (bytes.getD · 0) + (wordAt (bytes.getD · 0) 32).toNat) := by
  rw [headerChecksum, checksum_eq, sum_zeroedHeader h, UInt64.toNat_ofNat']
  exact Nat.mod_eq_of_lt (by omega)

/-- **The checksum of one packet is right exactly when the word behind the buffer passes for the
last word of the header.** -/
theorem checksum_eq_iff {outside : Flit → Nat → UInt8} {bytes : List UInt8}
    (h : 34 ≤ bytes.length) :
    (checksumMeta outside (packetFlit bytes 0)).get 0 = headerChecksum bytes ↔
      PassesFor outside bytes := by
  have hinside : otherSum (bufAt outside (packetFlit bytes 0)) = otherSum (bytes.getD · 0) := by
    refine congrArg List.sum (List.map_congr_left fun i hi => ?_)
    have hle : ∀ i ∈ otherWords, i + 1 < 32 := by decide
    have hi := hle i hi
    rw [toNat_wordAt, toNat_wordAt, bufAt_packetFlit (by omega) (by omega),
      bufAt_packetFlit (by omega) (by omega)]
  have hbehind : wordAt (bufAt outside (packetFlit bytes 0)) 32
      = wordAt (outside (packetFlit bytes 0)) 32 := by
    rw [wordAt, wordAt, bufAt_outside (by omega), bufAt_outside (by omega)]
  have hread := (wordAt (outside (packetFlit bytes 0)) 32).toNat_lt
  have hmeant := (wordAt (bytes.getD · 0) 32).toNat_lt
  -- both are complements, so it is the folded sums that are compared
  have hrep : (checksumMeta outside (packetFlit bytes 0)).get 0 = headerChecksum bytes ↔
      rep (otherSum (bytes.getD · 0) + (wordAt (outside (packetFlit bytes 0)) 32).toNat)
        = rep (otherSum (bytes.getD · 0) + (wordAt (bytes.getD · 0) 32).toNat) := by
    rw [get_checksumMeta, ← UInt64.toNat_inj, UInt16.toNat_toUInt64, toNat_csum,
      toNat_headerChecksum h, hinside, hbehind]
    have hle := rep_le (otherSum (bytes.getD · 0) + (wordAt (bytes.getD · 0) 32).toNat)
    have hle' := rep_le
      (otherSum (bytes.getD · 0) + (wordAt (outside (packetFlit bytes 0)) 32).toNat)
    omega
  rw [hrep, rep_add_eq_iff hread hmeant, otherSum_ne_zero_iff]
  simp only [PassesFor, ← UInt16.toNat_inj]
  rfl

/-! ## Runs -/

/-- In a run that has read the flits of some packets, these have been passed on, and there is a
checksum for each packet. -/
structure Sums (s : KernelState FirstState Flit) (packets : List (List UInt8)) : Prop where
  forwarded : s.sent 1 = packets.flatMap packetToFlits
  checksums : (s.sent 2).map (Flit.get · 0) = packets.map headerChecksum

/-- **When `IPChecksum` is right.** For all stream capacities and every run that reads the flits of
some packets, at what time they may come in: all flits are passed on and each packet gets the
checksum of its IP header, if and only if for each packet the word behind the buffer is the last
word of the header, or the one is 0 and the other 65535 beside another word that is not 0. -/
theorem ipChecksum_sums_iff (outside : Flit → Nat → UInt8) (inCap outCap : Nat → Int)
    {as : List (KernelAction Flit)} {packets : List (List UInt8)}
    (hlen : ∀ bytes ∈ packets, 34 ≤ bytes.length)
    (htaken : (exec (kstep (ipChecksum outside)) (kinit firstInit inCap outCap) as).taken 1
      = packets.flatMap packetToFlits) :
    Sums (exec (kstep (ipChecksum outside)) (kinit firstInit inCap outCap) as) packets ↔
      ∀ bytes ∈ packets, PassesFor outside bytes := by
  have hne : ∀ bytes ∈ packets, bytes ≠ [] := by
    rintro bytes hb rfl
    exact absurd (hlen _ hb) (by decide)
  obtain ⟨hone, htwo⟩ := described_packets hne inCap outCap htaken
  have hsums : (∀ bytes ∈ packets, PassesFor outside bytes) ↔ ∀ bytes ∈ packets,
      (checksumMeta outside (packetFlit bytes 0)).get 0 = headerChecksum bytes :=
    forall₂_congr fun bytes hb => (checksum_eq_iff (hlen bytes hb)).symm
  rw [hsums, ← List.map_inj_left, ← Function.comp_def (Flit.get · 0), ← List.map_map, ← htwo]
  exact ⟨fun h => h.checksums, fun h => ⟨hone, h⟩⟩

/-- Two packets to different hosts, and one checksum for both. -/
theorem ipChecksum_one_sum :
    ¬ ∃ outside : Flit → Nat → UInt8, ∀ as : List (KernelAction Flit),
      (exec (kstep (ipChecksum outside)) (kinit firstInit (fun _ => 1) fun _ => 1) as).taken 1
          = [packetTo 1, packetTo 2].flatMap packetToFlits →
        Sums (exec (kstep (ipChecksum outside))
          (kinit firstInit (fun _ => 1) fun _ => 1) as) [packetTo 1, packetTo 2] := by
  rintro ⟨outside, hsums⟩
  obtain ⟨as, f, htaken, hsent⟩ :=
    descriptions_packetTo (checksumMeta outside) (fun _ => 1) (fun _ => 1) 1 2
  have hchecksums := (hsums as htaken).checksums
  have hlanes : [f.get 0, f.get 0]
      = [headerChecksum (packetTo 1), headerChecksum (packetTo 2)] :=
    (congrArg (List.map (Flit.get · 0)) hsent).symm.trans hchecksums
  obtain ⟨hone, hrest⟩ := List.cons.inj hlanes
  have htwo := (List.cons.inj hrest).1
  have hdiffer : headerChecksum (packetTo 1) ≠ headerChecksum (packetTo 2) := by decide
  exact hdiffer (hone.symm.trans htwo)

theorem ipChecksum_sums_one : ∃ as : List (KernelAction Flit),
    Sums (exec (kstep (ipChecksum fun _ _ => 0)) (kinit firstInit (fun _ => 1) fun _ => 1) as)
        [packetTo 0] ↔ ∀ bytes ∈ [packetTo 0], PassesFor (fun _ _ => 0) bytes := by
  obtain ⟨as, htaken⟩ :=
    feed_packets (checksumMeta fun _ _ => 0) (fun _ => 1) (fun _ => 1) [packetTo 0]
  exact ⟨as, ipChecksum_sums_iff (fun _ _ => 0) (fun _ => 1) (fun _ => 1) (by decide) htaken⟩

end OpenClickNP
