import Mathlib.Algebra.Group.Nat.Defs
import Mathlib.Data.List.GetD
import OpenClickNP.Runtime.Fips180

/-!
# `sha1.hpp`: incremental SHA-1

The context keeps the hash value of the whole blocks that have come in and the bytes of the block
that is not whole yet (`Absorbed`). `update` adds its bytes in pieces that fill the buffer at
most, so a message may come in chunks of any lengths; `final_digest` adds the padding with the
same `update`.
-/

namespace OpenClickNP

namespace Sha1

open BlockFold

/-! ## Compression -/

def rotl32 (x : UInt32) (n : UInt32) : UInt32 := (x <<< n) ||| (x >>> (32 - n))

/-- `w` after the loop that loads the block. -/
def load (block : Vector UInt8 64) : Vector UInt32 80 :=
  Vector.ofFn fun i =>
    if h : i.val < 16 then
      (block[i.val * 4 + 0].toUInt32 <<< 24) ||| (block[i.val * 4 + 1].toUInt32 <<< 16) |||
        (block[i.val * 4 + 2].toUInt32 <<< 8) ||| (block[i.val * 4 + 3].toUInt32 <<< 0)
    else 0

/-- `w[i] = rotl32(w[i-3] ^ w[i-8] ^ w[i-14] ^ w[i-16], 1)`. -/
def scheduleTurn (w : Vector UInt32 80) (i : Nat) : Vector UInt32 80 :=
  w.setIfInBounds i
    (rotl32 (w.getD (i - 3) 0 ^^^ w.getD (i - 8) 0 ^^^ w.getD (i - 14) 0 ^^^ w.getD (i - 16) 0) 1)

/-- `w` after both loops. -/
def schedule (block : Vector UInt8 64) : Vector UInt32 80 :=
  (List.range' 16 64).foldl scheduleTurn (load block)

/-- `h[0]` to `h[4]`, and the variables `a` to `e` of `compress`. -/
structure Hash where
  a : UInt32
  b : UInt32
  c : UInt32
  d : UInt32
  e : UInt32
deriving DecidableEq

/-- The pair `f`, `k` of round `i`. -/
def roundParams (v : Hash) (i : Nat) : UInt32 × UInt32 :=
  if i < 20 then ((v.b &&& v.c) ||| (~~~v.b &&& v.d), 0x5A827999)
  else if i < 40 then (v.b ^^^ v.c ^^^ v.d, 0x6ED9EBA1)
  else if i < 60 then ((v.b &&& v.c) ||| (v.b &&& v.d) ||| (v.c &&& v.d), 0x8F1BBCDC)
  else (v.b ^^^ v.c ^^^ v.d, 0xCA62C1D6)

def roundTurn (w : Vector UInt32 80) (v : Hash) (i : Nat) : Hash :=
  let (f, k) := roundParams v i
  let t := rotl32 v.a 5 + f + v.e + k + w.getD i 0
  { a := t, b := v.a, c := rotl32 v.b 30, d := v.c, e := v.d }

def compress (h : Hash) (block : Vector UInt8 64) : Hash :=
  let v := (List.range 80).foldl (roundTurn (schedule block)) h
  { a := h.a + v.a, b := h.b + v.b, c := h.c + v.c, d := h.d + v.d, e := h.e + v.e }

/-! ## The context -/

/-- `Ctx`. Between two pieces the buffer is never full. -/
structure Ctx where
  h : Hash
  totalBytes : UInt64
  buf : Vector UInt8 64
  bufLen : Nat
  bufLen_lt : bufLen < 64

instance : Inhabited Ctx where
  default := {
    h := { a := 0, b := 0, c := 0, d := 0, e := 0 }
    totalBytes := 0
    buf := Vector.replicate 64 0
    bufLen := 0
    bufLen_lt := by decide }

/-- `init`, which leaves the buffer as it is. -/
def init (s : Ctx) : Ctx where
  h := { a := 0x67452301, b := 0xEFCDAB89, c := 0x98BADCFE, d := 0x10325476, e := 0xC3D2E1F0 }
  totalBytes := 0
  buf := s.buf
  bufLen := 0
  bufLen_lt := by decide

/-- `for (i = 0; i < take; ++i) buf[at + i] = piece[i]`. -/
def copyIn (buf : Vector UInt8 64) (at_ : Nat) (piece : List UInt8) : Vector UInt8 64 :=
  Vector.ofFn fun j => if j.val < at_ then buf.get j else piece.getD (j.val - at_) (buf.get j)

/-- One turn of the loop of `update`, with a piece that the buffer has room for. -/
def updateTurn (s : Ctx) (piece : List UInt8) : Ctx :=
  let buf := copyIn s.buf s.bufLen piece
  if h : s.bufLen + piece.length < 64 then
    { s with buf := buf, bufLen := s.bufLen + piece.length, bufLen_lt := h }
  else { s with h := compress s.h buf, buf := buf, bufLen := 0, bufLen_lt := by decide }

/-- `while (len > 0)`: a piece is what the buffer has room for, or all that is left. -/
def updateLoop (s : Ctx) (data : List UInt8) : Ctx :=
  if data = [] then s
  else updateLoop (updateTurn s (data.take (64 - s.bufLen))) (data.drop (64 - s.bufLen))
termination_by data.length
decreasing_by
  have hlt := s.bufLen_lt
  have hpos : 0 < data.length := List.length_pos_iff.mpr ‹_›
  rw [List.length_drop]
  omega

def update (s : Ctx) (data : List UInt8) : Ctx :=
  updateLoop { s with totalBytes := s.totalBytes + UInt64.ofNat data.length } data

theorem bufLen_updateTurn (s : Ctx) {piece : List UInt8} (h : s.bufLen + piece.length ≤ 64) :
    (updateTurn s piece).bufLen = (s.bufLen + piece.length) % 64 := by
  unfold updateTurn
  split
  · rename_i hlt
    exact (Nat.mod_eq_of_lt hlt).symm
  · have hfull : s.bufLen + piece.length = 64 := by omega
    rw [hfull]

theorem update_singleton (s : Ctx) (b : UInt8) :
    update s [b] = updateTurn { s with totalBytes := s.totalBytes + 1 } [b] := by
  have hlt := s.bufLen_lt
  have hroom : [b].length ≤ 64 - s.bufLen := by
    rw [List.length_singleton]
    omega
  rw [update, updateLoop, if_neg (List.cons_ne_nil b [])]
  simp only [List.take_of_length_le hroom, List.drop_of_length_le hroom]
  rw [updateLoop, if_pos rfl]
  rfl

theorem bufLen_update_singleton (s : Ctx) (b : UInt8) :
    (update s [b]).bufLen = (s.bufLen + 1) % 64 := by
  have hlt : s.bufLen + [b].length ≤ 64 := s.bufLen_lt
  rw [update_singleton]
  exact bufLen_updateTurn { s with totalBytes := s.totalBytes + 1 } hlt

/-- `while (s.buf_len != 56) update(s, &zero, 1)`. The buffer length goes round modulo `64`. -/
def padZeros (s : Ctx) : Ctx :=
  if s.bufLen = 56 then s else padZeros (update s [0])
termination_by (120 - s.bufLen) % 64
decreasing_by
  have hlt := s.bufLen_lt
  rw [bufLen_update_singleton]
  omega

/-- The bytes of `out`. -/
def digestBytes (h : Hash) : List UInt8 :=
  [h.a, h.b, h.c, h.d, h.e].flatMap fun w : UInt32 =>
    [(w >>> 24).toUInt8, (w >>> 16).toUInt8, (w >>> 8).toUInt8, (w >>> 0).toUInt8]

/-- What `final_digest` leaves in the context. -/
def finalCtx (s : Ctx) : Ctx :=
  let totalBits := s.totalBytes * 8
  let s := padZeros (update s [0x80])
  let lengthBe := (List.range 8).map fun i => (totalBits >>> UInt64.ofNat (56 - 8 * i)).toUInt8
  update s lengthBe

def finalDigest (s : Ctx) : List UInt8 :=
  let totalBits := s.totalBytes * 8
  let s := padZeros (update s [0x80])
  let lengthBe := (List.range 8).map fun i => (totalBits >>> UInt64.ofNat (56 - 8 * i)).toUInt8
  digestBytes (update s lengthBe).h

/-- The one-shot `hash`; `s` is what the stack held. -/
def hash (s : Ctx) (data : List UInt8) : List UInt8 := finalDigest (update (init s) data)

/-! ## The compression is the one of the standard -/

def Hash.words (h : Hash) : Fips180.Words := { a := h.a, b := h.b, c := h.c, d := h.d, e := h.e }

theorem load_eq (block : Vector UInt8 64) {i : Nat} (hi : i < 16) :
    (load block).getD i 0 = Fips180.wordAt block.toList i := by
  have hbyte : ∀ j, (hj : j < 4) → block.toList.getD (4 * i + j) 0 = block[i * 4 + j] := by
    intro j hj
    have hin : i * 4 + j < block.toList.length := by
      rw [Vector.length_toList]
      omega
    rw [Nat.mul_comm 4 i, List.getD_eq_getElem _ _ hin, Vector.getElem_toList]
  have hi80 : i < 80 := by omega
  rw [Fips180.wordAt]
  simp only [hbyte 0 (by omega), hbyte 1 (by omega), hbyte 2 (by omega), hbyte 3 (by omega)]
  simp [load, Vector.getD, hi, hi80]

theorem getD_setIfInBounds (w : Vector UInt32 80) {i : Nat} (hi : i < 80) (v : UInt32) (j : Nat) :
    (w.setIfInBounds i v).getD j 0 = if j = i then v else w.getD j 0 := by
  have hget : ∀ u : Vector UInt32 80, u.getD j 0 = u[j]?.getD 0 := fun u => by
    rw [Vector.getD_getElem?]
    simp only [Vector.getD, Array.getD, Vector.size_toArray]
    rfl
  rw [hget, hget, Vector.getElem?_setIfInBounds]
  by_cases hij : i = j
  · rw [if_pos hij, if_pos hi, if_pos hij.symm]
    rfl
  · rw [if_neg hij, if_neg fun h => hij h.symm]

/-- After `n` turns the first `16 + n` words are those of the standard. -/
theorem schedule_turns (block : Vector UInt8 64) (n : Nat) (hn : n ≤ 64) :
    ∀ i < 16 + n, ((List.range' 16 n).foldl scheduleTurn (load block)).getD i 0
      = Fips180.W (Fips180.wordAt block.toList) i := by
  induction n with
  | zero =>
    intro i hi
    rw [Fips180.W, if_pos hi]
    exact load_eq block hi
  | succ n ih =>
    intro i hi
    have ih := ih (by omega)
    rw [List.range'_concat, List.foldl_append, List.foldl_cons, List.foldl_nil, Nat.one_mul,
      scheduleTurn, getD_setIfInBounds _ (by omega)]
    by_cases hlast : i = 16 + n
    · rw [if_pos hlast, hlast, ih _ (by omega), ih _ (by omega), ih _ (by omega),
        ih _ (by omega), Fips180.W.eq_def _ (16 + n), if_neg (by omega)]
      rfl
    · rw [if_neg hlast]
      exact ih i (by omega)

theorem ch_eq (x y z : UInt32) : (x &&& y) ||| (~~~x &&& z) = Fips180.Ch x y z := by
  apply UInt32.toBitVec_inj.mp
  simp only [Fips180.Ch, UInt32.toBitVec_or, UInt32.toBitVec_and, UInt32.toBitVec_not,
    UInt32.toBitVec_xor]
  ext i hi
  simp only [BitVec.getElem_or, BitVec.getElem_and, BitVec.getElem_not, BitVec.getElem_xor]
  cases x.toBitVec[i] <;> simp

theorem maj_eq (x y z : UInt32) : (x &&& y) ||| (x &&& z) ||| (y &&& z) = Fips180.Maj x y z := by
  apply UInt32.toBitVec_inj.mp
  simp only [Fips180.Maj, UInt32.toBitVec_or, UInt32.toBitVec_and, UInt32.toBitVec_xor]
  ext i hi
  simp only [BitVec.getElem_or, BitVec.getElem_and, BitVec.getElem_xor]
  cases x.toBitVec[i] <;> cases y.toBitVec[i] <;> simp

theorem roundParams_eq (v : Hash) (i : Nat) :
    roundParams v i = (Fips180.f i v.b v.c v.d, Fips180.K i) := by
  unfold roundParams Fips180.f Fips180.K
  split
  · rw [ch_eq]
  · split
    · rfl
    · split
      · rw [maj_eq]
      · rfl

theorem words_roundTurn {M : Nat → UInt32} {w : Vector UInt32 80} {i : Nat}
    (hw : w.getD i 0 = Fips180.W M i) (v : Hash) :
    (roundTurn w v i).words = Fips180.round M v.words i := by
  rw [roundTurn, roundParams_eq, hw]
  rfl

theorem words_rounds {M : Nat → UInt32} {w : Vector UInt32 80} (n : Nat)
    (hw : ∀ i < n, w.getD i 0 = Fips180.W M i) (v : Hash) :
    ((List.range n).foldl (roundTurn w) v).words
      = (List.range n).foldl (Fips180.round M) v.words := by
  induction n with
  | zero => rfl
  | succ n ih =>
    rw [List.range_succ, List.foldl_append, List.foldl_append, List.foldl_cons, List.foldl_nil,
      List.foldl_cons, List.foldl_nil, words_roundTurn (hw n (Nat.lt_succ_self n)),
      ih fun i hi => hw i (Nat.lt_succ_of_lt hi)]

/-- The function `compress` is the compression of the standard. -/
theorem words_compress (h : Hash) (block : Vector UInt8 64) :
    (compress h block).words = Fips180.compress h.words block.toList := by
  have hrounds := words_rounds 80 (schedule_turns block 64 (Nat.le_refl 64)) h
  rw [Fips180.compress, ← hrounds, compress]
  simp only [Hash.words, UInt32.add_comm]
  rfl

/-! ## What the context holds -/

/-- The context has taken in the message `m`: `h` is the hash value of its whole blocks, and the
buffer holds the rest. -/
structure Absorbed (s : Ctx) (m : List UInt8) : Prop where
  h : s.h.words = foldBlocks Fips180.compress 64 Fips180.H0 m
  buf : s.buf.toList.take s.bufLen = rest 64 m

variable {s : Ctx} {m : List UInt8}

theorem absorbed_init (s : Ctx) : Absorbed (init s) [] := by
  refine ⟨?_, ?_⟩
  · rw [foldBlocks_nil]
    rfl
  · simp [init, rest]

theorem Absorbed.bufLen_eq (h : Absorbed s m) : s.bufLen = m.length % 64 := by
  have hlt := s.bufLen_lt
  have hlen := congrArg List.length h.buf
  rw [length_rest, List.length_take, Vector.length_toList] at hlen
  omega

theorem take_copyIn (buf : Vector UInt8 64) {n : Nat} {piece : List UInt8}
    (h : n + piece.length ≤ 64) :
    (copyIn buf n piece).toList.take (n + piece.length) = buf.toList.take n ++ piece := by
  have hold : (buf.toList.take n).length = n := by
    rw [List.length_take, Vector.length_toList]
    omega
  have hlen : ((copyIn buf n piece).toList.take (n + piece.length)).length
      = (buf.toList.take n ++ piece).length := by
    rw [List.length_take, Vector.length_toList, List.length_append, hold]
    omega
  refine List.ext_getElem hlen fun i hi hi' => ?_
  rw [List.length_append, hold] at hi'
  have hi64 : i < 64 := by omega
  have hget : (copyIn buf n piece)[i] = if i < n then buf[i] else piece.getD (i - n) buf[i] := by
    unfold copyIn
    simp only [Vector.getElem_ofFn]
    rfl
  rw [List.getElem_take, Vector.getElem_toList, hget]
  by_cases hin : i < n
  · rw [if_pos hin, List.getElem_append_left (by omega), List.getElem_take, Vector.getElem_toList]
  · rw [if_neg hin, List.getElem_append_right (by omega)]
    simp only [hold]
    exact List.getD_eq_getElem _ _ (by omega)

/-- **One piece.** -/
theorem Absorbed.updateTurn (h : Absorbed s m) {piece : List UInt8}
    (hroom : s.bufLen + piece.length ≤ 64) : Absorbed (updateTurn s piece) (m ++ piece) := by
  have hlen := h.bufLen_eq
  have htake := take_copyIn s.buf hroom
  rw [h.buf] at htake
  unfold Sha1.updateTurn
  split
  · rename_i hlt
    rw [hlen] at hlt
    obtain ⟨hfold, hrest⟩ := foldBlocks_append_of_lt Fips180.compress Fips180.H0 hlt
    exact ⟨by rw [hfold]; exact h.h, by rw [hrest]; exact htake⟩
  · have hfull : s.bufLen + piece.length = 64 := by omega
    have hblock : (copyIn s.buf s.bufLen piece).toList = rest 64 m ++ piece := by
      rw [← htake, hfull, List.take_of_length_le (by simp)]
    rw [hlen] at hfull
    obtain ⟨hfold, hrest⟩ := foldBlocks_append_of_eq Fips180.compress Fips180.H0 (by decide) hfull
    refine ⟨?_, ?_⟩
    · rw [hfold, words_compress, hblock, h.h]
    · rw [hrest, List.take_zero]

theorem Absorbed.updateLoop (h : Absorbed s m) (data : List UInt8) :
    Absorbed (updateLoop s data) (m ++ data) := by
  fun_induction Sha1.updateLoop s data generalizing m with
  | case1 s => simpa using h
  | case2 s data hne ih =>
    have hlt := s.bufLen_lt
    have hroom : s.bufLen + (data.take (64 - s.bufLen)).length ≤ 64 := by
      rw [List.length_take]
      omega
    have hpiece := h.updateTurn hroom
    have hrest := ih hpiece
    rwa [List.append_assoc, List.take_append_drop] at hrest

/-- **A chunk.** -/
theorem Absorbed.update (h : Absorbed s m) (data : List UInt8) :
    Absorbed (update s data) (m ++ data) := by
  have hcount : Absorbed { s with totalBytes := s.totalBytes + UInt64.ofNat data.length } m :=
    ⟨h.h, h.buf⟩
  exact hcount.updateLoop data

theorem Absorbed.updates (h : Absorbed s m) (chunks : List (List UInt8)) :
    Absorbed (chunks.foldl Sha1.update s) (m ++ chunks.flatten) := by
  induction chunks generalizing s m with
  | nil => simpa using h
  | cons chunk chunks ih =>
    rw [List.foldl_cons, List.flatten_cons, ← List.append_assoc]
    exact ih (h.update chunk)

/-! ## The byte counter -/

theorem totalBytes_updateTurn (s : Ctx) (piece : List UInt8) :
    (updateTurn s piece).totalBytes = s.totalBytes := by
  unfold updateTurn
  split <;> rfl

theorem totalBytes_updateLoop (s : Ctx) (data : List UInt8) :
    (updateLoop s data).totalBytes = s.totalBytes := by
  fun_induction updateLoop s data with
  | case1 s => rfl
  | case2 s data hne ih => rw [ih, totalBytes_updateTurn]

theorem totalBytes_updates (s : Ctx) (chunks : List (List UInt8)) :
    (chunks.foldl update s).totalBytes = s.totalBytes + UInt64.ofNat chunks.flatten.length := by
  induction chunks generalizing s with
  | nil => simp
  | cons chunk chunks ih =>
    rw [List.foldl_cons, ih, update, totalBytes_updateLoop, List.flatten_cons, List.length_append,
      UInt64.ofNat_add, UInt64.add_assoc]

/-! ## Padding -/

/-- The loop of `final_digest` ends with the zeros that the padding asks for: `n` bytes have to
come in until the buffer holds `56`. Induction on them. -/
theorem Absorbed.padZeros (h : Absorbed s m) :
    Absorbed (padZeros s) (m ++ List.replicate ((120 - m.length % 64) % 64) 0) := by
  fun_induction Sha1.padZeros s generalizing m with
  | case1 s hfull =>
    rw [h.bufLen_eq] at hfull
    simpa [hfull] using h
  | case2 s hne ih =>
    rw [h.bufLen_eq] at hne
    have hrest := ih (h.update [0])
    have hcount : (120 - m.length % 64) % 64
        = (120 - (m ++ [(0 : UInt8)]).length % 64) % 64 + 1 := by
      rw [List.length_append, List.length_singleton]
      omega
    rw [hcount, List.replicate_succ, List.append_cons]
    exact hrest

/-- **The padding.** -/
theorem Absorbed.padded (h : Absorbed s m) (lengthBe : List UInt8) :
    Absorbed (Sha1.update (Sha1.padZeros (Sha1.update s [0x80])) lengthBe)
      (m ++ [0x80] ++ List.replicate (Fips180.zeros m.length) 0 ++ lengthBe) := by
  have hzeros : (120 - (m ++ [(0x80 : UInt8)]).length % 64) % 64 = Fips180.zeros m.length := by
    rw [List.length_append, List.length_singleton, Fips180.zeros]
    omega
  have hpad := ((h.update [0x80]).padZeros).update lengthBe
  rwa [hzeros] at hpad

theorem length_digestBytes (h : Hash) : (digestBytes h).length = 20 := rfl

theorem length_hash (s : Ctx) (data : List UInt8) : (hash s data).length = 20 :=
  length_digestBytes (finalCtx (update (init s) data)).h

theorem digestBytes_congr {h h' : Hash} (heq : h.words = h'.words) :
    digestBytes h = digestBytes h' := by
  obtain ⟨a, b, c, d, e⟩ := h
  obtain ⟨a', b', c', d', e'⟩ := h'
  obtain ⟨rfl, rfl, rfl, rfl, rfl⟩ := Fips180.Words.mk.inj heq
  rfl

/-- **The digest is one of the message**, not of what the context held before it. -/
theorem finalDigest_congr {s' : Ctx} (h : Absorbed s m) (h' : Absorbed s' m)
    (htotal : s.totalBytes = s'.totalBytes) : finalDigest s = finalDigest s' := by
  refine digestBytes_congr ((h.padded _).h.trans ?_)
  rw [htotal]
  exact (h'.padded _).h.symm

/-- The one-shot function takes what has come in in chunks. -/
theorem hash_flatten (s s' : Ctx) (chunks : List (List UInt8)) :
    finalDigest (chunks.foldl update (init s)) = hash s' chunks.flatten := by
  have hin := (absorbed_init s).updates chunks
  have hin' := (absorbed_init s').update chunks.flatten
  refine finalDigest_congr hin hin' ?_
  have htotal := totalBytes_updates (init s') [chunks.flatten]
  rw [List.foldl_cons, List.foldl_nil, List.flatten_singleton] at htotal
  rw [totalBytes_updates, htotal]
  rfl

theorem toUInt8_shiftRight (w : UInt32) {n : Nat} (hn : n < 32) :
    (w >>> UInt32.ofNat n).toUInt8 = UInt8.ofNat (w.toNat >>> n) := by
  apply UInt8.toNat_inj.mp
  simp [UInt32.toNat_shiftRight, Nat.mod_eq_of_lt hn]

theorem digestBytes_eq (h : Hash) : digestBytes h = Fips180.digest h.words := by
  have hword : ∀ w : UInt32, [(w >>> 24).toUInt8, (w >>> 16).toUInt8, (w >>> 8).toUInt8,
      (w >>> 0).toUInt8] = Fips180.bigEndian 4 w.toNat := by
    intro w
    show _ = [UInt8.ofNat (w.toNat >>> 24), UInt8.ofNat (w.toNat >>> 16),
      UInt8.ofNat (w.toNat >>> 8), UInt8.ofNat (w.toNat >>> 0)]
    rw [← toUInt8_shiftRight w (by decide : 24 < 32), ← toUInt8_shiftRight w (by decide : 16 < 32),
      ← toUInt8_shiftRight w (by decide : 8 < 32), ← toUInt8_shiftRight w (by decide : 0 < 32)]
    rfl
  unfold digestBytes Fips180.digest
  simp only [hword]
  rfl

/-- The eight bytes of the bit length, for a message whose bit length fits. -/
theorem lengthBe_eq {len : Nat} (h : len < 2 ^ 61) :
    (List.range 8).map (fun i => ((UInt64.ofNat len * 8) >>> UInt64.ofNat (56 - 8 * i)).toUInt8)
      = Fips180.bigEndian 8 (8 * len) := by
  refine List.map_congr_left fun i hi => ?_
  have hi8 := List.mem_range.mp hi
  have hbits : (UInt64.ofNat len * 8).toNat = 8 * len := by
    rw [UInt64.toNat_mul]
    simp
    omega
  apply UInt8.toNat_inj.mp
  rw [UInt64.toNat_toUInt8, UInt64.toNat_shiftRight, hbits]
  have hshift : (UInt64.ofNat (56 - 8 * i)).toNat % 64 = 8 * (8 - 1 - i) := by
    rw [UInt64.toNat_ofNat']
    omega
  rw [hshift, UInt8.toNat_ofNat']

/-- **SHA-1.** However the message comes in, `final_digest` gives its digest. -/
theorem finalDigest_updates (s : Ctx) (chunks : List (List UInt8))
    (h : chunks.flatten.length < 2 ^ 61) :
    finalDigest (chunks.foldl update (init s)) = Fips180.sha1 chunks.flatten := by
  have hin := (absorbed_init s).updates chunks
  rw [List.nil_append] at hin
  have htotal : (chunks.foldl update (init s)).totalBytes = UInt64.ofNat chunks.flatten.length := by
    rw [totalBytes_updates]
    exact UInt64.zero_add _
  have hpad := (hin.padded (Fips180.bigEndian 8 (8 * chunks.flatten.length))).h
  rw [finalDigest, htotal]
  simp only [lengthBe_eq h]
  rw [digestBytes_eq, hpad]
  rfl

/-- A message that fits into one block with its padding. -/
theorem hash_of_pad (s : Ctx) {m : List UInt8} (block : Vector UInt8 64)
    (h : Fips180.pad m = block.toList) :
    hash s m = digestBytes (compress (init s).h block) := by
  have hshort : m.length < 2 ^ 61 := by
    have hlen := congrArg List.length h
    rw [Fips180.pad, Vector.length_toList] at hlen
    simp only [List.length_append] at hlen
    omega
  have hchunk := finalDigest_updates s [m] (by rwa [List.flatten_singleton])
  rw [List.flatten_singleton] at hchunk
  rw [show hash s m = Fips180.sha1 m from hchunk, Fips180.sha1, h,
    foldBlocks_one (by decide) (Vector.length_toList), digestBytes_eq, words_compress]
  rfl

theorem finalDigest_updates_abc :
    finalDigest ([[0x61], [], [0x62, 0x63]].foldl update (init default))
      = Fips180.sha1 [0x61, 0x62, 0x63] :=
  finalDigest_updates default [[0x61], [], [0x62, 0x63]] (by decide)

end Sha1

end OpenClickNP
