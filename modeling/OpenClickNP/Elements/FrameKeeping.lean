import OpenClickNP.Elements.AclTcam
import OpenClickNP.Elements.AesPackets
import OpenClickNP.Elements.AesPipeline
import OpenClickNP.Elements.HashTable
import OpenClickNP.Elements.IpChecksum
import OpenClickNP.Elements.PacketSetDip
import OpenClickNP.Elements.Rendezvous
import OpenClickNP.Elements.Sha1
import OpenClickNP.Lib.Framing

/-!
# Elements that keep packets whole

Flits are `Clean` that begin a sequence of packets, none of them faulty. An element keeps this up
(`KeepsClean`) if on each port it puts out a flit with the marks of the one it reads (`SameMarks`),
or only flits that are packets of their own (`WholeFrame`).
-/

namespace OpenClickNP

open Histories FlagFraming

/-! ## Flags -/

namespace Flit

@[simp] theorem flag_set (f : Flit) (lane : Int) (v : UInt64) (mask : UInt8) :
    (f.set lane v).flag mask = f.flag mask := by
  unfold set
  split
  · rfl
  · have hbyte : (ofMem (ByteMem.store f.mem (lane.toNat * 8) 8 v.toNat)).mem 32 = f.mem 32 := by
      rw [mem_ofMem _ (by decide), ByteMem.store, if_neg (by omega)]
    unfold flag
    exact congrArg (· &&& mask != 0) hbyte

@[simp] theorem flag_empty (mask : UInt8) : ({} : Flit).flag mask = false := by
  show ((0 : UInt8) &&& mask != 0) = false
  simp

theorem flag_setSop_of_disjoint (f : Flit) {mask : UInt8} (h : 0x01 &&& mask = 0) (b : Bool) :
    (f.setSop b).flag mask = f.flag mask := flag_setFlag_of_disjoint f h b

theorem flag_setEop_of_disjoint (f : Flit) {mask : UInt8} (h : 0x02 &&& mask = 0) (b : Bool) :
    (f.setEop b).flag mask = f.flag mask := flag_setFlag_of_disjoint f h b

/-- The bytes in front of a lane that is set. -/
theorem getData_set (f : Flit) {lane : Int} {n : Nat} (h : n ≤ lane.toNat * 8) (v : UInt64) :
    (f.set lane v).getData n = f.getData n := by
  unfold set
  split
  · rfl
  · rw [getData_eq_take, getData_eq_take f]
    refine List.ext_getElem (by simp [length_getData]) fun i hi hi' => ?_
    rw [List.length_take, length_getData] at hi
    rw [List.getElem_take, List.getElem_take, getElem_getData, getElem_getData,
      mem_ofMem _ (by omega), ByteMem.store, if_neg (by omega)]

theorem sop_setSop (f : Flit) (b : Bool) : (f.setSop b).sop = b :=
  flag_setFlag_self f (by decide) b

theorem eop_setEop (f : Flit) (b : Bool) : (f.setEop b).eop = b :=
  flag_setFlag_self f (by decide) b

end Flit

/-! ## Clean flits -/

/-- The first flits of some packets, none of them faulty. -/
structure Clean (fs : List Flit) : Prop where
  framed : BeginsFramed Flit.sop Flit.eop fs
  sound : ∀ f ∈ fs, faulty f = false

theorem clean_iff (fs : List Flit) :
    Clean fs ↔ FlagFraming.run Flit.sop Flit.eop fs ≠ none ∧ ∀ f ∈ fs, faulty f = false :=
  ⟨fun h => ⟨(beginsFramed_iff exists_closing fs).mp h.framed, h.sound⟩,
    fun h => ⟨(beginsFramed_iff exists_closing fs).mpr h.1, h.2⟩⟩

instance (fs : List Flit) : Decidable (Clean fs) := decidable_of_iff _ (clean_iff fs).symm

/-- Marks of a flit go over to another. -/
structure SameMarks (f g : Flit) : Prop where
  sop : g.sop = f.sop
  eop : g.eop = f.eop
  sound : faulty f = false → faulty g = false

/-- A flit that is a packet of its own. -/
structure WholeFrame (g : Flit) : Prop where
  sop : g.sop = true
  eop : g.eop = true
  sound : faulty g = false

theorem clean_nil : Clean [] :=
  ⟨⟨[], List.forall_mem_nil _, List.nil_prefix⟩, List.forall_mem_nil _⟩

theorem Clean.of_begin {fs gs : List Flit} (h : Clean gs) (hfs : fs <+: gs) : Clean fs :=
  ⟨h.framed.of_begin hfs, fun f hf => h.sound f (hfs.subset hf)⟩

theorem clean_of_sameMarks {fs gs : List Flit} (hfs : Clean fs)
    (h : List.Forall₂ (fun f g => faulty f = false → SameMarks f g) fs gs) : Clean gs := by
  have hmarks : List.Forall₂ SameMarks fs gs := by
    have hsound := hfs.sound
    clear hfs
    induction h with
    | nil => exact .nil
    | cons hhead _ ih =>
      exact .cons (hhead (hsound _ List.mem_cons_self))
        (ih fun f hf => hsound f (List.mem_cons_of_mem _ hf))
  refine ⟨hfs.framed.of_marks exists_closing (hmarks.imp fun f g h => ⟨h.sop, h.eop⟩), ?_⟩
  intro g hg
  obtain ⟨i, hi, rfl⟩ := List.mem_iff_getElem.mp hg
  have hlen := hmarks.length_eq
  exact (hmarks.get (by omega) hi).sound (hfs.sound _ (List.getElem_mem _))

theorem clean_of_whole {gs : List Flit} (h : ∀ g ∈ gs, WholeFrame g) : Clean gs :=
  ⟨beginsFramed_of_whole fun g hg => ⟨(h g hg).sop, (h g hg).eop⟩, fun g hg => (h g hg).sound⟩

/-! ## Functions that keep flits clean -/

def KeepsClean (F : StreamFn Flit) : Prop := ∀ h, (∀ p, Clean (h p)) → ∀ q, Clean (F.apply h q)

section
variable {σ : Type}

/-- The flits for a port, one for each flit that is read. -/
theorem forall₂_routed {M : Transducer σ Flit (Nat × Flit)} {q : Nat} {R : Flit → Flit → Prop}
    (h : ∀ st f, faulty f = false →
      ∃ g, ((M.out st f).filter (·.1 == q)).map Prod.snd = [g] ∧ R f g)
    {fs : List Flit} (hsound : ∀ f ∈ fs, faulty f = false) (st : σ) :
    List.Forall₂ R fs (((M.output st fs).filter (·.1 == q)).map Prod.snd) := by
  induction fs generalizing st with
  | nil => exact .nil
  | cons f fs ih =>
    obtain ⟨g, hg, hR⟩ := h st f (hsound f List.mem_cons_self)
    rw [Transducer.output_cons, List.filter_append, List.map_append, hg]
    exact .cons hR (ih (fun x hx => hsound x (List.mem_cons_of_mem _ hx)) _)

theorem exists_of_mem_output {β : Type} {M : Transducer σ Flit β} {fs : List Flit} {st : σ} {x : β}
    (hx : x ∈ M.output st fs) : ∃ st' f, x ∈ M.out st' f := by
  induction fs generalizing st with
  | nil => cases hx
  | cons f fs ih =>
    rw [Transducer.output_cons] at hx
    rcases List.mem_append.mp hx with hx | hx
    · exact ⟨st, f, hx⟩
    · exact ih hx

/-- On each port one flit with the same marks, or packets of one flit. -/
theorem keepsClean_routed {M : Transducer σ Flit (Nat × Flit)} (st : σ)
    (h : ∀ q, (∀ st f, faulty f = false →
        ∃ g, ((M.out st f).filter (·.1 == q)).map Prod.snd = [g] ∧ SameMarks f g) ∨
      ∀ st f, ∀ o ∈ M.out st f, o.1 = q → WholeFrame o.2) : KeepsClean (StreamFn.routed M st) := by
  intro hist hclean q
  show Clean (((M.output st (hist 1)).filter (·.1 == q)).map Prod.snd)
  rcases h q with hrelay | hwhole
  · apply clean_of_sameMarks (hclean 1)
    have hrouted := forall₂_routed hrelay (hclean 1).sound st
    refine List.Forall₂.imp ?_ hrouted
    intro f g hmarks _
    exact hmarks
  · apply clean_of_whole
    intro g hg
    obtain ⟨o, ho, rfl⟩ := List.mem_map.mp hg
    obtain ⟨hmem, hport⟩ := List.mem_filter.mp ho
    obtain ⟨st', f, hout⟩ := exists_of_mem_output hmem
    exact hwhole st' f o hout (beq_iff_eq.mp hport)

theorem keepsClean_whole {M : Transducer σ Flit Flit} (st : σ)
    (h : ∀ st f, ∀ g ∈ M.out st f, WholeFrame g) : KeepsClean (StreamFn.ofMachine M st) := by
  intro hist _ q
  apply clean_of_whole
  intro g hg
  change g ∈ (if q = 1 then M.output st (hist 1) else []) at hg
  split at hg
  · obtain ⟨st', f, hout⟩ := exists_of_mem_output hg
    exact h st' f g hout
  · cases hg

end

theorem keepsClean_rendezvous {pair : Flit → Flit → Flit}
    (h : (∀ f g, SameMarks f (pair f g)) ∨ ∀ f g, faulty f = false → WholeFrame (pair f g)) :
    KeepsClean (StreamFn.rendezvous pair) := by
  intro hist hclean q
  show Clean (if q = 1 then (hist 1).zipWith pair (hist 2) else [])
  split
  · rcases h with hmarks | hwhole
    · -- the flits of port 1 that find a partner
      let n := min (hist 1).length (hist 2).length
      have htaken : Clean ((hist 1).take n) := (hclean 1).of_begin (List.take_prefix _ _)
      apply clean_of_sameMarks htaken
      rw [List.forall₂_iff_get]
      refine ⟨by simp [n], fun i hi hi' => ?_⟩
      simp only [List.get_eq_getElem, List.getElem_take, List.getElem_zipWith]
      exact fun _ => hmarks _ _
    · apply clean_of_whole
      intro g hg
      obtain ⟨i, hi, rfl⟩ := List.mem_iff_getElem.mp hg
      rw [List.getElem_zipWith]
      exact hwhole _ _ ((hclean 1).sound _ (List.getElem_mem _))
  · exact clean_nil

/-! ## The flits that elements put out -/

theorem faulty_eq_false_iff (f : Flit) :
    faulty f = false ↔ f.flag 0x04 = false ∧ f.flag 0x08 = false := Bool.or_eq_false_iff

theorem sameMarks_of_flag {f g : Flit} (h : ∀ mask, g.flag mask = f.flag mask) : SameMarks f g where
  sop := h _
  eop := h _
  sound hf := by
    rw [faulty_eq_false_iff, h, h]
    exact (faulty_eq_false_iff f).mp hf

theorem sameMarks_refl (f : Flit) : SameMarks f f := sameMarks_of_flag fun _ => rfl

theorem sameMarks_set (f : Flit) (lane : Int) (v : UInt64) : SameMarks f (f.set lane v) :=
  sameMarks_of_flag fun mask => Flit.flag_set f lane v mask

/-- `o.set_sop(f.sop()); o.set_eop(f.eop())`, of a flit without flags. -/
theorem sameMarks_copied {o : Flit} (ho : ∀ mask, o.flag mask = false) (f : Flit) :
    SameMarks f ((o.setSop f.sop).setEop f.eop) where
  sop := (Flit.flag_setEop_of_disjoint _ (by decide) _).trans (Flit.sop_setSop _ _)
  eop := Flit.eop_setEop _ _
  sound _ := by
    rw [faulty_eq_false_iff, Flit.flag_setEop_of_disjoint _ (by decide),
      Flit.flag_setEop_of_disjoint _ (by decide), Flit.flag_setSop_of_disjoint _ (by decide),
      Flit.flag_setSop_of_disjoint _ (by decide)]
    exact ⟨ho _, ho _⟩

/-- `m.set_sop(true); m.set_eop(true)`, of a flit without flags. -/
theorem whole_marked {o : Flit} (ho : ∀ mask, o.flag mask = false) :
    WholeFrame ((o.setSop true).setEop true) where
  sop := (Flit.flag_setEop_of_disjoint _ (by decide) _).trans (Flit.sop_setSop _ _)
  eop := Flit.eop_setEop _ _
  sound := by
    rw [faulty_eq_false_iff, Flit.flag_setEop_of_disjoint _ (by decide),
      Flit.flag_setEop_of_disjoint _ (by decide), Flit.flag_setSop_of_disjoint _ (by decide),
      Flit.flag_setSop_of_disjoint _ (by decide)]
    exact ⟨ho _, ho _⟩

theorem whole_single (v : UInt64) : WholeFrame (Flit.single v) := whole_marked (by simp)

theorem whole_laneWise (n : Nat) (op : UInt64 → UInt64 → UInt64) (a b : Flit) :
    WholeFrame (laneWise n op a b) := by
  apply whole_marked
  intro mask
  -- each lane that is set leaves the flags
  have hfold : ∀ (is : List Nat) (out : Flit), out.flag mask = false →
      (is.foldl (fun (out : Flit) (i : Nat) => out.set i (op (a.get i) (b.get i))) out).flag mask
        = false := by
    intro is
    induction is with
    | nil => exact fun _ h => h
    | cons i is ih => exact fun out h => ih _ ((Flit.flag_set out _ _ mask).trans h)
  exact hfold _ _ (Flit.flag_empty mask)

theorem sameMarks_ecbFlit (encryptBlock : Vector UInt8 16 → Vector UInt8 16) (f : Flit) :
    SameMarks f (ecbFlit encryptBlock f) := by
  apply sameMarks_copied
  intro mask
  unfold Flit.flag
  simp

theorem sameMarks_aesCtrFlit (st : AesCtrState) (f : Flit) : SameMarks f (aesCtrFlit st f) := by
  apply sameMarks_copied
  simp

theorem sameMarks_setDip (newDip : UInt32) (f : Flit) : SameMarks f (setDip newDip f) := by
  unfold setDip
  split
  · exact sameMarks_of_flag fun mask => Flit.flag_setData f _ 32 mask
  · exact sameMarks_refl f

theorem whole_resultFlit (st : HashTableState) (k0 k1 : UInt64) :
    WholeFrame (resultFlit st k0 k1) := by
  apply whole_marked
  intro mask
  rw [Flit.flag_set, Flit.flag_set]
  split <;> simp

theorem whole_digestFlit (digest : List UInt8) : WholeFrame (digestFlit digest) := by
  apply whole_marked
  simp

end OpenClickNP
