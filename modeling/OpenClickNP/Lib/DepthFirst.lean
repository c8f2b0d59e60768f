import Mathlib.Data.Finset.Card
import Mathlib.Logic.Relation

/-!
# Documents flattened depth first

A document is a list of items: an own item (`none`) or the inclusion of another document
(`some g`). Flattening puts an included document in the place of the inclusion, the first time
that it is included; the documents seen are passed along.

The own items of each document come out once, in their order (`Visited`). The items of an included
document come in front of what stands behind the inclusion, unless the document is still open there
(`InFront`).
-/

namespace DepthFirst

open Relation (ReflTransGen)

variable {F : Type*}

/-- An own item in the flattened text: its document, its place there, and the documents that are
open at it, its own document first. -/
structure Occurrence (F : Type*) where
  file : F
  index : Nat
  chain : List F

variable (body : F → List (Option F))

/-- The `i`-th item of the document is its own. -/
def IsOwn (f : F) (i : Nat) : Prop := (body f)[i]? = some none

/-- The document includes the other at its `i`-th item. -/
def Includes (f : F) (i : Nat) (g : F) : Prop := (body f)[i]? = some (some g)

/-- One document leads to another. -/
def LeadsTo : F → F → Prop := ReflTransGen fun f g => ∃ i, Includes body f i g

/-- The items of `f`, from the `i`-th on. -/
def visitItems (visitFile : F → List F → Option (List (Occurrence F) × List F)) (f : F)
    (chain : List F) : Nat → List (Option F) → List F → Option (List (Occurrence F) × List F)
  | _, [], seen => some ([], seen)
  | i, some g :: items, seen => do
    let (sub, seen) ← visitFile g seen
    let (rest, seen) ← visitItems visitFile f chain (i + 1) items seen
    pure (sub ++ rest, seen)
  | i, none :: items, seen => do
    let (rest, seen) ← visitItems visitFile f chain (i + 1) items seen
    pure (⟨f, i, chain⟩ :: rest, seen)

section

variable {visitFile : F → List F → Option (List (Occurrence F) × List F)} {f g : F}
  {chain seen seen' : List F} {i : Nat} {items : List (Option F)} {occ : List (Occurrence F)}

theorem visitItems_own_iff :
    visitItems visitFile f chain i (none :: items) seen = some (occ, seen') ↔
      ∃ rest, visitItems visitFile f chain (i + 1) items seen = some (rest, seen') ∧
        occ = ⟨f, i, chain⟩ :: rest := by
  rw [visitItems, Option.bind_eq_bind, Option.bind_eq_some_iff]
  constructor
  · rintro ⟨⟨rest, seen₁⟩, hrest, heq⟩
    cases heq
    exact ⟨rest, hrest, rfl⟩
  · rintro ⟨rest, hrest, rfl⟩
    exact ⟨(rest, seen'), hrest, rfl⟩

theorem visitItems_include_iff :
    visitItems visitFile f chain i (some g :: items) seen = some (occ, seen') ↔
      ∃ sub seen₁ rest, visitFile g seen = some (sub, seen₁) ∧
        visitItems visitFile f chain (i + 1) items seen₁ = some (rest, seen') ∧
        occ = sub ++ rest := by
  rw [visitItems, Option.bind_eq_bind, Option.bind_eq_some_iff]
  constructor
  · rintro ⟨⟨sub, seen₁⟩, hsub, h⟩
    obtain ⟨⟨rest, seen₂⟩, hrest, heq⟩ := Option.bind_eq_some_iff.mp h
    cases heq
    exact ⟨sub, seen₁, rest, hsub, hrest, rfl⟩
  · rintro ⟨sub, seen₁, rest, hsub, hrest, rfl⟩
    exact ⟨(sub, seen₁), hsub, Option.bind_eq_some_iff.mpr ⟨(rest, seen'), hrest, rfl⟩⟩

end

section

variable [DecidableEq F]

/-- The document `f`, included while the documents `chain` are open; `none` when more than `depth`
would be open below it. -/
def visit : Nat → List F → F → List F → Option (List (Occurrence F) × List F)
  | 0, _, _, _ => none
  | depth + 1, chain, f, seen =>
    if f ∈ seen then some ([], seen)
    else visitItems (visit depth (f :: chain)) f (f :: chain) 0 (body f) (seen ++ [f])

/-! ## Termination -/

section

variable {body} {files : Finset F}

/-- How many of the documents have not been seen. -/
def unseen (files : Finset F) (seen : List F) : Nat := (files.filter (· ∉ seen)).card

theorem unseen_le_of_subset {seen seen' : List F} (h : seen ⊆ seen') :
    unseen files seen' ≤ unseen files seen := by
  refine Finset.card_le_card fun g hg => ?_
  obtain ⟨hin, hnot⟩ := Finset.mem_filter.mp hg
  exact Finset.mem_filter.mpr ⟨hin, fun hseen => hnot (h hseen)⟩

theorem unseen_lt_of_new {seen : List F} {f : F} (hf : f ∈ files) (hnew : f ∉ seen) :
    unseen files (seen ++ [f]) < unseen files seen := by
  refine Finset.card_lt_card (Finset.ssubset_iff_subset_ne.mpr ⟨fun g hg => ?_, fun heq => ?_⟩)
  · obtain ⟨hin, hnot⟩ := Finset.mem_filter.mp hg
    exact Finset.mem_filter.mpr ⟨hin, fun hseen => hnot (List.mem_append_left _ hseen)⟩
  · have hmem : f ∈ files.filter (· ∉ seen) := Finset.mem_filter.mpr ⟨hf, hnew⟩
    rw [← heq] at hmem
    exact (Finset.mem_filter.mp hmem).2 (by simp)

/-- The items can be flattened when each document that they include can. Induction on the
items. -/
theorem exists_visitItems {visitFile : F → List F → Option (List (Occurrence F) × List F)}
    {depth : Nat}
    (hfile : ∀ g ∈ files, ∀ seen, unseen files seen < depth →
      ∃ occ seen', visitFile g seen = some (occ, seen') ∧ seen ⊆ seen')
    (f : F) (chain : List F) {items : List (Option F)} (hitems : ∀ g, some g ∈ items → g ∈ files)
    (i : Nat) {seen : List F} (hseen : unseen files seen < depth) :
    ∃ occ seen', visitItems visitFile f chain i items seen = some (occ, seen') ∧
      seen ⊆ seen' := by
  induction items generalizing i seen with
  | nil => exact ⟨[], seen, rfl, List.Subset.refl _⟩
  | cons item items ih =>
    have hitems' := fun g hg => hitems g (List.mem_cons_of_mem _ hg)
    cases item with
    | none =>
      obtain ⟨occ, seen', hrest, hsub⟩ := ih hitems' (i + 1) hseen
      exact ⟨_, seen', visitItems_own_iff.mpr ⟨occ, hrest, rfl⟩, hsub⟩
    | some g =>
      obtain ⟨occ₁, seen₁, hg, hsub₁⟩ := hfile g (hitems g List.mem_cons_self) seen hseen
      obtain ⟨occ₂, seen₂, hrest, hsub₂⟩ :=
        ih hitems' (i + 1) (Nat.lt_of_le_of_lt (unseen_le_of_subset hsub₁) hseen)
      exact ⟨_, seen₂, visitItems_include_iff.mpr ⟨occ₁, seen₁, occ₂, hg, hrest, rfl⟩,
        fun x hx => hsub₂ (hsub₁ hx)⟩

/-- **Termination.** With more depth than documents that have not been seen, a document of a
finite set closed under inclusion can be flattened. Induction on the depth. -/
theorem exists_visit (hclosed : ∀ f ∈ files, ∀ g, some g ∈ body f → g ∈ files) {depth : Nat}
    (chain : List F) {f : F} (hf : f ∈ files) {seen : List F} (hseen : unseen files seen < depth) :
    ∃ occ seen', visit body depth chain f seen = some (occ, seen') ∧ seen ⊆ seen' := by
  induction depth generalizing chain f seen with
  | zero => omega
  | succ depth ih =>
    unfold visit
    by_cases hold : f ∈ seen
    · rw [if_pos hold]
      exact ⟨[], seen, rfl, List.Subset.refl _⟩
    · rw [if_neg hold]
      have hlt := unseen_lt_of_new hf hold
      have hless : unseen files (seen ++ [f]) < depth := by omega
      obtain ⟨occ, seen', hitems, hsub⟩ := exists_visitItems
        (fun g hg seen hseen => ih (f :: chain) hg hseen) f (f :: chain) (hclosed f hf) 0 hless
      exact ⟨occ, seen', hitems, fun x hx => hsub (List.mem_append_left _ hx)⟩

end

end

/-! ## What comes out -/

variable {body}

/-- All own items of `f` are among the occurrences. -/
def AllIn (body : F → List (Option F)) (f : F) (occ : List (Occurrence F)) : Prop :=
  ∀ i, IsOwn body f i → ∃ c, ⟨f, i, c⟩ ∈ occ

/-- An included document that is not open has its own items in front of what stands behind the
inclusion, unless it was seen before. -/
def InFront (body : F → List (Option F)) (seen : List F) (occ : List (Occurrence F)) : Prop :=
  ∀ n x, occ[n]? = some x → ∀ i < x.index, ∀ g, Includes body x.file i g → g ∉ x.chain →
    g ∈ seen ∨ AllIn body g (occ.take n)

/-- The own items of one document stand in their order. -/
def InOrder (occ : List (Occurrence F)) : Prop :=
  occ.Pairwise fun x y => x.file = y.file → x.index < y.index

/-- What comes out, in front of an item of `f` or of `f` as a whole, while `chain` are open. -/
structure Flattens (body : F → List (Option F)) (chain : List F) (f : F) (seen : List F)
    (occ : List (Occurrence F)) (seen' : List F) : Prop where
  /-- No document is forgotten. -/
  grows : seen ⊆ seen'
  inOrder : InOrder occ
  inFront : InFront body seen occ
  /-- What a document seen for the first time includes has been seen. -/
  closed : ∀ g ∈ seen', g ∉ seen → ∀ i h, Includes body g i h → h ∈ seen'
  /-- A document seen for the first time has been led to. -/
  reached : ∀ g ∈ seen', g ∉ seen → LeadsTo body f g
  /-- What is open at an item was open before or leads to its document. -/
  chain_leads : ∀ x ∈ occ, ∀ h ∈ x.chain, h ∈ chain ∨ LeadsTo body h x.file
  /-- What is open stays open. -/
  chain_subset : ∀ x ∈ occ, chain ⊆ x.chain

/-- What comes out of the document `f`. -/
structure Visited (body : F → List (Option F)) (chain : List F) (f : F) (seen : List F)
    (occ : List (Occurrence F)) (seen' : List F) : Prop
    extends Flattens body chain f seen occ seen' where
  self : f ∈ seen'
  /-- The own items are those of the documents seen for the first time. -/
  mem : ∀ g i, (∃ c, ⟨g, i, c⟩ ∈ occ) ↔ g ∈ seen' ∧ g ∉ seen ∧ IsOwn body g i

/-- What comes out of the items of `f` from the `i`-th on. -/
structure VisitedItems (body : F → List (Option F)) (chain : List F) (f : F) (i : Nat)
    (seen : List F) (occ : List (Occurrence F)) (seen' : List F) : Prop
    extends Flattens body chain f seen occ seen' where
  included : ∀ j, i ≤ j → ∀ g, Includes body f j g → g ∈ seen'
  /-- The own items are those of the document and of the documents seen for the first time. -/
  mem : ∀ g j, (∃ c, ⟨g, j, c⟩ ∈ occ) ↔
    g = f ∧ i ≤ j ∧ IsOwn body f j ∨ g ∈ seen' ∧ g ∉ seen ∧ IsOwn body g j
  open_self : ∀ x ∈ occ, f ∈ x.chain

theorem AllIn.mono {f : F} {occ occ' : List (Occurrence F)} (h : AllIn body f occ)
    (hsub : occ ⊆ occ') : AllIn body f occ' := by
  intro i hi
  obtain ⟨c, hc⟩ := h i hi
  exact ⟨c, hsub hc⟩

/-- Two pieces of the flattened text: what the first has seen for the first time is complete in
it. -/
theorem InFront.append {seen seen₁ : List F} {occ₁ occ₂ : List (Occurrence F)}
    (h₁ : InFront body seen occ₁) (h₂ : InFront body seen₁ occ₂)
    (hcomplete : ∀ g ∈ seen₁, g ∉ seen → AllIn body g occ₁) :
    InFront body seen (occ₁ ++ occ₂) := by
  intro n x hx i hi g hg hopen
  rcases Nat.lt_or_ge n occ₁.length with hlt | hge
  · rw [List.getElem?_append_left hlt] at hx
    rw [List.take_append_of_le_length (Nat.le_of_lt hlt)]
    exact h₁ n x hx i hi g hg hopen
  · rw [List.getElem?_append_right hge] at hx
    rw [List.take_append, List.take_of_length_le hge]
    rcases h₂ _ x hx i hi g hg hopen with hseen | hall
    · by_cases hold : g ∈ seen
      · exact Or.inl hold
      · exact Or.inr ((hcomplete g hseen hold).mono (List.subset_append_left _ _))
    · exact Or.inr (hall.mono (List.subset_append_right _ _))

/-- An own item of `f` in front: what `f` includes before it has been seen. -/
theorem InFront.cons {f : F} {i : Nat} {chain seen : List F} {occ : List (Occurrence F)}
    (h : InFront body seen occ) (hbefore : ∀ j < i, ∀ g, Includes body f j g → g ∈ seen) :
    InFront body seen (⟨f, i, chain⟩ :: occ) := by
  intro n x hx j hj g hg hopen
  cases n with
  | zero =>
    cases hx
    exact Or.inl (hbefore j hj g hg)
  | succ n =>
    rcases h n x hx j hj g hg hopen with hseen | hall
    · exact Or.inl hseen
    · exact Or.inr (hall.mono (List.subset_cons_self _ _))

section

variable {chain seen seen₁ seen' : List F} {f g : F} {i : Nat} {sub rest : List (Occurrence F)}

/-- Behind the last item. -/
theorem VisitedItems.nil (hlen : (body f).length ≤ i) :
    VisitedItems body chain f i seen [] seen := by
  have hnone : ∀ j, i ≤ j → (body f)[j]? = none := by
    intro j hj
    exact List.getElem?_eq_none (by omega)
  refine ⟨⟨List.Subset.refl _, .nil, nofun, fun g hin hout => absurd hin hout,
    fun g hin hout => absurd hin hout, nofun, nofun⟩, fun j hj g hg => ?_, fun g j => ?_, nofun⟩
  · rw [Includes, hnone j hj] at hg
    cases hg
  · constructor
    · rintro ⟨c, hc⟩
      cases hc
    · rintro (⟨-, hj, hown⟩ | ⟨hin, hout, -⟩)
      · rw [IsOwn, hnone j hj] at hown
        cases hown
      · exact absurd hin hout

/-- An own item in front. -/
theorem VisitedItems.own (hitem : IsOwn body f i) (hself : f ∈ seen)
    (hbefore : ∀ j < i, ∀ g, Includes body f j g → g ∈ seen)
    (hr : VisitedItems body chain f (i + 1) seen rest seen') :
    VisitedItems body chain f i seen (⟨f, i, f :: chain⟩ :: rest) seen' := by
  have hinOrder : InOrder (⟨f, i, f :: chain⟩ :: rest) := by
    refine List.pairwise_cons.mpr ⟨fun y hy hfile => ?_, hr.inOrder⟩
    -- the own items that follow have higher places
    rcases (hr.mem y.file y.index).mp ⟨y.chain, hy⟩ with ⟨-, hle, -⟩ | ⟨-, hout, -⟩
    · exact hle
    · exact absurd (hfile ▸ hself) hout
  refine ⟨⟨hr.grows, hinOrder, hr.inFront.cons hbefore, hr.closed, hr.reached, ?_, ?_⟩,
    fun j hj g hg => ?_, fun g j => ?_, ?_⟩
  · rintro x hx h hh
    rcases List.mem_cons.mp hx with rfl | hx
    · rcases List.mem_cons.mp hh with rfl | hh
      · exact Or.inr ReflTransGen.refl
      · exact Or.inl hh
    · exact hr.chain_leads x hx h hh
  · rintro x hx
    rcases List.mem_cons.mp hx with rfl | hx
    · exact List.subset_cons_self _ _
    · exact hr.chain_subset x hx
  · rcases Nat.eq_or_lt_of_le hj with rfl | hlt
    · rw [Includes, hitem] at hg
      cases hg
    · exact hr.included j hlt g hg
  · constructor
    · rintro ⟨c, hc⟩
      rcases List.mem_cons.mp hc with heq | hc
      · cases heq
        exact Or.inl ⟨rfl, Nat.le_refl _, hitem⟩
      · rcases (hr.mem g j).mp ⟨c, hc⟩ with ⟨hg, hle, hown⟩ | hnew
        · exact Or.inl ⟨hg, Nat.le_of_succ_le hle, hown⟩
        · exact Or.inr hnew
    · rintro (⟨rfl, hle, hown⟩ | hnew)
      · rcases Nat.eq_or_lt_of_le hle with rfl | hlt
        · exact ⟨_, List.mem_cons_self⟩
        · obtain ⟨c, hc⟩ := (hr.mem g j).mpr (Or.inl ⟨rfl, hlt, hown⟩)
          exact ⟨c, List.mem_cons_of_mem _ hc⟩
      · obtain ⟨c, hc⟩ := (hr.mem g j).mpr (Or.inr hnew)
        exact ⟨c, List.mem_cons_of_mem _ hc⟩
  · rintro x hx
    rcases List.mem_cons.mp hx with rfl | hx
    · exact List.mem_cons_self
    · exact hr.open_self x hx

/-- What comes out of an included document belongs to what it leads to. -/
theorem Visited.leadsTo_file (hs : Visited body chain g seen sub seen₁) {x : Occurrence F}
    (hx : x ∈ sub) : x.file ∈ seen₁ ∧ x.file ∉ seen ∧ LeadsTo body g x.file := by
  obtain ⟨hin, hout, -⟩ := (hs.mem x.file x.index).mp ⟨x.chain, hx⟩
  exact ⟨hin, hout, hs.reached _ hin hout⟩

/-- The included document and what follows have no document in common. -/
theorem VisitedItems.inOrder_include (hself : f ∈ seen)
    (hs : Visited body (f :: chain) g seen sub seen₁)
    (hr : VisitedItems body chain f (i + 1) seen₁ rest seen') : InOrder (sub ++ rest) := by
  refine List.pairwise_append.mpr ⟨hs.inOrder, hr.inOrder, fun x hx y hy hfile => ?_⟩
  obtain ⟨hin, hout, -⟩ := hs.leadsTo_file hx
  rcases (hr.mem y.file y.index).mp ⟨y.chain, hy⟩ with ⟨hy, -, -⟩ | ⟨-, hnew, -⟩
  · rw [hfile, hy] at hout
    exact absurd hself hout
  · rw [hfile] at hin
    exact absurd hin hnew

/-- What has been seen after both pieces is new in the first or in the second. -/
theorem seen_in_piece {h : F} (hin : h ∈ seen') (hout : h ∉ seen) :
    h ∈ seen₁ ∧ h ∉ seen ∨ h ∈ seen' ∧ h ∉ seen₁ := by
  by_cases hmid : h ∈ seen₁
  · exact Or.inl ⟨hmid, hout⟩
  · exact Or.inr ⟨hin, hmid⟩

theorem VisitedItems.mem_include (hitem : Includes body f i g)
    (hs : Visited body (f :: chain) g seen sub seen₁)
    (hr : VisitedItems body chain f (i + 1) seen₁ rest seen') (h : F) (j : Nat) :
    (∃ c, ⟨h, j, c⟩ ∈ sub ++ rest) ↔
      h = f ∧ i ≤ j ∧ IsOwn body f j ∨ h ∈ seen' ∧ h ∉ seen ∧ IsOwn body h j := by
  constructor
  · rintro ⟨c, hc⟩
    rcases List.mem_append.mp hc with hc | hc
    · obtain ⟨hin, hout, hown⟩ := (hs.mem h j).mp ⟨c, hc⟩
      exact Or.inr ⟨hr.grows hin, hout, hown⟩
    · rcases (hr.mem h j).mp ⟨c, hc⟩ with ⟨hf, hle, hown⟩ | ⟨hin, hout, hown⟩
      · exact Or.inl ⟨hf, Nat.le_of_succ_le hle, hown⟩
      · exact Or.inr ⟨hin, fun hold => hout (hs.grows hold), hown⟩
  · rintro (⟨rfl, hle, hown⟩ | ⟨hin, hout, hown⟩)
    · -- the `i`-th item is no own one
      have hlt : i + 1 ≤ j := by
        rcases Nat.eq_or_lt_of_le hle with rfl | hlt
        · rw [IsOwn] at hown
          rw [Includes, hown] at hitem
          cases hitem
        · exact hlt
      obtain ⟨c, hc⟩ := (hr.mem h j).mpr (Or.inl ⟨rfl, hlt, hown⟩)
      exact ⟨c, List.mem_append_right _ hc⟩
    · rcases seen_in_piece hin hout with ⟨hin, hout⟩ | ⟨hin, hout⟩
      · obtain ⟨c, hc⟩ := (hs.mem h j).mpr ⟨hin, hout, hown⟩
        exact ⟨c, List.mem_append_left _ hc⟩
      · obtain ⟨c, hc⟩ := (hr.mem h j).mpr (Or.inr ⟨hin, hout, hown⟩)
        exact ⟨c, List.mem_append_right _ hc⟩

/-- An inclusion in front. -/
theorem VisitedItems.include (hitem : Includes body f i g) (hself : f ∈ seen)
    (hs : Visited body (f :: chain) g seen sub seen₁)
    (hr : VisitedItems body chain f (i + 1) seen₁ rest seen') :
    VisitedItems body chain f i seen (sub ++ rest) seen' := by
  have hlead : LeadsTo body f g := ReflTransGen.single ⟨i, hitem⟩
  have hcomplete : ∀ h ∈ seen₁, h ∉ seen → AllIn body h sub :=
    fun h hin hout j hj => (hs.mem h j).mpr ⟨hin, hout, hj⟩
  refine ⟨⟨fun x hx => hr.grows (hs.grows hx), inOrder_include hself hs hr,
    hs.inFront.append hr.inFront hcomplete, ?_, ?_, ?_, ?_⟩, fun j hj h hh => ?_,
    mem_include hitem hs hr, ?_⟩
  · intro h hin hout j h' hh'
    rcases seen_in_piece hin hout with ⟨hin, hout⟩ | ⟨hin, hout⟩
    · exact hr.grows (hs.closed h hin hout j h' hh')
    · exact hr.closed h hin hout j h' hh'
  · intro h hin hout
    rcases seen_in_piece hin hout with ⟨hin, hout⟩ | ⟨hin, hout⟩
    · exact hlead.trans (hs.reached h hin hout)
    · exact hr.reached h hin hout
  · intro x hx h hh
    rcases List.mem_append.mp hx with hx | hx
    · rcases hs.chain_leads x hx h hh with hopen | hleads
      · rcases List.mem_cons.mp hopen with rfl | hopen
        · -- `f` is open while `g` comes out, and leads to whatever `g` leads to
          exact Or.inr (hlead.trans (hs.leadsTo_file hx).2.2)
        · exact Or.inl hopen
      · exact Or.inr hleads
    · exact hr.chain_leads x hx h hh
  · intro x hx
    rcases List.mem_append.mp hx with hx | hx
    · exact fun h hh => hs.chain_subset x hx (List.mem_cons_of_mem _ hh)
    · exact hr.chain_subset x hx
  · rcases Nat.eq_or_lt_of_le hj with rfl | hlt
    · rw [Includes] at hitem hh
      rw [hitem] at hh
      cases hh
      exact hr.grows hs.self
    · exact hr.included j hlt h hh
  · intro x hx
    rcases List.mem_append.mp hx with hx | hx
    · exact hs.chain_subset x hx List.mem_cons_self
    · exact hr.open_self x hx

/-- All the items together. -/
theorem VisitedItems.visited {occ : List (Occurrence F)} (hnew : f ∉ seen)
    (hr : VisitedItems body chain f 0 (seen ++ [f]) occ seen') :
    Visited body chain f seen occ seen' := by
  have hself : f ∈ seen' := hr.grows (by simp)
  have hsplit : ∀ h, h ∉ seen → h = f ∨ h ∉ seen ++ [f] := by
    intro h hout
    by_cases hf : h = f
    · exact Or.inl hf
    · exact Or.inr (by simp [hout, hf])
  refine ⟨⟨fun x hx => hr.grows (List.mem_append_left _ hx), hr.inOrder, ?_, ?_, ?_,
    hr.chain_leads, hr.chain_subset⟩, hself, fun g i => ?_⟩
  · intro n x hx i hi g hg hopen
    rcases hr.inFront n x hx i hi g hg hopen with hold | hall
    · rcases List.mem_append.mp hold with hold | hf
      · exact Or.inl hold
      · -- `f` itself is open at everything that comes out
        rw [List.mem_singleton.mp hf] at hopen
        exact absurd (hr.open_self x (List.mem_of_getElem? hx)) hopen
    · exact Or.inr hall
  · intro g hin hout i h hh
    rcases hsplit g hout with rfl | hout
    · exact hr.included i (Nat.zero_le i) h hh
    · exact hr.closed g hin hout i h hh
  · intro g hin hout
    rcases hsplit g hout with rfl | hout
    · exact ReflTransGen.refl
    · exact hr.reached g hin hout
  · rw [hr.mem]
    constructor
    · rintro (⟨rfl, -, hown⟩ | ⟨hin, hout, hown⟩)
      · exact ⟨hself, hnew, hown⟩
      · exact ⟨hin, fun hold => hout (List.mem_append_left _ hold), hown⟩
    · rintro ⟨hin, hout, hown⟩
      rcases hsplit g hout with rfl | hout
      · exact Or.inl ⟨rfl, Nat.zero_le i, hown⟩
      · exact Or.inr ⟨hin, hout, hown⟩

end

theorem getElem?_of_drop_eq_cons {α : Type*} {l : List α} {i : Nat} {a : α} {rest : List α}
    (h : l.drop i = a :: rest) : l[i]? = some a ∧ l.drop (i + 1) = rest := by
  constructor
  · have hget : (l.drop i)[0]? = some a := by rw [h]; rfl
    rwa [List.getElem?_drop, Nat.add_zero] at hget
  · rw [← List.drop_drop, h]
    rfl

/-- What a document includes up to its `i`-th item has been seen, when it has been up to the one
before. -/
theorem seen_before_succ {f : F} {i : Nat} {seen seen' : List F} (hgrows : seen ⊆ seen')
    (hbefore : ∀ j < i, ∀ g, Includes body f j g → g ∈ seen)
    (hitem : ∀ g, Includes body f i g → g ∈ seen') :
    ∀ j < i + 1, ∀ g, Includes body f j g → g ∈ seen' := by
  intro j hj g hg
  rcases Nat.lt_succ_iff_lt_or_eq.mp hj with hlt | rfl
  · exact hgrows (hbefore j hlt g hg)
  · exact hitem g hg

/-- **The items of a document.** Induction on the items. -/
theorem visitedItems {visitFile : F → List F → Option (List (Occurrence F) × List F)}
    {chain : List F} {f : F}
    (hfile : ∀ g seen occ seen', visitFile g seen = some (occ, seen') →
      Visited body (f :: chain) g seen occ seen')
    {items : List (Option F)} {i : Nat} (hitems : (body f).drop i = items) {seen : List F}
    (hself : f ∈ seen) (hbefore : ∀ j < i, ∀ g, Includes body f j g → g ∈ seen)
    {occ : List (Occurrence F)} {seen' : List F}
    (h : visitItems visitFile f (f :: chain) i items seen = some (occ, seen')) :
    VisitedItems body chain f i seen occ seen' := by
  induction items generalizing i seen occ with
  | nil =>
    cases h
    exact .nil (List.drop_eq_nil_iff.mp hitems)
  | cons item items ih =>
    obtain ⟨hitem, hrest⟩ := getElem?_of_drop_eq_cons hitems
    cases item with
    | none =>
      obtain ⟨rest, hvisit, rfl⟩ := visitItems_own_iff.mp h
      have hbefore' := seen_before_succ (List.Subset.refl _) hbefore fun g hg => by
        rw [Includes, hitem] at hg
        cases hg
      exact .own hitem hself hbefore (ih hrest hself hbefore' hvisit)
    | some g =>
      obtain ⟨sub, seen₁, rest, hsub, hvisit, rfl⟩ := visitItems_include_iff.mp h
      have hs := hfile g seen sub seen₁ hsub
      have hbefore' := seen_before_succ hs.grows hbefore fun g' hg => by
        rw [Includes, hitem] at hg
        cases hg
        exact hs.self
      exact .include hitem hself hs (ih hrest (hs.grows hself) hbefore' hvisit)

variable [DecidableEq F]

/-- **A document.** Induction on the depth. -/
theorem visited {depth : Nat} {chain : List F} {f : F} {seen : List F} {occ : List (Occurrence F)}
    {seen' : List F} (h : visit body depth chain f seen = some (occ, seen')) :
    Visited body chain f seen occ seen' := by
  induction depth generalizing chain f seen occ seen' with
  | zero => cases h
  | succ depth ih =>
    unfold visit at h
    by_cases hold : f ∈ seen
    · rw [if_pos hold] at h
      cases h
      refine ⟨⟨List.Subset.refl _, .nil, nofun, fun g hin hout => absurd hin hout,
        fun g hin hout => absurd hin hout, nofun, nofun⟩, hold, fun g i => ?_⟩
      constructor
      · rintro ⟨c, hc⟩
        cases hc
      · rintro ⟨hin, hout, -⟩
        exact absurd hin hout
    · rw [if_neg hold] at h
      refine VisitedItems.visited hold (visitedItems (fun g seen occ seen' hg => ih hg)
        List.drop_zero (by simp) (fun j hj => absurd hj (Nat.not_lt_zero j)) h)

/-- **A root document.** The documents seen are those that it leads to. -/
theorem mem_seen_iff {depth : Nat} {root : F} {occ : List (Occurrence F)} {seen : List F}
    (h : visit body depth [] root [] = some (occ, seen)) (g : F) :
    g ∈ seen ↔ LeadsTo body root g := by
  have hv := visited h
  constructor
  · exact fun hg => hv.reached g hg List.not_mem_nil
  · intro hg
    induction hg with
    | refl => exact hv.self
    | tail _ hstep ih =>
      obtain ⟨i, hi⟩ := hstep
      exact hv.closed _ ih List.not_mem_nil i _ hi

end DepthFirst
