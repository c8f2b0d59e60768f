import OpenClickNP.Compiler.Lower
import OpenClickNP.Runtime.SignalRegs

/-!
# `backends/xrt_host/emit.cpp`: the classes the host calls

There is one header for each element type, made from the first of its kernels. Its `invoke` puts
the arguments into `lparam[0]`, `lparam[1]`, … in the order of the list, while the bodies of the
elements read `event.cmd` and `event.sparam`; the two agree exactly on lists of at most seven
parameters none of which is called so (`invoke_delivers_iff`). The headers do not depend on the
order of the kernels exactly when the kernels of a type would all have the same one
(`headers_orderFree_iff`).
-/

namespace OpenClickNP

open Ast Be ByteMem

/-! ## `emitElementHeader` -/

/-- The header of a type: the types and names of the parameters of `invoke`, if it has one. -/
structure ElementHeader where
  typeName : String
  invoke : Option (List (String × String)) := none
deriving DecidableEq, Repr

/-- The parameters of the typed `invoke` that a kernel asks for. -/
def invokeOf (k : KernelHls) : Option (List (String × String)) :=
  if k.hasSignal && !k.signalParams.isEmpty then
    some (k.signalParams.map fun sp => (sp.typeName, sp.fieldName))
  else none

def headerOf (k : KernelHls) : ElementHeader where
  typeName := k.elementType
  invoke := invokeOf k

/-- The loop that places the parameters: item `i` goes into `req.lparam[i]`, the seventh is the
last. -/
def inOrder {α : Type} (xs : List α) : List (Nat × α) :=
  (xs.take 7).zipIdx.map Prod.swap

def placeText (place : Nat × String) : String :=
  "        req.lparam[" ++ toString place.1 ++ "] = static_cast<uint64_t>(" ++ place.2 ++ ");\n"

def invokeText (params : List (String × String)) : String :=
  "\n    // Typed signal RPC derived from .signal arg list.\n" ++ "    void invoke("
    ++ String.intercalate ", " (params.map fun p => p.1 ++ " " ++ p.2) ++ ") \x7b\n"
    ++ "        openclicknp::SignalRequest req\x7b\x7d;\n"
    ++ String.join ((inOrder (params.map Prod.snd)).map placeText)
    ++ "        signal(req);\n" ++ "    \x7d\n"

/-- What is written for the header. -/
def ElementHeader.text (h : ElementHeader) : String :=
  "// SPDX-License-Identifier: Apache-2.0\n" ++ "// Auto-generated element-class header for \x60"
    ++ h.typeName ++ "\x60\n" ++ "#pragma once\n" ++ "#include \"openclicknp/element.hpp\"\n\n"
    ++ "namespace openclicknp::generated \x7b\n\n"
    ++ "class " ++ h.typeName ++ " : public openclicknp::Element \x7b\n" ++ "public:\n"
    ++ "    " ++ h.typeName ++ "(openclicknp::Platform& p, std::string name)\n"
    ++ "        : openclicknp::Element(p, std::move(name)) \x7b\x7d\n"
    ++ (match h.invoke with
      | some params => invokeText params
      | none => "")
    ++ "\x7d;\n\n\x7d  // namespace openclicknp::generated\n"

/-! ## The call -/

/-- `req.lparam[place] = value;` -/
def setLparam (req : SignalRequest) (place : Nat × UInt64) : SignalRequest :=
  { req with lparam := fun i => if i.val = place.1 then place.2 else req.lparam i }

/-- The request that `invoke(args)` signals. -/
def invokeRequest (args : List UInt64) : SignalRequest :=
  (inOrder args).foldl setLparam {}

/-- What a parameter stands for in the body of an element. -/
inductive EventField where
  | cmd
  | sparam
  | lparam (i : Nat)
deriving DecidableEq, Repr

/-- `cmd` and `sparam` are the fields of these names, the others are `lparam[n]`, `lparam[n + 1]`
and so on. -/
def denoted : Nat → List String → List EventField
  | _, [] => []
  | n, name :: names =>
    if name = "cmd" then .cmd :: denoted n names
    else if name = "sparam" then .sparam :: denoted n names
    else .lparam n :: denoted (n + 1) names

namespace EventField

/-- The value fits the field. -/
def Fits (v : UInt64) : EventField → Prop
  | .cmd => v.toNat < 2 ^ 16
  | .sparam => v.toNat < 2 ^ 32
  | .lparam _ => True

/-- The value of a field; there are seven `lparam`s. -/
def read (event : ClSignal) : EventField → Option Nat
  | .cmd => some event.cmd.toNat
  | .sparam => some event.sparam.toNat
  | .lparam i => if h : i < 7 then some (event.lparam ⟨i, h⟩).toNat else none

end EventField

/-- The event that reaches the body when the host calls `invoke(args)`: `dispatchSignal` publishes
the request in the register file, `poll_signal` takes it from there. -/
def invokeEvent (m : Mem) (out : ClSignal) (args : List UInt64) : ClSignal :=
  (pollImage (publish m (invokeRequest args)) out).2.2

/-- Every argument arrives in the field that its parameter stands for. -/
def InvokeDelivers (m : Mem) (out : ClSignal) (names : List String) : Prop :=
  ∀ args : List UInt64, args.length = names.length →
    (∀ x ∈ (denoted 0 names).zip args, x.1.Fits x.2) →
    ∀ x ∈ (denoted 0 names).zip args, x.1.read (invokeEvent m out args) = some x.2.toNat

section
variable {m : Mem} {out : ClSignal} {names : List String} {args : List UInt64}

theorem setLparam_cmd (places : List (Nat × UInt64)) (req : SignalRequest) :
    (places.foldl setLparam req).cmd = req.cmd ∧
      (places.foldl setLparam req).sparam = req.sparam := by
  induction places generalizing req with
  | nil => exact ⟨rfl, rfl⟩
  | cons place places ih => exact ih (setLparam req place)

/-- The arguments from place `n` on. Induction on them. -/
theorem setLparam_zipIdx (vs : List UInt64) (n : Nat) (req : SignalRequest) (i : Fin 7) :
    (((vs.zipIdx n).map Prod.swap).foldl setLparam req).lparam i
      = if n ≤ i.val then vs.getD (i.val - n) (req.lparam i) else req.lparam i := by
  induction vs generalizing n req with
  | nil => simp
  | cons v vs ih =>
    have hplace : (setLparam req (v, n).swap).lparam i
        = if i.val = n then v else req.lparam i := rfl
    rw [List.zipIdx_cons, List.map_cons, List.foldl_cons, ih, hplace]
    -- in front of place `n`, at it, and behind it
    rcases Nat.lt_trichotomy i.val n with hlt | heq | hgt
    · rw [if_neg (by omega), if_neg (by omega), if_neg (by omega)]
    · rw [if_neg (by omega), if_pos heq, if_pos (by omega), heq, Nat.sub_self]
      rfl
    · obtain ⟨j, hj⟩ : ∃ j, i.val - n = j + 1 := ⟨i.val - n - 1, by omega⟩
      rw [if_pos (by omega), if_neg (by omega), if_pos (by omega), hj,
        show i.val - (n + 1) = j by omega]
      rfl

theorem invokeRequest_lparam (args : List UInt64) (i : Fin 7) :
    (invokeRequest args).lparam i = args.getD i.val 0 := by
  have h := setLparam_zipIdx (args.take 7) 0 {} i
  rw [if_pos (Nat.zero_le _), Nat.sub_zero] at h
  rw [invokeRequest, inOrder, h, List.getD_eq_getElem?_getD, List.getD_eq_getElem?_getD,
    List.getElem?_take_of_lt i.isLt]

/-- **What arrives**: a zero command, a zero parameter, and the first seven arguments. -/
theorem invokeEvent_eq (m : Mem) (out : ClSignal) (args : List UInt64) :
    invokeEvent m out args
      = { out with cmd := 0, sparam := 0, lparam := fun i => args.getD i.val 0 } := by
  obtain ⟨hcmd, hsparam⟩ := setLparam_cmd (inOrder args) {}
  have hlparam : (invokeRequest args).lparam = fun i : Fin 7 => args.getD i.val 0 :=
    funext (invokeRequest_lparam args)
  rw [invokeEvent, pollImage_publish, eventOf, hlparam, invokeRequest, hcmd, hsparam]

theorem length_denoted (n : Nat) (names : List String) :
    (denoted n names).length = names.length := by
  induction names generalizing n with
  | nil => rfl
  | cons name names ih =>
    unfold denoted
    split
    · rw [List.length_cons, ih, List.length_cons]
    · split <;> rw [List.length_cons, ih, List.length_cons]

/-- Without the two names the fields are the `lparam`s in order. -/
theorem denoted_of_plain (hcmd : "cmd" ∉ names) (hsparam : "sparam" ∉ names) (n : Nat) :
    denoted n names = (List.range' n names.length).map EventField.lparam := by
  induction names generalizing n with
  | nil => rfl
  | cons name names ih =>
    rw [List.mem_cons, not_or] at hcmd hsparam
    rw [denoted, if_neg (Ne.symm hcmd.1), if_neg (Ne.symm hsparam.1), ih hcmd.2 hsparam.2,
      List.length_cons, List.range'_succ, List.map_cons]

/-- One of the two names stands for its field. -/
theorem exists_denoted (n : Nat) :
    ("cmd" ∈ names → .cmd ∈ denoted n names) ∧ ("sparam" ∈ names → .sparam ∈ denoted n names) := by
  induction names generalizing n with
  | nil => exact ⟨nofun, nofun⟩
  | cons name names ih =>
    unfold denoted
    constructor
    · intro h
      rcases List.mem_cons.mp h with rfl | h
      · exact List.mem_cons_self
      · split
        · exact List.mem_cons_self
        · split <;> exact List.mem_cons_of_mem _ ((ih _).1 h)
    · intro h
      rcases List.mem_cons.mp h with rfl | h
      · exact List.mem_cons_self
      · split
        · exact List.mem_cons_of_mem _ ((ih _).2 h)
        · split
          · exact List.mem_cons_self
          · exact List.mem_cons_of_mem _ ((ih _).2 h)

/-- A call with all arguments 1. -/
theorem read_of_ones (h : InvokeDelivers m out names) {f : EventField}
    (hf : f ∈ denoted 0 names) :
    f.read (invokeEvent m out (List.replicate names.length 1)) = some 1 := by
  have hzip : ∀ x ∈ (denoted 0 names).zip (List.replicate names.length (1 : UInt64)), x.2 = 1 :=
    fun x hx => List.eq_of_mem_replicate (List.of_mem_zip hx).2
  obtain ⟨i, hi, rfl⟩ := List.getElem_of_mem hf
  have hlen := length_denoted 0 names
  have hmem : ((denoted 0 names)[i], (1 : UInt64))
      ∈ (denoted 0 names).zip (List.replicate names.length 1) := by
    refine List.mem_iff_getElem.mpr ⟨i, by simp; omega, ?_⟩
    rw [List.getElem_zip, List.getElem_replicate]
  refine h _ (List.length_replicate ..) (fun x hx => ?_) _ hmem
  have hone : x.2.toNat = 1 := by rw [hzip x hx]; rfl
  cases hx1 : x.1 with
  | lparam i => trivial
  | cmd => exact lt_of_eq_of_lt hone (by norm_num)
  | sparam => exact lt_of_eq_of_lt hone (by norm_num)

end

/-- **The arguments of `invoke` arrive where the body reads them exactly for** at most seven
parameters that all stand for `lparam`s. -/
theorem invoke_delivers_iff (m : Mem) (out : ClSignal) (params : List SignalParam) :
    InvokeDelivers m out (params.map SignalParam.fieldName) ↔
      "cmd" ∉ params.map SignalParam.fieldName ∧ "sparam" ∉ params.map SignalParam.fieldName ∧
        params.length ≤ 7 := by
  generalize hnames : params.map SignalParam.fieldName = names
  have hlength : params.length = names.length := by rw [← hnames, List.length_map]
  rw [hlength]
  constructor
  · intro h
    -- the command of the request is never set, so a parameter that stands for it is lost
    have hcmd : "cmd" ∉ names := by
      intro hmem
      have hread := read_of_ones h ((exists_denoted 0).1 hmem)
      rw [invokeEvent_eq] at hread
      cases hread
    have hsparam : "sparam" ∉ names := by
      intro hmem
      have hread := read_of_ones h ((exists_denoted 0).2 hmem)
      rw [invokeEvent_eq] at hread
      cases hread
    refine ⟨hcmd, hsparam, ?_⟩
    by_contra hlong
    -- an eighth `lparam`
    have hmem : .lparam 7 ∈ denoted 0 names := by
      rw [denoted_of_plain hcmd hsparam]
      exact List.mem_map_of_mem (List.mem_range'_1.mpr ⟨Nat.zero_le _, by omega⟩)
    cases read_of_ones h hmem
  · rintro ⟨hcmd, hsparam, hshort⟩ args hlen - x hx
    rw [denoted_of_plain hcmd hsparam] at hx
    obtain ⟨i, hi, rfl⟩ := List.getElem_of_mem hx
    have hi' : i < args.length := by simpa [hlen] using hi
    rw [List.getElem_zip, List.getElem_map, List.getElem_range', invokeEvent_eq]
    simp only [Nat.one_mul, Nat.zero_add, EventField.read]
    rw [dif_pos (by omega), List.getD_eq_getElem _ _ hi']

/-- Inserting an entry of `HashTable`: the command 1 arrives as `lparam[0]`, and the event's command
is 0. -/
theorem invoke_loses_cmd :
    ¬ ∀ (m : Mem) (out : ClSignal) (params : List SignalParam),
      InvokeDelivers m out (params.map SignalParam.fieldName) := by
  intro h
  have hread := read_of_ones (h (fun _ => 0) {}
    [{ typeName := "uint", fieldName := "cmd" }, { typeName := "uint", fieldName := "index" }])
    (f := .cmd) (by simp [denoted])
  rw [invokeEvent_eq] at hread
  cases hread

/-! ## `emitXrtHost` -/

/-- The loop over the kernels: a header for each type that has not come before. -/
def addHeader (headers : List ElementHeader) (k : KernelHls) : List ElementHeader :=
  if k.elementType ∈ headers.map ElementHeader.typeName then headers else headers ++ [headerOf k]

def elementHeaders (ks : List KernelHls) : List ElementHeader := ks.foldl addHeader []

/-- The names of the files in the directory `host`. -/
def hostFiles (build : Build) : List String :=
  "kernel_table.cpp" :: (elementHeaders build.kernels).map fun h => h.typeName ++ ".hpp"

/-- The order of the kernels makes no difference to the files and to the headers; and a header has
`invoke` if and only if a kernel of its type is host-controlled and the type has parameters. -/
structure OrderFree (build : Build) : Prop where
  files : ∀ ks, ks.Perm build.kernels →
    ∀ name, name ∈ hostFiles { build with kernels := ks } ↔ name ∈ hostFiles build
  headers : ∀ ks, ks.Perm build.kernels →
    ∀ h, h ∈ elementHeaders ks ↔ h ∈ elementHeaders build.kernels
  invoke : ∀ h ∈ elementHeaders build.kernels, h.invoke.isSome = true ↔
    ∃ k ∈ build.kernels, k.elementType = h.typeName ∧ k.hasSignal = true ∧ k.signalParams ≠ []

/-- The kernels of a type ask for the same `invoke`, or all for none. -/
def SameInvoke (ks : List KernelHls) : Prop :=
  ∀ k ∈ ks, ∀ k' ∈ ks, k.elementType = k'.elementType → invokeOf k = invokeOf k'

section
variable {ks ks' : List KernelHls} {k : KernelHls}

/-- A header is that of the first kernel of its type. Induction on the kernels, the last one
first. -/
theorem mem_elementHeaders_iff {h : ElementHeader} :
    h ∈ elementHeaders ks ↔
      ∃ k, ks.find? (fun k => k.elementType == h.typeName) = some k ∧ h = headerOf k := by
  induction ks using List.reverseRecOn generalizing h with
  | nil => simp [elementHeaders]
  | append_singleton ks k ih =>
    -- the headers so far are those of the types so far
    have hknown : k.elementType ∈ (elementHeaders ks).map ElementHeader.typeName ↔
        ∃ k', ks.find? (fun k' => k'.elementType == k.elementType) = some k' := by
      rw [List.mem_map]
      constructor
      · rintro ⟨h', hmem, htype⟩
        obtain ⟨k', hfound, -⟩ := ih.mp hmem
        rw [htype] at hfound
        exact ⟨k', hfound⟩
      · rintro ⟨k', hfound⟩
        have htype : k'.elementType = k.elementType := by simpa using List.find?_some hfound
        refine ⟨headerOf k', ih.mpr ⟨k', ?_, rfl⟩, htype⟩
        rw [← hfound, ← htype]
        rfl
    have hfold : elementHeaders (ks ++ [k]) = addHeader (elementHeaders ks) k := by
      rw [elementHeaders, List.foldl_append]
      rfl
    rw [hfold, addHeader, List.find?_append]
    by_cases htype : k.elementType = h.typeName
    · rw [htype] at hknown ⊢
      cases hfound : ks.find? (fun k' => k'.elementType == h.typeName) with
      | some k' =>
        rw [if_pos (hknown.mpr ⟨k', hfound⟩), ih, hfound]
        rfl
      | none =>
        have hfresh : h.typeName ∉ (elementHeaders ks).map ElementHeader.typeName := by
          intro hmem
          obtain ⟨k', hfound'⟩ := hknown.mp hmem
          rw [hfound] at hfound'
          cases hfound'
        rw [if_neg hfresh, List.mem_append, ih, hfound]
        simp [htype]
    · have hother : [k].find? (fun k' => k'.elementType == h.typeName) = none := by
        simp [htype]
      have hne : h ≠ headerOf k := fun heq => htype (congrArg ElementHeader.typeName heq).symm
      rw [hother, Option.or_none, ← ih]
      split
      · rfl
      · rw [List.mem_append, List.mem_singleton, or_iff_left hne]

/-- Every type of a kernel has a header. -/
theorem exists_header (hk : k ∈ ks) :
    ∃ h ∈ elementHeaders ks, h.typeName = k.elementType := by
  obtain ⟨k', hfound⟩ : ∃ k', ks.find? (fun k' => k'.elementType == k.elementType) = some k' :=
    Option.isSome_iff_exists.mp (List.find?_isSome.mpr ⟨k, hk, beq_self_eq_true _⟩)
  have htype : k'.elementType = k.elementType := by simpa using List.find?_some hfound
  refine ⟨headerOf k', mem_elementHeaders_iff.mpr ⟨k', ?_, rfl⟩, htype⟩
  rw [← hfound, ← htype]
  rfl

theorem typeName_of_header {h : ElementHeader} (hmem : h ∈ elementHeaders ks) :
    ∃ k ∈ ks, h = headerOf k := by
  obtain ⟨k, hfound, rfl⟩ := mem_elementHeaders_iff.mp hmem
  exact ⟨k, List.mem_of_find?_eq_some hfound, rfl⟩

/-- There is one header for a type. -/
theorem header_unique {h h' : ElementHeader} (hmem : h ∈ elementHeaders ks)
    (hmem' : h' ∈ elementHeaders ks) (htype : h.typeName = h'.typeName) : h = h' := by
  obtain ⟨k, hfound, rfl⟩ := mem_elementHeaders_iff.mp hmem
  obtain ⟨k', hfound', rfl⟩ := mem_elementHeaders_iff.mp hmem'
  rw [htype, hfound'] at hfound
  cases hfound
  rfl

theorem isSome_invokeOf :
    (invokeOf k).isSome = true ↔ k.hasSignal = true ∧ k.signalParams ≠ [] := by
  unfold invokeOf
  cases k.hasSignal <;> cases k.signalParams <;> simp

/-- The file names are those of the types. -/
theorem mem_hostFiles_iff {build : Build} {name : String} :
    name ∈ hostFiles build ↔
      name = "kernel_table.cpp" ∨ ∃ k ∈ build.kernels, name = k.elementType ++ ".hpp" := by
  rw [hostFiles, List.mem_cons, List.mem_map]
  refine or_congr_right ⟨?_, ?_⟩
  · rintro ⟨h, hmem, rfl⟩
    obtain ⟨k, hk, rfl⟩ := typeName_of_header hmem
    exact ⟨k, hk, rfl⟩
  · rintro ⟨k, hk, rfl⟩
    obtain ⟨h, hmem, htype⟩ := exists_header hk
    exact ⟨h, hmem, by rw [htype]⟩

/-- Kernels that agree have the same headers in any order. -/
theorem headers_of_sameInvoke (hsame : SameInvoke ks') (hperm : ks.Perm ks') {h : ElementHeader}
    (hmem : h ∈ elementHeaders ks) : h ∈ elementHeaders ks' := by
  obtain ⟨k, hk, rfl⟩ := typeName_of_header hmem
  obtain ⟨h', hmem', htype⟩ := exists_header (hperm.mem_iff.mp hk)
  obtain ⟨k', hk', rfl⟩ := typeName_of_header hmem'
  have hinvoke : invokeOf k' = invokeOf k := hsame k' hk' k (hperm.mem_iff.mp hk) htype
  have heq : headerOf k = headerOf k' := by
    rw [headerOf, headerOf, hinvoke]
    exact congrArg (ElementHeader.mk · _) htype.symm
  rw [heq]
  exact hmem'

end

/-- **The host files do not depend on the order of the kernels exactly when** the kernels of a type
ask for the same `invoke`. -/
theorem headers_orderFree_iff (build : Build) : OrderFree build ↔ SameInvoke build.kernels := by
  constructor
  · intro h
    -- each kernel may come first, and then the header is its own
    have hown : ∀ k ∈ build.kernels, headerOf k ∈ elementHeaders build.kernels := by
      intro k hk
      refine (h.headers (k :: build.kernels.erase k) (List.perm_cons_erase hk).symm _).mp ?_
      refine mem_elementHeaders_iff.mpr ⟨k, ?_, rfl⟩
      exact List.find?_cons_of_pos (beq_self_eq_true _)
    intro k hk k' hk' htype
    exact congrArg ElementHeader.invoke (header_unique (hown k hk) (hown k' hk') htype)
  · intro h
    have hperm : ∀ ks, ks.Perm build.kernels → SameInvoke ks := fun ks hks k hk k' hk' =>
      h k (hks.mem_iff.mp hk) k' (hks.mem_iff.mp hk')
    refine ⟨fun ks hks name => ?_, fun ks hks x => ⟨?_, ?_⟩, fun x hmem => ?_⟩
    · rw [mem_hostFiles_iff, mem_hostFiles_iff]
      simp only [hks.mem_iff]
    · exact headers_of_sameInvoke h hks
    · exact headers_of_sameInvoke (hperm ks hks) hks.symm
    · obtain ⟨k, hk, rfl⟩ := typeName_of_header hmem
      constructor
      · exact fun hinvoke => ⟨k, hk, rfl, isSome_invokeOf.mp hinvoke⟩
      · rintro ⟨k', hk', htype, hsome⟩
        show (invokeOf k).isSome = true
        rw [h k hk k' hk' htype.symm]
        exact isSome_invokeOf.mpr hsome

/-- Two kernels of a type, the second one host-controlled. -/
def mixedBuild : Build where
  kernels :=
    [{ name := "x", elementType := "Pass",
       signalParams := [{ typeName := "uint", fieldName := "cmd" }] },
     { name := "y", elementType := "Pass", hasSignal := true,
       signalParams := [{ typeName := "uint", fieldName := "cmd" }] }]

/-- The header has no `invoke`, since that of the first kernel has none. -/
theorem headers_not_orderFree : ¬ ∀ build : Build, OrderFree build := by
  intro h
  have hinvoke := (h mixedBuild).invoke { typeName := "Pass" } (by decide)
  exact absurd (hinvoke.mpr ⟨_, List.mem_cons_of_mem _ List.mem_cons_self, rfl, rfl, by decide⟩)
    (by decide)

end OpenClickNP
