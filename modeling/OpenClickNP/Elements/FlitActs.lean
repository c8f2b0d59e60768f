import OpenClickNP.Backend.DataFlow
import OpenClickNP.Backend.Serialized
import OpenClickNP.Elements.FirstFlit

/-!
# Elements that act on each flit of port 1

Most elements of the library have a handler of one form: if port 1 has a flit it is read, the state
changes, flits are put out on some ports, and port 1 is asked for again (`onEachFlit`). Such an
element computes a stream function, whatever the interleaving (`ActsOnFlits.computes`).

The elements that differ in little else are made from `forwarding` (one flit on), `tapping` (one
flit on, and perhaps one to port 2) and `routing` (one flit on to a port of its own).
-/

namespace OpenClickNP

open Histories

/-- `if (test_input_port(PORT_1)) { flit_t f = read_input_port(PORT_1); ... } return PORT_1;`, where
`next` is what becomes of the state, and `out` the ports and flits of `set_output_port`. -/
def onEachFlit {σ : Type} (next : σ → Flit → σ) (out : σ → Flit → List (Nat × Flit))
    (v : View σ Flit) : BodyResult σ Flit where
  state := if testPort v.inputPort 1 then next v.state (v.inputData 1) else v.state
  ops :=
    if testPort v.inputPort 1 then
      .clearInputReady (PORT_BIT 1) ::
        (out v.state (v.inputData 1)).map fun o => .setOutputPort o.1 o.2
    else []
  ret := some (PORT_BIT 1)

/-- The element has such a handler, and sets each of its output ports once for a flit at most. -/
structure ActsOnFlits {σ : Type} (K : KernelFn σ Flit) (next : σ → Flit → σ)
    (out : σ → Flit → List (Nat × Flit)) : Prop where
  inPorts : K.inPorts = [1]
  handler : K.handler = onEachFlit next out
  ports : ∀ q ∈ K.outPorts, q < 32
  once : ∀ st f, ∀ q ∈ K.outPorts, ((out st f).filter (·.1 == q)).length ≤ 1
  signal : ∀ v, (K.signal v).ops = []

section
variable {σ : Type} {K : KernelFn σ Flit} {next : σ → Flit → σ}
  {out : σ → Flit → List (Nat × Flit)}

/-- What is passed to `set_output_port(q, .)`. -/
theorem setsOf_map (os : List (Nat × Flit)) (q : Nat) :
    setsOf q (os.map fun o => .setOutputPort o.1 o.2) = (os.filter (·.1 == q)).map Prod.snd := by
  induction os with
  | nil => rfl
  | cons o os ih =>
    show setsOf q ([.setOutputPort o.1 o.2] ++ _) = _
    rw [setsOf_append, ih]
    by_cases hq : o.1 = q
    · simp [setsOf, hq]
    · simp [setsOf, hq]

theorem ActsOnFlits.plain (hK : ActsOnFlits K next out) {q : Nat} (hq : q ∈ K.outPorts) :
    Plain K q := by
  refine plain_of_ready (q := 1) hq (hK.ports q hq) (fun v => by rw [hK.handler]; rfl) ?_ ?_ ?_
  · intro v op hop
    obtain ⟨o, -, rfl⟩ := List.mem_map.mp hop
    rfl
  · intro v
    rw [setsOf_map, List.length_map]
    exact hK.once _ _ q hq
  · intro v
    rw [hK.signal]
    rfl

/-- **The element computes a stream function**: on each port, what it puts out there for the flits
of port 1. -/
theorem ActsOnFlits.computes (hK : ActsOnFlits K next out) (st : σ) (used : Nat → Prop) :
    Computes K st (StreamFn.routed { next := next, out := out } st) used := by
  let M : Transducer σ Flit (Nat × Flit) := { next := next, out := out }
  refine ⟨fun now taken sent => now = M.state st (taken 1) ∧ ∀ q,
    sent q = ((M.output st (taken 1)).filter (·.1 == q)).map Prod.snd, ⟨rfl, fun q => rfl⟩,
    ?_, ?_, ?_, ?_⟩
  · exact fun q hq _ => hK.plain hq
  · intro h g hports q _ _
    have hone : h 1 = g 1 := hports 1 (by rw [hK.inPorts]; exact List.mem_singleton_self 1)
    show ((M.output st (h 1)).filter _).map _ = _
    rw [hone]
    rfl
  · intro v taken sent hv
    obtain ⟨hstate, hsent⟩ := hv
    have htaken : takenIn 1 v (K.handler v)
        = if testPort v.inputPort 1 then [v.inputData 1] else [] :=
      takenIn_of_ready (by decide) (by rw [hK.handler]; rfl)
    have hsets : ∀ q, setsOf q (K.handler v).ops = if testPort v.inputPort 1 then
        ((out v.state (v.inputData 1)).filter (·.1 == q)).map Prod.snd else [] := by
      intro q
      rw [setsOf_of_ready q (v := v) (p := 1) (by rw [hK.handler]; rfl), setsOf_map]
    have hnow : (K.handler v).state
        = if testPort v.inputPort 1 then next v.state (v.inputData 1) else v.state := by
      rw [hK.handler]
      rfl
    simp only [htaken, hsets, hnow]
    cases testPort v.inputPort 1 with
    | false =>
      refine ⟨?_, fun q => ?_⟩
      · show v.state = M.state st (taken 1 ++ [])
        rw [List.append_nil, hstate]
      · show sent q ++ [] = ((M.output st (taken 1 ++ [])).filter _).map _
        rw [List.append_nil, List.append_nil, hsent]
    | true =>
      refine ⟨?_, fun q => ?_⟩
      · show next v.state (v.inputData 1) = M.state st (taken 1 ++ [v.inputData 1])
        rw [M.state_append, ← hstate]
        rfl
      · show sent q ++ ((out v.state (v.inputData 1)).filter _).map _
          = ((M.output st (taken 1 ++ [v.inputData 1])).filter _).map _
        rw [M.output_append, ← hstate, List.filter_append, List.map_append, hsent]
        exact congrArg _ (by simp [M])
  · exact fun now taken sent h q _ _ => h.2 q

/-- **An element that puts out one flit for each maps them**, as long as its state does not change
what it makes of them. -/
theorem apply_map {M : Transducer σ Flit (Nat × Flit)} {q : Nat} {g : Flit → Flit}
    {I : σ → Prop} (hnext : ∀ st f, I st → I (M.next st f))
    (hout : ∀ st f, I st → ((M.out st f).filter (·.1 == q)).map Prod.snd = [g f]) {st : σ}
    (h : I st) (hist : Nat → List Flit) :
    (StreamFn.routed M st).apply hist q = (hist 1).map g := by
  show ((M.output st (hist 1)).filter (·.1 == q)).map Prod.snd = (hist 1).map g
  induction hist 1 generalizing st with
  | nil => rfl
  | cons f fs ih =>
    rw [M.output_cons, List.filter_append, List.map_append, hout st f h, ih (hnext st f h)]
    rfl

/-! ### Runs with signals -/

/-- What such an element does for a call; a signal changes the state by `update`, and is answered by
`answer`. -/
def flitServer (next : σ → Flit → σ) (out : σ → Flit → List (Nat × Flit))
    (update : σ → ClSignal → σ) (answer : σ → ClSignal → ClSignal) :
    Transducer σ (Call Flit) (Deed Flit) where
  next
    | st, .signal req => update st req
    | st, .offer none => st
    | st, .offer (some f) => next st f
  out
    | st, .signal req => [.answer (answer st req)]
    | _, .offer none => []
    | st, .offer (some f) => .take f :: (out st f).map fun o => .put o.1 o.2

variable {update : σ → ClSignal → σ} {answer : σ → ClSignal → ClSignal}

theorem takenOf_puts (os : List (Nat × Flit)) :
    takenOf (os.map fun o => .put o.1 o.2) = [] := by
  induction os with
  | nil => rfl
  | cons o os ih => exact ih

theorem answersOf_puts (os : List (Nat × Flit)) :
    answersOf (os.map fun o => .put o.1 o.2) = [] := by
  induction os with
  | nil => rfl
  | cons o os ih => exact ih

theorem putOn_puts (q : Nat) (os : List (Nat × Flit)) :
    putOn q (os.map fun o => .put o.1 o.2) = (os.filter (·.1 == q)).map Prod.snd := by
  induction os with
  | nil => rfl
  | cons o os ih =>
    show putOn q ([.put o.1 o.2] ++ _) = _
    rw [putOn_append, ih]
    by_cases hq : o.1 = q
    · simp [putOn, hq]
    · simp [putOn, hq]

theorem ActsOnFlits.serves (hK : ActsOnFlits K next out)
    (hupdate : ∀ v, (K.signal v).state = update v.state v.event)
    (hanswer : ∀ v, (K.signal v).outevent = answer v.state v.event) :
    ServesCalls K (flitServer next out update answer) where
  state v := by
    rw [hK.handler, offered]
    show (if testPort v.inputPort 1 then _ else _) = _
    split <;> rfl
  taken v := by
    rw [takenIn_offered (by rw [hK.handler]; rfl), offered]
    split
    · show [_] = _ :: takenOf _
      rw [takenOf_puts]
    · rfl
  put v q := by
    rw [setsOf_of_ready q (v := v) (p := 1) (by rw [hK.handler]; rfl), setsOf_map, offered]
    split
    · exact (putOn_puts q _).symm
    · rfl
  quiet st x := by
    cases x with
    | none => rfl
    | some f => exact answersOf_puts _
  signalState := hupdate
  signalOps := hK.signal
  answer v := by
    rw [hanswer]
    rfl

/-- **The rule for runs with signals.** What a flit keeps, and what a signal keeps, of the state
block, of the signals served, of the flits taken and sent and of the answers, holds in every run. -/
theorem ActsOnFlits.inv (hK : ActsOnFlits K next out) (update : σ → ClSignal → σ)
    (answer : σ → ClSignal → ClSignal) (hupdate : ∀ v, (K.signal v).state = update v.state v.event)
    (hanswer : ∀ v, (K.signal v).outevent = answer v.state v.event) {st : σ}
    {Q : σ → List ClSignal → List Flit → (Nat → List Flit) → List ClSignal → Prop}
    (hinit : Q st [] [] (fun _ => []) [])
    (hflit : ∀ st served taken sent answers f, Q st served taken sent answers →
      Q (next st f) served (taken ++ [f])
        (fun q => sent q ++ ((out st f).filter (·.1 == q)).map Prod.snd) answers)
    (hsignal : ∀ st served taken sent answers req, Q st served taken sent answers →
      Q (update st req) (served ++ [req]) taken sent (answers ++ [answer st req]))
    (inCap outCap : Nat → Int) (as : List (KernelAction Flit)) :
    ∃ served, let t := Run.exec (kstep K) (kinit st inCap outCap) as
      served ++ pending t = posted as ∧ Q t.locals.state served (t.taken 1) t.sent t.responses := by
  let R : σ → List (Call Flit) → List (Deed Flit) → Prop := fun st w ds =>
    Q st (signalsOf w) (takenOf ds) (fun q => putOn q ds) (answersOf ds)
  have hcall : ∀ st w ds c, R st w ds →
      R ((flitServer next out update answer).next st c) (w ++ [c])
        (ds ++ (flitServer next out update answer).out st c) := by
    intro st w ds c h
    simp only [R, signalsOf_append, takenOf_append, putOn_append, answersOf_append]
    cases c with
    | signal req =>
      have hnext := hsignal _ _ _ _ _ req h
      simpa [signalsOf, takenOf, putOn, answersOf, flitServer] using hnext
    | offer x =>
      cases x with
      | none => simpa [R, signalsOf, takenOf, putOn, answersOf, flitServer] using h
      | some f =>
        -- the call takes the flit and puts out what `out` says, and answers nothing
        have hnext := hflit _ _ _ _ _ f h
        have htake : takenOf ((flitServer next out update answer).out st (.offer (some f)))
            = [f] := congrArg (f :: ·) (takenOf_puts (out st f))
        have hput : ∀ q, putOn q ((flitServer next out update answer).out st (.offer (some f)))
            = ((out st f).filter (·.1 == q)).map Prod.snd := fun q => putOn_puts q (out st f)
        have hquiet : answersOf ((flitServer next out update answer).out st (.offer (some f)))
            = [] := answersOf_puts (out st f)
        have hnone : signalsOf [(.offer (some f) : Call Flit)] = [] := rfl
        rw [htake, hquiet, hnone, List.append_nil, List.append_nil]
        simp only [hput]
        exact hnext
  obtain ⟨w, ds, hQ, hserved, htaken, hsent, hanswers⟩ :=
    (hK.serves hupdate hanswer).inv (Q := R) hinit hcall inCap outCap as
  refine ⟨signalsOf w, hserved, ?_⟩
  have hports : (Run.exec (kstep K) (kinit st inCap outCap) as).sent = fun q => putOn q ds :=
    funext hsent
  rw [htaken, hanswers, hports]
  exact hQ

/-! ### Elements that remember -/

/-- The element that remembers all signals. -/
def remembering (spec : List ClSignal → Flit → List (Nat × Flit))
    (reply : List ClSignal → ClSignal → ClSignal) :
    Transducer (List ClSignal) (Call Flit) (Deed Flit) :=
  flitServer (fun ss _ => ss) spec (fun ss req => ss ++ [req]) reply

/-- **An element that only signals change** is one that remembers them: it answers a flit, and a
signal, from the signals before. -/
theorem ActsOnFlits.remembers (hK : ActsOnFlits K (fun st _ => st) out)
    (update : σ → ClSignal → σ) (answer : σ → ClSignal → ClSignal)
    (hupdate : ∀ v, (K.signal v).state = update v.state v.event)
    (hanswer : ∀ v, (K.signal v).outevent = answer v.state v.event) {st : σ}
    {spec : List ClSignal → Flit → List (Nat × Flit)}
    {reply : List ClSignal → ClSignal → ClSignal}
    (hspec : ∀ ss f, out (ss.foldl update st) f = spec ss f)
    (hreply : ∀ ss req, answer (ss.foldl update st) req = reply ss req)
    (inCap outCap : Nat → Int) (as : List (KernelAction Flit)) :
    ∃ w, RunsAs K st (remembering spec reply) [] inCap outCap as w := by
  apply (hK.serves hupdate hanswer).runsAs fun now ss => now = ss.foldl update st
  · rintro now ss c rfl
    cases c with
    | signal req =>
      constructor
      · show [Deed.answer _] = [Deed.answer _]
        rw [hreply]
      · show update (ss.foldl update st) req = (ss ++ [req]).foldl update st
        rw [List.foldl_append]
        rfl
    | offer x =>
      cases x with
      | none => exact ⟨rfl, rfl⟩
      | some f =>
        refine ⟨?_, rfl⟩
        show _ :: (out _ f).map _ = _ :: (spec ss f).map _
        rw [hspec]
  · rfl

/-- The element that remembers all flits. -/
def recalling (spec : List Flit → Flit → List (Nat × Flit))
    (reply : List Flit → ClSignal → ClSignal) :
    Transducer (List Flit) (Call Flit) (Deed Flit) :=
  flitServer (fun fs f => fs ++ [f]) spec (fun fs _ => fs) reply

/-- **An element that no signal changes** is one that remembers the flits. -/
theorem ActsOnFlits.recalls (hK : ActsOnFlits K next out) (answer : σ → ClSignal → ClSignal)
    (hupdate : ∀ v, (K.signal v).state = v.state)
    (hanswer : ∀ v, (K.signal v).outevent = answer v.state v.event) {st : σ}
    {spec : List Flit → Flit → List (Nat × Flit)} {reply : List Flit → ClSignal → ClSignal}
    (hspec : ∀ fs f, out (fs.foldl next st) f = spec fs f)
    (hreply : ∀ fs req, answer (fs.foldl next st) req = reply fs req)
    (inCap outCap : Nat → Int) (as : List (KernelAction Flit)) :
    ∃ w, RunsAs K st (recalling spec reply) [] inCap outCap as w := by
  have hserves : ServesCalls K (flitServer next out (fun st _ => st) answer) :=
    hK.serves hupdate hanswer
  apply hserves.runsAs fun now fs => now = fs.foldl next st
  · rintro now fs c rfl
    cases c with
    | signal req =>
      refine ⟨?_, rfl⟩
      show [Deed.answer _] = [Deed.answer _]
      rw [hreply]
    | offer x =>
      cases x with
      | none => exact ⟨rfl, rfl⟩
      | some f =>
        constructor
        · show _ :: (out _ f).map _ = _ :: (spec fs f).map _
          rw [hspec]
        · show next (fs.foldl next st) f = (fs ++ [f]).foldl next st
          rw [List.foldl_append]
          rfl
  · rfl

end

/-! ## Three forms -/

/-- A `.signal` block that reports a counter. -/
def reports {σ : Type} (count : σ → UInt64) (v : View σ Flit) : BodyResult σ Flit where
  state := v.state
  ops := []
  ret := none
  outevent := { v.event with lparam := Function.update v.event.lparam 0 (count v.state) }

/-- An element without a `.signal` block. -/
def silent {σ : Type} (v : View σ Flit) : BodyResult σ Flit where
  state := v.state
  ops := []
  ret := none
  outevent := v.event

section
variable {σ : Type}

/-- The element puts out one flit for each. -/
def forwarding (next : σ → Flit → σ) (change : σ → Flit → Flit)
    (signal : View σ Flit → BodyResult σ Flit) : KernelFn σ Flit where
  inPorts := [1]
  outPorts := [1]
  nodup_outPorts := nodup_one
  hasSignal := true
  handler := onEachFlit next fun st f => [(1, change st f)]
  signal := signal

/-- The flit goes on to port 1, and to port 2 goes what is made of it, if anything. -/
def tapping (next : σ → Flit → σ) (tap : σ → Flit → Option Flit) : KernelFn σ Flit where
  inPorts := [1]
  outPorts := [1, 2]
  nodup_outPorts := nodup_one_two
  hasSignal := true
  handler := onEachFlit next fun st f => (1, f) :: (tap st f).toList.map ((2, ·))

/-- The flit goes on to a port that it chooses. -/
def routing (ports : List Nat) (hports : ports.Nodup) (next : σ → Flit → σ)
    (port : σ → Flit → Nat) : KernelFn σ Flit where
  inPorts := [1]
  outPorts := ports
  nodup_outPorts := hports
  hasSignal := true
  handler := onEachFlit next fun st f => [(port st f, f)]

/-- No port is named twice for a flit. -/
theorem filter_length_le_one {os : List (Nat × Flit)} (h : (os.map Prod.fst).Nodup) (q : Nat) :
    (os.filter (·.1 == q)).length ≤ 1 := by
  have hcount : (os.filter (·.1 == q)).length = (os.map Prod.fst).count q := by
    rw [List.count, List.countP_map, List.countP_eq_length_filter]
    rfl
  rw [hcount]
  exact List.nodup_iff_count_le_one.mp h q

theorem acts_forwarding {next : σ → Flit → σ} {change : σ → Flit → Flit}
    {signal : View σ Flit → BodyResult σ Flit} (hsignal : ∀ v, (signal v).ops = []) :
    ActsOnFlits (forwarding next change signal) next fun st f => [(1, change st f)] where
  inPorts := rfl
  handler := rfl
  ports q hq := by
    rw [List.mem_singleton.mp hq]
    decide
  once _ _ q _ := by
    apply filter_length_le_one
    exact List.nodup_singleton _
  signal := hsignal

theorem acts_tapping (next : σ → Flit → σ) (tap : σ → Flit → Option Flit) :
    ActsOnFlits (tapping next tap) next fun st f => (1, f) :: (tap st f).toList.map ((2, ·)) where
  inPorts := rfl
  handler := rfl
  ports q hq := by
    rcases List.mem_pair.mp hq with rfl | rfl <;> decide
  once st f q _ := by
    apply filter_length_le_one
    cases tap st f <;> simp
  signal _ := rfl

theorem acts_routing {ports : List Nat} {hports : ports.Nodup} (hlt : ∀ q ∈ ports, q < 32)
    (next : σ → Flit → σ) (port : σ → Flit → Nat) :
    ActsOnFlits (routing ports hports next port) next fun st f => [(port st f, f)] where
  inPorts := rfl
  handler := rfl
  ports := hlt
  once _ _ q _ := by
    apply filter_length_le_one
    exact List.nodup_singleton _
  signal _ := rfl

end

end OpenClickNP
