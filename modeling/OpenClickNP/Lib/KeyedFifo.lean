import Mathlib.Data.List.Infix
import Mathlib.Data.Prod.Basic
import Mathlib.Logic.Function.Basic

/-!
# A queue for each key

`send k m` puts a message into the queue of `k`, `recv k` takes the oldest one. A queue may tag
what it is given: then `tag k m` is stored in place of `m`. What is received for a key begins the
messages that were sent for it, tagged (`receivedOn_begins`); the tags are not seen exactly when
every message taken is its own tagged form (`outputs_tagged_iff`).
-/

namespace KeyedFifo

/-! ## Machines with an output for each input -/

section

variable {S T A B R : Type*}

/-- What a machine answers to a list of inputs. -/
def outputs (step : S → A → R × S) : S → List A → List R
  | _, [] => []
  | s, a :: as => (step s a).1 :: outputs step (step s a).2 as

/-- **The simulation rule.** Related states that give the same answer and stay related give the
same answers for ever. Induction on the inputs. -/
theorem outputs_eq_of_simulates {step : S → A → R × S} {step' : T → B → R × T} {f : A → B}
    (Sim : S → T → Prop)
    (hstep : ∀ s t a, Sim s t →
      (step s a).1 = (step' t (f a)).1 ∧ Sim (step s a).2 (step' t (f a)).2)
    {s : S} {t : T} (h : Sim s t) (as : List A) :
    outputs step s as = outputs step' t (as.map f) := by
  induction as generalizing s t with
  | nil => rfl
  | cons a as ih =>
    obtain ⟨hanswer, hsim⟩ := hstep s t a h
    rw [outputs, List.map_cons, outputs, hanswer, ih hsim]

end

/-! ## The queues -/

inductive Op (K M : Type*) where
  | send (k : K) (m : M)
  | recv (k : K)

/-- `sent` says whether the message was accepted, `received` what was taken, if anything. -/
inductive Result (M : Type*) where
  | sent (ok : Bool)
  | received (m : Option M)
deriving DecidableEq

variable {K M : Type*}

/-- The messages taken, each with its key. -/
def received : List (Op K M) → List (Result M) → List (K × M)
  | .recv k :: ops, .received (some m) :: rs => (k, m) :: received ops rs
  | _ :: ops, _ :: rs => received ops rs
  | _, _ => []

theorem received_send (k : K) (m : M) (ops : List (Op K M)) (r : Result M)
    (rs : List (Result M)) : received (.send k m :: ops) (r :: rs) = received ops rs := by
  cases r <;> rfl

theorem received_recv (k : K) (o : Option M) (ops : List (Op K M)) (rs : List (Result M)) :
    received (.recv k :: ops) (.received o :: rs)
      = (o.map fun m => (k, m)).toList ++ received ops rs := by
  cases o <;> rfl

variable [DecidableEq K]

/-- One operation on the queues of the keys that are served. -/
def step (serves : K → Bool) (tag : K → M → M) (q : K → List M) :
    Op K M → Result M × (K → List M)
  | .send k m =>
    if serves k then (.sent true, Function.update q k (q k ++ [tag k m])) else (.sent false, q)
  | .recv k =>
    if serves k then (.received (q k).head?, Function.update q k (q k).tail)
    else (.received none, q)

/-- The messages sent for a key. -/
def sentTo (k : K) : List (Op K M) → List M
  | [] => []
  | .send k' m :: ops => if k' = k then m :: sentTo k ops else sentTo k ops
  | .recv _ :: ops => sentTo k ops

/-- The messages taken for a key. -/
def receivedOn (k : K) (ops : List (Op K M)) (rs : List (Result M)) : List M :=
  ((received ops rs).filter (·.1 = k)).map Prod.snd

theorem receivedOn_send (k k' : K) (m : M) (ops : List (Op K M)) (r : Result M)
    (rs : List (Result M)) : receivedOn k (.send k' m :: ops) (r :: rs) = receivedOn k ops rs := by
  rw [receivedOn, received_send, receivedOn]

theorem receivedOn_recv_self (k : K) (o : Option M) (ops : List (Op K M)) (rs : List (Result M)) :
    receivedOn k (.recv k :: ops) (.received o :: rs) = o.toList ++ receivedOn k ops rs := by
  rw [receivedOn, received_recv, receivedOn]
  cases o <;> simp

theorem receivedOn_recv_of_ne {k k' : K} (hne : k' ≠ k) (o : Option M) (ops : List (Op K M))
    (rs : List (Result M)) :
    receivedOn k (.recv k' :: ops) (.received o :: rs) = receivedOn k ops rs := by
  rw [receivedOn, received_recv, receivedOn]
  cases o <;> simp [hne]

section

variable {serves : K → Bool} {tag : K → M → M}

theorem step_send {k : K} (hk : serves k = true) (q : K → List M) (m : M) :
    step serves tag q (.send k m) = (.sent true, Function.update q k (q k ++ [tag k m])) :=
  if_pos hk

theorem step_send_of_not {k : K} (hk : ¬ serves k = true) (q : K → List M) (m : M) :
    step serves tag q (.send k m) = (.sent false, q) :=
  if_neg hk

theorem step_recv {k : K} (hk : serves k = true) (q : K → List M) :
    step serves tag q (.recv k) = (.received (q k).head?, Function.update q k (q k).tail) :=
  if_pos hk

theorem step_recv_of_not {k : K} (hk : ¬ serves k = true) (q : K → List M) :
    step serves tag q (.recv k) = (.received none, q) :=
  if_neg hk

/-- Nothing is taken for a key that is not served. -/
theorem receivedOn_of_not_serves {k : K} (hk : ¬ serves k = true) (q : K → List M)
    (ops : List (Op K M)) : receivedOn k ops (outputs (step serves tag) q ops) = [] := by
  induction ops generalizing q with
  | nil => rfl
  | cons op ops ih =>
    rw [outputs]
    cases op with
    | send k' m => rw [receivedOn_send, ih]
    | recv k' =>
      by_cases hkk : k' = k
      · subst hkk
        rw [step_recv_of_not hk, receivedOn_recv_self, ih]
        rfl
      · by_cases hs : serves k' = true
        · rw [step_recv hs, receivedOn_recv_of_ne hkk, ih]
        · rw [step_recv_of_not hs, receivedOn_recv_of_ne hkk, ih]

/-- One operation: what waited for a served key and what is sent for it is taken or waits. -/
theorem step_conserves {k : K} (hk : serves k = true) (q : K → List M) (op : Op K M) :
    q k ++ (sentTo k [op]).map (tag k)
      = receivedOn k [op] [(step serves tag q op).1] ++ (step serves tag q op).2 k := by
  cases op with
  | send k' m =>
    rw [receivedOn_send, sentTo]
    by_cases hkk : k' = k
    · subst hkk
      rw [step_send hk, if_pos rfl]
      show q k' ++ [tag k' m] = Function.update q k' (q k' ++ [tag k' m]) k'
      rw [Function.update_self]
    · rw [if_neg hkk]
      by_cases hk' : serves k' = true
      · rw [step_send hk']
        show q k ++ [] = Function.update q k' (q k' ++ [tag k' m]) k
        rw [Function.update_of_ne (Ne.symm hkk), List.append_nil]
      · rw [step_send_of_not hk']
        exact List.append_nil _
  | recv k' =>
    rw [sentTo]
    by_cases hkk : k' = k
    · subst hkk
      rw [step_recv hk, receivedOn_recv_self]
      show q k' ++ [] = ((q k').head?.toList ++ []) ++ Function.update q k' (q k').tail k'
      rw [Function.update_self]
      cases q k' <;> simp
    · by_cases hk' : serves k' = true
      · rw [step_recv hk', receivedOn_recv_of_ne hkk]
        show q k ++ [] = Function.update q k' (q k').tail k
        rw [Function.update_of_ne (Ne.symm hkk), List.append_nil]
      · rw [step_recv_of_not hk', receivedOn_recv_of_ne hkk]
        exact List.append_nil _

theorem sentTo_cons (k : K) (op : Op K M) (ops : List (Op K M)) :
    sentTo k (op :: ops) = sentTo k [op] ++ sentTo k ops := by
  cases op with
  | send k' m => simp only [sentTo]; split <;> rfl
  | recv k' => rfl

theorem receivedOn_cons (k : K) (op : Op K M) (ops : List (Op K M)) (r : Result M)
    (rs : List (Result M)) :
    receivedOn k (op :: ops) (r :: rs) = receivedOn k [op] [r] ++ receivedOn k ops rs := by
  have hone : received (op :: ops) (r :: rs) = received [op] [r] ++ received ops rs := by
    rcases op with ⟨k', m⟩ | k' <;> rcases r with ok | _ | m <;> rfl
  rw [receivedOn, hone, List.filter_append, List.map_append, receivedOn, receivedOn]

/-- **First in, first out.** Behind what waits, the messages of a key come in the order of the
sends, whatever happens to other keys. Induction on the operations. -/
theorem receivedOn_begins_append (k : K) (q : K → List M) (ops : List (Op K M)) :
    receivedOn k ops (outputs (step serves tag) q ops)
      <+: q k ++ (sentTo k ops).map (tag k) := by
  by_cases hk : serves k = true
  · induction ops generalizing q with
    | nil => exact List.nil_prefix
    | cons op ops ih =>
      rw [outputs, receivedOn_cons, sentTo_cons, List.map_append, ← List.append_assoc,
        step_conserves hk q op, List.append_assoc]
      exact (List.prefix_append_right_inj _).mpr (ih _)
  · rw [receivedOn_of_not_serves hk]
    exact List.nil_prefix

/-- From empty queues, what is received for a key begins what was sent for it, tagged. -/
theorem receivedOn_begins (serves : K → Bool) (tag : K → M → M) (k : K) (ops : List (Op K M)) :
    receivedOn k ops (outputs (step serves tag) (fun _ => []) ops)
      <+: (sentTo k ops).map (tag k) :=
  receivedOn_begins_append k _ ops

/-- The queues whose messages are tagged. -/
def tagged (tag : K → M → M) (q : K → List M) : K → List M := fun k => (q k).map (tag k)

theorem tagged_update (tag : K → M → M) (q : K → List M) (k : K) (l : List M) :
    Function.update (tagged tag q) k (l.map (tag k)) = tagged tag (Function.update q k l) := by
  funext k'
  by_cases hk : k' = k
  · subst hk
    rw [tagged, Function.update_self, Function.update_self]
  · rw [tagged, Function.update_of_ne hk, Function.update_of_ne hk, tagged]

/-- **When the tags are not seen.** Tagged and plain queues that hold the same messages give the
same answers exactly when every message taken from the plain ones is its own tagged form.
Induction on the operations. -/
theorem outputs_tagged_iff (serves : K → Bool) (tag : K → M → M) (q : K → List M)
    (ops : List (Op K M)) :
    outputs (step serves tag) (tagged tag q) ops = outputs (step serves fun _ m => m) q ops ↔
      ∀ km ∈ received ops (outputs (step serves fun _ m => m) q ops), tag km.1 km.2 = km.2 := by
  induction ops generalizing q with
  | nil => exact iff_of_true rfl fun km hkm => absurd hkm List.not_mem_nil
  | cons op ops ih =>
    rw [outputs, outputs, List.cons.injEq]
    cases op with
    | send k m =>
      rw [received_send]
      by_cases hs : serves k = true
      · have hnext := tagged_update tag q k (q k ++ [m])
        rw [List.map_append] at hnext
        rw [step_send hs, step_send hs, ← ih, ← hnext]
        exact and_iff_right rfl
      · rw [step_send_of_not hs, step_send_of_not hs, ← ih]
        exact and_iff_right rfl
    | recv k =>
      by_cases hs : serves k = true
      · have hnext := tagged_update tag q k (q k).tail
        rw [List.map_tail] at hnext
        rw [step_recv hs, step_recv hs, received_recv, List.forall_mem_append, ← ih, ← hnext]
        -- the answers agree on the oldest message exactly when it is its own tagged form
        refine and_congr ?_ Iff.rfl
        rw [tagged, List.head?_map]
        cases (q k).head? <;> simp
      · rw [step_recv_of_not hs, step_recv_of_not hs, received_recv]
        exact (and_iff_right rfl).trans (ih q)

end

end KeyedFifo
