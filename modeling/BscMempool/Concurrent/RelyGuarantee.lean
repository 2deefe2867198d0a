/-
Module: BscMempool.Concurrent.RelyGuarantee
Layer: Concurrent
Purpose: Rely-guarantee reasoning for pools of processes. A contract fixes the invariant of the
  shared state, what a step of the process at each position may do to it, and what each task starts
  from and ends with. `Contract.wp` checks one process against the contract under interference by
  all others; `Contract.sound` turns these separate checks into facts about every run of every pool.
Trusted boundary: none
Main exports: Contract, Contract.wp, Contract.Triple, Contract.wp_op, Contract.wp_bind,
  Contract.wp_of_all, Contract.About, Contract.wp_still, Contract.owned, Contract.sound,
  Contract.Sound.step
-/
import BscMempool.Concurrent.System

namespace BscMempool.Concurrent

variable {S : Sig} {σ Task ω : Type} {M : Machine S σ Task ω} {α β : Type}

/-- What is agreed about the processes of a pool: the steps considered (`cond`), the invariant of
the shared state, what a step of the process at position `i` may do to it (`guar i`), and what holds
when a task starts at a position and after it has returned. -/
structure Contract (M : Machine S σ Task ω) where
  cond : M.Cond
  inv : σ → Prop
  guar : Tid → σ → σ → Prop
  pre : Task → Tid → σ → Prop
  post : Task → Tid → ω → σ → Prop

namespace Contract

variable (K : Contract M)

/-- A step of some process other than the one at `i`. -/
def Other (i : Tid) (s s' : σ) : Prop :=
  ∃ j, j ≠ i ∧ K.inv s ∧ K.inv s' ∧ K.guar j s s'

/-- What the process at `i` has to put up with between two of its own steps. -/
def Rely (i : Tid) : σ → σ → Prop := Relation.ReflTransGen (K.Other i)

/-- `P` survives every step of every process other than the one at `i`. -/
def Stable (i : Tid) (P : σ → Prop) : Prop :=
  ∀ j s s', j ≠ i → K.inv s → K.inv s' → K.guar j s s' → P s → P s'

theorem Stable.rely {K : Contract M} {i : Tid} {P : σ → Prop} (stable : K.Stable i P) {s s' : σ}
    (rely : K.Rely i s s') (holds : P s) : P s' := by
  induction rely with
  | refl => exact holds
  | tail _ other ih =>
      obtain ⟨j, ne, inv, inv', guar⟩ := other
      exact stable j _ _ ne inv inv' guar ih

theorem Stable.and {K : Contract M} {i : Tid} {P Q : σ → Prop} (left : K.Stable i P)
    (right : K.Stable i Q) : K.Stable i fun s => P s ∧ Q s :=
  fun j s s' ne inv inv' guar holds =>
    ⟨left j s s' ne inv inv' guar holds.1, right j s s' ne inv inv' guar holds.2⟩

theorem Stable.const {K : Contract M} {i : Tid} (p : Prop) : K.Stable i fun _ => p :=
  fun _ _ _ _ _ _ _ holds => holds

theorem Stable.true {K : Contract M} {i : Tid} : K.Stable i fun _ => True := Stable.const True

theorem Stable.forall {K : Contract M} {i : Tid} {ι : Sort*} {P : ι → σ → Prop}
    (each : ∀ x, K.Stable i (P x)) : K.Stable i fun s => ∀ x, P x s :=
  fun j s s' ne inv inv' guar holds x => each x j s s' ne inv inv' guar (holds x)

/-- An operation by the process at `i` that led from `s` to `out` kept the contract. -/
structure Keeps (i fresh : Tid) (s : σ) {ρ : Type} (out : Outcome σ Task ρ) : Prop where
  inv : K.inv out.shared
  guar : K.guar i s out.shared
  starts : ∀ j t, out.spawned[j]? = some t → K.pre t (fresh + j) out.shared

/-- An operation that starts no task keeps the contract if it keeps the
invariant and the guarantee. -/
theorem Keeps.quiet {K : Contract M} {i fresh : Tid} {s : σ} {ρ : Type} {out : Outcome σ Task ρ}
    (inv : K.inv out.shared) (guar : K.guar i s out.shared) (none : out.spawned = []) :
    K.Keeps i fresh s out :=
  ⟨inv, guar, fun j t started => by rw [none] at started; cases started⟩

/-- Weakest precondition of a process at position `i`: whatever the others do between its
operations, each operation keeps the contract, and a result satisfies `Q`. -/
def wp (i : Tid) : Proc S α → (α → σ → Prop) → σ → Prop
  | .ret value, Q, s => Q value s
  | .op o next, Q, s =>
      ∀ s', K.Rely i s s' → K.inv s' → ∀ fresh, i < fresh → ∀ a, K.cond i o a s' →
        ∀ out, M.exec i fresh o a s' = some out →
          K.Keeps i fresh s' out ∧ wp i (next out.res) Q out.shared

variable {K}

@[simp] theorem wp_ret {i : Tid} {value : α} {Q : α → σ → Prop} {s : σ} :
    K.wp i (.ret value) Q s ↔ Q value s := Iff.rfl

/-- An operation of the process at `i`, from a state that satisfies `P`: it keeps the contract, and
its result and the state after it satisfy `Q`. -/
def Triple (K : Contract M) (i : Tid) (P : σ → Prop) (o : S.Op) (Q : S.Res o → σ → Prop) : Prop :=
  ∀ s, K.inv s → P s → ∀ fresh, i < fresh → ∀ a, K.cond i o a s →
    ∀ out, M.exec i fresh o a s = some out → K.Keeps i fresh s out ∧ Q out.res out.shared

theorem Triple.weaken {i : Tid} {P : σ → Prop} {o : S.Op} {Q R : S.Res o → σ → Prop}
    (triple : K.Triple i P o Q) (implies : ∀ result s, Q result s → R result s) :
    K.Triple i P o R := by
  intro s inv holds fresh lt a meets out did
  obtain ⟨keeps, after⟩ := triple s inv holds fresh lt a meets out did
  exact ⟨keeps, implies _ _ after⟩

/-- The rule for one operation, from a stable assertion. -/
theorem wp_op {i : Tid} {o : S.Op} {next : S.Res o → Proc S α} {Q : α → σ → Prop} {s : σ}
    {P : σ → Prop} (stable : K.Stable i P) (now : P s)
    (each : K.Triple i P o fun result s => K.wp i (next result) Q s) :
    K.wp i (.op o next) Q s := by
  intro s' rely inv fresh lt a meets out did
  exact each s' inv (stable.rely rely now) fresh lt a meets out did

theorem wp_call {i : Tid} {o : S.Op} {Q : S.Res o → σ → Prop} {s : σ} {P : σ → Prop}
    (stable : K.Stable i P) (each : K.Triple i P o Q) (now : P s) : K.wp i (.call o) Q s :=
  wp_op stable now each

/-- Preconditions of a sequence compose. -/
theorem wp_bind {i : Tid} {p : Proc S α} {f : α → Proc S β} {Q : β → σ → Prop} {s : σ} :
    K.wp i (p >>= f) Q s ↔ K.wp i p (fun value => K.wp i (f value) Q) s := by
  induction p generalizing s with
  | ret value => rfl
  | op o next ih =>
      rw [Proc.op_bind]
      constructor
      · intro h s' rely inv fresh lt a meets out did
        obtain ⟨keeps, rest⟩ := h s' rely inv fresh lt a meets out did
        exact ⟨keeps, (ih out.res).1 rest⟩
      · intro h s' rely inv fresh lt a meets out did
        obtain ⟨keeps, rest⟩ := h s' rely inv fresh lt a meets out did
        exact ⟨keeps, (ih out.res).2 rest⟩

theorem wp_mono {i : Tid} {p : Proc S α} {Q R : α → σ → Prop} {s : σ}
    (implies : ∀ value s, Q value s → R value s) (h : K.wp i p Q s) : K.wp i p R s := by
  induction p generalizing s with
  | ret value => exact implies value s h
  | op o next ih =>
      intro s' rely inv fresh lt a meets out did
      obtain ⟨keeps, rest⟩ := h s' rely inv fresh lt a meets out did
      exact ⟨keeps, ih out.res rest⟩

/-- What every result of a process satisfies may be assumed of its results. -/
theorem wp_ends {i : Tid} {p : Proc S α} {R : α → Prop} {Q : α → σ → Prop} {s : σ} (ends : p.Ends R)
    (h : K.wp i p (fun value s => R value → Q value s) s) : K.wp i p Q s := by
  induction p generalizing s with
  | ret value => exact h ends
  | op o next ih =>
      intro s' rely inv fresh lt a meets out did
      obtain ⟨keeps, rest⟩ := h s' rely inv fresh lt a meets out did
      exact ⟨keeps, ih out.res (ends out.res) rest⟩

/-- A sequence, checked part by part. -/
theorem wp_seq {i : Tid} {p : Proc S α} {f : α → Proc S β} {Q : β → σ → Prop} {s : σ}
    (R : α → σ → Prop) (first : K.wp i p R s)
    (rest : ∀ value s, R value s → K.wp i (f value) Q s) : K.wp i (p >>= f) Q s :=
  wp_bind.2 (wp_mono rest first)

/-- The rule for an operation at the head of a sequence. -/
theorem wp_call_seq {i : Tid} {o : S.Op} {f : S.Res o → Proc S β} {Q : β → σ → Prop} {s : σ}
    {P : σ → Prop} (R : S.Res o → σ → Prop) (stable : K.Stable i P) (each : K.Triple i P o R)
    (rest : ∀ result s, R result s → K.wp i (f result) Q s) (now : P s) :
    K.wp i (.call o >>= f) Q s :=
  wp_seq R (wp_call stable each now) rest

/-- A process all of whose operations are of one kind, each of which keeps the contract and an
assertion `P`, keeps both, whatever it computes. -/
theorem wp_of_all {i : Tid} {A : S.Op → Prop} {P : σ → Prop} (stable : K.Stable i P)
    (each : ∀ o, A o → K.Triple i P o fun _ s => P s)
    {p : Proc S α} (all : p.All A) {Q : α → σ → Prop} (done : ∀ value s, P s → Q value s) {s : σ}
    (now : P s) : K.wp i p Q s := by
  induction p generalizing s with
  | ret value => exact done value s now
  | op o next ih =>
      refine wp_op stable now ?_
      intro s' inv holds fresh lt a meets out did
      obtain ⟨keeps, after⟩ := each o all.1 s' inv holds fresh lt a meets out did
      exact ⟨keeps, ih out.res (all.2 out.res) after⟩

/-! ### Contracts about a part of the state

Many operations do not touch what a contract speaks about.  Processes made of such operations keep
every assertion about that part. -/

section View

variable {V : Type} {view : σ → V}

/-- The contract speaks about `view` only. -/
structure About (K : Contract M) (view : σ → V) : Prop where
  inv : ∀ s s', view s' = view s → K.inv s → K.inv s'
  guar : ∀ i s s', view s' = view s → K.inv s → K.guar i s s'

/-- The operation leaves `view` alone and starts only tasks that may start anywhere. -/
def Still (K : Contract M) (view : σ → V) (o : S.Op) : Prop :=
  ∀ i fresh a s out, M.exec i fresh o a s = some out →
    view out.shared = view s ∧ ∀ j t, out.spawned[j]? = some t → ∀ s, K.pre t (fresh + j) s

theorem Still.triple {o : S.Op} (still : K.Still view o) (about : K.About view) {i : Tid}
    {P : V → Prop} : K.Triple i (fun s => P (view s)) o fun _ s => P (view s) := by
  intro s inv holds fresh _ a _ out did
  obtain ⟨same, starts⟩ := still i fresh a s out did
  refine ⟨⟨about.inv s _ same inv, about.guar i s _ same inv, ?_⟩, ?_⟩
  · exact fun j t started => starts j t started out.shared
  · change P (view out.shared)
    rw [same]
    exact holds

/-- Operations that leave the view alone keep every stable assertion about it. -/
theorem wp_still {i : Tid} {P : V → Prop} (about : K.About view)
    (stable : K.Stable i fun s => P (view s)) {p : Proc S α} (all : p.All (K.Still view))
    {Q : α → σ → Prop} (done : ∀ value s, P (view s) → Q value s) {s : σ} (now : P (view s)) :
    K.wp i p Q s :=
  wp_of_all stable (fun _ still => still.triple about) all done now

/-- An assertion about the view that survives the steps of the other processes. -/
structure Assertion (K : Contract M) (view : σ → V) (i : Tid) where
  holds : V → Prop
  stable : K.Stable i fun s => holds (view s)

/-- The assertion holds in a state. -/
def Assertion.on {i : Tid} (A : K.Assertion view i) (s : σ) : Prop := A.holds (view s)

/-- What all assertions of a family assert. -/
def Assertion.all {i : Tid} {ι : Type} (A : ι → K.Assertion view i) : K.Assertion view i where
  holds v := ∀ x, (A x).holds v
  stable := .forall fun x => (A x).stable

/-- A fact beside an assertion. -/
def Assertion.given {i : Tid} (fact : Prop) (A : K.Assertion view i) : K.Assertion view i where
  holds v := fact ∧ A.holds v
  stable := .and (.const fact) A.stable

/-- Two assertions at once. -/
def Assertion.and {i : Tid} (A B : K.Assertion view i) : K.Assertion view i where
  holds v := A.holds v ∧ B.holds v
  stable := .and A.stable B.stable

/-- An assertion made where a condition is met. -/
def Assertion.when {i : Tid} (A : K.Assertion view i) (condition : Prop) : K.Assertion view i where
  holds v := condition → A.holds v
  stable := .forall fun _ => A.stable

/-- An operation that leaves the view alone keeps an assertion. -/
theorem Assertion.triple_still {i : Tid} (A : K.Assertion view i) (about : K.About view) {o : S.Op}
    (still : K.Still view o) {Q : S.Res o → σ → Prop} (implies : ∀ result s, A.on s → Q result s) :
    K.Triple i A.on o Q :=
  (still.triple about).weaken implies

/-- Operations that leave the view alone keep an assertion. -/
theorem Assertion.wp_still {i : Tid} (A : K.Assertion view i) (about : K.About view)
    {p : Proc S α} (all : p.All (K.Still view)) {Q : α → σ → Prop}
    (done : ∀ value s, A.on s → Q value s) {s : σ} (now : A.on s) : K.wp i p Q s :=
  Contract.wp_still about A.stable all done now

/-- The contract of a pool in which the process at `owner` alone changes `view`. -/
def owned (C : M.Cond) (owner : Tid) (view : σ → V) (I : V → Prop) (pre : Task → Tid → V → Prop) :
    Contract M where
  cond := C
  inv s := I (view s)
  guar i s s' := i ≠ owner → view s' = view s
  pre t i s := pre t i (view s)
  post _ _ _ _ := True

section Owned

variable {C : M.Cond} {owner : Tid} {I : V → Prop} {pre : Task → Tid → V → Prop}

theorem owned_about : (owned C owner view I pre).About view where
  inv s s' same inv := by
    change I (view s')
    rw [same]
    exact inv
  guar _ _ _ same _ _ := same

/-- What the owner knows of the view it knows whatever the others do. -/
theorem owned_stable {P : V → Prop} : (owned C owner view I pre).Stable owner fun s =>
    P (view s) := by
  intro j s s' ne _ _ guar holds
  rw [guar ne]
  exact holds

/-- The rule for an operation of the owner: all there is to check is what it does to the view. -/
theorem owned_triple {P : V → Prop} {o : S.Op} {Q : S.Res o → V → Prop}
    (does : ∀ s, I (view s) → P (view s) → ∀ fresh, owner < fresh → ∀ a, C owner o a s →
      ∀ out, M.exec owner fresh o a s = some out →
        I (view out.shared) ∧ Q out.res (view out.shared) ∧
        ∀ j t, out.spawned[j]? = some t → pre t (fresh + j) (view out.shared)) :
    (owned C owner view I pre).Triple owner (fun s => P (view s)) o fun r s => Q r (view s) := by
  intro s inv holds fresh lt a meets out did
  obtain ⟨inv', after, starts⟩ := does s inv holds fresh lt a meets out did
  exact ⟨⟨inv', fun ne => absurd rfl ne, starts⟩, after⟩

end Owned

end View

/-- The invariant holds, and what is left of every process of the pool keeps the contract. -/
structure Sound (K : Contract M) (c : Config S σ Task ω) : Prop where
  inv : K.inv c.shared
  safe : ∀ i t p, c.pool[i]? = some (t, p) →
    ∃ s, K.Rely i s c.shared ∧ K.wp i p (K.post t i) s

/-- A step from a sound configuration is within the guarantee of the process that makes it and leads
to a sound configuration. -/
theorem Sound.step {c c' : Config S σ Task ω}
    (bodies : ∀ t i s, K.inv s → K.pre t i s → K.wp i (M.body t) (K.post t i) s)
    (sound : K.Sound c) {i : Tid} (step : M.Step K.cond i c c') :
    K.guar i c.shared c'.shared ∧ K.Sound c' := by
  cases step with
  | @mk t o next a out running ready meets did =>
    obtain ⟨s, rely, safe⟩ := sound.safe i t _ running
    have bound : i < c.pool.length := (List.getElem?_eq_some_iff.1 running).1
    obtain ⟨keeps, rest⟩ := safe c.shared rely sound.inv _ bound a meets out did
    refine ⟨keeps.guar, keeps.inv, ?_⟩
    intro j u p found
    simp only [Machine.advance] at found ⊢
    by_cases old : j < c.pool.length
    · rw [List.getElem?_append_left (by simpa using old)] at found
      by_cases same : i = j
      · subst same
        rw [List.getElem?_set_self bound] at found
        cases found
        exact ⟨out.shared, .refl, rest⟩
      · rw [List.getElem?_set_ne same] at found
        obtain ⟨s₀, relyJ, safeJ⟩ := sound.safe j u p found
        exact ⟨s₀, relyJ.tail ⟨i, same, sound.inv, keeps.inv, keeps.guar⟩, safeJ⟩
    · rw [List.getElem?_append_right (by simpa using Nat.le_of_not_lt old), List.length_set,
        List.getElem?_map, Option.map_eq_some_iff] at found
      obtain ⟨v, started, same⟩ := found
      cases same
      have began := keeps.starts _ _ started
      rw [Nat.add_sub_cancel' (Nat.le_of_not_lt old)] at began
      exact ⟨out.shared, .refl, bodies _ j _ keeps.inv began⟩

/-- Separate checks of the task bodies make every configuration of every run sound. -/
theorem sound (bodies : ∀ t i s, K.inv s → K.pre t i s → K.wp i (M.body t) (K.post t i) s)
    {s : σ} {tasks : List Task} (init : K.inv s)
    (pres : ∀ i t, tasks[i]? = some t → K.pre t i s) {c : Config S σ Task ω}
    (run : M.Run K.cond (M.start s tasks) c) : K.Sound c := by
  refine run.invariant (fun i c c' sound step => (sound.step bodies step).2) ⟨init, ?_⟩
  intro i t p found
  simp only [Machine.start, List.getElem?_map, Option.map_eq_some_iff] at found
  obtain ⟨u, started, same⟩ := found
  cases same
  exact ⟨s, .refl, bodies _ i s init (pres i _ started)⟩

/-- What a task promises for its end holds after it has returned. -/
theorem Sound.post_of_ret {c : Config S σ Task ω} (sound : K.Sound c) {i : Tid} {t : Task} {v : ω}
    (stable : K.Stable i (K.post t i v)) (found : c.pool[i]? = some (t, .ret v)) :
    K.post t i v c.shared := by
  obtain ⟨s, rely, safe⟩ := sound.safe i t _ found
  exact stable.rely rely safe

end Contract

end BscMempool.Concurrent
