/-
Module: BscMempool.Concurrent.Sequential
Layer: Concurrent
Purpose: Processes that run alone. A call completes when its process runs to its end with nothing in
  between; a serial run completes one call after the other. A contract that a process keeps under
  interference it keeps alone, and a call with given answers can be evaluated.
Trusted boundary: none
Main exports: Machine.Completes, Completes.bind, Completes.kept, Machine.Leads, Leads.bind,
  Completes.leads, Leads.run, Leads.run_op, Machine.Serial, Contract.wp.completes, Machine.evaluate
-/
import BscMempool.Concurrent.Protocol

namespace BscMempool.Concurrent

variable {S : Sig} {σ Task ω : Type} {α β κ : Type}

namespace Machine

variable (M : Machine S σ Task ω)

/-- The process at position `i` runs alone from `s` to its end, every step meeting `C`; it returns
`value` and leaves `s'`. -/
inductive Completes (C : M.Cond) (i : Tid) : Proc S α → σ → α → σ → Prop where
  | ret {value : α} {s : σ} : Completes C i (.ret value) s value s
  | op {o : S.Op} {next : S.Res o → Proc S α} {a : M.Ans o} {s s' : σ}
      {out : Outcome σ Task (S.Res o)} {value : α}
      (meets : C i o a s)
      (did : M.exec i (i + 1) o a s = some out)
      (alone : out.spawned = [])
      (rest : Completes C i (next out.res) out.shared value s') :
      Completes C i (.op o next) s value s'

/-- The process at position `i` gets alone from `p` in `s` to `q` in `s'`, every step meeting `C`
and waiting for nobody. -/
inductive Leads (C : M.Cond) (i : Tid) : Proc S α → σ → Proc S α → σ → Prop where
  | refl {p : Proc S α} {s : σ} : Leads C i p s p s
  | op {o : S.Op} {next : S.Res o → Proc S α} {a : M.Ans o} {s s' : σ}
      {out : Outcome σ Task (S.Res o)} {q : Proc S α}
      (meets : C i o a s)
      (did : M.exec i (i + 1) o a s = some out)
      (alone : out.spawned = [])
      (waitsNot : M.waits o = [])
      (rest : Leads C i (next out.res) out.shared q s') :
      Leads C i (.op o next) s q s'

/-- Any number of calls, one completed after the other. -/
def Serial (C : M.Cond) (i : Tid) (call : κ → Proc S α) : σ → σ → Prop :=
  Relation.ReflTransGen fun s s' => ∃ k value, M.Completes C i (call k) s value s'

variable {M}

/-- What each step preserves, a completed call preserves. -/
theorem Completes.invariant {C : M.Cond} {i : Tid} {I : σ → Prop}
    (keeps : ∀ o a s out, C i o a s → M.exec i (i + 1) o a s = some out → I s → I out.shared)
    {p : Proc S α}
    {s s' : σ} {value : α} (completes : M.Completes C i p s value s') (holds : I s) : I s' := by
  induction completes with
  | ret => exact holds
  | op meets did alone rest ih => exact ih (keeps _ _ _ _ meets did holds)

/-- Calls complete one after the other. -/
theorem Completes.bind {C : M.Cond} {i : Tid} {p : Proc S α} {f : α → Proc S β} {s mid s' : σ}
    {value : α} {result : β}
    (first : M.Completes C i p s value mid) (rest : M.Completes C i (f value) mid result s') :
    M.Completes C i (p >>= f) s result s' := by
  induction first with
  | ret => exact rest
  | op meets did alone _ ih => exact .op meets did alone (ih rest)

/-- A call that obeys a protocol keeps what each allowed operation keeps, and ends in a
phase it may return in. -/
theorem Completes.kept {Q : Type} {P : Protocol S Q} {ends : Q → α → Prop} {first : Q}
    {C : M.recording.Cond} {i : Tid} {I : σ × List M.Event → Prop}
    (keeps : ∀ o a s out, I s → P.allows (P.phase i first s.2) o → C i o a s →
      M.exec i (i + 1) o a s.1 = some out →
      I (out.shared, ⟨i, o, a, out.res⟩ :: s.2)) {p : Proc S α} {s s' : σ × List M.Event}
        {value : α}
    (completes : M.recording.Completes C i p s value s')
    (obeys : p.Obeys P ends (P.phase i first s.2)) (holds : I s) :
    I s' ∧ ends (P.phase i first s'.2) value := by
  induction completes with
  | ret => exact ⟨holds, obeys⟩
  | @op o next a s s' out value meets did _ _ ih =>
      obtain ⟨ran, past⟩ := exec_of_recording did
      have shared : out.shared = (out.shared.1, ⟨i, o, a, out.res⟩ :: s.2) := Prod.ext rfl past
      have after := obeys.2 out.res
      rw [← Protocol.phase_own (M := M) (e := ⟨i, o, a, out.res⟩) rfl, ← past] at after
      have kept := keeps o a s _ holds obeys.1 meets ran
      rw [← shared] at kept
      exact ih after kept

theorem Leads.trans {C : M.Cond} {i : Tid} {p q r : Proc S α} {s mid s' : σ}
    (first : M.Leads C i p s q mid) (rest : M.Leads C i q mid r s') : M.Leads C i p s r s' := by
  induction first with
  | refl => exact rest
  | op meets did alone waitsNot _ ih => exact .op meets did alone waitsNot (ih rest)

/-- What leads somewhere leads there before anything that follows. -/
theorem Leads.bind {C : M.Cond} {i : Tid} {p q : Proc S α} {f : α → Proc S β} {s s' : σ}
    (leads : M.Leads C i p s q s') :
    M.Leads C i (p >>= f) s (q >>= f) s' := by
  induction leads with
  | refl => exact .refl
  | op meets did alone waitsNot _ ih => exact .op meets did alone waitsNot ih

/-- A call that completes and waits for nobody leads to what follows it. -/
theorem Completes.leads {C : M.Cond} {i : Tid} {p : Proc S α} {f : α → Proc S β} {s s' : σ}
    {value : α}
    (completes : M.Completes C i p s value s') (waitsNot : p.All fun o => M.waits o = []) :
    M.Leads C i (p >>= f) s (f value) s' := by
  induction completes with
  | ret => exact .refl
  | op meets did alone _ ih => exact .op meets did alone waitsNot.1 (ih (waitsNot.2 _))

/-- The first task of a pool of its own runs as it does alone. -/
theorem Leads.run {C : M.Cond} {t : Task} {p q : Proc S ω} {s s' : σ}
    (leads : M.Leads C 0 p s q s') :
    M.Run C ⟨s, [(t, p)]⟩ ⟨s', [(t, q)]⟩ := by
  generalize first : (0 : Tid) = i at leads
  induction leads with
  | refl => exact .refl
  | @op o next a s s' out q meets did alone waitsNot _ ih =>
      subst first
      have ready : (M.waits o).all
          (Config.finished (⟨s, [(t, Proc.op o next)]⟩ : Config S σ Task ω)) = true := by
        rw [waitsNot]
        rfl
      have step := Step.mk (C := C) (c := ⟨s, [(t, Proc.op o next)]⟩) rfl ready meets did
      rw [Machine.advance, alone] at step
      exact .head ⟨0, step⟩ ih

/-- Then the operation it is led to can be made. -/
theorem Leads.run_op {C : M.Cond} {t : Task} {p : Proc S ω} {s s' : σ} {o : S.Op}
    {next : S.Res o → Proc S ω}
    {a : M.Ans o} {out : Outcome σ Task (S.Res o)} (leads : M.Leads C 0 p s (.op o next) s')
    (waitsNot : M.waits o = []) (meets : C 0 o a s') (did : M.exec 0 1 o a s' = some out) :
    ∃ c, M.Run C ⟨s, [(t, p)]⟩ c ∧ c.shared = out.shared := by
  have ready : (M.waits o).all (Config.finished (⟨s', [(t, Proc.op o next)]⟩ : Config S σ Task ω)) =
      true := by
    rw [waitsNot]
    rfl
  exact ⟨_, leads.run.tail ⟨0, .mk rfl ready meets did⟩, rfl⟩

/-- What each completed call preserves, every serial run preserves. -/
theorem Serial.invariant {C : M.Cond} {i : Tid} {call : κ → Proc S α} {I : σ → Prop}
    (keeps : ∀ k s value s', I s → M.Completes C i (call k) s value s' → I s') {s s' : σ}
    (serial : M.Serial C i call s s') (holds : I s) : I s' := by
  induction serial with
  | refl => exact holds
  | tail _ last ih =>
      obtain ⟨k, value, completes⟩ := last
      exact keeps k _ value _ ih completes

end Machine

namespace Contract

variable {M : Machine S σ Task ω} {K : Contract M}

/-- A process that keeps a contract amid the steps of others keeps it when it runs alone. -/
theorem completes_of_wp {i : Tid} {p : Proc S α} {Q : α → σ → Prop} {s s' : σ} {value : α}
    (safe : K.wp i p Q s) (inv : K.inv s) (completes : M.Completes K.cond i p s value s') :
    K.inv s' ∧ Q value s' := by
  induction completes with
  | ret => exact ⟨inv, safe⟩
  | op meets did alone rest ih =>
      obtain ⟨keeps, after⟩ := safe _ .refl inv _ (Nat.lt_succ_self i) _ meets _ did
      exact ih after keeps.inv

/-- The contract of a process that runs alone: it may do anything, the others nothing. -/
def lone (C : M.Cond) (i : Tid) : Contract M where
  cond := C
  inv _ := True
  guar j s s' := j = i ∨ s' = s
  pre _ _ _ := True
  post _ _ _ _ := True

variable {C : M.Cond} {i : Tid}

theorem lone_stable {P : σ → Prop} : (lone C i).Stable i P := by
  intro j s s' ne _ _ guar holds
  rcases guar with same | same
  · exact absurd same ne
  · rw [same]
    exact holds

/-- What an operation does is all there is to say about it when nobody else is there. -/
theorem lone_triple {P : σ → Prop} {o : S.Op} {Q : S.Res o → σ → Prop}
    (does : ∀ s, P s → ∀ fresh a, C i o a s → ∀ out, M.exec i fresh o a s = some out →
      Q out.res out.shared) : (lone C i).Triple i P o Q := by
  intro s _ holds fresh _ a meets out did
  constructor
  · exact ⟨trivial, .inl rfl, fun _ _ _ => trivial⟩
  · exact does s holds fresh a meets out did

/-- The rule for an operation at the head of a lone sequence. -/
theorem lone_call {o : S.Op} {f : S.Res o → Proc S β} {Q : β → σ → Prop} {s : σ} {P : σ → Prop}
    (R : S.Res o → σ → Prop)
    (does : ∀ s, P s → ∀ fresh a, C i o a s → ∀ out, M.exec i fresh o a s = some out →
      R out.res out.shared)
    (rest : ∀ result s, R result s → (lone C i).wp i (f result) Q s) (now : P s) :
    (lone C i).wp i (.call o >>= f) Q s :=
  wp_call_seq R lone_stable (lone_triple does) rest now

/-- A lone process all of whose operations keep `P` keeps it. -/
theorem lone_of_all {A : S.Op → Prop} {P : σ → Prop}
    (each : ∀ o, A o → ∀ s, P s → ∀ fresh a, C i o a s → ∀ out, M.exec i fresh o a s = some out →
      P out.shared) {p : Proc S α} (all : p.All A) {Q : α → σ → Prop}
    (done : ∀ value s, P s → Q value s) {s : σ} (now : P s) : (lone C i).wp i p Q s :=
  wp_of_all lone_stable (fun o kind => lone_triple (each o kind)) all done now

end Contract

/-! ### Evaluating a call -/

namespace Machine

variable (M : Machine S σ Task ω) (C : M.Cond) [∀ i o a s, Decidable (C i o a s)]

/-- Run a process alone, with the answers `env`. -/
def evaluate (i : Tid) (env : (o : S.Op) → M.Ans o) : Proc S α → σ → Option (α × σ)
  | .ret value, s => some (value, s)
  | .op o next, s =>
      if C i o (env o) s then
        match M.exec i (i + 1) o (env o) s with
        | some ⟨res, shared, []⟩ => evaluate i env (next res) shared
        | _ => none
      else none

/-- Complete one call after the other, each with its own answers. -/
def evaluateAll (i : Tid) (call : κ → Proc S α) :
    List (κ × ((o : S.Op) → M.Ans o)) → σ → Option σ
  | [], s => some s
  | (k, env) :: rest, s =>
      (M.evaluate C i env (call k) s).bind fun ended => evaluateAll i call rest ended.2

variable {M C}

theorem completes_of_evaluate {i : Tid} {env : (o : S.Op) → M.Ans o} {p : Proc S α} {s s' : σ}
    {value : α} (evaluates : M.evaluate C i env p s = some (value, s')) :
    M.Completes C i p s value s' := by
  induction p generalizing s with
  | ret value =>
      cases evaluates
      exact .ret
  | op o next ih =>
      rw [evaluate] at evaluates
      split at evaluates
      · rename_i meets
        split at evaluates
        · rename_i res shared did
          exact .op meets did rfl (ih res evaluates)
        · cases evaluates
      · cases evaluates

theorem serial_of_evaluateAll {i : Tid} {call : κ → Proc S α}
    {calls : List (κ × ((o : S.Op) → M.Ans o))} {s s' : σ}
    (evaluates : M.evaluateAll C i call calls s = some s') : M.Serial C i call s s' := by
  induction calls generalizing s with
  | nil =>
      cases evaluates
      exact .refl
  | cons first rest ih =>
      obtain ⟨⟨value, d⟩, ended, later⟩ := Option.bind_eq_some_iff.1 evaluates
      exact .head ⟨first.1, value, completes_of_evaluate ended⟩ (ih later)

/-- Calls whose last state passes a test exhibit a serial run to such a state. -/
theorem exists_serial_of_evaluateAll {i : Tid} {call : κ → Proc S α}
    (calls : List (κ × ((o : S.Op) → M.Ans o))) {s : σ} {P : σ → Prop} [DecidablePred P]
    (passes : (M.evaluateAll C i call calls s).any (fun s' => decide (P s')) = true) :
    ∃ s', M.Serial C i call s s' ∧ P s' := by
  obtain ⟨s', evaluates, holds⟩ := (Option.any_eq_true _ _).1 passes
  exact ⟨s', serial_of_evaluateAll evaluates, of_decide_eq_true holds⟩

end Machine

end BscMempool.Concurrent
