/-
Module: BscMempool.Concurrent.Process
Layer: Concurrent
Purpose: Processes over an effect signature. A process is the well-founded tree of the shared-state
  accesses and questions an asynchronous function makes; every node is one atomic step, and another
  process may run between any two nodes.
Trusted boundary: none
Main exports: Sig, Proc, Proc.call, Proc.All, Proc.Ends, Proc.Reaches, Proc.Lockstep,
  Proc.interpret
-/
import Mathlib.Logic.Basic

namespace BscMempool.Concurrent

/-- An effect signature: the atomic operations and what each of them hands back. -/
structure Sig where
  Op : Type
  Res : Op → Type

/-- A process that returns an `α`. -/
inductive Proc (S : Sig) (α : Type) where
  | ret (value : α)
  | op (o : S.Op) (next : S.Res o → Proc S α)

namespace Proc

variable {S : Sig} {α β γ : Type}

/-- Sequential composition. -/
def bind : Proc S α → (α → Proc S β) → Proc S β
  | .ret value, next => next value
  | .op o rest, next => .op o fun result => (rest result).bind next

instance : Monad (Proc S) where
  pure := .ret
  bind := bind

/-- One operation, handing its result on. -/
def call (o : S.Op) : Proc S (S.Res o) := .op o .ret

@[simp] theorem pure_eq (value : α) : (pure value : Proc S α) = .ret value := rfl

@[simp] theorem ret_bind (value : α) (next : α → Proc S β) :
    (Proc.ret value : Proc S α) >>= next = next value := rfl

@[simp] theorem op_bind (o : S.Op) (rest : S.Res o → Proc S α) (next : α → Proc S β) :
    Proc.op o rest >>= next = .op o fun result => rest result >>= next := rfl

@[simp] theorem call_bind (o : S.Op) (next : S.Res o → Proc S β) :
    call o >>= next = .op o next := rfl

theorem bind_ret (p : Proc S α) : p >>= Proc.ret = p := by
  induction p with
  | ret value => rfl
  | op o rest ih =>
      rw [op_bind]
      exact congrArg (Proc.op o) (funext ih)

theorem bind_bind (p : Proc S α) (f : α → Proc S β) (g : β → Proc S γ) :
    p >>= f >>= g = p >>= fun value => f value >>= g := by
  induction p with
  | ret value => rfl
  | op o rest ih =>
      simp only [op_bind]
      exact congrArg (Proc.op o) (funext ih)

instance : LawfulMonad (Proc S) :=
  LawfulMonad.mk' (Proc S) bind_ret (fun _ _ => rfl) bind_bind

/-- Every operation the process can ever make satisfies `P`. -/
def All (P : S.Op → Prop) : Proc S α → Prop
  | .ret _ => True
  | .op o rest => P o ∧ ∀ result, (rest result).All P

@[simp] theorem all_ret {P : S.Op → Prop} (value : α) : All P (.ret value : Proc S α) := trivial

@[simp] theorem all_op {P : S.Op → Prop} {o : S.Op} {rest : S.Res o → Proc S α} :
    All P (.op o rest) ↔ P o ∧ ∀ result, (rest result).All P := Iff.rfl

@[simp] theorem all_call {P : S.Op → Prop} {o : S.Op} : All P (call o) ↔ P o :=
  ⟨fun h => h.1, fun h => ⟨h, fun _ => trivial⟩⟩

theorem All.bind {P : S.Op → Prop} {p : Proc S α} {f : α → Proc S β}
    (first : p.All P) (rest : ∀ value, (f value).All P) : (p >>= f).All P := by
  induction p with
  | ret value => exact rest value
  | op o next ih => exact ⟨first.1, fun result => ih result (first.2 result)⟩

theorem All.mono {P Q : S.Op → Prop} (implies : ∀ o, P o → Q o) {p : Proc S α}
    (all : p.All P) : p.All Q := by
  induction p with
  | ret value => trivial
  | op o next ih => exact ⟨implies o all.1, fun result => ih result (all.2 result)⟩

theorem All.any (p : Proc S α) : p.All fun _ => True := by
  induction p with
  | ret value => trivial
  | op o next ih => exact ⟨trivial, ih⟩

/-- Every value the process can return satisfies `R`. -/
def Ends (R : α → Prop) : Proc S α → Prop
  | .ret value => R value
  | .op _ rest => ∀ result, (rest result).Ends R

@[simp] theorem ends_ret {R : α → Prop} {value : α} : Ends R (.ret value : Proc S α) ↔ R value :=
  Iff.rfl

theorem Ends.bind {R : α → Prop} {T : β → Prop} {p : Proc S α} {f : α → Proc S β}
    (first : p.Ends R) (rest : ∀ value, R value → (f value).Ends T) : (p >>= f).Ends T := by
  induction p with
  | ret value => exact rest value first
  | op o next ih => exact fun result => ih result (first result)

/-- What every result of the first part satisfies may be assumed of it. -/
theorem All.bind_ends {P : S.Op → Prop} {R : α → Prop} {p : Proc S α} {f : α → Proc S β}
    (first : p.All P) (ends : p.Ends R) (rest : ∀ value, R value → (f value).All P) :
    (p >>= f).All P := by
  induction p with
  | ret value => exact rest value ends
  | op o next ih => exact ⟨first.1, fun result => ih result (first.2 result) (ends result)⟩

theorem Ends.any (p : Proc S α) : p.Ends fun _ => True := by
  induction p with
  | ret value => trivial
  | op o next ih => exact ih

/-- Whatever admitted results its operations get, the process comes to an operation in `hit`.  The
tree is well founded, so this says that the process does get there, not only that it might. -/
def Reaches (admits : (o : S.Op) → S.Res o → Prop) (hit : S.Op → Prop) : Proc S α → Prop
  | .ret _ => False
  | .op o rest => hit o ∨ ∀ result, admits o result → (rest result).Reaches admits hit

theorem Reaches.here {admits : (o : S.Op) → S.Res o → Prop} {hit : S.Op → Prop} {o : S.Op}
    {rest : S.Res o → Proc S α} (found : hit o) : Reaches admits hit (.op o rest) := Or.inl found

theorem Reaches.later {admits : (o : S.Op) → S.Res o → Prop} {hit : S.Op → Prop} {o : S.Op}
    {rest : S.Res o → Proc S α}
    (next : ∀ result, admits o result → (rest result).Reaches admits hit) :
    Reaches admits hit (.op o rest) := Or.inr next

theorem reaches_call {admits : (o : S.Op) → S.Res o → Prop} {hit : S.Op → Prop} {o : S.Op}
    {f : S.Res o → Proc S α} : (call o >>= f).Reaches admits hit ↔
      hit o ∨ ∀ result, admits o result → (f result).Reaches admits hit := Iff.rfl

/-- A sequence gets there after its first operation. -/
theorem Reaches.call {admits : (o : S.Op) → S.Res o → Prop} {hit : S.Op → Prop} {o : S.Op}
    {f : S.Res o → Proc S α} (next : ∀ result, admits o result → (f result).Reaches admits hit) :
    (Proc.call o >>= f).Reaches admits hit := Or.inr next

/-- A process gets there when what follows its first part does, for every result of that part. -/
theorem Reaches.bind_right {admits : (o : S.Op) → S.Res o → Prop} {hit : S.Op → Prop}
    (p : Proc S α) {f : α → Proc S β} (reach : ∀ value, (f value).Reaches admits hit) :
    (p >>= f).Reaches admits hit := by
  induction p with
  | ret value => exact reach value
  | op o next ih => exact .inr fun result _ => ih result

/-- Two processes that make the same operations, whatever results these have, and return
values that `R` relates. -/
inductive Lockstep (R : α → β → Prop) : Proc S α → Proc S β → Prop where
  | ret {value : α} {value' : β} (related : R value value') : Lockstep R (.ret value) (.ret value')
  | op {o : S.Op} {next : S.Res o → Proc S α} {next' : S.Res o → Proc S β}
      (rest : ∀ result, Lockstep R (next result) (next' result)) :
      Lockstep R (.op o next) (.op o next')

section Lockstep

variable {δ : Type} {R : α → β → Prop} {T : γ → δ → Prop}

/-- A process is in lockstep with itself. -/
theorem Lockstep.same {R : α → α → Prop} (each : ∀ value, R value value) (p : Proc S α) :
    Lockstep R p p := by
  induction p with
  | ret value => exact .ret (each value)
  | op o next ih => exact .op ih

theorem Lockstep.bind {p : Proc S α} {p' : Proc S β} {f : α → Proc S γ} {f' : β → Proc S δ}
    (first : Lockstep R p p')
    (rest : ∀ value value', R value value' → Lockstep T (f value) (f' value')) :
    Lockstep T (p >>= f) (p' >>= f') := by
  induction first with
  | ret related => exact rest _ _ related
  | op _ ih => exact .op ih

/-- The same first part, and what follows it in lockstep. -/
theorem Lockstep.after (p : Proc S α) {f : α → Proc S γ} {f' : α → Proc S δ}
    (rest : ∀ value, Lockstep T (f value) (f' value)) : Lockstep T (p >>= f) (p >>= f') :=
  (Lockstep.same (fun _ => rfl) p).bind fun value _ same => same ▸ rest value

end Lockstep

/-- The process with each operation replaced by a process over another signature
that finds its result. -/
def interpret {T : Sig} (handle : (o : S.Op) → Proc T (S.Res o)) : Proc S α → Proc T α
  | .ret value => .ret value
  | .op o next => handle o >>= fun result => (next result).interpret handle

end Proc

end BscMempool.Concurrent
