/-
Module: BscMempool.Proofs.TrailKnowledge
Layer: Proofs
Purpose: What the trail states of a token know of its holding. As long as a state is dropped only
  after the holding was sold, every state read, stored or fired with has a peak at least as high as
  every price observed before and keeps the flags that were ever set.
Trusted boundary: none
Main exports: Seen, seen, dropsSold, recalls, recalled, TrailState.GrowsTo, step_grows,
  trail_knowledge, failed_exit_forgets
-/
import BscMempool.Proofs.Scenario
import BscMempool.Proofs.VisitOrder

namespace BscMempool.Trader

open Concurrent (Tid Machine Config Proc Protocol Outcome)
open Concurrent.Proc
open LiveExecutor

variable {w : TrailWatcher}

/-! ### What was seen of a holding -/

/-- The prices observed of a holding, and whether one of its states was armed or ratcheted. -/
structure Seen where
  prices : List ℚ := []
  armed : Bool := false
  ratcheted : Bool := false

/-- The state is as high as every price seen and has every flag seen. -/
structure Seen.KnownTo (k : Seen) (st : TrailState) : Prop where
  peak : ∀ price ∈ k.prices, price ≤ st.peakPrice
  armed : k.armed = true → st.armed = true
  ratcheted : k.ratcheted = true → st.breakevenRatcheted = true

instance (k : Seen) (st : TrailState) : Decidable (k.KnownTo st) :=
  decidable_of_iff ((∀ price ∈ k.prices, price ≤ st.peakPrice) ∧
    (k.armed = true → st.armed = true) ∧
      (k.ratcheted = true → st.breakevenRatcheted = true))
    ⟨fun ⟨peak, armed, ratcheted⟩ => ⟨peak, armed, ratcheted⟩, fun ⟨peak, armed, ratcheted⟩ =>
      ⟨peak, armed, ratcheted⟩⟩

/-- A visit observes a price: the one its state carries as the last. -/
def Seen.observe (k : Seen) (st : TrailState) : Seen :=
  { prices := st.lastPrice :: k.prices
    armed := k.armed || st.armed
    ratcheted := k.ratcheted || st.breakevenRatcheted }

/-- The operation broadcasts a SELL that closes the position in `token`. -/
def Op.closes (token : Address) : (o : Op) → o.Ans → Bool
  | .submit tx _ (.sell memo), (sent : Submitted) =>
      memo.full && sent.ok && tx.input.sold.any fun sold => sold.1 == token
  | _, _ => false

/-- Every state stored and every state an exit fires with was stepped with an observation.  After
the holding was sold nothing has been seen of the next one. -/
def note (token : Address) (k : Option Seen) : (o : Op) → o.Ans → Option Seen
  | .env (.trailInsert t st), _ => if t = token then some ((k.getD {}).observe st) else k
  | .env (.trailExit t _ st _), _ => if t = token then some ((k.getD {}).observe st) else k
  | o, a => if o.closes token a then none else k

/-- What has been seen of the holding of `token` since it was last sold. -/
def seen (token : Address) : List w.machine.Event → Option Seen
  | [] => none
  | e :: older => note token (seen token older) e.op e.ans

/-- What was seen is known to the state, if there is one. -/
def Knows : Option Seen → Option TrailState → Prop
  | none, _ => True
  | some k, some st => k.KnownTo st
  | some _, none => False

instance : (k : Option Seen) → (st : Option TrailState) → Decidable (Knows k st)
  | none, _ => .isTrue trivial
  | some k, some st => inferInstanceAs (Decidable (k.KnownTo st))
  | some _, none => .isFalse id

/-- A state that is read, stored or fired with knows what was seen. -/
def recalls (token : Address) (k : Option Seen) : (o : Op) → o.Res → Bool
  | .env (.trailGet t), (found : Option TrailState) =>
      t != token || found.all fun st => decide (Knows k (some st))
  | .env (.trailInsert t st), _ => t != token || decide (Knows k (some st))
  | .env (.trailExit t _ st _), _ => t != token || decide (Knows k (some st))
  | _, _ => true

/-- At every step of the history the trail states know what was seen. -/
def recalled (token : Address) : List w.machine.Event → Bool
  | [] => true
  | e :: older => recalls token (seen token older) e.op e.res && recalled token older

/-- A trail state is dropped only when its holding was sold: since the token was last observed, a
SELL that closes its position has been broadcast. -/
def dropsSold : Op → List w.machine.Event → Bool
  | .env (.trailRemove token), h => (seen token h).isNone
  | _, _ => true

/-! ### What a step keeps of a state -/

theorem Seen.KnownTo.grows {k : Seen} {st st' : TrailState} (known : k.KnownTo st)
    (grows : st.GrowsTo st') :
    k.KnownTo st' where
  peak price member := (known.peak price member).trans grows.peak
  armed flag := grows.armed (known.armed flag)
  ratcheted flag := grows.ratcheted (known.ratcheted flag)

/-- What is known stays known with an observation that the state took in. -/
theorem Knows.observe {k : Option Seen} {st : TrailState} (knows : Knows k (some st))
    (within : st.lastPrice ≤ st.peakPrice) : Knows (some ((k.getD {}).observe st)) (some st) := by
  cases k with
  | none =>
      constructor
      · simpa [Seen.observe] using within
      · simp [Seen.observe]
      · simp [Seen.observe]
  | some k =>
      constructor
      · simpa [Seen.observe] using ⟨within, knows.peak⟩
      · intro flag
        exact (Bool.or_eq_true_iff.1 flag).elim knows.armed id
      · intro flag
        exact (Bool.or_eq_true_iff.1 flag).elim knows.ratcheted id

theorem Knows.grows {k : Option Seen} {st st' : TrailState} (knows : Knows k (some st))
    (grows : st.GrowsTo st') : Knows k (some st') := by
  cases k with
  | none => trivial
  | some k => exact Seen.KnownTo.grows knows grows

/-! ### The order of a visit's trail operations -/

/-- How far a visit has come: what it read, whether it fired an exit. -/
inductive Visit where
  | fresh
  | missing
  | tracking (st : TrailState)
  | leaving
  | finished

namespace Visit

/-- A visit reads its token's state, makes one where there is none, and either stores the stepped
state or fires an exit with it and drops it. -/
def allows (token : Address) (q : Visit) : Op → Prop
  | .env (.trailGet t) => t = token ∧ q = .fresh
  | .env (.trailInsert t st') => t = token ∧ st'.lastPrice ≤ st'.peakPrice ∧
      (q = .missing ∨ ∃ st, q = .tracking st ∧ st.GrowsTo st')
  | .env (.trailExit t _ st' _) => t = token ∧ ∃ st, q = .tracking st ∧ st.GrowsTo st'
  | .env (.trailRemove t) => t = token ∧ q = .leaving
  | _ => True

def next (q : Visit) : (o : Op) → o.Res → Visit
  | .env (.trailGet _), some st => .tracking st
  | .env (.trailGet _), none => .missing
  | .env (.trailInsert _ st), _ =>
      match q with
      | .missing => .tracking st
      | _ => .finished
  | .env (.trailExit ..), _ => .leaving
  | .env (.trailRemove _), _ => .finished
  | _, _ => q

end Visit

/-- The token whose trail state an operation is about. -/
def Op.trailed : Op → Option Address
  | .env (.trailGet token) | .env (.trailInsert token _) | .env (.trailRemove token)
  | .env (.trailExit token ..) => some token
  | _ => none

/-- The visits of a token use its trail state, and nobody else does. -/
def trails : Task → Protocol LiveSig Visit
  | .processOnePosition token .. => ⟨Visit.allows token, Visit.next⟩
  | _ => ⟨fun _ o => o.trailed = none, fun q _ _ => q⟩

section Untrailed

variable {o : Op} {q : Visit} {token : Address} {broadcast : Bool}

theorem Op.basic.untrailed (basic : o.basic) : o.trailed = none := by
  unfold Op.trailed
  split <;> first | rfl | exact (basic.elim id id).elim

theorem Op.exits.untrailed (exits : o.exits broadcast) : o.trailed = none := by
  unfold Op.trailed
  split <;> first | rfl | exact (Or.elim exits id id).elim

theorem Visit.allows_untrailed (untrailed : o.trailed = none) : q.allows token o := by
  unfold Op.trailed at untrailed
  unfold Visit.allows
  split <;> trivial

theorem Visit.next_untrailed (untrailed : o.trailed = none) (r : o.Res) : q.next o r = q := by
  unfold Op.trailed at untrailed
  unfold Visit.next
  split <;> first | rfl | cases untrailed

end Untrailed

section Obeys

variable {token : Address} {entry : EntryId} {blockN : Nat} {q : Visit}

/-- A part of a visit that uses no trail state stays where the visit is. -/
theorem obeys_untrailed {α : Type} {p : Live α} {R : α → Prop}
    (all : p.All fun o : Op => o.trailed = none)
    (ends : p.Ends R) : p.Obeys (trails (.processOnePosition token entry blockN))
      (fun q' value => q' = q ∧ R value) q :=
  Obeys.of_all (fun _ untrailed => Visit.allows_untrailed untrailed)
    (fun _ untrailed result => Visit.next_untrailed untrailed result) all ends

theorem untrailed_of_mild {α : Type} {p : Live α} (mild : p.All Op.mild) :
    p.All fun o : Op => o.trailed = none :=
  mild.mono fun _ mild => Op.basic.untrailed (.inl mild)

/-- An exit is fired with the state grown from the one that was read. -/
theorem fireExit_obeys {st st' : TrailState} (grows : st.GrowsTo st') (reason : String) (n : Nat) :
    (w.fireExit token reason st' n).Obeys (trails (.processOnePosition token entry blockN))
      (fun q _ => q = .finished) (.tracking st) := by
  apply Obeys.call
  · exact ⟨rfl, st, rfl, grows⟩
  · intro _
    have exits := executeExit_exits (x := w.exec) token ("TRAIL_" ++ reason) n 0
    apply (obeys_untrailed (exits.mono fun _ => Op.exits.untrailed) (.any _)).bind
    rintro q _ ⟨rfl, -⟩
    exact ⟨⟨rfl, rfl⟩, fun _ => rfl⟩

theorem observePosition_obeys (st : TrailState) (n : Nat) :
    (w.observePosition token st n).Obeys (trails (.processOnePosition token entry blockN))
      (fun q _ => q ≠ .leaving) (.tracking st) := by
  have fires : ∀ (st' : TrailState) reason, st.GrowsTo st' →
      (w.fireExit token reason st' n).Obeys (trails (.processOnePosition token entry blockN))
        (fun q _ => q ≠ .leaving) (.tracking st) := by
    intro st' reason grows
    apply (fireExit_obeys grows reason n).mono
    rintro q _ rfl
    exact nofun
  apply (obeys_untrailed (untrailed_of_mild (getLatestPriceCached_mild _ _ _)) (.any _)).bind
  rintro q price ⟨rfl, -⟩
  cases price with
  | none =>
      dsimp only
      split
      · exact fires st "timeout" .rfl
      · exact nofun
  | some currentPrice =>
      apply (obeys_untrailed (untrailed_of_mild (votedOut_mild _ _ _)) (.any _)).bind
      rintro q voted ⟨rfl, -⟩
      split
      · exact fires _ _ ⟨le_rfl, id, id⟩
      · have grows := observe_grows st w.cfg currentPrice n
        have within := observe_last_le st w.cfg currentPrice n
        have stepped : (step st w.cfg currentPrice n).2 = st.observe w.cfg currentPrice n := rfl
        rw [← stepped] at grows within
        split
        · rename_i reason st' triggered
          rw [triggered] at grows
          exact fires st' reason.label grows
        · rename_i st' quiet
          rw [quiet] at grows within
          exact ⟨⟨rfl, within, .inr ⟨st, rfl, grows⟩⟩, fun _ => nofun⟩

/-- A state made from the ledger has its entry price as its peak. -/
theorem initStateFromLedger_within (n : Nat) :
    (TrailWatcher.initStateFromLedger token n).Ends fun found =>
      ∀ st, found = some st → st.lastPrice ≤ st.peakPrice := by
  apply (Ends.any _).bind
  intro ledger _
  split
  · exact nofun
  · apply (Ends.any _).bind
    intro receipt _
    cases receipt with
    | none => exact nofun
    | some receipt =>
        dsimp only
        split
        · exact nofun
        · rintro st ⟨⟩
          exact le_rfl

theorem initStateFromLedger_untrailed (n : Nat) :
    (TrailWatcher.initStateFromLedger token n).All fun o : Op => o.trailed = none := by
  apply Proc.All.bind
  · exact all_call.2 rfl
  · intro ledger
    split
    · trivial
    · apply Proc.All.bind
      · exact all_call.2 rfl
      · intro receipt
        cases receipt with
        | none => trivial
        | some receipt =>
            dsimp only
            split <;> trivial

theorem processOnePosition_obeys :
    (w.processOnePosition token entry blockN).Obeys
      (trails (.processOnePosition token entry blockN))
      (fun q _ => q ≠ .leaving) .fresh := by
  apply Obeys.call
  · trivial
  · intro p
    split
    · exact nofun
    · apply Obeys.call
      · exact ⟨rfl, rfl⟩
      · intro known
        cases known with
        | some st => exact observePosition_obeys st blockN
        | none =>
            apply (obeys_untrailed (initStateFromLedger_untrailed _)
              (initStateFromLedger_within _)).bind
            rintro q found ⟨rfl, within⟩
            cases found with
            | none => exact nofun
            | some st =>
                exact ⟨⟨rfl, within st rfl, .inl rfl⟩, fun _ => observePosition_obeys st blockN⟩

end Obeys

section Kinds

variable {o : Op} {broadcast : Bool}

theorem Op.enters.untrailed (enters : o.enters broadcast) : o.trailed = none := by
  unfold Op.trailed
  split <;> first | rfl | exact (Or.elim enters id id).elim

theorem Op.finalizes.untrailed (finalizes : o.finalizes broadcast) : o.trailed = none := by
  unfold Op.trailed
  split <;> first | rfl | exact (Or.elim finalizes id id).elim

theorem Op.watches.untrailed (watches : o.watches) : o.trailed = none := by
  unfold Op.trailed
  split <;> first | rfl | exact watches.elim

/-- Only visits use trail states. -/
theorem Task.may.untrailed {t : Task} (may : t.may broadcast o)
    (other : ∀ token entry n, t ≠ .processOnePosition token entry n) : o.trailed = none := by
  cases t with
  | consumer =>
      rcases may with rfl | enters | exits
      · rfl
      · exact Op.enters.untrailed enters
      · exact Op.exits.untrailed exits
  | execute => exact Op.enters.untrailed may
  | executeExit => exact Op.exits.untrailed may
  | finalizePosition => exact Op.finalizes.untrailed may
  | persistNonce | reserve | resync => exact Op.basic.untrailed may
  | trailWatcher => exact Op.watches.untrailed may
  | processOnePosition token entry n => exact absurd rfl (other token entry n)

end Kinds

/-- Every task goes by its protocol and no visit ends before it dropped the state it fired with. -/
theorem body_trails (t : Task) : (w.body t).Obeys (trails t) (fun q _ => q ≠ .leaving) .fresh := by
  by_cases visit : ∃ token entry n, t = .processOnePosition token entry n
  · obtain ⟨token, entry, n, rfl⟩ := visit
    exact processOnePosition_obeys.bind fun _ _ stays => stays
  · have other : ∀ token entry n, t ≠ .processOnePosition token entry n :=
      fun token entry n same => visit ⟨token, entry, n, same⟩
    have plain : trails t = ⟨fun _ o => o.trailed = none, fun q _ _ => q⟩ := by
      unfold trails
      split
      · exact absurd rfl (other _ _ _)
      · rfl
    rw [plain]
    apply Obeys.mono _
      (Obeys.of_all (fun o may => Task.may.untrailed may other) (fun _ _ _ => rfl) (body_may t)
        (.any _))
    rintro q _ ⟨rfl, -⟩
    exact nofun

/-! ### The trail states and what was seen -/

section Effects

variable {i fresh : Tid} {o : Op} {a : o.Ans} {s : World} {out : Outcome World Task o.Res}
  {token : Address}

/-- The trail state of a token is changed by its visits only. -/
theorem trailStates_still (other : o.trailed ≠ some token) (did : o.exec i fresh a s = some out) :
    out.shared.env.trailStates token = s.env.trailStates token := by
  by_cases env : ∃ e, o = .env e
  · obtain ⟨e, rfl⟩ := env
    obtain ⟨after, ran, rfl⟩ := Option.map_eq_some_iff.1 did
    apply (EnvOp.exec_frame ran).trailStates
    · rintro state rfl
      exact other rfl
    · rintro rfl
      exact other rfl
  · rw [exec_env did fun e same => env ⟨e, same⟩]

/-- Otherwise what was seen is unchanged, or it is forgotten with the sale of the holding. -/
theorem note_other {k : Option Seen} (other : o.trailed ≠ some token) :
    note token k o a = k ∨ note token k o a = none := by
  unfold note
  split
  · exact .inl (if_neg fun same => other (congrArg some same))
  · exact .inl (if_neg fun same => other (congrArg some same))
  · split
    · exact .inr rfl
    · exact .inl rfl

theorem recalls_other {k : Option Seen} (other : o.trailed ≠ some token) (r : o.Res) :
    recalls token k o r = true := by
  have differs : ∀ t, o.trailed = some t → (t != token) = true := by
    rintro t own
    rw [bne_iff_ne]
    rintro rfl
    exact other own
  unfold recalls
  split
  · rw [differs _ rfl, Bool.true_or]
  · rw [differs _ rfl, Bool.true_or]
  · rw [differs _ rfl, Bool.true_or]
  · rfl

end Effects

/-! ### The pool -/

/-- How far the visit at `j` of `token` has come. -/
def visitPhase (token : Address) (j : Tid) (h : List w.machine.Event) : Visit :=
  (trails (.processOnePosition token 0 0)).phase j .fresh h

/-- What was seen of a token is known to its trail state, or a visit is about to drop the state; and
a visit under way has the state it is at. -/
structure Recalling (token : Address) (c : Config LiveSig (LiveRecorded w) Task Done) : Prop where
  settled : Knows (seen token c.shared.2) (c.shared.1.env.trailStates token) ∨
    ∃ j, Visiting c j token ∧ visitPhase token j c.shared.2 = .leaving
  missing : ∀ j, Visiting c j token → visitPhase token j c.shared.2 = .missing →
    c.shared.1.env.trailStates token = none
  tracking : ∀ j st, Visiting c j token → visitPhase token j c.shared.2 = .tracking st →
    c.shared.1.env.trailStates token = some st
  past : recalled token c.shared.2 = true

/-- The visits are in order and go by their protocol, and the trail states know what was seen. -/
structure Tracked (blocks : List Nat) (c : Config LiveSig (LiveRecorded w) Task Done) : Prop where
  order : InOrder blocks c
  obeyed : Machine.Obeyed (M := w.machine) trails (fun _ q _ => q ≠ .leaving) (fun _ => .fresh) c
  recalling : ∀ token, Recalling token c

section Step

variable {token : Address} {c c' : Config LiveSig (LiveRecorded w) Task Done} {i : Tid} {o : Op}
  {a : w.machine.Ans o} {r : o.Res} {s' : World}

theorem visitPhase_own {h : List w.machine.Event} :
    visitPhase token i (⟨i, o, a, r⟩ :: h) = (visitPhase token i h).next o r :=
  Protocol.phase_own rfl

theorem visitPhase_other {j : Tid} {h : List w.machine.Event} (ne : i ≠ j) :
    visitPhase token j (⟨i, o, a, r⟩ :: h) = visitPhase token j h :=
  Protocol.phase_other ne

/-- An operation that is not about the token: its trail state stays and its visits
stay where they are. -/
theorem Recalling.other (recalling : Recalling token c) (other : o.trailed ≠ some token)
    (shared : c'.shared = (s', ⟨i, o, a, r⟩ :: c.shared.2))
    (still : s'.env.trailStates token = c.shared.1.env.trailStates token)
    (phases : ∀ j, Visiting c j token → visitPhase token j c'.shared.2 =
      visitPhase token j c.shared.2)
    (before : ∀ j, Visiting c' j token → Visiting c j token ∨
      visitPhase token j c'.shared.2 = .fresh)
    (stays : ∀ j, Visiting c j token → visitPhase token j c'.shared.2 = .leaving →
      Visiting c' j token) :
    Recalling token c' := by
  have states : c'.shared.1.env.trailStates token = c.shared.1.env.trailStates token := by
    rw [shared]
    exact still
  have noted : seen token c'.shared.2 = seen token c.shared.2 ∨ seen token c'.shared.2 = none := by
    rw [shared]
    exact note_other other
  constructor
  · rcases noted with same | sold
    · rcases recalling.settled with knows | ⟨j, visiting, leaves⟩
      · rw [same, states]
        exact .inl knows
      · rw [← phases j visiting] at leaves
        exact .inr ⟨j, stays j visiting leaves, leaves⟩
    · rw [sold]
      exact .inl trivial
  · intro j visiting phase
    rcases before j visiting with old | fresh
    · rw [states]
      rw [phases j old] at phase
      exact recalling.missing j old phase
    · rw [fresh] at phase
      cases phase
  · intro j st visiting phase
    rcases before j visiting with old | fresh
    · rw [states]
      rw [phases j old] at phase
      exact recalling.tracking j st old phase
    · rw [fresh] at phase
      cases phase
  · rw [shared]
    exact Bool.and_eq_true_iff.2 ⟨recalls_other other r, recalling.past⟩

/-- The only visit of the token makes an operation. -/
structure VisitStep (token : Address) (c c' : Config LiveSig (LiveRecorded w) Task Done) (i : Tid)
    (o : Op) (a : w.machine.Ans o) (r : o.Res) (s' : World) : Prop where
  shared : c'.shared = (s', ⟨i, o, a, r⟩ :: c.shared.2)
  only : ∀ j, Visiting c' j token → j = i
  stays : visitPhase token i c'.shared.2 = .leaving → Visiting c' i token

/-- The phase it comes to has the trail state it must have. -/
theorem Recalling.moved (recalling : Recalling token c) (moves : VisitStep token c c' i o a r s')
    {q : Visit} (phase : (visitPhase token i c.shared.2).next o r = q)
    (settled : Knows (note token (seen token c.shared.2) o a) (s'.env.trailStates token) ∨
      q = .leaving)
    (missing : q = .missing → s'.env.trailStates token = none)
    (tracking : ∀ st, q = .tracking st → s'.env.trailStates token = some st)
    (now : recalls token (seen token c.shared.2) o r = true) : Recalling token c' := by
  have here : visitPhase token i c'.shared.2 = q := by
    rw [moves.shared]
    exact visitPhase_own.trans phase
  have states : c'.shared.1.env.trailStates token = s'.env.trailStates token := by rw [moves.shared]
  have noted : seen token c'.shared.2 = note token (seen token c.shared.2) o a := by
    rw [moves.shared]
    rfl
  constructor
  · rw [noted, states]
    rcases settled with knows | rfl
    · exact .inl knows
    · exact .inr ⟨i, moves.stays here, here⟩
  · intro j there at_
    obtain rfl := moves.only j there
    rw [states]
    exact missing (here.symm.trans at_)
  · intro j st there at_
    obtain rfl := moves.only j there
    rw [states]
    exact tracking st (here.symm.trans at_)
  · rw [moves.shared]
    exact Bool.and_eq_true_iff.2 ⟨now, recalling.past⟩

/-- While the only visit of the token is not about to drop its state, the state
knows what was seen. -/
theorem Recalling.knows_now (recalling : Recalling token c)
    (alone : ∀ j, Visiting c j token → j = i) (stays : visitPhase token i c.shared.2 ≠ .leaving) :
    Knows (seen token c.shared.2) (c.shared.1.env.trailStates token) := by
  rcases recalling.settled with knows | ⟨j, there, leaves⟩
  · exact knows
  · obtain rfl := alone j there
    exact absurd leaves stays

/-- What was seen is known to a state that a visit may store or fire with. -/
theorem Recalling.knows_next (recalling : Recalling token c) (visiting : Visiting c i token)
    (alone : ∀ j, Visiting c j token → j = i) {st' : TrailState}
    (from_ : visitPhase token i c.shared.2 = .missing ∨
      ∃ st, visitPhase token i c.shared.2 = .tracking st ∧ st.GrowsTo st') :
    Knows (seen token c.shared.2) (some st') := by
  rcases from_ with missing | ⟨st, tracks, grows⟩
  · have knows := recalling.knows_now alone (by rw [missing]; nofun)
    rw [recalling.missing i visiting missing] at knows
    cases k : seen token c.shared.2 with
    | none => trivial
    | some k' =>
        rw [k] at knows
        exact knows.elim
  · have knows := recalling.knows_now alone (by rw [tracks]; nofun)
    rw [recalling.tracking i st visiting tracks] at knows
    exact knows.grows grows

/-! #### The visit's operations on its trail state -/

section Own

variable (recalling : Recalling token c) (visiting : Visiting c i token)
  (alone : ∀ j, Visiting c j token → j = i) {fresh : Tid} {spawned : List Task}
include recalling alone

/-- It comes to be where the state it looked up is. -/
theorem Recalling.get {a : w.machine.Ans (.env (.trailGet token))}
    {r : Op.Res (.env (.trailGet token))} (begun : visitPhase token i c.shared.2 = .fresh)
    (did : (Op.env (.trailGet token)).exec i fresh a c.shared.1 = some ⟨r, s', spawned⟩)
    (moves : VisitStep token c c' i (.env (.trailGet token)) a r s') : Recalling token c' := by
  cases did
  have known := recalling.knows_now alone (by rw [begun]; nofun)
  apply recalling.moved moves rfl
  · exact .inl known
  · rw [begun]
    cases found : c.shared.1.env.trailStates token with
    | none => exact fun _ => rfl
    | some st => exact nofun
  · rw [begun]
    cases found : c.shared.1.env.trailStates token with
    | none => exact nofun
    | some st =>
        rintro _ ⟨⟩
        rfl
  · cases found : c.shared.1.env.trailStates token with
    | none => simp [recalls]
    | some st =>
        rw [found] at known
        simp [recalls, known]

include visiting

/-- It stores a state that has grown from the one it was at, or the first one. -/
theorem Recalling.insert {st' : TrailState} {a : w.machine.Ans (.env (.trailInsert token st'))}
    {r : Op.Res (.env (.trailInsert token st'))} (within : st'.lastPrice ≤ st'.peakPrice)
    (from_ : visitPhase token i c.shared.2 = .missing ∨
      ∃ st, visitPhase token i c.shared.2 = .tracking st ∧ st.GrowsTo st')
    (did : (Op.env (.trailInsert token st')).exec i fresh a c.shared.1 = some ⟨r, s', spawned⟩)
    (moves : VisitStep token c c' i (.env (.trailInsert token st')) a r s') :
    Recalling token c' := by
  cases did
  have known := recalling.knows_next visiting alone from_
  have stored : Function.update c.shared.1.env.trailStates token (some st') token = some st' :=
    Function.update_self ..
  have settled : Knows (note token (seen token c.shared.2) (.env (.trailInsert token st')) a)
      (Function.update c.shared.1.env.trailStates token (some st') token) := by
    rw [stored]
    simpa [note] using known.observe within
  apply recalling.moved moves rfl
  · exact .inl settled
  · rcases from_ with missing | ⟨st, tracks, -⟩
    · rw [missing]
      exact nofun
    · rw [tracks]
      exact nofun
  · rcases from_ with missing | ⟨st, tracks, -⟩
    · rw [missing]
      rintro _ ⟨⟩
      exact stored
    · rw [tracks]
      exact nofun
  · simp [recalls, known]

/-- It fires with a state that has grown from the one it was at. -/
theorem Recalling.fire {reason : String} {st st' : TrailState} {n : Nat}
    {a : w.machine.Ans (.env (.trailExit token reason st' n))}
    {r : Op.Res (.env (.trailExit token reason st' n))}
    (tracks : visitPhase token i c.shared.2 = .tracking st) (grows : st.GrowsTo st')
    (did : (Op.env (.trailExit token reason st' n)).exec i fresh a c.shared.1 =
      some ⟨r, s', spawned⟩)
    (moves : VisitStep token c c' i (.env (.trailExit token reason st' n)) a r s') :
    Recalling token c' := by
  cases did
  apply recalling.moved moves (q := .leaving) rfl
  · exact .inr rfl
  · exact nofun
  · exact nofun
  · have known := recalling.knows_next visiting alone (.inr ⟨st, tracks, grows⟩)
    simp [recalls, known]

end Own

/-- The visit drops the state of a holding that was sold. -/
theorem Recalling.remove {a : w.machine.Ans (.env (.trailRemove token))}
    {r : Op.Res (.env (.trailRemove token))}
    (recalling : Recalling token c) (sold : seen token c.shared.2 = none) {fresh : Tid}
    {spawned : List Task}
    (did : (Op.env (.trailRemove token)).exec i fresh a c.shared.1 = some ⟨r, s', spawned⟩)
    (moves : VisitStep token c c' i (.env (.trailRemove token)) a r s') : Recalling token c' := by
  cases did
  have same : note token (seen token c.shared.2) (.env (.trailRemove token)) a =
      seen token c.shared.2 := rfl
  apply recalling.moved moves (q := .finished) rfl
  · left
    rw [same, sold]
    trivial
  · exact nofun
  · exact nofun
  · rfl

/-- An operation of the token's visit on its trail state. -/
theorem Recalling.own (recalling : Recalling token c) (own : o.trailed = some token)
    (visiting : Visiting c i token) (alone : ∀ j, Visiting c j token → j = i)
    (allowed : (visitPhase token i c.shared.2).allows token o)
    (meets : dropsSold o c.shared.2 = true) {fresh : Tid} {spawned : List Task}
    (did : o.exec i fresh a c.shared.1 = some ⟨r, s', spawned⟩)
    (moves : VisitStep token c c' i o a r s') : Recalling token c' := by
  cases o with
  | env e =>
      cases e with
      | trailGet t =>
          cases own
          exact recalling.get alone allowed.2 did moves
      | trailInsert t st' =>
          cases own
          obtain ⟨-, within, from_⟩ := allowed
          exact recalling.insert visiting alone within from_ did moves
      | trailExit t reason st' n =>
          cases own
          obtain ⟨-, st, tracks, grows⟩ := allowed
          exact recalling.fire visiting alone tracks grows did moves
      | trailRemove t =>
          cases own
          exact recalling.remove (Option.isNone_iff_eq_none.1 meets) did moves
      | _ => cases own
  | _ => cases own

end Step

/-- A visit's operations on trail states are on its token's. -/
theorem Visit.trailed_of_allows {token : Address} {q : Visit} {o : Op}
    (allowed : q.allows token o) :
    o.trailed = none ∨ o.trailed = some token := by
  cases o with
  | env e =>
      cases e with
      | trailGet | trailInsert | trailExit | trailRemove => exact .inr (congrArg some allowed.1)
      | _ => exact .inl rfl
  | _ => exact .inl rfl

/-- The task that uses a token's trail state visits the token. -/
theorem trails_allows {t : Task} {q : Visit} {o : Op} {token : Address}
    (allowed : (trails t).allows q o)
    (own : o.trailed = some token) : ∃ entry n, t = .processOnePosition token entry n := by
  cases t with
  | processOnePosition other entry n =>
      rcases Visit.trailed_of_allows allowed with none_ | same
      · rw [none_] at own
        cases own
      · rw [same] at own
        cases own
        exact ⟨entry, n, rfl⟩
  | _ =>
      have none_ : o.trailed = none := allowed
      rw [none_] at own
      cases own

/-- A visit that fired an exit is not over. -/
theorem visiting_of_leaving {c : Config LiveSig (LiveRecorded w) Task Done} {j : Tid}
    {token : Address} {entry : EntryId} {n : Nat} {p : Live Done}
    (obeyed : Machine.Obeyed (M := w.machine) trails (fun _ q _ => q ≠ .leaving)
      (fun _ => .fresh) c)
    (found : c.pool[j]? = some (.processOnePosition token entry n, p))
    (leaves : visitPhase token j c.shared.2 = .leaving) : Visiting c j token := by
  cases p with
  | ret value => exact absurd leaves (obeyed.obeys j _ _ found)
  | op o next => exact ⟨entry, n, o, next, found⟩

theorem Tracked.start (blocks : List Nat) {others : List Task}
    (beside : others.all Task.beside = true) (s : World) :
    Tracked blocks (w.machine.recording.start (s, []) (.trailWatcher blocks :: others)) := by
  constructor
  · exact .start blocks beside s
  · exact .start body_trails s _
  · intro token
    have fresh : ∀ j, visitPhase (w := w) token j [] = .fresh := fun _ => rfl
    constructor
    · exact .inl trivial
    · intro j _ phase
      cases (fresh j).symm.trans phase
    · intro j st _ phase
      cases (fresh j).symm.trans phase
    · rfl

theorem Tracked.step {blocks : List Nat} {i : Tid}
    {c c' : Config LiveSig (LiveRecorded w) Task Done} (tracked : Tracked blocks c)
    (step : w.machine.recording.Step (fun _ o _ s => dropsSold o s.2 = true) i c c') :
    Tracked blocks c' := by
  have order := tracked.order.step step
  have obeyed := tracked.obeyed.step body_trails step
  obtain ⟨t, o, next, a, out, running, ready, meets, did, shared, pool⟩ := step.inversion
  have allowed := tracked.obeyed.allows running
  have cases_ : ∀ j token, Visiting c' j token → Visiting c j token ∨ c.pool.length ≤ j ∧
      ∃ entry n, out.spawned[j - c.pool.length]? = some (.processOnePosition token entry n) :=
    fun j token visiting => visiting_cases running pool visiting
  have keeps : ∀ j token, Visiting c j token → visitPhase token j c'.shared.2 = .leaving →
      Visiting c' j token := by
    rintro j token ⟨entry, n, op, rest, found⟩ leaves
    obtain ⟨p, found'⟩ : ∃ p, c'.pool[j]? = some (.processOnePosition token entry n, p) := by
      rw [pool]
      exact Machine.pool_keeps running found
    exact visiting_of_leaving obeyed found' leaves
  constructor
  · exact order
  · exact obeyed
  · intro token
    by_cases own : o.trailed = some token
    · obtain ⟨entry, n, rfl⟩ := trails_allows allowed own
      have visiting : Visiting c i token := ⟨entry, n, o, next, running⟩
      have alone : ∀ j, Visiting c j token → j = i :=
        fun j there => tracked.order.visits.unique j i token there visiting
      apply (tracked.recalling token).own own visiting alone allowed meets did
      constructor
      · exact shared
      · intro j there
        rcases cases_ j token there with old | ⟨-, entry, n, started⟩
        · exact alone j old
        · cases started_visitless (tracked.order.obeyed.allows running) did started
      · exact keeps i token visiting
    · have phases : ∀ j, Visiting c j token →
          visitPhase token j c'.shared.2 = visitPhase token j c.shared.2 := by
        rintro j ⟨entry, n, op, rest, found⟩
        rw [shared]
        by_cases same : i = j
        · subst same
          rw [running] at found
          cases found
          rcases Visit.trailed_of_allows allowed with untrailed | own'
          · exact visitPhase_own.trans (Visit.next_untrailed untrailed _)
          · exact absurd own' own
        · exact visitPhase_other same
      apply (tracked.recalling token).other own shared (trailStates_still own did) phases
      · intro j there
        rcases cases_ j token there with old | ⟨new, -⟩
        · exact .inl old
        · right
          rw [shared]
          exact tracked.obeyed.phase_new (List.getElem?_eq_some_iff.1 running).1 new
      · exact fun j there => keeps j token there

/-- In every run of the trail watcher beside other tasks, in which a trail state is dropped only
when its holding was sold, every state that is read, stored or fired with has a peak at least as
high as every price observed of the holding before, and the flags that were ever set. -/
theorem trail_knowledge {blocks : List Nat} {others : List Task}
    (beside : others.all Task.beside = true)
    {start : World} {c : Config LiveSig (LiveRecorded w) Task Done}
    (run : w.machine.recording.Run (fun _ o _ s => dropsSold o s.2 = true)
      (w.machine.recording.start (start, []) (.trailWatcher blocks :: others)) c)
        (token : Address) :
    recalled token c.shared.2 = true :=
  ((run.invariant (I := Tracked blocks) (fun _ _ _ tracked step => tracked.step step)
    (.start blocks beside start)).recalling token).past

/-! ### Runs of a watcher over three heads -/

/-- The answers of an environment whose price feed has seen a trade. -/
def Replies.priced (r : Replies) (price : ℚ) (block : Nat) : (o : Op) → o.Ans
  | .ask (.cachedPrice _) => some ⟨block, price⟩
  | o => r.ans o

/-- A watcher that sees three heads beside a BUY. -/
def threeHeads : List Task := [.trailWatcher [10, 11, 12], buyTask]

/-- The token is bought at a price of 1, its price doubles before the first head and
falls by a quarter before the second. The visits at the second and at the third head make
so many operations. -/
def afterTheFall (second third : Nat) (sent : Submitted) : List (Tid × Nat × ((o : Op) → o.Ans)) :=
  let r : Replies :=
    { balance := some 1000, allowance := some 1000, buyReceipt := some ⟨[1000], some 7⟩ }
  [(1, 18, r.ans), (2, 13, r.ans), (0, 2, r.ans), (3, 7, r.priced 2 10), (0, 3, r.ans),
    (4, second, { r with sent := sent }.priced (3 / 2) 11), (0, 3, r.ans),
    (5, third, r.priced (3 / 2) 12)]

instance (o : Op) (s : LiveRecorded w) : Decidable (dropsSold o s.2 = true) :=
  decEq (dropsSold o s.2) true

/-- The exit that fires at the second head sells the holding, and its state is dropped. -/
theorem trail_knowledge_sold :
    ∃ c, (scenario false).machine.recording.Run (fun _ o _ s => dropsSold o s.2 = true)
        ((scenario false).machine.recording.start (World.boot 7 none, []) threeHeads) c ∧
      soldTotal c.shared.1.trade.wire scenarioToken = 1000 ∧
      (c.shared.1.env.trailStates scenarioToken).isNone = true ∧
      recalled scenarioToken c.shared.2 = true := by
  obtain ⟨c, run, sold, dropped⟩ : ∃ c,
      (scenario false).machine.recording.Run (fun _ o _ s => dropsSold o s.2 = true)
        ((scenario false).machine.recording.start (World.boot 7 none, []) threeHeads) c ∧
      soldTotal c.shared.1.trade.wire scenarioToken = 1000 ∧
      (c.shared.1.env.trailStates scenarioToken).isNone = true :=
    Machine.exists_run_of_follow (afterTheFall 22 1 ⟨true, true⟩) (by decide +kernel)
  exact ⟨c, run, sold, dropped, trail_knowledge (by decide) run scenarioToken⟩

/-- The exit that fires at the second head is not broadcast; at the third head the position starts
over with its entry price as the peak and is no longer armed. -/
theorem failed_exit_forgets :
    ∃ c, (scenario false).machine.recording.Run (fun _ _ _ _ => True)
        ((scenario false).machine.recording.start (World.boot 7 none, []) threeHeads) c ∧
      c.shared.1.trade.book.cached scenarioToken ≠ none ∧
      soldTotal c.shared.1.trade.wire scenarioToken = 0 ∧
      (c.shared.1.env.trailStates scenarioToken).map (fun st => (st.peakPrice, st.armed)) =
        some (1, false) ∧
      recalled scenarioToken c.shared.2 = false := by
  exact Machine.exists_run_of_follow (C := (scenario false).machine.recording.anyStep)
    (afterTheFall 20 5 ⟨false, false⟩) (by decide +kernel)

end BscMempool.Trader
