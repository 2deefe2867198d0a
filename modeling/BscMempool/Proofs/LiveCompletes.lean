/-
Module: BscMempool.Proofs.LiveCompletes
Layer: Proofs
Purpose: The live trader hangs on nothing but a request without an answer. However its tasks
  interleave and whatever is answered, a run comes to an end, and where it can go no further and
  every request is answered, every task has returned, every exit lock is free and every finalize
  permit is back.
Trusted boundary: none
Main exports: Resource, Op.act, Task.rank, Attended, HeldAccount, Op.requests, Answered,
  every_task_returns
-/
import BscMempool.Concurrent.Holding
import BscMempool.Concurrent.Termination
import BscMempool.Proofs.Scenario
import BscMempool.Proofs.TaskOrder
import BscMempool.Proofs.VisitOrder

namespace BscMempool.Trader

open Concurrent (Act Config Machine Outcome Proc Protocol Tid)
open Concurrent.Machine (AboutTo Held Lawful holders holds)
open Concurrent.Proc
open LiveExecutor

/-! ### What the tasks take and give back -/

/-- What a task can hold. -/
inductive Resource where
  | exitLock (token : Address)
  | permit
deriving DecidableEq

def Op.act : Op → Act Resource
  | .trade (.lockExit token) => .take (.exitLock token)
  | .trade (.unlockExit token) => .give (.exitLock token)
  | .env .acquirePermit => .take .permit
  | .env .releasePermit => .give .permit
  | .join _ => .wait
  | _ => .pass

/-- The order in which a task takes, waits and gives back. -/
abbrev holding : Protocol LiveSig (Option Resource) := Protocol.holding Op.act

/-- The operation neither takes nor gives back nor waits. -/
abbrev Op.passes (o : Op) : Prop := o.act = .pass

section Kinds

variable {broadcast : Bool} {o : Op}

theorem Op.basic.passes (basic : o.basic) : o.passes := by
  cases o with
  | trade o => exact basic.elim False.elim False.elim
  | env o => cases o <;> first | rfl | exact basic.elim False.elim False.elim
  | join => exact basic.elim False.elim False.elim
  | _ => rfl

theorem Op.enters.passes (enters : o.enters broadcast) : o.passes := by
  unfold Op.enters at enters
  split at enters <;> first | rfl | exact Op.basic.passes enters

theorem Op.readies.passes (readies : o.readies broadcast) : o.passes := by
  unfold Op.readies at readies
  split at readies <;> first | rfl | exact Op.basic.passes readies

theorem basic_passes {α : Type} {p : Live α} (all : p.All Op.basic) : p.All Op.passes :=
  all.mono fun _ => Op.basic.passes

/-- One such operation, and others after it. -/
theorem pass_call {α : Type} {o : Op} {f : o.Res → Live α} (passes : o.passes)
    (rest : ∀ result, (f result).All Op.passes) :
    (Proc.call (S := LiveSig) o >>= f).All Op.passes := Proc.All.bind (all_call.2 passes) rest

theorem mild_passes {α : Type} {p : Live α} (all : p.All Op.mild) : p.All Op.passes :=
  basic_passes (basic_of_mild all)

/-- A task that roams has empty hands. -/
theorem holding_roams : Roams holding fun q => q = none where
  allowed := by
    rintro q o rfl roams
    unfold Op.roams at roams
    split at roams <;> first | trivial | rfl | skip
    have passes := Op.basic.passes (Op.light.basic roams)
    exact Concurrent.holding_kinds.allowed none o passes
  kept := by
    rintro q o rfl roams result
    unfold Op.roams at roams
    split at roams <;> first | rfl | skip
    exact Concurrent.holding_next_pass (Op.basic.passes (Op.light.basic roams))

end Kinds

/-! #### Inside a lock and inside a permit -/

section Inside

variable {x : LiveExecutor}

theorem broadcastExit_passes (kolName : String) (token : Address) (holding : Holding)
    (balance : U256) (isFullClose : Bool) (route : BuyRoute) (allowance : Option (Address × U256)) :
    (x.broadcastExit kolName token holding balance isFullClose route allowance).All Op.passes := by
  have records : ∀ gasGwei nonce txHash walletBnb broadcast,
      (x.recordExit kolName token gasGwei nonce txHash walletBnb broadcast).All Op.passes :=
    fun _ _ _ _ _ => pass_call rfl fun _ => all_call.2 rfl
  unfold broadcastExit
  apply (mild_passes (sellCall_mild _ _ _ _)).bind
  intro call
  apply (basic_passes reserveNonce_basic).bind
  intro nonce
  apply (mild_passes (gasWeiAtLeast_mild _)).bind
  intro gas
  apply pass_call rfl
  intro signed
  cases signed with
  | none => exact (basic_passes resync_basic).bind fun _ => trivial
  | some txHash =>
      apply (mild_passes (ask_mild _ (by rfl))).bind
      intro walletBnb
      split
      · apply pass_call rfl
        intro sent
        split
        · apply pass_call rfl
          intro _
          exact (records _ _ _ _ _).bind fun _ => trivial
        · exact (basic_passes resync_basic).bind fun _ => trivial
      · apply pass_call rfl
        intro _
        exact (records _ _ _ _ _).bind fun _ => trivial

theorem exitLocked_passes (token : Address) (kolName : String) (kolBlock : Nat)
    (kolAddr : Address) :
    (x.exitLocked token kolName kolBlock kolAddr).All Op.passes := by
  apply (kolSellFraction_asks (fun _ => rfl) kolAddr token kolBlock).bind
  intro fraction
  apply ((@exitHolding_readies true token).mono fun _ => Op.readies.passes).bind
  intro held
  cases held with
  | error outcome => trivial
  | ok holding =>
      dsimp only
      by_cases rounds : decide (fraction.getD 1 ≥ x.fractions.fullAt) = false ∧
          (if decide (fraction.getD 1 ≥ x.fractions.fullAt) then holding.ourBalance
            else x.fractions.scale holding.ourBalance (fraction.getD 1)) = 0
      · rw [if_pos rounds]
        trivial
      · rw [if_neg rounds]
        apply ((exitApproval_readies _ _ _).mono fun _ => Op.readies.passes).bind
        intro allowance
        cases allowance with
        | none => trivial
        | some allowance =>
            apply (mild_passes (pickRoute_mild _ _ _)).bind
            exact fun route => broadcastExit_passes _ _ _ _ _ _ _

theorem submitApproveBg_passes (token : Address) : (x.submitApproveBg token).All Op.passes := by
  unfold submitApproveBg
  split
  · apply (basic_passes reserveNonce_basic).bind
    intro nonce
    apply (mild_passes (ask_mild _ (by rfl))).bind
    intro gas
    apply pass_call rfl
    intro signed
    cases signed with
    | none => trivial
    | some txHash =>
        apply pass_call rfl
        intro sent
        split <;> trivial
  · trivial

theorem finalizeApprove_passes (token : Address) (route : BuyRoute) (entry : EntryId) (bal : U256) :
    (x.finalizeApprove token route entry bal).All Op.passes := by
  unfold finalizeApprove
  split
  · apply (submitApproveBg_passes token).bind
    intro approved
    split
    · apply (mild_passes (ask_mild _ (by rfl))).bind
      intro budget
      apply (mild_passes (pollReceipt_mild _ _)).bind
      intro seen
      split
      · exact pass_call rfl fun _ => trivial
      · trivial
    · trivial
  · trivial

theorem finalizeBody_passes (token : Address) (buyTxHash : B256) (route : BuyRoute)
    (entry : EntryId) :
    (x.finalizeBody token buyTxHash route entry).All Op.passes := by
  apply (mild_passes (ask_mild _ (by rfl))).bind
  intro budget
  apply (mild_passes (pollReceipt_mild _ _)).bind
  intro seen
  split
  · apply (mild_passes (ask_mild _ (by rfl))).bind
    intro bal
    dsimp only
    split
    · exact (finalizeApprove_passes _ _ _ _).bind fun _ => trivial
    · apply pass_call rfl
      intro _
      exact (finalizeApprove_passes _ _ _ _).bind fun _ => trivial
  · trivial

/-- An exit holds the lock of its token, and nothing else, while it is under way. -/
theorem executeExit_holding (token : Address) (kolName : String) (kolBlock : Nat)
    (kolAddr : Address) :
    (x.executeExit token kolName kolBlock kolAddr).Obeys holding (fun q _ => q = none) none := by
  unfold executeExit
  split
  · rfl
  · have takes : Op.act (.trade (.lockExit token)) = .take (.exitLock token) := rfl
    have gives : Op.act (.trade (.unlockExit token)) = .give (.exitLock token) := rfl
    exact Concurrent.obeys_bracket takes gives (exitLocked_passes token kolName kolBlock kolAddr)

theorem finalizePosition_holding (token : Address) (buyTxHash : B256) (route : BuyRoute)
    (entry : EntryId) :
    (x.finalizePosition token buyTxHash route entry).Obeys holding (fun q _ => q = none) none := by
  have takes : Op.act (.env .acquirePermit) = .take .permit := rfl
  have gives : Op.act (.env .releasePermit) = .give .permit := rfl
  exact Concurrent.obeys_bracket takes gives (finalizeBody_passes token buyTxHash route entry)

end Inside

variable {w : TrailWatcher}

/-- A task starts and returns with empty hands. -/
theorem body_holding (t : Task) : (w.machine.body t).Obeys holding (fun q _ => q = none) none := by
  apply holding_roams.body_obeys _ _ _ _ t rfl
  · rintro token kolName kolBlock kolAddr q rfl
    exact executeExit_holding token kolName kolBlock kolAddr
  · rintro decision visibility openPositions q rfl
    exact Concurrent.obeys_pass ((execute_enters decision visibility openPositions).mono fun _ =>
      Op.enters.passes)
  · rintro token buyTxHash route entry q rfl
    exact finalizePosition_holding token buyTxHash route entry
  · exact fun t q empty _ => empty

/-! ### Tasks start smaller tasks -/

/-- How much a task may still start. -/
def Task.rank : Task → ℕ
  | .trailWatcher _ => 3
  | .consumer .. | .execute .. | .executeExit .. | .processOnePosition .. => 2
  | .finalizePosition .. | .reserve => 1
  | .persistNonce _ | .resync => 0

/-- The operation starts the task. -/
def Op.starts : Op → Task → Prop
  | .spawn u, v => v = u
  | .trade (.openPosition ..), .finalizePosition .. => True
  | _, _ => False

/-- Whatever the operation starts is of a lower rank. -/
abbrev Op.below (rank : ℕ) (o : Op) : Prop := ∀ u, o.starts u → u.rank < rank

section Ranks

variable {broadcast : Bool} {o : Op} {rank : ℕ}

theorem Op.basic.below (basic : o.basic) (small : 0 < rank) : o.below rank := by
  intro u starts
  rcases basic with mild | signs
  · cases o with
    | ask | env => exact starts.elim
    | _ => exact mild.elim
  · cases o with
    | spawn v =>
        cases starts
        cases u with
        | persistNonce n => exact small
        | _ => exact signs.elim
    | nonce | sign => exact starts.elim
    | _ => exact signs.elim

theorem Op.enters.below (enters : o.enters broadcast) (large : 1 < rank) : o.below rank := by
  unfold Op.enters at enters
  split at enters
  case h_3 =>
    intro u starts
    cases u with
    | finalizePosition => exact large
    | _ => exact starts.elim
  case h_10 => exact Op.basic.below enters (Nat.zero_lt_of_lt large)
  all_goals exact fun u starts => starts.elim

theorem Op.exits.below (exits : o.exits broadcast) (small : 0 < rank) : o.below rank := by
  unfold Op.exits at exits
  split at exits <;> first | exact Op.basic.below exits small | exact fun u starts => starts.elim

theorem Op.finalizes.below (finalizes : o.finalizes broadcast) (small : 0 < rank) :
    o.below rank := by
  unfold Op.finalizes at finalizes
  split at finalizes <;> first | exact Op.basic.below finalizes small | exact fun u starts =>
    starts.elim

theorem Op.visits.below (visits : o.visits broadcast) (small : 0 < rank) : o.below rank := by
  unfold Op.visits at visits
  split at visits <;> first | exact Op.exits.below visits small | exact fun u starts => starts.elim

theorem Op.watches.below (watches : o.watches) (large : 2 < rank) : o.below rank := by
  unfold Op.watches at watches
  split at watches
  case h_3 =>
    rintro _ rfl
    exact large
  case h_4 => exact watches.elim
  all_goals exact fun u starts => starts.elim

end Ranks

/-- A task starts tasks of lower ranks only. -/
theorem body_below (t : Task) : (w.body t).All (Op.below t.rank) := by
  have kinds := body_may (w := w) t
  cases t with
  | consumer trailActive decisions =>
      apply kinds.mono
      rintro o (rfl | enters | exits)
      · exact fun u starts => starts.elim
      · exact Op.enters.below enters Nat.one_lt_two
      · exact Op.exits.below exits Nat.two_pos
  | execute => exact kinds.mono fun _ enters => Op.enters.below enters Nat.one_lt_two
  | executeExit => exact kinds.mono fun _ exits => Op.exits.below exits Nat.two_pos
  | processOnePosition => exact kinds.mono fun _ visits => Op.visits.below visits Nat.two_pos
  | finalizePosition => exact kinds.mono fun _ finalizes => Op.finalizes.below finalizes Nat.one_pos
  | reserve => exact kinds.mono fun _ basic => Op.basic.below basic Nat.one_pos
  | trailWatcher => exact kinds.mono fun _ watches => Op.watches.below watches (Nat.lt_succ_self 2)
  | persistNonce n => exact Proc.All.bind (all_call.2 fun u starts => starts.elim) fun _ => trivial
  | resync =>
      refine Proc.All.bind (p := NonceManager.resync) ?_ fun _ => trivial
      apply Proc.All.bind (all_call.2 fun u starts => starts.elim)
      intro reply
      cases reply with
      | none => trivial
      | some chain =>
          apply Proc.All.bind (all_call.2 fun u starts => starts.elim)
          intro loaded
          exact Proc.All.bind (all_call.2 fun u starts => starts.elim) fun _ => trivial

/-- No run of the trader goes on for ever. -/
theorem terminates_of_run {C : w.machine.Cond} {world : World} {tasks : List Task} {c : LiveConfig}
    (run : w.machine.Run C (w.machine.start world tasks) c) : w.machine.Terminates C c := by
  have bodies : ∀ t, (w.machine.body t).All (Op.below t.rank) := body_below
  apply Machine.terminates Task.rank bodies _ (Machine.kinds_of_run bodies run)
  intro t i fresh o a s out below did u member
  obtain ⟨j, started⟩ := List.getElem?_of_mem member
  apply below u
  rcases exec_started did started with rfl | ⟨token, route, bnbIn, txHash, e, rfl, rfl⟩
  · rfl
  · trivial

/-! ### What is waited for -/

/-- The entry an operation reads. -/
def Op.loads : Op → Option EntryId
  | .trade (.loadEntry entry) => some entry
  | _ => none

/-- The entry a task visits. -/
def Task.visited : Task → Option EntryId
  | .processOnePosition _ entry _ => some entry
  | _ => none

/-- The operation reads no entry. -/
abbrev Op.loadless (o : Op) : Prop := o.loads = none

section Loads

variable {broadcast : Bool} {o : Op}

theorem Op.basic.loadless (basic : o.basic) : o.loadless := by
  cases o with
  | trade o => exact basic.elim False.elim False.elim
  | _ => rfl

theorem Op.enters.loadless (enters : o.enters broadcast) : o.loadless := by
  unfold Op.enters at enters
  split at enters <;> first | rfl | exact Op.basic.loadless enters

theorem Op.exits.loadless (exits : o.exits broadcast) : o.loadless := by
  unfold Op.exits at exits
  split at exits <;> first | rfl | exact Op.basic.loadless exits

theorem Op.finalizes.loadless (finalizes : o.finalizes broadcast) : o.loadless := by
  unfold Op.finalizes at finalizes
  split at finalizes <;> first | rfl | exact Op.basic.loadless finalizes

theorem Op.watches.loadless (watches : o.watches) : o.loadless := by
  unfold Op.watches at watches
  split at watches <;> first | rfl | exact watches.elim

/-- Only the visit of a position reads an entry. -/
theorem Task.may.loadless {t : Task} (may : t.may broadcast o) (other : t.visited = none) :
    o.loadless := by
  cases t with
  | consumer =>
      rcases may with rfl | enters | exits
      · rfl
      · exact Op.enters.loadless enters
      · exact Op.exits.loadless exits
  | execute => exact Op.enters.loadless may
  | executeExit => exact Op.exits.loadless may
  | finalizePosition => exact Op.finalizes.loadless may
  | persistNonce | reserve | resync => exact Op.basic.loadless may
  | trailWatcher => exact Op.watches.loadless may
  | processOnePosition => cases other

theorem not_basic_join {i : Tid} : ¬ (Op.join i).basic := by
  rintro (mild | signs)
  · exact mild
  · exact signs

/-- Only the watcher waits for other tasks. -/
theorem Task.may.joins {t : Task} {i : Tid} (may : t.may broadcast (.join i)) :
    ∃ heads, t = .trailWatcher heads := by
  cases t with
  | trailWatcher heads => exact ⟨heads, rfl⟩
  | consumer =>
      rcases may with same | basic | basic
      · cases same
      · exact absurd basic not_basic_join
      · exact absurd basic not_basic_join
  | _ => exact absurd may not_basic_join

end Loads

theorem loadless_call {α : Type} {o : Op} {f : o.Res → Live α} (loadless : o.loadless)
    (rest : ∀ result, (f result).All Op.loadless) :
    (Proc.call (S := LiveSig) o >>= f).All Op.loadless :=
  Proc.All.bind (all_call.2 loadless) rest

theorem fireExit_loadless (token : Address) (reason : String) (state : TrailState) (blockN : Nat) :
    (w.fireExit token reason state blockN).All Op.loadless := by
  apply loadless_call rfl
  intro _
  apply ((executeExit_exits _ _ _ _).mono fun _ => Op.exits.loadless).bind
  exact fun _ => all_call.2 rfl

theorem observePosition_loadless (token : Address) (state : TrailState) (blockN : Nat) :
    (w.observePosition token state blockN).All Op.loadless := by
  have mild : ∀ {α : Type} {p : Live α}, p.All Op.mild → p.All Op.loadless :=
    fun all => all.mono fun _ mild => Op.basic.loadless (.inl mild)
  apply (mild (getLatestPriceCached_mild _ _ _)).bind
  intro price
  cases price with
  | none =>
      dsimp only
      split
      · exact fireExit_loadless _ _ _ _
      · trivial
  | some currentPrice =>
      apply (mild (votedOut_mild _ _ _)).bind
      intro voted
      split
      · exact fireExit_loadless _ _ _ _
      · split
        · exact fireExit_loadless _ _ _ _
        · exact all_call.2 rfl

/-- A task reads the entry that it visits, and no other. -/
theorem body_loads (t : Task) : (w.body t).All fun o => ∀ entry, Op.loads o = some entry →
    t.visited = some entry := by
  have reads : ∀ {α : Type} {p : Live α}, p.All Op.loadless →
      p.All fun o => ∀ entry, Op.loads o = some entry → t.visited = some entry := by
    intro α p all
    apply all.mono
    intro o loadless entry loads
    rw [loadless] at loads
    cases loads
  cases visits : t.visited with
  | none =>
      rw [visits] at reads
      exact reads ((body_may t).mono fun o may => may.loadless visits)
  | some entry =>
      rw [visits] at reads
      cases t with
      | processOnePosition token e blockN =>
          cases visits
          refine Proc.All.bind (p := w.processOnePosition token entry blockN) ?_ fun _ => trivial
          apply Proc.All.bind (all_call.2 fun _ => id)
          intro p
          apply reads
          split
          · trivial
          · apply loadless_call rfl
            intro known
            cases known with
            | some state => exact observePosition_loadless token state blockN
            | none =>
                apply (initStateFromLedger_ops (P := Op.loadless) rfl (fun _ => rfl) token
                  blockN).bind
                intro state
                cases state with
                | none => trivial
                | some state =>
                    apply loadless_call rfl
                    exact fun _ => observePosition_loadless token state blockN
      | _ => cases visits

/-- The heap has an entry at this place. -/
def Stored (s : World) (entry : EntryId) : Prop := ∃ p, s.trade.book.entries[entry]? = some p

theorem Stored.after {i fresh : Tid} {o : Op} {a : o.Ans} {s : World}
    {out : Outcome World Task o.Res} {entry : EntryId}
    (stored : Stored s entry) (did : w.machine.exec i fresh o a s = some out) :
    Stored out.shared entry := by
  obtain ⟨p, found⟩ := stored
  obtain ⟨p', found', -⟩ := (Grows.of_exec did).entries entry p found
  exact ⟨p', found'⟩

section Rounds

variable {q : Round} {i fresh : Tid} {o : Op} {a : o.Ans} {s : World}
  {out : Outcome World Task o.Res}

/-- What is to be visited in a round was read from the cache. -/
theorem Round.allows.todo (allowed : q.allows o) (did : o.exec i fresh a s = some out)
    {held : Address × EntryId}
    (member : held ∈ (q.next o out.res).todo) : held ∈ q.todo ∨ Stored s held.2 := by
  unfold Round.allows at allowed
  split at allowed
  · cases did
    obtain ⟨⟨token, entry⟩, cached, rfl⟩ := List.mem_map.1 member
    obtain ⟨p, found, -⟩ := s.trade.book.keyed token entry (AList.mem_lookup_iff.2 cached)
    exact .inr ⟨p, found⟩
  · exact .inl (List.mem_of_mem_tail member)
  · exact .inl member
  · exact allowed.elim

/-- What is waited for in a round was started in it. -/
theorem Round.allows.joins (allowed : q.allows o) (did : o.exec i fresh a s = some out) {j : Tid}
    (member : j ∈ (q.next o out.res).joins) :
    j ∈ q.joins ∨ j = fresh ∧ ∃ token entry blockN,
    out.spawned = [.processOnePosition token entry blockN] := by
  unfold Round.allows at allowed
  split at allowed
  · cases member
  · cases did
    rcases List.mem_append.1 member with old | new
    · exact .inl old
    · exact .inr ⟨List.mem_singleton.1 new, _, _, _, rfl⟩
  · exact .inl (List.mem_of_mem_tail member)
  · exact allowed.elim

/-- What is visited was to be visited. -/
theorem Round.allows.visits (allowed : q.allows o) (did : o.exec i fresh a s = some out) {j : Nat}
    {token : Address} {entry : EntryId} {blockN : Nat}
    (started : out.spawned[j]? = some (.processOnePosition token entry blockN)) :
    (token, entry) ∈ q.todo := by
  rcases exec_started did started with rfl | ⟨_, _, _, _, _, rfl, -⟩
  · exact List.mem_of_head? allowed
  · exact allowed.elim

end Rounds

/-- The round that a watcher at `i` is in. -/
def round (i : Tid) (h : List w.machine.Event) : Round := (rounds (.trailWatcher [])).phase i {} h

theorem round_own {i : Tid} {o : Op} {a : w.machine.Ans o} {r : o.Res} {h : List w.machine.Event} :
    round i ((⟨i, o, a, r⟩ : w.machine.Event) :: h) = (round i h).next o r := Protocol.phase_own rfl

/-- Whoever is waited for is a visit, and whatever is visited is there. -/
structure Attended (c : Config LiveSig (LiveRecorded w) Task Done) : Prop where
  obeyed : Machine.Obeyed (M := w.machine) rounds (fun _ _ _ => True) (fun _ => {}) c
  todo : ∀ (i : Tid) heads p, c.pool[i]? = some (.trailWatcher heads, p) →
    ∀ held ∈ (round i c.shared.2).todo, Stored c.shared.1 held.2
  joins : ∀ (i : Tid) heads p, c.pool[i]? = some (.trailWatcher heads, p) →
    ∀ j ∈ (round i c.shared.2).joins, ∃ token entry blockN q,
      c.pool[j]? = some (.processOnePosition token entry blockN, q)
  visits : ∀ (j : Tid) token entry blockN p, c.pool[j]? =
    some (.processOnePosition token entry blockN, p) →
    Stored c.shared.1 entry

theorem Attended.step {C : w.machine.recording.Cond} {i : Tid}
    {c c' : Config LiveSig (LiveRecorded w) Task Done}
    (attended : Attended c) (step : w.machine.recording.Step C i c c') : Attended c' := by
  have obeyed := attended.obeyed.step body_rounds step
  obtain ⟨t, o, next, a, out, running, -, -, did, shared, pool⟩ := step.inversion
  have bound : i < c.pool.length := (List.getElem?_eq_some_iff.1 running).1
  have allowed := rounds_allows (attended.obeyed.allows running)
  have stored : ∀ entry, Stored c.shared.1 entry → Stored c'.shared.1 entry := by
    intro entry before
    rw [shared]
    exact before.after did
  have keeps : ∀ (j : Tid) u p, c.pool[j]? = some (u, p) → ∃ q, c'.pool[j]? = some (u, q) := by
    intro j u p found
    rw [pool]
    exact Machine.pool_keeps running found
  constructor
  · exact obeyed
  · intro k heads p found held member
    rw [shared] at member
    rw [pool] at found
    rcases Machine.pool_cases (M := w.machine) bound found
      with ⟨rfl, same⟩ | ⟨ne, before⟩ | ⟨new, -, -⟩
    · cases same
      rcases allowed with ⟨-, other⟩ | ⟨-, allowed⟩
      · exact absurd rfl (other heads)
      · simp only [round_own] at member
        rcases Round.allows.todo allowed did member with old | read
        · exact stored _ (attended.todo k heads _ running held old)
        · exact stored _ read
    · rw [round, Protocol.phase_other (Ne.symm ne)] at member
      exact stored _ (attended.todo k heads p before held member)
    · rw [round, attended.obeyed.phase_new bound new] at member
      cases member
  · intro k heads p found j member
    rw [shared] at member
    rw [pool] at found
    rcases Machine.pool_cases (M := w.machine) bound found
      with ⟨rfl, same⟩ | ⟨ne, before⟩ | ⟨new, -, -⟩
    · cases same
      rcases allowed with ⟨-, other⟩ | ⟨-, allowed⟩
      · exact absurd rfl (other heads)
      · simp only [round_own] at member
        rcases Round.allows.joins allowed did member with old | ⟨rfl, token, entry, blockN, spawned⟩
        · obtain ⟨token, entry, blockN, q, waited⟩ := attended.joins k heads _ running j old
          exact ⟨token, entry, blockN, keeps j _ q waited⟩
        · refine ⟨token, entry, blockN, w.machine.body (.processOnePosition token entry blockN), ?_⟩
          rw [pool, spawned, List.getElem?_append_right (by simp), List.length_set, Nat.sub_self]
          rfl
    · rw [round, Protocol.phase_other (Ne.symm ne)] at member
      obtain ⟨token, entry, blockN, q, waited⟩ := attended.joins k heads p before j member
      exact ⟨token, entry, blockN, keeps j _ q waited⟩
    · rw [round, attended.obeyed.phase_new bound new] at member
      cases member
  · intro j token entry blockN p found
    rw [pool] at found
    apply stored
    rcases Machine.pool_cases (M := w.machine) bound found
      with ⟨rfl, same⟩ | ⟨ne, before⟩ | ⟨new, started, -⟩
    · cases same
      exact attended.visits j _ _ _ _ running
    · exact attended.visits j _ _ _ _ before
    · rcases allowed with ⟨visitless, -⟩ | ⟨⟨heads, rfl⟩, allowed⟩
      · cases started_visitless visitless did started
      · exact attended.todo i heads _ running _ (Round.allows.visits allowed did started)

theorem Attended.start {world : World} {tasks : List Task}
    (visits : ∀ token entry blockN, .processOnePosition token entry blockN ∈ tasks →
      Stored world entry) :
    Attended (w := w) (w.machine.recording.start (world, []) tasks) := by
  constructor
  · exact .start body_rounds world tasks
  · intro i heads p found held member
    cases member
  · intro i heads p found j member
    cases member
  · intro j token entry blockN p found
    simp only [Machine.start, List.getElem?_map, Option.map_eq_some_iff] at found
    obtain ⟨t, there, same⟩ := found
    cases same
    exact visits _ _ _ (List.mem_of_getElem? there)

/-! ### Who holds what -/

/-- What an operation that takes or gives back does. -/
def Effect (i : Tid) (s s' : World) : Act Resource → Prop
  | .take (.exitLock token) => s.trade.exitLocks token = none ∧
      s'.trade.exitLocks = Function.update s.trade.exitLocks token (some i) ∧
      s'.env.bgPermits = s.env.bgPermits
  | .give (.exitLock token) => s'.trade.exitLocks = Function.update s.trade.exitLocks token none ∧
      s'.env.bgPermits = s.env.bgPermits
  | .take .permit => s'.trade.exitLocks = s.trade.exitLocks ∧ s'.env.bgPermits + 1 = s.env.bgPermits
  | .give .permit => s'.trade.exitLocks = s.trade.exitLocks ∧ s'.env.bgPermits = s.env.bgPermits + 1
  | .wait | .pass => s'.trade.exitLocks = s.trade.exitLocks ∧ s'.env.bgPermits = s.env.bgPermits

theorem exec_effect {i fresh : Tid} {o : Op} {a : o.Ans} {s : World}
    {out : Outcome World Task o.Res}
    (did : o.exec i fresh a s = some out) : Effect i s out.shared o.act := by
  cases o with
  | trade o =>
      obtain ⟨mid, ran, rfl⟩ := Option.map_eq_some_iff.1 did
      cases o with
      | lockExit token =>
          dsimp only [TradeOp.exec] at ran
          split at ran
          · rename_i free
            cases ran
            exact ⟨free, rfl, rfl⟩
          · cases ran
      | loadEntry entry =>
          obtain ⟨p, -, rfl⟩ := Option.map_eq_some_iff.1 ran
          exact ⟨rfl, rfl⟩
      | _ =>
          cases ran
          exact ⟨rfl, rfl⟩
  | env o =>
      obtain ⟨⟨result, after⟩, ran, rfl⟩ := Option.map_eq_some_iff.1 did
      cases o with
      | acquirePermit =>
          dsimp only [EnvOp.exec] at ran
          split at ran
          · cases ran
          · rename_i some_
            cases ran
            exact ⟨rfl, Nat.sub_add_cancel (Nat.pos_of_ne_zero some_)⟩
      | ledgerAppend row =>
          cases ran
          split <;> exact ⟨rfl, rfl⟩
      | _ =>
          cases ran
          exact ⟨rfl, rfl⟩
  | sign tx => cases a <;> cases did <;> exact ⟨rfl, rfl⟩
  | _ =>
      cases did
      exact ⟨rfl, rfl⟩

/-- There is one lock for each token. -/
def Resource.single : Resource → Prop
  | .exitLock _ => True
  | .permit => False

/-- A lock is held by whoever the state names, and the permits that are missing are held. -/
structure HeldAccount (total : Nat) (s : LiveRecorded w) : Prop where
  lawful : Lawful Op.act Resource.single s.2
  locks : ∀ token j, s.1.trade.exitLocks token = some j ↔ j ∈ holders Op.act (.exitLock token) s.2
  permits : s.1.env.bgPermits + (holders Op.act .permit s.2).card = total

theorem HeldAccount.step {total : Nat} {i fresh : Tid} {o : Op} {a : o.Ans} {s : LiveRecorded w}
    {out : Outcome World Task o.Res} (accounted : HeldAccount total s)
    (allowed : holding.allows (holds Op.act i s.2) o) (did : o.exec i fresh a s.1 = some out) :
    HeldAccount total (out.shared, ⟨i, o, a, out.res⟩ :: s.2) := by
  have effect := exec_effect did
  have lawful : Lawful Op.act Resource.single ((⟨i, o, a, out.res⟩ : w.machine.Event) :: s.2) := by
    refine ⟨allowed, fun r one takes j has => ?_, accounted.lawful⟩
    cases r with
    | permit => exact one
    | exitLock token =>
        rw [takes] at effect
        have held := (accounted.locks token j).2 (Machine.mem_holders.2 has)
        rw [effect.1] at held
        cases held
  -- a lock stays with whoever has it unless the operation takes it or gives it back
  have others : ∀ r, o.act ≠ .take r → o.act ≠ .give r →
      holders (M := w.machine) Op.act r (⟨i, o, a, out.res⟩ :: s.2) = holders Op.act r s.2 :=
    fun r => Machine.holders_other (M := w.machine) (e := ⟨i, o, a, out.res⟩) allowed
  cases kind : o.act with
  | take r =>
      rw [kind] at effect
      have more := Machine.holders_take (M := w.machine) (e := ⟨i, o, a, out.res⟩) (h := s.2) kind
      cases r with
      | exitLock token =>
          refine ⟨lawful, fun other j => ?_, ?_⟩
          · rw [effect.2.1]
            by_cases same : other = token
            · subst same
              have nobody : holders (M := w.machine) Op.act (.exitLock other) s.2 = ∅ := by
                apply Finset.eq_empty_of_forall_notMem
                intro k member
                have held := (accounted.locks other k).2 member
                rw [effect.1] at held
                cases held
              rw [Function.update_self, more, nobody]
              simp [eq_comm]
            · rw [Function.update_of_ne same,
                others _ (by simpa [kind] using Ne.symm same) (by simp [kind])]
              exact accounted.locks other j
          · rw [effect.2.2, others _ (by simp [kind]) (by simp [kind])]
            exact accounted.permits
      | permit =>
          refine ⟨lawful, fun token j => ?_, ?_⟩
          · rw [effect.1, others _ (by simp [kind]) (by simp [kind])]
            exact accounted.locks token j
          · have empty : holds Op.act i s.2 = none := by
              simpa [Protocol.holding, kind] using allowed
            have fresh : i ∉ holders Op.act .permit s.2 := by simp [Machine.mem_holders, empty]
            rw [more, Finset.card_insert_of_notMem fresh, ← accounted.permits, ← effect.2]
            ac_rfl
  | give r =>
      rw [kind] at effect
      have fewer := Machine.holders_give (M := w.machine) (e := ⟨i, o, a, out.res⟩) (h := s.2) kind
      have full : i ∈ holders Op.act r s.2 := by
        apply Machine.mem_holders.2
        simpa [Protocol.holding, kind] using allowed
      cases r with
      | exitLock token =>
          refine ⟨lawful, fun other j => ?_, ?_⟩
          · rw [effect.1]
            by_cases same : other = token
            · subst same
              rw [Function.update_self, fewer, Finset.mem_erase, ← accounted.locks,
                (accounted.locks other i).2 full]
              simp [eq_comm]
            · rw [Function.update_of_ne same,
                others _ (by simp [kind]) (by simpa [kind] using Ne.symm same)]
              exact accounted.locks other j
          · rw [effect.2, others _ (by simp [kind]) (by simp [kind])]
            exact accounted.permits
      | permit =>
          refine ⟨lawful, fun token j => ?_, ?_⟩
          · rw [effect.1, others _ (by simp [kind]) (by simp [kind])]
            exact accounted.locks token j
          · rw [fewer, effect.2, Nat.add_assoc, Nat.add_comm 1, Finset.card_erase_add_one full]
            exact accounted.permits
  | _ =>
      rw [kind] at effect
      refine ⟨lawful, fun token j => ?_, ?_⟩
      · rw [effect.1, others _ (by simp [kind]) (by simp [kind])]
        exact accounted.locks token j
      · rw [effect.2, others _ (by simp [kind]) (by simp [kind])]
        exact accounted.permits

theorem heldAccount_of_run {C : w.machine.recording.Cond} {world : World} {tasks : List Task}
    {c : Config LiveSig (LiveRecorded w) Task Done}
    (unlocked : ∀ token, world.trade.exitLocks token = none)
    (run : w.machine.recording.Run C (w.machine.recording.start (world, []) tasks) c) :
    HeldAccount world.env.bgPermits c.shared := by
  apply Machine.invariant_of_obeyed (P := fun _ => holding)
    body_holding _ run
  · refine ⟨trivial, fun token j => ?_, Nat.add_zero _⟩
    rw [unlocked]
    exact ⟨nofun, nofun⟩
  · exact fun i fresh t o a s out accounted _ allowed _ did => accounted.step allowed did

/-! ### Somebody can move -/

instance (q : Query) : Inhabited q.Reply := by cases q <;> exact ⟨default⟩

instance (o : EnvOp) : Inhabited o.Ans := by cases o <;> exact ⟨default⟩

instance (o : NonceOp) : Inhabited o.Ans := by cases o <;> exact ⟨default⟩

/-- Questions to a node, a cache or the clock, and transactions handed to an endpoint: they
wait for an answer. -/
def Op.requests : Op → Prop
  | .ask _ | .submit .. => True
  | _ => False

/-- What takes nothing and waits for nobody can be made, if the entry it reads is there; a request
whatever its answer is. -/
theorem exec_ready {o : Op} (i fresh : Tid) (s : World) (moves : o.passes ∨ ∃ r, o.act = .give r)
    (stored : ∀ entry, o.loads = some entry → Stored s entry) :
    o.waits = [] ∧ (∃ a out, o.exec i fresh a s = some out) ∧
      (o.requests → ∀ a, ∃ out, o.exec i fresh a s = some out) := by
  have takes : ∀ r, o.act ≠ .take r := by
    intro r takes
    rcases moves with passes | ⟨r', gives⟩
    · cases takes.symm.trans passes
    · cases takes.symm.trans gives
  have waits : o.act ≠ .wait := by
    intro waits
    rcases moves with passes | ⟨r', gives⟩
    · cases waits.symm.trans passes
    · cases waits.symm.trans gives
  cases o with
  | trade o =>
      refine ⟨rfl, ⟨(), ?_⟩, False.elim⟩
      cases o with
      | lockExit token => exact absurd rfl (takes (.exitLock token))
      | loadEntry entry =>
          obtain ⟨p, found⟩ := stored entry rfl
          exact ⟨_, by simp only [Op.exec, TradeOp.exec, found]; rfl⟩
      | _ => exact ⟨_, rfl⟩
  | env o =>
      refine ⟨rfl, ⟨(default : o.Ans), ?_⟩, False.elim⟩
      cases o with
      | acquirePermit => exact absurd rfl (takes .permit)
      | _ => exact ⟨_, rfl⟩
  | join j => exact absurd rfl waits
  | ask q => exact ⟨rfl, ⟨(default : q.Reply), _, rfl⟩, fun _ reply => ⟨_, rfl⟩⟩
  | nonce o => exact ⟨rfl, ⟨(default : o.Ans), _, rfl⟩, False.elim⟩
  | sign tx => exact ⟨rfl, ⟨some 0, _, rfl⟩, False.elim⟩
  | submit tx hash site => exact ⟨rfl, ⟨⟨true, true⟩, _, rfl⟩, fun _ sent => ⟨_, rfl⟩⟩
  | shadow tx => exact ⟨rfl, ⟨(), _, rfl⟩, False.elim⟩
  | spawn task => exact ⟨rfl, ⟨(), _, rfl⟩, False.elim⟩

theorem act_take {o : Op} {r : Resource} (takes : o.act = .take r) :
    (∃ token, o = .trade (.lockExit token) ∧ r = .exitLock token) ∨ o = .env .acquirePermit ∧
    r = .permit := by
  unfold Op.act at takes
  split at takes
  · cases takes
    exact .inl ⟨_, rfl, rfl⟩
  · cases takes
  · cases takes
    exact .inr ⟨rfl, rfl⟩
  · cases takes
  · cases takes
  · cases takes

theorem act_give {o : Op} {r : Resource} (gives : o.act = .give r) :
    (∃ token, o = .trade (.unlockExit token) ∧ r = .exitLock token) ∨ o = .env .releasePermit ∧
    r = .permit := by
  unfold Op.act at gives
  split at gives
  · cases gives
  · cases gives
    exact .inl ⟨_, rfl, rfl⟩
  · cases gives
  · cases gives
    exact .inr ⟨rfl, rfl⟩
  · cases gives
  · cases gives

theorem act_wait {o : Op} (waits : o.act = .wait) : ∃ i, o = .join i := by
  unfold Op.act at waits
  split at waits
  case h_5 i => exact ⟨i, rfl⟩
  all_goals cases waits

/-- Every request that a task is at gets an answer. -/
def Answered (C : w.machine.Cond) (c : LiveConfig) : Prop :=
  ∀ i t o, AboutTo c i t o → o.requests → ∃ a, C i o a c.shared

section Moving

variable {C : w.machine.Cond} (local_ : ∀ i o a s, ¬ Op.requests o → C i o a s)
  {c : Config LiveSig (LiveRecorded w) Task Done} {i : Tid} {t : Task} {o : Op}
include local_

/-- A task that takes nothing and does not wait goes on, once its request is answered. -/
theorem moves_on (answered : Answered C c.forget) (about : AboutTo c i t o)
    (moves : o.act = .pass ∨ ∃ r, o.act = .give r)
    (stored : ∀ entry, o.loads = some entry → Stored c.shared.1 entry) :
    ∃ c', w.machine.recording.Step (fun i o a s => C i o a s.1) i c c' := by
  obtain ⟨waits, does, total⟩ := exec_ready i c.pool.length c.shared.1 moves stored
  have ready : (w.machine.waits o).all c.finished = true := by
    rw [show w.machine.waits o = [] from waits]
    rfl
  apply about.moves ready
  by_cases requests : o.requests
  · obtain ⟨a, meets⟩ := answered i t o about requests
    obtain ⟨out, did⟩ := total requests a
    exact ⟨a, out, meets, did⟩
  · obtain ⟨a, out, did⟩ := does
    exact ⟨a, out, local_ i o a _ requests, did⟩

/-- A task that is to take something takes it, unless somebody has it. -/
theorem moves_or_held {total : Nat} (permits : 0 < total) (accounted : HeldAccount total c.shared)
    {r : Resource} (about : AboutTo c i t o) (takes : o.act = .take r) :
    (∃ c', w.machine.recording.Step (fun i o a s => C i o a s.1) i c c') ∨
      ∃ j, holds Op.act j c.shared.2 = some r := by
  rcases act_take takes with ⟨token, rfl, rfl⟩ | ⟨rfl, rfl⟩
  · cases locked : c.shared.1.trade.exitLocks token with
    | none =>
        have does : ∃ out, Op.exec i c.pool.length (.trade (.lockExit token)) () c.shared.1 =
            some out := by
          simp only [Op.exec, TradeOp.exec, locked, if_pos]
          exact ⟨_, rfl⟩
        obtain ⟨out, did⟩ := does
        exact .inl (about.moves rfl ⟨(), out, local_ i _ _ _ id, did⟩)
    | some j => exact .inr ⟨j, Machine.mem_holders.1 ((accounted.locks token j).1 locked)⟩
  · by_cases left : c.shared.1.env.bgPermits = 0
    · have account := accounted.permits
      rw [left, Nat.zero_add] at account
      rw [← account, Finset.card_pos] at permits
      obtain ⟨j, holder⟩ := permits
      exact .inr ⟨j, Machine.mem_holders.1 holder⟩
    · have does : ∃ out, Op.exec i c.pool.length (.env .acquirePermit) () c.shared.1 =
          some out := by
        simp only [Op.exec, EnvOp.exec, if_neg left]
        exact ⟨_, rfl⟩
      obtain ⟨out, did⟩ := does
      exact .inl (about.moves rfl ⟨(), out, local_ i _ _ _ id, did⟩)

/-- A watcher that is to wait need not, or the visit it waits for is under way. -/
theorem moves_or_awaited (attended : Attended c) {heads : List Nat} {j : Tid}
    (about : AboutTo c i (.trailWatcher heads) (.join j)) :
    (∃ c', w.machine.recording.Step (fun i o a s => C i o a s.1) i c c') ∨
      ∃ token entry blockN o', AboutTo c j (.processOnePosition token entry blockN) o' := by
  obtain ⟨next, found⟩ := about
  have joins : (round i c.shared.2).joins.head? = some j := attended.obeyed.allows found
  obtain ⟨token, entry, blockN, q, waited⟩ :=
    attended.joins i heads _ found j (List.mem_of_head? joins)
  cases q with
  | ret value =>
      have ready : (w.machine.waits (.join j)).all c.finished = true := by
        simp [TrailWatcher.machine, Op.waits, Config.finished, waited]
      exact .inl (AboutTo.moves ⟨next, found⟩ ready ⟨(), _, local_ i _ _ _ id, rfl⟩)
  | op o' next' => exact .inr ⟨token, entry, blockN, o', next', waited⟩

end Moving

section Run

variable {C : w.machine.Cond} (local_ : ∀ i o a s, ¬ Op.requests o → C i o a s)
  {world : World} {tasks : List Task} (unlocked : ∀ token, world.trade.exitLocks token = none)
  (permits : 0 < world.env.bgPermits)
  (visits : ∀ token entry blockN, .processOnePosition token entry blockN ∈ tasks →
    Stored world entry)
include local_ unlocked permits visits

/-- While a task has not returned, and requests are answered, some task can move. -/
theorem exists_step_of_run {c : Config LiveSig (LiveRecorded w) Task Done}
    (run : w.machine.recording.Run (fun i o a s => C i o a s.1)
      (w.machine.recording.start (world, []) tasks) c)
    (answered : Answered C c.forget) (busy : ¬ c.Quiet) :
    ∃ i c', w.machine.recording.Step (fun i o a s => C i o a s.1) i c c' := by
  have attended : Attended c :=
    run.invariant (fun _ _ _ attended step => attended.step step) (.start visits)
  have accounted := heldAccount_of_run unlocked run
  have held : Held (M := w.machine) Op.act c := Machine.obeyed_of_run body_holding run
  have bodies : ∀ t, (w.machine.recording.body t).All (t.may w.exec.broadcastEnabled) := body_may
  have kinds := Machine.kinds_of_run bodies run
  have loads := Machine.kinds_of_run (M := w.machine.recording) body_loads run
  have may : ∀ {i t o}, AboutTo c i t o → t.may w.exec.broadcastEnabled o := by
    rintro i t o ⟨next, found⟩
    exact (kinds _ (List.mem_of_getElem? found)).1
  apply Machine.exists_step_of_held held _ _ _ busy
  · rintro i t o about moves
    apply moves_on local_ answered about moves fun entry reads => ?_
    obtain ⟨next, found⟩ := about
    have visited := (loads _ (List.mem_of_getElem? found)).1 entry reads
    cases t with
    | processOnePosition token e blockN =>
        cases visited
        exact attended.visits i _ _ _ _ found
    | _ => cases visited
  · rintro i t o r about takes
    exact moves_or_held local_ permits accounted about takes
  · rintro i t o about waits
    obtain ⟨j, rfl⟩ := act_wait waits
    obtain ⟨heads, rfl⟩ := (may about).joins
    rcases moves_or_awaited local_ attended about with moves | ⟨token, entry, blockN, o', other⟩
    · exact .inl moves
    · refine .inr ⟨j, _, o', other, fun waits' => ?_⟩
      obtain ⟨k, rfl⟩ := act_wait waits'
      obtain ⟨heads', same⟩ := (may other).joins
      cases same

/-- However the tasks of the trader take turns and whatever is answered, no run goes on for ever,
every run can be brought to a point where it can go no further, and where it can go no further and
every request gets an answer all tasks have returned: then every exit lock is free and every
finalize permit is back.  A request need not get one: the client that `init_state_from_ledger` asks
for the receipt of a BUY with has no timeout, and the watcher waits for every visit. -/
theorem every_task_returns {c : LiveConfig}
    (run : w.machine.Run C (w.machine.start world tasks) c) :
    (∀ configs : ℕ → LiveConfig, configs 0 = c →
      ∃ n, ∀ i, ¬ w.machine.Step C i (configs n) (configs (n + 1))) ∧
    (∃ last, w.machine.Run C c last ∧ (∀ i c', ¬ w.machine.Step C i last c') ∧
      (Answered C last → last.Quiet)) ∧
    ((∀ i c', ¬ w.machine.Step C i c c') → Answered C c → c.Quiet ∧
      (∀ token, c.shared.trade.exitLocks token = none) ∧
      c.shared.env.bgPermits = world.env.bgPermits) := by
  have ends := terminates_of_run run
  have quiet : ∀ {d : LiveConfig}, w.machine.Run C (w.machine.start world tasks) d →
      (∀ i c', ¬ w.machine.Step C i d c') → Answered C d → d.Quiet := by
    intro d run stuck answered
    obtain ⟨h, recorded⟩ := Machine.recording_of_run run []
    by_contra busy
    obtain ⟨i, c', step⟩ :=
      exists_step_of_run local_ unlocked permits visits (c := d.record h) recorded answered busy
    exact stuck i c'.forget (step.of_recording fun _ _ _ _ meets => meets)
  refine ⟨fun configs first => ends.endless configs first, ?_, fun stuck answered =>
    ⟨quiet run stuck answered, ?_⟩⟩
  · obtain ⟨last, more, stuck⟩ := ends.exists_last
    exact ⟨last, more, stuck, quiet (run.trans more) stuck⟩
  · obtain ⟨h, recorded⟩ := Machine.recording_of_run run []
    have accounted := heldAccount_of_run (c := c.record h) unlocked recorded
    have held : Held (M := w.machine) Op.act (c.record h) :=
      Machine.obeyed_of_run body_holding recorded
    have empty := held.quiet (quiet run stuck answered)
    constructor
    · intro token
      cases locked : c.shared.trade.exitLocks token with
      | none => rfl
      | some j =>
          have holder := Machine.mem_holders.1 ((accounted.locks token j).1 locked)
          rw [empty j] at holder
          cases holder
    · have nobody : holders (M := w.machine) Op.act .permit h = ∅ := by
        apply Finset.eq_empty_of_forall_notMem
        intro j member
        have holder := Machine.mem_holders.1 member
        rw [show holds (M := w.machine) Op.act j h = none from empty j] at holder
        cases holder
      have account := accounted.permits
      rw [show holders (M := w.machine) Op.act .permit (c.record h).shared.2 = ∅ from nobody]
        at account
      exact account

end Run

/-- Two exits of one token: while the first holds the lock the second waits, and both return. -/
theorem every_task_returns_exits : ∃ c : LiveConfig,
    (scenario false).machine.Run (scenario false).machine.anyStep
      ((scenario false).machine.start (World.boot 5 none) [exitTask, exitTask]) c ∧
    c.shared.trade.exitLocks scenarioToken = some 0 ∧
    ∃ last, (scenario false).machine.Run (scenario false).machine.anyStep c last ∧ last.Quiet := by
  obtain ⟨c, run, locked⟩ : ∃ c, (scenario false).machine.Run (scenario false).machine.anyStep
      ((scenario false).machine.start (World.boot 5 none) [exitTask, exitTask]) c ∧
      c.shared.trade.exitLocks scenarioToken = some 0 :=
    Machine.exists_run_of_follow [(0, 2, Replies.ans {})] (by decide +kernel)
  have returns :=
    every_task_returns (fun _ _ _ _ _ => trivial) (fun _ => rfl) (by decide)
      (by simp [exitTask]) run
  obtain ⟨last, more, -, quiet⟩ := returns.2.1
  exact ⟨c, run, locked, last, more, quiet fun _ _ o _ _ => ⟨Replies.ans {} o, trivial⟩⟩

end BscMempool.Trader
