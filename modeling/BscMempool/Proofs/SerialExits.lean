/-
Module: BscMempool.Proofs.SerialExits
Layer: Proofs
Purpose: The exits of a token are serial. Between two SELLs of one token the first is brought into
  the position cache and the token's exit lock is given back, and then the second takes the lock and
  looks up what there is left to sell.
Trusted boundary: none
Main exports: SellPhase, selling, body_selling, balanceSeen, exits_are_serial
-/
import BscMempool.Proofs.ArmedExits
import BscMempool.Proofs.LiveCompletes

namespace BscMempool.Trader

open Concurrent (Config Machine Outcome Proc Protocol Tid)
open Concurrent.Machine (Lawful holders holds)
open Concurrent.Proc
open LiveExecutor

/-- How far a task is with an exit: it has none under way, has the lock, has looked up under
it how much there is to sell, has broadcast a SELL that is not in the cache yet and leaves
so much, or has sold. -/
inductive SellPhase where
  | idle
  | locked (token : Address)
  | looked (token : Address) (balance : U256)
  | sold (token : Address) (rest : U256)
  | spent (token : Address)
deriving DecidableEq

/-- The balance of the token that an operation finds, in the cache or on the chain. -/
def balanceRead (token : Address) : (o : Op) → o.Res → Option U256
  | .trade (.positionsGet other), found =>
      if other = token then some ((found.map fun held => held.2.tokensBought).getD 0) else none
  | .ask (.balanceOf other), reply => if other = token then some (reply.getD 0) else none
  | _, _ => none

/-- A task sells the token it has the lock of, once for each time it takes the lock and no more of
it than it found there, and then first of all brings what the SELL leaves into the cache. -/
def selling : Protocol LiveSig SellPhase where
  allows
    | q, .submit tx _ (.sell _) => ∃ token balance amount,
        q = .looked token balance ∧ tx.input.sold = some (token, amount) ∧
        amount.toNat ≤ balance.toNat
    | q, .trade (.writeBack token left _) =>
        ∀ other rest, q = .sold other rest → other = token ∧ rest = left
    | q, _ => ∀ token rest, q ≠ .sold token rest
  next
    | _, .trade (.lockExit token), _ => .locked token
    | _, .trade (.unlockExit _), _ => .idle
    | .locked token, .trade (.positionsGet other), found =>
        if other = token then .looked token ((found.map fun held => held.2.tokensBought).getD 0)
        else .locked token
    | .looked token balance, .submit tx _ (.sell _), true =>
        .sold token (balance - (tx.input.sold.map Prod.snd).getD 0)
    | .looked token _, .submit _ _ (.sell _), false => .spent token
    | .looked token balance, o, result => .looked token ((balanceRead token o result).getD balance)
    | .sold token _, .trade (.writeBack ..), _ => .spent token
    | q, _, _ => q

/-- The operation has nothing to do with the phases of an exit that has looked up
what there is to sell. -/
def Op.plain : Op → Prop
  | .submit _ _ (.sell _) | .trade (.writeBack ..) | .trade (.lockExit _)
  | .trade (.unlockExit _) => False
  | _ => True

/-- It does not look a balance up either. -/
def Op.blind (o : Op) : Prop := o.plain ∧ ∀ token result, balanceRead token o result = none

/-- The phase is one in which an exit neither is to look the position up nor has a SELL that
waits for the cache. -/
def SellPhase.settled : SellPhase → Prop
  | .locked _ | .sold .. => False
  | _ => True

/-- It does not sell from a balance either. -/
def SellPhase.rests : SellPhase → Prop
  | .idle | .spent _ => True
  | _ => False

section Kinds

variable {broadcast : Bool} {o : Op} {q : SellPhase}

theorem SellPhase.rests.settled (rests : q.rests) : q.settled := by
  cases q <;> trivial

theorem not_sold (settled : q.settled) (token : Address) (rest : U256) : q ≠ .sold token rest := by
  rintro rfl
  exact settled

theorem plain_allowed (plain : o.plain) (unsold : ∀ token rest, q ≠ .sold token rest) :
    selling.allows q o := by
  unfold selling
  dsimp only
  split
  · exact plain.elim
  · exact plain.elim
  · exact unsold

theorem plain_next (plain : o.plain) (rests : q.rests) (result : o.Res) :
    selling.next q o result = q := by
  unfold selling
  dsimp only
  split <;> first | exact plain.elim | exact rests.elim | rfl

theorem blind_next (blind : o.blind) (settled : q.settled) (result : o.Res) :
    selling.next q o result = q := by
  unfold selling
  dsimp only
  split
  case h_6 => rw [blind.2, Option.getD_none]
  all_goals first | exact blind.1.elim | exact settled.elim | rfl

theorem Op.basic.plain (basic : o.basic) : o.plain := by
  cases o with
  | trade o => exact basic.elim False.elim False.elim
  | submit tx hash site => exact absurd basic not_basic_submit
  | _ => trivial

theorem Op.enters.plain (enters : o.enters broadcast) : o.plain := by
  unfold Op.enters at enters
  split at enters <;> first | trivial | exact Op.basic.plain enters

theorem Op.readies.plain (readies : o.readies broadcast) : o.plain := by
  unfold Op.readies at readies
  split at readies <;> first | trivial | exact Op.basic.plain readies

theorem Op.finalizes.plain (finalizes : o.finalizes broadcast) : o.plain := by
  unfold Op.finalizes at finalizes
  split at finalizes <;> first | trivial | exact Op.basic.plain finalizes

theorem Op.roams.plain (roams : o.roams) : o.plain := by
  unfold Op.roams at roams
  split at roams <;> first | trivial | exact Op.basic.plain (Op.light.basic roams)

theorem Op.drafts.blind (drafts : o.drafts) : o.blind := by
  refine ⟨Op.basic.plain drafts.basic, fun token result => ?_⟩
  unfold balanceRead
  split
  · exact drafts.elim False.elim False.elim
  · exact drafts.elim
  · rfl

theorem selling_roams (rests : q.rests) : Roams selling fun q' => q' = q where
  allowed := by
    rintro q' o rfl roams
    exact plain_allowed (Op.roams.plain roams) (not_sold rests.settled)
  kept := by
    rintro q' o rfl roams result
    exact plain_next (Op.roams.plain roams) rests result

end Kinds

/-! ### The functions -/

namespace SerialExits

/-- What has nothing to do with exits leaves the phase as it is while there is nothing looked up. -/
theorem obeys_plain {α : Type} {p : Live α} {q : SellPhase} {R : α → Prop} (plain : p.All Op.plain)
    (returns : p.Ends R) (rests : q.rests) : p.Obeys selling (fun q' value => q' = q ∧ R value) q :=
  Obeys.of_all (fun _ plain => plain_allowed plain (not_sold rests.settled))
    (fun _ plain => plain_next plain rests) plain
    returns

/-- What looks no balance up leaves it as it is in any case. -/
theorem obeys_blind {α : Type} {p : Live α} {q : SellPhase} {R : α → Prop} (blind : p.All Op.blind)
    (returns : p.Ends R)
    (settled : q.settled) : p.Obeys selling (fun q' value => q' = q ∧ R value) q :=
  Obeys.of_all (fun _ blind => plain_allowed blind.1 (not_sold settled))
    (fun _ blind => blind_next blind settled) blind
    returns

section Functions

variable {x : LiveExecutor} {α β : Type} {p : Live α} {f : α → Live β} {q : SellPhase}
  {ends : SellPhase → β → Prop}

theorem then_blind (blind : p.All Op.blind) (settled : q.settled)
    (rest : ∀ value, (f value).Obeys selling ends q) :
    (p >>= f).Obeys selling ends q := by
  apply (obeys_blind blind (.any p) settled).bind
  rintro q' value ⟨rfl, -⟩
  exact rest value

theorem then_drafts (drafts : p.All Op.drafts) (settled : q.settled)
    (rest : ∀ value, (f value).Obeys selling ends q) :
    (p >>= f).Obeys selling ends q := then_blind (drafts.mono fun _ => Op.drafts.blind) settled rest

theorem then_probes (probes : p.All Op.probes) (settled : q.settled)
    (rest : ∀ value, (f value).Obeys selling ends q) :
    (p >>= f).Obeys selling ends q :=
      then_drafts (probes.mono fun _ => Op.probes.drafts) settled rest

/-- The exit of the token has the lock, and no SELL of it waits for the cache. -/
def under (token : Address) (q : SellPhase) : Prop :=
  q = .locked token ∨ (∃ balance, q = .looked token balance) ∨ q = .spent token

theorem recordExit_obeys (kolName : String) (token : Address) (gasGwei : Nat) (nonce : UInt64)
    (txHash : B256)
    (walletBnb : ℚ) (broadcast : Bool) (outcome : ExitOutcome) (settled : q.settled) :
    (x.recordExit kolName token gasGwei nonce txHash walletBnb broadcast >>= fun _ =>
      .ret outcome).Obeys selling
      (fun q' _ => q' = q) q := by
  have blind : (x.recordExit kolName token gasGwei nonce txHash walletBnb broadcast).All Op.blind :=
    Proc.All.bind (all_call.2 ⟨trivial, fun _ _ => rfl⟩) fun _ =>
      all_call.2 ⟨trivial, fun _ _ => rfl⟩
  exact then_blind blind settled fun _ => rfl

/-- What a SELL leaves of the balance that the exit found. -/
theorem sub_amount (sale : Sale) : sale.holding.ourBalance - sale.amount = sale.rest := by
  have added := sale.rest_add_amount
  bv_omega

/-- A SELL that is broadcast is in the cache before the exit goes on. -/
theorem broadcastExit_obeys (kolName : String) (token : Address) (sale : Sale) (route : BuyRoute)
    (allowance : Option (Address × U256)) :
    (x.broadcastExit kolName token sale.holding sale.amount sale.full route allowance).Obeys selling
      (fun q _ => under token q) (.looked token sale.holding.ourBalance) := by
  have looked : (SellPhase.looked token sale.holding.ourBalance).settled := trivial
  have spent : (SellPhase.spent token).settled := trivial
  have held : under token (.looked token sale.holding.ourBalance) := .inr (.inl ⟨_, rfl⟩)
  have quote :=
    (x.sellCall_probes route token sale.amount).mono fun _ probes => (Op.probes.drafts probes).blind
  unfold broadcastExit
  apply (obeys_blind quote (x.sellCall_sells _ _ _) looked).bind
  rintro _ ⟨target, gasLimit, calldata⟩ ⟨rfl, -, sold, -⟩
  apply then_drafts reserveNonce_drafts looked
  intro nonce
  apply then_drafts (gasWeiAtLeast_drafts _) looked
  intro gasWei
  apply Obeys.call (not_sold looked)
  intro signed
  cases signed with
  | none => exact then_drafts resync_drafts looked fun _ => held
  | some txHash =>
      apply then_probes (ask_probes _ (by rfl)) looked
      intro walletBnb
      split
      · have sell : selling.allows (.looked token sale.holding.ourBalance)
            (.submit (x.request target 0 calldata gasLimit gasWei nonce) txHash
              (.sell ⟨sale.full, sale.holding.sized, sale.holding.route, allowance⟩)) :=
          ⟨token, sale.holding.ourBalance, sale.amount, rfl, sold, sale.amount_le⟩
        apply Obeys.call sell
        intro sent
        cases sent with
        | false =>
            exact then_drafts (q := .spent token) resync_drafts spent fun _ => .inr (.inr rfl)
        | true =>
            have leaves : selling.next (.looked token sale.holding.ourBalance)
                (.submit (x.request target 0 calldata gasLimit gasWei nonce) txHash
                  (.sell ⟨sale.full, sale.holding.sized, sale.holding.route, allowance⟩)) true =
                .sold token sale.rest := by
              show SellPhase.sold token
                  (sale.holding.ourBalance - (calldata.sold.map Prod.snd).getD 0) = _
              dsimp only at sold
              rw [sold, ← sub_amount]
              rfl
            have settles : selling.allows (.sold token sale.rest)
                (.trade (.writeBack token sale.rest sale.holding.sized)) := by
              rintro _ _ ⟨⟩
              exact ⟨rfl, rfl⟩
            rw [if_pos rfl, leaves]
            apply Obeys.call settles
            intro _
            exact (recordExit_obeys _ _ _ _ _ _ _ _ spent).mono fun _ _ same => .inr (.inr same)
      · apply Obeys.call (not_sold looked)
        intro _
        apply (recordExit_obeys _ _ _ _ _ _ _ _ looked).mono
        rintro q _ rfl
        exact held

/-- Where the exit finds a holding, it is of the balance that it looked up last. -/
theorem exitHolding_obeys (token : Address) :
    (exitHolding token).Obeys selling (fun q outcome => ∃ balance, q = .looked token balance ∧
      ∀ holding, outcome = .ok holding → holding.ourBalance = balance ∧ balance ≠ 0)
        (.locked token) := by
  have asks : ∀ {balance : U256} {f : Option U256 → Live (Except ExitOutcome Holding)},
      (∀ reply, (f reply).Obeys selling (fun q outcome => ∃ balance, q = .looked token balance ∧
        ∀ holding, outcome = .ok holding → holding.ourBalance = balance ∧ balance ≠ 0)
          (.looked token (reply.getD 0))) →
      (ask (.balanceOf token) >>= f).Obeys selling
        (fun q outcome => ∃ balance, q = .looked token balance ∧
        ∀ holding, outcome = .ok holding → holding.ourBalance = balance ∧ balance ≠ 0)
          (.looked token balance) := by
    intro balance f rest
    apply Obeys.call (not_sold (q := .looked token balance) trivial)
    intro reply
    have next : selling.next (.looked token balance) (.ask (.balanceOf token)) reply =
        .looked token (reply.getD 0) := by
      show SellPhase.looked token
          ((if token = token then some (reply.getD 0) else none).getD balance) = _
      rw [if_pos rfl, Option.getD_some]
    rw [next]
    exact rest reply
  unfold exitHolding
  apply Obeys.call (by rintro _ _ ⟨⟩)
  intro found
  have next : selling.next (.locked token) (.trade (.positionsGet token)) found =
      .looked token ((found.map fun held => held.2.tokensBought).getD 0) := if_pos rfl
  rw [next]
  cases found with
  | none =>
      apply asks
      intro reply
      dsimp only
      split
      · exact ⟨_, rfl, by simp⟩
      · rename_i some_
        have looked : (SellPhase.looked token (reply.getD 0)).settled := trivial
        apply then_probes (pickRoute_probes _ _ _) looked
        intro route
        cases route with
        | none => exact ⟨_, rfl, by simp⟩
        | some route => exact ⟨_, rfl, by rintro _ ⟨⟩; exact ⟨rfl, some_⟩⟩
  | some found =>
      obtain ⟨e, p⟩ := found
      dsimp only [Option.map_some, Option.getD_some]
      split
      · exact ⟨_, rfl, by simp⟩
      · split
        · rename_i armed
          exact ⟨_, rfl, by rintro _ ⟨⟩; exact ⟨rfl, armed.1⟩⟩
        · apply asks
          intro reply
          split
          · exact ⟨_, rfl, by simp⟩
          · rename_i some_
            exact ⟨_, rfl, by rintro _ ⟨⟩; exact ⟨rfl, some_⟩⟩

theorem exitLocked_obeys (token : Address) (kolName : String) (kolBlock : Nat) (kolAddr : Address) :
    (x.exitLocked token kolName kolBlock kolAddr).Obeys selling (fun q _ => under token q)
      (.locked token) := by
  have asks : (x.kolSellFraction kolAddr token kolBlock).Obeys selling
      (fun q value => q = .locked token ∧ True)
      (.locked token) := by
    apply Obeys.of_all (K := fun o => ∃ q, o = Op.ask q) _ _
      (kolSellFraction_asks (fun q => ⟨q, rfl⟩) kolAddr token kolBlock)
      (.any _)
    · rintro _ ⟨q, rfl⟩ other rest same
      cases same
    · rintro _ ⟨q, rfl⟩ result
      rfl
  apply asks.bind
  rintro _ fraction ⟨rfl, -⟩
  apply (exitHolding_obeys token).bind
  rintro _ outcome ⟨balance, rfl, held⟩
  have looked : (SellPhase.looked token balance).settled := trivial
  have stays : under token (.looked token balance) := .inr (.inl ⟨_, rfl⟩)
  cases outcome with
  | error outcome => exact stays
  | ok holding =>
      obtain ⟨rfl, some_⟩ := held holding rfl
      dsimp only
      by_cases rounds : decide (fraction.getD 1 ≥ x.fractions.fullAt) = false ∧
          (if decide (fraction.getD 1 ≥ x.fractions.fullAt) then holding.ourBalance
            else x.fractions.scale holding.ourBalance (fraction.getD 1)) = 0
      · rw [if_pos rounds]
        exact stays
      · rw [if_neg rounds]
        let sale := Sale.ofFraction x.fractions holding (fraction.getD 1) some_ rounds
        have approves := exitApproval_all (x := x) (P := Op.blind) (fun _ => Op.drafts.blind)
          (fun _ _ _ => ⟨trivial, fun _ _ => rfl⟩) (fun _ _ _ _ _ => ⟨trivial, fun _ _ => rfl⟩)
            token holding sale.amount
        apply then_blind approves looked
        intro allowance
        cases allowance with
        | none => exact stays
        | some allowance =>
            apply then_probes (pickRoute_probes _ _ _) looked
            exact fun route => broadcastExit_obeys kolName token sale _ allowance

/-- An exit starts and returns with no lock. -/
theorem executeExit_obeys (token : Address) (kolName : String) (kolBlock : Nat)
    (kolAddr : Address) :
    (x.executeExit token kolName kolBlock kolAddr).Obeys selling (fun q _ => q = .idle) .idle := by
  unfold executeExit
  split
  · rfl
  · apply Obeys.call (not_sold (q := .idle) trivial)
    intro _
    apply (exitLocked_obeys token kolName kolBlock kolAddr).bind
    rintro q outcome held
    have unlock : selling.allows q (.trade (.unlockExit token)) := by
      rintro other rest rfl
      rcases held with same | ⟨balance, same⟩ | same <;> cases same
    exact Obeys.call unlock fun _ => rfl

end Functions

end SerialExits

variable {w : TrailWatcher}

/-- Every task sells in the order of the phases. -/
theorem body_selling (t : Task) :
    (w.machine.body t).Obeys selling (fun q _ => q = .idle) .idle := by
  have idle : SellPhase.idle.rests := trivial
  apply (selling_roams idle).body_obeys _ _ _ _ t rfl
  · rintro token kolName kolBlock kolAddr q rfl
    exact SerialExits.executeExit_obeys token kolName kolBlock kolAddr
  · rintro decision visibility openPositions q rfl
    have plain :=
      (w.exec.execute_enters decision visibility openPositions).mono fun _ => Op.enters.plain
    exact (SerialExits.obeys_plain plain (.any _) idle).mono fun _ _ same => same.1
  · rintro token buyTxHash route entry q rfl
    have plain := (w.exec.finalizePosition_finalizes token buyTxHash route entry).mono fun _ =>
        Op.finalizes.plain
    exact (SerialExits.obeys_plain plain (.any _) idle).mono fun _ _ same => same.1
  · exact fun t q same _ => same

/-! ### Between two SELLs -/

/-- The lock that a task has in a phase. -/
def SellPhase.lock : SellPhase → Option Address
  | .idle => none
  | .locked token | .looked token _ | .sold token _ | .spent token => some token

section Runs

variable {i : Tid} {h : List w.machine.Event} {o : Op} {q : SellPhase} {token : Address}
  {balance : U256}

/-- Only taking and giving back a lock changes it. -/
theorem lock_next (takes : ∀ token, o.act ≠ .take (.exitLock token))
    (gives : ∀ token, o.act ≠ .give (.exitLock token))
    (result : o.Res) : (selling.next q o result).lock = q.lock := by
  unfold selling
  dsimp only
  split
  · exact absurd rfl (takes _)
  · exact absurd rfl (gives _)
  · split <;> rfl
  all_goals rfl

/-- A task has the lock that its phase says. -/
theorem holds_iff_lock (lawful : Lawful Op.act Resource.single h) :
    holds Op.act i h = some (.exitLock token) ↔ (selling.phase i .idle h).lock = some token := by
  induction h with
  | nil => simp [holds, Protocol.phase, SellPhase.lock]
  | cons e h ih =>
      have before := ih lawful.2.2
      by_cases own : e.tid = i
      · have allowed := lawful.1
        rw [own] at allowed
        rw [holds, Protocol.phase_own own, Protocol.phase_own own]
        obtain ⟨j, o, a, result⟩ := e
        dsimp only at allowed own ⊢
        cases kind : o.act with
        | take r =>
            have empty : holds Op.act i h = none := by simpa [Protocol.holding, kind] using allowed
            rw [Concurrent.holding_next_take kind]
            rcases act_take kind with ⟨taken, rfl, rfl⟩ | ⟨rfl, rfl⟩
            · simp [selling, SellPhase.lock]
            · rw [lock_next (by simp [kind]) (by simp [kind]), ← before, empty]
              simp
        | give r =>
            have full : holds Op.act i h = some r := by simpa [Protocol.holding, kind] using allowed
            rw [Concurrent.holding_next_give kind]
            rcases act_give kind with ⟨given, rfl, rfl⟩ | ⟨rfl, rfl⟩
            · simp [selling, SellPhase.lock]
            · rw [lock_next (by simp [kind]) (by simp [kind]), ← before, full]
              simp
        | wait =>
            rw [Concurrent.holding_next_wait kind,
              lock_next (by simp [kind]) (by simp [kind]), before]
        | pass =>
            rw [Concurrent.holding_next_pass kind,
              lock_next (by simp [kind]) (by simp [kind]), before]
      · rw [holds, Protocol.phase_other own, Protocol.phase_other own]
        exact before

/-- A task that starts to have looked a position up looks it up under the lock. -/
theorem looks {result : o.Res} (before : ∀ balance, q ≠ .looked token balance)
    (after : selling.next q o result = .looked token balance) :
    q = .locked token ∧ o = .trade (.positionsGet token) := by
  unfold selling at after
  dsimp only at after
  split at after
  case h_3 =>
    split at after
    · rename_i same
      cases after
      exact ⟨rfl, by rw [same]⟩
    · cases after
  case h_6 =>
    cases after
    exact absurd rfl (before _)
  case h_8 => exact absurd after (before _)
  all_goals cases after

/-- A task that starts to have the lock takes it. -/
theorem locks {result : o.Res} (before : q ≠ .locked token)
    (after : selling.next q o result = .locked token) :
    o = .trade (.lockExit token) := by
  unfold selling at after
  dsimp only at after
  split at after
  case h_1 =>
    cases after
    rfl
  case h_3 =>
    split at after
    · cases after
    · cases after
      exact absurd rfl before
  case h_8 => exact absurd after before
  all_goals cases after

/-- While a SELL waits for the cache nothing is allowed but to bring in what it leaves. -/
theorem settles {rest : U256} (allowed : selling.allows (.sold token rest) o) :
    ∃ sized, o = .trade (.writeBack token rest sized) := by
  unfold selling at allowed
  dsimp only at allowed
  split at allowed
  · obtain ⟨token, balance, amount, same, -⟩ := allowed
    cases same
  · obtain ⟨rfl, rfl⟩ := allowed _ _ rfl
    exact ⟨_, rfl⟩
  · exact absurd rfl (allowed token rest)

/-- The balance of an exit that has looked up what there is to sell is the one
that it found last. -/
theorem reads {result : o.Res} (after : selling.next q o result = .looked token balance) :
    balanceRead token o result = some balance ∨
    (balanceRead token o result = none ∧ q = .looked token balance) := by
  unfold selling at after
  dsimp only at after
  split at after
  case h_3 =>
    split at after
    · rename_i same
      cases after
      exact .inl (if_pos same)
    · cases after
  case h_6 other found _ _ _ _ =>
    cases read : balanceRead other o result with
    | none =>
        rw [read] at after
        cases after
        exact .inr ⟨read, rfl⟩
    | some seen =>
        rw [read] at after
        cases after
        exact .inl read
  case h_8 looked _ _ _ _ _ _ => exact (looked _ _ after).elim
  all_goals cases after

/-- The balance of the token that a task found last, in the cache or on the chain. -/
def balanceSeen (token : Address) (i : Tid) (h : List w.machine.Event) : Option U256 :=
  Machine.latest i (fun o _ result => balanceRead token o result) h

theorem balanceSeen_of_looked (phase : selling.phase i .idle h = .looked token balance) :
    balanceSeen token i h = some balance := by
  induction h with
  | nil => cases phase
  | cons e h ih =>
      by_cases own : e.tid = i
      · rw [Protocol.phase_own own] at phase
        obtain ⟨j, o, a, result⟩ := e
        subst own
        rcases reads phase with found | ⟨unread, same⟩
        · simp [balanceSeen, Machine.latest, found]
        · rw [balanceSeen, Machine.latest_none unread]
          exact ih same
      · rw [Protocol.phase_other own] at phase
        rw [balanceSeen, Machine.latest_other own]
        exact ih phase

/-- What was found before a look at the position is not what was found last. -/
theorem balanceSeen_since {later older : List w.machine.Event} {look : w.machine.Event}
    (looks : look.op = .trade (.positionsGet token)) :
    balanceSeen token look.tid (later ++ look :: older) =
      balanceSeen token look.tid (later ++ [look]) := by
  obtain ⟨i, o, a, found⟩ := look
  dsimp only at looks
  subst looks
  have read : balanceRead token (.trade (.positionsGet token)) found =
      some ((found.map fun held => held.2.tokensBought).getD 0) := if_pos rfl
  simp [balanceSeen, Machine.latest, List.findSome?_append, read]

section Pair

variable {C : w.machine.recording.Cond} {world : World} {tasks : List Task}
  {c : Config LiveSig (LiveRecorded w) Task Done}

/-- Who submits a SELL has looked the token up under its lock, and sells no more than it found. -/
theorem looked_of_sell
    (run : w.machine.recording.Run C (w.machine.recording.start (world, []) tasks) c)
    {tx : TransactionRequest} {hash : B256} {memo : ExitMemo} {sent : Submitted} {ok : Bool}
    {h older : List w.machine.Event}
    (history : c.shared.2 = h ++ ⟨i, .submit tx hash (.sell memo), sent, ok⟩ :: older)
    {amount : U256} (sells : tx.input.sold = some (token, amount)) :
    ∃ balance, selling.phase i .idle older = .looked token balance ∧
      amount.toNat ≤ balance.toNat := by
  obtain ⟨other, balance, amount', phase, same, most⟩ :=
    Machine.allowed_of_run body_selling run history
  rw [sells] at same
  cases same
  exact ⟨balance, phase, most⟩

/-- After its SELL a task has the rest to bring into the cache, if the SELL was broadcast. -/
theorem phase_sold {tx : TransactionRequest} {hash : B256} {memo : ExitMemo} {sent : Submitted}
    {ok : Bool} {past : List w.machine.Event} {amount : U256}
    (looked : selling.phase i .idle past = .looked token balance)
    (sells : tx.input.sold = some (token, amount)) :
    selling.phase i .idle (⟨i, .submit tx hash (.sell memo), sent, ok⟩ :: past) =
      if ok then .sold token (balance - amount) else .spent token := by
  generalize event : (⟨i, .submit tx hash (.sell memo), sent, ok⟩ : w.machine.Event) = e
  rw [Protocol.phase_own (by rw [← event]), looked]
  subst event
  cases ok with
  | false => rfl
  | true =>
      show SellPhase.sold token (balance - (tx.input.sold.map Prod.snd).getD 0) = _
      rw [sells]
      rfl

/-- While one task is past its SELL, no task has the token locked and unsold. -/
theorem unsold_elsewhere {past : List w.machine.Event} {ok : Bool} {rest : U256}
    (lawful : Lawful (M := w.machine) Op.act Resource.single past)
    (after : selling.phase i .idle past = if ok then .sold token rest else .spent token) (j : Tid) :
    (∀ balance, selling.phase j .idle past ≠ .looked token balance) ∧
      selling.phase j .idle past ≠ .locked token := by
  have held : holds Op.act i past = some (.exitLock token) := by
    rw [holds_iff_lock lawful, after]
    cases ok <;> rfl
  have one : Resource.single (.exitLock token) := trivial
  have apart : ∀ q : SellPhase, q.lock = some token → selling.phase j .idle past = q →
      q = if ok then .sold token rest else .spent token := by
    intro q has same
    have held' : holds Op.act j past = some (.exitLock token) := by
      rw [holds_iff_lock lawful, same]
      exact has
    obtain rfl := lawful.alone one held held'
    rw [← same, after]
  constructor
  · intro balance same
    have impossible := apart _ rfl same
    cases ok <;> cases impossible
  · intro same
    have impossible := apart _ rfl same
    cases ok <;> cases impossible

/-- A task that has looked the token up took its lock and then looked, since it had neither. -/
theorem exists_look {past between : List w.machine.Event} {j : Tid}
    (unlooked : ∀ balance, selling.phase j .idle past ≠ .looked token balance)
    (unlocked : selling.phase j .idle past ≠ .locked token)
    (looked : selling.phase j .idle (between ++ past) = .looked token balance) :
    ∃ later look middle lock before, between = later ++ look :: (middle ++ lock :: before) ∧
      (lock.tid = j ∧ lock.op = .trade (.lockExit token)) ∧
      (look.tid = j ∧ look.op = .trade (.positionsGet token)) := by
  obtain ⟨later, look, rest, rfl, rfl, unlooked', looked'⟩ :=
    Machine.exists_turn (R := fun q => ∀ balance, q ≠ SellPhase.looked token balance) unlooked
      fun never => never balance looked
  obtain ⟨found, looked'⟩ := not_forall_not.1 looked'
  rw [Protocol.phase_own rfl] at looked'
  obtain ⟨locked, looks⟩ := looks unlooked' looked'
  obtain ⟨middle, lock, before, rfl, own, unlocked', locked'⟩ :=
    Machine.exists_turn (R := fun q => q ≠ SellPhase.locked token) unlocked (not_not.2 locked)
  rw [Protocol.phase_own own, not_not] at locked'
  exact ⟨later, look, middle, lock, before, rfl, ⟨own, locks unlocked' locked'⟩, rfl, looks⟩

/-- A task that gives the lock back after its SELL has brought the rest into the cache before. -/
theorem exists_writeBack
    (run : w.machine.recording.Run C (w.machine.recording.start (world, []) tasks) c)
    {newest earlier past : List w.machine.Event} {unlock : w.machine.Event} {rest : U256}
    (history : c.shared.2 = newest ++ unlock :: (earlier ++ past))
    (gives : unlock.op = .trade (.unlockExit token))
    (sold : selling.phase unlock.tid .idle past = .sold token rest) :
    ∃ write ∈ earlier, write.tid = unlock.tid ∧
      ∃ sized, write.op = .trade (.writeBack token rest sized) := by
  have settled : selling.phase unlock.tid .idle (earlier ++ past) ≠ .sold token rest := by
    have released := Machine.allowed_of_run body_selling run history
    rw [gives] at released
    exact released token rest
  obtain ⟨after, write, before, rfl, own, unsettled, -⟩ :=
    Machine.exists_turn (R := fun q => q = SellPhase.sold token rest) sold settled
  have there : c.shared.2 = (newest ++ unlock :: after) ++ write :: (before ++ past) := by
    rw [history]
    simp
  have writes := Machine.allowed_of_run body_selling run there
  rw [own, unsettled] at writes
  exact ⟨write, by simp, own, settles writes⟩

/-- Between two SELLs of one token, whoever submits them, the first brings into the cache what it
left of the balance it was sized against, if it was broadcast, and gives the lock back. Only then
the second takes the lock and looks up what there is to sell, and it sells no more than it finds. -/
theorem exits_are_serial (unlocked : ∀ token, world.trade.exitLocks token = none)
    (run : w.machine.recording.Run C (w.machine.recording.start (world, []) tasks) c) {i j : Tid}
    {tx₁ tx₂ : TransactionRequest} {hash₁ hash₂ : B256} {memo₁ memo₂ : ExitMemo}
    {sent₁ sent₂ : Submitted} {ok₁ ok₂ : Bool} {newer between older : List w.machine.Event}
    (history : c.shared.2 = newer ++ ⟨j, .submit tx₂ hash₂ (.sell memo₂), sent₂, ok₂⟩ ::
      (between ++ ⟨i, .submit tx₁ hash₁ (.sell memo₁), sent₁, ok₁⟩ :: older))
    {amount₁ amount₂ : U256} (first : tx₁.input.sold = some (token, amount₁))
    (second : tx₂.input.sold = some (token, amount₂)) :
    ∃ later look middle lock inner unlock earlier,
      between = later ++ look :: (middle ++ lock :: (inner ++ unlock :: earlier)) ∧
      (∃ balance, balanceSeen token i older = some balance ∧ amount₁.toNat ≤ balance.toNat ∧
        (ok₁ = true → ∃ write ∈ earlier, write.tid = i ∧ ∃ rest sized,
          write.op = .trade (.writeBack token rest sized) ∧
          rest.toNat + amount₁.toNat = balance.toNat)) ∧
      (unlock.tid = i ∧ unlock.op = .trade (.unlockExit token)) ∧
      (lock.tid = j ∧ lock.op = .trade (.lockExit token)) ∧
      (look.tid = j ∧ look.op = .trade (.positionsGet token)) ∧
      ∃ balance, balanceSeen token j (later ++ [look]) = some balance ∧
        amount₂.toNat ≤ balance.toNat := by
  have lawful : ∀ {newer past}, c.shared.2 = newer ++ past →
      Lawful (M := w.machine) Op.act Resource.single past := by
    intro newer past split_
    have whole := (heldAccount_of_run unlocked run).lawful
    rw [split_] at whole
    exact whole.of_append
  have past : c.shared.2 = (newer ++ ⟨j, .submit tx₂ hash₂ (.sell memo₂), sent₂, ok₂⟩ :: between) ++
      ⟨i, .submit tx₁ hash₁ (.sell memo₁), sent₁, ok₁⟩ :: older := by
    rw [history, List.append_assoc, List.cons_append]
  obtain ⟨balance₁, looked₁, most₁⟩ := looked_of_sell run past first
  obtain ⟨balance₂, looked₂, most₂⟩ := looked_of_sell run history second
  have after₁ : selling.phase i .idle (⟨i, .submit tx₁ hash₁ (.sell memo₁), sent₁, ok₁⟩ :: older) =
      if ok₁ then .sold token (balance₁ - amount₁) else .spent token := phase_sold looked₁ first
  generalize event : (⟨i, .submit tx₁ hash₁ (.sell memo₁), sent₁, ok₁⟩ : w.machine.Event) = e₁
    at history looked₂ past after₁
  obtain ⟨unlooked, unlocked₂⟩ := unsold_elsewhere (lawful past) after₁ j
  obtain ⟨later, look, middle, lock, before, rfl, ⟨own, takes⟩, rfl, looks⟩ :=
    exists_look unlooked unlocked₂ looked₂
  -- the lock that is taken again has been given back
  have there : c.shared.2 = (newer ++ ⟨look.tid, .submit tx₂ hash₂ (.sell memo₂), sent₂, ok₂⟩ ::
      later ++ look :: middle) ++ (lock :: (before ++ e₁ :: older)) := by
    rw [history]
    simp
  have held₁ : holds Op.act i (e₁ :: older) = some (.exitLock token) := by
    rw [holds_iff_lock (lawful past), after₁]
    cases ok₁ <;> rfl
  have one : Resource.single (.exitLock token) := trivial
  have act : Op.act lock.op = .take (.exitLock token) := by rw [takes]; rfl
  obtain ⟨inner, unlock, earlier, rfl, rfl, gives⟩ := (lawful there).given_back one act held₁
  rcases act_give gives with ⟨_, gives, same⟩ | ⟨-, same⟩
  · cases same
    have seen₂ := balanceSeen_of_looked looked₂
    rw [List.append_assoc, List.cons_append, balanceSeen_since looks] at seen₂
    refine ⟨later, look, middle, lock, inner, unlock, earlier, rfl,
      ⟨balance₁, balanceSeen_of_looked looked₁, most₁, ?_⟩, ⟨rfl, gives⟩, ⟨own, takes⟩,
      ⟨rfl, looks⟩, balance₂, seen₂, most₂⟩
    rintro rfl
    have returned : c.shared.2 =
        (newer ++ ⟨look.tid, .submit tx₂ hash₂ (.sell memo₂), sent₂, ok₂⟩ :: later ++
          look :: (middle ++ lock :: inner)) ++ unlock :: (earlier ++ e₁ :: older) := by
      rw [history]
      simp
    obtain ⟨write, member, wrote, sized, writes⟩ := exists_writeBack run returned gives after₁
    exact ⟨write, member, wrote, _, sized, writes, by bv_omega⟩
  · cases same

end Pair

end Runs

/-- The SELL that an operation submits: who submits it, what and how much it sells, and
whether it is broadcast. -/
def sellOf (e : w.machine.Event) : Option (Tid × Address × Nat × Bool) :=
  match e with
  | ⟨i, .submit tx _ (.sell _), _, ok⟩ =>
      tx.input.sold.map fun sold => (i, sold.1, sold.2.toNat, ok)
  | _ => none

theorem eq_of_sellOf {e : w.machine.Event} {i : Tid} {token : Address} {n : Nat} {ok : Bool}
    (sells : sellOf e = some (i, token, n, ok)) :
    ∃ tx hash memo sent amount, e = ⟨i, .submit tx hash (.sell memo), sent, ok⟩ ∧
      tx.input.sold = some (token, amount) ∧ amount.toNat = n := by
  unfold sellOf at sells
  split at sells
  · obtain ⟨⟨_, amount⟩, sold, same⟩ := Option.map_eq_some_iff.1 sells
    cases same
    exact ⟨_, _, _, _, amount, rfl, sold, rfl⟩
  · cases sells

/-- The KOL sells half of what it has, and then all of it: two exits of one token, one after the
other. The first writes back what is left of the balance it found, less the half it sold. -/
theorem exits_are_serial_halves : ∃ c : Config LiveSig (LiveRecorded (scenario false)) Task Done,
    (scenario false).machine.recording.Run (scenario false).machine.recording.anyStep
      ((scenario false).machine.recording.start (armedWorld, [])
        [.executeExit scenarioToken "D" 1 1, .executeExit scenarioToken "D" 0 0]) c ∧
    c.shared.2.filterMap sellOf = [(1, scenarioToken, 500, true), (0, scenarioToken, 500, true)] ∧
    (∃ e ∈ c.shared.2, e.tid = 0 ∧ e.op = .trade (.unlockExit scenarioToken)) ∧
    ∃ older balance, older <:+ c.shared.2 ∧ balanceSeen scenarioToken 0 older = some balance ∧
      ∃ e ∈ c.shared.2, e.tid = 0 ∧ ∃ rest sized,
        e.op = .trade (.writeBack scenarioToken rest sized) ∧
        rest.toNat + 500 = balance.toNat := by
  let half : Replies := { balanceAt := fun block => if block = 0 then some 100 else some 50 }
  let full : Replies := {}
  obtain ⟨c, run, sold⟩ : ∃ c, (scenario false).machine.recording.Run
      (scenario false).machine.recording.anyStep
      ((scenario false).machine.recording.start (armedWorld, [])
        [.executeExit scenarioToken "D" 1 1, .executeExit scenarioToken "D" 0 0]) c ∧
      c.shared.2.filterMap sellOf =
        [(1, scenarioToken, 500, true), (0, scenarioToken, 500, true)] :=
    Machine.exists_run_of_follow (C := (scenario false).machine.recording.anyStep)
      [(0, 19, half.ans), (1, 17, full.ans)]
      (by decide +kernel)
  obtain ⟨newer, e₂, rest, split₂, -, sells₂, others⟩ := List.filterMap_eq_cons_iff.1 sold
  obtain ⟨between, e₁, older, rfl, -, sells₁, -⟩ := List.filterMap_eq_cons_iff.1 others
  have past : older <:+ c.shared.2 := by
    rw [split₂]
    have before := (List.suffix_cons e₁ older).trans (List.suffix_append between _)
    exact (before.trans (List.suffix_cons e₂ _)).trans (List.suffix_append newer _)
  obtain ⟨tx₂, hash₂, memo₂, sent₂, amount₂, rfl, second, -⟩ := eq_of_sellOf sells₂
  obtain ⟨tx₁, hash₁, memo₁, sent₁, amount₁, rfl, first, half_⟩ := eq_of_sellOf sells₁
  obtain ⟨later, look, middle, lock, inner, unlock, earlier, rfl, ⟨balance, seen, -, writes⟩,
      unlocks, -⟩ :=
    exits_are_serial (fun _ => rfl) run split₂ first second
  obtain ⟨write, member, own, rest, sized, wrote, left⟩ := writes rfl
  refine ⟨c, run, sold, ⟨unlock, ?_, unlocks⟩, older, balance, past, seen, write, ?_, own, rest,
    sized, wrote, ?_⟩
  · simp [split₂]
  · simp [split₂, member]
  · rw [← half_]
    exact left

end BscMempool.Trader
