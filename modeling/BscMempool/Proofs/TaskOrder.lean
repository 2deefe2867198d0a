/-
Module: BscMempool.Proofs.TaskOrder
Layer: Proofs
Purpose: What the tasks of the trader keep of a protocol if their entries, exits and finalize tasks
  keep it. Around them a task only asks, looks up positions and trail states, and starts visits and
  waits for them. An entry keeps it if its gates, its quote, its signing and its broadcast do.
Trusted boundary: none
Main exports: LiveExecutor.broadcastEntry_obeys_of, LiveExecutor.execute_obeys_of, Op.roams, Roams,
  Roams.exitLocked_obeys, Roams.consume_obeys, Roams.processOnePosition_obeys, Roams.body_obeys
-/
import BscMempool.Concurrent.Protocol
import BscMempool.Proofs.TaskOps

namespace BscMempool.Trader

open Concurrent (Protocol Proc)
open Concurrent.Proc
open LiveExecutor

/-- What tasks do around entries, exits and finalizing.  They sign nothing there. -/
def Op.roams : Op → Prop
  | .ask _ | .trade (.positionsGet _) | .trade (.loadEntry _) | .trade .positionSnapshot | .join _
  | .spawn (.processOnePosition ..) | .env .openCount | .env .ledgerRows | .env (.trailGet _)
  | .env (.trailInsert ..) | .env (.trailRemove _) | .env (.trailExit ..) => True
  | o => o.light

theorem Op.light.roams {o : Op} (light : o.light) : o.roams := by
  unfold Op.roams
  split <;> trivial

/-- A BUY behind its gates obeys an order that looks at nothing but its quote, its signing and its
    broadcast: `ready` is what the quote leaves of the call it is to sign. -/
theorem LiveExecutor.broadcastEntry_obeys_of {Q : Type} {P : Protocol LiveSig Q} {x : LiveExecutor}
    {kolName visibility : String} {token : Address} {entry : Entry}
    {ready : Q → Address × Nat × Calldata → Prop} {q : Q}
    (quotes : (x.buyCall entry.route token entry.bnbAmount).Obeys P ready q)
    (reserves : x.reserveNonce.All P.Still)
    (signs : ∀ q target gasLimit calldata nonce, ready q (target, gasLimit, calldata) →
      P.allows q (.sign (x.request target entry.bnbAmount calldata gasLimit entry.gasWei nonce)))
    (submits : ∀ q target gasLimit calldata nonce signed txHash,
      ready q (target, gasLimit, calldata) →
      P.allows (P.next q
        (.sign (x.request target entry.bnbAmount calldata gasLimit entry.gasWei nonce)) signed)
        (.submit (x.request target entry.bnbAmount calldata gasLimit entry.gasWei nonce)
          txHash .buy))
    (resync : NonceManager.resync.All P.Free) (asks : P.Free (.ask .bnbUsd))
    (records : ∀ nonce txHash broadcast,
      (x.recordEntry kolName visibility token entry nonce txHash broadcast).All P.Free)
    (opens : ∀ txHash, P.Free (.trade (.openPosition token entry.route entry.bnbAmount txHash)))
    (shadows : ∀ tx, P.Free (.shadow tx)) :
    (x.broadcastEntry kolName visibility token entry).Obeys P (fun _ _ => True) q := by
  unfold broadcastEntry
  apply quotes.bind
  rintro q ⟨target, gasLimit, calldata⟩ isReady
  apply P.kinds.then_still reserves
  intro nonce
  apply Obeys.call (signs q target gasLimit calldata nonce isReady)
  intro signed
  cases signed with
  | none => exact P.kinds.then_free resync fun _ _ => trivial
  | some txHash =>
      dsimp only
      split
      · apply Obeys.call (submits q target gasLimit calldata nonce _ txHash isReady)
        intro sent
        cases sent with
        | false => exact P.kinds.then_free resync fun _ _ => trivial
        | true =>
            apply P.kinds.then_free (all_call.2 asks)
            intro q bnbUsd
            apply P.kinds.then_free (records _ _ _)
            intro q _
            exact P.kinds.then_free (all_call.2 (opens txHash)) fun _ _ => trivial
      · apply P.kinds.then_free (all_call.2 (shadows _))
        intro q _
        exact P.kinds.then_free (records _ _ _) fun _ _ => trivial

/-- A call of `execute` obeys an order that looks at nothing in front of the gates: `R` is what they
    leave of the entry to broadcast. -/
theorem LiveExecutor.execute_obeys_of {Q : Type} {P : Protocol LiveSig Q} {x : LiveExecutor}
    {R : Q → Address → Entry → Prop}
    (looksUp : ∀ token, P.Free (.trade (.positionsGet token)))
    (drops : ∀ token, P.Free (.trade (.positionsRemove token)))
    (sizes : ∀ o : Op, o.mild → P.Free o)
    (gates : ∀ kolName visibility token bnbAmount openPositions q,
      (x.entryGates kolName visibility token bnbAmount openPositions).Obeys P
        (fun q gated => ∀ entry, gated = .ok entry → R q token entry) q)
    (broadcasts : ∀ kolName visibility token entry q, R q token entry →
      (x.broadcastEntry kolName visibility token entry).Obeys P (fun _ _ => True) q)
    (decision : Decision) (visibility : String) (openPositions : Nat) (q : Q) :
    (x.execute decision visibility openPositions).Obeys P (fun _ _ => True) q := by
  cases decision with
  | enter kolName token bnbAmount kolBnbInput kolBlock kolTx =>
      apply P.kinds.then_free (dupGuard_all (looksUp token) (drops token))
      intro q duplicate
      split
      · trivial
      · apply P.kinds.then_free ((x.sizeByUsd_mild _ _).mono sizes)
        intro q size
        cases size with
        | none => trivial
        | some bnbAmount =>
            apply (gates kolName visibility token bnbAmount openPositions q).bind
            intro q gated isReady
            cases gated with
            | error reason => trivial
            | ok entry => exact broadcasts _ _ _ _ q (isReady entry rfl)
  | _ => trivial

/-- The phases in which a task may roam, and which it then stays in. -/
structure Roams {Q : Type} (P : Protocol LiveSig Q) (J : Q → Prop) : Prop where
  allowed : ∀ q o, J q → o.roams → P.allows q o
  kept : ∀ q o, J q → o.roams → ∀ result, J (P.next q o result)

namespace Roams

variable {Q : Type} {P : Protocol LiveSig Q} {J : Q → Prop} {q : Q}

/-- Where roaming is free a task may roam in every phase. -/
theorem of_free (free : ∀ o : Op, o.roams → P.Free o) : Roams P fun _ => True where
  allowed q o _ kind := free o kind q
  kept _ _ _ _ _ := trivial

section Sequences

variable {α β : Type} {ends : Q → β → Prop}

theorem obeys (roams : Roams P J) {p : Live α} (all : p.All Op.roams) (now : J q) :
    p.Obeys P (fun q' _ => J q') q :=
  Obeys.of_kept roams.allowed roams.kept all now

/-- What follows operations around the rest goes on from such a phase. -/
theorem after (roams : Roams P J) {p : Live α} {f : α → Live β} (all : p.All Op.roams)
    (rest : ∀ q value, J q → (f value).Obeys P ends q) (now : J q) : (p >>= f).Obeys P ends q :=
  (roams.obeys all now).bind rest

theorem mild (roams : Roams P J) {p : Live α} {f : α → Live β} (all : p.All Op.mild)
    (rest : ∀ q value, J q → (f value).Obeys P ends q) (now : J q) : (p >>= f).Obeys P ends q :=
  roams.after (all.mono fun _ mild => Op.light.roams (.inl mild)) rest now

theorem call (roams : Roams P J) {o : Op} {f : o.Res → Live β} (kind : o.roams)
    (rest : ∀ q result, J q → (f result).Obeys P ends q) (now : J q) :
    (Proc.call o >>= f).Obeys P ends q :=
  roams.after (all_call.2 kind) rest now

end Sequences

/-- An exit under the lock keeps what its approval and its broadcast keep. -/
theorem exitLocked_obeys (roams : Roams P J) {x : LiveExecutor} (token : Address) (kolName : String)
    (approval : ∀ holding balance q, J q →
      (x.exitApproval token holding balance).Obeys P (fun q' _ => J q') q)
    (broadcast : ∀ holding balance isFullClose route allowance q, J q →
      (x.broadcastExit kolName token holding balance isFullClose route allowance).Obeys P
        (fun q' _ => J q') q)
    (kolBlock : Nat) (kolAddr : Address) (now : J q) :
    (x.exitLocked token kolName kolBlock kolAddr).Obeys P (fun q' _ => J q') q := by
  apply roams.after (kolSellFraction_asks (fun _ => trivial) kolAddr token kolBlock) _ now
  intro q fraction now
  apply roams.after (exitHolding_ops trivial fun _ mild => Op.light.roams (.inl mild)) _ now
  intro q held now
  cases held with
  | error outcome => exact now
  | ok holding =>
      dsimp only
      by_cases rounds : decide (fraction.getD 1 ≥ x.fractions.fullAt) = false ∧
          (if decide (fraction.getD 1 ≥ x.fractions.fullAt) then holding.ourBalance
            else x.fractions.scale holding.ourBalance (fraction.getD 1)) = 0
      · rw [if_pos rounds]
        exact now
      · rw [if_neg rounds]
        apply (approval _ _ q now).bind
        intro q allowance now
        cases allowance with
        | none => exact now
        | some allowance =>
            apply roams.mild (pickRoute_mild _ _ _) _ now
            exact fun q route now => broadcast _ _ _ _ _ q now

section Tasks

variable {w : TrailWatcher} (roams : Roams P J)
  (exits : ∀ token kolName kolBlock kolAddr q, J q →
    (w.exec.executeExit token kolName kolBlock kolAddr).Obeys P (fun q' _ => J q') q)
include roams exits

theorem consume_obeys (enters : ∀ decision visibility openPositions q, J q →
      (w.exec.execute decision visibility openPositions).Obeys P (fun q' _ => J q') q)
    (trailActive : Bool) (decisions : List (Decision × String)) (now : J q) :
    (w.consume trailActive decisions).Obeys P (fun q' _ => J q') q := by
  induction decisions generalizing q with
  | nil => exact now
  | cons decided rest ih =>
      obtain ⟨decision, visibility⟩ := decided
      cases decision with
      | skip reason => exact ih now
      | enter kolName token bnbAmount kolBnbInput kolBlock kolTx =>
          apply roams.call (o := .env .openCount) trivial _ now
          intro q openPositions now
          exact (enters _ _ _ q now).bind fun _ _ now => ih now
      | exit kolName token kolBlock kolTx kolAddr =>
          cases trailActive with
          | true => exact ih now
          | false => exact (exits _ _ _ _ q now).bind fun _ _ now => ih now

theorem fireExit_obeys (token : Address) (reason : String) (state : TrailState) (blockN : Nat)
    (now : J q) :
    (w.fireExit token reason state blockN).Obeys P (fun q' _ => J q') q := by
  apply roams.call (o := .env (.trailExit token reason state blockN)) trivial _ now
  intro q _ now
  apply (exits _ _ _ _ q now).bind
  exact fun q outcome now => roams.obeys (all_call.2 trivial) now

theorem observePosition_obeys (token : Address) (state : TrailState) (blockN : Nat) (now : J q) :
    (w.observePosition token state blockN).Obeys P (fun q' _ => J q') q := by
  apply roams.mild (getLatestPriceCached_mild _ _ _) _ now
  intro q price now
  cases price with
  | none =>
      dsimp only
      split
      · exact fireExit_obeys roams exits _ _ _ _ now
      · exact now
  | some currentPrice =>
      apply roams.mild (votedOut_mild _ _ _) _ now
      intro q voted now
      split
      · exact fireExit_obeys roams exits _ _ _ _ now
      · split
        · exact fireExit_obeys roams exits _ _ _ _ now
        · exact roams.obeys (all_call.2 trivial) now

theorem processOnePosition_obeys (token : Address) (entry : EntryId) (blockN : Nat) (now : J q) :
    (w.processOnePosition token entry blockN).Obeys P (fun q' _ => J q') q := by
  apply roams.call (o := .trade (.loadEntry entry)) trivial _ now
  intro q p now
  split
  · exact now
  · apply roams.call (o := .env (.trailGet token)) trivial _ now
    intro q known now
    cases known with
    | some state => exact observePosition_obeys roams exits token state blockN now
    | none =>
        apply roams.after (initStateFromLedger_ops trivial (fun _ => trivial) token blockN) _ now
        intro q state now
        cases state with
        | none => exact now
        | some state =>
            apply roams.call (o := .env (.trailInsert token state)) trivial _ now
            exact fun q _ now => observePosition_obeys roams exits token state blockN now

/-- A task ends as its finalizing does, if it is a finalize task, and in such a phase otherwise. -/
theorem body_obeys {ends : Task → Q → Prop} (enters : ∀ decision visibility openPositions q, J q →
      (w.exec.execute decision visibility openPositions).Obeys P (fun q' _ => J q') q)
    (finalizes : ∀ token buyTxHash route entry q, J q →
      (w.exec.finalizePosition token buyTxHash route entry).Obeys P
        (fun q' _ => ends (.finalizePosition token buyTxHash route entry) q') q)
    (others : ∀ t q, J q →
      (∀ token buyTxHash route entry, t ≠ .finalizePosition token buyTxHash route entry) →
      ends t q)
    (t : Task) (now : J q) : (w.machine.body t).Obeys P (fun q' _ => ends t q') q := by
  have light : ∀ {α : Type} {p : Live α} {f : α → Done}, p.All Op.light → (∀ q, J q → ends t q) →
      (p >>= fun value => .ret (f value)).Obeys P (fun q' _ => ends t q') q :=
    fun all done => roams.after (all.mono fun _ => Op.light.roams) (fun q _ now => done q now) now
  cases t with
  | consumer trailActive decisions =>
      apply (consume_obeys roams exits enters trailActive decisions now).bind
      exact fun q _ now => others _ q now nofun
  | execute decision visibility openPositions =>
      apply (enters decision visibility openPositions q now).bind
      exact fun q _ now => others _ q now nofun
  | executeExit token kolName kolBlock kolAddr =>
      apply (exits token kolName kolBlock kolAddr q now).bind
      exact fun q _ now => others _ q now nofun
  | finalizePosition token buyTxHash route entry =>
      exact (finalizes token buyTxHash route entry q now).bind fun _ _ done => done
  | persistNonce n => exact light (all_call.2 (.inr trivial)) fun q now => others _ q now nofun
  | reserve =>
      exact light (reserveNonce_reserves.mono fun _ => .inr) fun q now => others _ q now nofun
  | resync => exact light resync_light fun q now => others _ q now nofun
  | trailWatcher blocks =>
      apply roams.after (runLoop_ops trivial (fun _ => trivial) (fun _ _ _ => trivial) blocks) _ now
      exact fun q _ now => others _ q now nofun
  | processOnePosition token entry blockN =>
      apply (processOnePosition_obeys roams exits token entry blockN now).bind
      exact fun q _ now => others _ q now nofun

end Tasks

end Roams

end BscMempool.Trader
