/-
Module: BscMempool.Proofs.SwapSlippage
Layer: Proofs
Purpose: When a V2 swap of the live trader is protected against slippage. Its smallest output is a
  haircut of the quote asked for just before; a quote that was not obtained counts as zero, so its
  swap is signed all the same, with no protection at all.
Trusted boundary: none
Main exports: Swap, Quote, SignedSwap, signedSwaps, SignedSwap.Protected, SignedSwap.Quoted,
  swaps_protected_iff, swaps_without_quote
-/
import BscMempool.Concurrent.Protocol
import BscMempool.Proofs.BasisPoints
import BscMempool.Proofs.Scenario
import BscMempool.Proofs.TaskOrder

namespace BscMempool.Trader

open Concurrent (Tid Machine Outcome Config Protocol Proc)
open Concurrent.Proc
open LiveExecutor

/-- What a transaction swaps on the V2 router. -/
structure Swap where
  amountIn : U256
  path : List Address
  amountOutMin : U256
deriving DecidableEq, Repr

/-- A BUY swaps the value it is sent with. -/
def TransactionRequest.swap (tx : TransactionRequest) : Option Swap :=
  match tx.input with
  | .swapExactETHForTokens amountOutMin path _ _ => some ⟨tx.value, path, amountOutMin⟩
  | .swapExactTokensForETH amountIn amountOutMin path _ _ => some ⟨amountIn, path, amountOutMin⟩
  | _ => none

/-- A call of `get_amounts_out_v2` and what it returned. -/
structure Quote where
  amountIn : U256
  path : List Address
  reply : Option U256
deriving DecidableEq, Repr

/-- The swap's smallest output is the haircut of a quote for what it swaps; one that
failed counts as zero. -/
def Swap.Follows (swap : Swap) (slippageBps : Nat) (quote : Option Quote) : Prop :=
  ∃ reply, quote = some ⟨swap.amountIn, swap.path, reply⟩ ∧
    swap.amountOutMin = applySlippage (reply.getD 0) slippageBps

/-- A swap is signed with the smallest output that follows from the quote its
task asked for last. -/
def quoteOrder (x : LiveExecutor) : Protocol LiveSig (Option Quote) where
  allows
    | quote, .sign tx =>
        ∀ swap, tx.swap = some swap → swap.Follows x.config.limits.slippageBps quote
    | _, _ => True
  next
    | _, .ask (.getAmountsOut amountIn path), reply => some ⟨amountIn, path, reply⟩
    | quote, _, _ => quote

variable {w : TrailWatcher}

/-- The quote that the task at `i` asked for last. -/
def lastQuote (i : Tid) (h : List w.machine.Event) : Option Quote :=
  (quoteOrder w.exec).phase i none h

/-- A swap that was signed, and the quote that its task had asked for last. -/
structure SignedSwap where
  swap : Swap
  quote : Option Quote
deriving DecidableEq, Repr

/-- The swaps that were signed, latest first. -/
def signedSwaps : List w.machine.Event → List SignedSwap
  | [] => []
  | ⟨i, .sign tx, _, some _⟩ :: older =>
      match tx.swap with
      | some swap => ⟨swap, lastQuote i older⟩ :: signedSwaps older
      | none => signedSwaps older
  | _ :: older => signedSwaps older

/-- The quotes that were asked for, latest first. -/
def quotes : List w.machine.Event → List Quote
  | [] => []
  | ⟨_, .ask (.getAmountsOut amountIn path), _, reply⟩ :: older =>
      ⟨amountIn, path, reply⟩ :: quotes older
  | _ :: older => quotes older

/-- A quote for exactly this amount and path was returned, and the smallest output is its share that
is left after the slippage. -/
def SignedSwap.Protected (slippageBps : Nat) (signed : SignedSwap) : Prop :=
  ∃ q : U256, q ≠ 0 ∧ signed.quote = some ⟨signed.swap.amountIn, signed.swap.path, some q⟩ ∧
    signed.swap.amountOutMin.toNat = q.toNat * (10000 - slippageBps) / 10000

/-- The quote that was asked for last was returned, and its haircut does not leave 256 bits. -/
def SignedSwap.Quoted (slippageBps : Nat) (signed : SignedSwap) : Prop :=
  ∃ quote q, signed.quote = some quote ∧ quote.reply = some q ∧ q ≠ 0 ∧
    (slippageBps = 0 ∨ q.toNat * (10000 - slippageBps) < 2 ^ 256)

namespace SwapSlippage

/-! ### The haircut -/

/-- A swap that follows a quote is protected by it exactly if the quote is there
and its haircut fits. -/
theorem protected_iff {slippageBps : Nat} (below : slippageBps < 10000) {signed : SignedSwap}
    (follows : signed.swap.Follows slippageBps signed.quote) :
    signed.Protected slippageBps ↔ signed.Quoted slippageBps := by
  obtain ⟨reply, asked, least⟩ := follows
  have exact_ : ∀ q : U256, (applySlippage q slippageBps).toNat = q.toNat *
      (10000 - slippageBps) / 10000 ↔
      slippageBps = 0 ∨ q.toNat * (10000 - slippageBps) < 2 ^ 256 := by
    intro q
    have share := applySlippage_exact_iff q (Nat.sub_le 10000 slippageBps)
    rw [Nat.sub_sub_self below.le] at share
    have whole : 10000 - slippageBps = 10000 ↔ slippageBps = 0 := by omega
    rwa [exactShare, whole] at share
  constructor
  · rintro ⟨q, positive, quoted, share⟩
    rw [asked] at quoted
    cases quoted
    rw [least] at share
    exact ⟨_, q, asked, rfl, positive, (exact_ q).mp share⟩
  · rintro ⟨quote, q, same, isReply, positive, fits⟩
    rw [asked] at same
    cases same
    cases isReply
    have share := (exact_ q).mpr fits
    exact ⟨q, positive, asked, by rw [least]; exact share⟩

/-! ### Kinds of operations -/

section Kinds

variable {x : LiveExecutor} {o : Op}

/-- What signs no swap may be signed at any time. -/
theorem free_of_sign {tx : TransactionRequest} (other : tx.swap = none) :
    (quoteOrder x).Free (.sign tx) := by
  intro quote swap isSwap
  rw [other] at isSwap
  cases isSwap

theorem free_of_calm (calm : o.calm) : (quoteOrder x).Free o := by
  cases o with
  | sign tx => exact calm.elim
  | _ => exact fun _ => trivial

theorem still_of_reserves (reserves : o.reserves) : (quoteOrder x).Still o := by
  cases o with
  | ask | sign => exact reserves.elim
  | _ => exact ⟨fun _ => trivial, fun _ _ => rfl⟩

theorem free_of_roams (roams : o.roams) : (quoteOrder x).Free o := by
  unfold Op.roams at roams
  split at roams
  case h_13 =>
    rcases roams with mild | reserves
    · exact free_of_calm mild.calm
    · exact (still_of_reserves reserves).1
  all_goals exact fun _ => trivial

theorem quoteOrder_roams : Roams (quoteOrder x) fun _ => True := .of_free fun _ => free_of_roams

end Kinds

/-! ### Functions -/

section Functions

variable {x : LiveExecutor} {quote : Option Quote}

theorem gasWeiAtLeast_still (floor : U128) : (gasWeiAtLeast floor).All (quoteOrder x).Still :=
  gasWeiAtLeast_all ⟨fun _ => trivial, fun _ _ => rfl⟩ ⟨fun _ => trivial, fun _ _ => rfl⟩
    (fun _ => ⟨fun _ => trivial, fun _ _ => rfl⟩) floor

theorem reserveNonce_still : x.reserveNonce.All (quoteOrder x).Still :=
  reserveNonce_reserves.mono fun _ => still_of_reserves

theorem resync_free : NonceManager.resync.All (quoteOrder x).Free := by
  apply resync_light.mono
  intro o light
  exact free_of_roams (Op.light.roams light)

/-- A transaction with this value and input may be signed now. -/
def Signable (x : LiveExecutor) (quote : Option Quote) (value : U256) (input : Calldata) : Prop :=
  ∀ tx : TransactionRequest, tx.value = value → tx.input = input →
    (quoteOrder x).allows quote (.sign tx)

theorem signable_of_no_swap {value : U256} {input : Calldata}
    (none_ : ∀ tx : TransactionRequest, tx.input = input → tx.swap = none) :
    Signable x quote value input := by
  intro tx _ isInput
  exact free_of_sign (none_ tx isInput) quote

/-- A BUY's calldata follows from the quote it has just asked for. -/
theorem buyCall_obeys (route : BuyRoute) (token : Address) (bnbAmount : U256) :
    (x.buyCall route token bnbAmount).Obeys (quoteOrder x)
      (fun quote call => Signable x quote bnbAmount call.2.2) quote := by
  cases route with
  | fourMeme =>
      apply signable_of_no_swap
      intro tx isInput
      simp [TransactionRequest.swap, isInput]
  | pancakeV2 =>
      apply Obeys.call trivial
      intro now
      apply Obeys.call trivial
      intro reply tx isValue isInput swap isSwap
      simp only [TransactionRequest.swap, isInput, isValue, Option.some.injEq] at isSwap
      subst isSwap
      exact ⟨reply, rfl, rfl⟩

/-- So does a SELL's. -/
theorem sellCall_obeys (route : BuyRoute) (token : Address) (balance value : U256) :
    (x.sellCall route token balance).Obeys (quoteOrder x)
      (fun quote call => Signable x quote value call.2.2) quote := by
  cases route with
  | fourMeme =>
      apply signable_of_no_swap
      intro tx isInput
      simp [TransactionRequest.swap, isInput]
  | pancakeV2 =>
      apply Obeys.call trivial
      intro now
      apply Obeys.call trivial
      intro reply tx _ isInput swap isSwap
      simp only [TransactionRequest.swap, isInput, Option.some.injEq] at isSwap
      subst isSwap
      exact ⟨reply, rfl, rfl⟩

theorem broadcastEntry_obeys (kolName visibility : String) (token : Address) (entry : Entry) :
    (x.broadcastEntry kolName visibility token entry).Obeys (quoteOrder x) (fun _ _ => True)
      quote := by
  have records : ∀ nonce txHash broadcast,
      (x.recordEntry kolName visibility token entry nonce txHash broadcast).All
        (quoteOrder x).Free :=
    fun _ _ _ => (x.recordEntry_calm _ _ _ _ _ _ _).mono fun _ => free_of_calm
  apply broadcastEntry_obeys_of (buyCall_obeys entry.route token entry.bnbAmount)
    reserveNonce_still _
    (fun _ _ _ _ _ _ _ _ => trivial) resync_free (fun _ => trivial) records (fun _ _ => trivial)
      fun _ _ => trivial
  intro quote target gasLimit calldata nonce signable
  exact signable (x.request target entry.bnbAmount calldata gasLimit entry.gasWei nonce) rfl rfl

theorem execute_obeys (decision : Decision) (visibility : String) (openPositions : Nat) :
    (x.execute decision visibility openPositions).Obeys (quoteOrder x) (fun _ _ => True) quote := by
  apply execute_obeys_of (fun _ _ => trivial) (fun _ _ => trivial)
    (fun _ mild => free_of_calm mild.calm)
    (R := fun _ _ _ => True)
  · intro kolName visibility token bnbAmount openPositions quote
    have calm := (x.entryGates_gates kolName visibility token bnbAmount openPositions).mono fun _ =>
        Op.gates.calm
    exact ((quoteOrder x).kinds.obeys_free (calm.mono fun _ => free_of_calm)).mono fun _ _ _ _
      _ => trivial
  · exact fun kolName visibility token entry quote _ =>
      broadcastEntry_obeys kolName visibility token entry

theorem broadcastExit_obeys (kolName : String) (token : Address) (holding : Holding)
    (balance : U256) (isFullClose : Bool) (route : BuyRoute) (allowance : Option (Address × U256)) :
    (x.broadcastExit kolName token holding balance isFullClose route allowance).Obeys (quoteOrder x)
      (fun _ _ => True) quote := by
  have records : ∀ gasGwei nonce txHash walletBnb broadcast,
      (x.recordExit kolName token gasGwei nonce txHash walletBnb broadcast).All
        (quoteOrder x).Free :=
    fun _ _ _ _ _ => (x.recordExit_calm _ _ _ _ _ _ _).mono fun _ => free_of_calm
  unfold broadcastExit
  apply (sellCall_obeys route token balance 0).bind
  rintro quote ⟨target, gasLimit, calldata⟩ signable
  apply (quoteOrder x).kinds.then_still reserveNonce_still
  intro nonce
  apply (quoteOrder x).kinds.then_still (gasWeiAtLeast_still _)
  intro gasWei
  apply Obeys.call (signable (x.request target 0 calldata gasLimit gasWei nonce) rfl rfl)
  intro signed
  cases signed with
  | none => exact (quoteOrder x).kinds.then_free resync_free fun _ _ => trivial
  | some txHash =>
      apply Obeys.call trivial
      intro walletBnb
      split
      · apply Obeys.call trivial
        intro sent
        cases sent with
        | false => exact (quoteOrder x).kinds.then_free resync_free fun _ _ => trivial
        | true =>
            apply Obeys.call trivial
            intro _
            exact (quoteOrder x).kinds.then_free (records _ _ _ _ _) fun _ _ => trivial
      · apply Obeys.call trivial
        intro _
        exact (quoteOrder x).kinds.then_free (records _ _ _ _ _) fun _ _ => trivial

/-- An approve swaps nothing. -/
theorem approve_free (token spender : Address) (gasWei : U128) (nonce : UInt64) :
    (quoteOrder x).Free
      (.sign (x.request token 0 (.approve spender (BitVec.allOnes 256)) 60000 gasWei nonce)) :=
  free_of_sign rfl

theorem submitApprove_free (token spender : Address) :
    (x.submitApprove token spender).All (quoteOrder x).Free := by
  unfold submitApprove
  apply (reserveNonce_still.mono fun _ still => still.1).bind
  intro nonce
  apply ((gasWeiAtLeast_still _).mono fun _ still => still.1).bind
  intro gasWei
  apply Proc.All.bind (all_call.2 (approve_free _ _ _ _))
  intro signed
  cases signed with
  | none => trivial
  | some txHash =>
      dsimp only
      split
      · exact all_call.2 fun _ => trivial
      · exact Proc.All.bind (all_call.2 fun _ => trivial) fun _ => trivial

theorem exitApproval_free (token : Address) (holding : Holding) (balance : U256) :
    (x.exitApproval token holding balance).All (quoteOrder x).Free := by
  unfold exitApproval
  split
  · trivial
  · apply Proc.All.bind (all_call.2 fun _ => trivial)
    intro allowance
    dsimp only
    split
    · apply (submitApprove_free _ _).bind
      intro approved
      cases approved with
      | true => trivial
      | false => exact resync_free.bind fun _ => trivial
    · trivial

theorem executeExit_obeys (token : Address) (kolName : String) (kolBlock : Nat)
    (kolAddr : Address) :
    (x.executeExit token kolName kolBlock kolAddr).Obeys (quoteOrder x) (fun _ _ => True)
      quote := by
  unfold executeExit
  split
  · trivial
  · apply Obeys.call trivial
    intro _
    have inside : ∀ quote,
        (x.exitLocked token kolName kolBlock kolAddr).Obeys (quoteOrder x) (fun _ _ => True)
          quote := by
      intro quote
      apply quoteOrder_roams.exitLocked_obeys token kolName _ _ kolBlock kolAddr trivial
      · exact fun holding balance quote _ => (quoteOrder x).kinds.obeys_free
          (exitApproval_free token holding balance)
      · exact fun holding balance isFullClose route allowance quote _ =>
          broadcastExit_obeys kolName token holding balance isFullClose route allowance
    apply (inside _).bind
    intro quote outcome _
    exact (quoteOrder x).kinds.then_free (all_call.2 fun _ => trivial) fun _ _ => trivial

theorem submitApproveBg_free (token : Address) :
    (x.submitApproveBg token).All (quoteOrder x).Free := by
  unfold submitApproveBg
  split
  · apply (reserveNonce_still.mono fun _ still => still.1).bind
    intro nonce
    apply Proc.All.bind (all_call.2 fun _ => trivial)
    intro reply
    apply Proc.All.bind (all_call.2 (approve_free _ _ _ _))
    intro signed
    cases signed with
    | none => trivial
    | some txHash =>
        apply Proc.All.bind (all_call.2 fun _ => trivial)
        intro sent
        cases sent <;> trivial
  · trivial

theorem finalizeApprove_free (token : Address) (route : BuyRoute) (entry : EntryId) (bal : U256) :
    (x.finalizeApprove token route entry bal).All (quoteOrder x).Free := by
  unfold finalizeApprove
  split
  · apply (submitApproveBg_free token).bind
    intro approved
    split
    · apply Proc.All.bind (all_call.2 fun _ => trivial)
      intro budget
      apply ((pollReceipt_mild _ _).mono fun _ mild => free_of_calm mild.calm).bind
      intro seen
      cases seen with
      | false => trivial
      | true => exact Proc.All.bind (all_call.2 fun _ => trivial) fun _ => trivial
    · trivial
  · trivial

theorem finalizePosition_free (token : Address) (buyTxHash : B256) (route : BuyRoute)
    (entry : EntryId) :
    (x.finalizePosition token buyTxHash route entry).All (quoteOrder x).Free := by
  have body : (x.finalizeBody token buyTxHash route entry).All (quoteOrder x).Free := by
    apply Proc.All.bind (all_call.2 fun _ => trivial)
    intro budget
    apply ((pollReceipt_mild _ _).mono fun _ mild => free_of_calm mild.calm).bind
    intro seen
    cases seen with
    | false => trivial
    | true =>
        apply Proc.All.bind (all_call.2 fun _ => trivial)
        intro bal
        dsimp only
        split
        · exact (finalizeApprove_free _ _ _ _).bind fun _ => trivial
        · apply Proc.All.bind (all_call.2 fun _ => trivial)
          intro _
          exact (finalizeApprove_free _ _ _ _).bind fun _ => trivial
  apply Proc.All.bind (all_call.2 fun _ => trivial)
  intro _
  apply body.bind
  intro report
  exact Proc.All.bind (all_call.2 fun _ => trivial) fun _ => trivial

end Functions

theorem body_obeys (t : Task) :
    (w.machine.body t).Obeys (quoteOrder w.exec) (fun _ _ => True) none := by
  apply quoteOrder_roams.body_obeys _ _ _ _ t trivial
  · exact fun token kolName kolBlock kolAddr quote _ =>
      executeExit_obeys token kolName kolBlock kolAddr
  · exact fun decision visibility openPositions quote _ =>
      execute_obeys decision visibility openPositions
  · exact fun token buyTxHash route entry quote _ =>
      (quoteOrder w.exec).kinds.obeys_free (finalizePosition_free token buyTxHash route entry)
  · exact fun _ _ _ _ => trivial

/-! ### Runs -/

/-- Every signed swap follows from the quote its task had asked for last. -/
def Following (s : LiveRecorded w) : Prop :=
  ∀ signed ∈ signedSwaps s.2, signed.swap.Follows w.exec.config.limits.slippageBps signed.quote

theorem following_step {i : Tid} {o : Op} {a : w.machine.Ans o} {s : LiveRecorded w}
    {out : Outcome World Task o.Res} (following : Following s)
    (allowed : (quoteOrder w.exec).allows (lastQuote i s.2) o) :
    Following (w := w) (out.shared, ⟨i, o, a, out.res⟩ :: s.2) := by
  cases o with
  | sign tx =>
      rcases out with ⟨_ | hash, shared, spawned⟩
      · exact following
      · intro signed member
        cases isSwap : tx.swap with
        | none =>
            simp only [signedSwaps, isSwap] at member
            exact following signed member
        | some swap =>
            simp only [signedSwaps, isSwap] at member
            rcases List.mem_cons.1 member with rfl | before
            · exact allowed swap isSwap
            · exact following signed before
  | _ => exact following

end SwapSlippage

open SwapSlippage in
/-- In every run of the trader, whatever the node answers: a V2 swap that is signed is protected
exactly if the quote that its task asked for last was returned, is not zero, and has a haircut that
fits in 256 bits. -/
theorem swaps_protected_iff (below : w.exec.config.limits.slippageBps < 10000) (s : World)
    (tasks : List Task) (c : Config LiveSig (LiveRecorded w) Task Done)
    (run : w.machine.recording.Run w.machine.recording.anyStep
      (w.machine.recording.start (s, []) tasks) c) :
    ∀ signed ∈ signedSwaps c.shared.2,
      signed.Protected w.exec.config.limits.slippageBps ↔
      signed.Quoted w.exec.config.limits.slippageBps := by
  have bodies : ∀ t, (w.machine.body t).Obeys (quoteOrder w.exec) (fun _ _ => True) none :=
    body_obeys
  have following : Following c.shared := by
    apply Machine.invariant_of_obeyed (I := Following) bodies _ run
    · intro signed member
      cases member
    · intro i fresh t o a s out following _ allowed _ _
      exact following_step following allowed
  intro signed member
  exact protected_iff below (following signed member)

/-- The answers of an environment that quotes. -/
def Replies.quoting (r : Replies) (quote : Option U256) : (o : Op) → o.Ans
  | .ask (.getAmountsOut ..) => quote
  | o => r.ans o

/-- A quote of 5000 at one percent of slippage. -/
theorem swaps_protected_iff_quoted :
    ∃ c, (scenario false).machine.recording.Run (scenario false).machine.recording.anyStep
        ((scenario false).machine.recording.start (World.boot 5 none, []) [buyTask]) c ∧
      signedSwaps c.shared.2 =
        [⟨⟨1000, [WBNB, scenarioToken], 4950⟩, some ⟨1000, [WBNB, scenarioToken], some 5000⟩⟩] ∧
      ∀ signed ∈ signedSwaps c.shared.2, signed.Protected 100 ↔ signed.Quoted 100 := by
  let r : Replies := { pair := some 1 }
  obtain ⟨c, run, swaps⟩ : ∃ c, (scenario false).machine.recording.Run
      (scenario false).machine.recording.anyStep
      ((scenario false).machine.recording.start (World.boot 5 none, []) [buyTask]) c ∧
      signedSwaps c.shared.2 =
        [⟨⟨1000, [WBNB, scenarioToken], 4950⟩, some ⟨1000, [WBNB, scenarioToken], some 5000⟩⟩] :=
    Machine.exists_run_of_follow (C := (scenario false).machine.recording.anyStep)
      [(0, 20, r.quoting (some 5000))]
      (by decide +kernel)
  exact ⟨c, run, swaps, swaps_protected_iff (by decide) (World.boot 5 none) [buyTask] c run⟩

/-- No quote is ever returned, and yet a BUY and a SELL are signed, both taking
whatever comes out. -/
theorem swaps_without_quote :
    ∃ c, (scenario false).machine.recording.Run (scenario false).machine.recording.anyStep
        ((scenario false).machine.recording.start (World.boot 5 none, []) [buyTask, exitTask]) c ∧
      (scenario false).exec.config.limits.slippageBps < 10000 ∧
      (∀ quote ∈ quotes c.shared.2, quote.reply = none) ∧
      (signedSwaps c.shared.2).map (·.swap) =
        [⟨1000, [scenarioToken, WBNB], 0⟩, ⟨1000, [WBNB, scenarioToken], 0⟩] ∧
      ∀ signed ∈ signedSwaps c.shared.2, ¬ signed.Protected
        (scenario false).exec.config.limits.slippageBps := by
  let r : Replies := { pair := some 1, balance := some 1000, allowance := some 1000 }
  obtain ⟨c, run, below, unquoted, swaps, failed⟩ : ∃ c,
      (scenario false).machine.recording.Run (scenario false).machine.recording.anyStep
        ((scenario false).machine.recording.start (World.boot 5 none, []) [buyTask, exitTask]) c ∧
      (scenario false).exec.config.limits.slippageBps < 10000 ∧
      (∀ quote ∈ quotes c.shared.2, quote.reply = none) ∧
      (signedSwaps c.shared.2).map (·.swap) =
        [⟨1000, [scenarioToken, WBNB], 0⟩, ⟨1000, [WBNB, scenarioToken], 0⟩] ∧
      ∀ signed ∈ signedSwaps c.shared.2, (signed.quote.bind Quote.reply) = none :=
    Machine.exists_run_of_follow (C := (scenario false).machine.recording.anyStep)
      [(0, 20, r.ans), (1, 17, r.ans)]
      (by decide +kernel)
  have open_ : ∀ signed ∈ signedSwaps c.shared.2,
      ¬ signed.Protected (scenario false).exec.config.limits.slippageBps := by
    intro signed member protected_
    obtain ⟨q, -, returned, -⟩ := protected_
    have nothing := failed signed member
    rw [returned] at nothing
    cases nothing
  exact ⟨c, run, below, unquoted, swaps, open_⟩

end BscMempool.Trader
