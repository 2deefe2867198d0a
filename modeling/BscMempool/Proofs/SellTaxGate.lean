/-
Module: BscMempool.Proofs.SellTaxGate
Layer: Proofs
Purpose: What the sell-tax gate of the live trader sees. It quotes the BUY and the SELL of what came
  out of it, and both quotes are the router's formula over the reserves: a tax that the token takes
  of its transfers is in neither. The gate sees the fee of the pair and how far the probe moves the
  price, and nothing else.
Trusted boundary: the router's formula, as an assumption on the answers of the node
Main exports: TaxedPair, TaxedPair.getAmountsOut, quotedBy, v2Buys, GateSees, TaxedPair.LosesBeyond,
  gate_sees_iff, heavy_tax_unseen
-/
import BscMempool.Concurrent.Sequential
import BscMempool.Dex.ConstantProduct
import BscMempool.Proofs.SwapSlippage

namespace BscMempool.Trader

open Concurrent (Tid Machine Outcome Config Protocol Proc)
open Concurrent.Proc
open LiveExecutor

/-! ### The pair -/

/-- 0.25 percent. -/
def pairFee : Dex.Fee where
  kept := 9975
  scale := 10000
  positive := by decide
  within := by decide

/-- A V2 pair of WBNB and a token that keeps `taxBps` of every transfer.  Reserves are `uint112`. -/
structure TaxedPair where
  token : Address
  other : token ≠ WBNB
  reserveBnb : Nat
  reserveToken : Nat
  hasBnb : 0 < reserveBnb
  hasToken : 0 < reserveToken
  bnbFits : reserveBnb < 2 ^ 112
  tokenFits : reserveToken < 2 ^ 112
  taxBps : Nat

namespace TaxedPair

variable (pair : TaxedPair)

/-- The reserves along a path through the pair. -/
def reserves (path : List Address) : Option (Nat × Nat) :=
  if path = [WBNB, pair.token] then some (pair.reserveBnb, pair.reserveToken)
  else if path = [pair.token, WBNB] then some (pair.reserveToken, pair.reserveBnb)
  else none

/-- The router's answer along such a path: the tax does not enter. -/
def getAmountsOut (amountIn : U256) (path : List Address) : Option U256 :=
  (pair.reserves path).bind fun reserves =>
    (pairFee.getAmountOut amountIn.toNat reserves.1 reserves.2).map (BitVec.ofNat 256)

/-- The pair's own round trip, without any tax, loses more than `maxSellTaxBps` beyond the 50 basis
points that are counted as fees, or the router has no answer to the probe. -/
def LosesBeyond (maxSellTaxBps : Nat) (probe : U256) : Prop :=
  pair.getAmountsOut probe [WBNB, pair.token] = none ∨
    ∃ out back : U256, pair.getAmountsOut probe [WBNB, pair.token] = some out ∧ out ≠ 0 ∧
      pair.getAmountsOut out [pair.token, WBNB] = some back ∧
      maxSellTaxBps + 50 < (probe.toNat - back.toNat) * 10000 / probe.toNat

end TaxedPair

variable {w : TrailWatcher}

/-- Every quote along the pair succeeds, with the router's answer. -/
def quotedBy (pair : TaxedPair) : w.machine.recording.Cond
  | _, .ask (.getAmountsOut amountIn path), reply, _ =>
      (pair.reserves path).isSome = true → reply = pair.getAmountsOut amountIn path ∧
      reply.isSome = true
  | _, _, _, _ => True

/-- The V2 BUYs that were handed to the endpoint, each with its value and its path. -/
def v2Buys : List w.machine.Event → List (U256 × List Address)
  | [] => []
  | ⟨_, .submit tx _ .buy, _, _⟩ :: older =>
      match tx.input with
      | .swapExactETHForTokens _ path _ _ => (tx.value, path) :: v2Buys older
      | _ => v2Buys older
  | _ :: older => v2Buys older

/-- The list of an executor is loaded, or there is none. -/
def Loaded (x : LiveExecutor) : Prop :=
  x.blacklist = none ∨ ∃ addresses, x.blacklist = some (.load addresses)

/-- A tax above the limit keeps every trader with that limit from buying the token for
`probe` on the V2 route. -/
def GateSees (pair : TaxedPair) (maxSellTaxBps : Nat) (probe : U256) : Prop :=
  maxSellTaxBps < pair.taxBps → ∀ w : TrailWatcher,
    w.exec.config.tokens.maxSellTaxBps = maxSellTaxBps →
    Loaded w.exec → ∀ (s : World) (tasks : List Task)
      (c : Config LiveSig (LiveRecorded w) Task Done),
    w.machine.recording.Run (quotedBy pair) (w.machine.recording.start (s, []) tasks) c →
    (probe, [WBNB, pair.token]) ∉ v2Buys c.shared.2

namespace SellTaxGate

/-! ### What the gate computes -/

/-- The implied tax, from the probe and what comes back of it. -/
def impliedTax (probe sellOut : U256) : Option Nat :=
  if sellOut ≥ probe then some 0
  else
    let lossBps := ((probe - sellOut) * 10000 / probe).toNat
    if lossBps < 2 ^ 64 then some (lossBps - 50) else none

/-- The quotes with which the gate lets a BUY of `token` for `probe` pass, latest first. -/
inductive Passed (maxSellTaxBps : Nat) (probe : U256) (token : Address) : List Quote → Prop where
  | failed (rest : List Quote) :
    Passed maxSellTaxBps probe token (⟨probe, [WBNB, token], none⟩ :: rest)
  | nothing (rest : List Quote) :
    Passed maxSellTaxBps probe token (⟨probe, [WBNB, token], some 0⟩ :: rest)
  | sold (rest : List Quote) (out : U256) (reply : Option U256)
      (low : ∀ back tax, reply = some back → impliedTax probe back = some tax →
        ¬ tax > maxSellTaxBps) :
      Passed maxSellTaxBps probe token
        (⟨out, [token, WBNB], reply⟩ :: ⟨probe, [WBNB, token], some out⟩ :: rest)

/-- A probe of which something comes out is small enough for its basis points. -/
theorem probe_fits {pair : TaxedPair} {probe out : U256}
    (quoted : pair.getAmountsOut probe [WBNB, pair.token] = some out) (some_ : out ≠ 0) :
    probe.toNat * 10000 < 2 ^ 256 := by
  have along : pair.reserves [WBNB, pair.token] = some (pair.reserveBnb, pair.reserveToken) :=
    if_pos rfl
  rw [TaxedPair.getAmountsOut, along, Option.bind_some, Option.map_eq_some_iff] at quoted
  obtain ⟨amount, answer, rfl⟩ := quoted
  obtain ⟨-, fits, rfl⟩ := Dex.Fee.getAmountOut_eq_some answer
  have less : pairFee.amountOut probe.toNat pair.reserveBnb pair.reserveToken < pair.reserveToken :=
    Dex.Fee.amountOut_lt pair.hasBnb pair.hasToken
  have several : 2 ≤ pair.reserveToken := by
    by_contra few
    have zero : pairFee.amountOut probe.toNat pair.reserveBnb pair.reserveToken = 0 := by omega
    rw [zero] at some_
    exact some_ rfl
  have doubled : probe.toNat * 9975 * 2 ≤ probe.toNat * 9975 * pair.reserveToken :=
    Nat.mul_le_mul_left _ several
  have whole : probe.toNat * 9975 * pair.reserveToken < 2 ^ 256 := fits
  omega

/-- Then the implied tax is the loss of the round trip beyond 50 basis points. -/
theorem impliedTax_eq {probe back : U256} (fits : probe.toNat * 10000 < 2 ^ 256) :
    impliedTax probe back = some ((probe.toNat - back.toNat) * 10000 / probe.toNat - 50) := by
  unfold impliedTax
  by_cases gain : back ≥ probe
  · have none_ : probe.toNat - back.toNat = 0 := Nat.sub_eq_zero_of_le (BitVec.le_def.mp gain)
    rw [if_pos gain, none_]
    simp
  · have less : back.toNat < probe.toNat := by
      rw [ge_iff_le, BitVec.le_def, not_le] at gain
      exact gain
    have loss : (probe - back).toNat = probe.toNat - back.toNat :=
      BitVec.toNat_sub_of_le (BitVec.le_def.mpr less.le)
    have below : (probe.toNat - back.toNat) * 10000 < 2 ^ 256 :=
      Nat.lt_of_le_of_lt (Nat.mul_le_mul_right _ (Nat.sub_le _ _)) fits
    have bps : ((probe - back) * BitVec.ofNat 256 10000 / probe).toNat =
        (probe.toNat - back.toNat) * 10000 / probe.toNat := by
      rw [BitVec.toNat_udiv, BitVec.toNat_mul, loss, toNat_tenThousand, Nat.mod_eq_of_lt below]
    have small : (probe.toNat - back.toNat) * 10000 / probe.toNat ≤ 10000 :=
      Nat.div_le_of_le_mul (Nat.mul_le_mul_right _ (Nat.sub_le _ _))
    have inU64 : (probe.toNat - back.toNat) * 10000 / probe.toNat < 2 ^ 64 :=
      Nat.lt_of_le_of_lt small (by decide)
    rw [if_neg gain]
    change (if ((probe - back) * BitVec.ofNat 256 10000 / probe).toNat < 2 ^ 64 then
      some (((probe - back) * BitVec.ofNat 256 10000 / probe).toNat - 50) else none) = _
    rw [bps, if_pos inU64]

/-- The quote, if it is along the pair, has the router's answer. -/
def Answers (pair : TaxedPair) (quote : Quote) : Prop :=
  (pair.reserves quote.path).isSome = true →
    quote.reply = pair.getAmountsOut quote.amountIn quote.path ∧ quote.reply.isSome = true

theorem reserves_buy (pair : TaxedPair) : (pair.reserves [WBNB, pair.token]).isSome = true := by
  simp [TaxedPair.reserves]

theorem reserves_sell (pair : TaxedPair) : (pair.reserves [pair.token, WBNB]).isSome = true := by
  simp [TaxedPair.reserves, pair.other]

/-- The gate lets nothing pass that the pair's own round trip loses too much of. -/
theorem not_passed_of_loses {pair : TaxedPair} {maxSellTaxBps : Nat} {probe : U256}
    {asked : List Quote}
    (answers : ∀ quote ∈ asked, Answers pair quote) (loses : pair.LosesBeyond maxSellTaxBps probe) :
    ¬ Passed maxSellTaxBps probe pair.token asked := by
  intro passed
  cases passed with
  | failed rest =>
      have answered := (answers ⟨probe, [WBNB, pair.token], none⟩ (by simp) (reserves_buy pair)).2
      cases answered
  | nothing rest =>
      have zero := (answers ⟨probe, [WBNB, pair.token], some 0⟩ (by simp) (reserves_buy pair)).1
      rcases loses with refused | ⟨out, back, bought, some_, -⟩
      · rw [refused] at zero
        cases zero
      · rw [bought] at zero
        exact some_ (Option.some.inj zero).symm
  | sold rest out reply low =>
      have bought := (answers ⟨probe, [WBNB, pair.token], some out⟩ (by simp) (reserves_buy pair)).1
      have sold := (answers ⟨out, [pair.token, WBNB], reply⟩ (by simp) (reserves_sell pair)).1
      rcases loses with refused | ⟨out', back, bought', some_, sold', loss⟩
      · rw [refused] at bought
        cases bought
      · rw [bought'] at bought
        cases bought
        rw [sold'] at sold
        have implied : impliedTax probe back =
            some ((probe.toNat - back.toNat) * 10000 / probe.toNat - 50) :=
          impliedTax_eq (probe_fits bought' some_)
        exact low back _ sold implied (by omega)

/-! ### The order of a BUY -/

/-- A V2 BUY of a token that is not blacklisted, and for which the quotes before its own
have passed the gate. -/
def Gated (x : LiveExecutor) (asked : List Quote) (value : U256) (path : List Address) : Prop :=
  ∃ token reply rest, path = [WBNB, token] ∧ x.checkBlacklisted token = false ∧
    asked = ⟨value, [WBNB, token], reply⟩ :: rest ∧
    Passed x.config.tokens.maxSellTaxBps value token rest

/-- The phase of a task is the list of the quotes it asked for, latest first. -/
def gateOrder (x : LiveExecutor) : Protocol LiveSig (List Quote) where
  allows
    | asked, .submit tx _ .buy => ∀ minOut path to_ deadline,
        tx.input = .swapExactETHForTokens minOut path to_ deadline → Gated x asked tx.value path
    | _, _ => True
  next
    | asked, .ask (.getAmountsOut amountIn path), reply => ⟨amountIn, path, reply⟩ :: asked
    | asked, _, _ => asked

section Kinds

variable {x : LiveExecutor} {o : Op}

theorem free_of_submit {tx : TransactionRequest} {hash : B256} {site : Site} (other : site ≠ .buy) :
    (gateOrder x).Free (.submit tx hash site) := by
  intro asked
  cases site with
  | buy => exact absurd rfl other
  | _ => trivial

theorem free_of_basic (basic : o.basic) : (gateOrder x).Free o := by
  cases o with
  | submit => exact absurd basic not_basic_submit
  | _ => exact fun _ => trivial

/-- Only quotes are remembered. -/
theorem still_of_ask {q : Query} (other : ∀ amountIn path, q ≠ .getAmountsOut amountIn path) :
    (gateOrder x).Still (.ask q) := by
  refine ⟨fun _ => trivial, fun asked reply => ?_⟩
  cases q with
  | getAmountsOut amountIn path => exact absurd rfl (other amountIn path)
  | _ => rfl

theorem still_of_env (o : EnvOp) : (gateOrder x).Still (.env o) :=
  ⟨fun _ => trivial, fun _ _ => rfl⟩

theorem still_of_signs (signs : o.signs) : (gateOrder x).Still o := by
  cases o with
  | submit | ask => exact signs.elim
  | _ => exact ⟨fun _ => trivial, fun _ _ => rfl⟩

theorem free_of_roams (roams : o.roams) : (gateOrder x).Free o := by
  unfold Op.roams at roams
  split at roams <;> first | exact free_of_basic (Op.light.basic roams) | exact fun _ => trivial

theorem free_of_exits {broadcast : Bool} (exits : o.exits broadcast) : (gateOrder x).Free o := by
  cases o with
  | submit tx hash site => exact free_of_submit (Op.exits.at_site exits).1
  | _ => exact fun _ => trivial

theorem free_of_finalizes {broadcast : Bool} (finalizes : o.finalizes broadcast) :
    (gateOrder x).Free o := by
  cases o with
  | submit tx hash site =>
      apply free_of_submit
      rw [(Op.finalizes.at_site finalizes).1]
      simp
  | _ => exact fun _ => trivial

theorem gateOrder_roams : Roams (gateOrder x) fun _ => True := .of_free fun _ => free_of_roams

end Kinds

section Functions

variable {x : LiveExecutor} {asked : List Quote}

theorem impliedSellTaxBpsV2_obeys (token : Address) (probe : U256)
    {ends : List Quote → Option Nat → Prop}
    (failed : ends (⟨probe, [WBNB, token], none⟩ :: asked) none)
    (nothing : ends (⟨probe, [WBNB, token], some 0⟩ :: asked) none)
    (unsold : ∀ out,
      ends (⟨out, [token, WBNB], none⟩ :: ⟨probe, [WBNB, token], some out⟩ :: asked) none)
    (sold : ∀ out back,
      ends (⟨out, [token, WBNB], some back⟩ :: ⟨probe, [WBNB, token], some out⟩ :: asked)
      (impliedTax probe back)) :
    (impliedSellTaxBpsV2 token probe).Obeys (gateOrder x) ends asked := by
  apply Obeys.call trivial
  intro bought
  cases bought with
  | none => exact failed
  | some out =>
      dsimp only
      split
      · rename_i zero
        rw [zero]
        exact nothing
      · apply Obeys.call trivial
        intro reply
        cases reply with
        | none => exact unsold out
        | some back =>
            have implied := sold out back
            unfold impliedTax at implied
            dsimp only at implied ⊢
            split at implied
            · rename_i gain
              rw [if_pos gain]
              exact implied
            · rename_i loss
              rw [if_neg loss]
              exact implied

/-- A BUY that is not stopped by its tax has passed the gate, unless it is not on the V2 route. -/
theorem taxTooHigh_obeys (route : BuyRoute) (token : Address) (bnbAmount : U256) :
    (x.taxTooHigh route token bnbAmount).Obeys (gateOrder x)
      (fun asked' tax => tax = none → route = .pancakeV2 →
      Passed x.config.tokens.maxSellTaxBps bnbAmount token asked') asked := by
  cases route with
  | fourMeme => exact fun _ other => by cases other
  | pancakeV2 =>
      have implied : (impliedSellTaxBpsV2 token bnbAmount).Obeys (gateOrder x) (fun asked' tax =>
          (∀ bps, tax = some bps → ¬ bps > x.config.tokens.maxSellTaxBps) →
            Passed x.config.tokens.maxSellTaxBps bnbAmount token asked') asked := by
        apply impliedSellTaxBpsV2_obeys
        · exact fun _ => .failed asked
        · exact fun _ => .nothing asked
        · exact fun out _ => .sold asked out none nofun
        · intro out back low
          apply Passed.sold asked out (some back)
          intro back' tax same isTax
          cases same
          exact low tax isTax
      apply implied.bind
      intro asked' tax passed
      cases tax with
      | none => exact fun _ _ => passed nofun
      | some bps =>
          dsimp only
          intro below _
          apply passed
          intro bps' same above
          cases same
          rw [if_pos above] at below
          cases below

/-- The entry may be bought now. -/
def Cleared (x : LiveExecutor) (asked : List Quote) (token : Address) (entry : Entry) : Prop :=
  x.checkBlacklisted token = false ∧
    (entry.route = .pancakeV2 → Passed x.config.tokens.maxSellTaxBps entry.bnbAmount token asked)

theorem entryGates_obeys (kolName visibility : String) (token : Address) (bnbAmount : U256)
    (openPositions : Nat) :
    (x.entryGates kolName visibility token bnbAmount openPositions).Obeys (gateOrder x)
      (fun asked' gated => ∀ entry, gated = .ok entry → Cleared x asked' token entry) asked := by
  have skips : ∀ asked' row reason,
      (onEnv (.ledgerAppend row) >>= fun _ =>
        .ret (.error reason) : Live (Except String Entry)).Obeys (gateOrder x)
        (fun asked' gated => ∀ entry, gated = .ok entry → Cleared x asked' token entry) asked' := by
    intro asked' row reason
    apply Obeys.call trivial
    intro _ entry same
    cases same
  unfold entryGates
  split
  · exact skips _ _ _
  · rename_i listed
    apply Obeys.call trivial
    intro walletBnb
    apply (gateOrder x).kinds.then_still
      (gasWeiAtLeast_all (still_of_env _) (still_of_ask (by simp)) (fun _ => still_of_env _) _)
    intro gasWei
    apply Obeys.call trivial
    intro failed
    cases failed with
    | some why => exact skips _ _ _
    | none =>
        apply (gateOrder x).kinds.then_still
          (pickRoute_all (still_of_env _) (still_of_ask (by simp))
          (fun _ => still_of_env _) (still_of_ask (by simp)) (still_of_ask (by simp)))
        intro route
        cases route with
        | none => exact skips _ _ _
        | some route =>
            apply (taxTooHigh_obeys route token _).bind
            intro asked' tax passed
            cases tax with
            | some tax => exact skips _ _ _
            | none =>
                intro entry same
                cases same
                exact ⟨Bool.eq_false_iff.mpr listed, passed rfl⟩

theorem broadcastEntry_obeys (kolName visibility : String) (token : Address) (entry : Entry)
    (cleared : Cleared x asked token entry) :
    (x.broadcastEntry kolName visibility token entry).Obeys (gateOrder x) (fun _ _ => True)
      asked := by
  have records : ∀ nonce txHash broadcast,
      (x.recordEntry kolName visibility token entry nonce txHash broadcast).All
        (gateOrder x).Free := by
    intro nonce txHash broadcast
    apply (x.recordEntry_calm _ _ _ _ _ _ _).mono
    intro o calm
    cases o with
    | submit => exact calm.elim
    | _ => exact fun _ => trivial
  have resync : NonceManager.resync.All (gateOrder x).Free :=
    resync_basic.mono fun _ => free_of_basic
  -- the quote that the BUY asks for itself comes after those of the gate
  have call : (x.buyCall entry.route token entry.bnbAmount).Obeys (gateOrder x) (fun asked' call =>
      ∀ minOut path to_ deadline, call.2.2 = .swapExactETHForTokens minOut path to_ deadline →
        Gated x asked' entry.bnbAmount path) asked := by
    cases route : entry.route with
    | fourMeme => exact fun _ _ _ _ other => by cases other
    | pancakeV2 =>
        apply Obeys.call trivial
        intro now
        apply Obeys.call trivial
        intro reply minOut path to_ deadline same
        cases same
        exact ⟨token, reply, asked, rfl, cleared.1, rfl, cleared.2 route⟩
  have reserves : x.reserveNonce.All (gateOrder x).Still :=
    reserveNonce_signs.mono fun _ => still_of_signs
  apply broadcastEntry_obeys_of call reserves (fun _ _ _ _ _ _ => trivial) _ resync
    (fun _ => trivial) records
    (fun _ _ => trivial) fun _ _ => trivial
  intro asked' target gasLimit calldata nonce signed txHash gated
  exact gated

theorem execute_obeys (decision : Decision) (visibility : String) (openPositions : Nat) :
    (x.execute decision visibility openPositions).Obeys (gateOrder x) (fun _ _ => True) asked := by
  apply execute_obeys_of (fun _ _ => trivial) (fun _ _ => trivial)
    (fun _ mild => free_of_basic (.inl mild))
    (R := fun asked token entry => Cleared x asked token entry)
  · exact fun kolName visibility token bnbAmount openPositions asked =>
      entryGates_obeys kolName visibility token bnbAmount openPositions
  · exact fun kolName visibility token entry asked cleared =>
      broadcastEntry_obeys kolName visibility token entry cleared

end Functions

theorem body_obeys (t : Task) :
    (w.machine.body t).Obeys (gateOrder w.exec) (fun _ _ => True) [] := by
  apply gateOrder_roams.body_obeys _ _ _ _ t trivial
  · exact fun token kolName kolBlock kolAddr asked _ =>
      (gateOrder w.exec).kinds.obeys_free
        ((executeExit_exits token kolName kolBlock kolAddr).mono fun _ => free_of_exits)
  · exact fun decision visibility openPositions asked _ =>
      execute_obeys decision visibility openPositions
  · exact fun token buyTxHash route entry asked _ => (gateOrder w.exec).kinds.obeys_free
      ((finalizePosition_finalizes token buyTxHash route entry).mono fun _ => free_of_finalizes)
  · exact fun _ _ _ _ => trivial

/-! ### Runs -/

/-- The quotes that the task at `i` asked for. -/
def askedAt (i : Tid) (h : List w.machine.Event) : List Quote := (gateOrder w.exec).phase i [] h

/-- Every quote along the pair has the router's answer, and no BUY along it for
`probe` was handed over. -/
structure Unbought (pair : TaxedPair) (probe : U256) (s : LiveRecorded w) : Prop where
  answered : ∀ i, ∀ quote ∈ askedAt i s.2, Answers pair quote
  unbought : (probe, [WBNB, pair.token]) ∉ v2Buys s.2

variable {i : Tid} {o : Op} {a : w.machine.Ans o} {s : LiveRecorded w} {pair : TaxedPair}
  {probe : U256}

theorem answered_step {fresh : Tid} {out : Outcome World Task o.Res}
    (answered : ∀ j, ∀ quote ∈ askedAt j s.2, Answers pair quote)
    (quoted : quotedBy pair i o a s) (did : w.machine.exec i fresh o a s.1 = some out) (j : Tid) :
    ∀ quote ∈ askedAt j ((⟨i, o, a, out.res⟩ : w.machine.Event) :: s.2), Answers pair quote := by
  by_cases own : i = j
  · subst own
    have now : askedAt i ((⟨i, o, a, out.res⟩ : w.machine.Event) :: s.2) =
        (gateOrder w.exec).next (askedAt i s.2) o out.res := Protocol.phase_own rfl
    rw [now]
    cases o with
    | ask q =>
        cases q with
        | getAmountsOut amountIn path =>
            cases did
            intro quote member
            rcases List.mem_cons.1 member with rfl | before
            · exact quoted
            · exact answered i quote before
        | _ => exact answered i
    | _ => exact answered i
  · have same : askedAt j ((⟨i, o, a, out.res⟩ : w.machine.Event) :: s.2) = askedAt j s.2 :=
      Protocol.phase_other own
    rw [same]
    exact answered j

/-- A token that is on the list of every trader, or a round trip that the gate
rejects, is not bought. -/
theorem unbought_step {result : o.Res} (unbought : Unbought pair probe s)
    (allowed : (gateOrder w.exec).allows (askedAt i s.2) o)
    (rejected : w.exec.checkBlacklisted pair.token = true ∨
      pair.LosesBeyond w.exec.config.tokens.maxSellTaxBps probe) :
    (probe, [WBNB, pair.token]) ∉ v2Buys ((⟨i, o, a, result⟩ : w.machine.Event) :: s.2) := by
  cases o with
  | submit tx hash site =>
      cases site with
      | buy =>
          cases input : tx.input with
          | swapExactETHForTokens minOut path to_ deadline =>
              simp only [v2Buys, input, List.mem_cons, not_or]
              constructor
              · intro same
                cases same
                obtain ⟨token, reply, rest, isPath, listed, asked, passed⟩ :=
                  allowed minOut _ to_ deadline input
                have isToken : pair.token = token := by simpa using isPath
                subst isToken
                rcases rejected with blacklisted | loses
                · rw [blacklisted] at listed
                  cases listed
                · have answers : ∀ quote ∈ rest, Answers pair quote := by
                    intro quote member
                    apply unbought.answered i
                    rw [asked]
                    exact List.mem_cons_of_mem _ member
                  exact not_passed_of_loses answers loses passed
              · exact unbought.unbought
          | _ =>
              simp only [v2Buys, input]
              exact unbought.unbought
      | _ => exact unbought.unbought
  | _ => exact unbought.unbought

/-- What is on the fallback list is on every loaded one. -/
theorem checkBlacklisted_of_fallback {x : LiveExecutor} (loaded : Loaded x) {token : Address}
    (listed : isBlacklisted token = true) : x.checkBlacklisted token = true := by
  unfold checkBlacklisted
  rcases loaded with none_ | ⟨addresses, some_⟩
  · rw [none_]
    exact listed
  · rw [some_]
    have inFallback : token ∈ FALLBACK_BLACKLISTED := by simpa [isBlacklisted] using listed
    simp [BlacklistRuntime.isBlacklisted, BlacklistRuntime.load, inFallback]

/-- Then no trader buys it. -/
theorem gateSees_of_rejected {maxSellTaxBps : Nat}
    (rejected : isBlacklisted pair.token = true ∨ pair.LosesBeyond maxSellTaxBps probe) :
    GateSees pair maxSellTaxBps probe := by
  rintro taxed w rfl loaded s tasks c run
  have refused : w.exec.checkBlacklisted pair.token = true ∨
      pair.LosesBeyond w.exec.config.tokens.maxSellTaxBps probe :=
    rejected.imp_left (checkBlacklisted_of_fallback loaded)
  have bodies : ∀ t, (w.machine.body t).Obeys (gateOrder w.exec) (fun _ _ => True) [] := body_obeys
  have unbought : Unbought pair probe c.shared := by
    apply Machine.invariant_of_obeyed (I := Unbought pair probe) bodies _ run
    · constructor
      · intro i quote member
        cases member
      · intro member
        cases member
    · intro i fresh t o a s out unbought _ allowed quoted did
      exact ⟨answered_step unbought.answered quoted did, unbought_step unbought allowed refused⟩
  exact unbought.unbought

/-! ### A BUY that the gate lets pass -/

/-- The SELL of what comes out of the pair always gets an answer. -/
theorem sold_isSome {out : U256} (bought : pair.getAmountsOut probe [WBNB, pair.token] = some out)
    (some_ : out ≠ 0) :
    (pair.getAmountsOut out [pair.token, WBNB]).isSome = true := by
  have toToken : pair.reserves [WBNB, pair.token] = some (pair.reserveBnb, pair.reserveToken) :=
    if_pos rfl
  have toBnb : pair.reserves [pair.token, WBNB] = some (pair.reserveToken, pair.reserveBnb) := by
    simp [TaxedPair.reserves, pair.other]
  rw [TaxedPair.getAmountsOut, toToken, Option.bind_some, Option.map_eq_some_iff] at bought
  obtain ⟨amount, answer, rfl⟩ := bought
  obtain ⟨-, -, rfl⟩ := Dex.Fee.getAmountOut_eq_some answer
  have less : pairFee.amountOut probe.toNat pair.reserveBnb pair.reserveToken < pair.reserveToken :=
    Dex.Fee.amountOut_lt pair.hasBnb pair.hasToken
  have within : pairFee.amountOut probe.toNat pair.reserveBnb pair.reserveToken < 2 ^ 112 :=
    less.trans pair.tokenFits
  have isOut :
      (BitVec.ofNat 256 (pairFee.amountOut probe.toNat pair.reserveBnb pair.reserveToken)).toNat =
      pairFee.amountOut probe.toNat pair.reserveBnb pair.reserveToken := by
    rw [BitVec.toNat_ofNat]
    exact Nat.mod_eq_of_lt (within.trans (by decide))
  have given : 0 < pairFee.amountOut probe.toNat pair.reserveBnb pair.reserveToken := by
    apply Nat.pos_of_ne_zero
    intro zero
    rw [zero] at some_
    exact some_ rfl
  rw [TaxedPair.getAmountsOut, toBnb, Option.bind_some, Option.isSome_map, isOut]
  exact Dex.Fee.getAmountOut_isSome given pair.hasToken pair.hasBnb within pair.tokenFits
    pair.bnbFits (by decide)

section Complete

variable {out : U256} (bought : pair.getAmountsOut probe [WBNB, pair.token] = some out)

theorem completes_ask (q : Query) (reply : q.Reply) (s : LiveRecorded w)
    (meets : quotedBy pair 0 (.ask q) reply s) :
    w.machine.recording.Completes (quotedBy pair) 0 (ask q) s reply
      (s.1, ⟨0, .ask q, reply, reply⟩ :: s.2) :=
  .op meets rfl rfl .ret

theorem completes_env (o : EnvOp) (a : o.Ans) (s : LiveRecorded w) {r : o.Res} {v : Env}
    (ran : o.exec a s.1.env = some (r, v)) :
    w.machine.recording.Completes (quotedBy pair) 0 (onEnv o) s r
      ({ s.1 with env := v }, (⟨0, .env o, a, r⟩ : w.machine.Event) :: s.2) := by
  have did : w.machine.recording.exec 0 1 (.env o) a s =
      some ⟨r, ({ s.1 with env := v }, (⟨0, .env o, a, r⟩ : w.machine.Event) :: s.2), []⟩ := by
    simp [Machine.recording, TrailWatcher.machine, Op.exec, ran]
  exact .op trivial did rfl .ret

include bought in
theorem quoted_buy (s : LiveRecorded w) :
    quotedBy pair 0 (.ask (.getAmountsOut probe [WBNB, pair.token])) (some out) s := by
  intro _
  exact ⟨bought.symm, rfl⟩

include bought in
/-- The gate finds no tax that is too high, and only asks. -/
theorem impliedSellTaxBpsV2_completes (s : LiveRecorded w)
    (kept : ¬ pair.LosesBeyond w.exec.config.tokens.maxSellTaxBps probe) :
    ∃ tax h, w.machine.recording.Completes (quotedBy pair) 0 (impliedSellTaxBpsV2 pair.token probe)
      s tax (s.1, h) ∧
      ∀ bps, tax = some bps → ¬ bps > w.exec.config.tokens.maxSellTaxBps := by
  have first :=
    completes_ask (.getAmountsOut probe [WBNB, pair.token]) (some out) s (quoted_buy bought s)
  by_cases zero : out = 0
  · refine ⟨none, ?_, first.bind ?_, nofun⟩
    rotate_left
    · dsimp only
      rw [if_pos zero]
      exact .ret
  · obtain ⟨back, sold⟩ := Option.isSome_iff_exists.mp (sold_isSome bought zero)
    have second : ∀ s : LiveRecorded w, w.machine.recording.Completes (quotedBy pair) 0
        (ask (.getAmountsOut out [pair.token, WBNB])) s (some back)
        (s.1, ⟨0, .ask (.getAmountsOut out [pair.token, WBNB]), some back, some back⟩ :: s.2) :=
      fun s => completes_ask (.getAmountsOut out [pair.token, WBNB]) (some back) s fun _ =>
        ⟨sold.symm, rfl⟩
    have implied : impliedTax probe back = some
        ((probe.toNat - back.toNat) * 10000 / probe.toNat - 50) :=
      impliedTax_eq (probe_fits bought zero)
    refine ⟨impliedTax probe back, ?_, first.bind ?_, ?_⟩
    rotate_left
    · dsimp only
      rw [if_neg zero]
      apply (second _).bind
      unfold impliedTax
      dsimp only
      split <;> exact .ret
    · intro bps same above
      rw [implied] at same
      cases same
      exact kept (.inr ⟨out, back, bought, zero, sold, by omega⟩)

include bought in
theorem taxTooHigh_completes (s : LiveRecorded w)
    (kept : ¬ pair.LosesBeyond w.exec.config.tokens.maxSellTaxBps probe) :
    ∃ h, w.machine.recording.Completes (quotedBy pair) 0
      (w.exec.taxTooHigh .pancakeV2 pair.token probe) s none
      (s.1, h) := by
  obtain ⟨tax, h, asked, low⟩ := impliedSellTaxBpsV2_completes bought s kept
  apply Exists.intro h
  apply asked.bind
  cases tax with
  | none => exact .ret
  | some bps =>
      dsimp only
      rw [if_neg (low bps rfl)]
      exact .ret

include bought in
/-- The BUY takes one more quote. -/
theorem buyCall_completes (s : LiveRecorded w) :
    ∃ h minOut to_ deadline, w.machine.recording.Completes (quotedBy pair) 0
      (w.exec.buyCall .pancakeV2 pair.token probe) s
      (PANCAKE_V2_ROUTER, SWAP_GAS_LIMIT, .swapExactETHForTokens minOut [WBNB, pair.token] to_
        deadline) (s.1, h) := by
  have again : ∀ s : LiveRecorded w, w.machine.recording.Completes (quotedBy pair) 0
      (ask (.getAmountsOut probe [WBNB, pair.token])) s (some out)
      (s.1, ⟨0, .ask (.getAmountsOut probe [WBNB, pair.token]), some out, some out⟩ :: s.2) :=
    fun s => completes_ask (.getAmountsOut probe [WBNB, pair.token]) (some out) s
      (quoted_buy bought s)
  exact ⟨_, _, _, _, (completes_ask .unixSecs (0 : Nat) s trivial).bind ((again _).bind .ret)⟩

end Complete

/-! ### A trader that buys -/

/-- A trader that broadcasts, whose limits a BUY for `probe` passes. -/
def gateTrader (maxSellTaxBps : Nat) (probe : U256) : TrailWatcher :=
  { cfg := { enabled := true }
    exec := {
      wallet := 0xA11CE#160
      persist := false
      config := { scenarioLimits ⟨false, false, true⟩ with
        limits := { (scenarioLimits ⟨false, false, true⟩).limits with
            perTradeMaxBnb := (probe.toNat : ℚ) / 10 ^ 18 }
        tokens := ⟨maxSellTaxBps⟩ }
      blacklist := none } }

section Trader

variable {maxSellTaxBps : Nat}

theorem clampToCap_eq :
    (gateTrader maxSellTaxBps probe).exec.clampToCap probe =
      ((probe.toNat : ℚ) / 10 ^ 18, probe) := by
  simp [clampToCap, gateTrader, scenarioLimits, PhaseConfig.effectivePerTradeMaxBnb]

theorem limits_pass :
    (gateTrader maxSellTaxBps probe).exec.config.check {} 0
      { kolName := "D"
        visibility := "public"
        bnbAmount := (probe.toNat : ℚ) / 10 ^ 18
        currentOpenPositions := 0
        currentWalletBnb := 1
        currentGasGwei := weiToGwei (maxWei 1000000000 10000000000) } = (none, {}) := by
  have gas : weiToGwei (maxWei 1000000000 10000000000) = 10 := by decide
  rw [gas]
  simp [LimitsConfig.check, LimitsConfig.gates, gateTrader, scenarioLimits, maybeResetDay,
    cooldownRemaining,
    PhaseConfig.effectivePerTradeMaxBnb]

/-- The first world of a run, once the gas price is known. -/
def priced : World :=
  { World.boot 5 none with env := { (World.boot 5 none).env with gasCache := 1000000000 } }

theorem gasWeiAtLeast_completes (h : List w.machine.Event) :
    ∃ h', w.machine.recording.Completes (quotedBy pair) 0 (gasWeiAtLeast 10000000000)
      (World.boot 5 none, h)
      (maxWei 1000000000 10000000000) (priced, h') := by
  have stale : w.machine.recording.Completes (quotedBy pair) 0 (onEnv .gasCached)
      (World.boot 5 none, h)
      (none : Option U128) (World.boot 5 none, ⟨0, .env .gasCached, false, none⟩ :: h) :=
    completes_env .gasCached false (World.boot 5 none, h) rfl
  have asked : ∀ h : List w.machine.Event, w.machine.recording.Completes (quotedBy pair) 0
      (ask .gasPrice)
      (World.boot 5 none, h) (some 1000000000 : Option U128)
      (World.boot 5 none, ⟨0, .ask .gasPrice, some 1000000000, some 1000000000⟩ :: h) :=
    fun h => completes_ask .gasPrice (some 1000000000) (World.boot 5 none, h) trivial
  have cached : ∀ h : List w.machine.Event, w.machine.recording.Completes (quotedBy pair) 0
      (onEnv (.cacheGas 1000000000)) (World.boot 5 none, h) ()
        (priced, ⟨0, .env (.cacheGas 1000000000), (), ()⟩ :: h) :=
    fun h => completes_env (.cacheGas 1000000000) () (World.boot 5 none, h) rfl
  have known : w.machine.recording.Completes (quotedBy pair) 0 gasWei (World.boot 5 none, h)
      (some 1000000000 : Option U128) (priced, _) :=
        stale.bind ((asked _).bind ((cached _).bind .ret))
  exact ⟨_, known.bind .ret⟩

theorem pickRoute_completes (h : List w.machine.Event) :
    ∃ s', w.machine.recording.Completes (quotedBy pair) 0 (pickRoute pair.token probe .buy)
      (priced, h)
      (some .pancakeV2) s' := by
  have unknown : w.machine.recording.Completes (quotedBy pair) 0 (onEnv (.pairCached pair.token))
      (priced, h)
      (none : Option (Option Address)) (priced,
        ⟨0, .env (.pairCached pair.token), false, none⟩ :: h) :=
    completes_env (.pairCached pair.token) false (priced, h) rfl
  have asked : ∀ h : List w.machine.Event, w.machine.recording.Completes (quotedBy pair) 0
      (ask (.getPair pair.token))
      (priced, h) (some 1 : Option Address) (priced,
        ⟨0, .ask (.getPair pair.token), some 1, some 1⟩ :: h) :=
    fun h => completes_ask (.getPair pair.token) (some 1) (priced, h) trivial
  have cached : ∀ h : List w.machine.Event, w.machine.recording.Completes (quotedBy pair) 0
      (onEnv (.cachePair pair.token (some 1))) (priced, h) () _ :=
    fun h => completes_env (.cachePair pair.token (some 1)) () (priced, h) rfl
  have found : w.machine.recording.Completes (quotedBy pair) 0 (v2PairCached pair.token) (priced, h)
      (some 1 : Option Address) _ := unknown.bind ((asked _).bind ((cached _).bind .ret))
  exact ⟨_, found.bind .ret⟩

/-- The trade that the limits are asked about. -/
def gatedTrade (probe : U256) : TradeCheck :=
  { kolName := "D"
    visibility := "public"
    bnbAmount := (probe.toNat : ℚ) / 10 ^ 18
    currentOpenPositions := 0
    currentWalletBnb := 1
    currentGasGwei := weiToGwei (maxWei 1000000000 10000000000) }

theorem checkLimits_completes (h : List w.machine.Event) :
    ∃ h', w.machine.recording.Completes (quotedBy pair) 0
      (onEnv (.checkLimits (gateTrader maxSellTaxBps probe).exec.config (gatedTrade probe)))
        (priced, h)
      (none : Option LimitFail) (priced, h') := by
  have checked : (gateTrader maxSellTaxBps probe).exec.config.check priced.env.daily 0
      (gatedTrade probe) =
      (none, priced.env.daily) := limits_pass
  have ran : (EnvOp.checkLimits (gateTrader maxSellTaxBps probe).exec.config
      (gatedTrade probe)).exec (0 : Nat)
      priced.env = some (none, priced.env) := by
    rw [EnvOp.exec, checked]
  exact ⟨_, completes_env _ (0 : Nat) (priced, h) ran⟩

/-- The BUY passes every gate. -/
theorem entryGates_completes (buyable : isBlacklisted pair.token = false) {out : U256}
    (bought : pair.getAmountsOut probe [WBNB, pair.token] = some out)
    (kept : ¬ pair.LosesBeyond maxSellTaxBps probe)
    (h : List (gateTrader maxSellTaxBps probe).machine.Event) :
    ∃ entry s', (gateTrader maxSellTaxBps probe).machine.recording.Completes (quotedBy pair) 0
        ((gateTrader maxSellTaxBps probe).exec.entryGates "D" "public" pair.token probe 0)
          (World.boot 5 none, h)
        (.ok entry) s' ∧ entry.route = .pancakeV2 ∧ entry.bnbAmount = probe := by
  have listed : ¬ (gateTrader maxSellTaxBps probe).exec.checkBlacklisted pair.token = true := by
    simp [checkBlacklisted, gateTrader, buyable]
  have wallet : (gateTrader maxSellTaxBps probe).machine.recording.Completes (quotedBy pair) 0
      (ask .walletBnb)
      (World.boot 5 none, h) (1 : ℚ) (World.boot 5 none, _) :=
        completes_ask .walletBnb (1 : ℚ) _ trivial
  obtain ⟨h₁, gas⟩ := gasWeiAtLeast_completes (⟨0, .ask .walletBnb, (1 : ℚ), (1 : ℚ)⟩ :: h)
  obtain ⟨h₂, check⟩ := checkLimits_completes h₁
  obtain ⟨s₃, route⟩ := pickRoute_completes h₂
  obtain ⟨h₄, tax⟩ := taxTooHigh_completes bought s₃ kept
  unfold entryGates
  rw [if_neg listed, clampToCap_eq]
  exact ⟨⟨.pancakeV2, probe, _, _, _⟩, _, wallet.bind
    (gas.bind (check.bind (route.bind (tax.bind .ret)))), rfl, rfl⟩

/-- Nobody is waited for. -/
theorem waits_of_gates {o : Op} (gates : o.gates) : o.waits = [] := by
  cases o with
  | join => exact gates.elim
  | _ => rfl

/-- The BUY of an entry is handed over. -/
theorem broadcastEntry_leads {out : U256}
    (bought : pair.getAmountsOut probe [WBNB, pair.token] = some out)
    {entry : Entry} (route : entry.route = .pancakeV2) (amount : entry.bnbAmount = probe)
    (s : LiveRecorded (gateTrader maxSellTaxBps probe)) :
    ∃ tx hash next s', (gateTrader maxSellTaxBps probe).machine.recording.Leads (quotedBy pair) 0
        ((gateTrader maxSellTaxBps probe).exec.broadcastEntry "D" "public" pair.token entry) s
        (.op (.submit tx hash .buy) next) s' ∧
      tx.value = probe ∧
        ∃ minOut to_ deadline, tx.input = .swapExactETHForTokens minOut [WBNB, pair.token] to_
          deadline := by
  obtain ⟨h, minOut, to_, deadline, call⟩ := buyCall_completes bought s
  have waits :=
    ((gateTrader maxSellTaxBps probe).exec.buyCall_mild .pancakeV2 pair.token probe).mono
    fun _ mild => waits_of_gates mild.gates
  have reserved : (gateTrader maxSellTaxBps probe).machine.recording.Completes (quotedBy pair) 0
      (gateTrader maxSellTaxBps probe).exec.reserveNonce (s.1, h) s.1.nonce.current _ :=
    .op (a := ()) trivial rfl rfl .ret
  have signed : ∀ tx s, (gateTrader maxSellTaxBps probe).machine.recording.Completes
      (quotedBy pair) 0
      (sign tx) s (some 1 : Option B256) (s.1, ⟨0, .sign tx, some 1, some 1⟩ :: s.2) :=
    fun tx s => .op (a := (some 1 : Option B256)) trivial rfl rfl .ret
  unfold broadcastEntry
  rw [route, amount]
  exact ⟨_, 1, _, _, (call.leads waits).trans ((reserved.leads ⟨rfl, fun _ => trivial⟩).trans
    ((signed _ _).leads ⟨rfl, fun _ => trivial⟩)), rfl, minOut, to_, deadline, rfl⟩

/-- A run in which the token is bought for the probe. -/
theorem bought_run (buyable : isBlacklisted pair.token = false) {out : U256}
    (bought : pair.getAmountsOut probe [WBNB, pair.token] = some out)
    (kept : ¬ pair.LosesBeyond maxSellTaxBps probe) :
    ∃ c, (gateTrader maxSellTaxBps probe).machine.recording.Run (quotedBy pair)
        ((gateTrader maxSellTaxBps probe).machine.recording.start (World.boot 5 none, [])
          [.execute (.enter "D" pair.token probe probe 7 1) "public" 0]) c ∧
      (probe, [WBNB, pair.token]) ∈ v2Buys c.shared.2 := by
  have missing : (gateTrader maxSellTaxBps probe).machine.recording.Completes (quotedBy pair) 0
      (dupGuard pair.token) (World.boot 5 none, []) false
      (World.boot 5 none, [⟨0, .trade (.positionsGet pair.token), (), none⟩]) :=
        .op (a := ()) trivial rfl rfl .ret
  obtain ⟨entry, s, gates, route, amount⟩ := entryGates_completes buyable bought kept
    [⟨0, .trade (.positionsGet pair.token), (), none⟩]
  have waits :=
    ((gateTrader maxSellTaxBps probe).exec.entryGates_gates "D" "public" pair.token probe 0).mono
    fun _ => waits_of_gates
  obtain ⟨tx, hash, next, s', handed, value, minOut, to_, deadline, input⟩ :=
    broadcastEntry_leads bought route amount s
  have entered : (gateTrader maxSellTaxBps probe).machine.recording.Leads (quotedBy pair) 0
      ((gateTrader maxSellTaxBps probe).exec.execute (.enter "D" pair.token probe probe 7 1)
        "public" 0)
      (World.boot 5 none, []) (.op (.submit tx hash .buy) next) s' :=
    (missing.leads (dupGuard_all rfl rfl)).trans ((gates.leads waits).trans handed)
  have did : (gateTrader maxSellTaxBps probe).machine.recording.exec 0 1 (.submit tx hash .buy)
      (⟨true, true⟩ : Submitted) s' = some _ := rfl
  have ends : (gateTrader maxSellTaxBps probe).machine.recording.Leads (quotedBy pair) 0
      ((gateTrader maxSellTaxBps probe).machine.body
        (.execute (.enter "D" pair.token probe probe 7 1) "public" 0))
      (World.boot 5 none, []) (.op (.submit tx hash .buy) _) s' := entered.bind
  obtain ⟨c, run, shared⟩ := ends.run_op rfl trivial did
  have handedOver : (probe, [WBNB, pair.token]) ∈ v2Buys c.shared.2 := by
    rw [shared]
    simp [v2Buys, input, value]
  exact ⟨c, run, handedOver⟩

end Trader

/-- A tax above the limit that the pair does not show is not seen. -/
theorem not_gateSees {pair : TaxedPair} {maxSellTaxBps : Nat} {probe : U256}
    (taxed : maxSellTaxBps < pair.taxBps)
    (buyable : isBlacklisted pair.token = false) (kept : ¬ pair.LosesBeyond maxSellTaxBps probe) :
    ¬ GateSees pair maxSellTaxBps probe := by
  intro sees
  cases quoted : pair.getAmountsOut probe [WBNB, pair.token] with
  | none => exact kept (.inl quoted)
  | some out =>
      obtain ⟨c, run, bought⟩ := bought_run buyable quoted kept
      exact sees taxed (gateTrader maxSellTaxBps probe) rfl (.inl rfl) _ _ c run bought

end SellTaxGate

open SellTaxGate in
/-- The gate stops the BUYs of a token with too high a tax exactly where the token is on the
fallback list or the pair loses too much by itself. -/
theorem gate_sees_iff (pair : TaxedPair) (maxSellTaxBps : Nat) (probe : U256) :
    GateSees pair maxSellTaxBps probe ↔
      pair.taxBps ≤ maxSellTaxBps ∨ isBlacklisted pair.token = true ∨
      pair.LosesBeyond maxSellTaxBps probe := by
  constructor
  · intro sees
    by_contra unseen
    rw [not_or, not_or, not_le, Bool.not_eq_true] at unseen
    obtain ⟨taxed, buyable, kept⟩ := unseen
    exact not_gateSees taxed buyable kept sees
  · intro seen
    rcases seen with within | rejected
    · intro taxed
      exact absurd taxed (Nat.not_lt.mpr within)
    · exact gateSees_of_rejected rejected

/-- A pair of 10,000 BNB and 10^9 tokens, with a tax of 90 percent. -/
def heavyTax : TaxedPair where
  token := 0x4444#160
  other := by decide
  reserveBnb := 10 ^ 22
  reserveToken := 10 ^ 27
  hasBnb := by decide
  hasToken := by decide
  bnbFits := by decide
  tokenFits := by decide
  taxBps := 9000

/-- A limit of 5 percent lets a BUY for 0.001 BNB pass. -/
theorem heavy_tax_unseen : ¬ GateSees heavyTax 500 (BitVec.ofNat 256 (10 ^ 15)) := by
  have bought : heavyTax.getAmountsOut (BitVec.ofNat 256 (10 ^ 15)) [WBNB, heavyTax.token] =
      some (BitVec.ofNat 256 99749990049938492518) := by decide
  have sold : heavyTax.getAmountsOut (BitVec.ofNat 256 99749990049938492518)
      [heavyTax.token, WBNB] =
      some (BitVec.ofNat 256 995006051744422) := by decide
  apply SellTaxGate.not_gateSees
  · decide
  · decide
  · intro loses
    rcases loses with refused | ⟨out, back, bought', -, sold', loss⟩
    · rw [bought] at refused
      cases refused
    · rw [bought] at bought'
      cases bought'
      rw [sold] at sold'
      cases sold'
      revert loss
      decide

end BscMempool.Trader
