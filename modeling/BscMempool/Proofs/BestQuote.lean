/-
Module: BscMempool.Proofs.BestQuote
Layer: Proofs
Purpose: Over a node whose contracts speak the ABI, a quote is what V2 gives if that is something,
  and what the best V3 tier gives otherwise; over any node it is not zero.
Trusted boundary: none
Main exports: Exchange, Exchange.node, Exchange.best, quotes_are_best
-/
import BscMempool.Proofs.V2Codec
import BscMempool.Trader.Sim
import Mathlib.Data.List.MinMax

namespace BscMempool.Trader.Sim

open Codec Codec.Abi Dex

/-! ### Offers -/

/-- A swap that gives something. -/
def offer (venue : QuoteVenue) (feeTier : Option UInt32) (out : Option U256) : Option QuoteResult :=
  (out.filter fun amount => decide (amount ≠ 0)).map fun amount => ⟨amount, venue, feeTier⟩

def tierOffers (quote : UInt32 → Option U256) (tiers : List UInt32) : List QuoteResult :=
  tiers.filterMap fun fee => offer .pancakeV3 (some fee) (quote fee)

/-- V2 goes first; of the V3 tiers the first one that gives the most. -/
def bestOffer (v2 : Option U256) (v3 : UInt32 → Option U256) : Option QuoteResult :=
  (offer .pancakeV2 none v2).or ((tierOffers v3 PANCAKE_V3_FEE_TIERS).argmax fun q =>
    q.amountOut.toNat)

theorem offer_some {venue : QuoteVenue} {feeTier : Option UInt32} {out : Option U256}
    {q : QuoteResult} (offered : offer venue feeTier out = some q) :
    q.amountOut ≠ 0 ∧ q.venue = venue ∧ q.feeTier = feeTier := by
  obtain ⟨amount, kept, rfl⟩ := Option.map_eq_some_iff.mp offered
  exact ⟨of_decide_eq_true (Option.filter_eq_some_iff.mp kept).2, rfl, rfl⟩

/-- A call that reverts offers as much as one that gives zero. -/
theorem offer_getD (venue : QuoteVenue) (feeTier : Option UInt32) (out : Option U256) :
    offer venue feeTier (some (out.getD 0)) = offer venue feeTier out := by
  cases out with
  | none => rfl
  | some amount => rfl

theorem offer_pos (venue : QuoteVenue) (feeTier : Option UInt32) {amount : U256}
    (pos : amount ≠ 0) :
    offer venue feeTier (some amount) = some ⟨amount, venue, feeTier⟩ := by
  rw [offer, Option.filter_some, if_pos (decide_eq_true pos), Option.map_some]

/-! ### The loop over the tiers -/

def asQuote (r : V3QuoteResult) : QuoteResult := ⟨r.amountOut, .pancakeV3, some r.feeTier⟩

/-- What a tier answers; nothing if its reader fails or panics. -/
def answered (reply : Except Panic (Except V3QuoteError U256)) : Option U256 :=
  reply.toOption.bind Except.toOption

/-- The quote that the loop keeps is the one that `argmax` keeps. -/
theorem better_eq (best : Option V3QuoteResult) (amount : U256) (fee : UInt32) :
    (better best amount fee).map asQuote =
      List.argAux (fun b c : QuoteResult => c.amountOut.toNat < b.amountOut.toNat)
        (best.map asQuote)
        ⟨amount, .pancakeV3, some fee⟩ := by
  cases best with
  | none => rfl
  | some b =>
      by_cases more : amount > b.amountOut
      · have more' : b.amountOut.toNat < amount.toNat := more
        simp [better, List.argAux, asQuote, more, more']
      · have notMore : ¬ b.amountOut.toNat < amount.toNat := more
        simp [better, List.argAux, asQuote, more, notMore]

theorem bestOfTiers_eq {quote : UInt32 → Except Panic (Except V3QuoteError U256)}
    {best b : Option V3QuoteResult}
    {tiers : List UInt32} (quoted : bestOfTiers quote best tiers = .ok b) :
    b.map asQuote = (tierOffers (fun fee => answered (quote fee)) tiers).foldl
      (List.argAux fun b c => c.amountOut.toNat < b.amountOut.toNat) (best.map asQuote) := by
  induction tiers generalizing best with
  | nil =>
      cases quoted
      rfl
  | cons fee rest ih =>
      rw [bestOfTiers] at quoted
      rw [tierOffers, List.filterMap_cons]
      cases reply : quote fee with
      | error panic =>
          rw [reply] at quoted
          cases quoted
      | ok answer =>
          rw [reply] at quoted
          cases answer with
          | error e => exact ih quoted
          | ok amount =>
              dsimp only at quoted
              by_cases pos : amount ≠ 0
              · rw [if_pos pos] at quoted
                have rest := ih quoted
                rw [better_eq] at rest
                rw [show answered (.ok (.ok amount)) = some amount from rfl, offer_pos _ _ pos]
                exact rest
              · rw [if_neg pos] at quoted
                rw [not_not.mp pos]
                exact ih quoted

theorem bestOfTiers_ok {quote : UInt32 → Except Panic (Except V3QuoteError U256)}
    {tiers : List UInt32} (quiet : ∀ fee ∈ tiers, ∃ reply, quote fee = .ok reply)
    (best : Option V3QuoteResult) :
    ∃ b, bestOfTiers quote best tiers = .ok b := by
  induction tiers generalizing best with
  | nil => exact ⟨_, rfl⟩
  | cons fee rest ih =>
      obtain ⟨reply, quoted⟩ := quiet fee List.mem_cons_self
      have others := ih fun other member => quiet other (List.mem_cons_of_mem _ member)
      rw [bestOfTiers, quoted]
      cases reply with
      | error e => exact others _
      | ok amount => exact others _

/-! ### A quote -/

section
variable (call : EthCall) (src dst : Address) (amountIn : U256) (block : Option Nat)

/-- What the venues answer. -/
def v2Answer : Option U256 := (quoteSingleHop call amountIn src dst block).toOption

def v3Answer (fee : UInt32) : Option U256 := answered (quoteOneTier call src dst amountIn fee block)

theorem tryQuote_eq {quote : Option QuoteResult}
    (quoted : tryQuote call src dst amountIn block = .ok quote) :
    quote = bestOffer (v2Answer call src dst amountIn block)
      (v3Answer call src dst amountIn block) := by
  have fallback : ∀ best, bestOfTiers (fun fee => quoteOneTier call src dst amountIn fee block) none
      PANCAKE_V3_FEE_TIERS =
      .ok best → best.map asQuote =
        (tierOffers (v3Answer call src dst amountIn block) PANCAKE_V3_FEE_TIERS).argmax fun q =>
          q.amountOut.toNat :=
    fun best found => bestOfTiers_eq found
  unfold tryQuote quoteBestTier at quoted
  unfold bestOffer v2Answer
  generalize bestOfTiers (fun fee => quoteOneTier call src dst amountIn fee block) none
    PANCAKE_V3_FEE_TIERS = loop
    at quoted fallback
  have settled : (loop.map Except.ok).map fromTier = .ok quote →
      quote = (tierOffers (v3Answer call src dst amountIn block) PANCAKE_V3_FEE_TIERS).argmax
        fun q => q.amountOut.toNat := by
    intro found
    cases loop with
    | error panic => cases found
    | ok best =>
        rw [← fallback best rfl]
        cases best with
        | none =>
            cases found
            rfl
        | some r =>
            cases found
            rfl
  cases single : quoteSingleHop call amountIn src dst block with
  | error e =>
      rw [single] at quoted
      exact settled quoted
  | ok amount =>
      rw [single] at quoted
      by_cases pos : amount ≠ 0
      · dsimp only at quoted
        rw [if_pos pos] at quoted
        cases quoted
        rw [show (Except.ok amount : Except V2QuoteError U256).toOption = some amount from rfl,
          offer_pos _ _ pos,
          Option.some_or]
      · dsimp only at quoted
        rw [if_neg pos] at quoted
        rw [not_not.mp pos]
        exact settled quoted

theorem tryQuote_offered {q : QuoteResult}
    (quoted : tryQuote call src dst amountIn block = .ok (some q)) :
    q.amountOut ≠ 0 ∧ (q.venue = .pancakeV2 ∧ q.feeTier = none ∨
      q.venue = .pancakeV3 ∧ ∃ fee ∈ PANCAKE_V3_FEE_TIERS, q.feeTier = some fee) := by
  have best := tryQuote_eq call src dst amountIn block quoted
  rcases Option.or_eq_some_iff.mp best.symm with onV2 | ⟨-, onV3⟩
  · obtain ⟨pos, venue, tier⟩ := offer_some onV2
    exact ⟨pos, .inl ⟨venue, tier⟩⟩
  · obtain ⟨fee, listed, offered⟩ := List.mem_filterMap.mp (List.argmax_mem onV3)
    obtain ⟨pos, venue, tier⟩ := offer_some offered
    exact ⟨pos, .inr ⟨venue, fee, listed, tier⟩⟩

/-- So what the simulator of a paper trader returns is one of the replies that its model has. -/
theorem simulated_some {isBuy : Bool} {token : Address} {q : QuoteResult}
    (quoted : (if isBuy then simulateBuy call amountIn token block
      else simulateSell call amountIn token block) =
      .ok (some q)) : ∃ some, q.nonZero = .some { q with some := some } := by
  have offered : q.amountOut ≠ 0 := by
    cases isBuy with
    | true => exact (tryQuote_offered call WBNB token amountIn block quoted).1
    | false => exact (tryQuote_offered call token WBNB amountIn block quoted).1
  exact ⟨offered, dif_pos offered⟩

theorem tryQuote_ok
    (quiet : ∀ fee ∈ PANCAKE_V3_FEE_TIERS, ∃ reply,
      quoteOneTier call src dst amountIn fee block = .ok reply) :
    ∃ quote, tryQuote call src dst amountIn block = .ok quote := by
  obtain ⟨best, found⟩ := bestOfTiers_ok quiet none
  unfold tryQuote quoteBestTier
  rw [found]
  cases quoteSingleHop call amountIn src dst block with
  | error e => exact ⟨_, rfl⟩
  | ok amount =>
      by_cases pos : amount ≠ 0
      · exact ⟨_, if_pos pos⟩
      · exact ⟨_, if_neg pos⟩

end

/-! ### Nodes that answer in ASCII -/

theorem quoteOneTier_ascii {call : EthCall}
    (plain : ∀ target data tag text, call target data tag = .result text → IsAscii text)
    (src dst : Address) (amountIn : U256) (block : Option Nat) (fee : UInt32) :
    ∃ reply, quoteOneTier call src dst amountIn fee block = .ok reply := by
  unfold quoteOneTier
  dsimp only
  generalize '0' :: 'x' :: hexEncode (encodeQuoteExactInputSingle src dst amountIn fee) = data
  cases reply : call PANCAKE_V3_QUOTER_V2 data (blockTag block) with
  | transport e => exact ⟨_, rfl⟩
  | status text => exact ⟨_, rfl⟩
  | error text => exact ⟨_, rfl⟩
  | missing => exact ⟨_, rfl⟩
  | result text =>
      have stripped : IsAscii (stripPrefix text) := by
        have whole := plain _ _ _ _ reply
        unfold stripPrefix
        split
        · exact whole.drop 2
        · exact whole
      dsimp only
      by_cases short : (stripPrefix text).length < 64
      · exact ⟨_, if_pos short⟩
      · rw [if_neg short, strSlice_ascii stripped (Nat.zero_le 64) (Nat.le_of_not_lt short)]
        dsimp only
        cases hexDecode (((stripPrefix text).drop 0).take (64 - 0)) with
        | error e => exact ⟨_, rfl⟩
        | ok bytes =>
            by_cases length : bytes.length ≠ 32
            · exact ⟨_, if_pos length⟩
            · exact ⟨_, if_neg length⟩

/-! ### Nodes whose contracts speak the ABI -/

/-- What the pools give at some block; nothing where a call reverts. -/
structure Exchange where
  getAmountOut : U256 → Address → Address → Option U256
  /-- Amount, price afterwards, ticks crossed and gas. -/
  quoteExactInputSingle : Address → Address → U256 → BitVec 24 → BitVec 160 →
    Option (U256 × BitVec 160 × BitVec 32 × U256)

/-- Arguments of `quoteExactInputSingle((address,address,uint256,uint24,uint160))`. -/
def quoteExactInputSingleArgs :
    Format ((Address × Address × U256 × BitVec 24 × BitVec 160 × Unit) × Unit) :=
  tuple (.cons (tuple (.cons address (.cons address (.cons uint256 (.cons (uint 24 (by decide))
    (.cons (uint 160 (by decide)) .nil)))))) .nil)

/-- Its result, `(uint256,uint160,uint32,uint256)`. -/
def quoteReply : Format (U256 × BitVec 160 × BitVec 32 × U256 × Unit) :=
  tuple (.cons uint256
    (.cons (uint 160 (by decide)) (.cons (uint 32 (by decide)) (.cons uint256 .nil))))

def reverted : RpcReply := .error "execution reverted"

def Exchange.routerCall (x : Exchange) (raw : List UInt8) : RpcReply :=
  if raw.take 4 = GET_AMOUNTS_OUT then
    match getAmountsOutArgs.decode (raw.drop 4) with
    | some (amountIn, [src, dst], ()) =>
        match x.getAmountOut amountIn src dst with
        | some out => .result (rpcHex (amountsReply.encode ([amountIn, out], ())))
        | none => reverted
    | _ => reverted
  else reverted

def Exchange.quoterCall (x : Exchange) (raw : List UInt8) : RpcReply :=
  if raw.take 4 = QUOTE_EXACT_INPUT_SINGLE then
    match quoteExactInputSingleArgs.decode (raw.drop 4) with
    | some ((tokenIn, tokenOut, amountIn, fee, limit, ()), ()) =>
        match x.quoteExactInputSingle tokenIn tokenOut amountIn fee limit with
        | some (out, price, ticks, gas) =>
            .result (rpcHex (quoteReply.encode (out, price, ticks, gas, ())))
        | none => reverted
    | none => reverted
  else reverted

/-- A node takes a request apart and has the contract at its address answer, at the state of the
block asked for. -/
def Exchange.node (exchange : List Char → Exchange) : EthCall := fun target data tag =>
  match hexDecode (stripPrefix (ascii data)) with
  | .error e => .error e
  | .ok raw =>
      if target = Dex.PANCAKE_V2_ROUTER then (exchange tag).routerCall raw
      else if target = PANCAKE_V3_QUOTER_V2 then (exchange tag).quoterCall raw
      else .result (ascii ['0', 'x'])

/-- The best quote of an exchange. -/
def Exchange.best (x : Exchange) (src dst : Address) (amountIn : U256) : Option QuoteResult :=
  bestOffer (x.getAmountOut amountIn src dst) fun fee =>
    (x.quoteExactInputSingle src dst amountIn (BitVec.ofNat 24 fee.toNat) 0).map Prod.fst

/-! ### Digits -/

theorem hexDigit_eq : ∀ d < 16, hexDigit d = Nat.digitChar d := by decide

/-- Requests are written in the digits that are read. -/
theorem ascii_hexEncode (b : List UInt8) : ascii (hexEncode b) = hexText b := by
  induction b with
  | nil => rfl
  | cons x rest ih =>
      have byte : x.toNat < 256 := x.toNat_lt
      have split : hexEncode (x :: rest) = hexDigit (x.toNat / 16) :: hexDigit (x.toNat % 16) ::
          hexEncode rest := rfl
      rw [split, hexDigit_eq _ (by omega), hexDigit_eq _ (Nat.mod_lt _ (by decide)),
        hexText_cons, ← ih]
      rfl

theorem hexDecode_hexText (b : List UInt8) : hexDecode (hexText b) = .ok b := by
  have even : ¬ (hexText b).length % 2 ≠ 0 := by
    rw [length_hexText]
    omega
  rw [hexDecode, if_neg even]
  induction b with
  | nil => rfl
  | cons x rest ih =>
      have byte : x.toNat < 256 := x.toNat_lt
      have high := (digit_of_lt (x.toNat / 16) (by omega)).2.2
      have low := (digit_of_lt (x.toNat % 16) (Nat.mod_lt _ (by decide))).2.2
      have whole : x.toNat / 16 * 16 + x.toNat % 16 = x.toNat := by omega
      have tail := ih (by rw [length_hexText]; omega)
      rw [hexText_cons, hexPairs, high, low]
      dsimp only
      rw [tail, whole, UInt8.ofNat_toNat]
      rfl

theorem stripPrefix_rpcHex (b : List UInt8) : stripPrefix (rpcHex b) = hexText b := if_pos rfl

/-- A request reaches the contract as it was encoded. -/
theorem node_request (exchange : List Char → Exchange) (target : Address) (raw : List UInt8)
    (tag : List Char) :
    Exchange.node exchange target ('0' :: 'x' :: hexEncode raw) tag =
      if target = Dex.PANCAKE_V2_ROUTER then (exchange tag).routerCall raw
      else if target = PANCAKE_V3_QUOTER_V2 then (exchange tag).quoterCall raw
      else .result (ascii ['0', 'x']) := by
  have text : ascii ('0' :: 'x' :: hexEncode raw) = rpcHex raw := by
    rw [rpcHex, ← ascii_hexEncode]
    rfl
  rw [Exchange.node, text, stripPrefix_rpcHex, hexDecode_hexText]

/-! ### V2 over such a node -/

theorem quoteSingleHop_node (exchange : List Char → Exchange) (amountIn : U256) (src dst : Address)
    (block : Option Nat) :
    (quoteSingleHop (Exchange.node exchange) amountIn src dst block).toOption =
      (exchange (blockTag block)).getAmountOut amountIn src dst := by
  have hops : [src, dst].length < 2 ^ 64 := (by decide : 2 < 2 ^ 64)
  have enough : ¬ [src, dst].length < 2 := (by decide : ¬ 2 < 2)
  have asked : (exchange (blockTag block)).routerCall (encodeGetAmountsOut amountIn [src, dst]) =
      match (exchange (blockTag block)).getAmountOut amountIn src dst with
      | some out => .result (rpcHex (amountsReply.encode ([amountIn, out], ())))
      | none => reverted := by
    have selector : (encodeGetAmountsOut amountIn [src, dst]).take 4 = GET_AMOUNTS_OUT := by
      rw [encodeGetAmountsOut_eq, List.take_left' (by rfl)]
    rw [Exchange.routerCall, if_pos selector, decode_getAmountsOutArgs amountIn [src, dst] hops]
  cases gives : (exchange (blockTag block)).getAmountOut amountIn src dst with
  | none =>
      have failed : v2EthCall (Exchange.node exchange) Dex.PANCAKE_V2_ROUTER block
          (encodeGetAmountsOut amountIn [src, dst]) =
          .error (.rpc "execution reverted") := by
        rw [v2EthCall, node_request, if_pos rfl, asked, gives]
        rfl
      rw [quoteSingleHop, quotePath, if_neg enough, failed]
      rfl
  | some out =>
      have answer : v2EthCall (Exchange.node exchange) Dex.PANCAKE_V2_ROUTER block
          (encodeGetAmountsOut amountIn [src, dst]) =
          .ok (amountsReply.encode ([amountIn, out], ())) := by
        rw [v2EthCall, node_request, if_pos rfl, asked, gives]
        dsimp only
        rw [stripPrefix_rpcHex, hexDecode_hexText]
        rfl
      rw [quoteSingleHop, quotePath_reply (Nat.not_lt.mp enough) (List.cons_ne_nil _ _) rfl answer]
      rfl

/-! ### V3 over such a node -/

theorem encodeQuoteExactInputSingle_eq (tokenIn tokenOut : Address) (amountIn : U256) {fee : UInt32}
    (small : fee.toNat < 2 ^ 24) : encodeQuoteExactInputSingle tokenIn tokenOut amountIn fee =
      QUOTE_EXACT_INPUT_SINGLE ++
      quoteExactInputSingleArgs.encode
        ((tokenIn, tokenOut, amountIn, BitVec.ofNat 24 fee.toNat, 0, ()), ()) := by
  have feeWord : u32ToWord fee = word fee.toNat := by
    have fits : fee.toNat < 256 ^ 4 := fee.toNat_lt
    rw [u32ToWord, word, show 32 = 4 + 28 from rfl, beBytes_add fits]
  have noLimit : List.replicate 32 0 = word 0 := by decide
  have fits : fee.toNat % 2 ^ 24 = fee.toNat := Nat.mod_eq_of_lt small
  have zero : (0 : BitVec 160).toNat = 0 := rfl
  simp only [encodeQuoteExactInputSingle, quoteExactInputSingleArgs, tuple, Fields.cons, Fields.nil,
    Format.head, Format.tail,
    address, uint256, uint, Bool.or_self, Bool.false_eq_true, if_false, List.append_nil,
    List.append_assoc, addressWord_eq,
    feeWord, noLimit, BitVec.toNat_ofNat, fits, zero]
  rfl

theorem decode_quoteExactInputSingleArgs (tokenIn tokenOut : Address) (amountIn : U256)
    {fee : UInt32} (small : fee.toNat < 2 ^ 24) :
    quoteExactInputSingleArgs.decode
      ((encodeQuoteExactInputSingle tokenIn tokenOut amountIn fee).drop 4) =
      some ((tokenIn, tokenOut, amountIn, BitVec.ofNat 24 fee.toNat, 0, ()), ()) := by
  rw [encodeQuoteExactInputSingle_eq tokenIn tokenOut amountIn small, List.drop_left' (by rfl)]
  apply quoteExactInputSingleArgs.decodes _ _ _ (At.self _)
  simp [quoteExactInputSingleArgs, tuple, Fields.cons, Fields.nil, address, uint256, uint]

/-- The amount is the first word of a reply. -/
theorem quoteReply_encode (out : U256) (price : BitVec 160) (ticks : BitVec 32) (gas : U256) :
    ∃ after, quoteReply.encode (out, price, ticks, gas, ()) = word out.toNat ++ after := by
  refine ⟨word price.toNat ++ (word ticks.toNat ++ word gas.toNat), ?_⟩
  simp [quoteReply, tuple, Fields.cons, Fields.nil, Format.head, Format.tail, uint256, uint]

theorem fromBeSlice_word (n : U256) : fromBeSlice (word n.toNat) = n := by
  have read : fromBeSlice (word n.toNat) = BitVec.ofNat 256 n.toNat := fromBeSlice_toBeBytes n.toNat
  rw [read, BitVec.ofNat_toNat, BitVec.setWidth_eq]

theorem quoteOneTier_node (exchange : List Char → Exchange) (src dst : Address) (amountIn : U256)
    (block : Option Nat) {fee : UInt32} (small : fee.toNat < 2 ^ 24) :
    quoteOneTier (Exchange.node exchange) src dst amountIn fee block = .ok (.ok
      ((((exchange (blockTag block)).quoteExactInputSingle src dst amountIn
        (BitVec.ofNat 24 fee.toNat) 0).map Prod.fst).getD
        0)) := by
  have other : PANCAKE_V3_QUOTER_V2 ≠ Dex.PANCAKE_V2_ROUTER := by decide
  have selector : (encodeQuoteExactInputSingle src dst amountIn fee).take 4 =
      QUOTE_EXACT_INPUT_SINGLE := by
    rw [encodeQuoteExactInputSingle_eq src dst amountIn small, List.take_left' (by rfl)]
  have asked :=
    node_request exchange PANCAKE_V3_QUOTER_V2 (encodeQuoteExactInputSingle src dst amountIn fee)
      (blockTag block)
  rw [if_neg other, if_pos rfl, Exchange.quoterCall, if_pos selector,
    decode_quoteExactInputSingleArgs src dst amountIn small] at asked
  dsimp only at asked
  rw [quoteOneTier, asked]
  cases gives : (exchange (blockTag block)).quoteExactInputSingle src dst amountIn
    (BitVec.ofNat 24 fee.toNat) 0 with
  | none => rfl
  | some result =>
      obtain ⟨out, price, ticks, gas⟩ := result
      obtain ⟨after, encoded⟩ := quoteReply_encode out price ticks gas
      have digits : (hexText (word out.toNat)).length = 64 := by rw [length_hexText, length_word]
      have long : ¬ (hexText (word out.toNat) ++ hexText after).length < 64 := by
        rw [List.length_append, digits]
        omega
      have plain : IsAscii (hexText (word out.toNat) ++ hexText after) := by
        rw [← hexText_append]
        exact isAscii_hexText _
      have read : ¬ (word out.toNat).length ≠ 32 := not_not.mpr (length_word _)
      dsimp only
      rw [stripPrefix_rpcHex, encoded, hexText_append, if_neg long,
        strSlice_ascii plain (Nat.zero_le 64) (Nat.not_lt.mp long),
        List.drop_zero, Nat.sub_zero, List.take_left' digits]
      dsimp only
      rw [hexDecode_hexText]
      dsimp only
      rw [if_neg read, fromBeSlice_word]
      rfl

/-! ### The best quote -/

/-- A quote over an exchange is its best one; over any node a quote is of something, on V2 or on one
of the V3 tiers; and a node that answers in ASCII makes no quote panic. -/
theorem quotes_are_best (src dst : Address) (amountIn : U256) (block : Option Nat) :
    (∀ exchange, tryQuote (Exchange.node exchange) src dst amountIn block =
      .ok ((exchange (blockTag block)).best src dst amountIn)) ∧
    (∀ call q, tryQuote call src dst amountIn block = .ok (some q) → q.amountOut ≠ 0 ∧
      (q.venue = .pancakeV2 ∧ q.feeTier = none ∨
        q.venue = .pancakeV3 ∧ ∃ fee ∈ PANCAKE_V3_FEE_TIERS, q.feeTier = some fee)) ∧
    (∀ call : EthCall, (∀ target data tag text, call target data tag = .result text →
      IsAscii text) →
      ∃ quote, tryQuote call src dst amountIn block = .ok quote) := by
  refine ⟨?_, ?_, ?_⟩
  · intro exchange
    have small : ∀ fee ∈ PANCAKE_V3_FEE_TIERS, fee.toNat < 2 ^ 24 := by simp [PANCAKE_V3_FEE_TIERS]
    have asked :=
      fun fee member => quoteOneTier_node exchange src dst amountIn block (small fee member)
    obtain ⟨quote, quoted⟩ := tryQuote_ok (Exchange.node exchange) src dst amountIn block
      fun fee member => ⟨_, asked fee member⟩
    have tiers : tierOffers (v3Answer (Exchange.node exchange) src dst amountIn block)
        PANCAKE_V3_FEE_TIERS =
        tierOffers (fun fee => ((exchange (blockTag block)).quoteExactInputSingle src dst amountIn
          (BitVec.ofNat 24 fee.toNat) 0).map Prod.fst) PANCAKE_V3_FEE_TIERS := by
      apply List.filterMap_congr
      intro fee member
      rw [v3Answer, asked fee member]
      exact offer_getD _ _ _
    rw [quoted, tryQuote_eq _ _ _ _ _ quoted, Exchange.best, bestOffer, bestOffer, v2Answer,
      quoteSingleHop_node, tiers]
  · exact fun call q => tryQuote_offered call src dst amountIn block
  · intro call plain
    exact tryQuote_ok call src dst amountIn block fun fee _ =>
      quoteOneTier_ascii plain src dst amountIn block fee

/-- No pair on V2, and two of the V3 tiers give the most. -/
def sampleExchange : Exchange where
  getAmountOut _ _ _ := none
  quoteExactInputSingle _ _ _ fee _ :=
    if fee = 2500 ∨ fee = 100 then some (7, 1, 0, 90000)
    else if fee = 500 then some (3, 1, 0, 90000) else none

theorem quotes_are_best_tiers :
    tryQuote (Exchange.node fun _ => sampleExchange) WBNB 0x4444#160 1000#256 none =
      .ok (some ⟨7, .pancakeV3, some 2500⟩) ∧
    (7 : U256) ≠ 0 ∧ ∃ quote, tryQuote (fun _ _ _ => .missing) WBNB 0x4444#160 1000#256 none =
      .ok quote := by
  have main := quotes_are_best WBNB 0x4444#160 1000#256 none
  have best : sampleExchange.best WBNB 0x4444#160 1000#256 = some ⟨7, .pancakeV3, some 2500⟩ := by
    decide
  have quoted := main.1 fun _ => sampleExchange
  rw [best] at quoted
  refine ⟨quoted, (main.2.1 _ _ quoted).1, ?_⟩
  apply main.2.2
  intro target data tag text answered
  cases answered

end BscMempool.Trader.Sim
