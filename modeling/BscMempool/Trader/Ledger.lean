/-
Module: BscMempool.Trader.Ledger
Layer: Trader
Purpose: The paper trader's ledger: the row of a closed trade, and the file of the open positions,
  which is loaded by buying every position again.
Trusted boundary: human-reviewed translation of trader/ledger.rs and of the labels of
  trader/types.rs; `serde_json` is a parameter
Main exports: Ledger.CSV_HEADER, Ledger.csvEscape, Ledger.formatCsvRow, PositionJson,
  Ledger.saveBook, Ledger.loadBook
-/
import BscMempool.Codec.Csv
import BscMempool.Trader.PaperOps

namespace BscMempool.Trader

open Codec (FloatFormat decimal decimalInt hex)

def PortfolioMode.label : PortfolioMode → String
  | .fastTip => "fast_tip"
  | .normalTip => "normal_tip"

def CloseReason.label : CloseReason → String
  | .kolSell => "kol_sell"
  | .timeout => "timeout"
  | .manualForce => "manual_force"
  | .noLiquidity => "no_liquidity"
  | .priceUnavailable => "price_unavailable"

namespace Ledger

def CSV_HEADER : String :=
  "ts_unix_ns,portfolio,kol_name,token_address,token_symbol," ++
  "bnb_in_wei,bnb_out_wei,pnl_wei,pnl_bnb,pnl_usd,pnl_pct,d_mcap_usd,our_entry_mcap_usd," ++
  "bnb_usd_close,opened_at_block,closed_at_block," ++
  "held_secs,buy_tx_count,close_reason,trigger_sell_tx," ++
  "kol_exit_count,kol_exit_mcap_first_usd,kol_exit_mcap_last_usd,our_avg_exit_mcap_usd\n"

def csvEscape (s : String) : List Char := Codec.Csv.quoteField s.toList

/-- The row of a closed trade, with the line feed behind it. -/
def formatCsvRow (fmt : FloatFormat) (t : ClosedTrade) : List Char :=
  let trigger := (t.triggerSellTx.map fun h => hex 64 h.toNat).getD []
  let pnlBnb : ℚ := t.pnlWei / 10 ^ 18
  let pnlUsd := pnlBnb * t.bnbUsdAtClose
  Codec.Csv.line [
    decimal t.openedAtUnixNs,
    t.portfolio.label.toList,
    csvEscape t.kolName,
    hex 40 t.tokenAddress.toNat,
    csvEscape t.tokenSymbol,
    decimal t.bnbInWei.toNat,
    decimal t.bnbOutWei.toNat,
    decimalInt t.pnlWei,
    fmt.fixed 6 pnlBnb,
    fmt.fixed 2 pnlUsd,
    fmt.fixed 6 t.pnlPct,
    fmt.fixed 0 t.dMcapUsd,
    fmt.fixed 0 t.ourEntryMcapUsd,
    fmt.fixed 2 t.bnbUsdAtClose,
    decimal t.openedAtBlock,
    decimal t.closedAtBlock,
    decimal t.heldSecs,
    decimal t.buyTxCount,
    t.closeReason.label.toList,
    trigger,
    decimal t.kolExitCount,
    fmt.fixed 0 t.kolExitMcapFirstUsd,
    fmt.fixed 0 t.kolExitMcapLastUsd,
    fmt.fixed 0 t.ourAvgExitMcapUsd]

end Ledger

/-! ### Open positions -/

/-- `serde_json` on lists of positions. -/
structure PositionJson where
  toVecPretty : List OpenPosition → Option (List UInt8)
  fromSlice : List UInt8 → Option (List OpenPosition)

/-- Decoding inverts encoding, and nothing is not JSON. -/
structure PositionJson.Lawful (json : PositionJson) : Prop where
  inverse : ∀ positions bytes, json.toVecPretty positions = some bytes →
    json.fromSlice bytes = some positions
  empty : json.fromSlice [] = none

namespace Ledger

/-- What `save_book` leaves in the file: the snapshot, in the order `positions` in
which the map is walked. -/
def saveBook (json : PositionJson) (positions : List OpenPosition) : Option (List UInt8) :=
  json.toVecPretty positions

/-- Buy positions again, the `i`-th of them at `nowNs i`. -/
def replay (nowNs : Nat → Nat) : Nat → List OpenPosition → PositionBook → PositionBook
  | _, [], book => book
  | i, p :: positions, book =>
      replay nowNs (i + 1) positions
        (book.openOrAdd p.portfolio p.kolName p.tokenAddress p.tokenSymbol p.tokenDecimals p.bnbIn
          p.tokensHeld
          p.openedAtBlock (p.buyTxHashes.head?.getD 0) (nowNs i))

/-- The book in the file, an empty one where there is no file or nothing in it;
`none` is an error. -/
def loadBook (json : PositionJson) (nowNs : Nat → Nat) : Option (List UInt8) → Option PositionBook
  | none => some .empty
  | some [] => some .empty
  | some bytes => (json.fromSlice bytes).map fun positions => replay nowNs 0 positions .empty

end Ledger

end BscMempool.Trader
