/-
Module: BscMempool.Proofs.PaperCsv
Layer: Proofs
Purpose: The paper trader's ledger file reads back row by row: every row is one record with the
  columns of the header, whatever characters the names of KOLs and tokens have.
Trusted boundary: none
Main exports: Ledger.columns, Ledger.names, Ledger.formatCsvRow_eq_line, Ledger.csv_reads
-/
import BscMempool.Trader.Ledger

namespace BscMempool.Trader.Ledger

open Codec
open Codec.Csv (Field IsPlain line quoteField readRecords)

/-! ### The columns -/

/-- What a row is to say: the value of every column, by the header's name for it. -/
def columns (fmt : FloatFormat) (t : ClosedTrade) : List (String × Field) := [
  ("ts_unix_ns", decimal t.openedAtUnixNs),
  ("portfolio", t.portfolio.label.toList),
  ("kol_name", t.kolName.toList),
  ("token_address", hex 40 t.tokenAddress.toNat),
  ("token_symbol", t.tokenSymbol.toList),
  ("bnb_in_wei", decimal t.bnbInWei.toNat),
  ("bnb_out_wei", decimal t.bnbOutWei.toNat),
  ("pnl_wei", decimalInt t.pnlWei),
  ("pnl_bnb", fmt.fixed 6 (t.pnlWei / 10 ^ 18)),
  ("pnl_usd", fmt.fixed 2 (t.pnlWei / 10 ^ 18 * t.bnbUsdAtClose)),
  ("pnl_pct", fmt.fixed 6 t.pnlPct),
  ("d_mcap_usd", fmt.fixed 0 t.dMcapUsd),
  ("our_entry_mcap_usd", fmt.fixed 0 t.ourEntryMcapUsd),
  ("bnb_usd_close", fmt.fixed 2 t.bnbUsdAtClose),
  ("opened_at_block", decimal t.openedAtBlock),
  ("closed_at_block", decimal t.closedAtBlock),
  ("held_secs", decimal t.heldSecs),
  ("buy_tx_count", decimal t.buyTxCount),
  ("close_reason", t.closeReason.label.toList),
  ("trigger_sell_tx", (t.triggerSellTx.map fun h => hex 64 h.toNat).getD []),
  ("kol_exit_count", decimal t.kolExitCount),
  ("kol_exit_mcap_first_usd", fmt.fixed 0 t.kolExitMcapFirstUsd),
  ("kol_exit_mcap_last_usd", fmt.fixed 0 t.kolExitMcapLastUsd),
  ("our_avg_exit_mcap_usd", fmt.fixed 0 t.ourAvgExitMcapUsd)]

/-- The names of the columns, in order. -/
def names : List String := [
  "ts_unix_ns", "portfolio", "kol_name", "token_address", "token_symbol", "bnb_in_wei",
    "bnb_out_wei", "pnl_wei",
  "pnl_bnb", "pnl_usd", "pnl_pct", "d_mcap_usd", "our_entry_mcap_usd", "bnb_usd_close",
  "opened_at_block",
  "closed_at_block", "held_secs", "buy_tx_count", "close_reason", "trigger_sell_tx",
  "kol_exit_count",
  "kol_exit_mcap_first_usd", "kol_exit_mcap_last_usd", "our_avg_exit_mcap_usd"]

theorem map_fst_columns (fmt : FloatFormat) (t : ClosedTrade) :
    (columns fmt t).map Prod.fst = names := rfl

/-- The header is a line with these names. -/
theorem header_line : CSV_HEADER.toList = line ((names.map String.toList).map quoteField) := by
  unfold CSV_HEADER
  simp only [String.toList_append]
  decide +kernel

/-! ### Columns that need no quotes -/

theorem isWord_label (mode : PortfolioMode) : IsWord mode.label.toList := by
  cases mode with
  | fastTip | normalTip => decide

theorem isWord_reason (reason : CloseReason) : IsWord reason.label.toList := by
  cases reason with
  | kolSell | timeout | manualForce | noLiquidity | priceUnavailable => decide

theorem isWord_trigger (trigger : Option B256) :
    IsWord ((trigger.map fun h => hex 64 h.toNat).getD []) := by
  cases trigger with
  | none => decide
  | some h => exact isWord_hex _ _

/-- Only the two names are quoted; the other columns would be written the same with quotes where
they are needed. -/
theorem formatCsvRow_eq_line (fmt : FloatFormat) (t : ClosedTrade) :
    formatCsvRow fmt t = line (((columns fmt t).map Prod.snd).map quoteField) := by
  have number : ∀ n, quoteField (decimal n) = decimal n :=
    fun n => Csv.quoteField_of_isWord (isWord_decimal n)
  have signed : ∀ n, quoteField (decimalInt n) = decimalInt n :=
    fun n => Csv.quoteField_of_isWord (isWord_decimalInt n)
  have word : ∀ k n, quoteField (hex k n) = hex k n :=
    fun k n => Csv.quoteField_of_isWord (isWord_hex k n)
  have fraction : ∀ places x, quoteField (fmt.fixed places x) = fmt.fixed places x :=
    fun places x => Csv.quoteField_of_isWord (fmt.word places x)
  have label := Csv.quoteField_of_isWord (isWord_label t.portfolio)
  have reason := Csv.quoteField_of_isWord (isWord_reason t.closeReason)
  have trigger := Csv.quoteField_of_isWord (isWord_trigger t.triggerSellTx)
  simp only [formatCsvRow, columns, csvEscape, List.map_cons, List.map_nil, number, signed, word,
    fraction, label, reason,
    trigger]

/-! ### The file -/

/-- A row is one record with a field for every name of the header, those of the names as they were,
and a file of a header and any rows is read as the header's names and a record per row. -/
theorem csv_reads (fmt : FloatFormat) :
    (∀ t, readRecords (formatCsvRow fmt t) = some [(columns fmt t).map Prod.snd] ∧
      readRecords CSV_HEADER.toList = some [((columns fmt t).map Prod.fst).map String.toList] ∧
      (columns fmt t)[2]? = some ("kol_name", t.kolName.toList) ∧
      (columns fmt t)[4]? = some ("token_symbol", t.tokenSymbol.toList)) ∧
    ∀ trades : List ClosedTrade,
      readRecords (CSV_HEADER.toList ++ trades.flatMap (formatCsvRow fmt)) =
      some (names.map String.toList :: trades.map fun t => (columns fmt t).map Prod.snd) := by
  have rows : ∀ trades : List ClosedTrade, readRecords (trades.flatMap (formatCsvRow fmt)) =
      some (trades.map fun t => (columns fmt t).map Prod.snd) := by
    intro trades
    have written : trades.flatMap (formatCsvRow fmt) =
        (trades.map fun t => (columns fmt t).map Prod.snd).flatMap fun fields =>
          line (fields.map quoteField) := by
      rw [List.flatMap_map, funext (formatCsvRow_eq_line fmt)]
    rw [written]
    apply Csv.readRecords_lines
    intro fields member
    rcases List.mem_map.mp member with ⟨t, _, rfl⟩
    exact List.cons_ne_nil _ _
  have file : ∀ trades : List ClosedTrade, readRecords
      (CSV_HEADER.toList ++ trades.flatMap (formatCsvRow fmt)) =
      some (names.map String.toList :: trades.map fun t => (columns fmt t).map Prod.snd) := by
    intro trades
    have some_ : names.map String.toList ≠ [] := List.cons_ne_nil _ _
    rw [header_line, Csv.readRecords_line some_, rows]
    rfl
  constructor
  · intro t
    have single := rows [t]
    have empty := file []
    rw [List.flatMap_singleton] at single
    rw [List.flatMap_nil, List.append_nil] at empty
    rw [map_fst_columns]
    exact ⟨single, empty, rfl, rfl⟩
  · exact file

end BscMempool.Trader.Ledger
