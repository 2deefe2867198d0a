/-
Module: BscMempool.Proofs.LedgerBuyRow
Layer: Proofs
Purpose: When the trail watcher finds a token's last broadcast BUY in the live ledger.  The writer
  quotes names and the reader splits at every comma and line feed, and the reader's tests let rows
  of skipped entries through.
Trusted boundary: none
Main exports: lastWhere, passes_written, LastBuy, Recovers, recovers_iff, skip_row_hides_buy,
  buyRow_text
-/
import BscMempool.Trader.AdaptiveTrail
import BscMempool.Trader.LiveLedger

namespace BscMempool.Trader.LiveLedger

open Codec
open Codec.Csv (Field mem_quoteField)

/-! ### The last of a list that passes -/

section
variable {α : Type} (p : α → Bool)

/-- The last element that passes, and its place. -/
def lastWhere : List α → Option (α × Nat)
  | [] => none
  | x :: rest =>
      match lastWhere rest with
      | some (y, place) => some (y, place + 1)
      | none => if p x then some (x, 0) else none

theorem lastWhere_eq_none {l : List α} : lastWhere p l = none ↔ ∀ x ∈ l, p x = false := by
  induction l with
  | nil => simp [lastWhere]
  | cons x rest ih =>
      cases later : lastWhere p rest with
      | some found =>
          have passing : ¬ ∀ y ∈ rest, p y = false := by
            rw [← ih, later]
            exact Option.some_ne_none _
          simp [lastWhere, later, passing]
      | none =>
          have fail := ih.mp later
          simp [lastWhere, later]
          exact fun _ => fail

theorem map_fst_lastWhere (l : List α) : (lastWhere p l).map Prod.fst = (l.filter p).getLast? := by
  induction l with
  | nil => rfl
  | cons x rest ih =>
      cases later : lastWhere p rest with
      | some found =>
          rw [later] at ih
          cases here : p x with
          | true => simp [lastWhere, later, here, List.getLast?_cons, ← ih]
          | false => simp [lastWhere, later, here, ← ih]
      | none =>
          have nothing : rest.filter p = [] :=
            List.filter_eq_nil_iff.mpr (by simpa using (lastWhere_eq_none p).mp later)
          cases here : p x with
          | true => simp [lastWhere, later, here, nothing]
          | false => simp [lastWhere, later, here, nothing]

/-- The element at a place is the last that passes if it passes and none behind it does. -/
theorem lastWhere_append_cons (front back : List α) (x y : α) :
    lastWhere p (front ++ x :: back) = some (y, front.length) ↔
    y = x ∧ p x = true ∧ ∀ z ∈ back, p z = false := by
  induction front with
  | nil =>
      rw [← lastWhere_eq_none]
      cases later : lastWhere p back with
      | some found => simp [lastWhere, later]
      | none =>
          simp only [List.nil_append, lastWhere, later, List.length_nil,
            Option.ite_none_right_eq_some, Option.some.injEq,
            Prod.mk.injEq, and_true]
          tauto
  | cons f front ih =>
      rw [← ih]
      cases later : lastWhere p (front ++ x :: back) with
      | some found => simp [lastWhere, later, Prod.ext_iff]
      | none =>
          cases here : p f with
          | true => simp [lastWhere, later, here]
          | false => simp [lastWhere, later, here]

end

/-! ### Rows and the reader's tests -/

/-- The texts the code itself supplies: phase, visibility and skip reason are words. -/
structure Labelled (e : LiveEntry) : Prop where
  phase : IsWord e.phase.toList
  visibility : IsWord e.visibility.toList
  reason : IsWord (e.limitSkipReason.getD "").toList

theorem isWord_bool (b : Bool) : IsWord (if b then "true".toList else "false".toList) := by
  cases b with
  | true | false => decide

theorem not_mem_of_isWord {c : Char} (special : isWordChar c = false) {s : List Char}
    (word : IsWord s) : c ∉ s := by
  intro member
  rw [word c member] at special
  cases special

/-- A separator occurs in a written row only inside the names. -/
theorem not_mem_written {c : Char} (special : isWordChar c = false) (notQuote : c ≠ '"')
    (fmt : FloatFormat) (ts : Nat) {e : LiveEntry} (labels : Labelled e) :
    (∀ f ∈ written fmt ts e, c ∉ f) ↔ c ∉ e.kolName.toList ∧ c ∉ e.tokenSymbol.toList := by
  have word : ∀ {s : List Char}, IsWord s → c ∉ s := not_mem_of_isWord special
  simp only [written, csvEscape, List.forall_mem_cons, List.not_mem_nil, false_implies,
    implies_true, and_true,
    mem_quoteField notQuote, word (isWord_decimal _), word labels.phase, word labels.visibility,
    word (isWord_hex _ _),
    word (fmt.word _ _), word (isWord_bool _), word labels.reason, not_false_eq_true, true_and]

/-- A token's text occurs in the text of an address if it is the address. -/
theorem token_infix_iff {token address : Address} :
    hex 40 token.toNat <:+: (hex 40 address.toNat).map Char.toLower ↔ address = token := by
  rw [map_toLower_hex]
  constructor
  · intro inside
    have same := inside.eq_of_length (by simp)
    have low : ∀ a : Address, a.toNat < 16 ^ 40 := fun a => a.isLt.trans_eq (by norm_num)
    exact (BitVec.eq_of_toNat_eq (hex_inj (low _) (low _) same)).symm
  · intro same
    rw [same]

/-- What the reader takes for a BUY of `token`, if the columns are where they belong. -/
theorem passes_written (fmt : FloatFormat) (ts : Nat) (e : LiveEntry) (token : Address) :
    passes token (written fmt ts e) = true ↔
      e.tokenAddress = token ∧ e.visibility ≠ "exit" ∧ 0 < e.bnbInWei.toNat ∧
      e.bnbInWei.toNat < 2 ^ 128 := by
  have exits : e.visibility.toList = "exit".toList ↔ e.visibility = "exit" := String.toList_inj
  have columns : (written fmt ts e).getD 4 [] = hex 40 e.tokenAddress.toNat ∧
      (written fmt ts e).getD 3 [] = e.visibility.toList ∧
      (written fmt ts e).getD 6 [] = decimal e.bnbInWei.toNat ∧
      (written fmt ts e).length = 13 := ⟨rfl, rfl, rfl, rfl⟩
  unfold passes
  rw [columns.1, columns.2.1, columns.2.2.1, columns.2.2.2]
  simp only [Bool.and_eq_true, decide_eq_true_eq, bne_iff_ne, token_infix_iff, Ne, exits, le_refl,
    true_and, and_assoc]
  exact and_congr_right fun _ => and_congr_right fun _ => parseUnsigned_ne_zero _ _

/-! ### The last broadcast BUY -/

/-- A row of a BUY of `token` that was broadcast. -/
def IsBroadcastBuy (token : Address) (e : LiveEntry) : Prop :=
  e.tokenAddress = token ∧ e.broadcast = true ∧ e.visibility ≠ "exit"

/-- `buy`, appended at `ts` between `before` and `after`, is the last broadcast BUY of `token`. -/
structure LastBuy (token : Address) (rows before : List (Nat × LiveEntry)) (ts : Nat)
    (buy : LiveEntry) (after : List (Nat × LiveEntry)) : Prop where
  rows : rows = before ++ (ts, buy) :: after
  isBuy : IsBroadcastBuy token buy
  last : ∀ r ∈ after, ¬ IsBroadcastBuy token r.2

/-- There is a last one if there is one. -/
theorem exists_lastBuy {token : Address} {rows : List (Nat × LiveEntry)}
    (some_ : ∃ r ∈ rows, IsBroadcastBuy token r.2) :
    ∃ before ts buy after, LastBuy token rows before ts buy after := by
  induction rows with
  | nil => simp at some_
  | cons r rows ih =>
      by_cases later : ∃ r ∈ rows, IsBroadcastBuy token r.2
      · rcases ih later with ⟨before, ts, buy, after, last⟩
        exact ⟨r :: before, ts, buy, after, by rw [last.rows]; rfl, last.isBuy, last.last⟩
      · rcases some_ with ⟨s, member, isBuy⟩
        rcases List.mem_cons.mp member with here | there
        · exact ⟨[], r.1, r.2, rows, rfl, here ▸ isBuy, fun t member isBuy =>
            later ⟨t, member, isBuy⟩⟩
        · exact absurd ⟨s, there, isBuy⟩ later

/-- The scan ends with the line on which the row of `buy` starts, its parts are the columns of that
row, and amount and hash are read off them as they were appended. -/
def Recovers (fmt : FloatFormat) (token : Address) (rows before : List (Nat × LiveEntry)) (ts : Nat)
    (buy : LiveEntry) :
    Prop :=
  ∃ parts, buyRow token (text fmt rows) = some parts ∧
    lastWhere (passes token) ((lines (text fmt rows)).map fun line => line.splitOn ',') =
      some (parts, (lines (text fmt before)).length) ∧
    parts = written fmt ts buy ∧
    parseUnsigned (2 ^ 128) (parts.getD 6 []) = some buy.bnbInWei.toNat ∧
    parts.getD 9 [] = hex 64 buy.txHash.toNat

theorem exists_append_lineFeed (front back : List Char) :
    ∃ whole, front ++ (back ++ ['\n']) = whole ++ ['\n'] :=
  ⟨front ++ back, (List.append_assoc _ _ _).symm⟩

theorem exists_header_eq : ∃ front, CSV_HEADER.toList = front ++ ['\n'] := by
  have split : CSV_HEADER.toList = ("ts_unix_ns,phase,kol_name,visibility,token_address," ++
      "token_symbol,bnb_in_wei,gas_gwei,nonce,tx_hash,wallet_bnb,broadcast,").toList ++
        "limit_skip_reason\n".toList := by
    unfold CSV_HEADER
    exact String.toList_append
  have ending : "limit_skip_reason\n".toList = "limit_skip_reason".toList ++ ['\n'] := by
    decide +kernel
  rw [split, ending]
  exact exists_append_lineFeed _ _

/-- The file ends with a line feed. -/
theorem exists_text_eq (fmt : FloatFormat) (rows : List (Nat × LiveEntry)) :
    ∃ front, text fmt rows = front ++ ['\n'] := by
  cases rows using List.reverseRecOn with
  | nil =>
      rw [text, List.flatMap_nil, List.append_nil]
      exact exists_header_eq
  | append_singleton front r =>
      have whole : text fmt (front ++ [r]) = text fmt front ++ row fmt r.1 r.2 := by simp [text]
      rw [whole, row, Csv.line]
      exact exists_append_lineFeed _ _

/-- The lines of the file up to a row, of the row, and behind it. -/
theorem lines_text (fmt : FloatFormat) (before after : List (Nat × LiveEntry)) (ts : Nat)
    (buy : LiveEntry) :
    lines (text fmt (before ++ (ts, buy) :: after)) = lines (text fmt before) ++
      lines ([','].intercalate (written fmt ts buy) ++ '\n' :: after.flatMap fun r =>
        row fmt r.1 r.2) := by
  rcases exists_text_eq fmt before with ⟨front, endsSo⟩
  have whole : text fmt (before ++ (ts, buy) :: after) =
      front ++ '\n' :: ([','].intercalate (written fmt ts buy) ++ '\n' :: after.flatMap fun r =>
        row fmt r.1 r.2) := by
    have split : text fmt (before ++ (ts, buy) :: after) =
        text fmt before ++ (row fmt ts buy ++ after.flatMap fun r => row fmt r.1 r.2) := by
      simp [text]
    rw [split, endsSo]
    simp [row, Csv.line]
  rw [whole, lines_append, ← endsSo]

/-- The end of a row is no part of a line break. -/
theorem chomp_written (fmt : FloatFormat) (ts : Nat) {e : LiveEntry} (labels : Labelled e) :
    chomp ([','].intercalate (written fmt ts e)) = [','].intercalate (written fmt ts e) := by
  have clean : '\r' ∉ ',' :: (e.limitSkipReason.getD "").toList := by
    rw [List.mem_cons, not_or]
    exact ⟨by decide, not_mem_of_isWord (by decide) labels.reason⟩
  have split : written fmt ts e = (written fmt ts e).dropLast ++
      [(e.limitSkipReason.getD "").toList] := rfl
  have some_ : (written fmt ts e).dropLast ≠ [] := List.cons_ne_nil _ _
  rw [split, Csv.intercalate_concat some_]
  exact chomp_append (List.cons_ne_nil _ _) clean _

/-- The names have no separators. -/
structure Unbroken (e : LiveEntry) : Prop where
  commas : ',' ∉ e.kolName.toList ∧ ',' ∉ e.tokenSymbol.toList
  lineFeeds : '\n' ∉ e.kolName.toList ∧ '\n' ∉ e.tokenSymbol.toList

/-- The parts of a row are its columns, unless a name has a comma. -/
theorem splitOn_written_iff (fmt : FloatFormat) (ts : Nat) {e : LiveEntry} (labels : Labelled e) :
    ([','].intercalate (written fmt ts e)).splitOn ',' = written fmt ts e ↔
      ',' ∉ e.kolName.toList ∧ ',' ∉ e.tokenSymbol.toList := by
  have some_ : written fmt ts e ≠ [] := List.cons_ne_nil _ _
  rw [Csv.splitOn_intercalate_iff some_, not_mem_written (by decide) (by decide) fmt ts labels]

/-- A row is one line, unless a name has a line feed. -/
theorem lineFeed_not_mem_iff (fmt : FloatFormat) (ts : Nat) {e : LiveEntry} (labels : Labelled e) :
    '\n' ∉ [','].intercalate (written fmt ts e) ↔
    '\n' ∉ e.kolName.toList ∧ '\n' ∉ e.tokenSymbol.toList := by
  rw [← not_mem_written (by decide) (by decide) fmt ts labels, Csv.mem_intercalate (by decide)]
  simp only [not_exists, not_and]

/-- The watcher finds the last broadcast BUY exactly when the names in its row have no comma and no
line feed, its amount is not zero, and no line behind it passes the reader's tests. -/
theorem recovers_iff (fmt : FloatFormat) {token : Address}
    {rows before after : List (Nat × LiveEntry)} {ts : Nat}
    {buy : LiveEntry} (last : LastBuy token rows before ts buy after) (labels : Labelled buy)
    (below : buy.bnbInWei.toNat < 2 ^ 128) :
    Recovers fmt token rows before ts buy ↔
      Unbroken buy ∧ 0 < buy.bnbInWei.toNat ∧
        ∀ line ∈ lines (after.flatMap fun r => row fmt r.1 r.2),
          passes token (line.splitOn ',') = false := by
  rcases exists_first_line ([','].intercalate (written fmt ts buy))
    (after.flatMap fun r => row fmt r.1 r.2)
    with ⟨first, more, start, ofOne, oneLine⟩
  have place : (lines (text fmt before)).length =
      ((lines (text fmt before)).map fun line => line.splitOn ',').length := by rw [List.length_map]
  have found : ∀ parts, lastWhere (passes token)
      ((lines (text fmt rows)).map fun line => line.splitOn ',') =
      some (parts, (lines (text fmt before)).length) ↔
      parts = first.splitOn ',' ∧ passes token (first.splitOn ',') = true ∧
        ∀ line ∈ more, passes token (line.splitOn ',') = false := by
    intro parts
    rw [last.rows, lines_text, start, List.map_append, List.map_cons, place, lastWhere_append_cons,
      List.forall_mem_map]
  constructor
  · intro recovers
    rcases recovers with ⟨parts, -, scan, whole, -⟩
    rcases (found parts).mp scan with ⟨split, pass, none_⟩
    have sameText : [','].intercalate (written fmt ts buy) = first := by
      rw [← whole, split, List.intercalate_splitOn]
    have unbroken : '\n' ∉ [','].intercalate (written fmt ts buy) := sameText ▸ oneLine
    rw [← split, whole, passes_written] at pass
    rw [(ofOne unbroken).2] at none_
    have columns : ([','].intercalate (written fmt ts buy)).splitOn ',' = written fmt ts buy := by
      rw [sameText, ← split, whole]
    exact ⟨⟨(splitOn_written_iff fmt ts labels).mp columns,
      (lineFeed_not_mem_iff fmt ts labels).mp unbroken⟩,
      pass.2.2.1, none_⟩
  · intro holds
    rcases holds with ⟨names, positive, none_⟩
    have columns := (splitOn_written_iff fmt ts labels).mpr names.commas
    rcases ofOne ((lineFeed_not_mem_iff fmt ts labels).mpr names.lineFeeds) with ⟨isFirst, isRest⟩
    rw [chomp_written fmt ts labels] at isFirst
    have pass : passes token (first.splitOn ',') = true := by
      rw [isFirst, columns, passes_written]
      exact ⟨last.isBuy.1, last.isBuy.2.2, positive, below⟩
    have scan := (found (first.splitOn ',')).mpr ⟨rfl, pass, isRest ▸ none_⟩
    rw [isFirst, columns] at scan
    have selected : buyRow token (text fmt rows) = some (written fmt ts buy) := by
      rw [buyRow, ← map_fst_lastWhere, scan]
      rfl
    have amount : parseUnsigned (2 ^ 128) (decimal buy.bnbInWei.toNat) =
        some buy.bnbInWei.toNat := by
      rw [parseUnsigned_decimal, if_pos below]
    exact ⟨written fmt ts buy, selected, scan, rfl, amount, rfl⟩

/-- An entry that was bought and one of the same token that a limit kept from being bought. -/
def boughtEntry : LiveEntry where
  phase := "tiny"
  kolName := "alpha"
  visibility := "public"
  tokenAddress := 0xAA
  bnbInWei := BitVec.ofNat 256 (10 ^ 17)
  gasGwei := 1
  nonce := 5
  txHash := 0xBEEF
  walletBnb := 1
  broadcast := true
  limitSkipReason := none

def skippedEntry : LiveEntry :=
  { boughtEntry with nonce := 0, txHash := 0, broadcast := false,
                     limitSkipReason := some "max_open" }

theorem boughtEntry_labelled : Labelled boughtEntry where
  phase := by decide +kernel
  visibility := by decide +kernel
  reason := by decide +kernel

theorem boughtEntry_unbroken : Unbroken boughtEntry where
  commas := by decide +kernel
  lineFeeds := by decide +kernel

theorem skippedEntry_plain : Labelled skippedEntry ∧ Unbroken skippedEntry :=
  ⟨⟨boughtEntry_labelled.phase, boughtEntry_labelled.visibility, by decide +kernel⟩,
    ⟨boughtEntry_unbroken.commas, boughtEntry_unbroken.lineFeeds⟩⟩

/-- Plain rows are one line each. -/
theorem lines_rows (fmt : FloatFormat) {rows : List (Nat × LiveEntry)}
    (clean : ∀ r ∈ rows, Labelled r.2 ∧ Unbroken r.2) :
    lines (rows.flatMap fun r => row fmt r.1 r.2) = rows.map fun r =>
      [','].intercalate (written fmt r.1 r.2) := by
  induction rows with
  | nil => rfl
  | cons r rest ih =>
      rcases clean r List.mem_cons_self with ⟨labels, names⟩
      have one := (lineFeed_not_mem_iff fmt r.1 labels).mpr names.lineFeeds
      have front : (r :: rest).flatMap (fun r => row fmt r.1 r.2) =
          [','].intercalate (written fmt r.1 r.2) ++ '\n' :: rest.flatMap fun r =>
            row fmt r.1 r.2 := by simp [row, Csv.line]
      rw [front, lines_cons one, chomp_written fmt r.1 labels, ih fun s member =>
        clean s (List.mem_cons_of_mem _ member)]
      rfl

/-- Behind the BUY the reader takes none of plain rows if none passes its tests. -/
theorem none_pass_iff (fmt : FloatFormat) (token : Address) {rows : List (Nat × LiveEntry)}
    (clean : ∀ r ∈ rows, Labelled r.2 ∧ Unbroken r.2) :
    (∀ line ∈ lines (rows.flatMap fun r => row fmt r.1 r.2),
      passes token (line.splitOn ',') = false) ↔
      ∀ r ∈ rows, passes token (written fmt r.1 r.2) = false := by
  rw [lines_rows fmt clean, List.forall_mem_map]
  apply forall₂_congr
  intro r member
  rw [(splitOn_written_iff fmt r.1 (clean r member).1).mpr (clean r member).2.commas]

/-- The BUY is found behind a refused one of its token and in front of its exit and of
another token's BUY. -/
theorem recovers_among_rows :
    let sold := { boughtEntry with visibility := "exit", bnbInWei := 0, nonce := 6 }
    let other := { boughtEntry with tokenAddress := 0xBB, nonce := 7 }
    Recovers .exact 0xAA [(1, skippedEntry), (2, boughtEntry), (3, sold), (4, other)]
      [(1, skippedEntry)] 2 boughtEntry := by
  intro sold other
  have last : LastBuy 0xAA [(1, skippedEntry), (2, boughtEntry), (3, sold), (4, other)]
      [(1, skippedEntry)] 2 boughtEntry
      [(3, sold), (4, other)] :=
        ⟨rfl, ⟨rfl, rfl, by decide⟩, by simp [IsBroadcastBuy, sold, other, boughtEntry]⟩
  have plain : ∀ r ∈ [(3, sold), (4, other)], Labelled r.2 ∧ Unbroken r.2 := by
    simp only [List.forall_mem_cons, List.not_mem_nil, false_implies, implies_true, and_true]
    exact ⟨⟨⟨boughtEntry_labelled.phase, by decide +kernel, boughtEntry_labelled.reason⟩,
        ⟨boughtEntry_unbroken.commas, boughtEntry_unbroken.lineFeeds⟩⟩,
      ⟨⟨boughtEntry_labelled.phase, boughtEntry_labelled.visibility, boughtEntry_labelled.reason⟩,
        ⟨boughtEntry_unbroken.commas, boughtEntry_unbroken.lineFeeds⟩⟩⟩
  have refused : ∀ r ∈ [(3, sold), (4, other)], passes 0xAA (written .exact r.1 r.2) = false := by
    intro r member
    rw [← Bool.not_eq_true, passes_written]
    rcases List.mem_pair.mp member with rfl | rfl
    · exact fun pass => pass.2.1 rfl
    · exact fun pass => absurd pass.1 (by decide)
  apply (recovers_iff .exact last boughtEntry_labelled (by decide)).mpr
  exact ⟨boughtEntry_unbroken, by decide, (none_pass_iff .exact 0xAA plain).mpr refused⟩

/-! ### Ledgers without separators in names -/

/-- The header is not taken for a row. -/
theorem header_not_passes (token : Address) :
    ∀ line ∈ lines CSV_HEADER.toList, passes token (line.splitOn ',') = false := by
  have amounts : (lines CSV_HEADER.toList).all
      (fun line => (parseUnsigned (2 ^ 128) ((line.splitOn ',').getD 6 [])).getD 0 == 0) =
        true := by
    unfold CSV_HEADER
    simp only [String.toList_append]
    decide +kernel
  intro line member
  have zero := List.all_eq_true.mp amounts line member
  rw [beq_iff_eq] at zero
  unfold passes
  rw [zero]
  exact Bool.and_false _

/-- The lines of a file without separators in names are the header's and one for each row. -/
theorem lines_text_of_unbroken (fmt : FloatFormat) {rows : List (Nat × LiveEntry)}
    (clean : ∀ r ∈ rows, Labelled r.2 ∧ Unbroken r.2) :
    lines (text fmt rows) = lines CSV_HEADER.toList ++ rows.map fun r =>
      [','].intercalate (written fmt r.1 r.2) := by
  cases rows with
  | nil => simp [text]
  | cons r rest =>
      have front : [','].intercalate (written fmt r.1 r.2) ++ '\n' ::
          (rest.flatMap fun r => row fmt r.1 r.2) =
          (r :: rest).flatMap fun r => row fmt r.1 r.2 := by simp [row, Csv.line]
      have header : text fmt [] = CSV_HEADER.toList := by simp [text]
      have split := lines_text fmt [] rest r.1 r.2
      rw [front, lines_rows fmt clean, header] at split
      exact split

/-- On such files the scan ends with the last row that passes for a BUY of the token. -/
theorem buyRow_text (fmt : FloatFormat) (token : Address) {rows : List (Nat × LiveEntry)}
    (clean : ∀ r ∈ rows, Labelled r.2 ∧ Unbroken r.2) :
    buyRow token (text fmt rows) =
      (rows.filter fun r => passes token (written fmt r.1 r.2)).getLast?.map fun r =>
        written fmt r.1 r.2 := by
  have columns : rows.map (fun r => ([','].intercalate (written fmt r.1 r.2)).splitOn ',') =
      rows.map fun r => written fmt r.1 r.2 :=
    List.map_congr_left fun r member => (splitOn_written_iff fmt r.1 (clean r member).1).mpr
      (clean r member).2.commas
  have noHeader : ((lines CSV_HEADER.toList).map fun line => line.splitOn ',').filter
      (passes token) = [] := by
    rw [List.filter_eq_nil_iff, List.forall_mem_map]
    intro line member
    rw [header_not_passes token line member]
    exact Bool.false_ne_true
  rw [buyRow, lines_text_of_unbroken fmt clean, List.map_append, List.map_map, List.filter_append,
    noHeader,
    List.nil_append, Function.comp_def, columns, List.filter_map, List.getLast?_map,
    Function.comp_def]

/-- It is the row of the entry that a scan of the entries would find. -/
theorem latestBuyRow_eq (fmt : FloatFormat) (token : Address) (rows : List (Nat × LiveEntry)) :
    latestBuyRow (rows.map Prod.snd) token =
      (rows.filter fun r => passes token (written fmt r.1 r.2)).getLast?.map Prod.snd := by
  have sameTest : ∀ r : Nat × LiveEntry, (r.2.tokenAddress == token && r.2.visibility != "exit" &&
      decide (0 < r.2.bnbInWei.toNat ∧ r.2.bnbInWei.toNat < 2 ^ 128)) =
        passes token (written fmt r.1 r.2) := by
    intro r
    rw [Bool.eq_iff_iff, passes_written]
    simp [and_assoc]
  rw [latestBuyRow, List.filter_map, List.getLast?_map]
  simp only [Function.comp_def, sameTest]

/-- A row of a skipped entry, appended behind the BUY, is taken for it. -/
theorem skip_row_hides_buy :
    LastBuy 0xAA [(1, boughtEntry), (2, skippedEntry)] [] 1 boughtEntry [(2, skippedEntry)] ∧
      buyRow 0xAA (text .exact [(1, boughtEntry), (2, skippedEntry)]) =
        some (written .exact 2 skippedEntry) ∧
      ¬ Recovers .exact 0xAA [(1, boughtEntry), (2, skippedEntry)] [] 1 boughtEntry := by
  have clean : ∀ r ∈ [(1, boughtEntry), (2, skippedEntry)], Labelled r.2 ∧ Unbroken r.2 := by
    simp only [List.forall_mem_cons, List.not_mem_nil, false_implies, implies_true, and_true]
    exact ⟨⟨boughtEntry_labelled, boughtEntry_unbroken⟩,
      skippedEntry_plain⟩
  have pass : passes 0xAA (written .exact 2 skippedEntry) = true :=
    (passes_written .exact 2 skippedEntry 0xAA).mpr ⟨rfl, by decide, by decide, by decide⟩
  have selects : buyRow 0xAA (text .exact [(1, boughtEntry), (2, skippedEntry)]) =
      some (written .exact 2 skippedEntry) := by
    have skipRow : [(2, skippedEntry)].filter (fun r => passes 0xAA (written .exact r.1 r.2)) =
        [(2, skippedEntry)] :=
      List.filter_cons_of_pos pass
    rw [buyRow_text .exact 0xAA clean, List.filter_cons, skipRow]
    split
    · rfl
    · rfl
  constructor
  · exact ⟨rfl, ⟨rfl, rfl, by decide⟩, by simp [IsBroadcastBuy, skippedEntry]⟩
  · constructor
    · exact selects
    · intro recovers
      rcases recovers with ⟨parts, found, -, -, -, hash⟩
      rw [selects, Option.some.injEq] at found
      rw [← found] at hash
      exact absurd hash (by decide +kernel)

end BscMempool.Trader.LiveLedger
