/-
Module: BscMempool.Proofs.TradeSpec
Layer: Proofs
Purpose: Contracts about the trade alone. A specification says what the cache, the locks and the
  wire satisfy and what a step may do to them; every operation on them then has one rule, stated on
  the trade.
Trusted boundary: none
Main exports: TradeSpec, TradeSpec.contract, TradeSpec.about, TradeSpec.get, TradeSpec.submit,
  TradeSpec.writeBack, TradeSpec.open
-/
import BscMempool.Proofs.QuietSteps

namespace BscMempool.Trader

open Concurrent (Tid Machine Contract Outcome)

/-- Something about every element of a log and what came before it, after one more. -/
theorem forall_prefix_append {α : Type} (P : List α → α → Prop) {l : List α} {x : α}
    (old : ∀ k r, l[k]? = some r → P (l.take k) r) (last : P l x) :
    ∀ k r, (l ++ [x])[k]? = some r → P ((l ++ [x]).take k) r := by
  intro k r found
  by_cases before : k < l.length
  · rw [List.getElem?_append_left before] at found
    rw [List.take_append_of_le_length (Nat.le_of_lt before)]
    exact old k r found
  · have bound := (List.getElem?_eq_some_iff.1 found).1
    rw [List.length_append, List.length_singleton] at bound
    obtain rfl : k = l.length := by omega
    rw [List.getElem?_concat_length] at found
    cases found
    rw [List.take_left' rfl]
    exact last

/-! ### What no step undoes -/

/-- What an entry keeps, whoever changes it. -/
structure PositionEntry.Becomes (p p' : PositionEntry) : Prop where
  token : p'.token = p.token
  route : p'.route = p.route
  openedAt : p'.openedAt = p.openedAt
  finalizer : p'.finalizer = p.finalizer
  approved : p.approved = true → p'.approved = true

theorem PositionEntry.Becomes.refl (p : PositionEntry) : p.Becomes p := ⟨rfl, rfl, rfl, rfl, id⟩

/-- The wire only grows, and no entry is lost or becomes one for another position. -/
structure Grows (t t' : Trade) : Prop where
  wire : t.wire <+: t'.wire
  entries : ∀ (e : EntryId) (p : PositionEntry), t.book.entries[e]? = some p →
    ∃ p', t'.book.entries[e]? = some p' ∧ p.Becomes p'

namespace Grows

theorem refl (t : Trade) : Grows t t := ⟨List.prefix_rfl, fun _ p found => ⟨p, found, .refl p⟩⟩

/-- A step that changes entries one by one. -/
theorem of_map {t t' : Trade} (wire : t'.wire = t.wire)
    (f : EntryId → PositionEntry → PositionEntry)
    (entries : ∀ e : EntryId, t'.book.entries[e]? = t.book.entries[e]?.map (f e))
    (becomes : ∀ (e : EntryId) (p : PositionEntry), p.Becomes (f e p)) : Grows t t' := by
  refine ⟨wire ▸ List.prefix_rfl, fun e p found => ⟨f e p, ?_, becomes e p⟩⟩
  rw [entries, found]
  rfl

theorem transmit (t : Trade) (r : WireTx) : Grows t (t.transmit r) :=
  ⟨List.prefix_append _ _, fun _ p found => ⟨p, found, .refl p⟩⟩

variable {t : Trade}

theorem writeBack {token : Address} {tokens : U256} {unsettled : Address → Nat} :
    Grows t { t with book := t.book.writeBack token tokens, unsettled := unsettled } := by
  refine of_map rfl _ (fun e => Book.writeBack_entries) fun e p => ?_
  split
  · exact ⟨rfl, rfl, rfl, rfl, id⟩
  · exact .refl p

theorem setTokens {e : EntryId} {tokens : U256} :
    Grows t { t with book := t.book.setTokens e tokens } := by
  refine of_map rfl _ (fun d => Book.setTokens_entries) fun d p => ?_
  split
  · exact ⟨rfl, rfl, rfl, rfl, id⟩
  · exact .refl p

theorem setApproved {e : EntryId} : Grows t { t with book := t.book.setApproved e } := by
  refine of_map rfl _ (fun d => Book.setApproved_entries) fun d p => ?_
  split
  · exact ⟨rfl, rfl, rfl, rfl, fun _ => rfl⟩
  · exact .refl p

theorem insert {p : PositionEntry} : Grows t { t with book := t.book.insert p } :=
  ⟨List.prefix_rfl, fun _ q found => ⟨q, Book.insert_old found, .refl q⟩⟩

/-- What any operation does to the trade. -/
theorem of_exec {w : TrailWatcher} {i fresh : Tid} {o : Op} {a : w.machine.Ans o} {s : World}
    {out : Outcome World Task o.Res} (did : w.machine.exec i fresh o a s = some out) :
    Grows s.trade out.shared.trade := by
  cases o with
  | trade o =>
      obtain ⟨mid, ran, rfl⟩ := Option.map_eq_some_iff.1 did
      cases o with
      | positionsGet token | positionSnapshot =>
          cases ran
          exact .refl _
      | loadEntry e =>
          obtain ⟨p, _, rfl⟩ := Option.map_eq_some_iff.1 ran
          exact .refl _
      | lockExit token =>
          simp only [TradeOp.exec] at ran
          split at ran
          · cases ran
            exact ⟨List.prefix_rfl, (Grows.refl _).entries⟩
          · cases ran
      | positionsRemove token | unlockExit token =>
          cases ran
          exact ⟨List.prefix_rfl, (Grows.refl _).entries⟩
      | openPosition token route bnbIn txHash =>
          cases ran
          exact .insert
      | storeTokensBought e tokens =>
          cases ran
          exact .setTokens
      | storeApproved e balanceRead =>
          cases ran
          exact .setApproved
      | writeBack token tokens sized =>
          cases ran
          exact .writeBack
  | submit tx hash site =>
      cases did
      exact .transmit _ _
  | env o =>
      obtain ⟨_, _, rfl⟩ := Option.map_eq_some_iff.1 did
      exact .refl _
  | sign tx => cases a <;> cases did <;> exact .refl _
  | _ =>
      cases did
      exact .refl _

end Grows

/-! ### Specifications -/

/-- A contract about the trade: the steps considered, the invariant, what a step of the
task at `i` may do, and what tasks start from and end with. A step that leaves the trade
alone is always within it. -/
structure TradeSpec where
  cond : Tid → (o : Op) → o.Ans → Trade → Prop
  inv : Trade → Prop
  guar : Tid → Trade → Trade → Prop
  pre : Task → Tid → Trade → Prop
  post : Task → Tid → Done → Trade → Prop
  idle : ∀ i t, inv t → guar i t t
  persist : ∀ n i t, pre (.persistNonce n) i t

namespace TradeSpec

variable (S : TradeSpec) (w : TrailWatcher)

/-- The specification as a contract of the live trader's machine. -/
def contract : Contract w.machine where
  cond i o a s := S.cond i o a s.trade
  inv s := S.inv s.trade
  guar i s s' := Grows s.trade s'.trade ∧ S.guar i s.trade s'.trade
  pre t i s := S.pre t i s.trade
  post t i v s := S.post t i v s.trade

variable {S w} {i : Tid}

theorem about : (S.contract w).About World.trade where
  inv s s' same inv := by
    change S.inv s'.trade
    rw [same]
    exact inv
  guar i s s' same inv := by
    change Grows s.trade s'.trade ∧ S.guar i s.trade s'.trade
    rw [same]
    exact ⟨.refl _, S.idle i s.trade inv⟩

theorem persists (n : UInt64) (i : Tid) (s : World) : (S.contract w).pre (.persistNonce n) i s :=
  S.persist n i s.trade

/-- A step of the task at `i` that keeps the invariant and the guarantee. -/
structure Moves (S : TradeSpec) (i : Tid) (t t' : Trade) : Prop where
  inv : S.inv t'
  guar : S.guar i t t'

/-- An assertion about the trade that the steps of the other tasks keep. -/
def assertion (w : TrailWatcher) (i : Tid) (P : Trade → Prop)
    (stable : ∀ j t t', j ≠ i → S.inv t → S.inv t' → Grows t t' → S.guar j t t' → P t → P t') :
    (S.contract w).Assertion World.trade i where
  holds := P
  stable _ _ _ ne inv inv' guar holds := stable _ _ _ ne inv inv' guar.1 guar.2 holds

/-! ### One rule for each operation

Each rule asks for the effect of the operation on the trade alone. -/

theorem ask (q : Query) (P : Trade → Prop) (Q : q.Reply → Trade → Prop)
    (each : ∀ t reply, S.inv t → P t → S.cond i (.ask q) reply t → Q reply t) :
    (S.contract w).Triple i (fun s => P s.trade) (.ask q) fun reply s => Q reply s.trade := by
  intro s inv holds fresh _ reply meets out did
  cases did
  exact ⟨.quiet inv ⟨.refl _, S.idle i s.trade inv⟩ rfl, each s.trade reply inv holds meets⟩

variable {P : Trade → Prop}

theorem get (token : Address) {Q : Option (EntryId × PositionEntry) → Trade → Prop}
    (each : ∀ t, S.inv t → P t → S.cond i (.trade (.positionsGet token)) () t →
      Q (t.cached token) t) :
    (S.contract w).Triple i (fun s => P s.trade) (.trade (.positionsGet token))
      fun r s => Q r s.trade := by
  intro s inv holds fresh _ a meets out did
  cases did
  exact ⟨.quiet inv ⟨.refl _, S.idle i s.trade inv⟩ rfl, each s.trade inv holds meets⟩

theorem lock (token : Address) {Q : Trade → Prop}
    (each : ∀ t, S.inv t → P t → t.exitLocks token = none →
      let t' := { t with exitLocks := Function.update t.exitLocks token (some i) }
      S.Moves i t t' ∧ Q t') :
    (S.contract w).Triple i (fun s => P s.trade) (.trade (.lockExit token))
      fun _ s => Q s.trade := by
  intro s inv holds fresh _ a meets out did
  have grows := Grows.of_exec did
  obtain ⟨mid, locked, rfl⟩ := Option.map_eq_some_iff.1 did
  simp only [TradeOp.exec] at locked
  split at locked
  · rename_i free
    cases locked
    obtain ⟨moves, after⟩ := each s.trade inv holds free
    exact ⟨.quiet moves.inv ⟨grows, moves.guar⟩ rfl, after⟩
  · cases locked

theorem unlock (token : Address) {Q : Trade → Prop}
    (each : ∀ t, S.inv t → P t →
      let t' := { t with exitLocks := Function.update t.exitLocks token none }
      S.Moves i t t' ∧ Q t') :
    (S.contract w).Triple i (fun s => P s.trade) (.trade (.unlockExit token))
      fun _ s => Q s.trade := by
  intro s inv holds fresh _ a meets out did
  have grows := Grows.of_exec did
  cases did
  obtain ⟨moves, after⟩ := each s.trade inv holds
  exact ⟨.quiet moves.inv ⟨grows, moves.guar⟩ rfl, after⟩

theorem after_submit {ok : Bool} {P Q : Prop} (sent : ok = true → P) (failed : ok = false → Q) :
    if ok = true then P else Q := by
  cases ok
  · exact failed rfl
  · exact sent rfl

/-- A submission puts one record on the wire. -/
theorem submit (tx : TransactionRequest) (hash : B256) (site : Site) (P : Trade → Prop)
    (Q : Bool → Trade → Prop)
    (each : ∀ t (r : WireTx), r.sender = i → r.tx = tx → r.hash = hash → r.site = site → S.inv t →
      P t → S.cond i (.submit r.tx r.hash r.site) (⟨r.accepted, r.ok⟩ : Submitted) t →
      S.Moves i t (t.transmit r) ∧ Q r.ok (t.transmit r)) :
    (S.contract w).Triple i (fun s => P s.trade) (.submit tx hash site)
      fun ok s => Q ok s.trade := by
  intro s inv holds fresh _ sent meets out did
  have grows := Grows.of_exec did
  cases did
  obtain ⟨moves, after⟩ := each s.trade ⟨tx, hash, site, i, sent.accepted, sent.ok⟩ rfl rfl rfl rfl
    inv holds meets
  exact ⟨.quiet moves.inv ⟨grows, moves.guar⟩ rfl, after⟩

theorem writeBack (token : Address) (tokens : U256) (sized : Option EntryId) {Q : Trade → Prop}
    (each : ∀ t, S.inv t → P t → S.cond i (.trade (.writeBack token tokens sized)) () t →
      let t' := { t with
        book := t.book.writeBack token tokens
        unsettled := Function.update t.unsettled token 0 }
      S.Moves i t t' ∧ Q t') :
    (S.contract w).Triple i (fun s => P s.trade) (.trade (.writeBack token tokens sized))
      fun _ s => Q s.trade := by
  intro s inv holds fresh _ a meets out did
  have grows := Grows.of_exec did
  cases did
  obtain ⟨moves, after⟩ := each s.trade inv holds meets
  exact ⟨.quiet moves.inv ⟨grows, moves.guar⟩ rfl, after⟩

theorem remove (token : Address) {Q : Trade → Prop}
    (each : ∀ t, S.inv t → P t → S.cond i (.trade (.positionsRemove token)) () t →
      let t' := { t with book := t.book.remove token }
      S.Moves i t t' ∧ Q t') :
    (S.contract w).Triple i (fun s => P s.trade) (.trade (.positionsRemove token))
      fun _ s => Q s.trade := by
  intro s inv holds fresh _ a meets out did
  have grows := Grows.of_exec did
  cases did
  obtain ⟨moves, after⟩ := each s.trade inv holds meets
  exact ⟨.quiet moves.inv ⟨grows, moves.guar⟩ rfl, after⟩

theorem storeTokensBought (entry : EntryId) (tokens : U256) {Q : Trade → Prop}
    (each : ∀ t, S.inv t → P t → S.cond i (.trade (.storeTokensBought entry tokens)) () t →
      let t' := { t with book := t.book.setTokens entry tokens }
      S.Moves i t t' ∧ Q t') :
    (S.contract w).Triple i (fun s => P s.trade) (.trade (.storeTokensBought entry tokens))
      fun _ s => Q s.trade := by
  intro s inv holds fresh _ a meets out did
  have grows := Grows.of_exec did
  cases did
  obtain ⟨moves, after⟩ := each s.trade inv holds meets
  exact ⟨.quiet moves.inv ⟨grows, moves.guar⟩ rfl, after⟩

theorem storeApproved (entry : EntryId) (balanceRead : U256) {Q : Trade → Prop}
    (each : ∀ t, S.inv t → P t → S.cond i (.trade (.storeApproved entry balanceRead)) () t →
      let t' := { t with book := t.book.setApproved entry }
      S.Moves i t t' ∧ Q t') :
    (S.contract w).Triple i (fun s => P s.trade) (.trade (.storeApproved entry balanceRead))
      fun _ s => Q s.trade := by
  intro s inv holds fresh _ a meets out did
  have grows := Grows.of_exec did
  cases did
  obtain ⟨moves, after⟩ := each s.trade inv holds meets
  exact ⟨.quiet moves.inv ⟨grows, moves.guar⟩ rfl, after⟩

/-- The insertion of an entry starts its finalize task. -/
theorem openPosition (token : Address) (route : BuyRoute) (bnbIn : U256) (txHash : B256)
    {Q : EntryId → Trade → Prop}
    (each : ∀ t fresh, i < fresh → S.inv t → P t →
      S.cond i (.trade (.openPosition token route bnbIn txHash)) () t →
      let t' := { t with book := t.book.insert (t.freshEntry token route bnbIn fresh) }
      S.Moves i t t' ∧
        S.pre (.finalizePosition token txHash route t.book.entries.length) fresh t' ∧
        Q t.book.entries.length t') :
    (S.contract w).Triple i (fun s => P s.trade) (.trade (.openPosition token route bnbIn txHash))
      fun entry s => Q entry s.trade := by
  intro s inv holds fresh lt a meets out did
  have grows := Grows.of_exec did
  cases did
  obtain ⟨moves, starts, after⟩ := each s.trade fresh lt inv holds meets
  refine ⟨⟨moves.inv, ⟨grows, moves.guar⟩, fun j t started => ?_⟩, after⟩
  cases j with
  | zero =>
      cases started
      exact starts
  | succ j => cases started

/-- What a process that leaves the trade alone does not disturb. -/
theorem leaves (A : (S.contract w).Assertion World.trade i) {α : Type} {p : Live α}
    (all : p.All Op.leavesTrade) {Q : α → World → Prop} (done : ∀ value s, A.on s → Q value s)
    {s : World} (now : A.on s) : (S.contract w).wp i p Q s :=
  A.wp_still about (all.mono fun _ => leavesTrade_still persists) done now

/-- The task that writes a nonce to the file is none of a trade contract's business. -/
theorem persistNonce_wp (n : UInt64) {Q : Done → World → Prop} (done : ∀ s, Q .unit s) {s : World} :
    (S.contract w).wp i (w.body (.persistNonce n)) Q s := by
  refine Contract.wp_seq (fun _ _ => True) ?_ fun _ s _ => done s
  exact leaves (S.assertion w i (fun _ => True) fun _ _ _ _ _ _ _ _ _ => trivial)
    (persistNonce_leavesTrade n) (fun _ _ _ => trivial) trivial

end TradeSpec

end BscMempool.Trader
