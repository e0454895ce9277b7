import Gamebank.Market.Fills

/-!
# How long an order stays

An order that is on the book leaves it in a match, or because its owner
cancels it, or because it has expired by the expiration that is stored. The
stored one is not always the one asked for: as long as no hardfork has been
applied, it is bounded by a date that is counted from the time of the first.
-/

namespace Gamebank.Market

open Gamebank.Lib Gamebank.Protocol Gamebank.Ledger
open Gamebank.Ledger.Database

variable {s t : Database} {o new : LimitOrder} {e : Event}

/-! ## Matches -/

/-- The match says that the order has left the book: filled, or with too
little left. -/
def Leaves (id newId oldId : Nat) (r : Database × Bool × Bool) : Prop :=
  (id = newId ∧ r.2.1 = true) ∨ (id = oldId ∧ r.2.2 = true)

/-- The order is matched: it leaves the book or is still in that of `t`. -/
def TakesPart (id newId oldId : Nat) (r : Database × Bool × Bool) (t : Database) : Prop :=
  Leaves id newId oldId r ∨ ((id = newId ∨ id = oldId) ∧ id ∈ ids t)

/-- An order is as it was or is matched. -/
theorem matchOrder_row (hs : Stocked s) (newId oldId : Nat) (ho : o ∈ s.limitOrders.rows) :
    Returns (s.matchOrder newId oldId) fun r =>
      o ∈ r.1.limitOrders.rows ∨ TakesPart o.id newId oldId r r.1 := by
  intro r hr
  obtain ⟨new, old, newPays, oldPays, hnew, hold, hpays, t, hfirst, hsecond⟩ :=
    matchOrder_found s newId oldId r hr
  obtain ⟨hnewMem, rfl⟩ := getOrder_mem hnew
  obtain ⟨holdMem, rfl⟩ := getOrder_mem hold
  have hnewLive := hs.live new hnewMem
  have holdLive := hs.live old holdMem
  have hmatched := matchOrder_spec hs.ids hnewMem holdMem holdLive.proper r hr
  have hfilled := (fillOrder_spec hs.ids hnewMem newPays oldPays _ hfirst).1
  have hne := (tradeAmounts_cases hnewLive holdLive hpays).1.id_ne hs.sound hnewMem holdMem
  have hfilled' := (fillOrder_spec (hfilled.thins.ids.nodup hs.ids) (hfilled.spares old holdMem hne)
    oldPays newPays _ hsecond).1
  by_cases hleft : o.id ∈ ids r.1
  · by_cases hid : o.id = new.id ∨ o.id = old.id
    · exact .inr (.inr ⟨hid, hleft⟩)
    · rw [not_or] at hid
      exact .inl (hmatched.spares o ho hid.1 hid.2)
  · by_cases hnewId : o.id = new.id
    · exact .inr (.inl (.inl ⟨hnewId, hmatched.finished_iff.mpr (hnewId ▸ hleft)⟩))
    · by_cases holdId : o.id = old.id
      · exact .inr (.inl (.inr ⟨holdId, hfilled'.gone_iff.mpr (holdId ▸ hleft)⟩))
      · exact .inl (hmatched.spares o ho hnewId holdId)

/-- After the loop an order is as it was or has been matched in a turn. -/
theorem matchOrders_row {newId fuel : Nat} {limitItr limitEnd : Option LimitOrder} (hs : Stocked s)
    (ho : o ∈ s.limitOrders.rows) (h : matchOrders newId limitEnd fuel s limitItr = .ok t) :
    o ∈ t.limitOrders.rows ∨ ∃ turn ∈ turns newId limitEnd fuel s limitItr, ∃ r,
      turn.1.matchOrder newId turn.2.id = .ok r ∧ TakesPart o.id newId turn.2.id r t := by
  induction fuel generalizing s limitItr o with
  | zero => cases h
  | succ fuel ih =>
      unfold matchOrders at h
      unfold turns
      split at h
      next =>
        cases h
        exact .inl ho
      next hid =>
        rw [if_neg hid]
        cases limitItr with
        | none => cases h
        | some x =>
            obtain ⟨r, hr, h⟩ := bind_eq_ok.mp h
            have hs' := (matchOrder_trims hs newId x.id r hr).stocked hs
            have hhere := matchOrder_row hs newId x.id ho r hr
            obtain ⟨u, finished, oldFilled⟩ := r
            dsimp only at h ⊢
            rw [hr]
            cases finished with
            | true =>
                cases h
                exact hhere.imp_right fun hpart => ⟨(s, x), List.mem_cons_self, _, hr, hpart⟩
            | false =>
                -- an order still there is as it was or is matched in a later turn
                have hlater : ∀ o' ∈ u.limitOrders.rows, o'.id = o.id → o' ∈ t.limitOrders.rows ∨
                    ∃ turn ∈ (s, x) :: turns newId limitEnd fuel u (s.nextByPrice x), ∃ r,
                      turn.1.matchOrder newId turn.2.id = .ok r ∧
                        TakesPart o.id newId turn.2.id r t := by
                  intro o' ho' hid
                  rw [← hid]
                  refine (ih hs' ho' h).imp_right fun hturn => ?_
                  obtain ⟨turn, hmem, hturn⟩ := hturn
                  exact ⟨turn, List.mem_cons_of_mem _ hmem, hturn⟩
                rcases hhere with hmem | hleaves | ⟨hid, hleft⟩
                · exact hlater o hmem rfl
                · exact .inr ⟨(s, x), List.mem_cons_self, _, hr, .inl hleaves⟩
                · obtain ⟨o', ho', hid'⟩ := List.mem_map.mp hleft
                  refine (hlater o' ho' hid').elim (fun hmem => .inr ?_) .inr
                  have hlast : o.id ∈ ids t := hid' ▸ List.mem_map_of_mem hmem
                  exact ⟨(s, x), List.mem_cons_self, _, hr, .inr ⟨hid, hlast⟩⟩

theorem settleOrder_row {fillOrKill : Bool} (hs : Stocked s) (hnew : new ∈ s.limitOrders.rows)
    (ho : o ∈ s.limitOrders.rows) (h : s.settleOrder new.id fillOrKill = .ok t) :
    o ∈ t.limitOrders.rows ∨ ∃ turn ∈ applyTurns s new.id, ∃ r,
      turn.1.matchOrder new.id turn.2.id = .ok r ∧ TakesPart o.id new.id turn.2.id r t := by
  unfold settleOrder at h
  rw [applyOrder_eq hs.sound hnew] at h
  obtain ⟨r, hr, h⟩ := bind_eq_ok.mp h
  obtain ⟨u, hu, hr⟩ := bind_eq_ok.mp hr
  cases hr
  obtain ⟨-, h⟩ := ensure_bind_eq_ok.mp h
  cases h
  unfold applyTurns
  rw [getOrder_of_mem hs.ids hnew]
  exact matchOrders_row hs ho hu

/-! ## The sweep -/

theorem cancelOrder_now (hs : Stocked s) (id : Nat) :
    Returns (s.cancelOrder id) fun t => t.headBlockTime = s.headBlockTime := by
  unfold cancelOrder
  refine .bind_eq fun o ho => .bind_eq fun t ht => .pure ?_
  have hsymbol : o.amountForSale.symbol ≠ .gbs := by
    show o.sellPrice.base.symbol ≠ .gbs
    rcases (hs.live o (getOrder_mem ho).1).proper.symbols with ⟨h, -⟩ | ⟨h, -⟩ <;> simp [h]
  exact (adjustBalance_credited hsymbol ht).now

theorem cancelOrder_length {id : Nat} (ho : o ∈ s.limitOrders.rows) (hid : o.id = id) :
    Returns (s.cancelOrder id) fun t => t.limitOrders.rows.length < s.limitOrders.rows.length := by
  unfold cancelOrder
  refine .bind_any fun _ => .bind (adjustBalance_limitOrders s _ _) fun t ht => .pure ?_
  show (t.limitOrders.rows.eraseP fun o => o.id = id).length < _
  rw [ht, List.length_eraseP_of_mem ho (by simpa using hid)]
  exact Nat.sub_lt (List.length_pos_of_mem ho) Nat.one_pos

theorem expiredOrder_some (h : s.expiredOrder = some o) :
    o ∈ s.limitOrders.rows ∧ o.expiration < s.headBlockTime := by
  obtain ⟨hfirst, htime⟩ := Option.filter_eq_some_iff.mp h
  exact ⟨Table.mem_of_least hfirst, of_decide_eq_true htime⟩

theorem expiredOrder_none (h : s.expiredOrder = none) :
    ∀ o ∈ s.limitOrders.rows, s.headBlockTime ≤ o.expiration := by
  intro o ho
  cases hfirst : s.limitOrders.first fun a b => a.expiration < b.expiration with
  | none =>
      rw [Table.first, Table.least_eq_none] at hfirst
      rw [hfirst] at ho
      cases ho
  | some a =>
      have hnot := Option.filter_eq_none_iff.mp h a hfirst
      have hle := Table.rank_least_le LimitOrder.expiration
        (fun a _ b _ => decide_eq_true_iff) hfirst o ho
      rw [decide_eq_true_eq] at hnot
      omega

/-- What the sweep at the end of a block does. -/
structure Swept (s t : Database) : Prop where
  trims : Trims s t
  now : t.headBlockTime = s.headBlockTime
  kept : ∀ o ∈ s.limitOrders.rows, o ∈ t.limitOrders.rows ∨ o.expiration < s.headBlockTime

theorem Swept.cancel (h : Swept s t) (hs : Stocked s) (ho : t.expiredOrder = some o) :
    Returns (t.cancelOrder o.id) (Swept s) := by
  have ht := h.trims.stocked hs
  obtain ⟨hmem, hexpired⟩ := expiredOrder_some ho
  intro u hu
  obtain ⟨-, hspares, -⟩ := cancelOrder_spec ht.ids u hu
  refine ⟨h.trims.trans (cancelOrder_trims ht o.id u hu),
    (cancelOrder_now ht o.id u hu).trans h.now, fun x hx => ?_⟩
  rcases h.kept x hx with hx' | hlate
  · by_cases hid : x.id = o.id
    · rw [List.inj_on_of_nodup_map ht.ids hx' hmem hid]
      exact .inr (h.now ▸ hexpired)
    · exact .inl (hspares x hx' hid)
  · exact .inr hlate

/-- The sweep cancels what has expired, and nothing else. -/
theorem clearExpiredOrders_swept (hs : Stocked s) : Returns s.clearExpiredOrders fun t =>
    Swept s t ∧ ∀ o ∈ t.limitOrders.rows, s.headBlockTime ≤ o.expiration := by
  intro t ht
  have hswept : Swept s t := by
    have hstart : Swept s s := ⟨.refl hs, rfl, fun o ho => .inl ho⟩
    exact Returns.drain hstart (fun u o hu ho => hu.cancel hs ho) t ht
  have hnone : t.expiredOrder = none := by
    have hshorter : ∀ (u : Database) o, u.expiredOrder = some o → Returns (u.cancelOrder o.id)
        fun v => v.limitOrders.rows.length < u.limitOrders.rows.length :=
      fun u o ho => cancelOrder_length (expiredOrder_some ho).1 rfl
    unfold clearExpiredOrders at ht
    exact drain_exhausts hshorter (Nat.lt_succ_self _) t ht
  refine ⟨hswept, ?_⟩
  rw [← hswept.now]
  exact expiredOrder_none hnone

/-! ## Steps -/

/-- A match of the order with the id, in the turns for an order placed. -/
def Traded (s : Database) (e : Event) (id : Nat) : Prop :=
  ∃ t, place s e = .ok t ∧ ∃ turn ∈ applyTurns t s.limitOrders.nextId, ∃ r,
    turn.1.matchOrder s.limitOrders.nextId turn.2.id = .ok r ∧
      TakesPart id s.limitOrders.nextId turn.2.id r (step s e)

/-- What may happen to an order with an expiration: a match, that its owner
cancels it, or that it expires. -/
inductive Ends (expiration : Nat) (s : Database) (o : LimitOrder) (e : Event) : Prop where
  | traded (h : Traded s e o.id)
  | cancelled (h : e = .cancel ⟨o.seller, o.orderid⟩)
  | expired (h : e = .expire) (hlate : expiration < s.headBlockTime)

theorem step_of_ok (h : perform s e = .ok t) : step s e = t := by
  unfold step
  rw [h]
  rfl

theorem perform_placed (h : placed s e = some new) : ∃ fillOrKill,
    perform s e = place s e >>= fun t => t.settleOrder s.limitOrders.nextId fillOrKill := by
  cases e with
  | create o => exact ⟨_, perform_create s o⟩
  | create2 o => exact ⟨_, perform_create2 s o⟩
  | cancel o => cases h
  | expire => cases h
  | elsewhere t => cases h

/-- When an order is placed, the others and the new one stay or are matched. -/
theorem placed_row (hs : Stocked s) (hnew : placed s e = some new) (h : perform s e = .ok t) :
    (o ∈ s.limitOrders.rows ∨ o = new) → o ∈ t.limitOrders.rows ∨ Traded s e o.id := by
  intro ho
  obtain ⟨fillOrKill, hperform⟩ := perform_placed hnew
  rw [hperform] at h
  obtain ⟨u, hu, h⟩ := bind_eq_ok.mp h
  obtain ⟨new', hnew', hadds, hlive⟩ := place_adds s e u hu
  rw [hnew, Option.some.injEq] at hnew'
  subst hnew'
  have ho' : o ∈ u.limitOrders.rows := by
    rw [hadds.rows, List.mem_append, List.mem_singleton]
    exact ho
  have hstep : step s e = t := step_of_ok (by rw [hperform, hu]; exact h)
  rw [← hadds.id] at h
  refine (settleOrder_row (hadds.stocked hs hlive) hadds.mem ho' h).imp_right fun hturn => ?_
  refine ⟨u, hu, ?_⟩
  rw [hstep, ← hadds.id]
  exact hturn

/-- In every step an order stays as it is, or its stay has an end. -/
theorem step_row (hs : Stocked s) (e : Event) (ho : o ∈ s.limitOrders.rows) :
    o ∈ (step s e).limitOrders.rows ∨ Ends o.expiration s o e := by
  cases hperform : perform s e with
  | error m =>
      left
      unfold step
      rw [hperform]
      exact ho
  | ok t =>
      rw [step_of_ok hperform]
      cases e with
      | create c => exact (placed_row hs rfl hperform (.inl ho)).imp_right .traded
      | create2 c => exact (placed_row hs rfl hperform (.inl ho)).imp_right .traded
      | cancel c =>
          obtain ⟨_, -, hcancel⟩ := bind_eq_ok.mp hperform
          obtain ⟨x, hx, hcancel⟩ := bind_eq_ok.mp hcancel
          have hfind := require_eq_ok.mp hx
          obtain ⟨-, hspares, -⟩ := cancelOrder_spec hs.ids t hcancel
          by_cases hid : o.id = x.id
          · have hsame : o = x :=
              List.inj_on_of_nodup_map hs.ids ho (List.mem_of_find?_eq_some hfind) hid
            have hkeys := List.find?_some hfind
            rw [Bool.and_eq_true, decide_eq_true_eq, decide_eq_true_eq] at hkeys
            right
            rw [hsame]
            exact .cancelled (by rw [hkeys.1, hkeys.2])
          · exact .inl (hspares o ho hid)
      | expire =>
          exact ((clearExpiredOrders_swept hs t hperform).1.kept o ho).imp_right (.expired rfl)
      | elsewhere u =>
          left
          obtain ⟨hsame, hu⟩ := ensure_bind_eq_ok.mp hperform
          cases hu
          have hbook : t.limitOrders = s.limitOrders := of_decide_eq_true hsame
          rw [hbook]
          exact ho

/-! ## Runs -/

/-- The expiration an event asks for. -/
def asks : Event → Nat
  | .create o => o.expiration
  | .create2 o => o.expiration
  | _ => 0

/-- The bound of the stored expiration as long as no hardfork has been applied. -/
def latest (s : Database) : Event → Nat
  | .create _ => hardfork01Time + maxLimitOrderExpiration + s.headBlockId % 86400
  | _ => hardfork01Time + maxLimitOrderExpiration

theorem placed_expiration (h : placed s e = some new) (hfork : s.hardfork01 = false) :
    new.expiration = min (asks e) (latest s e) := by
  cases e with
  | create o =>
      cases h
      simp [newOrder, hfork, asks, latest]
  | create2 o =>
      cases h
      simp [newOrder, hfork, asks, latest]
  | cancel o => cases h
  | expire => cases h
  | elsewhere t => cases h

/-- An order that has been placed: whoever has its id is on its terms. -/
structure Known (new : LimitOrder) (s : Database) : Prop where
  stocked : Stocked s
  old : new.id < s.limitOrders.nextId
  terms : ∀ o ∈ s.limitOrders.rows, o.id = new.id → terms o = terms new

theorem Known.trims (h : Known new s) (htrims : Trims s t) : Known new t where
  stocked := htrims.stocked h.stocked
  old := htrims.thins.nextId.symm ▸ h.old
  terms := by
    intro o ho hid
    obtain ⟨o', ho', hterms⟩ := htrims.terms o ho
    have hid' : (Market.terms o).id = (Market.terms o').id := congrArg LimitOrder.id hterms
    exact hterms.trans (h.terms o' ho' (hid'.symm.trans hid))

theorem Known.adds {next : LimitOrder} (h : Known new s) (hadds : Adds s t next)
    (hlive : Live next) : Known new t where
  stocked := hadds.stocked h.stocked hlive
  old := by
    have := h.old
    rw [hadds.nextId]
    omega
  terms := by
    refine hadds.forall_mem h.terms fun hid => ?_
    have := h.old
    rw [hadds.id] at hid
    omega

theorem known_adds (hs : Stocked s) (hadds : Adds s t new) (hlive : Live new) : Known new t where
  stocked := hadds.stocked hs hlive
  old := by
    rw [hadds.nextId, hadds.id]
    omega
  terms := by
    refine hadds.forall_mem (fun o ho hid => ?_) fun _ => rfl
    have := hs.fresh o ho
    rw [hid, hadds.id] at this
    omega

theorem Known.perform (h : Known new s) (e : Event) : Returns (perform s e) (Known new) := by
  refine (perform_trims h.stocked e).mono fun t ht => ?_
  rcases ht with htrims | ⟨u, next, hadds, hlive, htrims⟩
  · exact h.trims htrims
  · exact (h.adds hadds hlive).trims htrims

theorem Known.step (h : Known new s) (e : Event) : Known new (step s e) := by
  have hreturns := h.perform e
  unfold Market.step
  cases hresult : Market.perform s e with
  | error m => exact h
  | ok t => exact hreturns t hresult

/-- The order with the id stays as it is in a step, unless its stay has an end. -/
def Stays (expiration id : Nat) (s : Database) (e : Event) : Prop :=
  ∀ o ∈ s.limitOrders.rows, o.id = id → o ∈ (step s e).limitOrders.rows ∨ Ends expiration s o e

/-- No sweep meets the order when the bound has passed and the expiration asked
for has not. -/
def Punctual (expiration latest id : Nat) (s : Database) (e : Event) : Prop :=
  e = .expire → id ∈ ids s → s.headBlockTime ≤ latest ∨ expiration < s.headBlockTime

/-- A sweep does not throw. -/
def Sweeps (s : Database) (e : Event) : Prop := e = .expire → ∃ t, perform s e = .ok t

section

variable {expiration latest : Nat}

theorem Known.expiration_eq (h : Known new s) (hstored : new.expiration = min expiration latest)
    (ho : o ∈ s.limitOrders.rows) (hid : o.id = new.id) :
    o.expiration = min expiration latest :=
  (congrArg LimitOrder.expiration (h.terms o ho hid)).trans hstored

theorem Known.stays (h : Known new s) (hstored : new.expiration = min expiration latest)
    (hpunctual : Punctual expiration latest new.id s e) : Stays expiration new.id s e := by
  intro o ho hid
  refine (step_row h.stocked e ho).imp_right fun hend => ?_
  cases hend with
  | traded htraded => exact .traded htraded
  | cancelled hcancel => exact .cancelled hcancel
  | expired hexpire hlate =>
      have hbound := hpunctual hexpire (hid ▸ List.mem_map_of_mem ho)
      have hstored := h.expiration_eq hstored ho hid
      exact .expired hexpire (by omega)

/-- A sweep that comes too early takes the order off the book. -/
theorem Known.punctual (h : Known new s) (hstored : new.expiration = min expiration latest)
    (hstays : Stays expiration new.id s e) (hsweeps : Sweeps s e) :
    Punctual expiration latest new.id s e := by
  rintro rfl hmem
  obtain ⟨t, ht⟩ := hsweeps rfl
  obtain ⟨o, ho, hid⟩ := List.mem_map.mp hmem
  have hdone := (clearExpiredOrders_swept h.stocked t ht).2
  have hstored := h.expiration_eq hstored ho hid
  rcases hstays o ho hid with hleft | hend
  · rw [step_of_ok ht] at hleft
    have := hdone o hleft
    omega
  · cases hend with
    | traded htraded =>
        obtain ⟨u, hu, -⟩ := htraded
        cases hu
    | cancelled hcancel => cases hcancel
    | expired _ hlate => exact .inr hlate

end

/-- An order and what comes after it: it stays on the book until it is filled,
cancelled, dust, or expired by the expiration that was asked for. -/
def Lives (s : Database) (e : Event) (new : LimitOrder) (later : List Event) : Prop :=
  (new ∈ (step s e).limitOrders.rows ∨ Traded s e new.id) ∧
    Along step (Stays (asks e) new.id) (step s e) later

/-- **Placed while no hardfork has been applied**, an order lives as long as it
asked to if no sweep meets it after the bound and before its end; and where
sweeps do not throw, only then. -/
theorem order_lives (s : Database) (events later : List Event) (hstart : s.limitOrders = .empty)
    (hfork : (events.foldl step s).hardfork01 = false) {e : Event} {new : LimitOrder} {t : Database}
    (hnew : placed (events.foldl step s) e = some new)
    (hperform : perform (events.foldl step s) e = .ok t) :
    (Along step (Punctual (asks e) (latest (events.foldl step s) e) new.id) t later →
      Lives (events.foldl step s) e new later) ∧
    (Along step Sweeps t later → Lives (events.foldl step s) e new later →
      Along step (Punctual (asks e) (latest (events.foldl step s) e) new.id) t later) := by
  have hs := (stocked_empty hstart).run events
  have hstored := placed_expiration hnew hfork
  have hknown : Known new t := by
    obtain ⟨fillOrKill, hplaced⟩ := perform_placed hnew
    rw [hplaced] at hperform
    obtain ⟨u, hu, hsettle⟩ := bind_eq_ok.mp hperform
    obtain ⟨new', hnew', hadds, hlive⟩ := place_adds _ e u hu
    rw [hnew, Option.some.injEq] at hnew'
    subst hnew'
    have htrims := settleOrder_trims (hadds.stocked hs hlive) _ _ t hsettle
    exact (known_adds hs hadds hlive).trims htrims
  unfold Lives
  rw [step_of_ok hperform]
  constructor
  · intro hpunctual
    refine ⟨placed_row hs hnew hperform (.inr rfl), ?_⟩
    exact hpunctual.mono (I := Known new) (fun s e h => h.stays hstored)
      (fun s e h => h.step e) hknown
  · rintro hsweeps ⟨-, hstays⟩
    exact (hstays.and hsweeps).mono (I := Known new)
      (fun s e h hboth => h.punctual hstored hboth.1 hboth.2) (fun s e h => h.step e) hknown

/-- An offer of `alice` with an expiration. -/
def offer (expiration : Nat) : Event :=
  .create2 ⟨"alice", 1, .gbc 400, ⟨.gbc 400, .gbd 600⟩, false, expiration⟩

/-- The order it puts into an empty book. -/
def offered (expiration : Nat) : LimitOrder :=
  newOrder (floorWith 1000 0) "alice" 1 (.gbc 400) ⟨.gbc 400, .gbd 600⟩ expiration
    (hardfork01Time + maxLimitOrderExpiration)

/-- The book after the offer, at another time. -/
def offeredAt (expiration time : Nat) : Database :=
  let t := step (floorWith 1000 0) (offer expiration)
  { t with props := { t.props with time := time } }

/-- An offer that ends in 2017 is not swept in 2016. -/
theorem short_offer_lives : Lives (floorWith 1000 0) (offer 1500000000) (offered 1500000000)
    [.elsewhere (offeredAt 1500000000 1480000000), .expire] := by
  obtain ⟨t, ht, htime⟩ := exists_of_any (x := perform (floorWith 1000 0) (offer 1500000000))
    (P := fun t => (step t (.elsewhere (offeredAt 1500000000 1480000000))).headBlockTime =
      1480000000) (by decide +kernel)
  have hbefore : Punctual 1500000000 1600390000 0
      (step t (.elsewhere (offeredAt 1500000000 1480000000))) .expire := by
    intro _ _
    rw [of_decide_eq_true htime]
    decide
  have helsewhere : Punctual 1500000000 1600390000 0 t
      (.elsewhere (offeredAt 1500000000 1480000000)) := by
    intro h
    cases h
  have hplaced : placed (floorWith 1000 0) (offer 1500000000) = some (offered 1500000000) := rfl
  exact (order_lives (floorWith 1000 0) [] [.elsewhere (offeredAt 1500000000 1480000000), .expire]
    rfl rfl hplaced ht).1 ⟨helsewhere, hbefore, trivial⟩

/-- An offer that ends in 2023 is swept in 2022. -/
theorem long_offer_swept : (floorWith 1000 0).limitOrders = .empty ∧
    (floorWith 1000 0).hardfork01 = false ∧
    (∃ t, perform (floorWith 1000 0) (offer 1700000000) = .ok t) ∧
    placed (floorWith 1000 0) (offer 1700000000) = some (offered 1700000000) ∧
    ¬Lives (floorWith 1000 0) (offer 1700000000) (offered 1700000000)
      [.elsewhere (offeredAt 1700000000 1650000000), .expire] := by
  have hsweep : ∀ s, s = step (step (floorWith 1000 0) (offer 1700000000))
      (.elsewhere (offeredAt 1700000000 1650000000)) →
      s.limitOrders.rows = [offered 1700000000] ∧ s.headBlockTime = 1650000000 ∧
        (step s .expire).limitOrders.rows = [] := by
    rintro s rfl
    refine ⟨?_, ?_, ?_⟩ <;> decide +kernel
  refine ⟨rfl, rfl, ?_, rfl, fun h => ?_⟩
  · obtain ⟨t, ht, -⟩ := exists_of_any (x := perform (floorWith 1000 0) (offer 1700000000))
      (P := fun _ => true) (by decide +kernel)
    exact ⟨t, ht⟩
  · obtain ⟨-, -, hstays, -⟩ := h
    obtain ⟨hbefore, htime, hafter⟩ := hsweep _ rfl
    have hoffer : offered 1700000000 ∈ (step (step (floorWith 1000 0) (offer 1700000000))
        (.elsewhere (offeredAt 1700000000 1650000000))).limitOrders.rows := by
      rw [hbefore]
      exact List.mem_singleton_self _
    rcases hstays _ hoffer rfl with hleft | hend
    · rw [hafter] at hleft
      cases hleft
    · cases hend with
      | traded htraded =>
          obtain ⟨u, hu, -⟩ := htraded
          cases hu
      | cancelled hcancel => cases hcancel
      | expired _ hlate =>
          rw [htime] at hlate
          revert hlate
          decide

end Gamebank.Market
