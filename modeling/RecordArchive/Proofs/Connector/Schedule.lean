import RecordArchive.Connector.Turns
import RecordArchive.Proofs.Connector.Traffic

/-!
# Taking turns is one of the possible orders

Whoever goes on next when tasks take turns, the exchange only does what is possible.
The main statement is `exists_traffic`: what holds of all traffic holds when tasks take
turns.
-/

namespace RecordArchive

variable {α : Type}

namespace Turns

/-- The exchange gets from one state to the other by actions that are possible. -/
def LeadsTo (t t' : Turns α) : Prop := ∃ actions, t.exchange.run? actions = some t'.exchange

variable {t t' t'' : Turns α}

theorem leadsTo_of_eq (h : t'.exchange = t.exchange) : t.LeadsTo t' :=
  ⟨[], by rw [h]; rfl⟩

theorem LeadsTo.refl (t : Turns α) : t.LeadsTo t := leadsTo_of_eq rfl

theorem LeadsTo.trans (h : t.LeadsTo t') (h' : t'.LeadsTo t'') : t.LeadsTo t'' := by
  obtain ⟨actions, hrun⟩ := h
  obtain ⟨more, hmore⟩ := h'
  refine ⟨actions ++ more, ?_⟩
  unfold Exchange.run? at hrun hmore ⊢
  rw [List.foldlM_append, hrun]
  exact hmore

theorem leadsTo_step (action : Exchange.Action α)
    (h : t.exchange.step? action = some t'.exchange) : t.LeadsTo t' := by
  refine ⟨[action], ?_⟩
  unfold Exchange.run?
  rw [List.foldlM_cons, h]
  rfl

theorem leadsTo_perform (t : Turns α) (action : Exchange.Action α) :
    t.LeadsTo (t.perform action) := by
  cases h : t.exchange.step? action with
  | none =>
    refine leadsTo_of_eq ?_
    show (t.exchange.step? action).getD t.exchange = t.exchange
    rw [h]
    rfl
  | some next =>
    refine leadsTo_step action ?_
    show t.exchange.step? action = some ((t.exchange.step? action).getD t.exchange)
    rw [h]
    rfl

theorem leadsTo_act (t : Turns α) (action : Exchange.Action α) : t.LeadsTo (t.act action) := by
  cases action with
  | start queue => exact (leadsTo_perform _ _).trans (leadsTo_perform _ _)
  | make | attach | stop | close | read | receive | gather | answer | output | write | check |
    choose | push | expire | refuse | advance => exact leadsTo_perform _ _

/-! ## Tickets -/

theorem exchange_callUnlessCalled (t : Turns α) (queue : Nat) :
    (t.callUnlessCalled queue).exchange = t.exchange := by
  unfold callUnlessCalled
  split
  · rfl
  · rfl

theorem exchange_callMany (t : Turns α) (queue count : Nat) :
    (t.callMany queue count).exchange = t.exchange := by
  induction count generalizing t with
  | zero => rfl
  | succ count ih => exact ih (t.call queue)

/-! ## Transfers that go on -/

theorem leadsTo_proceed (transfer fuel : Nat) (t : Turns α) :
    t.LeadsTo (proceed transfer fuel t) := by
  induction fuel generalizing t with
  | zero => exact .refl t
  | succ fuel ih =>
    have hgo (action : Exchange.Action α) :
        t.LeadsTo (proceed transfer fuel (t.perform action)) :=
      (leadsTo_perform t action).trans (ih _)
    unfold proceed
    split
    · exact .refl t
    · exact .refl t
    · exact hgo _
    · exact hgo _
    · split
      · exact .refl t
      · split
        · exact hgo _
        · split
          · refine (leadsTo_perform t (.push transfer)).trans ?_
            -- To call the next ticket is not an action.
            refine LeadsTo.trans (leadsTo_of_eq ?_) (ih _)
            split
            · rfl
            · exact exchange_callUnlessCalled _ _
          · split
            · exact hgo _
            · exact leadsTo_of_eq rfl

theorem leadsTo_resume (t : Turns α) (transfer : Nat) : t.LeadsTo (t.resume transfer) := by
  have hdrop : t.LeadsTo (t.dropTicket transfer) := leadsTo_of_eq rfl
  exact hdrop.trans (leadsTo_proceed transfer _ _)

theorem leadsTo_settleFrom (fuel : Nat) (t : Turns α) : t.LeadsTo (settleFrom fuel t) := by
  induction fuel generalizing t with
  | zero => exact .refl t
  | succ fuel ih =>
    unfold settleFrom
    split
    · exact .refl t
    · rename_i transfer rest hready
      have hcalled : t.LeadsTo { t with ready := rest } := leadsTo_of_eq rfl
      exact hcalled.trans ((leadsTo_resume _ transfer).trans (ih _))

theorem leadsTo_settle (t : Turns α) : t.LeadsTo t.settle := leadsTo_settleFrom _ t

/-! ## Time -/

theorem leadsTo_expireDue (t : Turns α) : t.LeadsTo t.expireDue := by
  unfold expireDue
  generalize t.tickets = tickets
  induction tickets generalizing t with
  | nil => exact .refl t
  | cons ticket rest ih =>
    rw [List.foldl_cons]
    refine LeadsTo.trans ?_ (ih _)
    split
    · rename_i exchange hstep
      exact leadsTo_step (.expire ticket.transfer) hstep
    · exact .refl t

theorem leadsTo_advance (t : Turns α) (d : Duration) : t.LeadsTo (t.advance d) :=
  (leadsTo_perform t (.advance d)).trans ((leadsTo_expireDue _).trans (leadsTo_settle _))

theorem leadsTo_awaitFrom (transfer fuel : Nat) (t : Turns α) :
    t.LeadsTo (awaitFrom transfer fuel t) := by
  induction fuel generalizing t with
  | zero => exact .refl t
  | succ fuel ih =>
    unfold awaitFrom
    split
    · exact (leadsTo_advance t _).trans (ih _)
    · exact .refl t

/-! ## Readings -/

theorem leadsTo_gather (reading fuel : Nat) (t : Turns α) :
    t.LeadsTo (gather reading fuel t) := by
  induction fuel generalizing t with
  | zero => exact .refl t
  | succ fuel ih => exact (leadsTo_perform t (.gather reading)).trans (ih _)

theorem leadsTo_read (t : Turns α) (queue greatest : Nat) :
    t.LeadsTo (t.read queue greatest).2 := by
  have hbegun := (leadsTo_perform t (.read queue greatest)).trans
    (leadsTo_perform _ (.receive t.exchange.readings.length))
  have hdone := (hbegun.trans (leadsTo_gather t.exchange.readings.length
    (((t.exchange.queue? queue).map (·.items.length)).getD 0) _)).trans
    (leadsTo_perform _ (.answer t.exchange.readings.length))
  simp only [read]
  split
  · exact .refl t
  · exact hdone.trans ((leadsTo_of_eq (exchange_callMany _ _ _)).trans (leadsTo_settle _))

/-! ## All that tasks do -/

/-- What is asked of tasks that take turns. -/
inductive Move (α : Type)
  | act (action : Exchange.Action α)
  | output (records : List α)
  | write (queue : Nat) (record : α) (patience : Duration)
  | read (queue greatest : Nat)
  | close (queue : Nat)
  | advance (d : Duration)
  | await (transfer : Nat)

def move (t : Turns α) : Move α → Turns α
  | .act action => t.act action
  | .output records => t.output records
  | .write queue record patience => t.write queue record patience
  | .read queue greatest => (t.read queue greatest).2
  | .close queue => t.close queue
  | .advance d => t.advance d
  | .await transfer => t.await transfer

theorem leadsTo_move (t : Turns α) (move : Move α) : t.LeadsTo (t.move move) := by
  cases move with
  | act action => exact leadsTo_act t action
  | output records =>
    exact (leadsTo_perform t _).trans ((leadsTo_resume _ _).trans (leadsTo_settle _))
  | write queue record patience =>
    exact (leadsTo_perform t _).trans ((leadsTo_resume _ _).trans (leadsTo_settle _))
  | read queue greatest => exact leadsTo_read t queue greatest
  | close queue =>
    exact (leadsTo_perform t _).trans
      ((leadsTo_of_eq (exchange_callMany _ _ _)).trans (leadsTo_settle _))
  | advance d => exact leadsTo_advance t d
  | await transfer => exact leadsTo_awaitFrom transfer _ t

theorem leadsTo_moves (t : Turns α) (moves : List (Move α)) :
    t.LeadsTo (moves.foldl Turns.move t) := by
  induction moves generalizing t with
  | nil => exact .refl t
  | cons first rest ih => exact (leadsTo_move t first).trans (ih _)

/-- What tasks do that take turns is traffic like any other. -/
theorem exists_traffic (patience : Duration) (moves : List (Move α)) :
    ∃ actions traffic, (Traffic.start patience).run? actions = some traffic ∧
      traffic.exchange = (moves.foldl move ⟨{ patience := patience }, [], []⟩).exchange := by
  obtain ⟨actions, hrun⟩ := leadsTo_moves ⟨{ patience := patience }, [], []⟩ moves
  obtain ⟨traffic, htraffic, hexchange⟩ := Traffic.exists_run? (t := .start patience) hrun
  exact ⟨actions, traffic, htraffic, hexchange⟩

end Turns

end RecordArchive
