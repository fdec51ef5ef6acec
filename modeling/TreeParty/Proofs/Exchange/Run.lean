import TreeParty.Exchange
/-!
# Running exchanges

Laws of `Exchange.run` over links that live in a state monad. A run of `x >>= f` is a run of `x`
and, if that returned, a run of `f` from where it left; every other end is final.
-/

set_option autoImplicit false

namespace TreeParty

variable {α β σ : Type}

namespace Ending

theorem returned_ne_waiting (a : α) : returned a ≠ waiting := by
  intro h
  cases h

theorem failed_ne_waiting (fault : Fault) : (failed fault : Ending α) ≠ waiting := by
  intro h
  cases h

end Ending

namespace Exchange

theorem run_send (carrier : Carrier (StateM σ)) (engine : Nat) (payload : Bytes)
    (next : Exchange α) (progress : Progress) (state : σ) :
    (send engine payload next).run carrier progress state =
      match carrier.send engine payload state with
      | (.ok (), state') => next.run carrier progress state'
      | (.error fault, state') => ((.failed fault, progress), state') := by
  simp only [run, Bind.bind, StateT.bind]
  rcases carrier.send engine payload state with ⟨_ | _, state'⟩
  · rfl
  · rfl

theorem run_receive (carrier : Carrier (StateM σ)) (engine : Nat) (limit : Option Int)
    (next : Bytes → Exchange α) (progress : Progress) (state : σ) :
    (receive engine limit next).run carrier progress state =
      match carrier.receive engine limit state with
      | (.returned bytes, state') => (next bytes).run carrier progress state'
      | (.failed fault, state') => ((.failed fault, progress), state')
      | (.waiting, state') => ((.waiting, progress), state') := by
  simp only [run, Bind.bind, StateT.bind]
  rcases carrier.receive engine limit state with ⟨_ | _ | _, state'⟩
  · rfl
  · rfl
  · rfl

def goOn (left : (Ending α × Progress) × σ)
    (next : α → Progress → σ → (Ending β × Progress) × σ) : (Ending β × Progress) × σ :=
  match left with
  | ((.returned a, progress), state) => next a progress state
  | ((.failed fault, progress), state) => ((.failed fault, progress), state)
  | ((.waiting, progress), state) => ((.waiting, progress), state)

theorem run_bind (carrier : Carrier (StateM σ)) (x : Exchange α) (f : α → Exchange β)
    (progress : Progress) (state : σ) :
    (x >>= f).run carrier progress state =
      goOn (x.run carrier progress state) fun a progress' state' =>
        (f a).run carrier progress' state' := by
  show (x.bind f).run carrier progress state = _
  induction x generalizing progress state with
  | done a => rfl
  | fail fault => rfl
  | send engine payload next ih =>
    simp only [bind, run_send]
    rcases carrier.send engine payload state with ⟨_ | _, state'⟩
    · rfl
    · exact ih progress state'
  | receive engine limit next ih =>
    simp only [bind, run_receive]
    rcases carrier.receive engine limit state with ⟨bytes | _ | _, state'⟩
    · exact ih bytes progress state'
    · rfl
    · rfl
  | note notice next ih => exact ih progress (carrier.note notice state).2
  | advance change next ih => exact ih (change progress) state

theorem goOn_eq_returned {left : (Ending α × Progress) × σ}
    {next : α → Progress → σ → (Ending β × Progress) × σ} {progress' : Progress} {state' : σ}
    {b : β} (hnext : goOn left next = ((.returned b, progress'), state')) :
    ∃ a middle between, left = ((.returned a, middle), between) ∧
      next a middle between = ((.returned b, progress'), state') := by
  rcases left with ⟨⟨a | _ | _, middle⟩, between⟩
  · exact ⟨a, middle, between, rfl, hnext⟩
  · cases hnext
  · cases hnext

/-- A bind that returns went through a value of its first part. -/
theorem run_bind_eq_returned {carrier : Carrier (StateM σ)} {x : Exchange α} {f : α → Exchange β}
    {progress progress' : Progress} {state state' : σ} {b : β}
    (hrun : (x >>= f).run carrier progress state = ((.returned b, progress'), state')) :
    ∃ a middle between, x.run carrier progress state = ((.returned a, middle), between) ∧
      (f a).run carrier middle between = ((.returned b, progress'), state') := by
  rw [run_bind] at hrun
  exact goOn_eq_returned hrun

end Exchange

/-- A loop that adds up what it receives might as well receive everything first. -/
theorem foldlM_eq_mapM_bind {m : Type → Type} [Monad m] [LawfulMonad m] {γ : Type}
    (f : α → m β) (step : γ → β → γ) (items : List α) (init : γ) :
    items.foldlM (fun sum a => do return step sum (← f a)) init =
      (do return (← items.mapM f).foldl step init) := by
  induction items generalizing init with
  | nil => simp
  | cons a rest ih =>
    simp only [List.foldlM_cons, List.mapM_cons, bind_assoc, pure_bind, List.foldl_cons]
    exact congrArg _ (funext fun b => ih (step init b))

end TreeParty
