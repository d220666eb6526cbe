import ChatGateway.Stream.Intake

/-!
# Streams that are polled

A stream goes round a loop whenever it is polled, and says when it wants to be polled
next.  What a consumer gets that never polls late does not depend on when it polls
early: `Runs.eq_of_watched`.  That is what lets one timer interrupt the wait for
another.
-/

namespace ChatGateway

namespace Stream

/-- What one round of a stream's loop comes to. -/
inductive Round (α : Type) where
  | gives (item : α)
  /-- Something was done, and nothing given. -/
  | again
  /-- Nothing is due yet. -/
  | waits
  | ends

/--
A stream on a clock.  `wake` is when a waiting stream has something to do; polls before
that leave it as it is.
-/
structure Polled (σ α : Type) where
  round : Nat -> σ -> Round α × σ
  wake : σ -> Option Nat
  wake_later : ∀ {now due : Nat} {state after : σ},
    round now state = (.waits, after) -> due ∈ wake after -> now < due
  steady : ∀ {now later : Nat} {state after : σ},
    round now state = (.waits, after) -> now ≤ later -> (∀ due ∈ wake after, later < due) ->
      round later after = (.waits, after)

variable {σ α : Type} {stream : Polled σ α} {leave : Option Nat}

/--
What a consumer gets from `now` on.  It polls again at once after each item.  While the
stream waits it polls at any time, and when the stream has something to do at the latest;
at `leave` it goes away.
-/
inductive Watched (stream : Polled σ α) (leave : Option Nat) :
    Nat -> σ -> List (Timed α) -> Prop where
  | gives {now : Nat} {state after : σ} {item : α} {items : List (Timed α)}
      (round : stream.round now state = (.gives item, after))
      (rest : Watched stream leave now after items) :
      Watched stream leave now state (⟨now, item⟩ :: items)
  | again {now : Nat} {state after : σ} {items : List (Timed α)}
      (round : stream.round now state = (.again, after))
      (rest : Watched stream leave now after items) :
      Watched stream leave now state items
  | ends {now : Nat} {state after : σ} (round : stream.round now state = (.ends, after)) :
      Watched stream leave now state []
  | waits {now poll : Nat} {state after : σ} {items : List (Timed α)}
      (round : stream.round now state = (.waits, after)) (later : now < poll)
      (prompt : ∀ due ∈ stream.wake after, poll ≤ due) (stays : ∀ time ∈ leave, poll < time)
      (rest : Watched stream leave poll after items) :
      Watched stream leave now state items
  | leaves {now time : Nat} {state after : σ}
      (round : stream.round now state = (.waits, after)) (goes : leave = some time)
      (later : now < time) (prompt : ∀ due ∈ stream.wake after, time ≤ due) :
      Watched stream leave now state []

/--
The items of a stream that is polled only when it has something to do, and the time at
which it ends or is left.
-/
inductive Runs (stream : Polled σ α) (leave : Option Nat) :
    Nat -> σ -> List (Timed α) -> Nat -> Prop where
  | gives {now stop : Nat} {state after : σ} {item : α} {items : List (Timed α)}
      (round : stream.round now state = (.gives item, after))
      (rest : Runs stream leave now after items stop) :
      Runs stream leave now state (⟨now, item⟩ :: items) stop
  | again {now stop : Nat} {state after : σ} {items : List (Timed α)}
      (round : stream.round now state = (.again, after))
      (rest : Runs stream leave now after items stop) :
      Runs stream leave now state items stop
  | ends {now : Nat} {state after : σ} (round : stream.round now state = (.ends, after)) :
      Runs stream leave now state [] now
  | waits {now due stop : Nat} {state after : σ} {items : List (Timed α)}
      (round : stream.round now state = (.waits, after)) (wakes : stream.wake after = some due)
      (stays : ∀ time ∈ leave, due < time) (rest : Runs stream leave due after items stop) :
      Runs stream leave now state items stop
  | leaves {now time : Nat} {state after : σ}
      (round : stream.round now state = (.waits, after)) (goes : leave = some time)
      (later : now < time) (prompt : ∀ due ∈ stream.wake after, time ≤ due) :
      Runs stream leave now state [] time

/-! ## Polls that come early -/

/-- A poll before the stream has something to do changes nothing. -/
theorem Watched.of_waits {now due : Nat} {state after : σ} {items : List (Timed α)}
    (watched : Watched stream leave now state items)
    (round : stream.round now state = (.waits, after)) (wakes : stream.wake after = some due)
    (stays : ∀ time ∈ leave, due < time) : Watched stream leave due after items := by
  induction watched with
  | gives other | again other | ends other =>
      simp [round] at other
  | waits other later prompt _ rest ih =>
      rw [round] at other
      cases other
      rcases Nat.lt_or_eq_of_le (prompt due wakes) with hearly | hdue
      · have hsteady := stream.steady round (Nat.le_of_lt later)
          (fun time htime => by rw [wakes] at htime; cases htime; exact hearly)
        exact ih hsteady
      · rw [← hdue]
        exact rest
  | leaves other goes later prompt =>
      rw [round] at other
      cases other
      have hleave := prompt due wakes
      have hstay := stays _ goes
      omega

/-- Nothing is given to a consumer that leaves before the stream has something to do. -/
theorem Watched.eq_nil {now time : Nat} {state after : σ} {items : List (Timed α)}
    (watched : Watched stream leave now state items)
    (round : stream.round now state = (.waits, after)) (goes : leave = some time)
    (prompt : ∀ due ∈ stream.wake after, time ≤ due) : items = [] := by
  induction watched with
  | gives other | again other | ends other =>
      simp [round] at other
  | waits other later _ stays rest ih =>
      rw [round] at other
      cases other
      have hsteady := stream.steady round (Nat.le_of_lt later)
        (fun due hdue => Nat.lt_of_lt_of_le (stays time goes) (prompt due hdue))
      exact ih hsteady
  | leaves =>
      rfl

/-! ## What a consumer gets -/

theorem Runs.watched {now stop : Nat} {state : σ} {items : List (Timed α)}
    (runs : Runs stream leave now state items stop) : Watched stream leave now state items := by
  induction runs with
  | gives round _ ih =>
      exact .gives round ih
  | again round _ ih =>
      exact .again round ih
  | ends round =>
      exact .ends round
  | waits round wakes stays _ ih =>
      refine .waits round (stream.wake_later round wakes) ?_ stays ih
      intro due hdue
      rw [wakes] at hdue
      cases hdue
      exact Nat.le_refl _
  | leaves round goes later prompt =>
      exact .leaves round goes later prompt

/-- However a consumer polls, as long as it is never late, it gets the same. -/
theorem Runs.eq_of_watched {now stop : Nat} {state : σ} {items seen : List (Timed α)}
    (runs : Runs stream leave now state items stop)
    (watched : Watched stream leave now state seen) : seen = items := by
  induction runs generalizing seen with
  | gives round _ ih =>
      cases watched with
      | gives other rest =>
          rw [round] at other
          cases other
          rw [ih rest]
      | again other | ends other | waits other | leaves other =>
          simp [round] at other
  | again round _ ih =>
      cases watched with
      | again other rest =>
          rw [round] at other
          cases other
          exact ih rest
      | gives other | ends other | waits other | leaves other =>
          simp [round] at other
  | ends round =>
      cases watched with
      | ends =>
          rfl
      | gives other | again other | waits other | leaves other =>
          simp [round] at other
  | waits round wakes stays _ ih =>
      exact ih (watched.of_waits round wakes stays)
  | leaves round goes _ prompt =>
      exact watched.eq_nil round goes prompt

theorem Runs.watched_iff {now stop : Nat} {state : σ} {items : List (Timed α)}
    (runs : Runs stream leave now state items stop) (seen : List (Timed α)) :
    Watched stream leave now state seen ↔ seen = items := by
  constructor
  · intro watched
    exact runs.eq_of_watched watched
  · rintro rfl
    exact runs.watched

/-- Nothing is given, and nothing ends, before the time at which the run begins. -/
theorem Runs.le_time {now stop : Nat} {state : σ} {items : List (Timed α)}
    (runs : Runs stream leave now state items stop) :
    (∀ item ∈ items, now ≤ item.time) ∧ now ≤ stop := by
  induction runs with
  | gives _ _ ih =>
      refine ⟨?_, ih.2⟩
      intro item hitem
      rcases List.mem_cons.1 hitem with rfl | hrest
      · exact Nat.le_refl _
      · exact ih.1 item hrest
  | again _ _ ih =>
      exact ih
  | ends =>
      simp
  | waits round wakes _ _ ih =>
      have hlater := stream.wake_later round wakes
      refine ⟨?_, by omega⟩
      intro item hitem
      exact Nat.le_trans (Nat.le_of_lt hlater) (ih.1 item hitem)
  | leaves _ _ later =>
      exact ⟨by simp, Nat.le_of_lt later⟩

end Stream

end ChatGateway
