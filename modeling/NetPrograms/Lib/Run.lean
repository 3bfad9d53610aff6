import Mathlib.Algebra.Order.Ring.Int
import Mathlib.Data.List.Induction

/-! Finite runs of a labelled transition relation. A safety property of every
run is an invariant of one step; a run of one system is compared with a run of
another through a relation that every step keeps. -/

namespace NetPrograms

universe u v w
variable {σ : Type u} {ε : Type v}

/-- The states reached from `start` under a list of events, oldest event first.
A run grows at its end, so that an induction follows the order of time. -/
inductive Run (Step : σ → ε → σ → Prop) (start : σ) : List ε → σ → Prop where
  | start : Run Step start [] start
  | next {events before event after} (earlier : Run Step start events before)
      (step : Step before event after) : Run Step start (events ++ [event]) after

namespace Run
variable {Step : σ → ε → σ → Prop} {start last : σ} {events : List ε}

theorem single {event : ε} (step : Step start event last) : Run Step start [event] last := by
  simpa using Run.next .start step

theorem invariant (run : Run Step start events last) (Inv : σ → Prop) (initial : Inv start)
    (preserved : ∀ before event after, Inv before → Step before event after → Inv after) :
    Inv last := by
  induction run with
  | start => exact initial
  | next earlier step ih => exact preserved _ _ _ ih step

theorem append {middle : σ} {more : List ε} (first : Run Step start events middle)
    (second : Run Step middle more last) : Run Step start (events ++ more) last := by
  induction second with
  | start => simpa using first
  | next earlier step ih =>
    rw [← List.append_assoc]
    exact .next ih step

/-- Two runs under the same events keep every relation that their steps keep. -/
theorem relation {τ : Type w} {Other : τ → ε → τ → Prop} {second final : τ} (run : Run Step start events last)
    (other : Run Other second events final) (Rel : σ → τ → Prop) (initial : Rel start second)
    (preserved : ∀ before before' event after after', Rel before before' → Step before event after →
      Other before' event after' → Rel after after') : Rel last final := by
  induction run generalizing final with
  | start =>
    generalize same : ([] : List ε) = none at other
    cases other with
    | start => exact initial
    | next _ _ => simp at same
  | @next events before event after _ step ih =>
    generalize same : events ++ [event] = all at other
    cases other with
    | start => simp at same
    | next earlier again =>
      obtain ⟨rfl, last⟩ := List.append_inj' same rfl
      obtain rfl := (List.cons.inj last).1
      exact preserved _ _ _ _ _ (ih earlier) step again

end Run

/-- The run of a deterministic system, which has no result from the first event
on that the system has no result for. -/
def exec (step : σ → ε → Option σ) (start : σ) (events : List ε) : Option σ :=
  events.foldlM step start

section exec
variable {step : σ → ε → Option σ} {start last : σ} {events : List ε}

theorem exec_cons (event : ε) : exec step start (event :: events) = (step start event).bind (exec step · events) := rfl

theorem exec_append (more : List ε) :
    exec step start (events ++ more) = (exec step start events).bind (exec step · more) :=
  List.foldlM_append

theorem exec_snoc (event : ε) :
    exec step start (events ++ [event]) = (exec step start events).bind (step · event) := by
  rw [exec_append]
  congr 1
  funext state
  simp [exec]

theorem exec_next {before : σ} {event : ε} (earlier : exec step start events = some before) (taken : step before event = some last) :
    exec step start (events ++ [event]) = some last := by
  rw [exec_snoc, earlier, Option.bind_some, taken]

/-- The relation of a deterministic system. -/
def Taken (step : σ → ε → Option σ) (before : σ) (event : ε) (after : σ) : Prop := step before event = some after

theorem Run.of_exec (reached : exec step start events = some last) : Run (Taken step) start events last := by
  induction events using List.reverseRecOn generalizing last with
  | nil =>
    cases reached
    exact .start
  | append_singleton events event ih =>
    rw [exec_snoc] at reached
    obtain ⟨before, earlier, stepped⟩ := Option.bind_eq_some_iff.mp reached
    exact .next (ih earlier) stepped

/-- The steps of a deterministic system that meet a condition on the state before. -/
def meeting (meets : σ → ε → Prop) [∀ state event, Decidable (meets state event)] (step : σ → ε → Option σ)
    (state : σ) (event : ε) : Option σ :=
  if meets state event then step state event else none

theorem meeting_eq_some {meets : σ → ε → Prop} [∀ state event, Decidable (meets state event)] {state after : σ}
    {event : ε} (taken : meeting meets step state event = some after) :
    meets state event ∧ step state event = some after := by
  unfold meeting at taken
  split at taken
  next met => exact ⟨met, taken⟩
  next => cases taken

theorem exec_of_meeting {meets : σ → ε → Prop} [∀ state event, Decidable (meets state event)]
    (reached : exec (meeting meets step) start events = some last) : exec step start events = some last := by
  induction events using List.reverseRecOn generalizing last with
  | nil => exact reached
  | append_singleton events event ih =>
    rw [exec_snoc] at reached ⊢
    obtain ⟨before, earlier, taken⟩ := Option.bind_eq_some_iff.mp reached
    rw [ih earlier]
    exact (meeting_eq_some taken).2

/-- Every step of a run meets the condition exactly when the last one and all before do. -/
theorem exec_meeting_snoc {meets : σ → ε → Prop} [∀ state event, Decidable (meets state event)] {before : σ} {event : ε}
    (earlier : exec step start events = some before) (taken : step before event = some last) :
    exec (meeting meets step) start (events ++ [event]) = some last ↔
      exec (meeting meets step) start events = some before ∧ meets before event := by
  rw [exec_snoc]
  constructor
  · intro reached
    obtain ⟨middle, all, met⟩ := Option.bind_eq_some_iff.mp reached
    obtain rfl : middle = before := Option.some.inj ((exec_of_meeting all).symm.trans earlier)
    exact ⟨all, (meeting_eq_some met).1⟩
  · rintro ⟨all, met⟩
    rw [all, Option.bind_some, meeting, if_pos met, taken]

/-- Events that meet the condition in every state make no difference. -/
theorem exec_meeting_of_always {meets : σ → ε → Prop} [∀ state event, Decidable (meets state event)]
    (always : ∀ event ∈ events, ∀ state, meets state event) : exec (meeting meets step) start events = exec step start events := by
  induction events generalizing start with
  | nil => rfl
  | cons event events ih =>
    rw [exec_cons, exec_cons, meeting, if_pos (always event (List.mem_cons_self ..) start)]
    congr 1
    funext state
    exact ih fun later member => always later (List.mem_cons_of_mem _ member)

/-- As long as the states are live, every step either keeps a property or spoils it for
good: in a live last state it holds exactly when all steps have met the condition. -/
theorem exec_meeting_iff_of_live {meets : σ → ε → Prop} [∀ state event, Decidable (meets state event)]
    (Inv Live Good : σ → Prop) (initial : Inv start) (good : Good start)
    (kept : ∀ before event after, Inv before → step before event = some after →
      Inv after ∧ (Live after → Live before ∧ (Good after ↔ Good before ∧ meets before event)))
    (reached : exec step start events = some last) :
    Inv last ∧ (Live last → (Good last ↔ exec (meeting meets step) start events = some last)) := by
  induction events using List.reverseRecOn generalizing last with
  | nil =>
    cases reached
    exact ⟨initial, fun _ => ⟨fun _ => rfl, fun _ => good⟩⟩
  | append_singleton events event ih =>
    rw [exec_snoc] at reached
    obtain ⟨before, earlier, taken⟩ := Option.bind_eq_some_iff.mp reached
    obtain ⟨held, all⟩ := ih earlier
    obtain ⟨holds, same⟩ := kept before event last held taken
    refine ⟨holds, ?_⟩
    intro live
    obtain ⟨living, same⟩ := same live
    rw [exec_meeting_snoc earlier taken, same, all living]

/-- A property of the last state that every step either keeps or spoils for good:
it holds exactly when all steps of the run have met the condition. -/
theorem exec_meeting_iff {meets : σ → ε → Prop} [∀ state event, Decidable (meets state event)] (Inv Good : σ → Prop)
    (initial : Inv start) (good : Good start)
    (kept : ∀ before event after, Inv before → step before event = some after →
      Inv after ∧ (Good after ↔ Good before ∧ meets before event))
    (reached : exec step start events = some last) :
    Inv last ∧ (Good last ↔ exec (meeting meets step) start events = some last) := by
  have all := exec_meeting_iff_of_live Inv (fun _ => True) Good initial good
    (fun before event after held taken => (kept before event after held taken).imp_right fun same _ => ⟨trivial, same⟩) reached
  exact all.imp_right fun same => same trivial

/-- `Good` holds of every state of a run. -/
def Throughout (step : σ → ε → Option σ) (Good : σ → Prop) (start : σ) (events : List ε) : Prop :=
  ∀ earlier state, earlier <+: events → exec step start earlier = some state → Good state

theorem Throughout.at_last {Good : σ → Prop} (throughout : Throughout step Good start events)
    (reached : exec step start events = some last) : Good last :=
  throughout events last (List.prefix_refl events) reached

theorem throughout_snoc {Good : σ → Prop} {event : ε} (reached : exec step start (events ++ [event]) = some last) :
    Throughout step Good start (events ++ [event]) ↔ Throughout step Good start events ∧ Good last := by
  constructor
  · intro throughout
    refine ⟨?_, throughout.at_last reached⟩
    intro earlier state within
    exact throughout earlier state (within.trans (List.prefix_append _ _))
  · intro ⟨throughout, good⟩ earlier state within stopped
    rcases List.prefix_concat_iff.mp within with rfl | within
    · obtain rfl : last = state := Option.some.inj (reached.symm.trans stopped)
      exact good
    · exact throughout earlier state within stopped

/-- Where every step from a state of the invariant leads to a good state exactly when
it meets the condition, all states of a run are good exactly when all its steps do. -/
theorem throughout_iff_meeting {meets : σ → ε → Prop} [∀ state event, Decidable (meets state event)] (Inv Good : σ → Prop)
    (initial : Inv start) (good : Good start)
    (kept : ∀ before event after, Inv before → step before event = some after →
      (Good after ↔ meets before event) ∧ (Good after → Inv after))
    (reached : exec step start events = some last) :
    (Throughout step Good start events → Inv last) ∧
      (Throughout step Good start events ↔ exec (meeting meets step) start events = some last) := by
  induction events using List.reverseRecOn generalizing last with
  | nil =>
    cases reached
    refine ⟨fun _ => initial, fun _ => rfl, ?_⟩
    intro _ earlier state within stopped
    obtain rfl := List.prefix_nil.mp within
    cases stopped
    exact good
  | append_singleton events event ih =>
    have whole := reached
    rw [exec_snoc] at reached
    obtain ⟨before, earlier, taken⟩ := Option.bind_eq_some_iff.mp reached
    obtain ⟨held, same⟩ := ih earlier
    rw [throughout_snoc whole, exec_meeting_snoc earlier taken, ← same]
    refine ⟨?_, and_congr_right ?_⟩
    · intro ⟨throughout, last⟩
      exact (kept before event _ (held throughout) taken).2 last
    · intro throughout
      exact (kept before event last (held throughout) taken).1

/-- A deterministic system whose every step from a state of the invariant has a
result in the invariant never stops, whatever the events are. -/
theorem exec_total (Inv : σ → Prop) (events : List ε) (initial : Inv start)
    (progress : ∀ before event, Inv before → ∃ after, step before event = some after ∧ Inv after) :
    ∃ last, exec step start events = some last ∧ Inv last := by
  induction events using List.reverseRecOn with
  | nil => exact ⟨start, rfl, initial⟩
  | append_singleton events event ih =>
    obtain ⟨before, reached, held⟩ := ih
    obtain ⟨after, stepped, kept⟩ := progress before event held
    exact ⟨after, by rw [exec_snoc, reached]; exact stepped, kept⟩

end exec

section answers
universe x y
variable {τ : Type x} {ο : Type y}

/-- A system that answers each event, with all its answers so far. -/
def answering (step : σ → ε → Option (σ × ο)) (state : σ × List ο) (event : ε) : Option (σ × List ο) :=
  (step state.1 event).map fun (after, answer) => (after, state.2 ++ [answer])

/-- The answers of a total system. -/
def answers (spec : τ → ε → τ × ο) (start : τ) (events : List ε) : τ × List ο :=
  events.foldl (fun state event => ((spec state.1 event).1, state.2 ++ [(spec state.1 event).2])) (start, [])

theorem answers_snoc (spec : τ → ε → τ × ο) (start : τ) (events : List ε) (event : ε) :
    answers spec start (events ++ [event]) =
      ((spec (answers spec start events).1 event).1,
        (answers spec start events).2 ++ [(spec (answers spec start events).1 event).2]) := by
  rw [answers, List.foldl_append]
  rfl

/-- A system that simulates a total one never stops and gives the same answers. -/
theorem exec_answers {step : σ → ε → Option (σ × ο)} {spec : τ → ε → τ × ο} (Rep : σ → τ → Prop) {start : σ} {first : τ}
    (initial : Rep start first) (simulated : ∀ state world event, Rep state world →
      ∃ after, step state event = some (after, (spec world event).2) ∧ Rep after (spec world event).1)
    (events : List ε) :
    ∃ last, exec (answering step) (start, []) events = some (last, (answers spec first events).2) ∧
      Rep last (answers spec first events).1 := by
  induction events using List.reverseRecOn with
  | nil => exact ⟨start, rfl, initial⟩
  | append_singleton events event ih =>
    obtain ⟨before, reached, represents⟩ := ih
    obtain ⟨after, stepped, kept⟩ := simulated before _ event represents
    rw [answers_snoc]
    refine ⟨after, ?_, kept⟩
    rw [exec_snoc, reached, Option.bind_some, answering, stepped]
    rfl

end answers
end NetPrograms
