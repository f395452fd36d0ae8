import AppletHost.Bridge.Registry
import Mathlib.Data.List.Forall2
import Mathlib.Data.List.Induction
import Mathlib.Data.List.Nodup

/-!
# Who receives an event

Deliveries nest: while a subscriber is busy with an event, or its filter ponders over it, it or anyone
else may publish another one, and may subscribe, unsubscribe and let go of subscribers. What the
registry holds after any such steps, the steps themselves tell (`Since`). `Course` follows a bridge
through them and keeps a record of every publication beside it, and the invariant is

> `Course.told_step`: the record of a delivery under way tells whom it has asked and what they said,
> and what became of those that accepted the event, whatever happens in between.

The headline is `delivered_exactly_once`. That deliveries always come to an end, once the subscribers
do, is `exists_progress`.
-/

namespace AppletHost.Bridge

/-! ## Steps -/

namespace Step

/-- The event that the step publishes. -/
def event? : Step → Option Event
  | .publish _ event => some event
  | _ => none

/-- The filter of the subscriber that the step registers. -/
def filter? : Step → Option Filter
  | .subscribe filter => some filter
  | _ => none

/-- The step takes a delivery further. -/
def IsProgress : Step → Prop
  | .visit | .conclude _ | .finish => True
  | _ => False

/-- The step brings no filter that may break down. -/
def Unfailing : Step → Prop
  | .subscribe filter | .alter _ filter => ∀ event, filter event ≠ .breaksDown
  | _ => True

/-- The step leaves the filters of all subscribers as they are. -/
def Steady : Step → Prop
  | .alter .. => False
  | _ => True

/-- The owner of the subscriber lets go of it. -/
def Releases (id : SubscriberId) (_ : Exchange) : Step → Prop
  | .release other => id = other
  | _ => False

/-- The filter of the subscriber changes. -/
def Alters (id : SubscriberId) (_ : Exchange) : Step → Prop
  | .alter other _ => id = other
  | _ => False

/-- The registration is removed: on purpose, or because a publication finds its subscriber dead. -/
def Removes (id : SubscriberId) (x : Exchange) : Step → Prop
  | .unsubscribe other => id = other
  | .publish .. => x.isAlive id = false
  | _ => False

end Step

/-- The filters of those that subscribed in a run, the first one first. -/
def subscriptions (steps : List Step) : List Filter := steps.filterMap Step.filter?

/-- The subscriber has subscribed in the run, and no step has undone it since. -/
def Since (steps : List Step) (id : SubscriberId) (undoes : Exchange → Step → Prop) : Prop :=
  id < (subscriptions steps).length ∧
  ∀ before step after, steps = before ++ step :: after → id < (subscriptions before).length →
    ¬ undoes (Exchange.run {} before) step

section Since

variable {steps before after : List Step} {step : Step} {id : SubscriberId}
  {undoes : Exchange → Step → Prop}

/-- The filters that a run subscribes with come in the order of its steps. -/
theorem subscriptions_append (steps steps' : List Step) :
    subscriptions (steps ++ steps') = subscriptions steps ++ subscriptions steps' :=
  List.filterMap_append

/-- A step registers one more subscriber or none. Subscribers are numbered by how many came before
them, so this is what the numbers are counted by. -/
theorem length_subscriptions_snoc : (subscriptions (steps ++ [step])).length =
    (subscriptions steps).length + step.filter?.toList.length := by
  rw [subscriptions_append, List.length_append, subscriptions, subscriptions]
  cases h : step.filter? with
  | none => simp [h]
  | some filter => simp [h]

/-- A split of a run that is one step longer is a split of the run, or that step comes last. -/
theorem snoc_eq_append_cons {last : Step} (h : steps ++ [last] = before ++ step :: after) :
    (before = steps ∧ step = last ∧ after = []) ∨
      ∃ after', after = after' ++ [last] ∧ steps = before ++ step :: after' := by
  rcases List.eq_nil_or_concat after with rfl | ⟨after', last', rfl⟩
  · obtain ⟨rfl, hlast⟩ := List.append_inj' h rfl
    cases hlast
    exact .inl ⟨rfl, rfl, rfl⟩
  · rw [List.concat_eq_append, ← List.cons_append, ← List.append_assoc] at h
    obtain ⟨rfl, hlast⟩ := List.append_inj' h rfl
    cases hlast
    exact .inr ⟨after', List.concat_eq_append, rfl⟩

/-- One more step leaves what has been so, unless it undoes it; and it may register the next
subscriber, of which nothing has been undone. -/
theorem since_snoc : Since (steps ++ [step]) id undoes ↔
    (Since steps id undoes ∧ ¬ undoes (Exchange.run {} steps) step) ∨
      (id = (subscriptions steps).length ∧ step.filter?.isSome = true) := by
  have hlength : (subscriptions (steps ++ [step])).length =
      (subscriptions steps).length + step.filter?.toList.length := length_subscriptions_snoc
  constructor
  · rintro ⟨hlt, hkept⟩
    by_cases hold : id < (subscriptions steps).length
    · refine .inl ⟨⟨hold, ?_⟩, hkept steps step [] rfl hold⟩
      rintro before step' after rfl
      exact hkept before step' (after ++ [step]) (by rw [List.append_assoc, List.cons_append])
    · cases hfilter : step.filter? with
      | none =>
        rw [hlength, hfilter] at hlt
        exact absurd hlt hold
      | some filter =>
        rw [hlength, hfilter] at hlt
        exact .inr ⟨Nat.le_antisymm (Nat.le_of_lt_succ hlt) (Nat.le_of_not_lt hold), rfl⟩
  · rintro (⟨⟨hlt, hkept⟩, hlast⟩ | ⟨rfl, hfilter⟩)
    · refine ⟨?_, fun before step' after heq hbefore => ?_⟩
      · rw [hlength]
        exact Nat.lt_add_right _ hlt
      rcases snoc_eq_append_cons heq with ⟨rfl, rfl, -⟩ | ⟨after', -, heq⟩
      · exact hlast
      · exact hkept before step' after' heq hbefore
    · obtain ⟨filter, hfilter⟩ := Option.isSome_iff_exists.1 hfilter
      rw [hfilter] at hlength
      refine ⟨?_, fun before step' after heq hbefore => ?_⟩
      · rw [hlength]
        exact Nat.lt_succ_self _
      -- no split of the run comes after the subscription
      rcases snoc_eq_append_cons heq with ⟨rfl, -, -⟩ | ⟨after', -, rfl⟩
      · exact absurd hbefore (Nat.lt_irrefl _)
      · rw [subscriptions_append, List.length_append] at hbefore
        exact absurd hbefore (Nat.not_lt.2 (Nat.le_add_right _ _))

end Since

/-! ## Exchanges -/

namespace Exchange

/-- The events that are published in a run, each with the bridge when its snapshot is taken. -/
def published (x : Exchange) : List Step → List (Event × Exchange)
  | [] => []
  | step :: steps => (step.event?.map fun event => (event, x)).toList ++ (x.step step).published steps

/-- No filter breaks down over any event. -/
def Unfailing (x : Exchange) : Prop := ∀ id event, x.filters id event ≠ .breaksDown

variable {x : Exchange}

/-- Being registered is having a place in the registry, which is what the walk goes through. -/
theorem isRegistered_iff {id : SubscriberId} :
    x.registry.isRegistered id = true ↔ id ∈ x.registry.registered :=
  List.contains_iff_mem

/-- A subscriber is live when it is registered and somebody still holds it; the walk skips all
others. -/
theorem mem_live {id : SubscriberId} :
    id ∈ x.live ↔ x.registry.isRegistered id = true ∧ x.isAlive id = true := by
  rw [isRegistered_iff]
  exact List.mem_filter

/-- It is held by its owner, or by the delivery that is in the middle of calling it. -/
theorem isAlive_iff {id : SubscriberId} :
    x.isAlive id = true ↔ id ∈ x.registry.owned ∨ id ∈ x.held := by
  rw [isAlive, Registry.isAlive, Bool.or_eq_true, List.contains_iff_mem, List.contains_iff_mem]

theorem run_append (x : Exchange) (steps steps' : List Step) :
    x.run (steps ++ steps') = (x.run steps).run steps' :=
  List.foldl_append

/-- One more step is taken where the run has led, so that invariants go step by step. -/
theorem run_snoc (x : Exchange) (steps : List Step) (step : Step) :
    x.run (steps ++ [step]) = (x.run steps).step step :=
  x.run_append steps [step]

/-- What was published over two rows of steps comes in their order. -/
theorem published_append (x : Exchange) (steps steps' : List Step) :
    x.published (steps ++ steps') = x.published steps ++ (x.run steps).published steps' := by
  induction steps generalizing x with
  | nil => rfl
  | cons step steps ih =>
    rw [List.cons_append, published, published, ih, List.append_assoc]
    rfl

/-- What is published in a run is published from the bridge that the steps before have led to. -/
theorem mem_published {steps : List Step} {o : Event × Exchange} (h : o ∈ x.published steps) :
    ∃ before, before <+: steps ∧ o.2 = x.run before := by
  induction steps generalizing x with
  | nil => exact absurd h List.not_mem_nil
  | cons step steps ih =>
    rcases List.mem_append.1 h with h | h
    · obtain ⟨event, -, rfl⟩ := Option.map_eq_some_iff.1 (Option.mem_toList.1 h)
      exact ⟨[], List.nil_prefix, rfl⟩
    · obtain ⟨before, hinitial, heq⟩ := ih h
      exact ⟨step :: before, List.cons_prefix_cons.2 ⟨rfl, hinitial⟩, heq⟩

/-- A visit asks the next subscriber of the innermost delivery, and the answer decides how the delivery
goes on. -/
theorem visit_of_deliveries {event : Event} {id : SubscriberId} {pending : List SubscriberId}
    {delivered : Nat} {outer : List Delivery}
    (h : x.deliveries = ⟨event, id :: pending, none, delivered⟩ :: outer) :
    (x.filters id event = .accepts ∧ x.asked? = some (id, .accepts) ∧
      x.visit = { x with deliveries := ⟨event, pending, some id, delivered⟩ :: outer }) ∨
    (x.filters id event = .skips ∧ x.asked? = some (id, .skips) ∧
      x.visit = { x with deliveries := ⟨event, pending, none, delivered⟩ :: outer }) ∨
    (x.filters id event = .breaksDown ∧ x.asked? = some (id, .breaksDown) ∧
      x.visit = { x with deliveries := outer }) := by
  have hasked : x.asked? = some (id, x.filters id event) := by
    rw [asked?, h]
  cases hanswer : x.filters id event with
  | accepts => exact Or.inl ⟨rfl, by rw [hasked, hanswer], by simp only [visit, h, hanswer]⟩
  | skips => exact Or.inr (Or.inl ⟨rfl, by rw [hasked, hanswer], by simp only [visit, h, hanswer]⟩)
  | breaksDown =>
    exact Or.inr (Or.inr ⟨rfl, by rw [hasked, hanswer], by simp only [visit, h, hanswer]⟩)

/-- A visit turns to the next subscriber of the innermost delivery, if that waits for one. -/
theorem visit_cases (x : Exchange) :
    (∃ event id pending delivered outer,
      x.deliveries = ⟨event, id :: pending, none, delivered⟩ :: outer ∧
      (x.filters id event = .accepts ∧ x.asked? = some (id, .accepts) ∧
          x.visit = { x with deliveries := ⟨event, pending, some id, delivered⟩ :: outer } ∨
        x.filters id event = .skips ∧ x.asked? = some (id, .skips) ∧
          x.visit = { x with deliveries := ⟨event, pending, none, delivered⟩ :: outer } ∨
        x.filters id event = .breaksDown ∧ x.asked? = some (id, .breaksDown) ∧
          x.visit = { x with deliveries := outer })) ∨
    (x.asked? = none ∧ x.visit = x) := by
  by_cases hwaits : ∃ event id pending delivered outer,
      x.deliveries = ⟨event, id :: pending, none, delivered⟩ :: outer
  · obtain ⟨event, id, pending, delivered, outer, h⟩ := hwaits
    exact Or.inl ⟨event, id, pending, delivered, outer, h, visit_of_deliveries h⟩
  · refine Or.inr ?_
    unfold asked? visit
    split
    next event id pending delivered outer h =>
      exact absurd ⟨event, id, pending, delivered, outer, h⟩ hwaits
    next => exact ⟨rfl, rfl⟩

/-- The end of a visit concerns the subscriber that is busy in the innermost delivery, if one is. -/
theorem conclude_cases (x : Exchange) (brokeDown : Bool) :
    (∃ event id pending delivered outer,
      x.deliveries = ⟨event, pending, some id, delivered⟩ :: outer ∧
      x.busy? = some (event, id) ∧
      x.conclude brokeDown = { x with
        deliveries :=
          ⟨event, pending, none, if brokeDown then delivered else delivered + 1⟩ :: outer }) ∨
    (x.busy? = none ∧ x.conclude brokeDown = x) := by
  unfold conclude
  split
  next event pending id delivered outer h =>
    refine Or.inl ⟨event, id, pending, delivered, outer, h, ?_, rfl⟩
    rw [busy?, h]
    rfl
  next hno =>
    refine Or.inr ⟨?_, rfl⟩
    unfold busy?
    split
    next d outer h =>
      obtain ⟨event, pending, busy, delivered⟩ := d
      cases busy with
      | none => rfl
      | some id => exact absurd h (hno event pending id delivered outer)
    next => rfl

/-- A delivery ends once everyone has been visited, and hands the number of its deliveries to the
publisher. Asked for any earlier, the end changes nothing. -/
theorem finish_cases (x : Exchange) :
    (∃ event delivered outer, x.deliveries = ⟨event, [], none, delivered⟩ :: outer ∧
      x.result? = some delivered ∧ x.finish = { x with deliveries := outer }) ∨
    (x.result? = none ∧ x.finish = x) := by
  unfold result? finish
  split
  next event delivered outer h => exact Or.inl ⟨event, delivered, outer, h, rfl, rfl⟩
  next => exact Or.inr ⟨rfl, rfl⟩

/-- Deliveries go on without touching the registrations or the filters. -/
theorem kept_of_progress (x : Exchange) (step : Step) (h : step.IsProgress) :
    (x.step step).registry = x.registry ∧ (x.step step).filters = x.filters := by
  cases step with
  | visit =>
    rcases x.visit_cases with
      ⟨_, _, _, _, _, _, ⟨-, -, hvisit⟩ | ⟨-, -, hvisit⟩ | ⟨-, -, hvisit⟩⟩ | ⟨-, hvisit⟩
    · rw [step, hvisit]
      exact ⟨rfl, rfl⟩
    · rw [step, hvisit]
      exact ⟨rfl, rfl⟩
    · rw [step, hvisit]
      exact ⟨rfl, rfl⟩
    · rw [step, hvisit]
      exact ⟨rfl, rfl⟩
  | conclude brokeDown =>
    rcases x.conclude_cases brokeDown with ⟨_, _, _, _, _, _, -, hconclude⟩ | ⟨-, hconclude⟩
    · rw [step, hconclude]
      exact ⟨rfl, rfl⟩
    · rw [step, hconclude]
      exact ⟨rfl, rfl⟩
  | finish =>
    rcases x.finish_cases with ⟨_, _, _, _, _, hfinish⟩ | ⟨-, hfinish⟩
    · rw [step, hfinish]
      exact ⟨rfl, rfl⟩
    · rw [step, hfinish]
      exact ⟨rfl, rfl⟩
  | _ => exact h.elim

/-! ### Registrations -/

/-- Subscribers are numbered as they come: the next number is that of the subscriptions so far. -/
theorem next_run (steps : List Step) :
    (run {} steps).registry.next = (subscriptions steps).length := by
  induction steps using List.reverseRecOn with
  | nil => rfl
  | append_singleton steps step ih =>
    rw [run_snoc, length_subscriptions_snoc, ← ih]
    have hprogress : step.IsProgress →
        ((run {} steps).step step).registry.next = (run {} steps).registry.next :=
      fun h => congrArg Registry.next (kept_of_progress _ step h).1
    cases step with
    | visit | conclude brokeDown | finish => exact hprogress trivial
    | _ => rfl

/-- What holds of a subscriber from its subscription on, until a step undoes it. -/
theorem since_run {P : Exchange → SubscriberId → Prop} {undoes : SubscriberId → Exchange → Step → Prop}
    (hstart : ∀ id, ¬ P {} id)
    (hstep : ∀ x step id, P (x.step step) id ↔
      (P x id ∧ ¬ undoes id x step) ∨ (id = x.registry.next ∧ step.filter?.isSome = true))
    (steps : List Step) (id : SubscriberId) : P (run {} steps) id ↔ Since steps id (undoes id) := by
  induction steps using List.reverseRecOn with
  | nil => exact ⟨fun h => absurd h (hstart id), fun h => absurd h.1 (Nat.not_lt_zero _)⟩
  | append_singleton steps step ih => rw [run_snoc, hstep, ih, since_snoc, next_run]

/-- A registration lasts until it is removed on purpose or its subscriber is found dead. -/
theorem isRegistered_run (steps : List Step) (id : SubscriberId) :
    (run {} steps).registry.isRegistered id = true ↔ Since steps id (Step.Removes id) := by
  refine since_run (P := fun x id => x.registry.isRegistered id = true)
    (fun id h => Bool.false_ne_true h) ?_ steps id
  intro x step id
  have hprogress : step.IsProgress → ((x.step step).registry.isRegistered id = true ↔
      (x.registry.isRegistered id = true ∧ ¬ Step.Removes id x step) ∨
        (id = x.registry.next ∧ step.filter?.isSome = true)) := by
    intro h
    rw [(x.kept_of_progress step h).1]
    cases step <;> simp_all [Step.IsProgress, Step.Removes, Step.filter?]
  cases step with
  | visit | conclude brokeDown | finish => exact hprogress trivial
  | subscribe filter =>
    simp [step, subscribe, Registry.subscribe, Registry.isRegistered, Step.Removes, Step.filter?]
  | unsubscribe other =>
    simp [step, Registry.unsubscribe, Registry.isRegistered, Step.Removes, Step.filter?]
  | release other => simp [step, Registry.release, Registry.isRegistered, Step.Removes, Step.filter?]
  | alter other filter => simp [step, alter, Step.Removes, Step.filter?]
  | publish walk event =>
    have hlive : (x.step (.publish walk event)).registry.isRegistered id = true ↔ id ∈ x.live :=
      isRegistered_iff
    simp [hlive, mem_live, Step.Removes, Step.filter?]

/-- The owner of a subscriber holds it until he lets go of it. -/
theorem owned_run (steps : List Step) (id : SubscriberId) :
    id ∈ (run {} steps).registry.owned ↔ Since steps id (Step.Releases id) := by
  refine since_run (P := fun x id => id ∈ x.registry.owned) (fun id h => absurd h List.not_mem_nil)
    ?_ steps id
  intro x step id
  have hprogress : step.IsProgress → (id ∈ (x.step step).registry.owned ↔
      (id ∈ x.registry.owned ∧ ¬ Step.Releases id x step) ∨
        (id = x.registry.next ∧ step.filter?.isSome = true)) := by
    intro h
    rw [(x.kept_of_progress step h).1]
    cases step <;> simp_all [Step.IsProgress, Step.Releases, Step.filter?]
  cases step with
  | visit | conclude brokeDown | finish => exact hprogress trivial
  | subscribe filter => simp [step, subscribe, Registry.subscribe, Step.Releases, Step.filter?]
  | unsubscribe other => simp [step, Registry.unsubscribe, Step.Releases, Step.filter?]
  | release other => simp [step, Registry.release, Step.Releases, Step.filter?]
  | alter other filter => simp [step, alter, Step.Releases, Step.filter?]
  | publish walk event => simp [step, publish, Step.Releases, Step.filter?]

/-- The filter of a subscriber is the one it came with, until it changes. -/
theorem filters_run {steps : List Step} {id : SubscriberId} (h : Since steps id (Step.Alters id)) :
    (subscriptions steps)[id]? = some ((run {} steps).filters id) := by
  induction steps using List.reverseRecOn with
  | nil => exact absurd h.1 (Nat.not_lt_zero _)
  | append_singleton steps step ih =>
    have hnext := next_run steps
    rw [run_snoc, subscriptions_append]
    rcases since_snoc.1 h with ⟨hsince, hkeeps⟩ | ⟨rfl, hfilter⟩
    · rw [List.getElem?_append_left hsince.1, ih hsince, Option.some.injEq]
      have hprogress : step.IsProgress →
          (run {} steps).filters id = ((run {} steps).step step).filters id :=
        fun h => congrFun (kept_of_progress _ step h).2.symm id
      cases step with
      | visit | conclude brokeDown | finish => exact hprogress trivial
      | subscribe filter =>
        have hne : id ≠ (run {} steps).registry.next := by
          rw [hnext]
          exact Nat.ne_of_lt hsince.1
        exact (if_neg hne).symm
      | alter other filter =>
        have hne : id ≠ other := hkeeps
        exact (if_neg hne).symm
      | _ => rfl
    · rw [List.getElem?_append_right (Nat.le_refl _), Nat.sub_self]
      cases step with
      | subscribe filter =>
        refine congrArg some ?_
        exact (if_pos hnext.symm).symm
      | _ => exact absurd hfilter Bool.false_ne_true

/-- Every registration has a number of its own, so a walk that meets each registration once meets each
subscriber once. -/
theorem nodup_run (steps : List Step) : (run {} steps).registry.registered.Nodup := by
  induction steps using List.reverseRecOn with
  | nil => exact .nil
  | append_singleton steps step ih =>
    rw [run_snoc]
    have hprogress : step.IsProgress → ((run {} steps).step step).registry.registered.Nodup := by
      intro h
      rw [(kept_of_progress _ step h).1]
      exact ih
    cases step with
    | visit | conclude brokeDown | finish => exact hprogress trivial
    | subscribe filter =>
      refine ih.append (List.nodup_singleton _) ?_
      rw [List.disjoint_singleton, ← isRegistered_iff, isRegistered_run, next_run]
      exact fun h => absurd h.1 (Nat.lt_irrefl _)
    | unsubscribe id => exact ih.filter _
    | publish walk event => exact ih.filter _
    | _ => exact ih

/-- Filters that do not break down are all there are if none other are brought. -/
theorem Unfailing.step (h : x.Unfailing) {step : Step} (hstep : step.Unfailing) :
    (x.step step).Unfailing := by
  have hset : ∀ id filter, (∀ event, filter event ≠ .breaksDown) → (x.alter id filter).Unfailing := by
    intro id filter hfilter other event
    show (if other = id then filter else x.filters other) event ≠ _
    split
    · exact hfilter event
    · exact h other event
  have hprogress : step.IsProgress → (x.step step).Unfailing := by
    intro hprogress id event
    rw [(x.kept_of_progress step hprogress).2]
    exact h id event
  cases step with
  | visit | conclude brokeDown | finish => exact hprogress trivial
  | subscribe filter => exact hset _ filter hstep
  | alter id filter => exact hset id filter hstep
  | _ => exact h

/-- Nobody has subscribed at the start, so no filter can break down. -/
theorem unfailing_start : Unfailing {} := fun _ _ => nofun

/-! ### Progress -/

/-- Once the subscribers are done, the innermost delivery ends. -/
theorem exists_innermost_ends (pending : List SubscriberId) :
    ∀ (x : Exchange) (event : Event) (busy : Option SubscriberId) (delivered : Nat)
      (outer : List Delivery), x.deliveries = ⟨event, pending, busy, delivered⟩ :: outer →
      ∃ more, (∀ s ∈ more, s.IsProgress) ∧ (x.run more).deliveries = outer := by
  -- it is enough to look at a delivery nobody is busy with: otherwise that one concludes first
  suffices hidle : ∀ (x : Exchange) (event : Event) (delivered : Nat) (outer : List Delivery),
      x.deliveries = ⟨event, pending, none, delivered⟩ :: outer →
      ∃ more, (∀ s ∈ more, s.IsProgress) ∧ (x.run more).deliveries = outer by
    intro x event busy delivered outer h
    cases busy with
    | none => exact hidle x event delivered outer h
    | some id =>
      have hconcluded : (x.conclude false).deliveries
          = ⟨event, pending, none, delivered + 1⟩ :: outer := by
        rw [conclude, h]
        rfl
      obtain ⟨more, hmore, hrun⟩ := hidle _ _ _ _ hconcluded
      exact ⟨.conclude false :: more, List.forall_mem_cons.2 ⟨trivial, hmore⟩, hrun⟩
  induction pending with
  | nil =>
    intro x event delivered outer h
    refine ⟨[.finish], List.forall_mem_singleton.2 trivial, ?_⟩
    show x.finish.deliveries = outer
    rw [finish, h]
  | cons id pending ih =>
    intro x event delivered outer h
    rcases visit_of_deliveries h with ⟨-, -, hvisit⟩ | ⟨-, -, hvisit⟩ | ⟨-, -, hvisit⟩
    · have hconcluded : (x.visit.conclude false).deliveries
          = ⟨event, pending, none, delivered + 1⟩ :: outer := by
        rw [hvisit]
        rfl
      obtain ⟨more, hmore, hrun⟩ := ih _ _ _ _ hconcluded
      refine ⟨.visit :: .conclude false :: more, ?_, hrun⟩
      exact List.forall_mem_cons.2 ⟨trivial, List.forall_mem_cons.2 ⟨trivial, hmore⟩⟩
    · have hvisited : x.visit.deliveries = ⟨event, pending, none, delivered⟩ :: outer := by
        rw [hvisit]
      obtain ⟨more, hmore, hrun⟩ := ih _ _ _ _ hvisited
      exact ⟨.visit :: more, List.forall_mem_cons.2 ⟨trivial, hmore⟩, hrun⟩
    · refine ⟨[.visit], List.forall_mem_singleton.2 trivial, ?_⟩
      show x.visit.deliveries = outer
      rw [hvisit]

/-- Once the subscribers are done, all deliveries end but those from which one looks away. -/
theorem exists_progress (inner outer : List Delivery) :
    ∀ x : Exchange, x.deliveries = inner ++ outer →
      ∃ more, (∀ s ∈ more, s.IsProgress) ∧ (x.run more).deliveries = outer := by
  induction inner with
  | nil => exact fun x h => ⟨[], List.forall_mem_nil _, h⟩
  | cons d inner ih =>
    intro x h
    obtain ⟨steps, hsteps, hends⟩ := exists_innermost_ends d.pending x d.event d.busy d.delivered _ h
    obtain ⟨more, hmore, hrun⟩ := ih _ hends
    refine ⟨steps ++ more, List.forall_mem_append.2 ⟨hsteps, hmore⟩, ?_⟩
    rw [run_append]
    exact hrun

end Exchange

/-! ## Records of publications -/

/-- A publication as it went. -/
structure Publication where
  event : Event
  /-- The bridge when the snapshot was taken. -/
  before : Exchange
  /-- Who was asked, in order, and what the filters said. -/
  asked : List (SubscriberId × Answer) := []
  /-- Those that were done with the event. -/
  returned : List SubscriberId := []
  /-- Those that broke down over it. -/
  brokeDown : List SubscriberId := []
  /-- The number that was given back at the end. -/
  result : Option Nat := none

namespace Publication

/-- Whom the event was handed to, in order. -/
def received (p : Publication) : List SubscriberId :=
  (p.asked.filter (·.2 == .accepts)).map Prod.fst

/-- A subscriber is asked. -/
def ask (p : Publication) (a : SubscriberId × Answer) : Publication :=
  { p with asked := p.asked ++ [a] }

/-- A subscriber is done with the event, or has broken down. -/
def conclude (p : Publication) (id : SubscriberId) (brokeDown : Bool) : Publication :=
  if brokeDown then { p with brokeDown := p.brokeDown ++ [id] }
  else { p with returned := p.returned ++ [id] }

/-- The subscriber was registered, alive and accepting the event when the snapshot was taken. -/
def Addresses (p : Publication) (id : SubscriberId) : Prop :=
  p.before.registry.isRegistered id = true ∧ p.before.isAlive id = true ∧
    p.before.filters id p.event = .accepts

/-- Everyone said what he would have said when the snapshot was taken. -/
def Foreseen (p : Publication) : Prop := ∀ a ∈ p.asked, a.2 = p.before.filters a.1 p.event

/-- While the publication is under way it holds the subscriber: it has yet to ask it, or the
subscriber is busy with the event. -/
def Holds (p : Publication) (id : SubscriberId) : Prop :=
  id ∈ p.before.live ∧ (id, .skips) ∉ p.asked ∧ id ∉ p.returned ∧ id ∉ p.brokeDown

/-- The record tells of the delivery whom it has asked so far, and what became of them. -/
structure Tells (p : Publication) (d : Delivery) : Prop where
  event : d.event = p.event
  asked : (p.asked.map Prod.fst ++ d.pending).Perm p.before.live
  answered : ∀ a ∈ p.asked, a.2 ≠ .breaksDown
  settled : p.received.Perm (p.returned ++ p.brokeDown ++ d.busy.toList)
  count : d.delivered = p.returned.length
  result : p.result = none

/-- The record tells of all that were to be asked, and what became of them. -/
structure Complete (p : Publication) : Prop where
  asked : (p.asked.map Prod.fst).Perm p.before.live
  answered : ∀ a ∈ p.asked, a.2 ≠ .breaksDown
  settled : p.received.Perm (p.returned ++ p.brokeDown)
  result : p.result = some p.returned.length

/-- The record tells of those that were asked up to the one whose filter broke down. -/
structure Unwound (p : Publication) : Prop where
  asked : ∃ rest, (p.asked.map Prod.fst ++ rest).Perm p.before.live
  answered : ∃ asked id, p.asked = asked ++ [(id, .breaksDown)] ∧ ∀ a ∈ asked, a.2 ≠ .breaksDown
  settled : p.received.Perm (p.returned ++ p.brokeDown)
  result : p.result = none

variable {p : Publication} {event : Event} {id : SubscriberId} {pending : List SubscriberId}
  {delivered : Nat} {d : Delivery}

/-- A subscriber has received the event if its filter was asked and accepted it. -/
theorem mem_received : id ∈ p.received ↔ (id, .accepts) ∈ p.asked := by
  simp [received]

/-- A filter that accepts puts its subscriber behind those that have received the event before. -/
theorem received_ask_accepts : (p.ask (id, .accepts)).received = p.received ++ [id] := by
  simp [received, ask]

/-- A filter that declines or breaks down leaves out its subscriber, and no other. -/
theorem received_ask {answer : Answer} (h : answer ≠ .accepts) :
    (p.ask (id, answer)).received = p.received := by
  simp [received, ask, h]

/-- One more is asked, out of those that were still to be. -/
theorem asked_ask {answer : Answer}
    (h : (p.asked.map Prod.fst ++ id :: pending).Perm p.before.live) :
    ((p.ask (id, answer)).asked.map Prod.fst ++ pending).Perm p.before.live := by
  rw [ask, List.map_append, List.append_assoc]
  exact h

theorem answered_ask {answer : Answer} (h : ∀ a ∈ p.asked, a.2 ≠ .breaksDown)
    (hanswer : answer ≠ .breaksDown) : ∀ a ∈ (p.ask (id, answer)).asked, a.2 ≠ .breaksDown :=
  List.forall_mem_append.2 ⟨h, List.forall_mem_singleton.2 hanswer⟩

/-- A publication begins with the live subscribers of this very moment in its row, and nobody
asked. -/
theorem tells_start (x : Exchange) (walk : Walk) (event : Event) :
    Tells { event, before := x } { event, pending := walk.order x.live } :=
  ⟨rfl, walk.perm _, List.forall_mem_nil _, .refl _, rfl, rfl⟩

/-- The next one is asked, and does not accept the event. -/
theorem Tells.skip (h : p.Tells ⟨event, id :: pending, none, delivered⟩) :
    (p.ask (id, .skips)).Tells ⟨event, pending, none, delivered⟩ := by
  have hskips : Answer.skips ≠ .accepts := by decide
  refine ⟨h.event, asked_ask h.asked, answered_ask h.answered nofun, ?_, h.count, h.result⟩
  rw [received_ask hskips]
  exact h.settled

/-- The next one is asked, and gets busy with the event. -/
theorem Tells.accept (h : p.Tells ⟨event, id :: pending, none, delivered⟩) :
    (p.ask (id, .accepts)).Tells ⟨event, pending, some id, delivered⟩ := by
  refine ⟨h.event, asked_ask h.asked, answered_ask h.answered nofun, ?_, h.count, h.result⟩
  have hsettled : p.received.Perm (p.returned ++ p.brokeDown ++ []) := h.settled
  rw [List.append_nil] at hsettled
  rw [received_ask_accepts]
  exact hsettled.append_right [id]

/-- The next one is asked, and its filter breaks down. The record says so in its last answer, and
those behind it in the walk are not in it. -/
theorem Tells.unwind (h : p.Tells ⟨event, id :: pending, none, delivered⟩) :
    (p.ask (id, .breaksDown)).Unwound := by
  have hbreaks : Answer.breaksDown ≠ .accepts := by decide
  have hsettled : p.received.Perm (p.returned ++ p.brokeDown ++ []) := h.settled
  rw [List.append_nil] at hsettled
  refine ⟨⟨pending, asked_ask h.asked⟩, ⟨p.asked, id, rfl, h.answered⟩, ?_, h.result⟩
  rw [received_ask hbreaks]
  exact hsettled

/-- The one that is busy is done, or breaks down: only in the first case does the delivery count. -/
theorem Tells.conclude (h : p.Tells ⟨event, pending, some id, delivered⟩) (brokeDown : Bool) :
    (p.conclude id brokeDown).Tells
      ⟨event, pending, none, if brokeDown then delivered else delivered + 1⟩ := by
  have hsettled : p.received.Perm (p.returned ++ p.brokeDown ++ [id]) := h.settled
  have hcount : delivered = p.returned.length := h.count
  cases brokeDown with
  | true =>
    refine ⟨h.event, h.asked, h.answered, ?_, hcount, h.result⟩
    show p.received.Perm (p.returned ++ (p.brokeDown ++ [id]) ++ [])
    rw [List.append_nil, ← List.append_assoc]
    exact hsettled
  | false =>
    refine ⟨h.event, h.asked, h.answered, ?_, ?_, h.result⟩
    · show p.received.Perm (p.returned ++ [id] ++ p.brokeDown ++ [])
      rw [List.append_nil, List.append_assoc]
      rw [List.append_assoc] at hsettled
      exact hsettled.trans (List.perm_append_comm.append_left _)
    · show delivered + 1 = (p.returned ++ [id]).length
      rw [List.length_append, List.length_singleton, hcount]

/-- Everyone has been visited, so the record is complete with the number that comes back. -/
theorem Tells.complete (h : p.Tells ⟨event, [], none, delivered⟩) :
    Complete { p with result := some delivered } := by
  have hasked : (p.asked.map Prod.fst ++ []).Perm p.before.live := h.asked
  have hsettled : p.received.Perm (p.returned ++ p.brokeDown ++ []) := h.settled
  rw [List.append_nil] at hasked hsettled
  exact ⟨hasked, h.answered, hsettled, congrArg some h.count⟩

/-! ### What the records say -/

/-- Where all that were asked were registered and alive, each once, so was each of some of them. -/
theorem asked_of_perm {rest : List SubscriberId}
    (h : (p.asked.map Prod.fst ++ rest).Perm p.before.live) (hnodup : p.before.live.Nodup) :
    (p.asked.map Prod.fst).Nodup ∧ ∀ id ∈ p.asked.map Prod.fst,
      p.before.registry.isRegistered id = true ∧ p.before.isAlive id = true := by
  refine ⟨(h.nodup_iff.2 hnodup).of_append_left, fun id hid => ?_⟩
  exact Exchange.mem_live.1 (h.mem_iff.1 (List.mem_append_left _ hid))

/-- Whoever is asked gives one answer, since a record lists each subscriber once at most. -/
theorem answer_unique (h : (p.asked.map Prod.fst).Nodup) {answer answer' : Answer}
    (ha : (id, answer) ∈ p.asked) (ha' : (id, answer') ∈ p.asked) : answer = answer' :=
  congrArg Prod.snd (List.inj_on_of_nodup_map h ha ha' rfl)

/-- Those that said yes, and would have said so when the snapshot was taken, are those that the
publication addresses. -/
theorem addresses_of_received (hforeseen : p.Foreseen)
    (h : ∀ id ∈ p.asked.map Prod.fst,
      p.before.registry.isRegistered id = true ∧ p.before.isAlive id = true) (hid : id ∈ p.received) :
    p.Addresses id := by
  have hasked := mem_received.1 hid
  have hlive := h id (List.mem_map_of_mem hasked)
  exact ⟨hlive.1, hlive.2, (hforeseen _ hasked).symm⟩

/-- Once everyone has been asked, all that the publication addresses have received the event. -/
theorem Complete.received_of_addresses (h : p.Complete) (hforeseen : p.Foreseen)
    (hid : p.Addresses id) : id ∈ p.received := by
  have hlive : id ∈ p.before.live := Exchange.mem_live.2 ⟨hid.1, hid.2.1⟩
  obtain ⟨⟨id, answer⟩, hasked, rfl⟩ := List.mem_map.1 (h.asked.mem_iff.2 hlive)
  have hanswer : answer = .accepts := (hforeseen _ hasked).trans hid.2.2
  exact mem_received.2 (hanswer ▸ hasked)

/-- A delivery holds those that it has yet to ask and the one that is busy, and so says its record. -/
theorem Tells.holds_iff (h : p.Tells d) (hnodup : p.before.live.Nodup) :
    id ∈ d.holds ↔ p.Holds id := by
  have hall := h.asked.nodup_iff.2 hnodup
  have hunique := hall.of_append_left
  have hreceived : (p.returned ++ p.brokeDown ++ d.busy.toList).Nodup :=
    h.settled.nodup_iff.1 (hunique.sublist (List.filter_sublist.map _))
  have hsettled : ∀ id, id ∈ p.returned ∨ id ∈ p.brokeDown ∨ id ∈ d.busy.toList ↔
      (id, .accepts) ∈ p.asked := by
    intro id
    rw [← mem_received, h.settled.mem_iff, List.mem_append, List.mem_append, or_assoc]
  rw [Delivery.holds, List.mem_append]
  constructor
  · rintro (hbusy | hpending)
    · have hasked := (hsettled id).1 (Or.inr (Or.inr hbusy))
      have hapart : id ∉ p.returned ++ p.brokeDown := fun hmem =>
        (List.nodup_append'.1 hreceived).2.2 hmem hbusy
      rw [List.mem_append, not_or] at hapart
      refine ⟨h.asked.mem_iff.1 (List.mem_append_left _ (List.mem_map_of_mem hasked)), ?_, hapart⟩
      exact fun hskips => absurd (answer_unique hunique hasked hskips) nofun
    · have hnot : id ∉ p.asked.map Prod.fst := fun hmem =>
        (List.nodup_append'.1 hall).2.2 hmem hpending
      refine ⟨h.asked.mem_iff.1 (List.mem_append_right _ hpending), ?_, ?_, ?_⟩
      · exact fun hskips => hnot (List.mem_map_of_mem hskips)
      · exact fun hmem => hnot (List.mem_map_of_mem ((hsettled id).1 (Or.inl hmem)))
      · exact fun hmem => hnot (List.mem_map_of_mem ((hsettled id).1 (Or.inr (Or.inl hmem))))
  · rintro ⟨hlive, hskips, hreturned, hbrokeDown⟩
    rcases List.mem_append.1 (h.asked.mem_iff.2 hlive) with hmem | hpending
    · obtain ⟨⟨id, answer⟩, hasked, rfl⟩ := List.mem_map.1 hmem
      cases answer with
      | accepts =>
        rcases (hsettled id).2 hasked with hmem | hmem | hbusy
        · exact absurd hmem hreturned
        · exact absurd hmem hbrokeDown
        · exact Or.inl hbusy
      | skips => exact absurd hasked hskips
      | breaksDown => exact absurd rfl (h.answered (id, .breaksDown) hasked)
    · exact Or.inr hpending

end Publication

/-! ## Courses -/

/-- A bridge on its course, with a record of every publication. -/
structure Course where
  exchange : Exchange := {}
  /-- The publications whose deliveries are under way, the innermost first. -/
  underWay : List Publication := []
  ended : List Publication := []
  /-- Those that a filter has put an end to. -/
  unwound : List Publication := []

namespace Course

open Publication (Tells Complete Unwound)

/-- Keeps record of a step. -/
def note (c : Course) : Step → Course
  | .publish _ event => { c with underWay := { event, before := c.exchange } :: c.underWay }
  | .visit =>
    match c.exchange.asked?, c.underWay with
    | some (id, .breaksDown), p :: outer =>
      { c with underWay := outer, unwound := c.unwound ++ [p.ask (id, .breaksDown)] }
    | some a, p :: outer => { c with underWay := p.ask a :: outer }
    | _, _ => c
  | .conclude brokeDown =>
    match c.exchange.busy?, c.underWay with
    | some (_, id), p :: outer => { c with underWay := p.conclude id brokeDown :: outer }
    | _, _ => c
  | .finish =>
    match c.exchange.result?, c.underWay with
    | some n, p :: outer =>
      { c with underWay := outer, ended := c.ended ++ [{ p with result := some n }] }
    | _, _ => c
  | _ => c

/-- One step. -/
def step (c : Course) (s : Step) : Course := { c.note s with exchange := c.exchange.step s }

/-- Steps one after another. -/
def run (c : Course) (steps : List Step) : Course := steps.foldl step c

/-- All publications, those that are under way first. -/
def publications (c : Course) : List Publication := c.underWay ++ c.ended ++ c.unwound

/-- The records tell the truth. -/
structure Told (c : Course) : Prop where
  underWay : List.Forall₂ Tells c.underWay c.exchange.deliveries
  ended : ∀ p ∈ c.ended, Complete p
  unwound : ∀ p ∈ c.unwound, Unwound p

variable {c : Course} {p : Publication} {id : SubscriberId}

/-- A publication is under way, or has ended, or was given up when a filter broke down in it. -/
theorem mem_publications : p ∈ c.publications ↔ p ∈ c.underWay ∨ p ∈ c.ended ∨ p ∈ c.unwound := by
  rw [publications, List.mem_append, List.mem_append, or_assoc]

/-- The journal is kept beside the bridge and has no say in what the bridge does. -/
theorem exchange_run (c : Course) (steps : List Step) :
    (c.run steps).exchange = c.exchange.run steps := by
  induction steps generalizing c with
  | nil => rfl
  | cons s steps ih => exact ih (c.step s)

/-- One more step is taken where the run has led, so that invariants go step by step. -/
theorem run_snoc (c : Course) (steps : List Step) (s : Step) :
    c.run (steps ++ [s]) = (c.run steps).step s := by
  rw [run, List.foldl_append]
  rfl

theorem told_start : Told {} := ⟨.nil, List.forall_mem_nil _, List.forall_mem_nil _⟩

/-- The innermost delivery has the first record, and the records behind it are those of the deliveries
around it. Every step of a delivery is made on the innermost one. -/
theorem Told.innermost (h : c.Told) {d : Delivery} {outer : List Delivery}
    (hdeliveries : c.exchange.deliveries = d :: outer) :
    ∃ p ps, c.underWay = p :: ps ∧ p.Tells d ∧ List.Forall₂ Tells ps outer := by
  have hunder := h.underWay
  rw [hdeliveries] at hunder
  obtain ⟨p, ps, htells, hrest, heq⟩ := List.forall₂_cons_right_iff.1 hunder
  exact ⟨p, ps, heq, htells, hrest⟩

/-- Every record of a publication under way tells of a delivery. -/
theorem Told.exists_delivery (h : c.Told) (hp : p ∈ c.underWay) :
    ∃ d ∈ c.exchange.deliveries, p.Tells d := by
  obtain ⟨hlength, hget⟩ := List.forall₂_iff_get.1 h.underWay
  obtain ⟨i, hi, rfl⟩ := List.mem_iff_getElem.1 hp
  exact ⟨_, List.getElem_mem _, hget i hi (hlength ▸ hi)⟩

/-- Every step keeps the records true, however deep deliveries are nested: it begins one, or it
changes that of the innermost delivery. -/
theorem told_step (h : c.Told) (step : Step) : (c.step step).Told := by
  cases step with
  | subscribe filter => exact ⟨h.underWay, h.ended, h.unwound⟩
  | unsubscribe id => exact ⟨h.underWay, h.ended, h.unwound⟩
  | release id => exact ⟨h.underWay, h.ended, h.unwound⟩
  | alter id filter => exact ⟨h.underWay, h.ended, h.unwound⟩
  | publish walk event =>
    exact ⟨.cons (Publication.tells_start _ _ _) h.underWay, h.ended, h.unwound⟩
  | visit =>
    show Told { c.note .visit with exchange := c.exchange.visit }
    rcases c.exchange.visit_cases with
      ⟨event, id, pending, delivered, outer, hdeliveries, hvisit⟩ | ⟨hasked, hvisit⟩
    · obtain ⟨p, ps, hunder, htells, hrest⟩ := h.innermost hdeliveries
      -- the filter accepts, declines, or breaks down
      rcases hvisit with ⟨-, hasked, hvisit⟩ | ⟨-, hasked, hvisit⟩ | ⟨-, hasked, hvisit⟩
      · rw [note, hasked, hvisit, hunder]
        exact ⟨.cons htells.accept hrest, h.ended, h.unwound⟩
      · rw [note, hasked, hvisit, hunder]
        exact ⟨.cons htells.skip hrest, h.ended, h.unwound⟩
      · rw [note, hasked, hvisit, hunder]
        exact ⟨hrest, h.ended,
          List.forall_mem_append.2 ⟨h.unwound, List.forall_mem_singleton.2 htells.unwind⟩⟩
    · rw [note, hasked, hvisit]
      exact h
  | conclude brokeDown =>
    show Told { c.note (.conclude brokeDown) with exchange := c.exchange.conclude brokeDown }
    rcases c.exchange.conclude_cases brokeDown with
      ⟨event, id, pending, delivered, outer, hdeliveries, hbusy, hconclude⟩ | ⟨hbusy, hconclude⟩
    · obtain ⟨p, ps, hunder, htells, hrest⟩ := h.innermost hdeliveries
      rw [note, hbusy, hconclude, hunder]
      exact ⟨.cons (htells.conclude brokeDown) hrest, h.ended, h.unwound⟩
    · rw [note, hbusy, hconclude]
      exact h
  | finish =>
    show Told { c.note .finish with exchange := c.exchange.finish }
    rcases c.exchange.finish_cases with
      ⟨event, delivered, outer, hdeliveries, hresult, hfinish⟩ | ⟨hresult, hfinish⟩
    · obtain ⟨p, ps, hunder, htells, hrest⟩ := h.innermost hdeliveries
      rw [note, hresult, hfinish, hunder]
      exact ⟨hrest,
        List.forall_mem_append.2 ⟨h.ended, List.forall_mem_singleton.2 htells.complete⟩, h.unwound⟩
    · rw [note, hresult, hfinish]
      exact h

/-- What every step keeps, every run keeps. All that is said of records below is proved of one
step. -/
theorem run_keeps {P : Course → Prop} (hstep : ∀ c step, P c → P (Course.step c step)) {c : Course}
    (hc : P c) (steps : List Step) : P (c.run steps) := by
  induction steps generalizing c with
  | nil => exact hc
  | cons step steps ih => exact ih (hstep c step hc)

/-- The run lemma: what is noted of a publication is true of it, at every moment of every run. -/
theorem told_run (steps : List Step) : (run {} steps).Told :=
  run_keeps (P := Told) (fun _ step h => told_step h step) told_start steps

/-! ### Records and steps -/

/-- A delivery that goes on changes one record at most. That keeps its event and its snapshot, and if
there is a new answer in it, the innermost delivery has asked for that. -/
theorem note_cases (c : Course) {step : Step} (hstep : step.IsProgress) :
    c.note step = c ∨ ∃ p p' others, c.publications = p :: others ∧
      (c.note step).publications.Perm (p' :: others) ∧ p'.event = p.event ∧ p'.before = p.before ∧
      (p'.asked = p.asked ∨ step = .visit ∧ c.underWay.head? = some p ∧
        ∃ a, c.exchange.asked? = some a ∧ p'.asked = p.asked ++ [a]) := by
  cases step with
  | visit =>
    rw [note]
    split
    next id p outer hasked hunder =>
      -- the publication goes over to those that were given up
      refine Or.inr ⟨p, p.ask (id, .breaksDown), outer ++ c.ended ++ c.unwound, ?_, ?_, rfl, rfl,
        Or.inr ⟨rfl, by rw [hunder]; rfl, _, hasked, rfl⟩⟩
      · rw [publications, hunder]
        rfl
      · show (outer ++ c.ended ++ (c.unwound ++ [_])).Perm _
        rw [← List.append_assoc]
        exact List.perm_append_singleton _ _
    next a p outer _ hasked hunder =>
      refine Or.inr ⟨p, p.ask a, outer ++ c.ended ++ c.unwound, ?_, .refl _, rfl, rfl,
        Or.inr ⟨rfl, by rw [hunder]; rfl, _, hasked, rfl⟩⟩
      rw [publications, hunder]
      rfl
    next => exact Or.inl rfl
  | conclude brokeDown =>
    rw [note]
    split
    next event id p outer hbusy hunder =>
      have hkept : (p.conclude id brokeDown).event = p.event ∧
          (p.conclude id brokeDown).before = p.before ∧ (p.conclude id brokeDown).asked = p.asked := by
        cases brokeDown <;> exact ⟨rfl, rfl, rfl⟩
      refine Or.inr ⟨p, _, outer ++ c.ended ++ c.unwound, ?_, .refl _, hkept.1, hkept.2.1,
        Or.inl hkept.2.2⟩
      rw [publications, hunder]
      rfl
    next => exact Or.inl rfl
  | finish =>
    rw [note]
    split
    next n p outer hresult hunder =>
      -- it goes over to those that have ended, and nobody more is asked
      refine Or.inr ⟨p, { p with result := some n }, outer ++ c.ended ++ c.unwound, ?_, ?_, rfl, rfl,
        Or.inl rfl⟩
      · rw [publications, hunder]
        rfl
      · show (outer ++ (c.ended ++ [_]) ++ c.unwound).Perm _
        rw [← List.append_assoc]
        exact (List.perm_append_singleton _ _).append_right _
    next => exact Or.inl rfl
  | _ => exact hstep.elim

/-- What a record keeps from its start: the event, and the bridge when the snapshot was taken. -/
def origins (c : Course) : List (Event × Exchange) :=
  c.publications.map fun p => (p.event, p.before)

/-- Every publication gets a record of its own, which is never lost. -/
theorem origins_step (c : Course) (step : Step) :
    (c.step step).origins.Perm (c.exchange.published [step] ++ c.origins) := by
  have hprogress : step.IsProgress → (c.note step).origins.Perm c.origins := by
    intro h
    rcases c.note_cases h with hnote | ⟨p, p', others, hbefore, hafter, hevent, hsnapshot, -⟩
    · rw [hnote]
    · refine (hafter.map _).trans (.of_eq ?_)
      rw [origins, hbefore, List.map_cons, List.map_cons, hevent, hsnapshot]
  cases step with
  | visit | conclude brokeDown | finish => exact hprogress trivial
  | _ => exact .refl _

/-- The records of a run are those of the events that are published in it. -/
theorem origins_run (steps : List Step) :
    (run {} steps).origins.Perm (Exchange.published {} steps) := by
  induction steps using List.reverseRecOn with
  | nil => exact .refl _
  | append_singleton steps step ih =>
    have hstep := (run {} steps).origins_step step
    rw [exchange_run] at hstep
    rw [run_snoc, Exchange.published_append]
    exact hstep.trans (List.perm_append_comm.trans (ih.append_right _))

/-- A snapshot is that of the bridge at some moment of the run. -/
theorem exists_before {steps : List Step} (hp : p ∈ (run {} steps).publications) :
    ∃ before, before <+: steps ∧ p.before = Exchange.run {} before :=
  Exchange.mem_published ((origins_run steps).mem_iff.1
    (List.mem_map_of_mem (f := fun p : Publication => (p.event, p.before)) hp))

/-- Every snapshot lists a subscriber once, whatever has been registered and removed before it. -/
theorem nodup_before {steps : List Step} (hp : p ∈ (run {} steps).publications) :
    p.before.live.Nodup := by
  obtain ⟨before, -, hbefore⟩ := exists_before hp
  rw [hbefore]
  exact (Exchange.nodup_run before).filter _

/-- A snapshot is the state of the bridge after some of the steps, and lists only those that have
subscribed by then. -/
theorem lt_of_mem_live {steps : List Step} (hp : p ∈ (run {} steps).publications)
    (hid : id ∈ p.before.live) : ∃ before, before <+: steps ∧ p.before = Exchange.run {} before ∧
      id < (subscriptions before).length := by
  obtain ⟨before, hinitial, hbefore⟩ := exists_before hp
  rw [hbefore, Exchange.mem_live, Exchange.isRegistered_run] at hid
  exact ⟨before, hinitial, hbefore, hid.1.1⟩

/-! ### Answers -/

/-- A record of a publication comes from one of the records before the step, with the same answers
but for the one that the step has brought; or it begins, without any. -/
theorem publications_step (h : c.Told) (step : Step) (hp : p ∈ (c.step step).publications) :
    p.asked = [] ∨ ∃ q ∈ c.publications, q.event = p.event ∧ q.before = p.before ∧
      (p.asked = q.asked ∨ step = .visit ∧
        ∃ id ∈ q.before.live, p.asked = q.asked ++ [(id, c.exchange.filters id q.event)]) := by
  replace hp : p ∈ (c.note step).publications := hp
  have hsame : p ∈ c.publications → ∃ q ∈ c.publications, q.event = p.event ∧ q.before = p.before ∧
      (p.asked = q.asked ∨ step = .visit ∧
        ∃ id ∈ q.before.live, p.asked = q.asked ++ [(id, c.exchange.filters id q.event)]) :=
    fun hp => ⟨p, hp, rfl, rfl, Or.inl rfl⟩
  have hprogress : step.IsProgress → ∃ q ∈ c.publications, q.event = p.event ∧ q.before = p.before ∧
      (p.asked = q.asked ∨ step = .visit ∧
        ∃ id ∈ q.before.live, p.asked = q.asked ++ [(id, c.exchange.filters id q.event)]) := by
    intro hstep
    rcases c.note_cases hstep with hnote | ⟨q, q', others, hbefore, hafter, hevent, hsnapshot, hasked⟩
    · rw [hnote] at hp
      exact hsame hp
    rw [hbefore]
    rcases List.mem_cons.1 (hafter.mem_iff.1 hp) with rfl | hp
    · refine ⟨q, List.mem_cons_self, hevent.symm, hsnapshot.symm, hasked.imp_right ?_⟩
      rintro ⟨hvisit, hhead, a, ha, hq'⟩
      refine ⟨hvisit, ?_⟩
      -- the one that was asked was the first of those that the innermost delivery was yet to ask
      unfold Exchange.asked? at ha
      split at ha
      next event id pending delivered outer hdeliveries =>
        obtain ⟨r, ps, hunder, htells, -⟩ := h.innermost hdeliveries
        obtain rfl : r = q := by simpa [hunder] using hhead
        refine ⟨id, htells.asked.mem_iff.1 (List.mem_append_right _ List.mem_cons_self), ?_⟩
        rw [hq', ← Option.some.inj ha, show event = r.event from htells.event]
      next => exact absurd ha nofun
    · exact ⟨p, List.mem_cons_of_mem _ hp, rfl, rfl, Or.inl rfl⟩
  cases step with
  | visit | conclude brokeDown | finish => exact Or.inr (hprogress trivial)
  | publish walk event =>
    rcases List.mem_cons.1 hp with rfl | hp
    · exact Or.inl rfl
    · exact Or.inr (hsame hp)
  | _ => exact Or.inr (hsame hp)

/-- What a record says a filter has answered, the filter said at a visit in the run, when its
subscriber had long been there. -/
theorem exists_visit {steps : List Step} {a : SubscriberId × Answer}
    (hp : p ∈ (run {} steps).publications) (ha : a ∈ p.asked) :
    ∃ before after, steps = before ++ .visit :: after ∧ a.1 < (subscriptions before).length ∧
      (Exchange.run {} before).filters a.1 p.event = a.2 := by
  induction steps using List.reverseRecOn generalizing p with
  | nil => exact absurd hp List.not_mem_nil
  | append_singleton steps step ih =>
    have hold : ∀ q ∈ (run {} steps).publications, q.event = p.event → a ∈ q.asked →
        ∃ before after, steps ++ [step] = before ++ .visit :: after ∧
          a.1 < (subscriptions before).length ∧
          (Exchange.run {} before).filters a.1 p.event = a.2 := by
      intro q hq hevent ha
      obtain ⟨before, after, rfl, hlt, hfilter⟩ := ih hq ha
      refine ⟨before, after ++ [step], ?_, hlt, hevent ▸ hfilter⟩
      rw [List.append_assoc, List.cons_append]
    rw [run_snoc] at hp
    rcases publications_step (told_run steps) step hp with
      hnone | ⟨q, hq, hevent, -, hasked | ⟨rfl, id, hid, hasked⟩⟩
    · exact absurd (hnone ▸ ha) List.not_mem_nil
    · exact hold q hq hevent (hasked ▸ ha)
    · rw [hasked] at ha
      rcases List.mem_append.1 ha with ha | ha
      · exact hold q hq hevent ha
      · obtain rfl := List.mem_singleton.1 ha
        obtain ⟨before, hinitial, -, hlt⟩ := lt_of_mem_live hq hid
        refine ⟨steps, [], rfl, ?_, ?_⟩
        · exact Nat.lt_of_lt_of_le hlt (hinitial.filterMap _).length_le
        · rw [exchange_run, hevent]

/-- As long as nobody changes his mind, the filter of a subscriber is the one it came with. -/
theorem filters_of_steady {steps before : List Step} (hsteps : ∀ step ∈ steps, step.Steady)
    (hinitial : before <+: steps) (hlt : id < (subscriptions before).length) :
    (subscriptions steps)[id]? = some ((Exchange.run {} before).filters id) := by
  have hsince : Since before id (Step.Alters id) := by
    refine ⟨hlt, fun first step rest heq _ halters => ?_⟩
    have hstep : step.Steady := by
      refine hsteps step (hinitial.subset ?_)
      rw [heq]
      exact List.mem_append_right _ List.mem_cons_self
    cases step with
    | alter => exact hstep
    | _ => exact halters
  obtain ⟨after, rfl⟩ := hinitial
  rw [subscriptions_append, List.getElem?_append_left hlt]
  exact Exchange.filters_run hsince

/-- As long as nobody changes his mind, filters say what they would have said when the snapshot was
taken. -/
theorem foreseen_run {steps : List Step} (hsteps : ∀ step ∈ steps, step.Steady)
    (hp : p ∈ (run {} steps).publications)
    (hlive : ∀ a ∈ p.asked, a.1 ∈ p.before.live) : p.Foreseen := by
  intro a ha
  obtain ⟨before, after, rfl, hlt, hfilter⟩ := exists_visit hp ha
  obtain ⟨start, hinitial, hbefore, hlt'⟩ := lt_of_mem_live hp (hlive a ha)
  have hthen := filters_of_steady hsteps hinitial hlt'
  rw [filters_of_steady hsteps (List.prefix_append _ _) hlt] at hthen
  rw [← hfilter, hbefore, Option.some.inj hthen]

/-! ### Filters that break down, and subscribers that are held -/

/-- No delivery is unwound as long as no filter breaks down. -/
theorem unwound_run {steps : List Step} (hsteps : ∀ step ∈ steps, step.Unfailing) :
    (run {} steps).unwound = [] ∧ (Exchange.run {} steps).Unfailing := by
  induction steps using List.reverseRecOn with
  | nil => exact ⟨rfl, Exchange.unfailing_start⟩
  | append_singleton steps step ih =>
    rw [List.forall_mem_append, List.forall_mem_singleton] at hsteps
    obtain ⟨hnone, hunfailing⟩ := ih hsteps.1
    rw [run_snoc, Exchange.run_snoc]
    refine ⟨Eq.trans ?_ hnone, hunfailing.step hsteps.2⟩
    rw [← show (run {} steps).exchange = _ from exchange_run {} steps] at hunfailing
    generalize run {} steps = c at hunfailing
    show (c.note step).unwound = c.unwound
    cases step with
    | visit =>
      rw [note]
      split
      next id p outer hasked hunder =>
        rcases c.exchange.visit_cases with
          ⟨event, id', _, _, _, _, ⟨-, h, -⟩ | ⟨-, h, -⟩ | ⟨hfilter, -⟩⟩ | ⟨h, -⟩
        · exact absurd (h.symm.trans hasked) (by simp)
        · exact absurd (h.symm.trans hasked) (by simp)
        · exact absurd hfilter (hunfailing id' event)
        · exact absurd (h.symm.trans hasked) nofun
      next => rfl
      next => rfl
    | conclude brokeDown | finish =>
      rw [note]
      split
      next => rfl
      next => rfl
    | _ => rfl

/-- Deliveries hold those whom the records of the publications under way name. -/
theorem held_run (steps : List Step) (id : SubscriberId) :
    id ∈ (Exchange.run {} steps).held ↔ ∃ p ∈ (run {} steps).underWay, p.Holds id := by
  have hunder := (told_run steps).underWay
  rw [exchange_run] at hunder
  have hnodup : ∀ p ∈ (run {} steps).underWay, p.before.live.Nodup := fun p hp =>
    nodup_before (mem_publications.2 (Or.inl hp))
  rw [Exchange.held, List.mem_flatMap]
  generalize (run {} steps).underWay = ps at hunder hnodup
  generalize (Exchange.run {} steps).deliveries = ds at hunder
  induction hunder with
  | nil => simp
  | cons htells _ ih =>
    rw [List.forall_mem_cons] at hnodup
    simp only [List.exists_mem_cons_iff, htells.holds_iff hnodup.1, ih hnodup.2]

end Course

/-- Three subscribe, and the last one is dead by the time of the first event. While the first is busy
with it, it unsubscribes the second one and publishes another event, and breaks down in the end. -/
def crowd : List Step :=
  let all : Filter := fun _ => .accepts
  [.subscribe all, .subscribe all, .subscribe all, .release 2,
    .publish .straight (.logEmitted "test" .log []), .visit, .unsubscribe 1,
    .publish .straight (.logEmitted "test" .info []), .visit, .conclude false, .finish,
    .conclude true, .visit, .conclude false, .finish]

end AppletHost.Bridge
