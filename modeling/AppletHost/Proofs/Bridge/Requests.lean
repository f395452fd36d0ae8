import AppletHost.Bridge.Reply
import AppletHost.Proofs.Bridge.Deliveries

/-!
# How a request ends

`Account` follows a request and keeps beside it who reached for its slot and got it, what the owner did
with it, and how many had reached for it when the delivery ended and when the one who made the request
first looked. The slot is taken once, whoever reaches for it and in whatever order the request arrives
(`Account.Slotted`), and what the request comes to is settled by that first look and by what the owner
does (`Account.Settled`). Both are kept by every step, and so is that the request is asked of those to
whom it is addressed (`Request.Delivers`):

> `Account.Sound.step`: the account tells the truth about the slot, about the result and about whom the
> request has reached, whatever is done next.

The headline is `request_ends_one_way`.
-/

namespace AppletHost.Bridge

namespace Exchange

/-- A step leaves all deliveries alone but the innermost. -/
theorem tail_suffix_step (x : Exchange) (step : Step) :
    x.deliveries.tail <:+ (x.step step).deliveries := by
  cases step with
  | publish walk event => exact (List.tail_suffix _).trans (List.suffix_cons _ _)
  | visit =>
    show _ <:+ x.visit.deliveries
    rcases x.visit_cases with
      ⟨_, _, _, _, _, hdeliveries, ⟨-, -, hvisit⟩ | ⟨-, -, hvisit⟩ | ⟨-, -, hvisit⟩⟩ | ⟨-, hvisit⟩
    · rw [hdeliveries, hvisit]
      exact List.suffix_cons _ _
    · rw [hdeliveries, hvisit]
      exact List.suffix_cons _ _
    · rw [hdeliveries, hvisit]
      exact List.suffix_refl _
    · rw [hvisit]
      exact List.tail_suffix _
  | conclude brokeDown =>
    show _ <:+ (x.conclude brokeDown).deliveries
    rcases x.conclude_cases brokeDown with
      ⟨_, _, _, _, _, hdeliveries, -, hconclude⟩ | ⟨-, hconclude⟩
    · rw [hdeliveries, hconclude]
      exact List.suffix_cons _ _
    · rw [hconclude]
      exact List.tail_suffix _
  | finish =>
    show _ <:+ x.finish.deliveries
    rcases x.finish_cases with ⟨_, _, _, hdeliveries, -, hfinish⟩ | ⟨-, hfinish⟩
    · rw [hdeliveries, hfinish]
      exact List.suffix_refl _
    · rw [hfinish]
      exact List.tail_suffix _
  | _ => exact List.tail_suffix _

end Exchange

namespace RequestStep

/-- The step takes a delivery further, or looks at the slot, or gives up on the reply. -/
def IsProgress : RequestStep → Prop
  | .bridge step => step.IsProgress
  | .letGo _ => True
  | .look => True
  | _ => False

/-- The step brings no filter that may break down. -/
def Unfailing : RequestStep → Prop
  | .bridge step => step.Unfailing
  | _ => True

end RequestStep

/-! ## The delivery -/

namespace Request

variable {r : Request} {x : Exchange} {inner : List Delivery} {d : Delivery} {p : Publication}

/-- A step on the bridge that does not concern the delivery of the request. -/
theorem advance_of_not_innermost (h : r.isInnermost = false) (step : Step) :
    r.advance step = { r with exchange := r.exchange.step step } := by
  have hasked : r.askedIn step = none := by
    cases step <;> simp [askedIn, h]
  have hends : r.endsIn step = false := by
    cases step <;> simp [endsIn, h]
  simp [advance, unwindsIn, hasked, hends]

/-- The delivery `d` of the request, which was made on the bridge `x`, is under way, with `inner`
going on within it; the record `p` tells of it. -/
structure AsksAs (r : Request) (x : Exchange) (inner : List Delivery) (d : Delivery)
    (p : Publication) : Prop where
  stage : r.stage = .asking
  outer : r.outer = x.deliveries.length
  deliveries : r.exchange.deliveries = inner ++ d :: x.deliveries
  tells : p.Tells d
  before : p.before = x
  reached : r.reached = p.asked.map Prod.fst

/-- The delivery of the request is over; it has come to all it was meant for, unless a filter broke
down. -/
structure Asked (r : Request) (x : Exchange) : Prop where
  stage : r.stage ≠ .asking
  reached : ∃ rest, (r.reached ++ rest).Perm x.live ∧ (r.stage = .unwound ∨ rest = [])

/-- The delivery of the request is under way, or it is over. -/
def Delivers (r : Request) (x : Exchange) : Prop :=
  (∃ inner d p, r.AsksAs x inner d p) ∨ r.Asked x

/-- A request that was just made has published its event and delivers it from the exchange it was made
in. -/
theorem delivers_make (x : Exchange) (walk : Walk) (source method : String) (args : Value) :
    (make x walk source method args).Delivers x :=
  .inl ⟨[], _, _, rfl, rfl, rfl, Publication.tells_start x walk _, rfl, rfl⟩

/-- What is done with the slot does not concern the delivery. -/
theorem Delivers.congr {r' : Request} (h : r.Delivers x) (hexchange : r'.exchange = r.exchange)
    (houter : r'.outer = r.outer) (hstage : r'.stage = r.stage) (hreached : r'.reached = r.reached) :
    r'.Delivers x := by
  rcases h with ⟨inner, d, p, h⟩ | ⟨hover, rest, hperm, hrest⟩
  · exact .inl ⟨inner, d, p, hstage.trans h.stage, houter.trans h.outer,
      (congrArg Exchange.deliveries hexchange).trans h.deliveries, h.tells, h.before, hreached.trans h.reached⟩
  · refine .inr ⟨hstage ▸ hover, rest, ?_, ?_⟩
    · rw [hreached]
      exact hperm
    · rw [hstage]
      exact hrest

/-- The request has come to some of those it is meant for, and to all of them once its delivery has
ended. -/
theorem Delivers.exists_perm (h : r.Delivers x) : ∃ rest, (r.reached ++ rest).Perm x.live ∧
    (r.stage ≠ .asking → r.stage ≠ .unwound → rest = []) := by
  rcases h with ⟨inner, d, p, h⟩ | ⟨-, rest, hperm, hrest⟩
  · refine ⟨d.pending, ?_, fun hover => absurd h.stage hover⟩
    rw [h.reached, ← h.before]
    exact h.tells.asked
  · exact ⟨rest, hperm, fun _ hnot => hrest.resolve_left hnot⟩

/-- A request whose delivery has no other within it may look whether there is an answer. -/
theorem AsksAs.isInnermost (h : r.AsksAs x [] d p) : r.isInnermost = true := by
  simp [Request.isInnermost, h.stage, h.deliveries, h.outer]

/-- With another delivery within it, it has to wait for that one first. -/
theorem AsksAs.not_innermost {i : Delivery} (h : r.AsksAs x (i :: inner) d p) :
    r.isInnermost = false := by
  simp [Request.isInnermost, h.stage, h.deliveries, h.outer]
  omega

/-- While another delivery goes on within it, the delivery waits. -/
theorem AsksAs.advance_inner {i : Delivery} (h : r.AsksAs x (i :: inner) d p) (step : Step) :
    (r.advance step).Delivers x := by
  have hsuffix := r.exchange.tail_suffix_step step
  rw [h.deliveries] at hsuffix
  obtain ⟨more, hmore⟩ : inner ++ d :: x.deliveries <:+ (r.exchange.step step).deliveries := hsuffix
  rw [advance_of_not_innermost h.not_innermost]
  refine .inl ⟨more ++ inner, d, p, h.stage, h.outer, ?_, h.tells, h.before, h.reached⟩
  rw [List.append_assoc]
  exact hmore.symm

/-- A step that keeps the delivery under way, and may take it further. -/
theorem AsksAs.goes (h : r.AsksAs x [] d p) {step : Step} (inner' : List Delivery) {d' : Delivery}
    {p' : Publication} (hends : r.endsIn step = false) (hunwinds : r.unwindsIn step = false)
    (hdeliveries : (r.exchange.step step).deliveries = inner' ++ d' :: x.deliveries)
    (htells : p'.Tells d') (hbefore : p'.before = p.before)
    (hasked : p'.asked.map Prod.fst = p.asked.map Prod.fst ++ ((r.askedIn step).map Prod.fst).toList) :
    (r.advance step).Delivers x := by
  refine .inl ⟨inner', d', p', ?_, h.outer, hdeliveries, htells, hbefore.trans h.before, ?_⟩
  · simp only [advance, hends, hunwinds, Bool.false_eq_true, if_false]
    exact h.stage
  · rw [hasked, ← h.reached]
    rfl

/-- While no other delivery goes on within it, a step may take the delivery further, or end it. -/
theorem AsksAs.advance_innermost (h : r.AsksAs x [] d p) (step : Step) :
    (r.advance step).Delivers x := by
  have hinnermost : r.exchange.deliveries = d :: x.deliveries := h.deliveries
  -- most steps neither ask anybody for the request nor end its delivery
  have hstays : ∀ inner', r.endsIn step = false → r.askedIn step = none →
      (r.exchange.step step).deliveries = inner' ++ d :: x.deliveries → (r.advance step).Delivers x := by
    intro inner' hends hasked hdeliveries
    have hunwinds : r.unwindsIn step = false := by rw [unwindsIn, hasked]; rfl
    refine h.goes inner' hends hunwinds hdeliveries h.tells rfl ?_
    rw [hasked]
    exact (List.append_nil _).symm
  cases step with
  | publish walk event => exact hstays [_] rfl rfl (congrArg _ hinnermost)
  | visit =>
    have hasked : r.askedIn .visit = r.exchange.asked? := if_pos h.isInnermost
    rcases r.exchange.visit_cases with
      ⟨e, id, pending, delivered, outer, hd, hvisit⟩ | ⟨hnone, hvisit⟩
    · obtain ⟨rfl, rfl⟩ := List.cons.inj (hinnermost.symm.trans hd)
      rcases hvisit with ⟨-, hid, hvisit⟩ | ⟨-, hid, hvisit⟩ | ⟨-, hid, hvisit⟩
      · rw [hid] at hasked
        refine h.goes [] rfl ?_ (congrArg Exchange.deliveries hvisit) h.tells.accept rfl ?_
        · rw [unwindsIn, hasked]
          rfl
        · rw [hasked]
          exact List.map_append
      · rw [hid] at hasked
        refine h.goes [] rfl ?_ (congrArg Exchange.deliveries hvisit) h.tells.skip rfl ?_
        · rw [unwindsIn, hasked]
          rfl
        · rw [hasked]
          exact List.map_append
      · -- the filter breaks down, and those that are still to be asked never will be
        rw [hid] at hasked
        have hstage : (r.advance .visit).stage = .unwound := by
          simp [advance, endsIn, unwindsIn, hasked]
        refine .inr ⟨by simp [hstage], pending, ?_, .inl hstage⟩
        have hreached : (r.advance .visit).reached = r.reached ++ [id] := by
          simp [advance, hasked]
        rw [hreached, h.reached, ← h.before, List.append_assoc]
        exact h.tells.asked
    · exact hstays [] rfl (hasked.trans hnone) ((congrArg Exchange.deliveries hvisit).trans hinnermost)
  | conclude brokeDown =>
    rcases r.exchange.conclude_cases brokeDown with
      ⟨e, id, pending, delivered, outer, hd, -, hconclude⟩ | ⟨-, hconclude⟩
    · obtain ⟨rfl, rfl⟩ := List.cons.inj (hinnermost.symm.trans hd)
      have hkept : (p.conclude id brokeDown).before = p.before ∧
          (p.conclude id brokeDown).asked = p.asked := by
        cases brokeDown <;> exact ⟨rfl, rfl⟩
      refine h.goes [] rfl rfl (congrArg Exchange.deliveries hconclude)
        (h.tells.conclude brokeDown) hkept.1 ?_
      rw [hkept.2]
      exact (List.append_nil _).symm
    · exact hstays [] rfl rfl ((congrArg Exchange.deliveries hconclude).trans hinnermost)
  | finish =>
    rcases r.exchange.finish_cases with ⟨e, delivered, outer, hd, hresult, -⟩ | ⟨hresult, hfinish⟩
    · obtain ⟨rfl, rfl⟩ := List.cons.inj (hinnermost.symm.trans hd)
      have hends : r.endsIn .finish = true := by simp [endsIn, h.isInnermost, hresult]
      have hstage : (r.advance .finish).stage = .delivered := by simp [advance, hends]
      refine .inr ⟨by simp [hstage], [], ?_, .inr rfl⟩
      rw [← h.before]
      have hreached : (r.advance .finish).reached = p.asked.map Prod.fst := by
        rw [← h.reached]
        exact List.append_nil _
      rw [hreached]
      exact h.tells.asked
    · have hends : r.endsIn .finish = false := by simp [endsIn, hresult]
      exact hstays [] hends rfl ((congrArg Exchange.deliveries hfinish).trans hinnermost)
  | _ => exact hstays [] rfl rfl hinnermost

/-- A step of the exchange leaves the delivery of the request where the exchange has it, further on or
at its end. -/
theorem Delivers.advance (h : r.Delivers x) (step : Step) : (r.advance step).Delivers x := by
  rcases h with ⟨inner, d, p, h⟩ | h
  · cases inner with
    | nil => exact h.advance_innermost step
    | cons i inner => exact h.advance_inner step
  · have hnot : r.isInnermost = false := by
      rw [isInnermost]
      split
      next hstage => exact absurd hstage h.stage
      next => rfl
    rw [advance_of_not_innermost hnot]
    exact .inr ⟨h.stage, h.reached⟩

/-! ## The slot and the one who waits for it -/

/-- A look at the slot concerns nothing but how far the request has come. -/
theorem look_eq (r : Request) : r.look = { r with stage := r.look.stage } := by
  unfold look
  split
  · split
    · rfl
    · rfl
  · split
    · rfl
    · rfl
  · rfl

theorem method_step (r : Request) (s : RequestStep) : (r.step s).method = r.method := by
  cases s with
  | take id =>
    show (r.take id).method = _
    unfold take
    split
    · rfl
    · rfl
  | look =>
    show r.look.method = _
    rw [look_eq]
  | _ => rfl

/-- A request asks for one method, from its making to its end. -/
theorem method_run (r : Request) (steps : List RequestStep) : (r.run steps).method = r.method := by
  induction steps generalizing r with
  | nil => rfl
  | cons s steps ih => exact (ih (r.step s)).trans (r.method_step s)

/-- A step of the subscribers or of the one who waits changes nothing on the bridge. -/
theorem exchange_step (r : Request) (s : RequestStep) : (r.step s).exchange =
    match s with
    | .bridge step => r.exchange.step step
    | _ => r.exchange := by
  cases s with
  | take id =>
    show (r.take id).exchange = _
    unfold take
    split
    · rfl
    · rfl
  | look =>
    show r.look.exchange = _
    rw [look_eq]
  | _ => rfl

/-- Steps of a request in two rows are steps in one. -/
theorem run_append (r : Request) (steps steps' : List RequestStep) :
    r.run (steps ++ steps') = (r.run steps).run steps' :=
  List.foldl_append

/-- The steps of the bridge go to the exchange, whatever becomes of the request. -/
theorem exchange_run_bridge (r : Request) (steps : List Step) :
    (r.run (steps.map .bridge)).exchange = r.exchange.run steps := by
  induction steps generalizing r with
  | nil => rfl
  | cons s steps ih => exact ih (r.step (.bridge s))

/-- What the one who made the request has heard stays: no later step takes it back or replaces it. -/
theorem result_run (steps : List RequestStep) {result : Except RequestError MethodOutcome}
    (h : r.result? = some result) : (r.run steps).result? = some result := by
  induction steps generalizing r with
  | nil => exact h
  | cons s steps ih =>
    refine ih (r := r.step s) ?_
    have hstage : r.stage = .returned result := by
      unfold result? at h
      split at h
      next heq => rw [heq, Option.some.inj h]
      next => exact absurd h nofun
    have hnot : r.isInnermost = false := by rw [isInnermost, hstage]
    cases s with
    | bridge step =>
      show (r.advance step).result? = _
      rw [advance_of_not_innermost hnot]
      exact h
    | take id =>
      show (r.take id).result? = _
      unfold take
      split
      · exact h
      · exact h
    | answer id outcome => exact h
    | letGo id => exact h
    | look =>
      show r.look.result? = _
      rw [look, hstage]
      exact h

/-- Filters that do not break down are all there are if none other are brought. -/
theorem unfailing_step (h : r.exchange.Unfailing) {s : RequestStep} (hs : s.Unfailing) :
    (r.step s).exchange.Unfailing := by
  rw [exchange_step]
  cases s with
  | bridge step => exact h.step hs
  | _ => exact h

/-- With filters that never break down, none breaks down in a run that subscribes no others. -/
theorem unfailing_run (h : r.exchange.Unfailing) {steps : List RequestStep}
    (hsteps : ∀ s ∈ steps, s.Unfailing) : (r.run steps).exchange.Unfailing := by
  induction steps generalizing r with
  | nil => exact h
  | cons s steps ih =>
    rw [List.forall_mem_cons] at hsteps
    exact ih (unfailing_step h hsteps.1) hsteps.2

/-- No filter breaks down over the request as long as none can. -/
theorem not_unwindsIn (h : r.exchange.Unfailing) (step : Step) : r.unwindsIn step = false := by
  have hasked : ∀ a ∈ r.askedIn step, a.2 ≠ .breaksDown := by
    intro a ha
    cases step with
    | visit =>
      rw [askedIn] at ha
      split at ha
      · unfold Exchange.asked? at ha
        split at ha
        · rw [← Option.some.inj ha]
          exact h _ _
        · exact absurd ha nofun
      · exact absurd ha nofun
    | _ => exact absurd ha nofun
  rw [unwindsIn]
  cases hnext : r.askedIn step with
  | none => rfl
  | some a => simpa using hasked a (by rw [hnext]; rfl)

/-- If no filter breaks down, no step unwinds the request, so it can only go on or end with a
result. -/
theorem stage_step_of_unfailing (h : r.exchange.Unfailing) (hstage : r.stage ≠ .unwound)
    (s : RequestStep) : (r.step s).stage ≠ .unwound := by
  cases s with
  | bridge step =>
    show (r.advance step).stage ≠ _
    rw [advance, not_unwindsIn h]
    dsimp only
    split
    · exact nofun
    · exact hstage
  | take id =>
    show (r.take id).stage ≠ _
    unfold take
    split
    · exact hstage
    · exact hstage
  | answer id outcome => exact hstage
  | letGo id => exact hstage
  | look =>
    show r.look.stage ≠ _
    unfold look
    split
    · split
      · exact nofun
      · exact nofun
    · split
      · exact nofun
      · exact hstage
    · exact hstage

theorem stage_run_of_unfailing (h : r.exchange.Unfailing) (hstage : r.stage ≠ .unwound)
    {steps : List RequestStep} (hsteps : ∀ s ∈ steps, s.Unfailing) :
    (r.run steps).stage ≠ .unwound := by
  induction steps generalizing r with
  | nil => exact hstage
  | cons s steps ih =>
    rw [List.forall_mem_cons] at hsteps
    exact ih (unfailing_step h hsteps.1) (stage_step_of_unfailing h hstage s) hsteps.2

end Request

/-! ## Accounts -/

/-- A request with an account of what is done with its slot. -/
structure Account where
  request : Request
  /-- Who reached for the slot, in order, and whether the slot was handed out. -/
  takes : List (SubscriberId × Bool) := []
  /-- Who dealt with it, of those that got it, and how: with an answer, or by letting go of it. -/
  dealt : Option (SubscriberId × Option MethodOutcome) := none
  /-- How many had reached for the slot when the delivery of the request ended. -/
  endedAt : Option Nat := none
  /-- How many had when the one who made the request first looked at it. -/
  lookedAt : Option Nat := none

/-- What an end of the reply comes to. -/
def resultOf (method : String) : Option MethodOutcome → Except RequestError MethodOutcome
  | some outcome => .ok outcome
  | none => .error (.replyDropped method)

namespace Account

/-- One who got the slot deals with it, and nobody has before. -/
def deal (a : Account) (id : SubscriberId) (how : Option MethodOutcome) : Account :=
  if (id, true) ∈ a.takes ∧ a.dealt.isNone then { a with dealt := some (id, how) } else a

/-- Keeps account of a step. -/
def note (a : Account) : RequestStep → Account
  | .bridge step =>
    if a.request.endsIn step then { a with endedAt := some a.takes.length } else a
  | .take id =>
    if id ∈ a.request.reached then
      { a with takes := a.takes ++ [(id, (a.request.slot.take id).1)] }
    else a
  | .answer id outcome => a.deal id (some outcome)
  | .letGo id => a.deal id none
  | .look =>
    if a.endedAt.isSome ∧ a.lookedAt.isNone then { a with lookedAt := some a.takes.length } else a

/-- One step. -/
def step (a : Account) (s : RequestStep) : Account := { a.note s with request := a.request.step s }

/-- Steps one after another. -/
def run (a : Account) (steps : List RequestStep) : Account := steps.foldl step a

variable {a : Account} {id owner : SubscriberId} {x : Exchange}

/-- The account is kept beside the request and has no say in what becomes of it. -/
theorem request_run (a : Account) (steps : List RequestStep) :
    (a.run steps).request = a.request.run steps := by
  induction steps generalizing a with
  | nil => rfl
  | cons s steps ih => exact ih (a.step s)

/-! ### The slot -/

/-- The slot went to the first one who reached for it, and to nobody else. -/
def OwnedBy (a : Account) (owner : SubscriberId) : Prop :=
  ∃ others, a.takes = (owner, true) :: others ∧ (∀ t ∈ others, t.2 = false) ∧
    owner ∈ a.request.reached

/-- What was done with the slot is what the slot says. -/
def Slotted (a : Account) : Prop :=
  match a.request.slot with
  | .pending => a.takes = [] ∧ a.dealt = none
  | .taken owner => a.OwnedBy owner ∧ a.dealt = none
  | .answered owner outcome => a.OwnedBy owner ∧ a.dealt = some (owner, some outcome)
  | .dropped owner => a.OwnedBy owner ∧ a.dealt = some (owner, none)

/-- Who owns the slot has taken it, which the account knows. -/
theorem OwnedBy.takes_ne_nil (h : a.OwnedBy owner) : a.takes ≠ [] := by
  obtain ⟨others, htakes, -⟩ := h
  rw [htakes]
  exact List.cons_ne_nil _ _

/-- Nobody else has got the slot: of all that reached for it just the owner was given it. -/
theorem OwnedBy.got_iff (h : a.OwnedBy owner) : (id, true) ∈ a.takes ↔ id = owner := by
  obtain ⟨others, htakes, hothers, -⟩ := h
  rw [htakes, List.mem_cons]
  constructor
  · rintro (heq | hmem)
    · exact congrArg Prod.fst heq
    · exact absurd (hothers _ hmem) nofun
  · rintro rfl
    exact .inl rfl

/-- The owner keeps the slot while others reach for it in vain, and the request reaches more. -/
theorem OwnedBy.mono (h : a.OwnedBy owner) {a' : Account} {more : List (SubscriberId × Bool)}
    (htakes : a'.takes = a.takes ++ more) (hmore : ∀ t ∈ more, t.2 = false)
    (hreached : a.request.reached ⊆ a'.request.reached) : a'.OwnedBy owner := by
  obtain ⟨others, hfirst, hothers, hmem⟩ := h
  refine ⟨others ++ more, ?_, List.forall_mem_append.2 ⟨hothers, hmore⟩, hreached hmem⟩
  rw [htakes, hfirst, List.cons_append]

/-- Nothing but whom the request has reached has changed about the slot. -/
theorem Slotted.mono {a' : Account} (h : a.Slotted) (hslot : a'.request.slot = a.request.slot)
    (more : List (SubscriberId × Bool)) (htakes : a'.takes = a.takes ++ more)
    (hmore : ∀ t ∈ more, t.2 = false) (hpending : a.takes = [] → more = [])
    (hdealt : a'.dealt = a.dealt) (hreached : a.request.reached ⊆ a'.request.reached) :
    a'.Slotted := by
  unfold Slotted at h ⊢
  rw [hslot, hdealt]
  split at h
  next =>
    refine ⟨?_, h.2⟩
    rw [htakes, h.1, hpending h.1]
    rfl
  next => exact ⟨h.1.mono htakes hmore hreached, h.2⟩
  next => exact ⟨h.1.mono htakes hmore hreached, h.2⟩
  next => exact ⟨h.1.mono htakes hmore hreached, h.2⟩

/-- Only the first one who reaches for the slot gets it. -/
theorem Slotted.take (h : a.Slotted) (id : SubscriberId) : (a.step (.take id)).Slotted := by
  by_cases hid : id ∈ a.request.reached
  · have hrequest : (a.step (.take id)).request =
        { a.request with slot := (a.request.slot.take id).2 } := if_pos hid
    have htakes : (a.step (.take id)).takes = a.takes ++ [(id, (a.request.slot.take id).1)] := by
      show (a.note (.take id)).takes = _
      rw [note, if_pos hid]
    have hdealt : (a.step (.take id)).dealt = a.dealt := by
      show (a.note (.take id)).dealt = _
      rw [note, if_pos hid]
    cases hslot : a.request.slot with
    | pending =>
      rw [Slotted, hslot] at h
      rw [hslot, h.1] at htakes
      rw [hslot] at hrequest
      rw [Slotted, hrequest]
      refine ⟨⟨[], htakes, List.forall_mem_nil _, ?_⟩, hdealt.trans h.2⟩
      rw [hrequest]
      exact hid
    | taken owner | answered owner outcome | dropped owner =>
      refine h.mono ?_ _ htakes ?_ ?_ hdealt ?_
      · rw [hrequest, hslot]
        rfl
      · rw [hslot]
        exact List.forall_mem_singleton.2 rfl
      · rw [Slotted, hslot] at h
        exact fun hnone => absurd hnone h.1.takes_ne_nil
      · rw [hrequest]
        exact List.Subset.refl _
  · have hsame : a.step (.take id) = a := by
      rw [step, note, if_neg hid]
      show { a with request := a.request.take id } = a
      rw [Request.take, if_neg hid]
    rw [hsame]
    exact h

/-- Only the owner of the slot deals with it, and only once. -/
theorem Slotted.deal (h : a.Slotted) (id : SubscriberId) (how : Option MethodOutcome) :
    Slotted { a.deal id how with
      request := { a.request with slot := a.request.slot.settle id how } } := by
  cases hslot : a.request.slot with
  | pending =>
    rw [Slotted, hslot] at h
    have hdeal : a.deal id how = a := by simp [Account.deal, h.1]
    rw [hdeal]
    exact h
  | taken owner =>
    rw [Slotted, hslot] at h
    by_cases hid : owner = id
    · subst hid
      have hdeal : a.deal owner how = { a with dealt := some (owner, how) } := by
        simp [Account.deal, h.1.got_iff, h.2]
      rw [hdeal]
      cases how with
      | none =>
        have hsettle : (ReplySlot.taken owner).settle owner none = .dropped owner := if_pos rfl
        rw [hsettle]
        exact ⟨h.1, rfl⟩
      | some outcome =>
        have hsettle : (ReplySlot.taken owner).settle owner (some outcome)
            = .answered owner outcome := if_pos rfl
        rw [hsettle]
        exact ⟨h.1, rfl⟩
    · have hdeal : a.deal id how = a := by simp [Account.deal, h.1.got_iff, Ne.symm hid]
      have hsettle : (ReplySlot.taken owner).settle id how = .taken owner := if_neg hid
      rw [hdeal, hsettle]
      exact h
  | answered owner outcome | dropped owner =>
    rw [Slotted, hslot] at h
    have hdeal : a.deal id how = a := by simp [Account.deal, h.2]
    rw [hdeal]
    exact h

/-- Every step keeps the account of the slot true. Only taking it and dealing with it have something
to prove. -/
theorem Slotted.step (h : a.Slotted) (s : RequestStep) : (a.step s).Slotted := by
  cases s with
  | bridge step =>
    have hsame : (a.note (.bridge step)).takes = a.takes ∧ (a.note (.bridge step)).dealt = a.dealt := by
      rw [note]
      split
      · exact ⟨rfl, rfl⟩
      · exact ⟨rfl, rfl⟩
    refine h.mono rfl [] ?_ (List.forall_mem_nil _) (fun _ => rfl) hsame.2
      (List.subset_append_left _ _)
    rw [List.append_nil]
    exact hsame.1
  | take id => exact h.take id
  | answer id outcome => exact h.deal id (some outcome)
  | letGo id => exact h.deal id none
  | look =>
    have hsame : (a.note .look).takes = a.takes ∧ (a.note .look).dealt = a.dealt := by
      rw [note]
      split
      · exact ⟨rfl, rfl⟩
      · exact ⟨rfl, rfl⟩
    have hrequest : (a.step .look).request = { a.request with stage := a.request.look.stage } :=
      a.request.look_eq
    refine h.mono ?_ [] ?_ (List.forall_mem_nil _) (fun _ => rfl) hsame.2 ?_
    · rw [hrequest]
    · rw [List.append_nil]
      exact hsame.1
    · rw [hrequest]
      exact List.Subset.refl _

/-! ### The result -/

/-- The one who made the request has heard what there is to be heard so far, which the first look at
the slot and the owner of the slot decide. -/
def Settled (a : Account) : Prop :=
  match a.request.stage with
  | .asking | .unwound => a.endedAt = none ∧ a.lookedAt = none
  | .delivered => (∃ k ≤ a.takes.length, a.endedAt = some k) ∧ a.lookedAt = none
  | .waiting => ∃ k l, a.endedAt = some k ∧ a.lookedAt = some (l + 1) ∧ k ≤ l + 1 ∧
      l + 1 ≤ a.takes.length
  | .returned result => ∃ k l, a.endedAt = some k ∧ a.lookedAt = some l ∧ k ≤ l ∧
      l ≤ a.takes.length ∧
      (l = 0 ∧ result = .error (.noResponder a.request.method) ∨
        0 < l ∧ ∃ owner how, a.dealt = some (owner, how) ∧ result = resultOf a.request.method how)

/-- What the subscribers do with the slot changes nothing for the one who waits, until he looks. -/
theorem Settled.mono {a' : Account} (h : a.Settled) (hstage : a'.request.stage = a.request.stage)
    (hmethod : a'.request.method = a.request.method) (hended : a'.endedAt = a.endedAt)
    (hlooked : a'.lookedAt = a.lookedAt) (htakes : a.takes.length ≤ a'.takes.length)
    (hdealt : ∀ d, a.dealt = some d → a'.dealt = some d) : a'.Settled := by
  unfold Settled at h ⊢
  rw [hstage, hmethod, hended, hlooked]
  split at h
  next => exact h
  next => exact h
  next =>
    obtain ⟨⟨k, hk, hended⟩, hlooked⟩ := h
    exact ⟨⟨k, Nat.le_trans hk htakes, hended⟩, hlooked⟩
  next =>
    obtain ⟨k, l, hended, hlooked, hkl, hl⟩ := h
    exact ⟨k, l, hended, hlooked, hkl, Nat.le_trans hl htakes⟩
  next =>
    obtain ⟨k, l, hended, hlooked, hkl, hl, hresult⟩ := h
    refine ⟨k, l, hended, hlooked, hkl, Nat.le_trans hl htakes, hresult.imp_right ?_⟩
    rintro ⟨hpos, owner, how, hd, hresult⟩
    exact ⟨hpos, owner, how, hdealt _ hd, hresult⟩

/-- Dealing with the slot leaves the rest of the account alone, and what was dealt before. -/
theorem deal_cases (a : Account) (id : SubscriberId) (how : Option MethodOutcome) :
    a.deal id how = a ∨ a.dealt = none ∧ a.deal id how = { a with dealt := some (id, how) } := by
  unfold deal
  split
  next h => exact .inr ⟨Option.isNone_iff_eq_none.1 h.2, rfl⟩
  next => exact .inl rfl

/-- What an owner does with the slot is noted, with the outcome that the slot has from it. -/
theorem Settled.deal (h : a.Settled) (id : SubscriberId) (how : Option MethodOutcome) :
    Settled { a.deal id how with
      request := { a.request with slot := a.request.slot.settle id how } } := by
  rcases a.deal_cases id how with hdeal | ⟨hnone, hdeal⟩
  · rw [hdeal]
    exact h.mono rfl rfl rfl rfl (Nat.le_refl _) fun _ hd => hd
  · rw [hdeal]
    refine h.mono rfl rfl rfl rfl (Nat.le_refl _) fun d hd => ?_
    rw [hnone] at hd
    exact absurd hd nofun

/-- A step on the bridge may end the delivery, and then the slot has yet to be looked at. -/
theorem Settled.bridge (h : a.Settled) (step : Step) : (a.step (.bridge step)).Settled := by
  cases hnot : a.request.isInnermost with
  | false =>
    -- what ends is a delivery within the one of the request, or one around it
    have hends : a.request.endsIn step = false := by
      cases step <;> simp [Request.endsIn, hnot]
    have hnote : a.note (.bridge step) = a := by
      rw [note, hends]
      rfl
    have hrequest : (a.step (.bridge step)).request =
        { a.request with exchange := a.request.exchange.step step } :=
      Request.advance_of_not_innermost hnot step
    rw [Account.step, hnote] at *
    refine h.mono ?_ ?_ rfl rfl (Nat.le_refl _) fun _ hd => hd
    · rw [hrequest]
    · rw [hrequest]
  | true =>
    have hstage : a.request.stage = .asking := by
      rw [Request.isInnermost] at hnot
      split at hnot
      next hstage => exact hstage
      next => exact absurd hnot nofun
    rw [Settled, hstage] at h
    have hafter : (a.step (.bridge step)).request.stage =
        if a.request.endsIn step then .delivered
        else if a.request.unwindsIn step then .unwound
        else .asking := by
      show (a.request.advance step).stage = _
      rw [Request.advance, hstage]
    by_cases hends : a.request.endsIn step = true
    · rw [if_pos hends] at hafter
      have hnote : a.note (.bridge step) = { a with endedAt := some a.takes.length } := if_pos hends
      rw [Settled, hafter, Account.step, hnote]
      exact ⟨⟨_, Nat.le_refl _, rfl⟩, h.2⟩
    · rw [if_neg hends] at hafter
      have hnote : a.note (.bridge step) = a := if_neg hends
      rw [Settled, hafter, Account.step, hnote]
      split
      next => exact h
      next => exact h
      next heq => split at heq <;> exact absurd heq nofun
      next heq => split at heq <;> exact absurd heq nofun
      next heq => split at heq <;> exact absurd heq nofun

/-- Whoever has reached for the slot has got it, or another one has. -/
theorem Slotted.isPending_iff (h : a.Slotted) :
    a.request.slot.isPending = true ↔ a.takes = [] := by
  unfold Slotted at h
  split at h
  next heq => simp [heq, ReplySlot.isPending, h.1]
  next heq => simp [heq, ReplySlot.isPending, h.1.takes_ne_nil]
  next heq => simp [heq, ReplySlot.isPending, h.1.takes_ne_nil]
  next heq => simp [heq, ReplySlot.isPending, h.1.takes_ne_nil]

/-- What the slot says to the one who waits for it is what its owner has done. -/
theorem Slotted.received?_eq (h : a.Slotted) (method : String) :
    a.request.slot.received? method = a.dealt.map fun d => resultOf method d.2 := by
  unfold Slotted at h
  split at h
  next heq => rw [heq, h.2]; rfl
  next heq => rw [heq, h.2]; rfl
  next heq => rw [heq, h.2]; rfl
  next heq => rw [heq, h.2]; rfl

/-- The first look at the slot tells whether anyone has reached for it. All who have are in the account
by then. -/
theorem Settled.look_first (h : a.Settled) (hslotted : a.Slotted)
    (hstage : a.request.stage = .delivered) : (a.step .look).Settled := by
  have hmethod : (a.step .look).request.method = a.request.method := a.request.method_step .look
  have hlook : (a.step .look).request = a.request.look := rfl
  rw [Settled, hstage] at h
  obtain ⟨⟨k, hk, hended⟩, hlooked⟩ := h
  have hnote : a.note .look = { a with lookedAt := some a.takes.length } := by
    simp [note, hended, hlooked]
  by_cases hpending : a.request.slot.isPending = true
  · have htakes := hslotted.isPending_iff.1 hpending
    have hafter : (a.step .look).request.stage
        = .returned (.error (.noResponder a.request.method)) := by
      rw [hlook, Request.look, hstage]
      dsimp only
      rw [if_pos hpending]
    rw [Settled, hafter, hmethod, Account.step, hnote]
    rw [htakes] at hk ⊢
    exact ⟨k, 0, hended, rfl, hk, Nat.le_refl _, .inl ⟨rfl, rfl⟩⟩
  · have htakes : a.takes ≠ [] := fun hnil => hpending (hslotted.isPending_iff.2 hnil)
    obtain ⟨l, hl⟩ := Nat.exists_eq_succ_of_ne_zero (mt List.length_eq_zero_iff.1 htakes)
    have hafter : (a.step .look).request.stage = .waiting := by
      rw [hlook, Request.look, hstage]
      dsimp only
      rw [if_neg hpending]
    rw [Settled, hafter, Account.step, hnote]
    rw [hl] at hk ⊢
    exact ⟨k, l, hended, rfl, hk, Nat.le_refl _⟩

/-- A later look finds what the owner has done with the slot, and changes nothing if he has yet to do
anything. -/
theorem Settled.look_again (h : a.Settled) (hslotted : a.Slotted)
    (hstage : a.request.stage = .waiting) : (a.step .look).Settled := by
  have hmethod : (a.step .look).request.method = a.request.method := a.request.method_step .look
  have hlook : (a.step .look).request = a.request.look := rfl
  have hbefore := h
  rw [Settled, hstage] at h
  obtain ⟨k, l, hended, hlooked, hkl, hl⟩ := h
  have hnote : a.note .look = a := by simp [note, hlooked]
  have hreceived := hslotted.received?_eq a.request.method
  cases hdealt : a.dealt with
  | none =>
    have hsame : a.step .look = a := by
      rw [Account.step, hnote]
      show { a with request := a.request.look } = a
      rw [hdealt] at hreceived
      rw [Request.look, hstage]
      dsimp only
      rw [hreceived]
      rfl
    rw [hsame]
    exact hbefore
  | some d =>
    have hafter : (a.step .look).request.stage = .returned (resultOf a.request.method d.2) := by
      rw [hdealt] at hreceived
      rw [hlook, Request.look, hstage]
      dsimp only
      rw [hreceived]
      rfl
    rw [Settled, hafter, hmethod, Account.step, hnote]
    exact ⟨k, l + 1, hended, hlooked, hkl, hl, .inr ⟨Nat.succ_pos _, d.1, d.2, hdealt, rfl⟩⟩

/-- A look at the slot keeps the account of the result true, whenever it comes. -/
theorem Settled.look (h : a.Settled) (hslotted : a.Slotted) : (a.step .look).Settled := by
  cases hstage : a.request.stage with
  | asking | unwound =>
    -- there is nothing to look at as long as the event is delivered, or if it never will be
    rw [Settled, hstage] at h
    have hsame : a.step .look = a := by
      rw [Account.step, note, h.1]
      show { a with request := a.request.look } = a
      rw [Request.look, hstage]
    rw [hsame, Settled, hstage]
    exact h
  | delivered => exact h.look_first hslotted hstage
  | waiting => exact h.look_again hslotted hstage
  | returned result =>
    have hlooked : a.lookedAt.isNone = false := by
      rw [Settled, hstage] at h
      obtain ⟨k, l, -, hlooked, -⟩ := h
      rw [hlooked]
      rfl
    have hsame : a.step .look = a := by
      have hnote : a.note .look = a := by simp [note, hlooked]
      rw [Account.step, hnote]
      show { a with request := a.request.look } = a
      rw [Request.look, hstage]
    rw [hsame]
    exact h

/-- Every step keeps the account of the result true, given that the account of the slot is; a look
reads the slot. -/
theorem Settled.step (h : a.Settled) (hslotted : a.Slotted) (s : RequestStep) :
    (a.step s).Settled := by
  cases s with
  | bridge step => exact h.bridge step
  | take id =>
    have hnote : (a.note (.take id)).endedAt = a.endedAt ∧ (a.note (.take id)).lookedAt = a.lookedAt ∧
        (a.note (.take id)).dealt = a.dealt ∧ a.takes.length ≤ (a.note (.take id)).takes.length := by
      rw [note]
      split
      · refine ⟨rfl, rfl, rfl, ?_⟩
        rw [List.length_append]
        exact Nat.le_add_right _ _
      · exact ⟨rfl, rfl, rfl, Nat.le_refl _⟩
    have hstage : (a.request.take id).stage = a.request.stage := by
      rw [Request.take]
      split
      · rfl
      · rfl
    refine h.mono hstage (a.request.method_step _) hnote.1 hnote.2.1 hnote.2.2.2 fun d hd => ?_
    exact hnote.2.2.1.trans hd
  | answer id outcome => exact h.deal id (some outcome)
  | letGo id => exact h.deal id none
  | look => exact h.look hslotted

/-! ### Runs -/

/-- What is true of an account at any time. -/
structure Sound (a : Account) (x : Exchange) : Prop where
  delivers : a.request.Delivers x
  slotted : a.Slotted
  settled : a.Settled

/-- At the start of a request nobody has taken its slot and nothing was answered, and so says the
account. -/
theorem sound_make (x : Exchange) (walk : Walk) (source method : String) (args : Value) :
    Sound { request := .make x walk source method args } x :=
  ⟨Request.delivers_make x walk source method args, ⟨rfl, rfl⟩, ⟨rfl, rfl⟩⟩

/-- The step lemma: the account stays true under every step of the request, of the exchange and of the
subscribers. -/
theorem Sound.step (h : a.Sound x) (s : RequestStep) : (a.step s).Sound x := by
  refine ⟨?_, h.slotted.step s, h.settled.step h.slotted s⟩
  show (a.request.step s).Delivers x
  cases s with
  | bridge step => exact h.delivers.advance step
  | take id =>
    show (a.request.take id).Delivers x
    unfold Request.take
    split
    · exact h.delivers.congr rfl rfl rfl rfl
    · exact h.delivers
  | answer id outcome => exact h.delivers.congr rfl rfl rfl rfl
  | letGo id => exact h.delivers.congr rfl rfl rfl rfl
  | look =>
    show a.request.look.Delivers x
    -- the delivery is over before the one who made the request looks
    have hover : a.request.stage ≠ .asking → a.request.stage ≠ .unwound →
        ∀ stage, stage ≠ .asking → Request.Delivers { a.request with stage } x := by
      intro hasking hunwound stage hstage
      obtain ⟨rest, hperm, hrest⟩ := h.delivers.exists_perm
      exact .inr ⟨hstage, rest, hperm, .inr (hrest hasking hunwound)⟩
    unfold Request.look
    split
    next hstage =>
      have hnot := hover (by simp [hstage]) (by simp [hstage])
      split
      · exact hnot _ nofun
      · exact hnot _ nofun
    next hstage =>
      have hnot := hover (by simp [hstage]) (by simp [hstage])
      split
      · exact hnot _ nofun
      · exact h.delivers
    next => exact h.delivers

/-- The run lemma: hence it is true at every moment, and what is said of the outcome can be read off
it. -/
theorem Sound.run (h : a.Sound x) (steps : List RequestStep) : (a.run steps).Sound x := by
  induction steps generalizing a with
  | nil => exact h
  | cons s steps ih => exact ih (h.step s)

/-- Nobody has the slot, or exactly one has it, who alone may deal with it. -/
theorem Slotted.cases (h : a.Slotted) : (a.takes = [] ∧ a.dealt = none) ∨
    ∃ owner, a.OwnedBy owner ∧ ∀ d ∈ a.dealt, d.1 = owner := by
  unfold Slotted at h
  split at h
  next => exact .inl h
  next owner _ => exact .inr ⟨owner, h.1, by rw [h.2]; exact nofun⟩
  next owner outcome _ => exact .inr ⟨owner, h.1, by rw [h.2]; rintro d ⟨⟩; rfl⟩
  next owner _ => exact .inr ⟨owner, h.1, by rw [h.2]; rintro d ⟨⟩; rfl⟩

/-- The request has no responder just if the first look found that nobody had reached for the slot. -/
theorem Settled.noResponder_iff (h : a.Settled) :
    a.request.result? = some (.error (.noResponder a.request.method)) ↔ a.lookedAt = some 0 := by
  unfold Request.result?
  rw [Settled] at h
  split at h
  next heq => simp [heq, h.2]
  next heq => simp [heq, h.2]
  next heq => simp [heq, h.2]
  next heq =>
    obtain ⟨k, l, -, hlooked, -⟩ := h
    simp [heq, hlooked]
  next result heq =>
    obtain ⟨k, l, -, hlooked, -, -, ⟨rfl, rfl⟩ | ⟨hpos, owner, how, -, rfl⟩⟩ := h
    · simp [heq, hlooked]
    · have hne : l ≠ 0 := Nat.ne_of_gt hpos
      cases how <;> simp [heq, hlooked, hne, resultOf]

/-- If the first look found that someone had, the next one tells what the owner has done. -/
theorem Settled.look_eq (h : a.Settled) (hslotted : a.Slotted) {l : Nat}
    (hlooked : a.lookedAt = some (l + 1)) :
    (a.request.step .look).result? = a.dealt.map fun d => resultOf a.request.method d.2 := by
  show a.request.look.result? = _
  have hreceived := hslotted.received?_eq a.request.method
  rw [Settled] at h
  split at h
  next => exact absurd (h.2.symm.trans hlooked) nofun
  next => exact absurd (h.2.symm.trans hlooked) nofun
  next => exact absurd (h.2.symm.trans hlooked) nofun
  next heq =>
    rw [← hreceived, Request.look, heq]
    dsimp only
    split
    next hresult => exact hresult.symm
    next hresult => rw [hresult, Request.result?, heq]
  next result heq =>
    obtain ⟨k, l', -, hlooked', -, -, ⟨rfl, -⟩ | ⟨-, owner, how, hdealt, rfl⟩⟩ := h
    · exact absurd (hlooked'.symm.trans hlooked) nofun
    · rw [Request.look, heq]
      dsimp only
      rw [Request.result?, heq, hdealt]
      rfl

/-- The first look comes after the end of the delivery, so it sees no fewer takes than there were
then. -/
theorem Settled.exists_ended (h : a.Settled) {l : Nat} (hlooked : a.lookedAt = some l) :
    ∃ k ≤ l, a.endedAt = some k := by
  rw [Settled] at h
  split at h
  next => exact absurd (h.2.symm.trans hlooked) nofun
  next => exact absurd (h.2.symm.trans hlooked) nofun
  next => exact absurd (h.2.symm.trans hlooked) nofun
  next =>
    obtain ⟨k, l', hended, hlooked', hkl, -⟩ := h
    obtain rfl : l' + 1 = l := Option.some.inj (hlooked'.symm.trans hlooked)
    exact ⟨k, hkl, hended⟩
  next =>
    obtain ⟨k, l', hended, hlooked', hkl, -⟩ := h
    obtain rfl : l' = l := Option.some.inj (hlooked'.symm.trans hlooked)
    exact ⟨k, hkl, hended⟩

/-- A request whose delivery has ended has come to all it is meant for. -/
theorem Sound.exists_perm (h : a.Sound x) : ∃ rest, (a.request.reached ++ rest).Perm x.live ∧
    (a.endedAt.isSome = true → rest = []) := by
  obtain ⟨rest, hperm, hrest⟩ := h.delivers.exists_perm
  refine ⟨rest, hperm, fun hended => ?_⟩
  have hsettled := h.settled
  refine hrest (fun hstage => ?_) (fun hstage => ?_)
  · rw [Settled, hstage] at hsettled
    rw [hsettled.1] at hended
    exact absurd hended nofun
  · rw [Settled, hstage] at hsettled
    rw [hsettled.1] at hended
    exact absurd hended nofun

/-! ### Progress -/

/-- Once the subscribers are done, the delivery is over. -/
theorem Sound.exists_over (h : a.Sound x) : ∃ more : List RequestStep,
    (∀ s ∈ more, s.IsProgress) ∧ (a.run more).request.stage ≠ .asking := by
  rcases h.delivers with ⟨inner, d, p, hasks⟩ | hasked
  · have hdeliveries : a.request.exchange.deliveries = (inner ++ [d]) ++ x.deliveries := by
      rw [hasks.deliveries, List.append_assoc]
      rfl
    obtain ⟨more, hmore, hends⟩ := Exchange.exists_progress _ _ _ hdeliveries
    refine ⟨more.map .bridge, ?_, fun hstage => ?_⟩
    · rw [List.forall_mem_map]
      exact hmore
    · rcases (h.run (more.map .bridge)).delivers with ⟨inner', d', p', hasks'⟩ | hasked
      · have hstill := hasks'.deliveries
        rw [request_run, Request.exchange_run_bridge, hends] at hstill
        have hlength := congrArg List.length hstill
        simp only [List.length_append, List.length_cons] at hlength
        omega
      · exact hasked.stage hstage
  · exact ⟨[], List.forall_mem_nil _, hasked.stage⟩

/-- Once the delivery is over, a look at the slot, an end of the reply and another look end the
request, unless a filter already has. -/
theorem Sound.exists_result (h : a.Sound x) (hstage : a.request.stage ≠ .asking) :
    ∃ id, (a.request.run [.look, .letGo id, .look]).result? ≠ none ∨
      (a.request.run [.look, .letGo id, .look]).stage = .unwound := by
  have hslotted := h.slotted
  have hsettled := h.settled
  cases hslot : a.request.slot with
  | pending =>
    refine ⟨0, ?_⟩
    rw [Slotted, hslot] at hslotted
    rw [Settled] at hsettled
    cases hnow : a.request.stage with
    | waiting =>
      rw [hnow] at hsettled
      obtain ⟨k, l, -, -, -, hl⟩ := hsettled
      rw [hslotted.1] at hl
      exact absurd hl (Nat.not_succ_le_zero _)
    | _ => simp_all [Request.run, Request.step, Request.look, Request.result?, ReplySlot.isPending]
  | taken owner =>
    refine ⟨owner, ?_⟩
    cases hnow : a.request.stage <;>
      simp_all [Request.run, Request.step, Request.look, Request.result?, ReplySlot.isPending,
        ReplySlot.settle, ReplySlot.received?]
  | answered owner outcome | dropped owner =>
    refine ⟨owner, ?_⟩
    cases hnow : a.request.stage <;>
      simp_all [Request.run, Request.step, Request.look, Request.result?, ReplySlot.isPending,
        ReplySlot.settle, ReplySlot.received?]

/-- Once the subscribers are done, the request comes to its end. -/
theorem Sound.exists_end (h : a.Sound x) : ∃ more : List RequestStep, (∀ s ∈ more, s.IsProgress) ∧
    ((a.request.run more).result? ≠ none ∨ (a.request.run more).stage = .unwound) := by
  obtain ⟨more, hmore, hover⟩ := h.exists_over
  obtain ⟨id, hends⟩ := (h.run more).exists_result hover
  refine ⟨more ++ [.look, .letGo id, .look], List.forall_mem_append.2 ⟨hmore, ?_⟩, ?_⟩
  · simp [RequestStep.IsProgress]
  · rw [Request.run_append, ← request_run]
    exact hends

end Account

/-- Two have subscribed, and both of them take every event. -/
def pair : Exchange :=
  Exchange.run {} [.subscribe fun _ => .accepts, .subscribe fun _ => .accepts]

/-- The first one takes the slot and puts it away before it breaks down, and the second one comes too
late. The one who made the request looks, and once more when the first one has answered. -/
def handover : List RequestStep :=
  [.bridge .visit, .take 0, .bridge (.conclude true), .bridge .visit, .take 1,
    .bridge (.conclude false), .bridge .finish, .look, .answer 1 .notFound,
    .answer 0 (.failed "no"), .look]

end AppletHost.Bridge
