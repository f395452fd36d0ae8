import AppletHost.Bridge.Network
import AppletHost.Proofs.Bridge.Requests

/-!
# A bridge with its subscribers, step by step

Whatever the subscribers of a `Network` do, they do in steps of the bridge and of the request that is
under way, so what is true of every run of these is true of the network (`publish_steps`,
`request_steps`). Deliveries end where they began (`deliveries_publishWithin`, `request_ends`), and no
event makes them nest deeper than `deepestDelivery` (`publishWithin_eq_publish`).
-/

namespace AppletHost.Bridge.Network

variable {n n' : Network} {publish publish' : Network → Event → Network}

/-! ## Steps -/

/-- Steps lead from one network to another, and bring no filter that may break down. -/
def Leads (n n' : Network) : Prop :=
  ∃ steps, (∀ s ∈ steps, s.Unfailing) ∧ n'.current = n.current.run steps

theorem leads_refl (n : Network) : n.Leads n := ⟨[], List.forall_mem_nil _, rfl⟩

/-- A step that breaks no filter leads a network on. -/
theorem leads_step (n : Network) {s : RequestStep} (hs : s.Unfailing) : n.Leads (n.step s) :=
  ⟨[s], List.forall_mem_singleton.2 hs, rfl⟩

theorem Leads.trans {n'' : Network} (h : n.Leads n') (h' : n'.Leads n'') : n.Leads n'' := by
  obtain ⟨steps, hunfailing, hsteps⟩ := h
  obtain ⟨steps', hunfailing', hsteps'⟩ := h'
  refine ⟨steps ++ steps', List.forall_mem_append.2 ⟨hunfailing, hunfailing'⟩, ?_⟩
  rw [hsteps', hsteps, Request.run_append]

/-- The filters of a network are there to stay, and those that come do not break down either. -/
theorem Leads.unfailing (h : n.Leads n') (hn : n.exchange.Unfailing) : n'.exchange.Unfailing := by
  obtain ⟨steps, hunfailing, hsteps⟩ := h
  rw [exchange, hsteps]
  exact Request.unfailing_run hn hunfailing

/-- A filter that always answers does not break down; those of a network are of this kind. -/
theorem ofBool_unfailing (accepts : Event → Bool) (event : Event) :
    Filter.ofBool accepts event ≠ .breaksDown := by
  unfold Filter.ofBool
  split
  · exact nofun
  · exact nofun

/-- A subscription with a total filter breaks none. -/
theorem leads_subscribe (n : Network) (name : String) (accepts : Event → Bool) (reaction : Reaction) :
    n.Leads (n.subscribe name accepts reaction) :=
  ⟨[.bridge (.subscribe (.ofBool accepts))],
    List.forall_mem_singleton.2 (ofBool_unfailing accepts), rfl⟩

/-- Whoever responds takes the slot first, and then answers or lets go: two steps of the request that
is under way. -/
theorem leads_respond (n : Network) (id : SubscriberId) (outcome : Option MethodOutcome) :
    n.Leads (n.respond id outcome) := by
  have htake : n.Leads (n.step (.take id)) := n.leads_step trivial
  cases outcome with
  | none => exact htake.trans (leads_step _ trivial)
  | some outcome => exact htake.trans (leads_step _ trivial)

/-- Whatever a member does with an event leads the network on, if publishing does. -/
theorem leads_react (hpublish : ∀ (n : Network) e, n.Leads (publish n e)) (n : Network) (m : Member)
    (e : Event) : n.Leads (n.react publish m e) := by
  unfold react
  split
  · exact n.leads_step trivial
  · exact hpublish n _
  · exact n.leads_subscribe _ _ _
  · exact n.leads_respond m.id _
  · exact n.leads_respond m.id _
  · exact n.leads_refl

/-- A visit is a step of the bridge, whatever its subscriber does, and the step that concludes it. -/
theorem leads_visit (hpublish : ∀ (n : Network) e, n.Leads (publish n e)) (n : Network) :
    n.Leads (n.visit publish) := by
  have hvisit : n.Leads (n.advance .visit) := n.leads_step trivial
  unfold visit
  dsimp only
  refine hvisit.trans ?_
  split
  · exact leads_refl _
  next e id _ =>
    split
    · exact leads_step _ trivial
    next m _ =>
      have hreact := leads_react hpublish
        { n.advance .visit with noted := (m.name, e) :: (n.advance .visit).noted } m e
      exact hreact.trans (leads_step _ trivial)

theorem leads_visits (hpublish : ∀ (n : Network) e, n.Leads (publish n e)) (visits : Nat)
    (n : Network) : n.Leads (visits.repeat (visit publish) n) := by
  induction visits with
  | zero => exact n.leads_refl
  | succ visits ih => exact ih.trans (leads_visit hpublish _)

theorem leads_deliver (hpublish : ∀ (n : Network) e, n.Leads (publish n e)) (visits : Nat)
    (n : Network) : n.Leads (n.deliver publish visits).2 :=
  (leads_visits hpublish visits n).trans (leads_step _ trivial)

/-- Hence publishing leads on at every depth; the induction is on the depth that is left. -/
theorem leads_publishWithin (depth : Nat) (n : Network) (e : Event) :
    n.Leads (publishWithin depth n e).2 := by
  induction depth generalizing n e with
  | zero => exact n.leads_refl
  | succ depth ih =>
    have hbegins : n.Leads (n.advance (.publish .straight e)) := n.leads_step trivial
    exact hbegins.trans (leads_deliver ih _ _)

/-- A publication of a network is made of steps of the bridge and of the current request, none of
which brings a filter that breaks down. -/
theorem publish_steps (n : Network) (e : Event) :
    ∃ steps, (∀ s ∈ steps, s.Unfailing) ∧ (n.publish e).2.current = n.current.run steps :=
  leads_publishWithin deepestDelivery n e

/-- The steps of a request, with two looks at the slot once the delivery has ended. -/
theorem request_steps (n : Network) (source method : String) (args : Value) :
    ∃ steps, (∀ s ∈ steps, s.Unfailing) ∧ (n.request source method args).2.current =
        (Request.make n.exchange .straight source method args).run (steps ++ [.look, .look]) ∧
      (n.request source method args).1 = (n.request source method args).2.current.result? := by
  obtain ⟨steps, hunfailing, hsteps⟩ := leads_deliver (leads_publishWithin (deepestDelivery - 1))
    n.exchange.live.length { n with current := .make n.exchange .straight source method args }
  refine ⟨steps, hunfailing, ?_, rfl⟩
  rw [Request.run_append, ← hsteps]
  rfl

/-! ## Deliveries -/

theorem exchange_advance (n : Network) (s : Step) : (n.advance s).exchange = n.exchange.step s :=
  n.current.exchange_step (.bridge s)

/-- An answer to a request does not touch the bridge. -/
theorem exchange_respond (n : Network) (id : SubscriberId) (outcome : Option MethodOutcome) :
    (n.respond id outcome).exchange = n.exchange := by
  have htake : (n.step (.take id)).exchange = n.exchange := n.current.exchange_step (.take id)
  cases outcome with
  | none => exact (Request.exchange_step _ (.letGo id)).trans htake
  | some outcome => exact (Request.exchange_step _ (.answer id outcome)).trans htake

/-- Whatever is published, the bridge goes on from there, and deliveries end where they began. -/
structure Ends (publish : Network → Event → Network) : Prop where
  leads : ∀ (n : Network) e, n.Leads (publish n e)
  deliveries : ∀ (n : Network) e, n.exchange.Unfailing →
    (publish n e).exchange.deliveries = n.exchange.deliveries

/-- A member that publishes in reaction is done with that delivery when it returns, so the outer ones
are as before. -/
theorem deliveries_react (hpublish : Ends publish) (hn : n.exchange.Unfailing) (m : Member)
    (e : Event) : (n.react publish m e).exchange.deliveries = n.exchange.deliveries := by
  unfold react
  split
  · exact (congrArg Exchange.deliveries (n.exchange_advance (.unsubscribe m.id))).trans rfl
  · exact hpublish.deliveries n _ hn
  · exact (congrArg Exchange.deliveries (n.exchange_advance (.subscribe (.ofBool fun _ => true)))).trans
      rfl
  · exact congrArg Exchange.deliveries (n.exchange_respond _ _)
  · exact congrArg Exchange.deliveries (n.exchange_respond _ _)
  · rfl

variable {e : Event} {id : SubscriberId} {pending : List SubscriberId} {delivered : Nat}
  {outer : List Delivery}

/-- A visit takes the innermost delivery one subscriber further. -/
theorem deliveries_visit (hpublish : Ends publish) (hn : n.exchange.Unfailing)
    (h : n.exchange.deliveries = ⟨e, id :: pending, none, delivered⟩ :: outer) :
    ∃ delivered', (n.visit publish).exchange.deliveries = ⟨e, pending, none, delivered'⟩ :: outer := by
  have hvisited : n.Leads (n.advance .visit) := n.leads_step trivial
  have hconclude : ∀ (n' : Network) (brokeDown : Bool),
      n'.exchange.deliveries = ⟨e, pending, some id, delivered⟩ :: outer →
      ∃ delivered', (n'.advance (.conclude brokeDown)).exchange.deliveries
        = ⟨e, pending, none, delivered'⟩ :: outer := by
    intro n' brokeDown hbusy
    refine ⟨if brokeDown then delivered else delivered + 1, ?_⟩
    rw [exchange_advance, Exchange.step, Exchange.conclude, hbusy]
  rcases Exchange.visit_of_deliveries h with ⟨-, -, hvisit⟩ | ⟨-, -, hvisit⟩ | ⟨hfilter, -⟩
  · have hafter : (n.advance .visit).exchange.deliveries = ⟨e, pending, some id, delivered⟩ :: outer :=
      congrArg Exchange.deliveries ((n.exchange_advance .visit).trans hvisit)
    have hbusy : (n.advance .visit).exchange.busy? = some (e, id) := by
      rw [Exchange.busy?, hafter]
      rfl
    unfold visit
    dsimp only
    rw [hbusy]
    dsimp only
    split
    · exact hconclude _ false hafter
    next m _ =>
      refine hconclude _ _ ((deliveries_react hpublish ?_ m e).trans hafter)
      exact hvisited.unfailing hn
  · have hafter : (n.advance .visit).exchange.deliveries = ⟨e, pending, none, delivered⟩ :: outer :=
      congrArg Exchange.deliveries ((n.exchange_advance .visit).trans hvisit)
    have hbusy : (n.advance .visit).exchange.busy? = none := by
      rw [Exchange.busy?, hafter]
      rfl
    unfold visit
    dsimp only
    rw [hbusy]
    exact ⟨delivered, hafter⟩
  · exact absurd hfilter (hn id e)

/-- So many visits take a delivery so many subscribers further. What these do meanwhile begins and
ends within it. -/
theorem deliveries_visits (hpublish : Ends publish) (hn : n.exchange.Unfailing)
    (h : n.exchange.deliveries = ⟨e, pending, none, delivered⟩ :: outer) {visits : Nat}
    (hvisits : visits ≤ pending.length) :
    ∃ delivered', (visits.repeat (visit publish) n).exchange.deliveries
      = ⟨e, pending.drop visits, none, delivered'⟩ :: outer := by
  induction visits with
  | zero => exact ⟨delivered, h⟩
  | succ visits ih =>
    obtain ⟨delivered', hsofar⟩ := ih (Nat.le_of_succ_le hvisits)
    rw [List.drop_eq_getElem_cons hvisits] at hsofar
    exact deliveries_visit hpublish ((leads_visits hpublish.leads visits n).unfailing hn) hsofar

/-- The innermost delivery comes to its end after as many visits as it has subscribers left, and those
around it are as before. -/
theorem deliveries_deliver (hpublish : Ends publish) (hn : n.exchange.Unfailing)
    (h : n.exchange.deliveries = ⟨e, pending, none, delivered⟩ :: outer) :
    (n.deliver publish pending.length).2.exchange.deliveries = outer := by
  obtain ⟨delivered', hvisited⟩ := deliveries_visits hpublish hn h (Nat.le_refl _)
  rw [List.drop_length] at hvisited
  show (advance _ .finish).exchange.deliveries = outer
  rw [exchange_advance, Exchange.step, Exchange.finish, hvisited]

/-- The delivery of an event begins with everyone alive still to be asked. -/
theorem deliveries_publish (n : Network) (e : Event) :
    (n.advance (.publish .straight e)).exchange.deliveries
      = ⟨e, n.exchange.live, none, 0⟩ :: n.exchange.deliveries := by
  rw [exchange_advance]
  rfl

/-- A publication ends where it began, at every depth: the deliveries that it found under way are
under way afterwards, and no others. By induction on the depth. -/
theorem ends_publishWithin (depth : Nat) : Ends fun n e => (publishWithin depth n e).2 := by
  refine ⟨leads_publishWithin depth, ?_⟩
  induction depth with
  | zero => exact fun _ _ _ => rfl
  | succ depth ih =>
    intro n e hn
    have hbegins : n.Leads (n.advance (.publish .straight e)) := n.leads_step trivial
    exact deliveries_deliver ⟨leads_publishWithin depth, ih⟩ (hbegins.unfailing hn)
      (n.deliveries_publish e)

/-! ## Depth -/

/-- Two ways to publish do the same with information. -/
def Agree (publish publish' : Network → Event → Network) : Prop :=
  ∀ (n : Network) source args, n.exchange.Unfailing →
    publish n (.logEmitted source .info args) = publish' n (.logEmitted source .info args)

/-- Subscribers publish nothing but information, so two ways of publishing that agree on this make
them react alike. -/
theorem react_congr (h : Agree publish publish') (hn : n.exchange.Unfailing) (m : Member) (e : Event) :
    n.react publish m e = n.react publish' m e := by
  unfold react
  split
  · rfl
  · exact h n _ _ hn
  · rfl
  · rfl
  · rfl
  · rfl

/-- And they do not answer information with anything, so to information they react alike in any
case. -/
theorem react_info (n : Network) (m : Member) (source : String) (args : List Value) :
    n.react publish m (.logEmitted source .info args)
      = n.react publish' m (.logEmitted source .info args) := by
  unfold react
  split
  · rfl
  next h => exact absurd h nofun
  · rfl
  next h => exact absurd h nofun
  next h => exact absurd h nofun
  · rfl

/-- A visit is the same with two ways of publishing that agree on unfailing networks. -/
theorem visit_congr (h : Agree publish publish') (hn : n.exchange.Unfailing) :
    n.visit publish = n.visit publish' := by
  have hvisited : n.Leads (n.advance .visit) := n.leads_step trivial
  unfold visit
  dsimp only
  split
  · rfl
  next e id _ =>
    split
    · rfl
    next m _ =>
      have hreact := react_congr h
        (n := { n.advance .visit with noted := (m.name, e) :: (n.advance .visit).noted })
        (hvisited.unfailing hn) m e
      rw [hreact]

/-- Deliveries do the same where subscribers publish in ways that agree on information. -/
theorem deliver_congr (hpublish : Ends publish) (h : Agree publish publish')
    (hn : n.exchange.Unfailing) (visits : Nat) :
    n.deliver publish visits = n.deliver publish' visits := by
  have hvisits : visits.repeat (visit publish) n = visits.repeat (visit publish') n := by
    induction visits with
    | zero => rfl
    | succ visits ih =>
      show visit publish _ = visit publish' _
      rw [← ih]
      exact visit_congr h ((leads_visits hpublish.leads visits n).unfailing hn)
  rw [deliver, deliver, hvisits]

/-- An echo is not echoed. -/
theorem visit_info {source : String} {args : List Value}
    (h : n.exchange.deliveries = ⟨.logEmitted source .info args, pending, none, delivered⟩ :: outer)
    (hn : n.exchange.Unfailing) : n.visit publish = n.visit publish' := by
  have hevent : ∀ event id, (n.advance .visit).exchange.busy? = some (event, id) →
      event = .logEmitted source .info args := by
    intro event id hbusy
    rw [exchange_advance, Exchange.step] at hbusy
    rcases n.exchange.visit_cases with
      ⟨event', id', pending', delivered', outer', h', hvisit⟩ | ⟨-, hvisit⟩
    · obtain ⟨heq, rfl⟩ := List.cons.inj (h.symm.trans h')
      cases heq
      rcases hvisit with ⟨-, -, hvisit⟩ | ⟨-, -, hvisit⟩ | ⟨hfilter, -⟩
      · rw [hvisit] at hbusy
        exact (congrArg Prod.fst (Option.some.inj hbusy)).symm
      · rw [hvisit] at hbusy
        exact absurd hbusy.symm (Option.some_ne_none _)
      · exact absurd hfilter (hn id' _)
    · rw [hvisit, Exchange.busy?, h] at hbusy
      exact absurd hbusy.symm (Option.some_ne_none _)
  unfold visit
  dsimp only
  split
  · rfl
  next event id hbusy =>
    rw [hevent event id hbusy]
    split
    · rfl
    · rw [react_info]

/-- Whatever subscribers would publish, the delivery of information does the same. -/
theorem deliver_info {source : String} {args : List Value} (hpublish : Ends publish)
    (h : n.exchange.deliveries = ⟨.logEmitted source .info args, pending, none, delivered⟩ :: outer)
    (hn : n.exchange.Unfailing) :
    n.deliver publish pending.length = n.deliver publish' pending.length := by
  have hvisits : ∀ visits ≤ pending.length,
      visits.repeat (visit publish) n = visits.repeat (visit publish') n := by
    intro visits hle
    induction visits with
    | zero => rfl
    | succ visits ih =>
      obtain ⟨_, hsofar⟩ := deliveries_visits hpublish hn h (Nat.le_of_succ_le hle)
      show visit publish _ = visit publish' _
      rw [← ih (Nat.le_of_succ_le hle)]
      exact visit_info hsofar ((leads_visits hpublish.leads visits n).unfailing hn)
  rw [deliver, deliver, hvisits _ (Nat.le_refl _)]

/-- The delivery of information does not depend on how deep deliveries may nest within it. -/
theorem publishWithin_info (depth : Nat) (hn : n.exchange.Unfailing) (source : String)
    (args : List Value) : publishWithin (depth + 1) n (.logEmitted source .info args)
      = publishWithin 1 n (.logEmitted source .info args) := by
  have hbegins : n.Leads (n.advance (.publish .straight (.logEmitted source .info args))) :=
    n.leads_step trivial
  exact deliver_info (ends_publishWithin depth) (n.deliveries_publish _) (hbegins.unfailing hn)

/-- Deliveries nest as deep as they may, and no deeper, as long as no filter breaks down. -/
theorem publishWithin_eq_publish {depth : Nat} (h : deepestDelivery ≤ depth)
    (hn : n.exchange.Unfailing) (e : Event) : publishWithin depth n e = n.publish e := by
  obtain ⟨more, rfl⟩ := Nat.exists_eq_add_of_le' h
  have hbegins : n.Leads (n.advance (.publish .straight e)) := n.leads_step trivial
  refine deliver_congr (ends_publishWithin (more + 1)) ?_ (hbegins.unfailing hn) _
  intro n source args hn
  exact congrArg Prod.snd (publishWithin_info more hn source args)

/-- A request comes to the end of its delivery, and leaves the deliveries that it found under way as
they were. -/
theorem request_ends (hn : n.exchange.Unfailing) (source method : String) (args : Value) :
    (n.request source method args).2.exchange.deliveries = n.exchange.deliveries := by
  have hbegun : (Request.make n.exchange .straight source method args).exchange.deliveries
      = ⟨.methodRequested source method args, n.exchange.live, none, 0⟩ :: n.exchange.deliveries := rfl
  have hdelivered := deliveries_deliver
    (n := { n with current := .make n.exchange .straight source method args })
    (ends_publishWithin (deepestDelivery - 1)) hn hbegun
  refine Eq.trans (congrArg Exchange.deliveries ?_) hdelivered
  exact (Request.exchange_step _ .look).trans (Request.exchange_step _ .look)

end AppletHost.Bridge.Network
