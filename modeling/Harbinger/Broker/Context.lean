import Harbinger.Broker.Report

/-! What routing establishes of a message holds of every message the broker ever accepted:
the rule that carries a property from `route_message` to all of history, and the description
of a message's features by its routing context. -/

namespace Harbinger
open Container Ledger Ml

namespace System
variable {σ : Type}

/-- A property of requests, one of submitted messages, one of routed messages, and one of the
predictor, such that routing a submitted message gives a routed one. -/
structure IngressRule [Inference σ] (cfg : HarbingerConfig) (allowed : SubmitRequest → Prop)
    (fresh routed : Message → Prop) (learnt : Option σ → Prop) : Prop where
  submit : ∀ (b : Broker σ) req idAt arrivalAt, allowed req → fresh (b.accept req idAt arrivalAt)
  route : ∀ (b : Broker σ) msg r, fresh msg → learnt b.predictor →
    routed (b.routeMessage cfg msg r).1 ∧ learnt (b.routeMessage cfg msg r).2.predictor
  freeze : ∀ msg, routed msg → routed msg.frozen
  learn : ∀ (b : Broker σ) update first second, learnt b.predictor → learnt (b.learn update first second).predictor

structure Ingress (fresh routed : Message → Prop) (learnt : Option σ → Prop) (s : System σ) : Prop where
  submitting : ∀ msg, .submitting msg ∈ s.tasks → fresh msg
  routing : ∀ msg, .routed msg ∈ s.tasks → routed msg
  entered : ∀ msg ∈ accepted s.history, routed msg
  predictor : learnt s.broker.predictor

variable {allowed : SubmitRequest → Prop} {fresh routed : Message → Prop} {learnt : Option σ → Prop}
  {s s' : System σ}

theorem Ingress.initial {b : Broker σ} (start : learnt b.predictor) (now : Time) :
    Ingress fresh routed learnt (System.initial b now) :=
  ⟨fun _ member => (List.not_mem_nil member).elim, fun _ member => (List.not_mem_nil member).elim,
    fun _ member => (List.not_mem_nil member).elim, start⟩

theorem Ingress.steady (ingress : Ingress fresh routed learnt s) (steady : Steady s s')
    (entered : ∀ msg ∈ accepted s'.history, routed msg) : Ingress fresh routed learnt s' where
  submitting := fun msg member => ingress.submitting msg (steady.tasks _ member rfl)
  routing := fun msg member => ingress.routing msg (steady.tasks _ member rfl)
  entered := entered
  predictor := steady.predictor ▸ ingress.predictor

theorem accepted_unchanged {history events : List Event} (neutral : ∀ event ∈ events, event.accepted? = none) :
    accepted (history ++ events) = accepted history := by
  rw [accepted_append, accepted, accepted, List.filterMap_eq_nil_iff.mpr neutral, List.append_nil]

variable [Inference σ] {cfg : HarbingerConfig} {action : Action}

theorem Ingress.step (rule : IngressRule cfg allowed fresh routed learnt)
    (permitted : ∀ req idAt arrivalAt, action = .submit req idAt arrivalAt → allowed req)
    (ingress : Ingress fresh routed learnt s) (report : Report cfg s action s') : Ingress fresh routed learnt s' := by
  cases report with
  | quiet steady events history neutral =>
    refine ingress.steady steady ?_
    rw [history, accepted_unchanged fun event member => (neutral event member).1]
    exact ingress.entered
  | submitted req idAt arrivalAt asked tasks predictor history =>
    refine ⟨fun msg member => ?_, fun msg member => ?_, history ▸ ingress.entered, predictor ▸ ingress.predictor⟩
    · rw [tasks] at member
      rcases List.mem_append.mp member with old | new
      · exact ingress.submitting msg old
      · cases List.mem_singleton.mp new
        exact rule.submit _ _ _ _ (permitted req idAt arrivalAt asked)
    · rw [tasks] at member
      rcases List.mem_append.mp member with old | new
      · exact ingress.routing msg old
      · cases List.mem_singleton.mp new
  | routed msg found r tasks predictor history =>
    have result := rule.route s.broker msg r (ingress.submitting msg found) ingress.predictor
    refine ⟨fun other member => ?_, fun other member => ?_, history ▸ ingress.entered, predictor ▸ result.2⟩
    · rcases tasks _ member rfl with old | new
      · exact ingress.submitting other old
      · cases new
    · rcases tasks _ member rfl with old | new
      · exact ingress.routing other old
      · cases new
        exact result.1
  | accepted steady msg found stamp stamped subject history =>
    refine ingress.steady steady ?_
    rw [history, accepted_append]
    exact List.forall_mem_append.mpr
      ⟨ingress.entered, List.forall_mem_singleton.mpr (rule.freeze msg (ingress.routing msg found))⟩
  | judged steady occasion queued reading hand history =>
    refine ingress.steady steady ?_
    rw [history, accepted_unchanged (by simp [judgeExpired, Event.accepted?])]
    exact ingress.entered
  | buried steady msg since trigger queued stamp stamped subject history =>
    exact ingress.steady steady (history ▸ ingress.entered)
  | settled steady id entry live numbered kind measurement asked r stamped subject history =>
    refine ingress.steady steady ?_
    rw [history, accepted_append, (verdict_reports ..).1, List.append_nil]
    exact ingress.entered
  | learned update first second tasks predictor history =>
    refine ⟨fun msg member => ingress.submitting msg (tasks ▸ member),
      fun msg member => ingress.routing msg (tasks ▸ member), history ▸ ingress.entered, ?_⟩
    rw [predictor]
    exact rule.learn _ _ _ _ ingress.predictor

theorem Ingress.run (checked : cfg.Checked) (rule : IngressRule cfg (fun _ => True) fresh routed learnt)
    (reached : Reached cfg s) (ingress : Ingress fresh routed learnt s) {actions : List Action}
    (ran : Transition.run (System.step cfg) actions s = some s') : Ingress fresh routed learnt s' := by
  refine (Transition.run_invariant (fun next => Reached cfg next ∧ Ingress fresh routed learnt next) ?_
    ⟨reached, ingress⟩ ran).2
  intro middle action next ⟨known, inner⟩ moved
  exact ⟨known.step checked moved, inner.step rule (fun _ _ _ _ => trivial) (step_report known.sound moved)⟩

end System

namespace Broker
variable {σ : Type}

/-- The context describes the message's features as they were extracted. -/
structure Described (decimals : Decimals) (ingress : IngressFeatureConfig) (msg : Message)
    (context : RoutingContext) : Prop where
  schema : context.featureSchemaVersion = ingress.schema.version
  features : context.features = (extract decimals ingress.schema msg.payload.length msg.headers).features
  validity : context.featureValidity = (extract decimals ingress.schema msg.payload.length msg.headers).validity

theorem notePrediction_eq (numLevels : Nat) (context : RoutingContext) (prediction : DurationPrediction) :
    ∃ estimate bucket fallback, notePrediction numLevels context prediction = { context with
      predictedProcessingTimeMs := estimate, predictedBucket := bucket, fallbackReason := fallback } := by
  unfold notePrediction
  split
  · split
    · exact ⟨_, _, _, rfl⟩
    · exact ⟨_, _, _, rfl⟩
  all_goals exact ⟨_, _, _, rfl⟩

variable [Inference σ] {cfg : HarbingerConfig}

theorem ingressContext_described {ingress : IngressFeatureConfig} (featured : cfg.ingressFeatures = some ingress)
    (msg : Message) : Described (Inference.decimals σ) ingress msg (ingressContext σ cfg msg) := by
  unfold ingressContext
  rw [featured]
  exact ⟨rfl, rfl, rfl⟩

theorem routeMessage_described {ingress : IngressFeatureConfig} (featured : cfg.ingressFeatures = some ingress)
    (b : Broker σ) (msg : Message) (r : PredictReadings) :
    ∃ context, (b.routeMessage cfg msg r).1.routingContext = some context ∧
      Described (Inference.decimals σ) ingress (b.routeMessage cfg msg r).1 context := by
  have described : ∀ msg, Described (Inference.decimals σ) ingress msg (ingressContext σ cfg msg) :=
    ingressContext_described featured
  unfold routeMessage
  split
  next p routing _ _ =>
    refine ⟨_, rfl, ?_⟩
    simp only [predictRoute]
    obtain ⟨estimate, bucket, fallback, noted⟩ := notePrediction_eq cfg.numLevels.toNat _ _
    rw [noted]
    exact { described (assignDefaults cfg msg) with }
  · rw [if_pos (by rw [featured]; rfl)]
    exact ⟨_, rfl, { described (assignDefaults cfg msg) with }⟩

omit [Inference σ] in
theorem Described.of_content {decimals : Decimals} {ingress : IngressFeatureConfig} {msg other : Message}
    {context : RoutingContext} (described : Described decimals ingress msg context)
    (same : msg.content = other.content) : Described decimals ingress other context := by
  have payload : msg.payload = other.payload :=
    show msg.content.payload = other.content.payload from congrArg Message.payload same
  have headers : msg.headers = other.headers :=
    show msg.content.headers = other.content.headers from congrArg Message.headers same
  exact ⟨described.schema, by rw [← payload, ← headers, described.features],
    by rw [← payload, ← headers, described.validity]⟩

end Broker

/-- Every message in the care of a broker with features carries a context that describes them. -/
theorem System.Reachable.described {σ : Type} [Inference σ] {cfg : HarbingerConfig} {s : System σ}
    (reachable : s.Reachable cfg) {ingress : IngressFeatureConfig} (featured : cfg.ingressFeatures = some ingress)
    {msg : Message} (member : msg ∈ s.ledger.census) :
    ∃ context, msg.routingContext = some context ∧ Broker.Described (Inference.decimals σ) ingress msg context := by
  have conserved := reachable.reached.lawful.conserved
  have checked := reachable.checked
  obtain ⟨config, predictor, instanceToken, counter, b, now, actions, valid, made, ran⟩ := reachable
  have rule : IngressRule cfg (fun _ => True) (fun _ => True) (fun msg => ∃ context, msg.routingContext = some context ∧
      Broker.Described (Inference.decimals σ) ingress msg context) (fun _ : Option σ => True) := {
    submit := fun _ _ _ _ _ => trivial
    route := fun b msg r _ _ => ⟨b.routeMessage_described featured msg r, trivial⟩
    freeze := fun _ ⟨context, routed, described⟩ => ⟨context, routed, described.of_content rfl⟩
    learn := fun _ _ _ _ _ => trivial }
  have inner := Ingress.run checked rule (Reached.initial made now) (.initial trivial now) ran
  obtain ⟨source, known, same⟩ := conserved.origin member
  obtain ⟨context, routed, described⟩ := inner.entered source known
  have context_eq : source.routingContext = msg.routingContext :=
    show source.content.routingContext = msg.content.routingContext from congrArg Message.routingContext same
  exact ⟨context, context_eq.symm.trans routed, described.of_content same⟩

theorem System.condemned_census {σ : Type} {s : System σ} {item : Message × Time} (held : item ∈ s.condemned) :
    item.1 ∈ s.ledger.census := by
  simp only [census, Multiset.mem_add]
  exact Or.inl (Or.inl (Or.inl (Or.inr (Multiset.mem_map_of_mem Prod.fst held))))

theorem System.live_census {σ : Type} {s : System σ} {id : Bytes} {entry : InFlightEntry}
    (live : s.live.lookup id = some entry) : entry.message.frozen ∈ s.ledger.census := by
  have leased : entry.lease ∈ s.ledger.leased :=
    Multiset.mem_coe.mpr (List.mem_map.mpr ⟨⟨id, entry⟩, AList.mem_lookup_iff.mp live, rfl⟩)
  simp only [census, Multiset.mem_add]
  exact Or.inl (Or.inl (Or.inr (Multiset.mem_map_of_mem Lease.message leased)))

end Harbinger
