import Harbinger.Broker.Shadow
import Harbinger.Ml.Extraction
import Harbinger.Ml.Record

/-! With predictive routing off, nothing of a message reaches the feedback but its size and the
headers that the schema lists. The broker is run under a veil that leaves only those, and two
runs that differ in the rest look the same under it. -/

namespace Harbinger
open Ml Transition

def producerIdHeader : Bytes := ascii "__producer_id"

/-- The listed headers, in the order of the list. -/
def Ml.allowed (names : List Bytes) (headers : Headers) : Headers :=
  names.foldr (fun name rest => match headers.lookup name with
    | none => rest
    | some value => rest.insert name value) ∅

section Allowed
variable {names : List Bytes} {first second : Headers}

theorem allowed_congr (agree : ∀ name ∈ names, first.lookup name = second.lookup name) :
    allowed names first = allowed names second := by
  induction names with
  | nil => rfl
  | cons name rest known =>
    have others := known fun other member => agree other (List.mem_cons_of_mem _ member)
    simp only [allowed, List.foldr_cons, agree name (List.mem_cons_self ..)] at others ⊢
    rw [others]

theorem lookup_allowed (names : List Bytes) (headers : Headers) (name : Bytes) :
    (allowed names headers).lookup name = if name ∈ names then headers.lookup name else none := by
  induction names with
  | nil => rfl
  | cons other rest known =>
    have unfolded : allowed (other :: rest) headers = match headers.lookup other with
      | none => allowed rest headers
      | some value => (allowed rest headers).insert other value := rfl
    rw [unfolded]
    by_cases same : name = other
    · subst same
      rw [if_pos (List.mem_cons_self ..)]
      cases found : headers.lookup name with
      | none =>
        dsimp only
        rw [known, found, ite_self]
      | some value => exact AList.lookup_insert _
    · simp only [List.mem_cons, same, false_or]
      cases headers.lookup other with
      | none => exact known
      | some value => exact (AList.lookup_insert_ne same).trans known

end Allowed

def Ml.FeatureSchema.names (schema : FeatureSchema) : List Bytes := schema.headers.map HeaderFeature.name

/-- Only the size of the payload and the headers of the schema are left of a message, and of a
request; the producer is known anyway. -/
def Veil.allowlist (schema : FeatureSchema) (free : producerIdHeader ∉ schema.names) : Veil where
  cover := {
    payload := fun payload => List.replicate payload.length 0
    headers := allowed (producerIdHeader :: schema.names) }
  request req := { req with
    payload := List.replicate req.payload.length 0
    headers := allowed schema.names req.headers }
  keep := true
  loyal _ := rfl
  blank := rfl
  producer _ := rfl
  ttl _ := rfl
  payload _ := rfl
  headers req := by
    have others : allowed schema.names (req.headers.insert producerIdHeader req.producerId) =
        allowed schema.names req.headers :=
      allowed_congr fun name listed => AList.lookup_insert_ne fun same => free (same ▸ listed)
    have own : (req.headers.insert producerIdHeader req.producerId).lookup producerIdHeader = some req.producerId :=
      AList.lookup_insert _
    change _ = match (req.headers.insert producerIdHeader req.producerId).lookup producerIdHeader with
      | none => allowed schema.names (req.headers.insert producerIdHeader req.producerId)
      | some value => (allowed schema.names (req.headers.insert producerIdHeader req.producerId)).insert
        producerIdHeader value
    rw [own, others]
    rfl

theorem agree_allowed (schema : FeatureSchema) (headers : Headers) :
    schema.Agree (allowed (producerIdHeader :: schema.names) headers) headers := by
  intro field member
  have listed : field.name ∈ producerIdHeader :: schema.names :=
    List.mem_cons_of_mem _ (List.mem_map_of_mem member)
  rw [lookup_allowed, if_pos listed]

/-- Two requests of one producer that differ only in what the schema does not list. -/
structure SubmitRequest.Alike (schema : FeatureSchema) (first second : SubmitRequest) : Prop where
  producer : first.producerId = second.producerId
  ttl : first.ttlMs = second.ttlMs
  size : first.payload.length = second.payload.length
  headers : schema.Agree first.headers second.headers

/-- The same action, but for the contents of a request. -/
inductive Action.Alike (schema : FeatureSchema) : Action → Action → Prop
  | same (action : Action) : Action.Alike schema action action
  | submit {first second : SubmitRequest} (alike : first.Alike schema second) (idAt arrivalAt : Time) :
    Action.Alike schema (.submit first idAt arrivalAt) (.submit second idAt arrivalAt)

section Veiled
variable {schema : FeatureSchema} (free : producerIdHeader ∉ schema.names)

theorem SubmitRequest.Alike.veil {first second : SubmitRequest} (alike : first.Alike schema second) :
    (Veil.allowlist schema free).request first = (Veil.allowlist schema free).request second := by
  have headers : allowed schema.names first.headers = allowed schema.names second.headers := by
    apply allowed_congr
    intro name listed
    obtain ⟨field, member, rfl⟩ := List.mem_map.mp listed
    exact alike.headers field member
  simp only [Veil.allowlist, alike.producer, alike.ttl, alike.size, headers]

theorem Action.Alike.veil {first second : Action} (alike : Action.Alike schema first second) :
    first.veil (.allowlist schema free) = second.veil (.allowlist schema free) := by
  cases alike with
  | same => rfl
  | submit alike idAt arrivalAt => exact congrArg (Action.submit · idAt arrivalAt) (alike.veil free)

theorem veil_actions {actions others : List Action} (alike : List.Forall₂ (Action.Alike schema) actions others) :
    actions.map (Action.veil (.allowlist schema free)) = others.map (Action.veil (.allowlist schema free)) := by
  induction alike with
  | nil => rfl
  | cons first _ rest => rw [List.map_cons, List.map_cons, first.veil free, rest]

variable {σ : Type} [Inference σ] {cfg : HarbingerConfig}

theorem ingressContext_allowlist (configured : ∀ ingress ∈ cfg.ingressFeatures, ingress.schema = schema)
    (msg : Message) : Broker.ingressContext σ cfg (msg.cover (Veil.allowlist schema free).cover) =
      Broker.ingressContext σ cfg msg := by
  unfold Broker.ingressContext
  cases features : cfg.ingressFeatures with
  | none => rfl
  | some ingress =>
    obtain rfl := configured ingress features
    have size : (msg.cover (Veil.allowlist ingress.schema free).cover).payload.length = msg.payload.length :=
      List.length_replicate ..
    have agree : ingress.schema.Agree (msg.cover (Veil.allowlist ingress.schema free).cover).headers msg.headers :=
      agree_allowed ingress.schema msg.headers
    simp only [size, agree.extract]

theorem routes_allowlist (configured : ∀ ingress ∈ cfg.ingressFeatures, ingress.schema = schema)
    (static : cfg.predictiveRouting = none) : Broker.Routes σ (.allowlist schema free) cfg := by
  intro b msg r
  have context : Broker.ingressContext σ cfg (Broker.assignDefaults cfg (msg.cover (Veil.allowlist schema free).cover)) =
      Broker.ingressContext σ cfg (Broker.assignDefaults cfg msg) :=
    ingressContext_allowlist free configured (Broker.assignDefaults cfg msg)
  have routed : ∀ (any : Broker σ) (other : Message), any.routeMessage cfg other r =
      if cfg.ingressFeatures.isSome then
        ({ Broker.assignDefaults cfg other with routingContext := some {
            Broker.ingressContext σ cfg (Broker.assignDefaults cfg other) with
            ingressPriority := (Broker.assignDefaults cfg other).priority } }, any)
      else (Broker.assignDefaults cfg other, any) := by
    intro any other
    unfold Broker.routeMessage
    rw [static]
    cases any.predictor <;> rfl
  have kept : cfg.veil (Veil.allowlist schema free).keep = cfg := rfl
  rw [kept, routed, routed, context]
  split <;> rfl

omit [Inference σ] in
theorem neutral_allowlist (s : System σ) (action : Action) : s.Neutral (.allowlist schema free) action := by
  right
  cases action with
  | dequeue task => exact fun _ _ _ _ _ => rfl
  | install task cancelled fault leaseAt pullAt => exact fun _ _ _ _ => rfl
  | _ => trivial

/-- Two runs that differ in what the veil covers end in states that look the same under it. -/
theorem run_alike (configured : ∀ ingress ∈ cfg.ingressFeatures, ingress.schema = schema)
    (static : cfg.predictiveRouting = none) {actions others : List Action}
    (alike : List.Forall₂ (Action.Alike schema) actions others) (start : System σ) {s : System σ}
    (ran : run (System.step cfg) actions start = some s) :
    ∃ t, run (System.step cfg) others start = some t ∧
      t.veil (.allowlist schema free) = s.veil (.allowlist schema free) := by
  have commute : ∀ (before : System σ) (action : Action),
      (before.step cfg action).map (System.veil (.allowlist schema free)) =
        (before.veil (.allowlist schema free)).step cfg (action.veil (.allowlist schema free)) := by
    intro before action
    exact before.step_veil _ cfg (routes_allowlist free configured static) (neutral_allowlist free before action)
      fun _ _ _ _ => rfl
  have seen : (run (System.step cfg) others start).map (System.veil (.allowlist schema free)) =
      some (s.veil (.allowlist schema free)) := by
    calc (run (System.step cfg) others start).map (System.veil (.allowlist schema free))
      _ = run (System.step cfg) (others.map (Action.veil (.allowlist schema free)))
          (start.veil (.allowlist schema free)) := run_renamed _ _ _ commute others start
      _ = run (System.step cfg) (actions.map (Action.veil (.allowlist schema free)))
          (start.veil (.allowlist schema free)) := by rw [veil_actions free alike]
      _ = (run (System.step cfg) actions start).map (System.veil (.allowlist schema free)) :=
        (run_renamed _ _ _ commute actions start).symm
      _ = some (s.veil (.allowlist schema free)) := by rw [ran, Option.map_some]
  exact Option.map_eq_some_iff.mp seen

end Veiled

theorem producerIdHeader_free {schema : FeatureSchema} (checked : schema.Checked) : producerIdHeader ∉ schema.names := by
  intro listed
  obtain ⟨field, member, same⟩ := List.mem_map.mp listed
  have plain := (checked.named field member).2.2
  rw [same] at plain
  exact plain (by decide)

section Sample

/-- A schema with one listed header. -/
def sampleListed : FeatureSchema where
  version := ascii "v1"
  headers := [{ name := ascii "job", type := .categorical, encoding := .hash }]

def sampleListedConfig : HarbingerConfig :=
  { (sampleShadow none).static with ingressFeatures := some ⟨sampleListed, ascii "policy"⟩, feedback := true }

/-- A message with a listed and an unlisted header. -/
def sampleSecretRequest (secret : Bytes) : SubmitRequest where
  producerId := ascii "producer-0"
  payload := secret
  headers := (AList.insert (ascii "secret") secret ∅).insert (ascii "job") (ascii "resize")

def sampleSecret (secret : Bytes) : List Action :=
  [.registerProducer, .submit (sampleSecretRequest secret) 0 0, .route 0 ⟨0, 0, 0⟩, .enqueue 0 0 ⟨0, 0⟩]

theorem sampleSecret_alike (first second : Bytes) (size : first.length = second.length) :
    List.Forall₂ (Action.Alike sampleListed) (sampleSecret first) (sampleSecret second) := by
  have agree : sampleListed.Agree (sampleSecretRequest first).headers (sampleSecretRequest second).headers := by
    intro field member
    obtain rfl := List.mem_singleton.mp member
    have known : ∀ secret, (sampleSecretRequest secret).headers.lookup (ascii "job") = some (ascii "resize") :=
      fun secret => AList.lookup_insert _
    exact (known first).trans (known second).symm
  have alike : (sampleSecretRequest first).Alike sampleListed (sampleSecretRequest second) := ⟨rfl, rfl, size, agree⟩
  exact .cons (.same _) (.cons (.submit alike 0 0) (.cons (.same _) (.cons (.same _) .nil)))

end Sample

end Harbinger
