import Harbinger.Broker.Placement

/-! Which snapshots a broker restores. The context of a snapshot joins the routing version and
the key policy with bars. A file is restored only under the context it was saved under, and
where neither the version nor the job header has a bar, only under the same key policy. -/

namespace Harbinger
open Codec Ml

/-- The byte that separates the parts of a context. -/
def bar : UInt8 := 124

theorem cut_at_bar {head other tail rest : Bytes} (free : bar ∉ head) (free' : bar ∉ other)
    (same : head ++ bar :: tail = other ++ bar :: rest) : head = other ∧ tail = rest := by
  induction head generalizing other with
  | nil =>
    cases other with
    | nil => exact ⟨rfl, (List.cons.inj same).2⟩
    | cons byte other => exact absurd (List.mem_cons.mpr (.inl (List.cons.inj same).1)) free'
  | cons byte head known =>
    cases other with
    | nil => exact absurd (List.mem_cons.mpr (.inl (List.cons.inj same).1.symm)) free
    | cons first other =>
      obtain ⟨rfl, inner⟩ := List.cons.inj same
      obtain ⟨rfl, equal⟩ := known (fun member => free (List.mem_cons_of_mem _ member))
        (fun member => free' (List.mem_cons_of_mem _ member)) inner
      exact ⟨rfl, equal⟩

namespace Ml
variable {platform : Platform} {host : Host} {c : PerKeyPredictorConfig}

theorem bounded_of_parsed {context file : Bytes} {contents : SnapshotContents}
    (accepted : (parseSnapshot host c context file).1 = .ok contents) : file.length ≤ maxSnapshotBytes := by
  by_contra large
  rw [parseSnapshot, if_pos (.inl (not_le.mp large))] at accepted
  cases accepted

/-- A text that is read back was not longer than the limit. -/
theorem getText_short {text after : Bytes} {limit : Nat} (small : text.length < 2 ^ 32) {β : Type}
    {next : Bytes → Reader β} {result : β} {start last : Cursor} (inside : start.Inside)
    (remains : start.rest = putText text ++ after) (ran : (getText limit >>= next).start start = (.ok result, last)) :
    text.length ≤ limit := by
  simp only [getText, bind_assoc] at ran
  rw [putText, List.append_assoc] at remains
  obtain ⟨_, _, _, ran⟩ := (get32_reads small).run inside remains ran
  exact not_lt.mp (Reader.run_refuse ran).1

/-- The writer and the reader of a file may be different machines. -/
theorem context_of_saved {writer : Host} {p : PerKeyPredictor platform} {now : Time} {context other : Bytes}
    {contents : SnapshotContents} (accepted : (parseSnapshot host c other (p.save writer now context)).1 = .ok contents) :
    context = other := by
  have bounded := bounded_of_parsed accepted
  rw [PerKeyPredictor.parseSnapshot_signed host _ _ _ (p.save_signed writer now context) bounded, PerKeyPredictor.snapshotBody,
    List.drop_left] at accepted
  have small : context.length < 2 ^ 32 := by
    have part : context.length ≤ (p.save writer now context).length := by
      simp only [PerKeyPredictor.save, PerKeyPredictor.snapshotBody, putText, List.length_append]
      omega
    have limit : maxSnapshotBytes < 2 ^ 32 := by decide
    omega
  rcases ran : (readSnapshot host c other).start _ with ⟨outcome, last⟩
  rw [ran] at accepted
  dsimp only at accepted
  subst accepted
  simp only [readSnapshot, readPreamble, bind_assoc] at ran
  obtain ⟨_, inside, remains, ran⟩ := (get32_reads (n := snapshotVersion) (by decide)).run
    (PerKeyPredictor.inside_start _) (by simp only [Cursor.rest, List.drop_zero, List.append_assoc]; rfl) ran
  obtain ⟨_, inside, remains, ran⟩ := (get32_reads (by decide)).run inside remains (Reader.run_refuse ran).2
  have passed := (Reader.run_refuse ran).2
  obtain ⟨_, _, _, ran⟩ := (getText_reads (getText_short small inside remains passed) (by decide)).run inside remains passed
  exact not_not.mp (Reader.run_refuse ran).1

end Ml

/-- A context with its first two bars cut out. -/
theorem snapshotContext_eq (routing : PredictiveRoutingConfig) :
    snapshotContext routing = routing.routingPolicyVersion ++ bar :: (ascii "key=" ++ (routing.key.jobHeader ++
      bar :: ((if routing.key.scopeByProducer then ascii "scoped" else ascii "unscoped") ++ sizePolicyLabel routing.key))) := by
  rw [snapshotContext]
  split <;> simp only [List.append_assoc] <;> rfl

/-- Behind the scope, the texts of two policies differ at the latest in the letter after the size. -/
theorem scope_label_inj {first second : PredictorKeyPolicy} (set : first.sizeSource = .header ↔ first.sizeHeader ≠ [])
    (set' : second.sizeSource = .header ↔ second.sizeHeader ≠ [])
    (same : (if first.scopeByProducer then ascii "scoped" else ascii "unscoped") ++ sizePolicyLabel first =
      (if second.scopeByProducer then ascii "scoped" else ascii "unscoped") ++ sizePolicyLabel second) :
    first.scopeByProducer = second.scopeByProducer ∧ first.sizeSource = second.sizeSource ∧
      first.sizeHeader = second.sizeHeader := by
  obtain ⟨_, byProducer, _, source, header⟩ := first
  obtain ⟨_, byProducer', _, source', header'⟩ := second
  have plain : ascii "scoped" = [115, 99, 111, 112, 101, 100] := by decide +kernel
  have without : ascii "unscoped" = [117, 110, 115, 99, 111, 112, 101, 100] := by decide +kernel
  have payload : ascii "|size=payload" = [124, 115, 105, 122, 101, 61, 112, 97, 121, 108, 111, 97, 100] := by decide +kernel
  have named : ascii "|size=header:" = [124, 115, 105, 122, 101, 61, 104, 101, 97, 100, 101, 114, 58] := by decide +kernel
  cases byProducer <;> cases byProducer' <;> cases source <;> cases source' <;>
    simp_all [sizePolicyLabel]

variable {config cfg : HarbingerConfig} {routing : PredictiveRoutingConfig}

/-- The size header is set exactly when it is the source of sizes. -/
theorem validateConfig_sizeHeader (valid : validateConfig config = .ok cfg) (routed : cfg.predictiveRouting = some routing) :
    routing.key.sizeSource = .header ↔ routing.key.sizeHeader ≠ [] := by
  obtain ⟨_, _, checked⟩ := validateConfig_routing valid routed
  simp only [validateRouting, bind_ok, reject_ok, ne_eq, not_not, eq_iff_iff] at checked
  obtain ⟨_, _, _, _, _, _, _, _, _, sized, _, _, same⟩ := checked
  obtain rfl := Except.ok.inj same
  exact sized

section Sample

/-- A routing version and a job header, with snapshots. -/
def samplePolicy (version jobHeader : String) : PredictiveRoutingConfig where
  key := { jobHeader := ascii jobHeader }
  predictor := { samplePredictorConfig with maxKeys := 16384 }
  routingPolicyVersion := ascii version
  snapshotPath := some (ascii "predictor.bin")

def samplePolicyConfig (version jobHeader : String) : HarbingerConfig where
  numLevels := 2
  predictiveRouting := some (samplePolicy version jobHeader)

def sampleMoved (routing routing' : PredictiveRoutingConfig) : Except String Nat :=
  ((PerKeyPredictor.sampleCapped 16384).load Host.plain 7 (snapshotContext routing')
    ((PerKeyPredictor.sampleTaught 16384).save Host.plain 0 (snapshotContext routing))).outcome

end Sample

end Harbinger
