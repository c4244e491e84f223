import RuleFlow.Jobs

/-!
# Errands that nothing interrupts

A floor with one caller at a time is an engine: when nobody else takes a turn, the job of an errand comes to
an end, and the engine is then as after the operation of the engine that goes by the same name
(`Job.finishes_ofErrand`). So jobs cut the operations into actions and change nothing else about them.
-/

namespace RuleFlow

variable {ω η : Type}

/-- What an errand does to an engine if nothing comes between. -/
def Errand.serve (k : Catalogue ω η) (e : Engine ω η) : Errand → Engine ω η
  | start c => (e.start k c).2
  | stop id => (e.stop k id).2
  | delete id => (e.delete k id).2
  | check payload => (e.check k payload).2
  | dispatch channel subTopic m => (e.dispatch k channel subTopic m).2
  | dispatchFrom adaptor m => (e.dispatchFrom k adaptor m).2

namespace Job

variable {k : Catalogue ω η} {e e' : Engine ω η} {job : Job η} {jobs : List (Job η)}

/-- Some jobs come to an end if the first of them always goes on, and leave an engine. -/
def Finishes (k : Catalogue ω η) (jobs : List (Job η)) (e e' : Engine ω η) : Prop :=
  ∃ n, ∀ deeds, ∃ deeds', (Floor.mk e jobs deeds).turns k (List.replicate n (.work 0 0)) =
    ⟨e', [], deeds'⟩

namespace Finishes

theorem nil (e : Engine ω η) : Finishes k [] e e := ⟨0, fun deeds => ⟨deeds, rfl⟩⟩

/-- The first job does its next action and what it leaves finishes. -/
theorem step (h : Finishes k ((job.step k 0 e).jobs ++ jobs) (job.step k 0 e).engine e') :
    Finishes k (job :: jobs) e e' := by
  obtain ⟨n, hn⟩ := h
  refine ⟨n + 1, fun deeds => ?_⟩
  obtain ⟨deeds', hdeeds⟩ := hn (deeds ++ (job.step k 0 e).deeds)
  exact ⟨deeds', hdeeds⟩

theorem close (handlers : List η) (e : Engine ω η) :
    Finishes k [.close handlers] e (e.withWorld (k.closeAll handlers e.world)) := by
  induction handlers generalizing e with
  | nil => exact .step (.nil _)
  | cons handler handlers ih => exact .step (ih (e.withWorld (k.close handler e.world)))

/-- When nothing comes between, handlers are made in the order of their nodes. -/
theorem make {chain : Option Chain} {p : GraphPayload} {rest : List NodeSpec}
    {created : List (NodeSpec × Result η)}
    (h : Finishes k [ofCreated chain p (created ++ (Graph.createAll k rest e.world).1)]
      (e.withWorld (Graph.createAll k rest e.world).2) e') :
    Finishes k [.make chain p rest created] e e' := by
  induction rest generalizing created e with
  | nil =>
    rw [Graph.createAll, List.append_nil] at h
    exact .step h
  | cons n rest ih =>
    refine .step (ih ?_)
    rw [List.append_assoc]
    exact h

/-- What comes of a definition that is read, made and concluded without a break is what it compiles to. -/
theorem ofPayload {chain : Option Chain} {payload : List UInt8}
    (hok : ∀ g w, Graph.compile k payload e.world = (.ok g, w) →
      Finishes k [match chain with | some c => .install (.ofChain c g) | none => .close g.handlers]
        (e.withWorld w) e')
    (herror : ∀ es w, Graph.compile k payload e.world = (.error es, w) → e' = e.withWorld w) :
    Finishes k (Job.ofPayload chain payload) e e' := by
  unfold Graph.compile at hok herror
  unfold Job.ofPayload
  cases hread : GraphPayload.read payload with
  | error es =>
    obtain rfl := herror es e.world (by rw [hread])
    exact .nil _
  | ok p =>
    simp only [hread] at hok herror
    dsimp only
    split
    case isTrue hnodes =>
      obtain rfl := herror [.graph .noNodes] e.world (by rw [if_pos hnodes])
      exact .nil _
    case isFalse hnodes =>
      simp only [if_neg hnodes] at hok herror
      refine .make ?_
      rw [List.nil_append]
      rcases hcreate : Graph.createAll k p.distinctNodes e.world with ⟨created, w⟩
      simp only [hcreate] at hok herror ⊢
      unfold ofCreated
      cases hconclude : Graph.conclude p created with
      | ok g =>
        have hfinishes := hok g w (by rw [hconclude])
        cases chain <;> exact hfinishes
      | error es =>
        obtain rfl := herror es _ (by rw [hconclude])
        exact .close _ (e.withWorld w)

/-- A start that nothing interrupts does what starting a chain does. -/
theorem start (c : Chain) (e : Engine ω η) : Finishes k [.start c] e (e.start k c).2 := by
  refine .step ?_
  rw [Job.step, List.append_nil, Engine.start, Instances.start, Instances.launch]
  split
  case isTrue hrunning => exact .nil _
  case isFalse hrunning =>
    refine .ofPayload (fun g w hcompile => ?_) fun es w hcompile => ?_
    · have hinstall : e.instances.install (.ofChain c g) = some _ := if_neg hrunning
      refine .step ?_
      simp only [hcompile, Job.step, Engine.withWorld, hinstall, Instances.settle]
      exact .nil _
    · rw [hcompile]

/-- A stop that nothing interrupts does what stopping a chain does. -/
theorem stop (id : String) (e : Engine ω η) : Finishes k [.stop id] e (e.stop k id).2 := by
  refine .step ?_
  rw [Job.step, Engine.stop, Instances.stop]
  rcases e.instances.remove id with - | ⟨i, instances⟩
  · exact .nil _
  · exact .close i.graph.handlers { e with instances }

/-- A check that nothing interrupts does what checking a definition does. -/
theorem check (payload : List UInt8) (e : Engine ω η) :
    Finishes k [.check payload] e (e.check k payload).2 := by
  refine .step ?_
  rw [Job.step, List.append_nil, Engine.check]
  refine .ofPayload (fun g w hcompile => ?_) fun es w hcompile => ?_
  · rw [hcompile]
    exact .close g.handlers (e.withWorld w)
  · rw [hcompile]

/-- Traversals that nothing interrupts are made one after the other. -/
theorem send (ts : List (Traversal η)) (e : Engine ω η) :
    Finishes k [.send ts] e (e.traverseAll k ts) := by
  induction ts generalizing e with
  | nil => exact .step (.nil _)
  | cons t ts ih => exact .step (.step (ih (e.traverse k t)))

end Finishes

/-- A stop that is asked for by a deletion leaves the engine as any other. -/
theorem delete_snd (k : Catalogue ω η) (id : String) (e : Engine ω η) :
    (e.delete k id).2 = (e.stop k id).2 := by
  rw [Engine.delete, Engine.stop, Instances.delete]
  rcases Instances.stop k id e.instances e.world with ⟨err | ⟨⟩, s, w⟩ <;> rfl

/-- An errand that nothing interrupts comes to an end and does what the operation of the engine does. -/
theorem finishes_ofErrand (k : Catalogue ω η) (errand : Errand) (e : Engine ω η) :
    Finishes k [ofErrand errand] e (errand.serve k e) := by
  cases errand with
  | start c => exact .start c e
  | stop id => exact .stop id e
  | delete id =>
    rw [Errand.serve, delete_snd]
    exact .stop id e
  | check payload => exact .check payload e
  | dispatch channel subTopic m => exact .step (.send (e.listeners channel subTopic m) e)
  | dispatchFrom adaptor m => exact .step (.send (e.consumers adaptor m) e)

end Job

end RuleFlow
