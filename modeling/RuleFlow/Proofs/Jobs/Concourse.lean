import RuleFlow.Proofs.Jobs.Ownership
import RuleFlow.Proofs.Traversal.Walk

/-!
# Traversals among other calls

On a `Floor` a traversal is one action. On a `Concourse` it is a walk that goes on step by step while chains are
started and stopped: a dispatch looks up the graphs, waits for a permit for each of them and sends a traversal
there, the traversal starts some time later, and between any two of its steps others may take their turns
(`Concourse.turns`).

A walk that nobody interrupts does what the traversal of a floor does (`Concourse.exists_turns_eq_traverse`).
What a handler is owed is owed to it here as well: walks make no handlers and close none
(`Concourse.balanced_turns`).
-/

namespace RuleFlow

variable {ω η : Type}

/-- What an engine keeps of a traversal that has ended with an answer. -/
def Engine.conclude (s : Engine ω η) (t : Traversal η) (r : Result Unit) : Engine ω η :=
  match r with
  | .ok () => { s with dispatched := s.dispatched + 1 }
  | .error e =>
    { s with dispatched := s.dispatched + 1, failures := s.failures.report (t.failure e) }

/-- A traversal is a run of its graph and the record of how it ended. -/
theorem Engine.traverse_eq_conclude (k : Catalogue ω η) (s : Engine ω η) (t : Traversal η) :
    s.traverse k t =
      { s with journey := (t.target.receive k t.message s.journey).2 }.conclude t
        (t.target.receive k t.message s.journey).1 := by
  unfold traverse
  rcases t.target.receive k t.message s.journey with ⟨⟨⟩ | e, j⟩ <;> rfl

@[simp] theorem Engine.instances_conclude (s : Engine ω η) (t : Traversal η) (r : Result Unit) :
    (s.conclude t r).instances = s.instances := by
  unfold conclude
  split <;> rfl

@[simp] theorem Engine.journey_conclude (s : Engine ω η) (t : Traversal η) (r : Result Unit) :
    (s.conclude t r).journey = s.journey := by
  unfold conclude
  split <;> rfl

/-- Whether a job is a traversal that was sent on its way. -/
def Job.isSent : Job η → Bool
  | traverse _ => true
  | _ => false

/-- A floor with the traversals that have started and have not ended, and with the number of permits for
traversals. -/
structure Concourse (ω η : Type) extends Floor ω η where
  permits : Nat
  walks : List (Walk ω η) := []

namespace Concourse

/-- An engine for which nothing runs and nothing is under way. -/
def opened (engine : Engine ω η) (permits : Nat) : Concourse ω η where
  toFloor := .opened engine
  permits := permits

/-- The number of permits that are in use. -/
def inUse (s : Concourse ω η) : Nat := s.walks.length + s.jobs.countP (·.isSent)

/-- What happens next: a caller arrives, the job at a position goes on, or the walk at a position does. -/
inductive Turn where
  | call (errand : Errand)
  | work (position place : Nat)
  | walk (position : Nat)

/-- Lets the job at a position go on as on a floor. -/
def act (k : Catalogue ω η) (s : Concourse ω η) (position place : Nat) : Concourse ω η :=
  { s with toFloor := s.toFloor.turn k (.work position place) }

/-- Lets the traversal that was sent by the job at a position start. -/
def launch (s : Concourse ω η) (position : Nat) (t : Traversal η) : Concourse ω η :=
  { s with
    jobs := s.jobs.take position ++ s.jobs.drop (position + 1)
    walks := s.walks ++ [.start t] }

/-- Ends the walk at a position with its answer. -/
def retire (s : Concourse ω η) (position : Nat) (w : Walk ω η) (r : Result Unit) : Concourse ω η :=
  { s with engine := s.engine.conclude w.traversal r, walks := s.walks.eraseIdx position }

/-- Does the next step of the walk at a position. -/
def advance (k : Catalogue ω η) (s : Concourse ω η) (position : Nat) (w : Walk ω η) : Concourse ω η :=
  let (w', j) := w.step k s.engine.journey
  { s with
    engine := { s.engine with journey := j }
    walks := s.walks.set position w'
    deeds := s.deeds ++ (w.traversal.used s.engine.journey j).map .used }

/-- Takes a turn; there may be nothing to do at a position. A traversal is sent when there is a permit for it. -/
def turn (k : Catalogue ω η) (s : Concourse ω η) : Turn → Concourse ω η
  | .call errand => { s with toFloor := s.toFloor.turn k (.call errand) }
  | .work position place =>
    match s.jobs[position]? with
    | some (.send (_ :: _)) => if s.inUse < s.permits then s.act k position place else s
    | some (.traverse t) => s.launch position t
    | _ => s.act k position place
  | .walk position =>
    match s.walks[position]? with
    | none => s
    | some w =>
      match w.result? with
      | some r => s.retire position w r
      | none => s.advance k position w

/-- Takes turns one after the other. -/
def turns (k : Catalogue ω η) (s : Concourse ω η) (ts : List Turn) : Concourse ω η :=
  ts.foldl (turn k) s

/-- What a turn does to handlers. -/
def deedsOf (k : Catalogue ω η) (s : Concourse ω η) (t : Turn) : List (Deed η) :=
  (s.turn k t).deeds.drop s.deeds.length

variable {k : Catalogue ω η}

/-- The items around the one at a position. -/
theorem eq_take_append_of_getElem? {α : Type} {xs : List α} {position : Nat} {x : α}
    (h : xs[position]? = some x) : xs = xs.take position ++ x :: xs.drop (position + 1) := by
  obtain ⟨hposition, rfl⟩ := List.getElem?_eq_some_iff.1 h
  rw [List.getElem_cons_drop, List.take_append_drop]

/-- A job that acts is replaced by what is left of it. -/
theorem act_of_getElem? {s : Concourse ω η} {position : Nat} {job : Job η}
    (h : s.jobs[position]? = some job) (place : Nat) :
    s.act k position place =
      { s with
        engine := (job.step k place s.engine).engine
        jobs := s.jobs.take position ++ (job.step k place s.engine).jobs ++ s.jobs.drop (position + 1)
        deeds := s.deeds ++ (job.step k place s.engine).deeds } := by
  simp only [act, Floor.turn, h]

theorem act_of_none {s : Concourse ω η} {position : Nat} (h : s.jobs[position]? = none) (place : Nat) :
    s.act k position place = s := by
  simp only [act, Floor.turn, h]

theorem walks_advance (s : Concourse ω η) (position : Nat) (w : Walk ω η) :
    (s.advance k position w).walks = s.walks.set position (w.step k s.engine.journey).1 := rfl

/-- What a turn may come to. -/
inductive Takes (k : Catalogue ω η) (s : Concourse ω η) : Turn → Concourse ω η → Prop
  | idle (t : Turn) : Takes k s t s
  | call (errand : Errand) :
    Takes k s (.call errand) { s with toFloor := s.toFloor.turn k (.call errand) }
  | act {position place : Nat} {job : Job η} : s.jobs[position]? = some job →
    (∀ t, job ≠ .traverse t) → (∀ t ts, job = .send (t :: ts) → s.inUse < s.permits) →
    Takes k s (.work position place) (s.act k position place)
  | launch {position place : Nat} {t : Traversal η} : s.jobs[position]? = some (.traverse t) →
    Takes k s (.work position place) (s.launch position t)
  | retire {position : Nat} {w : Walk ω η} {r : Result Unit} : s.walks[position]? = some w →
    w.result? = some r → Takes k s (.walk position) (s.retire position w r)
  | advance {position : Nat} {w : Walk ω η} : s.walks[position]? = some w → w.result? = none →
    Takes k s (.walk position) (s.advance k position w)

/-- An action of a job that sends nothing takes no permit. -/
theorem takes_act {s : Concourse ω η} {position place : Nat}
    (htraverse : ∀ t, s.jobs[position]? ≠ some (.traverse t))
    (hsend : ∀ t ts, s.jobs[position]? = some (.send (t :: ts)) → s.inUse < s.permits) :
    Takes k s (.work position place) (s.act k position place) := by
  cases hjob : s.jobs[position]? with
  | none =>
    rw [act_of_none hjob]
    exact .idle _
  | some job =>
    refine .act hjob ?_ ?_
    · rintro t rfl
      exact htraverse t hjob
    · rintro t ts rfl
      exact hsend t ts hjob

theorem takes_turn (k : Catalogue ω η) (s : Concourse ω η) (t : Turn) : Takes k s t (s.turn k t) := by
  cases t with
  | call errand => exact .call errand
  | work position place =>
    rw [turn]
    split
    case h_1 hjob =>
      split
      case isTrue hpermit => exact takes_act (by simp [hjob]) fun _ _ _ => hpermit
      case isFalse => exact .idle _
    case h_2 t hjob => exact .launch hjob
    case h_3 hsend htraverse =>
      exact takes_act (fun t hjob => htraverse t hjob) fun t ts hjob => absurd hjob (hsend t ts)
  | walk position =>
    rw [turn]
    split
    case h_1 => exact .idle _
    case h_2 w hwalk =>
      split
      case h_1 r hresult => exact .retire hwalk hresult
      case h_2 hresult => exact .advance hwalk hresult

theorem turns_concat (s : Concourse ω η) (ts : List Turn) (t : Turn) :
    s.turns k (ts ++ [t]) = (s.turns k ts).turn k t := by
  rw [turns, List.foldl_append]
  rfl

end Concourse

/-! ## Walks that nobody interrupts -/

/-- What a traversal uses in two parts is used in the whole. -/
theorem Traversal.used_trans (t : Traversal η) {j j₁ j' : Journey ω} {vs vs' : List Visit}
    (h₁ : j₁.visits = j.visits ++ vs) (h₂ : j'.visits = j₁.visits ++ vs') :
    t.used j j' = t.used j j₁ ++ t.used j₁ j' := by
  have hdrop : j'.visits.drop j.visits.length = vs ++ vs' := by
    rw [h₂, h₁, List.append_assoc, List.drop_left]
  rw [used, used, used, hdrop, h₂, List.drop_left, h₁, List.drop_left, List.filterMap_append]

namespace Walk

variable {k : Catalogue ω η}

theorem step_of_result? {w : Walk ω η} {r : Result Unit} (h : w.result? = some r) (j : Journey ω) :
    w.step k j = (w, j) := by
  obtain ⟨t, stage, waiting⟩ := w
  unfold result? at h
  split at h
  · cases r <;> simp_all [step]
  · cases h

theorem steps_of_result? {w : Walk ω η} {r : Result Unit} (h : w.result? = some r) (n : Nat)
    (j : Journey ω) : w.steps k n j = (w, j) := by
  induction n with
  | zero => rfl
  | succ n ih => rw [steps, step_of_result? h, ih]

/-- A walk takes back no visit. -/
theorem visits_steps (n : Nat) (w : Walk ω η) (j : Journey ω) :
    ∃ vs, (w.steps k n j).2.visits = j.visits ++ vs := by
  induction n generalizing w j with
  | zero => exact ⟨[], (List.append_nil _).symm⟩
  | succ n ih =>
    obtain ⟨vs, hvs⟩ := (step_keeps k w j).2
    obtain ⟨vs', hvs'⟩ := ih (w.step k j).1 (w.step k j).2
    exact ⟨vs ++ vs', by rw [steps, hvs', hvs, List.append_assoc]⟩

end Walk

namespace Concourse

variable {k : Catalogue ω η}

/-- The only walk there is comes to its end when nobody else takes a turn. -/
theorem exists_turns_of_steps {n : Nat} {w w' : Walk ω η} {j' : Journey ω} {r : Result Unit}
    {s : Concourse ω η} (hwalks : s.walks = [w]) (hsteps : w.steps k n s.engine.journey = (w', j'))
    (hr : w'.result? = some r) :
    ∃ m, s.turns k (List.replicate m (.walk 0)) =
      { s with
        engine := { s.engine with journey := j' }.conclude w.traversal r
        walks := []
        deeds := s.deeds ++ (w.traversal.used s.engine.journey j').map .used } := by
  induction n generalizing s w with
  | zero =>
    obtain ⟨rfl, rfl⟩ := Prod.mk.inj hsteps
    refine ⟨1, ?_⟩
    simp [turns, turn, retire, hwalks, hr, Traversal.used]
  | succ n ih =>
    cases hresult : w.result? with
    | some r' =>
      -- A walk that is over earlier stays as it is, and the first turn concludes it.
      rw [Walk.steps_of_result? hresult] at hsteps
      obtain ⟨rfl, rfl⟩ := Prod.mk.inj hsteps
      refine ⟨1, ?_⟩
      simp [turns, turn, retire, hwalks, hr, Traversal.used]
    | none =>
      have hrest : (w.step k s.engine.journey).1.steps k n (w.step k s.engine.journey).2 = (w', j') :=
        hsteps
      obtain ⟨htraversal, vs, hvs⟩ := Walk.step_keeps k w s.engine.journey
      obtain ⟨vs', hvs'⟩ := Walk.visits_steps (k := k) n (w.step k s.engine.journey).1
        (w.step k s.engine.journey).2
      have hturn : s.turn k (.walk 0) =
          { s with
            engine := { s.engine with journey := (w.step k s.engine.journey).2 }
            walks := [(w.step k s.engine.journey).1]
            deeds := s.deeds ++
              (w.traversal.used s.engine.journey (w.step k s.engine.journey).2).map .used } := by
        simp [turn, advance, hwalks, hresult]
      obtain ⟨m, hm⟩ := ih (s := s.turn k (.walk 0)) (by rw [hturn]) (by rw [hturn]; exact hrest)
      refine ⟨m + 1, ?_⟩
      have hused := w.traversal.used_trans hvs (by rwa [hrest] at hvs')
      have hfirst : s.turns k (List.replicate (m + 1) (.walk 0)) =
          (s.turn k (.walk 0)).turns k (List.replicate m (.walk 0)) := rfl
      rw [hfirst, hm, hturn, hused, htraversal]
      simp only [List.map_append, List.append_assoc]

/-- A walk that nobody interrupts does what the traversal of a floor does in one action. -/
theorem exists_turns_eq_traverse {t : Traversal η} (ht : t.target.graph.Sound) {s : Concourse ω η}
    (hwalks : s.walks = [.start t]) :
    ∃ m, s.turns k (List.replicate m (.walk 0)) =
      { s with
        engine := s.engine.traverse k t
        walks := []
        deeds := s.deeds ++ ((Job.traverse t).step k 0 s.engine).deeds } := by
  obtain ⟨n, hn⟩ := Walk.leads_start (k := k) ht s.engine.journey
  obtain ⟨m, hm⟩ := exists_turns_of_steps hwalks hn rfl
  refine ⟨m, ?_⟩
  rw [hm]
  simp only [Job.step, Engine.traverse_eq_conclude, Engine.journey_conclude]
  rfl

/-! ## Handlers -/

end Concourse

/-- On a floor where nothing was made, closed, installed, removed or taken up the account is as before. -/
theorem Floor.Balanced.of_same {s s' : Floor ω η} (h : s.Balanced)
    (hinstances : s'.engine.instances = s.engine.instances) (hjobs : s'.jobs = s.jobs)
    (hmade : s'.made = s.made) (hclosed : s'.closed = s.closed) : s'.Balanced where
  keyed := hinstances ▸ h.keyed
  distinct := hjobs ▸ h.distinct
  balance := by
    rw [hmade, hclosed, running, hinstances, hjobs]
    exact h.balance

namespace Concourse

variable {k : Catalogue ω η}

/-- Every turn keeps the books of the handlers in balance. -/
theorem balanced_turn {s : Concourse ω η} (h : s.Balanced) (t : Turn) : (s.turn k t).Balanced := by
  have htakes := takes_turn k s t
  generalize s.turn k t = s' at htakes ⊢
  cases htakes with
  | idle => exact h
  | call errand => exact Floor.Balanced.call (k := k) h errand
  | act => exact h.work _ _
  | @launch position place t hjob =>
    have hnone : Progress.Balances (.traverse t) s.engine { jobs := [], engine := s.engine } :=
      Job.balances_of_held_eq rfl rfl
    have hbalanced := h.progress (eq_take_append_of_getElem? hjob) hnone h.keyed (by simp)
    rwa [List.append_nil, List.append_nil] at hbalanced
  | retire => exact h.of_same (Engine.instances_conclude ..) rfl rfl rfl
  | advance =>
    refine h.of_same rfl rfl ?_ ?_
    · simp [advance, Floor.made, Deed.made?]
    · simp [advance, Floor.closed, Deed.closed?]

/-- However the traversals go on among the other calls, every handler is held by one party. -/
theorem balanced_turns {s : Concourse ω η} (h : s.Balanced) (ts : List Turn) :
    (s.turns k ts).Balanced := by
  induction ts using List.reverseRecOn with
  | nil => exact h
  | append_singleton ts t ih =>
    rw [turns_concat]
    exact balanced_turn ih t

end Concourse

/-! ## Permits -/

namespace Job

variable {k : Catalogue ω η} {place : Nat} {e : Engine ω η} {job job' : Job η}

theorem not_delivers_of_mem_ofPayload {chain : Option Chain} {payload : List UInt8}
    (h : job ∈ ofPayload chain payload) : ¬job.Delivers := by
  unfold ofPayload at h
  split at h
  · simp at h
  · split at h
    · simp at h
    · obtain rfl := List.mem_singleton.1 h
      exact id

theorem not_delivers_ofCreated (chain : Option Chain) (p : GraphPayload)
    (created : List (NodeSpec × Result η)) : ¬(ofCreated chain p created).Delivers := by
  unfold ofCreated
  cases Graph.conclude p created with
  | error es => exact id
  | ok g => cases chain <;> exact id

/-- Only a job that brings messages goes on with one that does. -/
theorem Delivers.of_step (h : job'.Delivers) (hjob' : job' ∈ (job.step k place e).jobs) :
    job.Delivers := by
  cases job with
  | start c =>
    rw [step] at hjob'
    split at hjob'
    · simp at hjob'
    · exact absurd h (not_delivers_of_mem_ofPayload hjob')
  | check payload => exact absurd h (not_delivers_of_mem_ofPayload hjob')
  | make chain p rest created =>
    cases rest with
    | nil =>
      obtain rfl := List.mem_singleton.1 hjob'
      exact absurd h (not_delivers_ofCreated chain p created)
    | cons m rest =>
      rw [step] at hjob'
      split at hjob' <;> obtain rfl := List.mem_singleton.1 hjob' <;> exact h
  | install i =>
    rw [step] at hjob'
    split at hjob'
    · simp at hjob'
    · obtain rfl := List.mem_singleton.1 hjob'
      exact h
  | stop id =>
    rw [step] at hjob'
    split at hjob'
    · obtain rfl := List.mem_singleton.1 hjob'
      exact h
    · simp at hjob'
  | close handlers =>
    cases handlers with
    | nil => simp [step] at hjob'
    | cons handler rest =>
      obtain rfl := List.mem_singleton.1 hjob'
      exact h
  | _ => exact trivial

/-- Only a job that sends traversals sends one, and one at a time. -/
theorem countP_isSent_step (h : ∀ t ts, job ≠ .send (t :: ts)) :
    (job.step k place e).jobs.countP (·.isSent) = 0 := by
  refine List.countP_eq_zero.2 fun job' hjob' hsent => ?_
  have hdelivers : job'.Delivers := by
    cases job' <;> first | exact trivial | simp [isSent] at hsent
  cases job with
  | dispatch channel subTopic m =>
    obtain rfl := List.mem_singleton.1 hjob'
    cases hsent
  | dispatchFrom adaptor m =>
    obtain rfl := List.mem_singleton.1 hjob'
    cases hsent
  | send ts =>
    cases ts with
    | nil => simp [step] at hjob'
    | cons t ts => exact h t ts rfl
  | traverse t => simp [step] at hjob'
  | _ => exact hdelivers.of_step hjob'

end Job

namespace Concourse

variable {k : Catalogue ω η} {s : Concourse ω η}

/-- Replacing a job changes a count by what it and its successors count. -/
theorem countP_jobs {position : Nat} {job : Job η} (h : s.jobs[position]? = some job)
    (p : Job η → Bool) (jobs : List (Job η)) :
    (s.jobs.take position ++ jobs ++ s.jobs.drop (position + 1)).countP p + [job].countP p =
      s.jobs.countP p + jobs.countP p := by
  conv_rhs => rw [eq_take_append_of_getElem? h]
  simp only [List.countP_append, List.countP_cons, List.countP_nil]
  omega

/-- At no time more permits are in use than there are. -/
theorem inUse_turn_le (h : s.inUse ≤ s.permits) (t : Turn) : (s.turn k t).inUse ≤ s.permits := by
  have htakes := takes_turn k s t
  generalize s.turn k t = s' at htakes ⊢
  cases htakes with
  | idle => exact h
  | call errand =>
    have herrand : (Job.ofErrand errand : Job η).isSent = false := by cases errand <;> rfl
    simpa [inUse, Floor.turn, herrand] using h
  | @act position place job hjob _ hsend =>
    have hcount := countP_jobs hjob (·.isSent) (job.step k place s.engine).jobs
    rw [act_of_getElem? hjob]
    by_cases hnext : ∃ t ts, job = .send (t :: ts)
    · obtain ⟨t, ts, rfl⟩ := hnext
      have hpermit := hsend t ts rfl
      have hbefore : [Job.send (t :: ts)].countP (·.isSent) = 0 := rfl
      have hafter : ((Job.send (t :: ts)).step k place s.engine).jobs.countP (·.isSent) = 1 := rfl
      simp only [inUse] at *
      omega
    · have hafter : (job.step k place s.engine).jobs.countP (·.isSent) = 0 :=
        Job.countP_isSent_step fun t ts hjob' => hnext ⟨t, ts, hjob'⟩
      simp only [inUse] at *
      omega
  | @launch position place t hjob =>
    have hcount := countP_jobs hjob (·.isSent) []
    have hbefore : [Job.traverse t].countP (·.isSent) = 1 := rfl
    simp only [inUse, launch, List.length_append, List.length_singleton, List.append_nil,
      List.countP_nil] at *
    omega
  | @retire position =>
    have hlength := List.length_eraseIdx_le s.walks position
    simp only [inUse, retire] at *
    omega
  | advance => simpa [inUse, advance] using h

/-- The number of permits never changes. -/
theorem permits_turn (s : Concourse ω η) (t : Turn) : (s.turn k t).permits = s.permits := by
  have htakes := takes_turn k s t
  generalize s.turn k t = s' at htakes ⊢
  cases htakes <;> rfl

/-- However the calls go on, no more traversals are on their way or under way than there are permits. -/
theorem inUse_turns_le (e : Engine ω η) (permits : Nat) (ts : List Turn) :
    ((opened e permits).turns k ts).inUse ≤ permits := by
  have hpermits : ∀ us : List Turn, ((opened e permits).turns k us).permits = permits := by
    intro us
    induction us using List.reverseRecOn with
    | nil => rfl
    | append_singleton us t ih => rw [turns_concat, permits_turn, ih]
  induction ts using List.reverseRecOn with
  | nil => exact Nat.zero_le _
  | append_singleton ts t ih =>
    rw [turns_concat]
    have hle := inUse_turn_le (k := k) (by rwa [hpermits ts]) t
    rwa [hpermits ts] at hle

end Concourse

end RuleFlow
