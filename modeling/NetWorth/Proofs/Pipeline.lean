import Mathlib.Logic.Relation
import NetWorth.Pipeline
import NetWorth.Proofs.Declaration.Failure
import NetWorth.Proofs.Reconciliation.Join

/-! A comparison comes to the same however its workers are scheduled: `returns_inTurn`. Before the
caller returns a step is always possible, every step brings the end nearer, and at the end all
deliveries are there, in one order or the other. -/
namespace NetWorth

open Attempt

namespace Delivery
variable {ds : List Delivery} {results : Side → Except ScenarioError CaseSet}

theorem resultFor?_eq (h : ∀ d ∈ ds, d.result = results d.side) {side : Side}
    (hside : side ∈ ds.map (·.side)) : resultFor? side ds = some (results side) := by
  obtain ⟨d, hd, rfl⟩ := List.mem_map.mp hside
  unfold resultFor?
  cases hf : ds.reverse.find? (fun e => e.side = d.side) with
  | none =>
    have hnone := List.find?_eq_none.mp hf d (List.mem_reverse.mpr hd)
    simp at hnone
  | some e =>
    have he : e.side = d.side := by simpa using List.find?_some hf
    rw [Option.map_some, h e (List.mem_reverse.mp (List.mem_of_find?_eq_some hf)), he]

/-- Where every side is delivered, it does not matter in which order. -/
theorem assemble_eq (h : ∀ d ∈ ds, d.result = results d.side)
    (hall : ∀ side, side ∈ ds.map (·.side)) :
    assemble ds = results .planned >>= fun planned => results .done >>= fun done =>
      .ok (planned, done) := by
  rw [assemble, resultFor?_eq h (hall .planned), resultFor?_eq h (hall .done)]

end Delivery

def Worker.due : Worker → Nat
  | .waiting | .gone => 0
  | .building => 3
  | .sent => 1

def Phase.due : Phase → Nat
  | .checking => 15
  | .starting left => 4 * left.length + 5
  | .receiving => 4
  | .joining left => left.length + 1
  | .returned _ => 0

namespace Pipeline
variable {s : Settings} {plan actual : ScenarioDecl} {t u : Pipeline} {side : Side}

/-- What a comparison comes to when everything is done in turn. -/
def inTurn (s : Settings) (plan actual : ScenarioDecl) : Except ScenarioError Reconciliation :=
  match s.validate, plan.build, actual.build with
  | .error e, _, _ => .error (.validation e)
  | .ok (), .error e, _ => .error e
  | .ok (), .ok _, .error e => .error e
  | .ok (), .ok planned, .ok done => reconcile s planned done

theorem inTurn_of_invalid {e : ValidationError} (h : s.validate = .error e) :
    inTurn s plan actual = .error (.validation e) := by
  rw [inTurn, h]

theorem inTurn_of_valid (h : s.validate = .ok ()) :
    inTurn s plan actual = plan.build >>= fun planned => actual.build >>= fun done =>
      reconcile s planned done := by
  rw [inTurn, h]
  cases plan.build with
  | error e => rfl
  | ok planned => cases actual.build <;> rfl

theorem conclude_eq {ds : List Delivery} (h : ∀ d ∈ ds, d.result = job plan actual d.side)
    (hall : ∀ side, side ∈ ds.map (·.side)) (valid : s.validate = .ok ()) :
    conclude s ds = inTurn s plan actual := by
  rw [conclude, Delivery.assemble_eq h hall, inTurn_of_valid valid, job, job]
  cases plan.build with
  | error e => rfl
  | ok planned => cases actual.build <;> rfl

/-- Building both scenarios and then comparing them is doing everything in turn. -/
theorem buildAndReconcile_eq (s : Settings) (plan actual : ScenarioDecl) :
    buildAndReconcile s plan actual = inTurn s plan actual := by
  cases hv : s.validate with
  | error e =>
    rw [inTurn_of_invalid hv, buildAndReconcile, hv]
    rfl
  | ok _ =>
    let ds : List Delivery := [⟨.planned, plan.build⟩, ⟨.done, actual.build⟩]
    have h : ∀ d ∈ ds, d.result = job plan actual d.side := by
      simp [ds, job]
    have hall : ∀ side, side ∈ ds.map (·.side) := by
      intro side
      cases side <;> simp [ds]
    rw [← conclude_eq h hall hv, buildAndReconcile, hv]
    rfl

/-- All deliveries that were sent, those that are still on their way last. -/
def deliveries (t : Pipeline) : List Delivery := t.received ++ t.channel

theorem deliveries_send (t : Pipeline) (side : Side) (w : Worker) (d : Delivery) :
    { t.setWorker side w with channel := t.channel ++ [d] }.deliveries = t.deliveries ++ [d] :=
  (List.append_assoc ..).symm

/-- What the caller takes from the channel stays in its place. -/
theorem deliveries_receive {d : Delivery} {ds : List Delivery} (first : t.channel = d :: ds) :
    { t with channel := ds, received := t.received ++ [d] }.deliveries = t.deliveries := by
  rw [deliveries, deliveries, first, List.append_assoc, List.singleton_append]

/-- What is certain about the workers and the result at each point of the caller. -/
def Certain (s : Settings) (plan actual : ScenarioDecl) (t : Pipeline) : Phase → Prop
  | .checking => ∀ side, t.worker side = .waiting
  | .starting left => s.validate = .ok () ∧ (left ≠ [] → t.ownEnd = true) ∧
      ∀ side, t.worker side = .waiting → side ∈ left
  | .receiving => s.validate = .ok () ∧ t.ownEnd = false ∧ ∀ side, t.worker side ≠ .waiting
  | .joining _ => s.validate = .ok () ∧ t.channel = [] ∧ ∀ side, t.worker side = .gone
  | .returned result => result = inTurn s plan actual ∧
      ∀ side, t.worker side = .waiting ∨ t.worker side = .gone

structure Sound (s : Settings) (plan actual : ScenarioDecl) (t : Pipeline) : Prop where
  results : ∀ d ∈ t.deliveries, d.result = job plan actual d.side
  delivered : ∀ side, t.worker side = .sent ∨ t.worker side = .gone →
    side ∈ t.deliveries.map (·.side)
  certain : t.Certain s plan actual t.phase

theorem sound_start (s : Settings) (plan actual : ScenarioDecl) : Sound s plan actual start where
  results _ h := by cases h
  delivered _ h := by rcases h with h | h <;> cases h
  certain _ := rfl

def Busy (w : Worker) : Prop := w = .building ∨ w = .sent

theorem not_busy_waiting : ¬ Busy .waiting := by rintro (h | h) <;> cases h

theorem not_busy_gone : ¬ Busy .gone := by rintro (h | h) <;> cases h

/-- A busy worker goes on without the caller, who is neither before its start nor past its end. -/
theorem Certain.advance {phase : Phase} {w : Worker} (h : t.Certain s plan actual phase)
    (busy : Busy (t.worker side)) (hw : w ≠ .waiting) (hown : u.ownEnd = t.ownEnd)
    (hu : ∀ other, u.worker other = (t.setWorker side w).worker other) :
    u.Certain s plan actual phase := by
  have hwaiting (other : Side) (ho : u.worker other = .waiting) : t.worker other = .waiting := by
    rw [hu, worker_setWorker] at ho
    split at ho
    · exact absurd ho hw
    · exact ho
  cases phase with
  | checking =>
    rw [h side] at busy
    exact absurd busy not_busy_waiting
  | starting left =>
    exact ⟨h.1, fun hleft => hown.trans (h.2.1 hleft),
      fun other ho => h.2.2 other (hwaiting other ho)⟩
  | receiving => exact ⟨h.1, hown.trans h.2.1, fun other ho => h.2.2 other (hwaiting other ho)⟩
  | joining left =>
    rw [h.2.2 side] at busy
    exact absurd busy not_busy_gone
  | returned result =>
    rcases h.2 side with hs | hs <;> rw [hs] at busy
    · exact absurd busy not_busy_waiting
    · exact absurd busy not_busy_gone

theorem setWorker_eq_iff {w w' : Worker} (h : w ≠ w') (other : Side) :
    (t.setWorker side w).worker other = w' ↔ other ≠ side ∧ t.worker other = w' := by
  rw [worker_setWorker]
  split <;> simp [*]

/-- No step of the caller or of a worker leads out of the sound states. -/
theorem Sound.step (h : Sound s plan actual t) (st : Step s plan actual t u) :
    Sound s plan actual u := by
  obtain ⟨results, delivered, certain⟩ := h
  cases st with
  | refuse checking invalid =>
    rw [checking] at certain
    exact ⟨results, delivered, (inTurn_of_invalid invalid).symm, fun side => .inl (certain side)⟩
  | accept checking valid =>
    refine ⟨results, delivered, valid, fun _ => rfl, fun side _ => ?_⟩
    cases side <;> simp
  | @launch side left starting own =>
    rw [starting] at certain
    refine ⟨results, fun other ho => ?_, certain.1, fun _ => own, fun other ho => ?_⟩
    · refine delivered other (ho.imp (fun sent => ?_) fun gone => ?_)
      · exact ((setWorker_eq_iff (by decide) other).mp sent).2
      · exact ((setWorker_eq_iff (by decide) other).mp gone).2
    · obtain ⟨hne, hw⟩ := (setWorker_eq_iff (by decide) other).mp ho
      exact List.mem_of_ne_of_mem hne (certain.2.2 other hw)
  | release started own =>
    rw [started] at certain
    refine ⟨results, delivered, ?_⟩
    change Certain s plan actual _ t.phase
    rw [started]
    exact ⟨certain.1, fun hleft => absurd rfl hleft, certain.2.2⟩
  | listen started released =>
    rw [started] at certain
    refine ⟨results, delivered, certain.1, released, fun side hw => ?_⟩
    exact absurd (certain.2.2 side hw) List.not_mem_nil
  | @send side building heard room =>
    refine ⟨fun d hd => ?_, fun other ho => ?_,
      certain.advance (.inl building) (by decide) rfl fun _ => rfl⟩
    · rw [deliveries_send, List.mem_append, List.mem_singleton] at hd
      rcases hd with hd | rfl
      · exact results d hd
      · rfl
    · rw [deliveries_send, List.map_append, List.mem_append]
      by_cases hside : other = side
      · exact .inr (by simp [hside])
      · refine .inl (delivered other ?_)
        simpa [setWorker, hside] using ho
  | drop building unheard =>
    rw [unheard] at certain
    rcases certain.2 _ with h | h <;> rw [building] at h <;> cases h
  | @leave side sent =>
    refine ⟨results, fun other ho => ?_, certain.advance (.inr sent) (by decide) rfl fun _ => rfl⟩
    by_cases hside : other = side
    · exact delivered other (.inl (hside ▸ sent))
    · refine delivered other ?_
      simpa [setWorker, hside] using ho
  | @receive d ds receiving first =>
    refine ⟨?_, ?_, ?_⟩
    · rw [deliveries_receive first]
      exact results
    · rw [deliveries_receive first]
      exact delivered
    · rw [receiving] at certain
      change Certain s plan actual _ t.phase
      rw [receiving]
      exact certain
  | hangUp receiving empty _ gone =>
    rw [receiving] at certain
    exact ⟨results, delivered, certain.1, empty, gone⟩
  | join joining gone =>
    rw [joining] at certain
    exact ⟨results, delivered, certain⟩
  | finish joined =>
    rw [joined] at certain
    obtain ⟨valid, empty, gone⟩ := certain
    have hreceived : t.deliveries = t.received := by
      rw [deliveries, empty, List.append_nil]
    have hconclude : conclude s t.received = inTurn s plan actual :=
      conclude_eq (hreceived ▸ results)
        (fun side => hreceived ▸ delivered side (.inr (gone side))) valid
    exact ⟨results, delivered, hconclude, fun side => .inr (gone side)⟩

def Run (s : Settings) (plan actual : ScenarioDecl) : Pipeline → Pipeline → Prop :=
  Relation.ReflTransGen (Step s plan actual)

/-- Whatever happens from a sound state, and in whatever order, leads to another one. -/
theorem Sound.run (h : Sound s plan actual t) (run : Run s plan actual t u) :
    Sound s plan actual u := by
  induction run with
  | refl => exact h
  | tail _ st ih => exact ih.step st

def Running (t : Pipeline) : Prop := ∀ result, t.phase ≠ .returned result

theorem running_of_receiving (receiving : t.phase = .receiving) : t.Running := by
  intro result returned
  rw [receiving] at returned
  cases returned

/-- Nobody waits forever: the channel has room for both results, and every end of it is let go. -/
theorem Sound.exists_step (h : Sound s plan actual t) (running : t.Running) :
    ∃ u, Step s plan actual t u := by
  have certain := h.certain
  cases hphase : t.phase with
  | checking =>
    cases hv : s.validate with
    | error e => exact ⟨_, .refuse hphase hv⟩
    | ok _ => exact ⟨_, .accept hphase hv⟩
  | starting left =>
    rw [hphase] at certain
    cases left with
    | nil =>
      cases hown : t.ownEnd with
      | true => exact ⟨_, .release hphase hown⟩
      | false => exact ⟨_, .listen hphase hown⟩
    | cons side left => exact ⟨_, .launch hphase (certain.2.1 (List.cons_ne_nil _ _))⟩
  | receiving =>
    rw [hphase] at certain
    cases hchannel : t.channel with
    | cons d ds => exact ⟨_, .receive hphase hchannel⟩
    | nil =>
      by_cases gone : ∀ side, t.worker side = .gone
      · exact ⟨_, .hangUp hphase hchannel certain.2.1 gone⟩
      · -- the caller waits, but for a worker that can go on
        obtain ⟨side, hside⟩ := not_forall.mp gone
        cases hw : t.worker side with
        | waiting => exact absurd hw (certain.2.2 side)
        | building => exact ⟨_, .send hw running (by rw [hchannel]; decide)⟩
        | sent => exact ⟨_, .leave hw⟩
        | gone => exact absurd hw hside
  | joining left =>
    cases left with
    | nil => exact ⟨_, .finish hphase⟩
    | cons side left =>
      rw [hphase] at certain
      exact ⟨_, .join hphase (certain.2.2 side)⟩
  | returned result => exact absurd hphase (running result)

/-- A bound on the steps that are left. -/
def due (t : Pipeline) : Nat :=
  t.phase.due + t.ownEnd.toNat + t.channel.length +
    ((t.worker .planned).due + (t.worker .done).due)

theorem due_setWorker (t : Pipeline) (side : Side) (w : Worker) :
    (t.setWorker side w).due + (t.worker side).due = t.due + w.due := by
  cases side <;> simp [due, setWorker] <;> omega

/-- Every step brings the end nearer. -/
theorem Step.due_lt (st : Step s plan actual t u) : u.due < t.due := by
  cases st with
  | refuse checking _ => simp [due, checking, Phase.due]
  | accept checking _ =>
    simp [due, checking, Phase.due]
    omega
  | @launch side left starting _ =>
    have hworker := due_setWorker t side .building
    simp only [due, starting, Phase.due, Worker.due, List.length_cons, phase_setWorker,
      ownEnd_setWorker, channel_setWorker] at hworker ⊢
    omega
  | release _ own => simp [due, own]
  | listen started _ => simp [due, started, Phase.due]
  | @send side building _ _ =>
    have hworker := due_setWorker t side .sent
    simp only [due, building, Worker.due, List.length_append, List.length_singleton,
      phase_setWorker, ownEnd_setWorker, channel_setWorker] at hworker ⊢
    omega
  | @drop side _ building _ =>
    have hworker := due_setWorker t side .sent
    rw [building] at hworker
    simp only [Worker.due] at hworker
    omega
  | @leave side sent =>
    have hworker := due_setWorker t side .gone
    rw [sent] at hworker
    simp only [Worker.due] at hworker
    omega
  | receive _ first => simp [due, first]
  | hangUp receiving _ _ _ => simp [due, receiving, Phase.due]
  | join joining _ => simp [due, joining, Phase.due]
  | finish joined => simp [due, joined, Phase.due]

/-- So no run goes on forever. -/
theorem wellFounded_step (s : Settings) (plan actual : ScenarioDecl) :
    WellFounded fun u t => Step s plan actual t u :=
  Subrelation.wf (fun st => st.due_lt) (measure due).wf

/-- Whatever happened so far, the caller comes to the result. -/
theorem Sound.exists_returned (h : Sound s plan actual t) :
    ∃ u, Run s plan actual t u ∧ u.phase = .returned (inTurn s plan actual) := by
  induction t using (wellFounded_step s plan actual).induction with
  | _ t ih =>
    by_cases running : t.Running
    · obtain ⟨u, st⟩ := h.exists_step running
      obtain ⟨v, run, returned⟩ := ih u st (h.step st)
      exact ⟨v, .head st run, returned⟩
    · obtain ⟨result, returned⟩ := not_forall_not.mp running
      have certain := h.certain
      rw [returned] at certain
      exact ⟨t, .refl, certain.1 ▸ returned⟩

/-- A caller that has returned has the result of doing everything in turn. -/
theorem Sound.result_eq {result : Except ScenarioError Reconciliation} (h : Sound s plan actual t)
    (returned : t.phase = .returned result) : result = inTurn s plan actual := by
  have certain := h.certain
  rw [returned] at certain
  exact certain.1

def listening : Pipeline :=
  { (start.setWorker .planned .building).setWorker .done .building with phase := .receiving }

theorem worker_listening (side : Side) : listening.worker side = .building := by
  cases side <;> rfl

/-- Valid settings lead to where both workers build and the caller listens. -/
theorem run_listening (valid : s.validate = .ok ()) (plan actual : ScenarioDecl) :
    Run s plan actual start listening :=
  .head (.accept rfl valid) <| .head (.launch rfl rfl) <| .head (.launch rfl rfl) <|
    .head (.release rfl rfl) <| .single (.listen rfl rfl)

/-- When all workers are gone and the channel is empty, the caller concludes. -/
theorem run_returned (receiving : t.phase = .receiving) (empty : t.channel = [])
    (released : t.ownEnd = false) (gone : ∀ side, t.worker side = .gone) :
    Run s plan actual t { t with phase := .returned (conclude s t.received) } :=
  .head (.hangUp receiving empty released gone) <| .head (.join rfl (gone _)) <|
    .head (.join rfl (gone _)) <| .single (.finish rfl)

/-- Either side can be the first to deliver. -/
theorem exists_run_received (valid : s.validate = .ok ()) (plan actual : ScenarioDecl)
    {first second : Side} (h : first ≠ second) :
    ∃ u, Run s plan actual start u ∧ u.phase = .returned (inTurn s plan actual) ∧
      u.received.map (·.side) = [first, second] := by
  have hsides (side : Side) : side = first ∨ side = second := by
    cases first <;> cases second <;> cases side <;> simp_all
  have hdelivered : Run s plan actual listening _ :=
    .head (@Step.send _ _ _ _ first (worker_listening first) (running_of_receiving rfl)
      Nat.zero_lt_two) <|
    .head (@Step.send _ _ _ _ second ((if_neg h.symm).trans (worker_listening second))
      (running_of_receiving rfl) Nat.one_lt_two) <|
    .head (.receive rfl rfl) <| .single (.receive rfl rfl)
  have hgone : Run s plan actual listening _ := hdelivered.trans <|
    .head (@Step.leave _ _ _ _ first ((if_neg h).trans (if_pos rfl))) <|
    .single (@Step.leave _ _ _ _ second ((if_neg h.symm).trans (if_pos rfl)))
  have hrun : Run s plan actual start _ := (run_listening valid plan actual).trans <|
    hgone.trans <| run_returned rfl rfl rfl fun side => by
      rcases hsides side with rfl | rfl
      · exact (if_neg h).trans (if_pos rfl)
      · exact if_pos rfl
  exact ⟨_, hrun, congrArg _ (((sound_start s plan actual).run hrun).result_eq rfl), rfl⟩

/-- What the error of a comparison says: nothing failed but the scenarios, and either the plan was
missed, which takes two scenarios to tell, or something in them is malformed. -/
structure Explains (s : Settings) (plan actual : ScenarioDecl) (e : ScenarioError) : Prop where
  not_internal : ∀ message, e ≠ .internal message
  not_file : ∀ fault, e ≠ .file fault
  not_unreadable : e ≠ .unreadable
  kind : e.isMalformedScenario = !e.isObjectiveNotMet
  built : e.isObjectiveNotMet → s.validate = .ok () ∧
    (∃ planned, plan.build = .ok planned) ∧ ∃ done, actual.build = .ok done

theorem Explains.of_not_foreign {e : ScenarioError} (h : ¬ e.IsForeign) :
    Explains s plan actual e := by
  cases e with
  | evaluation why | validation why => exact ⟨nofun, nofun, nofun, rfl, nofun⟩
  | reconciliation why | file why | internal why => exact absurd trivial h
  | unreadable => exact absurd trivial h

/-- Every error of a comparison is explained, in whatever order the workers were heard. -/
theorem explains_error {e : ScenarioError} (h : inTurn s plan actual = .error e) :
    Explains s plan actual e := by
  cases hv : s.validate with
  | error why =>
    rw [inTurn_of_invalid hv] at h
    cases h
    exact .of_not_foreign id
  | ok _ =>
    rw [inTurn_of_valid hv, bind_eq_error_iff] at h
    rcases h with h | ⟨planned, hplanned, h⟩
    · exact .of_not_foreign (plan.build_not_foreign e h)
    rcases bind_eq_error_iff.mp h with h | ⟨done, hdone, h⟩
    · exact .of_not_foreign (actual.build_not_foreign e h)
    obtain ⟨why, _, rfl⟩ := reconcile_eq_error_iff.mp h
    refine ⟨nofun, nofun, nofun, ?_, fun _ => ⟨hv, ⟨planned, hplanned⟩, done, hdone⟩⟩
    cases why <;> rfl

/-- Every run ends, and with the same result: that of doing everything in turn. -/
theorem returns_inTurn (s : Settings) (plan actual : ScenarioDecl) :
    (WellFounded fun u t => Step s plan actual t u) ∧
      (∀ t, Run s plan actual start t →
        (∀ result, t.phase = .returned result → result = inTurn s plan actual) ∧
        ∃ u, Run s plan actual t u ∧ u.phase = .returned (inTurn s plan actual)) ∧
      buildAndReconcile s plan actual = inTurn s plan actual ∧
      ∀ e, inTurn s plan actual = .error e → Explains s plan actual e := by
  refine ⟨wellFounded_step s plan actual, fun t run => ?_, buildAndReconcile_eq s plan actual,
    fun e => explains_error⟩
  have sound : Sound s plan actual t := (sound_start s plan actual).run run
  exact ⟨fun result => sound.result_eq, sound.exists_returned⟩

end Pipeline

end NetWorth
