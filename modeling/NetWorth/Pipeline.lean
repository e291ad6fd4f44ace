import NetWorth.Assembly

/-! A comparison as it runs: two workers build the sides at the same time, and send them over one
channel to the caller, who started them and waits for both. -/
namespace NetWorth

/-- How far a worker is. From its start until it is gone it holds an end of the channel. -/
inductive Worker
  | waiting
  | building
  | sent
  | gone
  deriving DecidableEq

/-- How far the caller is: the sides left to start or to wait for, and in the end the result. -/
inductive Phase
  | checking
  | starting (left : List Side)
  | receiving
  | joining (left : List Side)
  | returned (result : Except ScenarioError Reconciliation)

/-- A comparison on its way. The caller has an end of the channel itself, from which those of the
workers are made. What was received stands in the order in which it came. -/
structure Pipeline where
  worker : Side → Worker
  ownEnd : Bool
  channel : List Delivery
  received : List Delivery
  phase : Phase

namespace Pipeline

/-- The channel holds one result for each side. -/
def capacity : Nat := 2

def start : Pipeline := ⟨fun _ => .waiting, false, [], [], .checking⟩

def setWorker (t : Pipeline) (side : Side) (w : Worker) : Pipeline :=
  { t with worker := fun other => if other = side then w else t.worker other }

@[simp] theorem worker_setWorker (t : Pipeline) (side : Side) (w : Worker) (other : Side) :
    (t.setWorker side w).worker other = if other = side then w else t.worker other := rfl

@[simp] theorem channel_setWorker (t : Pipeline) (side : Side) (w : Worker) :
    (t.setWorker side w).channel = t.channel := rfl

@[simp] theorem ownEnd_setWorker (t : Pipeline) (side : Side) (w : Worker) :
    (t.setWorker side w).ownEnd = t.ownEnd := rfl

@[simp] theorem phase_setWorker (t : Pipeline) (side : Side) (w : Worker) :
    (t.setWorker side w).phase = t.phase := rfl

def job (plan actual : ScenarioDecl) : Side → Except ScenarioError CaseSet
  | .planned => plan.build
  | .done => actual.build

def conclude (s : Settings) (ds : List Delivery) : Except ScenarioError Reconciliation := do
  let (planned, done) ← Delivery.assemble ds
  reconcile s planned done

/-- One step of the caller or of a worker. Both workers can be started, and none is interrupted. -/
inductive Step (s : Settings) (plan actual : ScenarioDecl) : Pipeline → Pipeline → Prop
  | refuse {t : Pipeline} {e : ValidationError} (checking : t.phase = .checking)
      (invalid : s.validate = .error e) :
      Step s plan actual t { t with phase := .returned (.error (.validation e)) }
  | accept {t : Pipeline} (checking : t.phase = .checking) (valid : s.validate = .ok ()) :
      Step s plan actual t { t with phase := .starting [.planned, .done], ownEnd := true }
  | launch {t : Pipeline} {side : Side} {left : List Side}
      (starting : t.phase = .starting (side :: left)) (own : t.ownEnd = true) :
      Step s plan actual t { t.setWorker side .building with phase := .starting left }
  | release {t : Pipeline} (started : t.phase = .starting []) (own : t.ownEnd = true) :
      Step s plan actual t { t with ownEnd := false }
  | listen {t : Pipeline} (started : t.phase = .starting []) (released : t.ownEnd = false) :
      Step s plan actual t { t with phase := .receiving }
  | send {t : Pipeline} {side : Side} (building : t.worker side = .building)
      (heard : ∀ result, t.phase ≠ .returned result) (room : t.channel.length < capacity) :
      Step s plan actual t
        { t.setWorker side .sent with channel := t.channel ++ [⟨side, job plan actual side⟩] }
  -- nobody is there to receive any more
  | drop {t : Pipeline} {side : Side} {result : Except ScenarioError Reconciliation}
      (building : t.worker side = .building) (unheard : t.phase = .returned result) :
      Step s plan actual t (t.setWorker side .sent)
  | leave {t : Pipeline} {side : Side} (sent : t.worker side = .sent) :
      Step s plan actual t (t.setWorker side .gone)
  | receive {t : Pipeline} {d : Delivery} {ds : List Delivery} (receiving : t.phase = .receiving)
      (first : t.channel = d :: ds) :
      Step s plan actual t { t with channel := ds, received := t.received ++ [d] }
  -- an empty channel is closed once nobody holds its other end
  | hangUp {t : Pipeline} (receiving : t.phase = .receiving) (empty : t.channel = [])
      (released : t.ownEnd = false) (gone : ∀ side, t.worker side = .gone) :
      Step s plan actual t { t with phase := .joining [.planned, .done] }
  | join {t : Pipeline} {side : Side} {left : List Side}
      (joining : t.phase = .joining (side :: left)) (gone : t.worker side = .gone) :
      Step s plan actual t { t with phase := .joining left }
  | finish {t : Pipeline} (joined : t.phase = .joining []) :
      Step s plan actual t { t with phase := .returned (conclude s t.received) }

end Pipeline

end NetWorth
