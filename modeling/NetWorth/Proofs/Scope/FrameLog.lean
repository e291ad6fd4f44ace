import Mathlib.Data.Finset.Card
import Mathlib.Data.Finset.Dedup
import NetWorth.Proofs.Scope.Moves

/-! The frames of a whole run. The log numbers them as they are opened and forgets none; a name has
the value that it was given in the latest of the open frames that bind it. -/
namespace NetWorth

/-- The frames of a run, each with the number it was opened as. What was bound in a frame stays on
record when the frame is closed. -/
structure FrameLog where
  opened : Nat
  live : Finset Nat
  binding : Nat → String → Option Value

namespace FrameLog

def start : FrameLog := ⟨0, {0}, fun _ _ => none⟩

/-- The frame is open, and none that was opened after it still is. -/
def Latest (log : FrameLog) (n : Nat) : Prop := n ∈ log.live ∧ ∀ m ∈ log.live, m ≤ n

instance (log : FrameLog) : DecidablePred log.Latest :=
  fun n => inferInstanceAs (Decidable (n ∈ log.live ∧ ∀ m ∈ log.live, m ≤ n))

def push (log : FrameLog) : FrameLog :=
  { log with opened := log.opened + 1, live := insert (log.opened + 1) log.live }

def pop (log : FrameLog) : FrameLog :=
  if log.live.card = 1 then log
  else { log with live := log.live.filter fun n => ¬ log.Latest n }

/-- A name is bound in the latest open frame. The first binding there stands. -/
def bind (log : FrameLog) (name : String) (value : Value) : FrameLog :=
  { log with binding := fun n other =>
      if log.Latest n ∧ other = name then (log.binding n other).or (some value)
      else log.binding n other }

/-- The log after a move. The scope is that before the move; a declared expression is evaluated
there. -/
def move (log : FrameLog) (s : Scope) : ScopeMove → FrameLog
  | .push => log.push
  | .pop => log.pop
  | .bind name value => log.bind name value
  | .declare d =>
    match d.value.eval s with
    | .ok value => log.bind d.name value
    | .error _ => log

def run (log : FrameLog) (s : Scope) : List ScopeMove → FrameLog
  | [] => log
  | m :: ms => (log.move s m).run (s.move m).1 ms

/-- The latest open frame with the name has this value for it. -/
def Shows (log : FrameLog) (name : String) (value : Value) : Prop :=
  ∃ n ∈ log.live, log.binding n name = some value ∧
    ∀ m ∈ log.live, n < m → log.binding m name = none

/-- What each frame of a scope has is what was bound in the frame of its number. -/
structure Describes (log : FrameLog) (s : Scope) (latest : Nat) (others : List Nat) : Prop where
  live : log.live = (latest :: others).toFinset
  later : (latest :: others).Pairwise (· > ·)
  opened : latest ≤ log.opened
  unopened : ∀ n, log.opened < n → log.binding n = fun _ => none
  innermost : (fun name => s.innermost.lookup name) = log.binding latest
  outer : s.outer.map (fun frame name => frame.lookup name) = others.map log.binding

variable {log : FrameLog} {s : Scope} {latest : Nat} {others : List Nat}

/-- At the start, the log has the one frame there is. -/
theorem describes_start : start.Describes .empty 0 [] where
  live := rfl
  later := List.pairwise_singleton _ _
  opened := le_rfl
  unopened _ _ := rfl
  innermost := rfl
  outer := rfl

namespace Describes

theorem lt_latest (h : log.Describes s latest others) {n : Nat} (hn : n ∈ others) : n < latest :=
  List.rel_of_pairwise_cons h.later hn

theorem le_latest (h : log.Describes s latest others) {n : Nat} (hn : n ∈ latest :: others) :
    n ≤ latest := by
  rcases List.mem_cons.mp hn with rfl | hn
  · exact le_rfl
  · exact le_of_lt (h.lt_latest hn)

/-- The latest open frame of the log is the innermost one of the scope. -/
theorem latest_iff (h : log.Describes s latest others) (n : Nat) :
    log.Latest n ↔ n = latest := by
  simp only [Latest, h.live, List.mem_toFinset]
  constructor
  · rintro ⟨hn, hmax⟩
    exact le_antisymm (h.le_latest hn) (hmax latest List.mem_cons_self)
  · rintro rfl
    exact ⟨List.mem_cons_self, fun m => h.le_latest⟩

theorem frames (h : log.Describes s latest others) :
    s.frames.map (fun frame name => frame.lookup name) = (latest :: others).map log.binding :=
  congrArg₂ List.cons h.innermost h.outer

/-- There are as many frames as the log has open ones. -/
theorem depth_eq (h : log.Describes s latest others) : s.depth = log.live.card := by
  have hnodup := h.later.imp fun {n m} (hlt : n > m) => ne_of_gt hlt
  have hlength := congrArg List.length h.outer
  rw [List.length_map, List.length_map] at hlength
  rw [h.live, List.toFinset_card_of_nodup hnodup, Scope.depth, Scope.frames, List.length_cons,
    List.length_cons, hlength]

/-- A frame that is opened gets the next number. -/
theorem push (h : log.Describes s latest others) :
    log.push.Describes s.push (log.opened + 1) (latest :: others) where
  live := by rw [FrameLog.push, h.live, List.toFinset_cons (a := log.opened + 1)]
  later := List.pairwise_cons.mpr
    ⟨fun _ hn => Nat.lt_succ_of_le (le_trans (h.le_latest hn) h.opened), h.later⟩
  opened := le_rfl
  unopened n hn := h.unopened n (Nat.lt_of_succ_lt hn)
  innermost := (h.unopened _ (Nat.lt_succ_self _)).symm
  outer := h.frames

/-- A frame that is closed is no longer open in the log; the only one stays open. -/
theorem pop (h : log.Describes s latest others) :
    ∃ latest others, log.pop.Describes s.pop latest others := by
  have hdepth := h.depth_eq
  have houter := h.outer
  unfold FrameLog.pop Scope.pop
  -- the scope stops at its last frame where it has no outer one, the log where one is open
  cases others with
  | nil =>
    have hroot : s.outer = [] := List.map_eq_nil_iff.mp houter
    have hsingle : log.live.card = 1 := by rw [← hdepth, Scope.depth, Scope.frames, hroot]; rfl
    rw [if_pos hsingle, hroot]
    exact ⟨latest, [], h⟩
  | cons next others =>
    obtain ⟨frame, outer, hs, hframe, hrest⟩ := List.map_eq_cons_iff.mp houter
    have hnested : log.live.card ≠ 1 := by
      rw [← hdepth, Scope.depth, Scope.frames, hs]
      simp
    rw [if_neg hnested, hs]
    refine ⟨next, others, ?_, h.later.of_cons, ?_, h.unopened, hframe, hrest⟩
    · ext n
      rw [Finset.mem_filter, h.latest_iff, h.live, List.mem_toFinset, List.mem_toFinset,
        List.mem_cons]
      constructor
      · rintro ⟨hn, hne⟩
        exact hn.resolve_left hne
      · exact fun hn => ⟨.inr hn, ne_of_lt (h.lt_latest hn)⟩
    · exact le_trans (le_of_lt (h.lt_latest List.mem_cons_self)) h.opened

theorem hasInnermost_iff (h : log.Describes s latest others) (name : String) :
    s.hasInnermost name ↔ ∃ n, log.Latest n ∧ log.binding n name ≠ none := by
  simp only [h.latest_iff, exists_eq_left]
  rw [← h.innermost, Scope.hasInnermost, Option.isSome_iff_ne_none]

/-- A binding enters the log as it enters the scope: not at all where the name is taken. -/
theorem bind (h : log.Describes s latest others) (name : String) (value : Value) :
    (log.bind name value).Describes (s.move (.bind name value)).1 latest others := by
  have hother (n : Nat) (hn : n ≠ latest) : (log.bind name value).binding n = log.binding n := by
    funext other
    exact if_neg fun hc => hn ((h.latest_iff n).mp hc.1)
  refine ⟨h.live, h.later, h.opened, fun n hn => ?_, ?_, ?_⟩
  · rw [hother n (ne_of_gt (lt_of_le_of_lt h.opened hn)), h.unopened n hn]
  · funext other
    rw [Scope.move, Scope.lookup_innermost_declare, congrFun h.innermost other, FrameLog.bind]
    simp only [h.latest_iff, true_and]
  · rw [Scope.move, Scope.outer_declare, h.outer]
    exact List.map_congr_left fun n hn => (hother n (ne_of_lt (h.lt_latest hn))).symm

/-- One move of any kind keeps log and scope together. -/
theorem move (h : log.Describes s latest others) (m : ScopeMove) :
    ∃ latest others, (log.move s m).Describes (s.move m).1 latest others := by
  cases m with
  | push => exact ⟨_, _, h.push⟩
  | pop => exact h.pop
  | bind name value => exact ⟨_, _, h.bind name value⟩
  | declare d =>
    cases hd : d.value.eval s with
    | ok value =>
      rw [FrameLog.move, hd, Scope.move_declare hd]
      exact ⟨_, _, h.bind d.name value⟩
    | error e =>
      rw [FrameLog.move, hd, Scope.move_declare_of_error hd]
      exact ⟨_, _, h⟩

/-- So does a whole run. -/
theorem run (h : log.Describes s latest others) (ms : List ScopeMove) :
    ∃ latest others, (log.run s ms).Describes (s.run ms) latest others := by
  induction ms generalizing log s latest others with
  | nil => exact ⟨_, _, h⟩
  | cons m ms ih =>
    obtain ⟨_, _, hm⟩ := h.move m
    exact ih hm

theorem lookup_eq (h : log.Describes s latest others) (name : String) :
    s.lookup name = (latest :: others).findSome? fun n => log.binding n name := by
  calc s.lookup name
      = (s.frames.map fun frame name => frame.lookup name).findSome? (· name) := by
        rw [List.findSome?_map]
        rfl
    _ = (latest :: others).findSome? fun n => log.binding n name := by
        rw [h.frames, List.findSome?_map]
        rfl

/-- What a scope finds under a name is what its log shows. -/
theorem lookup_eq_some_iff (h : log.Describes s latest others) (name : String) (value : Value) :
    s.lookup name = some value ↔ log.Shows name value := by
  have hlater := h.later
  simp only [h.lookup_eq, List.findSome?_eq_some_iff, Shows, h.live, List.mem_toFinset]
  constructor
  -- the frames are listed with the latest first, so those before one of them are the later ones
  · rintro ⟨before, n, after, hsplit, hn, hbefore⟩
    rw [hsplit] at hlater ⊢
    obtain ⟨_, hafter, _⟩ := List.pairwise_append.mp hlater
    refine ⟨n, List.mem_append_right _ List.mem_cons_self, hn, fun m hm hlt => ?_⟩
    rcases List.mem_append.mp hm with hm | hm
    · exact hbefore m hm
    · rcases List.mem_cons.mp hm with rfl | hm
      · exact absurd hlt (lt_irrefl _)
      · exact absurd hlt (lt_asymm (List.rel_of_pairwise_cons hafter hm))
  · rintro ⟨n, hmem, hn, hlatest⟩
    obtain ⟨before, after, hsplit⟩ := List.append_of_mem hmem
    rw [hsplit] at hlater hlatest
    obtain ⟨_, _, hgt⟩ := List.pairwise_append.mp hlater
    refine ⟨before, n, after, hsplit, hn, fun m hm => ?_⟩
    exact hlatest m (List.mem_append_left _ hm) (hgt m hm n List.mem_cons_self)

end Describes

def of (history : List ScopeMove) : FrameLog := start.run .empty history

end FrameLog

namespace Scope

def after (history : List ScopeMove) : Scope := Scope.empty.run history

/-- Whatever has been done to a scope, a name is looked up in the latest frame that is still open
and has it, a name can be bound once in a frame, a refusal changes nothing and a closed frame leaves
nothing behind. -/
theorem after_disciplined (history : List ScopeMove) :
    (0 < (after history).depth ∧ (after history).depth = (FrameLog.of history).live.card) ∧
    (∀ name value, (after history).lookup name = some value ↔
      (FrameLog.of history).Shows name value) ∧
    (∀ name value e, ((after history).move (.bind name value)).2 = .error e ↔
      (∃ n, (FrameLog.of history).Latest n ∧ (FrameLog.of history).binding n name ≠ none) ∧
        e = .duplicateVariable name) ∧
    (∀ name value, ((after history).move (.bind name value)).2 = .ok () →
      ∀ other, ((after history).move (.bind name value)).1.lookup other =
        if other = name then some value else (after history).lookup other) ∧
    (∀ d value, d.value.eval (after history) = .ok value →
      (after history).move (.declare d) = (after history).move (.bind d.name value)) ∧
    (∀ d e, d.value.eval (after history) = .error e →
      (after history).move (.declare d) = (after history, .error e)) ∧
    (∀ m e, ((after history).move m).2 = .error e →
      ((after history).move m).1 = after history) ∧
    ∀ ms, ScopeMove.Balanced ms →
      (after history).run (.push :: ms ++ [.pop]) = after history := by
  obtain ⟨_, _, hlog⟩ := FrameLog.describes_start.run history
  refine ⟨⟨Nat.succ_pos _, hlog.depth_eq⟩, hlog.lookup_eq_some_iff, fun name value e => ?_,
    fun _ _ => lookup_declare, fun _ _ => move_declare, fun _ _ => move_declare_of_error,
    fun _ _ => move_of_refused, fun _ hms => run_push_pop hms _⟩
  rw [move, declare_refused_iff]
  exact and_congr_left fun _ => hlog.hasInnermost_iff name

def shadowing : List ScopeMove :=
  [.bind "x" (.date .first), .pop, .push, .bind "x" (.date .last), .push,
    .declare ⟨"y", .date { base := .var "x" }⟩, .pop]

theorem after_disciplined_shadowing :
    (after shadowing).lookup "x" = some (.date .last) ∧
    ((after shadowing).move (.bind "x" (.date .first))).1 = after shadowing ∧
    (after shadowing).run [.push, .bind "x" (.date .first), .push, .pop, .pop] =
      after shadowing := by
  obtain ⟨_, hlookup, hrefused, _, _, _, hkept, hclosed⟩ := after_disciplined shadowing
  refine ⟨(hlookup _ _).mpr ⟨1, by decide, rfl, by decide⟩, ?_, ?_⟩
  · exact hkept _ _ ((hrefused _ _ _).mpr ⟨⟨1, by decide, by decide⟩, rfl⟩)
  · exact hclosed [.bind "x" (.date .first), .push, .pop] (.bind _ _ (.frame .nil .nil))

end Scope

end NetWorth
