import NetWorth.Proofs.Reconciliation.Labeling
import NetWorth.Settings

/-! Whether labels keep the two versions of things apart. A label and a name are joined by a colon,
and both may have colons of their own: where one label goes on after the other one, a planned and a
done possession can come to have the same name. -/
namespace NetWorth

namespace Possession

private theorem toList_labelName (label name : String) :
    (labelName label name).toList = label.toList ++ ':' :: ' ' :: name.toList := by
  simp [labelName, String.toList_append]

/-- The rest of a label before the next colon ends either at once or with a colon of its own. -/
private theorem colon_append {n m as : List Char} (h : ':' :: ' ' :: n = as ++ ':' :: ' ' :: m) :
    (as = [] ∧ n = m) ∨ ∃ y, as = ':' :: ' ' :: y ∧ n = y ++ ':' :: ' ' :: m := by
  match as, h with
  | [], h => exact .inl ⟨rfl, by simpa using h⟩
  | [c], h => exact absurd (List.cons.inj (List.cons.inj h).2).1 (by decide)
  | c :: b :: y, h =>
    obtain ⟨hc, h⟩ := List.cons.inj h
    obtain ⟨hb, h⟩ := List.cons.inj h
    exact .inr ⟨y, by rw [← hc, ← hb], h⟩

private theorem labelName_eq_of_append {a b n m as : List Char} (hb : b = a ++ as)
    (h : ':' :: ' ' :: n = as ++ ':' :: ' ' :: m) :
    (a = b ∧ n = m) ∨ ∃ y, b = a ++ ':' :: ' ' :: y ∧ n = y ++ ':' :: ' ' :: m := by
  rcases colon_append h with ⟨rfl, hn⟩ | ⟨y, rfl, hn⟩
  · exact .inl ⟨by simpa using hb.symm, hn⟩
  · exact .inr ⟨y, hb, hn⟩

/-- Two labeled names are equal only if both parts are, or if one label begins with the other one
and a colon, and the other name with what then follows. -/
theorem labelName_eq_iff {a b n m : String} :
    labelName a n = labelName b m ↔
      (a = b ∧ n = m) ∨ (∃ y, b = labelName a y ∧ n = labelName y m) ∨
        ∃ y, a = labelName b y ∧ m = labelName y n := by
  constructor
  · intro h
    have hl := congrArg String.toList h
    rw [toList_labelName, toList_labelName, List.append_eq_append_iff] at hl
    have text {x u : String} {y : List Char} (hx : x.toList = u.toList ++ ':' :: ' ' :: y) :
        x = labelName u (String.ofList y) := by
      rw [← String.toList_inj, toList_labelName, String.toList_ofList]
      exact hx
    have rest {x v : String} {y : List Char} (hx : x.toList = y ++ ':' :: ' ' :: v.toList) :
        x = labelName (String.ofList y) v := by
      rw [← String.toList_inj, toList_labelName, String.toList_ofList]
      exact hx
    -- one of the two labels begins with the other one
    rcases hl with ⟨as, hb, hn⟩ | ⟨as, ha, hm⟩
    · rcases labelName_eq_of_append hb hn with ⟨hab, hnm⟩ | ⟨y, hb, hn⟩
      · exact .inl ⟨String.toList_inj.mp hab, String.toList_inj.mp hnm⟩
      · exact .inr (.inl ⟨String.ofList y, text hb, rest hn⟩)
    · rcases labelName_eq_of_append ha hm with ⟨hba, hmn⟩ | ⟨y, ha, hm⟩
      · exact .inl ⟨(String.toList_inj.mp hba).symm, (String.toList_inj.mp hmn).symm⟩
      · exact .inr (.inr ⟨String.ofList y, text ha, rest hm⟩)
  · rintro (⟨rfl, rfl⟩ | ⟨y, rfl, rfl⟩ | ⟨y, rfl, rfl⟩)
    · rfl
    · simp [labelName, String.append_assoc]
    · simp [labelName, String.append_assoc]

end Possession

open Possession (labelName labelName_eq_iff)

/-- A planned and a done possession of these names have the same labeled name. -/
def Settings.Confuses (s : Settings) (planned done : String) : Prop :=
  (∃ y, s.doneLabel = s.plannedLabel ++ ": " ++ y ∧ planned = y ++ ": " ++ done) ∨
    ∃ y, s.plannedLabel = s.doneLabel ++ ": " ++ y ∧ done = y ++ ": " ++ planned

/-- Under valid labels, two labeled names are equal exactly if the settings confuse them. -/
theorem Settings.labelName_eq_iff_confuses {s : Settings} (hv : s.validate = .ok ())
    {planned done : String} :
    labelName s.plannedLabel planned = labelName s.doneLabel done ↔ s.Confuses planned done := by
  obtain ⟨-, -, -, hne⟩ := validate_eq_ok_iff.mp hv
  rw [labelName_eq_iff, or_iff_right fun h => hne h.1]
  rfl

namespace Estate
variable {e : Estate} {label : String} {date : Date}

theorem names_labeled (e : Estate) (label : String) (date : Date) :
    (e.labeled label date).map (·.name) = e.possessions.map fun p => labelName label p.name := by
  rw [labeled_eq, List.map_map]
  apply List.map_congr_left
  intro p _
  simp [Possession.name_label]

/-- One label keeps different names different. -/
theorem nodup_labeled (h : (e.possessions.map (·.name)).Nodup) :
    ((e.labeled label date).map (·.name)).Nodup := by
  have hinj : Function.Injective (labelName label) := fun n m hnm =>
    (String.append_right_inj (label ++ ": ")).mp hnm
  rw [names_labeled]
  simpa [List.map_map, Function.comp_def] using h.map hinj

theorem find?_labeled (h : (e.possessions.map (·.name)).Nodup) {q : Possession}
    (hq : q ∈ e.possessions) :
    (e.labeled label date).find? (fun p => p.name = labelName label q.name) =
      some ((q.restated date).label label) := by
  have hmem : (q.restated date).label label ∈ e.labeled label date := List.mem_map_of_mem hq
  have hname : ((q.restated date).label label).name = labelName label q.name := by
    rw [Possession.name_label, Possession.name_restated]
  cases hf : (e.labeled label date).find? fun p => p.name = labelName label q.name with
  | none => exact absurd (decide_eq_true hname) (List.find?_eq_none.mp hf _ hmem)
  | some p =>
    have hp : p.name = labelName label q.name := by simpa using List.find?_some hf
    rw [List.inj_on_of_nodup_map (nodup_labeled h) (List.mem_of_find?_eq_some hf) hmem
      (hp.trans hname.symm)]

/-- Under a name that no labeled possession has, nothing is found. -/
theorem find?_labeled_eq_none {name : String}
    (h : ∀ p ∈ e.possessions, labelName label p.name ≠ name) :
    (e.labeled label date).find? (fun p => p.name = name) = none := by
  refine List.find?_eq_none.mpr fun p hp he => ?_
  have hmem : p.name ∈ (e.labeled label date).map (·.name) := List.mem_map_of_mem hp
  rw [names_labeled] at hmem
  obtain ⟨q, hq, hn⟩ := List.mem_map.mp hmem
  exact h q hq (hn.trans (of_decide_eq_true he))

end Estate

section
variable {s : Settings} {p d : Case}

/-- All names of a merged case are different exactly if no two of them are confused. -/
private theorem nodup_joined_iff (hv : s.validate = .ok ())
    (hp : (p.estate.possessions.map (·.name)).Nodup)
    (hd : (d.estate.possessions.map (·.name)).Nodup) :
    ((p.joined d s).estate.possessions.map (·.name)).Nodup ↔
      ∀ a ∈ p.estate.possessions, ∀ b ∈ d.estate.possessions, ¬ s.Confuses a.name b.name := by
  rw [Case.possessions_joined, List.map_append, List.nodup_append,
    and_iff_right (Estate.nodup_labeled hp), and_iff_right (Estate.nodup_labeled hd),
    Estate.names_labeled, Estate.names_labeled]
  simp only [List.forall_mem_map, ne_eq, Settings.labelName_eq_iff_confuses hv]

/-- The planned side stands first, so that each of its possessions is found. -/
private theorem find?_planned (hp : (p.estate.possessions.map (·.name)).Nodup) {q : Possession}
    (hq : q ∈ p.estate.possessions) :
    (p.joined d s).estate.possession? (labelName s.plannedLabel q.name) =
      some ((q.restated p.start).label s.plannedLabel) := by
  rw [Estate.possession?, Case.possessions_joined, List.find?_append, Estate.find?_labeled hp hq]
  rfl

/-- The done version is found under its name unless a planned possession stands before it. -/
private theorem find?_done_iff (hv : s.validate = .ok ())
    (hp : (p.estate.possessions.map (·.name)).Nodup)
    (hd : (d.estate.possessions.map (·.name)).Nodup) {q : Possession}
    (hq : q ∈ d.estate.possessions) :
    (p.joined d s).estate.possession? (labelName s.doneLabel q.name) =
        some ((q.restated p.start).label s.doneLabel) ↔
      ∀ a ∈ p.estate.possessions, ¬ s.Confuses a.name q.name := by
  constructor
  · intro h a ha hc
    have hname := (Settings.labelName_eq_iff_confuses hv).mpr hc
    rw [← hname, find?_planned hp ha, Option.some.injEq] at h
    -- both versions carry their label in front, and the labels differ
    have hlabel := (Possession.labeled.inj h).1
    exact (Settings.validate_eq_ok_iff.mp hv).2.2.2 hlabel
  · intro h
    have hfree : ∀ a ∈ p.estate.possessions,
        labelName s.plannedLabel a.name ≠ labelName s.doneLabel q.name :=
      fun a ha hn => h a ha ((Settings.labelName_eq_iff_confuses hv).mp hn)
    rw [Estate.possession?, Case.possessions_joined, List.find?_append,
      Estate.find?_labeled_eq_none hfree, Estate.find?_labeled hd hq]
    rfl

end

/-- The planned version of a thing is always found under its labeled name. All names of a merged
case are different, and the done versions are found as well, unless one label goes on after the
other one in the same way as the name of a possession goes on after another one. -/
theorem merge_keeps_apart {s : Settings} (hv : s.validate = .ok ()) {p d : Case}
    (hp : (p.estate.possessions.map (·.name)).Nodup)
    (hd : (d.estate.possessions.map (·.name)).Nodup) :
    ∃ c, p.merge d s = .ok c ∧
      ((c.estate.possessions.map (·.name)).Nodup ↔
        ∀ a ∈ p.estate.possessions, ∀ b ∈ d.estate.possessions, ¬ s.Confuses a.name b.name) ∧
      (∀ a ∈ p.estate.possessions, c.estate.possession? (s.plannedLabel ++ ": " ++ a.name) =
        some ((a.restated c.start).label s.plannedLabel)) ∧
      ∀ b ∈ d.estate.possessions,
        (c.estate.possession? (s.doneLabel ++ ": " ++ b.name) =
            some ((b.restated c.start).label s.doneLabel) ↔
          ∀ a ∈ p.estate.possessions, ¬ s.Confuses a.name b.name) :=
  ⟨p.joined d s, p.merge_eq d s, nodup_joined_iff hv hp hd, fun _ ha => find?_planned hp ha,
    fun _ hb => find?_done_iff hv hp hd hb⟩

/-- Labels of which one goes on after the other one. -/
def nestedLabels : Settings where
  plannedLabel := "A"
  doneLabel := "A: B"

def purseNamed (name : String) (value : Amount) : Case :=
  ⟨"purses", ⟨"purses", "Ada", Date.first, [.cash name Date.first value]⟩, Date.last, [], by decide⟩

theorem merge_keeps_purses_apart : nestedLabels.validate = .ok () ∧
    ∃ c, (purseNamed "purse" 1).merge (purseNamed "purse" 2) nestedLabels = .ok c ∧
      (c.estate.possessions.map (·.name)).Nodup ∧
      c.estate.possession? "A: B: purse" =
        some ((Possession.cash "purse" Date.first 2).label "A: B") := by
  have hv : nestedLabels.validate = .ok () := by decide
  obtain ⟨c, hc, hnodup, _, hdone⟩ := merge_keeps_apart hv
    (p := purseNamed "purse" 1) (d := purseNamed "purse" 2) (by decide) (by decide)
  have hn : (c.estate.possessions.map (·.name)).Nodup := by
    cases hc
    decide
  have hpurse := List.mem_singleton_self (Possession.cash "purse" Date.first 2)
  have hfound := (hdone _ hpurse).mpr fun a ha => hnodup.mp hn a ha _ hpurse
  refine ⟨hv, c, hc, hn, hfound.trans ?_⟩
  cases hc
  rfl

/-- A name that begins with the rest of the other label: both purses are called the same, and the
planned one is found in place of the done one. -/
theorem nested_labels_confuse : nestedLabels.validate = .ok () ∧
    ((purseNamed "B: purse" 1).estate.possessions.map (·.name)).Nodup ∧
    ((purseNamed "purse" 2).estate.possessions.map (·.name)).Nodup ∧
    ∃ c, (purseNamed "B: purse" 1).merge (purseNamed "purse" 2) nestedLabels = .ok c ∧
      ¬ (c.estate.possessions.map (·.name)).Nodup ∧
      c.estate.possession? ("A: B" ++ ": " ++ "purse") =
        some ((Possession.cash "B: purse" Date.first 1).label "A") := by
  refine ⟨by decide, by decide, by decide, _, rfl, by decide, rfl⟩

end NetWorth
