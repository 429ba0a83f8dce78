import Mathlib.Data.List.Nodup
import Stepwise.Proofs.Catalog
import Stepwise.Proofs.Number.Exact
import Stepwise.Proofs.Session.Edit
import Stepwise.Solution.Solve

/-!
# Advice that helps

A hint comes with edits, and an edit is no use unless a line can say it and the check
that gave the advice is content with it. That is a matter of what the catalogs declare:

> `Registry.Helpful`: names and values that can be written, one text for each check, and
> actions that settle the check that suggests them.

The catalogs that come with the solver are so (`helpful_builtin`).
-/

namespace Stepwise

/-! ## What assumptions say -/

/-- The name that a message begins with. -/
def subject (message : String) : List Char := message.toList.takeWhile isNameChar

/-- Whether a message says of a name that it is implicitly something. -/
def saysImplicit (message : String) : Bool :=
  " is implicitly ".toList.isPrefixOf (message.toList.dropWhile isNameChar)

section Assumption

variable {name : String}

theorem toList_assumption (name : String) (value : Float) :
    (Move.assumption name value).message.toList =
      name.toList ++ (" is implicitly ".toList ++ (Number.text value).toList) := by
  show (name ++ " is implicitly " ++ Number.text value).toList = _
  rw [String.toList_append, String.toList_append, List.append_assoc]

/-- An assumption begins with its name: the blank behind it is no name character. -/
theorem subject_assumption (hname : IsName name) (value : Float) :
    subject (Move.assumption name value).message = name.toList := by
  unfold subject
  rw [toList_assumption]
  exact (Text.takeWhile_run _ hname (by rintro _ ⟨⟩; rfl)).1

theorem saysImplicit_assumption (hname : IsName name) (value : Float) :
    saysImplicit (Move.assumption name value).message = true := by
  unfold saysImplicit
  rw [toList_assumption, (Text.takeWhile_run _ hname (by rintro _ ⟨⟩; rfl)).2,
    List.isPrefixOf_iff_prefix]
  exact List.prefix_append ..

end Assumption

/-! ## Edits that settle a check -/

/-- An edit that a line can say, of values alone, on which the check does not fire. -/
structure Warning.Settles (w : Warning) (b : Bindings) (action : Button) : Prop where
  writable : action.Writable
  libraries : action.libraries = []
  hints : action.hints = []
  quiet : w.check (b.insertAll action.set.entries) = none

namespace Warning

variable {id name : String} {fires : Float → Bool} {advice : Float → Advice} {b : Bindings}

theorem check_onValue_eq_some_iff {a : Advice} :
    (onValue id name fires advice).check b = some a ↔
      ∃ value, b.get? name = some value ∧ fires value = true ∧ advice value = a := by
  show (b.get? name).bind _ = some a ↔ _
  rw [Option.bind_eq_some_iff]
  refine exists_congr fun value => and_congr_right fun _ => ?_
  rw [Option.ite_none_right_eq_some, Option.some.injEq]

/-- Setting the value that is checked to one on which the check does not fire. -/
theorem settles_setting {value : Float} (text : String) (hname : IsName name)
    (hvalue : Number.isFinite value = true) (hquiet : fires value = false) :
    (onValue id name fires advice).Settles b (Button.setting text name value).recommended where
  writable := (Button.writable_setting text hname hvalue).recommended
  libraries := rfl
  hints := rfl
  quiet := by
    show ((b.insert name value).get? name).bind _ = none
    rw [Bindings.get?_insert, if_pos rfl, Option.bind_some, hquiet]
    rfl

/-- Flipping the sign of a value that is checked for being above zero: it is below then. -/
theorem settles_flip {value : Float} (text : String) (hname : IsName name)
    (hvalue : Number.isFinite value = true) (hfires : decide (0.0 < value) = true) :
    (onValue id name (0.0 < ·) advice).Settles b (Button.setting text name (-value)).recommended := by
  have hrank := Number.isFinite_iff.1 hvalue
  refine settles_setting text hname (Number.isFinite_iff.2 ?_) (decide_eq_false ?_)
  · rwa [Binary.rank_neg hrank]
  · exact Binary.not_pos_neg hrank (of_decide_eq_true hfires)

end Warning

/-! ## Catalogs whose advice helps -/

namespace Registry

/-- The checks of all catalogs at hand. -/
def checks (r : Registry) : List Warning := r.catalogs.flatMap (·.warnings)

/-- What catalogs must declare so that every suggested edit does what it is for. -/
structure Helpful (r : Registry) : Prop where
  /-- What is suggested to a user who has imported nothing is there. -/
  onboarding : ∀ button ∈ onboarding.buttons, ∀ name ∈ button.libraries, ∃ c, r.get? name = some c
  /-- Defaults can be written. -/
  defaults : ∀ i ∈ implicitsOf r.catalogs, IsName i.1 ∧ Number.isFinite i.2 = true
  /-- Hints that silence a check can be written. -/
  bypasses : ∀ w ∈ r.checks, IsName w.bypass
  /-- A check says what neither the onboarding nor an assumption says. -/
  texts : ∀ w ∈ r.checks, ∀ b advice, w.check b = some advice →
    advice.text ≠ Stepwise.onboarding.message ∧ saysImplicit advice.text = false
  /-- Different checks say different things. -/
  distinct : ∀ w ∈ r.checks, ∀ w' ∈ r.checks, ∀ b b' advice advice',
    w.check b = some advice → w'.check b' = some advice' → advice.text = advice'.text → w = w'
  /-- What a check advises on finite values settles it. -/
  settles : ∀ w ∈ r.checks, ∀ b, (∀ entry ∈ b.entries, Number.isFinite entry.2 = true) →
    ∀ advice, w.check b = some advice → ∀ action ∈ advice.actions, w.Settles b action

end Registry

/-! ## The catalogs that come with the solver -/

namespace Kinematics

/-- What the checks say, each under its name. -/
def texts : List (String × String) :=
  [("negative-displacement", "The displacement is positive"),
   ("negative-accel", "The acceleration is positive"),
   ("realistic-gravity",
    "The acceleration is not -10 m/s², which is the acceleration used in physics problems")]

variable {w w' : Warning} {b : Bindings} {advice : Advice}

theorem mem_texts (hw : w ∈ warnings) (hcheck : w.check b = some advice) :
    (w.id, advice.text) ∈ texts := by
  simp only [warnings, List.mem_cons, List.not_mem_nil, or_false] at hw
  rcases hw with rfl | rfl | rfl
  · obtain ⟨value, -, -, rfl⟩ := Warning.check_onValue_eq_some_iff.1 hcheck
    exact List.mem_cons_self
  · obtain ⟨value, -, -, rfl⟩ := Warning.check_onValue_eq_some_iff.1 hcheck
    exact List.mem_cons_of_mem _ List.mem_cons_self
  · obtain ⟨value, -, -, rfl⟩ := Warning.check_onValue_eq_some_iff.1 hcheck
    exact List.mem_cons_of_mem _ (List.mem_cons_of_mem _ List.mem_cons_self)

/-- A check is known by what it says. -/
theorem eq_of_text_eq {b' : Bindings} {advice' : Advice} (hw : w ∈ warnings) (hw' : w' ∈ warnings)
    (hcheck : w.check b = some advice) (hcheck' : w'.check b' = some advice')
    (htext : advice.text = advice'.text) : w = w' := by
  have hids : (warnings.map Warning.id).Nodup := by decide
  have htexts : (texts.map (·.2)).Nodup := by decide
  have hentry := List.inj_on_of_nodup_map htexts (mem_texts hw hcheck) (mem_texts hw' hcheck') htext
  exact List.inj_on_of_nodup_map hids hw hw' (congrArg Prod.fst hentry)

/-- **What kinematics advises settles the check that advises it.** -/
theorem settles (hw : w ∈ warnings)
    (hfinite : ∀ entry ∈ b.entries, Number.isFinite entry.2 = true)
    (hcheck : w.check b = some advice) {action : Button} (haction : action ∈ advice.actions) :
    w.Settles b action := by
  have hentry : ∀ {name value}, b.get? name = some value → Number.isFinite value = true :=
    fun hvalue => hfinite _ (Bindings.mem_entries_iff.2 hvalue)
  simp only [warnings, List.mem_cons, List.not_mem_nil, or_false] at hw
  rcases hw with rfl | rfl | rfl
  · obtain ⟨value, hvalue, hfires, rfl⟩ := Warning.check_onValue_eq_some_iff.1 hcheck
    rw [List.mem_singleton.1 haction]
    exact Warning.settles_flip _ (by decide) (hentry hvalue) hfires
  · obtain ⟨value, hvalue, hfires, rfl⟩ := Warning.check_onValue_eq_some_iff.1 hcheck
    rw [List.mem_singleton.1 haction]
    exact Warning.settles_flip _ (by decide) (hentry hvalue) hfires
  · obtain ⟨value, -, -, rfl⟩ := Warning.check_onValue_eq_some_iff.1 hcheck
    rw [List.mem_singleton.1 haction]
    exact Warning.settles_setting _ (by decide) (by decide +kernel) (by decide +kernel)

end Kinematics

namespace Registry

theorem catalogs_builtin :
    builtin.catalogs = [Kinematics.catalog, Slopes.catalog, UnitCircle.catalog] := rfl

/-- Only kinematics has checks. -/
theorem checks_builtin : builtin.checks = Kinematics.warnings := rfl

/-- **The catalogs that come with the solver give advice that helps.** -/
theorem helpful_builtin : builtin.Helpful where
  onboarding := by
    refine List.forall_mem_cons.2 ⟨?_, List.forall_mem_singleton.2 ?_⟩
    · exact List.forall_mem_singleton.2 ⟨Kinematics.catalog, rfl⟩
    · exact List.forall_mem_singleton.2 ⟨Slopes.catalog, rfl⟩
  defaults := by
    rw [catalogs_builtin]
    decide +kernel
  bypasses := by
    rw [checks_builtin]
    decide
  texts := by
    have htexts : ∀ e ∈ Kinematics.texts,
        e.2 ≠ Stepwise.onboarding.message ∧ saysImplicit e.2 = false := by decide
    intro w hw b advice hcheck
    exact htexts _ (Kinematics.mem_texts (checks_builtin ▸ hw) hcheck)
  distinct := by
    intro w hw w' hw' b b' advice advice'
    exact Kinematics.eq_of_text_eq (checks_builtin ▸ hw) (checks_builtin ▸ hw')
  settles := by
    intro w hw b hfinite advice hcheck action
    exact Kinematics.settles (checks_builtin ▸ hw) hfinite hcheck

end Registry

end Stepwise
